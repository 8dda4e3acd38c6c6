import ChatForms.FileName
import ChatForms.StringMap

namespace ChatForms

/-- Why a file could not be read or written. -/
inductive FileFault where
  | notFound | notDirectory | isDirectory | nameTooLong | notText
  | other (reason : String)
deriving DecidableEq, Repr

def FileFault.message : FileFault → String
  | notFound => "No such file or directory (os error 2)"
  | notDirectory => "Not a directory (os error 20)"
  | isDirectory => "Is a directory (os error 21)"
  | nameTooLong => "File name too long (os error 36)"
  | notText => "stream did not contain valid UTF-8"
  | other reason => reason

/-- The files below a directory, each under its path with single slashes and without dots. A
directory inside exists as long as there is a file in it. -/
structure Directory where
  files : StringMap ByteArray

namespace Directory

def ofFiles (files : List (String × ByteArray)) : Directory :=
  ⟨.ofList (files.map fun f => ("/".intercalate (FileName.components f.1), f.2))⟩

/-- The path of a file from the names on the way to it, the last one first. -/
def path (names : List String) : String := "/".intercalate names.reverse

def hasFile (d : Directory) (names : List String) : Bool := (d.files.get? (path names)).isSome

def hasDirectory (d : Directory) (names : List String) : Bool :=
  names.isEmpty || d.files.keys.any fun file => (path names ++ "/").toList.isPrefixOf file.toList

/-- Where a path leads: to names below the directory, last one first, to a directory around it, or
to a name in such a directory. Nothing else is known about what lies outside. -/
inductive Place where
  | inside (names : List String)
  | around
  | outside
deriving DecidableEq, Repr

/-- Why nothing lies behind a place, if it is no directory that exists. -/
def fault? (d : Directory) : Place → Option FileFault
  | .inside names =>
    if d.hasDirectory names then none
    else some (if d.hasFile names then .notDirectory else .notFound)
  | .around => none
  | .outside => some .notFound

/-- The place that a name in a directory stands for. -/
def step : Place → String → Place
  | place, "" | place, "." => place
  | .inside [], ".." | .around, ".." => .around
  | .inside (_ :: outer), ".." => .inside outer
  | .inside names, part => .inside (part :: names)
  | .around, _ | .outside, _ => .outside

/-- The longest name that a file may have, and the length that no path reaches, both in bytes. -/
def maxName : Nat := 255

def maxPath : Nat := 4096

/-- Follows the names in a path, each of which needs a directory to stand in. -/
def walk (d : Directory) (place : Place) : List String → Except FileFault Place
  | [] => .ok place
  | part :: rest =>
    match d.fault? place with
    | some fault => .error fault
    | none =>
      if maxName < part.utf8ByteSize then .error .nameTooLong else d.walk (step place part) rest

def locate (d : Directory) (file : String) : Except FileFault Place :=
  if file = "" then .error .notFound
  else if maxPath ≤ file.utf8ByteSize then .error .nameTooLong
  else
    let start := if file.toList.head? = some '/' then .around else .inside []
    d.walk start ((Text.splitOn '/' file.toList).map String.ofList)

def read (d : Directory) (file : String) : Except FileFault ByteArray := do
  let place ← d.locate file
  if (d.fault? place).isNone then throw .isDirectory
  match place with
  | .inside names =>
    match d.files.get? (path names) with
    | some bytes => pure bytes
    | none => throw .notFound
  | _ => throw .notFound

/-- A path that ends with a slash cannot become a file. A file that is written outside leaves no
trace here. -/
def write (d : Directory) (file : String) (bytes : ByteArray) : Except FileFault Directory := do
  let trimmed := String.ofList (file.toList.reverse.dropWhile (· = '/')).reverse
  let place ← d.locate (if trimmed = "" then file else trimmed)
  if trimmed ≠ file || (d.fault? place).isNone then throw .isDirectory
  match place with
  | .inside names => pure ⟨d.files.insert (path names) bytes⟩
  | _ => pure d

end Directory
end ChatForms
