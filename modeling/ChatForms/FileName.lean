import ChatForms.Text.Split

namespace ChatForms.FileName

/-- The parts of a path that name something. Empty parts and single dots do not. -/
def components (path : String) : List String :=
  ((Text.splitOn '/' path.toList).map String.ofList).filter fun part => part ≠ "" && part ≠ "."

/-- The same path with an ending added to the name at its end, if there is one. -/
def append? (path ending : String) : Option String :=
  let parts := (Text.splitOn '/' path.toList).reverse
  match parts.dropWhile fun part => part = [] || part = ['.'] with
  | [] | ['.', '.'] :: _ => none
  | named => some ("/".intercalate (named.reverse.map String.ofList) ++ ending)

/-- What follows the last dot of a name. A dot in front of everything else begins a hidden name and
no extension. -/
def nameExtension? (name : String) : Option String :=
  let reversed := name.toList.reverse
  match reversed.dropWhile (· ≠ '.') with
  | [] | [_] => none
  | _ => some (String.ofList (reversed.takeWhile (· ≠ '.')).reverse)

/-- The extension of the file that a path leads to. Two dots lead to a directory. -/
def extension? (path : String) : Option String :=
  match (components path).getLast? with
  | none => none
  | some name => if name = ".." then none else nameExtension? name

end ChatForms.FileName
