import ChatForms.Settings.Basic
import ChatForms.Settings.KeyPath
import ChatForms.Toml.Document

namespace ChatForms.Settings

/-- A file to be read, with its text if it is there and holds text. -/
structure FileLayer where
  isRequired : Bool
  text : Option String
deriving DecidableEq, Repr

/-- Why no settings come of the layers. Which file or value is to blame, and for what, is left
out. -/
inductive LoadFault where
  | unreadableFile
  | malformedFile
  | unusableValue
deriving DecidableEq, Repr

/-- A short text in the place of an account that names the file or value and what is wrong with
it. -/
def LoadFault.message : LoadFault → String
  | unreadableFile => "a settings file is missing or holds no text"
  | malformedFile => "a settings file is not well-formed"
  | unusableValue => "a setting is missing or has an unusable value"

/-- Files and single assignments on top of the defaults, both in the order in which they came. Where
the order of assignments with different paths makes a difference, because the paths overlap, it is
a choice made here on which nothing should depend. -/
structure Layers where
  files : List FileLayer
  assignments : List (KeyPath × Value)

namespace Layers

def empty : Layers := ⟨[], []⟩

def addFile (l : Layers) (isRequired : Bool) (text : Option String) : Layers :=
  { l with files := l.files ++ [⟨isRequired, text⟩] }

/-- Refused if the key is not written as a path. -/
def assign? (l : Layers) (key : String) (v : Value) : Option Layers :=
  (KeyPath.parse? key).map fun path => { l with assignments := l.assignments ++ [(path, v)] }

/-- The outermost keys of a file may be paths; one that is none counts as a plain key. -/
def mergeTable (v : Value) (t : Table) : Value :=
  t.foldl
    (fun v e => match KeyPath.parse? e.1 with
      | some path => v.setPath path e.2
      | none => .table (Value.put e.1 e.2 v.asTable))
    v

/-- A file that need not be there may be missing, but the text of one that is there has to be
well-formed. -/
def mergeFile (v : Value) (f : FileLayer) : Except LoadFault Value :=
  match f.text with
  | some text =>
    match Toml.read text with
    | some t => .ok (mergeTable v t)
    | none => .error .malformedFile
  | none => if f.isRequired then .error .unreadableFile else .ok v

/-- Later layers win over earlier ones, and assignments over files. Values are examined only in the
end, so one that a later layer replaces does no harm. -/
def load (l : Layers) : Except LoadFault Settings := do
  let filed ← l.files.foldlM mergeFile defaults
  let assigned := l.assignments.foldl (fun v a => v.setPath a.1 a.2) filed
  match ofValue? assigned with
  | some s => pure s
  | none => throw .unusableValue

end Layers
end ChatForms.Settings
