import ChatForms.Settings.Value
import ChatForms.Text.Blank
import ChatForms.Text.Digits

namespace ChatForms.Settings

/-- One step from a value to a value inside it. An index below zero counts from the end. -/
inductive Step where
  | key (name : String)
  | index (i : Int)
deriving DecidableEq, Repr

/-- The way to a value, from a key of the outermost table on. -/
structure KeyPath where
  first : String
  rest : List Step
deriving DecidableEq, Repr

namespace KeyPath

def isKeyChar (c : Char) : Bool := c.isAlphanum || c == '_' || c == '-' || c == ' '

def readKey (cs : List Char) : Option (String × List Char) :=
  let name := cs.takeWhile isKeyChar
  if name.isEmpty then none else some (String.ofList name, cs.dropWhile isKeyChar)

/-- A number between brackets, perhaps below zero, and with gaps around it. -/
def readIndex (cs : List Char) : Option (Int × List Char) := do
  let cs := cs.dropWhile Text.isGap
  let negative := cs.head? == some '-'
  let unsigned := if negative then cs.drop 1 else cs
  let size ← Text.number? 10 (unsigned.takeWhile (Text.isDigit 10))
  let i : Int := if negative then -size else size
  match (unsigned.dropWhile (Text.isDigit 10)).dropWhile Text.isGap with
  | ']' :: rest => if fitsInteger i then some (i, rest) else none
  | _ => none

/-- Every step takes at least one character, so the length of the text bounds their number. -/
def readSteps : Nat → List Char → Option (List Step)
  | _, [] => some []
  | 0, _ => none
  | n + 1, '.' :: cs => do
    let (name, rest) ← readKey cs
    (readSteps n rest).map (.key name :: ·)
  | n + 1, '[' :: cs => do
    let (i, rest) ← readIndex cs
    (readSteps n rest).map (.index i :: ·)
  | _, _ => none

/-- Keys with dots before them, and indices in brackets, after a first key. -/
def parse? (s : String) : Option KeyPath := do
  let (first, rest) ← readKey s.toList
  (readSteps rest.length rest).map fun steps => ⟨first, steps⟩

end KeyPath

namespace Value

/-- Changes the item at an index. A list that is too short is filled up with nulls, at the end or,
for an index below zero, at the front. -/
def updateItem (i : Int) (f : Value → Value) (items : List Value) : List Value :=
  let position := if i < 0 then (i + items.length).toNat else i.toNat
  let before := if i < 0 then (-(i + items.length)).toNat else 0
  let widened := List.replicate before null ++ items
  (widened ++ List.replicate (position + 1 - widened.length) null).modify position f

/-- Sets a value at the end of some steps. A value on the way that has no keys or no items, as the
steps want them, gives way to one that has. -/
def putAt : List Step → Value → Value → Value
  | [], new, _ => new
  | [.key name], new, old => table (put name new old.asTable)
  | [.index i], new, old => list (updateItem i (fun _ => new) old.asList)
  | .key name :: rest, new, old =>
    let k := Text.lower name
    table (old.asTable.assign k (putAt rest new ((old.asTable.lookup k).getD null)))
  | .index i :: rest, new, old => list (updateItem i (putAt rest new) old.asList)

/-- The value with another one set inside it. -/
def setPath (old : Value) (path : KeyPath) (new : Value) : Value :=
  putAt (.key path.first :: path.rest) new old

end Value
end ChatForms.Settings
