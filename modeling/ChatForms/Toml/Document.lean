import ChatForms.Toml.Item
import ChatForms.Toml.Quoted
import ChatForms.Toml.Scalar

namespace ChatForms.Toml
open Settings (Value Table)

/-- Lists and tables may be nested, and keys be divided, less often than this. -/
def maxDepth : Nat := 80

def isKeyChar (c : Char) : Bool := c.isAlphanum || c == '_' || c == '-'

def readSimpleKey (cs : List Char) : Option (String × List Char) :=
  let run := cs.takeWhile isKeyChar
  if run.isEmpty then (readShort cs).map fun r => (String.ofList r.1, r.2)
  else some (String.ofList run, cs.drop run.length)

/-- Keys with dots between them, and gaps around keys and dots. -/
def readKeys : Nat → List Char → Option (List String × List Char)
  | 0, _ => none
  | n + 1, cs => do
    let (key, rest) ← readSimpleKey (skipGaps cs)
    match skipGaps rest with
    | '.' :: rest => do
      let (keys, rest) ← readKeys n rest
      pure (key :: keys, rest)
    | rest => pure ([key], rest)

def readPath (cs : List Char) : Option (List String × List Char) := readKeys (maxDepth - 1) cs

/-- What comes after a comment, which runs to the end of its line. -/
def skipComment (cs : List Char) : Option (List Char) :=
  match cs.dropWhile isPlain with
  | [] => some []
  | rest => newline? rest

/-- Gaps, comments and line ends are passed over. -/
def skipBlanks : Nat → List Char → Option (List Char)
  | 0, cs => some cs
  | n + 1, cs =>
    match skipGaps cs with
    | '#' :: rest => skipComment rest >>= skipBlanks n
    | cs =>
      match newline? cs with
      | some rest => skipBlanks n rest
      | none => some cs

/-- What comes after a line that says nothing more. -/
def endLine (cs : List Char) : Option (List Char) :=
  match skipGaps cs with
  | [] => some []
  | '#' :: rest => skipComment rest
  | rest => newline? rest

/-- The last key of a path, and those that lead to it. -/
def splitPath (path : List String) : List String × String := (path.dropLast, path.getLastD "")

mutual
/-- A value of any kind. `depth` counts the lists and tables around it. -/
def readValue : Nat → Nat → List Char → Option (Item × List Char)
  | 0, _, _ => none
  | n + 1, depth, cs =>
    match cs with
    | '[' :: rest =>
      if depth + 1 < maxDepth then
        (readItems n (depth + 1) rest).map fun r => (.list r.1, r.2)
      else none
    | '\x7b' :: rest =>
      if depth + 1 < maxDepth then
        (readMembers n (depth + 1) rest).map fun r => (.table .braced r.1, r.2)
      else none
    | '"' :: _ | '\x27' :: _ =>
      (readString cs).map fun r => (.value (.string (String.ofList r.1)), r.2)
    | _ => readScalar cs
/-- The items of a list up to its end. A comma may stand after the last one. -/
def readItems : Nat → Nat → List Char → Option (List Item × List Char)
  | 0, _, _ => none
  | n + 1, depth, cs => do
    match ← skipBlanks cs.length cs with
    | ']' :: rest => pure ([], rest)
    | cs => do
      let (item, rest) ← readValue n depth cs
      match ← skipBlanks rest.length rest with
      | ',' :: rest => do
        let (items, rest) ← readItems n depth rest
        pure (item :: items, rest)
      | ']' :: rest => pure ([item], rest)
      | _ => none
/-- The members of a table in braces, which all stand on one line. -/
def readMembers : Nat → Nat → List Char → Option (Entries Item × List Char)
  | 0, _, _ => none
  | n + 1, depth, cs =>
    match skipGaps cs with
    | '\x7d' :: rest => some ([], rest)
    | _ => readPairs n depth [] cs
/-- At least one member, and one after every comma. -/
def readPairs : Nat → Nat → Entries Item → List Char → Option (Entries Item × List Char)
  | 0, _, _, _ => none
  | n + 1, depth, before, cs => do
    let (path, rest) ← readPath cs
    match rest with
    | '=' :: rest => do
      let (item, rest) ← readValue n depth (skipGaps rest)
      let (steps, key) := splitPath path
      let entries ← Item.define steps key item before
      match skipGaps rest with
      | ',' :: rest => readPairs n depth entries rest
      | '\x7d' :: rest => pure (entries, rest)
      | _ => none
    | _ => none
end

/-- One line of a file that says something. -/
inductive Line where
  | header (path : List String)
  | element (path : List String)
  | pair (path : List String) (item : Item)

def readLine (cs : List Char) : Option (Line × List Char) :=
  match cs with
  | '[' :: '[' :: rest => do
    match ← readPath rest with
    | (path, ']' :: ']' :: rest) => pure (.element path, rest)
    | _ => none
  | '[' :: rest => do
    match ← readPath rest with
    | (path, ']' :: rest) => pure (.header path, rest)
    | _ => none
  | _ => do
    match ← readPath cs with
    | (path, '=' :: rest) => do
      let rest := skipGaps rest
      let (item, rest) ← readValue (2 * rest.length + 1) 0 rest
      pure (.pair path item, rest)
    | _ => none

def readLines : Nat → List Char → Option (List Line)
  | 0, _ => none
  | n + 1, cs => do
    match ← skipBlanks cs.length cs with
    | [] => pure []
    | cs => do
      let (line, rest) ← readLine cs
      (readLines n (← endLine rest)).map (line :: ·)

/-- `header` is the path of the table that the lines belong to. -/
def assemble (header : List String) (entries : Entries Item) : List Line → Option (Entries Item)
  | [] => some entries
  | .header path :: rest => do assemble path (← Item.openTable path entries) rest
  | .element path :: rest => do assemble path (← Item.openElement path entries) rest
  | .pair path item :: rest => do
    let (steps, key) := splitPath path
    assemble header (← Item.defineUnder header steps key item entries) rest

/-- The table that a file holds, if the file is well-formed and defines nothing twice. -/
def read (source : String) : Option Table := do
  let cs := if source.toList.head? = some '\uFEFF' then source.toList.drop 1 else source.toList
  let entries ← assemble [] [] (← readLines (cs.length + 1) cs)
  match ← (Item.table .header entries).toValue? with
  | .table t => some t
  | _ => none

end ChatForms.Toml
