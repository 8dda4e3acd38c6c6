import ChatForms.Settings.Value
import ChatForms.Toml.Moment

namespace ChatForms.Toml
open Settings (Value Table)

/-- How a table came about: through a header of its own, on the way to another header, through keys
with dots, or in braces. -/
inductive Standing where
  | header | implied | dotted | braced
deriving DecidableEq, Repr

/-- What stands under a key while a file is being read. Tables can still grow, as their standing
permits. A moment is told apart from the text that it is shown as. -/
inductive Item where
  | value (v : Value)
  | moment (text : String)
  | list (items : List Item)
  | table (standing : Standing) (entries : List (String × Item))
  | tables (elements : List (List (String × Item)))
deriving Inhabited

namespace Item

/-- A table whose first key this is stands for a moment. -/
def momentKey : String := "$__toml_private_datetime"

/-- The moment that a text gives. -/
def quotedMoment? : Item → Option Value
  | value (.string s) => (moment? s.toList).map fun text => .string (String.ofList text)
  | _ => none

/-- What a table amounts to: its members or, whatever else is in it, the moment that its first key
announces. -/
def tableValue? (entries : Entries Item) (members : Option Table) : Option Value :=
  match entries with
  | (key, item) :: _ => if key = momentKey then item.quotedMoment? else members.map .table
  | [] => members.map .table

mutual
def toValue? : Item → Option Value
  | value v => some v
  | moment text => some (.string text)
  | list items => (items? items).map .list
  | table _ entries => tableValue? entries (members? entries)
  | tables elements => (elements? elements).map .list
def items? : List Item → Option (List Value)
  | [] => some []
  | item :: rest => do
    let v ← item.toValue?
    (items? rest).map (v :: ·)
def members? : List (String × Item) → Option (List (String × Value))
  | [] => some []
  | (key, item) :: rest => do
    let v ← item.toValue?
    (members? rest).map ((key, v) :: ·)
def elements? : List (List (String × Item)) → Option (List Value)
  | [] => some []
  | entries :: rest => do
    let v ← tableValue? entries (members? entries)
    (elements? rest).map (v :: ·)
end

/-- Changes the table under a key, or the last one of several, and makes one if there is none. -/
def within (key : String) (f : Entries Item → Option (Entries Item)) (es : Entries Item) :
    Option (Entries Item) :=
  match es.lookup key with
  | none => (f []).map fun inner => es.assign key (.table .implied inner)
  | some (.table .braced _) => none
  | some (.table standing inner) => (f inner).map fun inner => es.assign key (.table standing inner)
  | some (.tables elements) => do
    let last ← elements.getLast?
    (f last).map fun last => es.assign key (.tables (elements.dropLast ++ [last]))
  | some _ => none

/-- A header opens a table once, and never one that keys with dots have made. A table that was
implied before moves to the place of its header, after all others. -/
def openTable : List String → Entries Item → Option (Entries Item)
  | [], _ => none
  | [key], es =>
    match es.lookup key with
    | none => some (es.assign key (.table .header []))
    | some (.table .implied inner) =>
      some (es.filter (·.1 ≠ key) ++ [(key, .table .header inner)])
    | _ => none
  | key :: rest, es => within key (openTable rest) es

/-- A header in double brackets adds a table to the list under its name. -/
def openElement : List String → Entries Item → Option (Entries Item)
  | [], _ => none
  | [key], es =>
    match es.lookup key with
    | none => some (es.assign key (.tables [[]]))
    | some (.tables elements) => some (es.assign key (.tables (elements ++ [[]])))
    | _ => none
  | key :: rest, es => within key (openElement rest) es

/-- A new value under keys with dots. They may not lead into a table that has a header, nor end in
one that they did not make themselves. -/
def define : List String → String → Item → Entries Item → Option (Entries Item)
  | [], key, item, es => if (es.lookup key).isSome then none else some (es.assign key item)
  | step :: rest, key, item, es =>
    match es.lookup step with
    | none => (define rest key item []).map fun inner => es.assign step (.table .dotted inner)
    | some (.table .dotted _) => within step (define rest key item) es
    | some (.table .implied _) | some (.tables _) =>
      if rest.isEmpty then none else within step (define rest key item) es
    | _ => none

/-- A new value in the table that a header has opened. -/
def defineUnder : List String → List String → String → Item → Entries Item →
    Option (Entries Item)
  | [], path, key, item, es => define path key item es
  | step :: rest, path, key, item, es => within step (defineUnder rest path key item) es

end Item
end ChatForms.Toml
