import ChatForms.Double
import ChatForms.Entries
import ChatForms.Text.Lower

namespace ChatForms.Settings

/-- A value in a settings file or an assignment. -/
inductive Value where
  | null
  | bool (b : Bool)
  | integer (n : Int)
  | real (x : Double)
  | string (s : String)
  | list (items : List Value)
  | table (entries : List (String × Value))
deriving Inhabited

abbrev Table := Entries Value

/-- Integers have 64 bits. -/
def fitsInteger (n : Int) : Bool := -0x8000000000000000 ≤ n && n ≤ 0x7FFFFFFFFFFFFFFF

namespace Value

/-- The table at which a value is extended: other values give way to an empty one. -/
def asTable : Value → Table
  | table entries => entries
  | _ => []

def asList : Value → List Value
  | list items => items
  | _ => []

/-- The value as text; lists, tables and nothing have none. -/
def text? : Value → Option String
  | string s => some s
  | bool b => some (if b then "true" else "false")
  | integer n => some (if n < 0 then "-" ++ Nat.repr n.natAbs else Nat.repr n.natAbs)
  | real x => some x.text
  | null | list _ | table _ => none

/-- The value as an answer to a yes-or-no question. -/
def flag? : Value → Option Bool
  | bool b => some b
  | integer n => some (n ≠ 0)
  | real x => some !x.isZero
  | string s =>
    let word := Text.lower s
    if ["1", "true", "on", "yes"].contains word then some true
    else if ["0", "false", "off", "no"].contains word then some false
    else none
  | null | list _ | table _ => none

mutual
/-- A table is merged key by key into the one that is there; any other value takes the place of what
is there. Keys count in lower case. -/
def put (key : String) : Value → Table → Table
  | table incoming, t =>
    let k := Text.lower key
    t.assign k (putAll incoming ((t.lookup k).getD (table [])))
  | value, t => t.assign (Text.lower key) value
def putAll : List (String × Value) → Value → Value
  | [], target => target
  | (key, value) :: rest, target => putAll rest (table (put key value target.asTable))
end

end Value
end ChatForms.Settings
