import ChatForms.Text.Digits
import ChatForms.Toml.Item

namespace ChatForms.Toml

/-- The characters of a number, a date, a time or a word. -/
def isBare (c : Char) : Bool :=
  c.isAlphanum || c == '_' || c == '-' || c == '+' || c == '.' || c == ':'

/-- Digits in groups: each underscore stands between two digits. -/
def ungroup? (base : Nat) : List Char → Option (List Char)
  | [] => none
  | [c] => if Text.isDigit base c then some [c] else none
  | c :: '_' :: cs => if Text.isDigit base c then (ungroup? base cs).map (c :: ·) else none
  | c :: cs => if Text.isDigit base c then (ungroup? base cs).map (c :: ·) else none

def number? (base : Nat) (cs : List Char) : Option Nat := ungroup? base cs >>= Text.number? base

/-- A decimal number does not begin with a zero unless it is one. -/
def decimal? (cs : List Char) : Option Nat :=
  match cs with
  | '0' :: _ :: _ => none
  | cs => number? 10 cs

/-- Whether there is a minus sign, and what follows the sign if there is one. -/
def splitSign : List Char → Bool × List Char
  | '-' :: cs => (true, cs)
  | '+' :: cs => (false, cs)
  | cs => (false, cs)

def integer? (cs : List Char) : Option Int := do
  let n : Int ← match cs with
    | '0' :: 'x' :: digits => number? 16 digits
    | '0' :: 'o' :: digits => number? 8 digits
    | '0' :: 'b' :: digits => number? 2 digits
    | _ =>
      let (negative, digits) := splitSign cs
      (decimal? digits).map fun n => if negative then -(n : Int) else n
  if Settings.fitsInteger n then some n else none

/-- A number with a fraction, an exponent or both. One that is too large upwards is refused. -/
def real? (cs : List Char) : Option Double := do
  let (negative, unsigned) := splitSign cs
  let isExponentMark (c : Char) : Bool := c == 'e' || c == 'E'
  let mantissa := unsigned.takeWhile (!isExponentMark ·)
  let whole := mantissa.takeWhile (· != '.')
  let _ ← decimal? whole
  let fraction ← match mantissa.drop whole.length with
    | _ :: digits => ungroup? 10 digits
    | [] => some []
  let exponent : Int ← match unsigned.drop mantissa.length with
    | _ :: digits =>
      let (below, digits) := splitSign digits
      (number? 10 digits).map fun n => if below then -(n : Int) else n
    | [] => if fraction.isEmpty then none else some 0
  let digits ← Text.number? 10 ((← ungroup? 10 whole) ++ fraction)
  let x := Double.ofDecimal negative digits (exponent - fraction.length)
  if x = .infinite false then none else some x

/-- The words for what is no finite number. -/
def special? (cs : List Char) : Option Double :=
  match splitSign cs with
  | (negative, ['i', 'n', 'f']) => some (.infinite negative)
  | (_, ['n', 'a', 'n']) => some .nan
  | _ => none

/-- The value of a run of bare characters. -/
def scalar? (cs : List Char) : Option Item :=
  match cs with
  | ['t', 'r', 'u', 'e'] => some (.value (.bool true))
  | ['f', 'a', 'l', 's', 'e'] => some (.value (.bool false))
  | _ =>
    ((moment? cs).map fun text => .moment (String.ofList text)).or <|
    ((integer? cs).map fun n => .value (.integer n)).or <|
    (((real? cs).or (special? cs)).map fun x => .value (.real x))

/-- A value without quotes or brackets. A date may be parted from its time by a single space. -/
def readScalar (cs : List Char) : Option (Item × List Char) :=
  let run := cs.takeWhile isBare
  let rest := cs.drop run.length
  let clock := (rest.drop 1).takeWhile isBare
  if rest.head? = some ' ' && (date? run).isSome && (clock.head?.any (Text.isDigit 10)) then
    (scalar? (run ++ ' ' :: clock)).map fun item => (item, rest.drop (clock.length + 1))
  else (scalar? run).map fun item => (item, rest)

end ChatForms.Toml
