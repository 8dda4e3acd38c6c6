namespace ChatForms

/-- A number in double precision. A finite one is `mantissa * 2 ^ exponent` with a mantissa of at
most 53 bits and an exponent of at least -1074; zero keeps its sign. -/
inductive Double where
  | finite (negative : Bool) (mantissa : Nat) (exponent : Int)
  | infinite (negative : Bool)
  | nan
deriving DecidableEq, Repr

namespace Double

def mantissaBits : Nat := 53

def minExponent : Int := -1074

def maxExponent : Int := 971

/-- `base ^ exponent` as a quotient. -/
def power (base : Nat) (exponent : Int) : Nat × Nat :=
  (Nat.pow base exponent.toNat, Nat.pow base (-exponent).toNat)

/-- The quotient rounded to the nearest whole number; a tie goes to the even one. -/
def roundQuotient (numerator denominator : Nat) : Nat :=
  let whole := numerator / denominator
  let twice := 2 * (numerator % denominator)
  if twice < denominator then whole
  else if denominator < twice then whole + 1
  else whole + whole % 2

/-- The exponent at which a positive quotient has a mantissa of full length. -/
def scaleOf (numerator denominator : Nat) : Int :=
  let estimate : Int := (numerator.log2 : Int) - denominator.log2
  let (n, d) := power 2 estimate
  let magnitude := if numerator * d < denominator * n then estimate - 1 else estimate
  max minExponent (magnitude - (mantissaBits - 1))

/-- The number nearest to a quotient. -/
def nearest (negative : Bool) (numerator denominator : Nat) : Double :=
  if numerator = 0 then .finite negative 0 0
  else
    let exponent := scaleOf numerator denominator
    let (n, d) := power 2 exponent
    let mantissa := roundQuotient (numerator * d) (denominator * n)
    let (mantissa, exponent) :=
      if mantissa = Nat.pow 2 mantissaBits then (mantissa / 2, exponent + 1)
      else (mantissa, exponent)
    if maxExponent < exponent then .infinite negative else .finite negative mantissa exponent

/-- The number nearest to `digits * 10 ^ exponent`. Far outside the range of all finite numbers the
power of ten does not have to be worked out. -/
def ofDecimal (negative : Bool) (digits : Nat) (exponent : Int) : Double :=
  let magnitude := exponent + (Nat.toDigits 10 digits).length
  if digits = 0 || magnitude < -330 then .finite negative 0 0
  else if 310 < magnitude then .infinite negative
  else
    let (n, d) := power 10 exponent
    nearest negative (digits * n) d

def isZero : Double → Bool
  | finite _ mantissa _ => mantissa = 0
  | _ => false

/-- Four times the numbers between which everything rounds to a mantissa and an exponent, and four
times the number itself, over a common denominator. Below a power of two the gap is half as wide. -/
def bounds (mantissa : Nat) (exponent : Int) : Nat × Nat × Nat × Nat :=
  let (n, d) := power 2 exponent
  let below := if mantissa = Nat.pow 2 (mantissaBits - 1) ∧ minExponent < exponent then 1 else 2
  ((4 * mantissa - below) * n, 4 * mantissa * n, (4 * mantissa + 2) * n, d)

/-- The multiple of `10 ^ place` that is nearest to a number, if it reads back as that number. Half
way between two of them the larger one is taken. -/
def onGrid? (mantissa : Nat) (exponent place : Int) : Option Nat :=
  let (low, value, high, d) := bounds mantissa exponent
  let (n, m) := power 10 place
  let unit := 4 * d * n
  let inside (k : Nat) : Bool :=
    let point := k * unit
    if mantissa % 2 = 0 then low * m ≤ point && point ≤ high * m
    else low * m < point && point < high * m
  let floor := value * m / unit
  let hits := [floor, floor + 1].filter inside
  match hits with
  | [a, b] => some (if 2 * value * m < (a + b) * unit then a else b)
  | hits => hits.head?

/-- The coarsest decimal grid with a point that reads back, searched from `place` downwards. -/
def searchGrid (mantissa : Nat) (exponent : Int) : Nat → Int → Nat × Int
  | 0, place => (0, place)
  | n + 1, place =>
    match onGrid? mantissa exponent place with
    | some digits => (digits, place)
    | none => searchGrid mantissa exponent n (place - 1)

/-- The fewest digits that read back as a positive number, and the place of the last one. -/
def shortest (mantissa : Nat) (exponent : Int) : Nat × Int :=
  let magnitude : Int := mantissa.log2 + exponent
  searchGrid mantissa exponent 25 (magnitude * 30103 / 100000 + 1)

/-- Digits with a point at the right place and no exponent, however long it gets. -/
def positional (digits : Nat) (place : Int) : String :=
  let text := Nat.toDigits 10 digits
  if 0 ≤ place then String.ofList (text ++ List.replicate place.toNat '0')
  else
    let places := (-place).toNat
    let padded := List.replicate (places + 1 - text.length) '0' ++ text
    let whole := padded.length - places
    String.ofList (padded.take whole ++ '.' :: padded.drop whole)

def sign (negative : Bool) : String := if negative then "-" else ""

/-- The shortest text that reads back as the number. -/
def text : Double → String
  | finite negative mantissa exponent =>
    sign negative ++
      if mantissa = 0 then "0"
      else
        let (digits, place) := shortest mantissa exponent
        positional digits place
  | infinite negative => sign negative ++ "inf"
  | nan => "NaN"

end Double
end ChatForms
