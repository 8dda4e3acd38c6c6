namespace ChatForms.Text

def digitValue? (c : Char) : Option Nat :=
  if '0' ≤ c && c ≤ '9' then some (c.toNat - '0'.toNat)
  else if 'a' ≤ c && c ≤ 'f' then some (c.toNat - 'a'.toNat + 10)
  else if 'A' ≤ c && c ≤ 'F' then some (c.toNat - 'A'.toNat + 10)
  else none

def isDigit (base : Nat) (c : Char) : Bool := (digitValue? c).any (· < base)

def numberFrom? (base value : Nat) : List Char → Option Nat
  | [] => some value
  | c :: cs => do
    let d ← digitValue? c
    if d < base then numberFrom? base (value * base + d) cs else none

/-- The number that digits to a base up to sixteen stand for; there is at least one digit. -/
def number? (base : Nat) (digits : List Char) : Option Nat :=
  if digits.isEmpty then none else numberFrom? base 0 digits

end ChatForms.Text
