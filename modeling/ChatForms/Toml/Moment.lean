import ChatForms.Text.Digits

namespace ChatForms.Toml

/-- A number of exactly `length` digits. -/
def fixed? (length : Nat) (cs : List Char) : Option Nat :=
  if cs.length = length then Text.number? 10 cs else none

def isLeapYear (year : Nat) : Bool := year % 4 == 0 && (year % 100 != 0 || year % 400 == 0)

def daysIn (year month : Nat) : Nat :=
  if month = 2 then (if isLeapYear year then 29 else 28)
  else if [4, 6, 9, 11].contains month then 30 else 31

/-- A calendar date, which is written the way it is shown. -/
def date? (cs : List Char) : Option (List Char) := do
  let year ← fixed? 4 (cs.take 4)
  let month ← fixed? 2 ((cs.drop 5).take 2)
  let day ← fixed? 2 (cs.drop 8)
  if cs[4]? = some '-' && cs[7]? = some '-' && 1 ≤ month && month ≤ 12 && 1 ≤ day &&
    day ≤ daysIn year month then some cs else none

/-- A time of day. Of the fraction nine digits count, and zeros at its end are not shown. -/
def time? (cs : List Char) : Option (List Char) := do
  let hour ← fixed? 2 (cs.take 2)
  let minute ← fixed? 2 ((cs.drop 3).take 2)
  let second ← fixed? 2 ((cs.drop 6).take 2)
  if !(cs[2]? = some ':' && cs[5]? = some ':' && hour ≤ 23 && minute ≤ 59 && second ≤ 60) then none
  match cs.drop 8 with
  | [] => some cs
  | '.' :: digits =>
    if digits.isEmpty || !digits.all (Text.isDigit 10) then none
    else
      let shown := ((digits.take 9).reverse.dropWhile (· == '0')).reverse
      some (cs.take 8 ++ if shown.isEmpty then [] else '.' :: shown)
  | _ => none

/-- The distance of a clock from universal time, or its mark. Nothing is behind universal time by no
time at all. -/
def offset? (cs : List Char) : Option (List Char) :=
  match cs with
  | ['Z'] | ['z'] => some ['Z']
  | sign :: digits => do
    let hour ← fixed? 2 (digits.take 2)
    let minute ← fixed? 2 (digits.drop 3)
    if !((sign == '+' || sign == '-') && digits[2]? = some ':' && hour ≤ 23 && minute ≤ 59) then
      none
    some ((if hour = 0 ∧ minute = 0 then '+' else sign) :: digits)
  | [] => none

/-- A date, a time, or both, perhaps with an offset; the text is the one that is shown. -/
def moment? (cs : List Char) : Option (List Char) :=
  let day := cs.take 10
  match cs.drop 10 with
  | [] => (date? cs).or (time? cs)
  | mark :: clock =>
    if mark == 'T' || mark == 't' || mark == ' ' then do
      let hours := clock.takeWhile fun c => Text.isDigit 10 c || c == ':' || c == '.'
      let day ← date? day
      let time ← time? hours
      let rest := clock.drop hours.length
      let offset ← if rest.isEmpty then some [] else offset? rest
      some (day ++ 'T' :: time ++ offset)
    else time? cs

end ChatForms.Toml
