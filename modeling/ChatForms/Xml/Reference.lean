import ChatForms.Text.Digits
import ChatForms.Xml.Char

namespace ChatForms.Xml

/-- The character with a given number. A 32-bit number that belongs to no character stands for the
replacement character. -/
def charOfNumber? (n : Nat) : Option Char :=
  if n ≤ 0xFFFFFFFF then
    let c := if n.isValidChar then Char.ofNat n else '\uFFFD'
    if isXmlChar c then some c else none
  else none

/-- What a reference stands for; `body` is the text between the ampersand and the semicolon. -/
def resolveReference (body : List Char) : Option Char :=
  match body with
  | '#' :: 'x' :: digits => Text.number? 16 digits >>= charOfNumber?
  | '#' :: digits => Text.number? 10 digits >>= charOfNumber?
  | ['a', 'm', 'p'] => some '&'
  | ['l', 't'] => some '<'
  | ['g', 't'] => some '>'
  | ['q', 'u', 'o', 't'] => some '"'
  | ['a', 'p', 'o', 's'] => some '\x27'
  | _ => none

/-- A character as it is written: in person, or by a reference to it. -/
inductive Written where
  | plain (c : Char)
  | referred (c : Char)
deriving DecidableEq

def Written.char : Written → Char
  | plain c | referred c => c

/-- Every reference is replaced by its character. `body` holds what has been read of a reference
that is still open, last character first. -/
def resolve : Option (List Char) → List Char → Option (List Written)
  | none, [] => some []
  | some _, [] => none
  | none, c :: cs =>
    if c = '&' then resolve (some []) cs else (resolve none cs).map (.plain c :: ·)
  | some body, c :: cs =>
    if c = ';' then do
      let r ← resolveReference body.reverse
      (resolve none cs).map (.referred r :: ·)
    else resolve (some (c :: body)) cs

/-- What a character in person adds to a text, given what comes next. A carriage return ends a line
as a line feed does, and the two together end one line. It stays as it is in front of a reference,
and behind one at the end of the text. -/
def plainText (isAfterReference : Bool) (c : Char) (next : Option Written) : List Char :=
  if c ≠ '\r' then [c]
  else match next with
    | some (.plain '\n') => []
    | some (.plain _) => ['\n']
    | some (.referred _) => ['\r']
    | none => if isAfterReference then ['\r'] else ['\n']

/-- The characters of a text. Those that references stand for are never taken for line ends. -/
def settleLines (isAfterReference : Bool) : List Written → List Char
  | [] => []
  | .plain c :: rest => plainText isAfterReference c rest.head? ++ settleLines false rest
  | .referred c :: rest => c :: settleLines true rest

def decodeText (raw : List Char) : Option (List Char) := (resolve none raw).map (settleLines false)

/-- A section of character data knows no references. -/
def decodeSection (raw : List Char) : List Char := settleLines false (raw.map .plain)

/-- In an attribute value a line end or a tab counts as a space. -/
def decodeValue (raw : List Char) : Option (List Char) :=
  let spaced := (decodeSection raw).map fun c => if c == '\n' || c == '\t' then ' ' else c
  (resolve none spaced).map fun written => written.map Written.char

end ChatForms.Xml
