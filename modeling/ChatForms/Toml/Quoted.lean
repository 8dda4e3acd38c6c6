import ChatForms.Text.Blank
import ChatForms.Text.Digits

namespace ChatForms.Toml

def skipGaps (cs : List Char) : List Char := cs.dropWhile Text.isGap

/-- The characters that may stand in comments and strings: of the control characters only the
tab. -/
def isPlain (c : Char) : Bool := c == '\t' || (0x20 ≤ c.toNat && c.toNat != 0x7F)

/-- What follows a line end, which is a line feed or a carriage return with one. -/
def newline? : List Char → Option (List Char)
  | '\n' :: cs => some cs
  | '\r' :: '\n' :: cs => some cs
  | _ => none

def readCodePoint (length : Nat) (cs : List Char) : Option (Char × List Char) := do
  let digits := cs.take length
  if digits.length ≠ length then none
  let n ← Text.number? 16 digits
  if n.isValidChar then some (Char.ofNat n, cs.drop length) else none

/-- What stands after a backslash. -/
def readEscape : List Char → Option (Char × List Char)
  | 'b' :: cs => some ('\x08', cs)
  | 't' :: cs => some ('\t', cs)
  | 'n' :: cs => some ('\n', cs)
  | 'f' :: cs => some ('\x0c', cs)
  | 'r' :: cs => some ('\r', cs)
  | '"' :: cs => some ('"', cs)
  | '\\' :: cs => some ('\\', cs)
  | 'u' :: cs => readCodePoint 4 cs
  | 'U' :: cs => readCodePoint 8 cs
  | _ => none

/-- The rest of a string between single quotes, which knows no escapes. -/
def readLiteral : List Char → Option (List Char × List Char)
  | [] => none
  | c :: cs =>
    if c == '\x27' then some ([], cs)
    else if isPlain c then (readLiteral cs).map fun r => (c :: r.1, r.2)
    else none

/-- The rest of a string between double quotes. -/
def readBasic : Nat → List Char → Option (List Char × List Char)
  | 0, _ | _, [] => none
  | _ + 1, '"' :: cs => some ([], cs)
  | n + 1, '\\' :: cs => do
    let (c, rest) ← readEscape cs
    (readBasic n rest).map fun r => (c :: r.1, r.2)
  | n + 1, c :: cs =>
    if isPlain c then (readBasic n cs).map fun r => (c :: r.1, r.2) else none

/-- A line end after a backslash is dropped together with all gaps and line ends after it. -/
def skipLineEnds : Nat → List Char → List Char
  | 0, cs => cs
  | n + 1, cs =>
    match newline? (skipGaps cs) with
    | some rest => skipLineEnds n rest
    | none => skipGaps cs

/-- A run of quotes inside a long string: one or two are text, three end the string, and up to two
more belong to the text before the end. -/
def readQuotes (quote : Char) (cs : List Char) : Option (List Char × Option (List Char)) :=
  let run := cs.takeWhile (· == quote)
  let rest := cs.drop run.length
  if run.length < 3 then some (run, none)
  else if run.length ≤ 5 then some (run.drop 3, some rest)
  else none

/-- The rest of a string between three quotes of a kind, with escapes or without. -/
def readLong (quote : Char) (escapes : Bool) : Nat → List Char → Option (List Char × List Char)
  | 0, _ | _, [] => none
  | n + 1, c :: cs =>
    if c == quote then
      match readQuotes quote (c :: cs) with
      | some (text, some rest) => some (text, rest)
      | some (text, none) =>
        (readLong quote escapes n (cs.drop (text.length - 1))).map fun r => (text ++ r.1, r.2)
      | none => none
    else if escapes && c == '\\' then
      match newline? (skipGaps cs) with
      | some rest => readLong quote escapes n (skipLineEnds rest.length rest)
      | none => do
        let (e, rest) ← readEscape cs
        (readLong quote escapes n rest).map fun r => (e :: r.1, r.2)
    else match newline? (c :: cs) with
      | some rest => (readLong quote escapes n rest).map fun r => ('\n' :: r.1, r.2)
      | none =>
        if isPlain c then (readLong quote escapes n cs).map fun r => (c :: r.1, r.2) else none

/-- A line end right after the opening quotes of a long string does not count. -/
def readLongFrom (quote : Char) (escapes : Bool) (cs : List Char) :
    Option (List Char × List Char) :=
  let cs := (newline? cs).getD cs
  readLong quote escapes cs.length cs

/-- A string on one line, as keys may be. -/
def readShort : List Char → Option (List Char × List Char)
  | '"' :: cs => readBasic cs.length cs
  | '\x27' :: cs => readLiteral cs
  | _ => none

def readString : List Char → Option (List Char × List Char)
  | '"' :: '"' :: '"' :: cs => readLongFrom '"' true cs
  | '\x27' :: '\x27' :: '\x27' :: cs => readLongFrom '\x27' false cs
  | cs => readShort cs

end ChatForms.Toml
