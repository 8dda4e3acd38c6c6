namespace ChatForms

/-- Data made of texts, lists and records. The members of a record keep their order. -/
inductive Json where
  | string (s : String)
  | list (items : List Json)
  | record (members : List (String × Json))

namespace Json

def hexDigit (n : Nat) : Char := if n < 10 then Char.ofNat (48 + n) else Char.ofNat (87 + n)

/-- Only what would end a string, an escape itself and control characters are escaped. -/
def escapeChar (c : Char) : List Char :=
  if c = '"' then ['\\', '"']
  else if c = '\\' then ['\\', '\\']
  else if c = '\x08' then ['\\', 'b']
  else if c = '\t' then ['\\', 't']
  else if c = '\n' then ['\\', 'n']
  else if c = '\x0c' then ['\\', 'f']
  else if c = '\r' then ['\\', 'r']
  else if c.toNat < 0x20 then
    ['\\', 'u', '0', '0', hexDigit (c.toNat / 16), hexDigit (c.toNat % 16)]
  else [c]

def quote (s : String) : String := "\"" ++ String.ofList (s.toList.flatMap escapeChar) ++ "\""

mutual
/-- Everything on one line, without spaces. -/
def compact : Json → String
  | string s => quote s
  | list items => "[" ++ compactItems items ++ "]"
  | record members => "\x7b" ++ compactMembers members ++ "\x7d"
def compactItems : List Json → String
  | [] => ""
  | [j] => j.compact
  | j :: js => j.compact ++ "," ++ compactItems js
def compactMember : String × Json → String
  | (name, j) => quote name ++ ":" ++ j.compact
def compactMembers : List (String × Json) → String
  | [] => ""
  | [m] => compactMember m
  | m :: ms => compactMember m ++ "," ++ compactMembers ms
end

/-- A new line with two spaces for each level. -/
def newLine (depth : Nat) : String := "\n" ++ String.ofList (List.replicate (2 * depth) ' ')

mutual
/-- Items and members on lines of their own, indented by their level. -/
def pretty (depth : Nat) : Json → String
  | string s => quote s
  | list items =>
    if items.isEmpty then "[]"
    else "[" ++ prettyItems (depth + 1) items ++ newLine depth ++ "]"
  | record members =>
    if members.isEmpty then "\x7b\x7d"
    else "\x7b" ++ prettyMembers (depth + 1) members ++ newLine depth ++ "\x7d"
def prettyItems (depth : Nat) : List Json → String
  | [] => ""
  | [j] => newLine depth ++ j.pretty depth
  | j :: js => newLine depth ++ j.pretty depth ++ "," ++ prettyItems depth js
def prettyMember (depth : Nat) : String × Json → String
  | (name, j) => newLine depth ++ quote name ++ ": " ++ j.pretty depth
def prettyMembers (depth : Nat) : List (String × Json) → String
  | [] => ""
  | [m] => prettyMember depth m
  | m :: ms => prettyMember depth m ++ "," ++ prettyMembers depth ms
end

end Json
end ChatForms
