import ChatForms.Xml.Reference

namespace ChatForms.Xml

/-- A name with its qualifier, which is empty when the name has none. -/
structure QName where
  qualifier : String
  base : String
deriving DecidableEq

/-- One piece of markup. Text and character data sections hold the characters as written. -/
inductive Token where
  | openTag (name : QName) (attributes : List (QName × List Char)) (isEmpty : Bool)
  | closeTag (name : QName)
  | text (raw : List Char)
  | cdata (raw : List Char)
  | comment (raw : List Char)
  | instruction (target content : List Char)
deriving DecidableEq

/-- The characters before the first occurrence of `mark` and those after it. -/
def cutAt (mark : List Char) : List Char → Option (List Char × List Char)
  | [] => none
  | c :: cs =>
    if mark.isPrefixOf (c :: cs) then some ([], (c :: cs).drop mark.length)
    else (cutAt mark cs).map fun r => (c :: r.1, r.2)

def hasInside (mark : List Char) (cs : List Char) : Bool := (cutAt mark cs).isSome

def isNamePart (c : Char) : Bool := isNameChar c || c == ':'

def startsName (cs : List Char) : Bool := cs.head?.any isNameStart

/-- A run of name characters as a name: at most one colon, and both halves begin as names do. -/
def QName.ofChars? (run : List Char) : Option QName :=
  let first := run.takeWhile (· != ':')
  match run.dropWhile (· != ':') with
  | [] => if startsName first then some ⟨"", String.ofList first⟩ else none
  | _ :: second =>
    if second.contains ':' || !startsName second || !(first.isEmpty || startsName first) then none
    else some ⟨String.ofList first, String.ofList second⟩

def readName (cs : List Char) : Option (QName × List Char) :=
  (QName.ofChars? (cs.takeWhile isNamePart)).map fun name => (name, cs.dropWhile isNamePart)

def skipSpaces (cs : List Char) : List Char := cs.dropWhile isSpace

/-- The text up to the closing quote, with no opening angle bracket in it. -/
def readQuoted : List Char → Option (List Char × List Char)
  | [] => none
  | q :: cs =>
    if q == '"' || q == '\x27' then
      let value := cs.takeWhile fun c => c != q && c != '<'
      match cs.drop value.length with
      | c :: rest => if c == q then some (value, rest) else none
      | [] => none
    else none

/-- A name, an equals sign and a quoted value. -/
def readAttribute (cs : List Char) : Option ((QName × List Char) × List Char) := do
  let (name, rest) ← readName cs
  match skipSpaces rest with
  | '=' :: rest => do
    let (value, rest) ← readQuoted (skipSpaces rest)
    pure ((name, value), rest)
  | _ => none

/-- The attributes of a tag up to its end, and whether the end closes the element as well. Each
attribute follows white space. -/
def readAttributes : Nat → List Char → Option (List (QName × List Char) × Bool × List Char)
  | 0, _ => none
  | n + 1, cs =>
    match skipSpaces cs with
    | '>' :: rest => some ([], false, rest)
    | '/' :: '>' :: rest => some ([], true, rest)
    | inner =>
      if cs.head?.any isSpace then do
        let (next, rest) ← readAttribute inner
        let (others, isEmpty, rest) ← readAttributes n rest
        pure (next :: others, isEmpty, rest)
      else none

def readOpenTag (cs : List Char) : Option (Token × List Char) := do
  let (name, rest) ← readName cs
  let (attributes, isEmpty, rest) ← readAttributes (rest.length + 1) rest
  pure (.openTag name attributes isEmpty, rest)

def readCloseTag (cs : List Char) : Option (Token × List Char) := do
  let (name, rest) ← readName cs
  match skipSpaces rest with
  | '>' :: rest => some (.closeTag name, rest)
  | _ => none

/-- A comment holds no double hyphen and does not end with a hyphen. -/
def readComment (cs : List Char) : Option (Token × List Char) := do
  let (body, rest) ← cutAt "-->".toList cs
  if hasInside "--".toList body || body.getLast? == some '-' then none
  else some (.comment body, rest)

def readCData (cs : List Char) : Option (Token × List Char) := do
  let (body, rest) ← cutAt "]]>".toList cs
  pure (.cdata body, rest)

/-- An instruction that would be a second declaration is refused. -/
def readInstruction (cs : List Char) : Option (Token × List Char) := do
  if "xml ".toList.isPrefixOf cs then none
  let target := cs.takeWhile isNamePart
  if !(startsName target || target.head? == some ':') then none
  let (content, rest) ← cutAt "?>".toList (skipSpaces (cs.dropWhile isNamePart))
  pure (.instruction target content, rest)

def readText (cs : List Char) : Option (Token × List Char) :=
  let raw := cs.takeWhile (· != '<')
  if hasInside "]]>".toList raw then none else some (.text raw, cs.dropWhile (· != '<'))

/-- What kind of token comes next is settled by the first characters. -/
def readToken (cs : List Char) : Option (Token × List Char) :=
  match cs with
  | '<' :: '!' :: '-' :: '-' :: rest => readComment rest
  | '<' :: '!' :: '[' :: 'C' :: 'D' :: 'A' :: 'T' :: 'A' :: '[' :: rest => readCData rest
  | '<' :: '?' :: rest => readInstruction rest
  | '<' :: '/' :: rest => readCloseTag rest
  | '<' :: rest => readOpenTag rest
  | rest => readText rest

def readTokens : Nat → List Char → Option (List Token)
  | _, [] => some []
  | 0, _ :: _ => none
  | n + 1, c :: cs => do
    let (token, rest) ← readToken (c :: cs)
    (readTokens n rest).map (token :: ·)

/-- All tokens of a text, in order; a token takes at least one character. -/
def tokens (cs : List Char) : Option (List Token) := readTokens cs.length cs

/-- White space is due here unless the declaration ends. -/
def skipDeclarationGap (cs : List Char) : Option (List Char) :=
  if cs.head?.any isSpace || cs.isEmpty || "?>".toList.isPrefixOf cs then some (skipSpaces cs)
  else none

def skipAttribute (cs : List Char) : Option (List Char) := (readAttribute cs).map (·.2)

/-- The declaration in front of a document gives a version, then perhaps an encoding, then perhaps
says whether the document stands alone. What the values are does not matter. -/
def skipDeclaration (cs : List Char) : Option (List Char) :=
  if "<?xml ".toList.isPrefixOf cs then do
    let rest := skipSpaces (cs.drop 5)
    if !"version".toList.isPrefixOf rest then none
    let rest ← skipDeclarationGap (← skipAttribute rest)
    let rest ←
      if "encoding".toList.isPrefixOf rest then skipAttribute rest >>= skipDeclarationGap
      else some rest
    let rest ← if "standalone".toList.isPrefixOf rest then skipAttribute rest else some rest
    let rest := skipSpaces rest
    if "?>".toList.isPrefixOf rest then some (rest.drop 2) else none
  else some cs

end ChatForms.Xml
