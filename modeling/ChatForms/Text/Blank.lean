namespace ChatForms.Text

/-- The Unicode property White_Space. Zero-width spaces and joiners do not have it. -/
def isWhite (c : Char) : Bool :=
  let n := c.toNat
  (0x09 ≤ n && n ≤ 0x0D) || n == 0x20 || n == 0x85 || n == 0xA0 || n == 0x1680 ||
    (0x2000 ≤ n && n ≤ 0x200A) || n == 0x2028 || n == 0x2029 || n == 0x202F || n == 0x205F ||
    n == 0x3000

/-- The white space inside a line that is not counted where spaces may stand freely. -/
def isGap (c : Char) : Bool := c == ' ' || c == '\t'

def isBlank (s : String) : Bool := s.toList.all isWhite

/-- White space is taken off both ends. -/
def trim (s : String) : String :=
  String.ofList ((s.toList.dropWhile isWhite).reverse.dropWhile isWhite).reverse

/-- `word` holds the letters of the word that is being read, last one first. -/
def splitWords (word : List Char) : List Char → List (List Char)
  | [] => if word.isEmpty then [] else [word.reverse]
  | c :: cs =>
    if isWhite c then
      if word.isEmpty then splitWords [] cs else word.reverse :: splitWords [] cs
    else splitWords (c :: word) cs

/-- The maximal runs of characters other than white space. -/
def words (s : String) : List String := (splitWords [] s.toList).map String.ofList

end ChatForms.Text
