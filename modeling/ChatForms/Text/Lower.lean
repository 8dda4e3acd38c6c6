import ChatForms.Text.CaseRanges

namespace ChatForms.Text

def CaseRange.contains (r : CaseRange) (n : Nat) : Bool :=
  r.first ≤ n && n ≤ r.last && (n - r.first) % r.stride == 0

def inRanges (ranges : List (Nat × Nat)) (c : Char) : Bool :=
  ranges.any fun r => r.1 ≤ c.toNat && c.toNat ≤ r.2

def isCased (c : Char) : Bool := inRanges casedRanges c

def isCaseIgnorable (c : Char) : Bool := inRanges caseIgnorableRanges c

/-- The small letter of a character on its own. The capital I with a dot keeps its dot as a
combining mark, so it is the one character with two. -/
def lowerChar (c : Char) : List Char :=
  let n := c.toNat
  if n < 0x80 then [c.toLower]
  else if n = 0x130 then ['i', '\u0307']
  else match caseRanges.find? (·.contains n) with
    | some r => [Char.ofNat (r.target + (n - r.first))]
    | none => [c]

/-- A cased character comes next once the ignorable ones are passed over. -/
def casedNext (cs : List Char) : Bool := (cs.dropWhile isCaseIgnorable).head?.any isCased

/-- `before` holds what has been read, nearest first. A capital sigma that ends a word becomes a
final sigma. -/
def lowerChars (before : List Char) : List Char → List Char
  | [] => []
  | c :: cs =>
    let small :=
      if c = 'Σ' then (if casedNext before && !casedNext cs then ['ς'] else ['σ']) else lowerChar c
    small ++ lowerChars (c :: before) cs

/-- Lower case in full Unicode. -/
def lower (s : String) : String := String.ofList (lowerChars [] s.toList)

/-- Only the letters A to Z are taken to lower case. -/
def lowerAscii (s : String) : String := String.ofList (s.toList.map Char.toLower)

end ChatForms.Text
