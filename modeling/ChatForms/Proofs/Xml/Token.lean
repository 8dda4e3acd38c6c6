import ChatForms.Proofs.Xml.Escape
import ChatForms.Xml.Token

namespace ChatForms.Xml

/-! ### Names -/

/-- A name without a qualifier, as it may stand in a tag. -/
def isPlainName (s : String) : Bool := startsName s.toList && s.toList.all isNameChar

def plainName (s : String) : QName := ⟨"", s⟩

theorem isPlainName_cons {s : String} (h : isPlainName s = true) :
    ∃ c cs, s.toList = c :: cs ∧ isNameStart c = true := by
  simp only [isPlainName, Bool.and_eq_true] at h
  cases hs : s.toList with
  | nil => simp [hs, startsName] at h
  | cons c cs => exact ⟨c, cs, rfl, by simpa [hs, startsName] using h.1⟩

theorem isNameChar_of_isPlainName {s : String} (h : isPlainName s = true) :
    ∀ c ∈ s.toList, isNameChar c = true := by
  simp only [isPlainName, Bool.and_eq_true, List.all_eq_true] at h
  exact h.2

theorem takeWhile_append_stop {α : Type} {p : α → Bool} {xs : List α} (rest : List α)
    (hxs : ∀ x ∈ xs, p x = true) (hrest : ∀ x, rest.head? = some x → p x = false) :
    (xs ++ rest).takeWhile p = xs ∧ (xs ++ rest).dropWhile p = rest := by
  rw [List.takeWhile_append_of_pos hxs, List.dropWhile_append_of_pos hxs]
  cases rest with
  | nil => simp
  | cons r rest => simp [hrest r rfl]

theorem ofChars?_of_isPlainName {s : String} (h : isPlainName s = true) :
    QName.ofChars? s.toList = some (plainName s) := by
  have hcolon : ∀ c ∈ s.toList, (c != ':') = true := by
    intro c hc
    rw [bne_iff_ne]
    rintro rfl
    exact absurd (isNameChar_of_isPlainName h _ hc) (by decide)
  obtain ⟨htake, hdrop⟩ := takeWhile_append_stop [] hcolon (by simp)
  rw [List.append_nil] at htake hdrop
  simp only [isPlainName, Bool.and_eq_true] at h
  simp [QName.ofChars?, htake, hdrop, h.1, plainName]

/-- A name ends where a character follows that no name holds. -/
theorem readName_append {s : String} (rest : List Char) (h : isPlainName s = true)
    (hrest : ∀ c, rest.head? = some c → isNamePart c = false) :
    readName (s.toList ++ rest) = some (plainName s, rest) := by
  have hpart : ∀ c ∈ s.toList, isNamePart c = true := fun c hc => by
    simp [isNamePart, isNameChar_of_isPlainName h c hc]
  obtain ⟨htake, hdrop⟩ := takeWhile_append_stop rest hpart hrest
  rw [readName, htake, hdrop, ofChars?_of_isPlainName h, Option.map_some]

theorem skipSpaces_cons {c : Char} (h : isSpace c = false) (cs : List Char) :
    skipSpaces (c :: cs) = c :: cs := by
  simp [skipSpaces, h]

theorem ne_of_isNameStart {c x : Char} (h : isNameStart c = true) (hx : isNameStart x = false) :
    c ≠ x := by
  rintro rfl
  exact absurd h (by simp [hx])

theorem isSpace_of_isNameStart {c : Char} (h : isNameStart c = true) : isSpace c = false := by
  rw [Bool.eq_false_iff]
  intro hspace
  simp only [isSpace, Bool.or_eq_true, beq_iff_eq] at hspace
  rcases hspace with ((rfl | rfl) | rfl) | rfl <;> exact absurd h (by decide)

/-! ### Attributes -/

/-- An attribute as it is written, with the space in front of it. -/
def attributeChars (a : String × String) : List Char :=
  ' ' :: (a.1.toList ++ '=' :: '"' :: (a.2.toList.flatMap escapeChar ++ ['"']))

/-- An attribute as a tag holds it. -/
def rawAttribute (a : String × String) : QName × List Char :=
  (plainName a.1, a.2.toList.flatMap escapeChar)

theorem readQuoted_escape (cs rest : List Char) :
    readQuoted ('"' :: (cs.flatMap escapeChar ++ '"' :: rest)) =
      some (cs.flatMap escapeChar, rest) := by
  have hvalue : ∀ c ∈ cs.flatMap escapeChar, (c != '"' && c != '<') = true := by
    intro c hc
    rw [Bool.and_eq_true, bne_iff_ne, bne_iff_ne]
    constructor
    · rintro rfl
      exact not_mem_escape rfl (by decide) hc
    · rintro rfl
      exact not_mem_escape rfl (by decide) hc
  obtain ⟨htake, -⟩ := takeWhile_append_stop ('"' :: rest) hvalue (by simp)
  simp [readQuoted, htake]

theorem readAttribute_written {a : String × String} (h : isPlainName a.1 = true)
    (rest : List Char) :
    readAttribute (a.1.toList ++ '=' :: '"' :: (a.2.toList.flatMap escapeChar ++ '"' :: rest)) =
      some (rawAttribute a, rest) := by
  have hname := readName_append ('=' :: '"' :: (a.2.toList.flatMap escapeChar ++ '"' :: rest)) h
    (by simp; decide)
  simp only [readAttribute, hname, Option.bind_eq_bind, Option.bind_some,
    skipSpaces_cons (show isSpace '=' = false from rfl),
    skipSpaces_cons (show isSpace '"' = false from rfl), readQuoted_escape, rawAttribute]
  rfl

/-- The end of a tag that opens an element, which may close it as well. -/
def tagEnd (isEmpty : Bool) : List Char := if isEmpty then ['/', '>'] else ['>']

theorem readAttributes_written {as : List (String × String)} {isEmpty : Bool} {n : Nat}
    (h : ∀ a ∈ as, isPlainName a.1 = true) (hn : as.length < n) (rest : List Char) :
    readAttributes n (as.flatMap attributeChars ++ (tagEnd isEmpty ++ rest)) =
      some (as.map rawAttribute, isEmpty, rest) := by
  induction as generalizing n with
  | nil =>
    obtain ⟨n, rfl⟩ : ∃ m, n = m + 1 := ⟨n - 1, by simp at hn; omega⟩
    cases isEmpty <;> rfl
  | cons a as ih =>
    obtain ⟨n, rfl⟩ : ∃ m, n = m + 1 := ⟨n - 1, by simp at hn; omega⟩
    obtain ⟨c, cs, hc, hstart⟩ := isPlainName_cons (h a List.mem_cons_self)
    have hread := readAttribute_written (h a List.mem_cons_self)
      (as.flatMap attributeChars ++ (tagEnd isEmpty ++ rest))
    have hrest := ih (fun b hb => h b (List.mem_cons_of_mem a hb)) (n := n) (by simpa using hn)
    have hskip : ∀ inner, skipSpaces (' ' :: (a.1.toList ++ inner)) = a.1.toList ++ inner := by
      intro inner
      rw [hc, List.cons_append, skipSpaces, List.dropWhile_cons_of_pos (by decide)]
      exact skipSpaces_cons (isSpace_of_isNameStart hstart) _
    simp only [List.flatMap_cons, attributeChars, List.cons_append, List.append_assoc,
      List.nil_append, readAttributes, hskip]
    -- a name begins here, so this is not yet the end of the tag
    split
    · next heq =>
      rw [hc, List.cons_append] at heq
      exact absurd (List.cons.inj heq).1 (ne_of_isNameStart hstart (by decide))
    · next heq =>
      rw [hc, List.cons_append] at heq
      exact absurd (List.cons.inj heq).1 (ne_of_isNameStart hstart (by decide))
    · rw [List.head?_cons, Option.any_some, if_pos (by decide), hread]
      simp only [Option.bind_eq_bind, Option.bind_some, hrest, List.map_cons]
      rfl

/-! ### Tokens -/

theorem length_le_flatMap_attributeChars (as : List (String × String)) :
    as.length ≤ (as.flatMap attributeChars).length := by
  induction as with
  | nil => exact Nat.le_refl 0
  | cons a as ih =>
    simp only [List.flatMap_cons, List.length_append, attributeChars, List.length_cons]
    omega

/-- A tag as it is written, up to its end. -/
def openTagChars (name : String) (as : List (String × String)) (isEmpty : Bool) : List Char :=
  '<' :: (name.toList ++ (as.flatMap attributeChars ++ tagEnd isEmpty))

def closeTagChars (name : String) : List Char := '<' :: '/' :: (name.toList ++ ['>'])

theorem isNamePart_head?_attributes {as : List (String × String)} {isEmpty : Bool}
    {rest : List Char} {c : Char}
    (h : (as.flatMap attributeChars ++ (tagEnd isEmpty ++ rest)).head? = some c) :
    isNamePart c = false := by
  cases as with
  | nil => cases isEmpty <;> cases h <;> decide
  | cons a as =>
    cases h
    decide

theorem readToken_openTag {name : String} {as : List (String × String)} (isEmpty : Bool)
    (hname : isPlainName name = true) (has : ∀ a ∈ as, isPlainName a.1 = true)
    (rest : List Char) :
    readToken (openTagChars name as isEmpty ++ rest) =
      some (.openTag (plainName name) (as.map rawAttribute) isEmpty, rest) := by
  obtain ⟨c, cs, hc, hstart⟩ := isPlainName_cons hname
  have hread := readName_append (as.flatMap attributeChars ++ (tagEnd isEmpty ++ rest)) hname
    (fun c hc => isNamePart_head?_attributes hc)
  have hlength := length_le_flatMap_attributeChars as
  have hopen : readOpenTag
      (name.toList ++ (as.flatMap attributeChars ++ (tagEnd isEmpty ++ rest))) =
      some (.openTag (plainName name) (as.map rawAttribute) isEmpty, rest) := by
    simp only [readOpenTag, hread, Option.bind_eq_bind, Option.bind_some]
    rw [readAttributes_written has (by simp only [List.length_append]; omega)]
    rfl
  rw [openTagChars, List.cons_append, List.append_assoc, List.append_assoc, ← hopen, hc]
  -- the name tells the tag from comments, sections, instructions and closing tags
  have hbang : c ≠ '!' := ne_of_isNameStart hstart (by decide)
  have hquestion : c ≠ '?' := ne_of_isNameStart hstart (by decide)
  have hslash : c ≠ '/' := ne_of_isNameStart hstart (by decide)
  simp [readToken, hbang, hquestion, hslash]

theorem readToken_closeTag {name : String} (hname : isPlainName name = true)
    (rest : List Char) :
    readToken (closeTagChars name ++ rest) = some (.closeTag (plainName name), rest) := by
  have hread := readName_append ('>' :: rest) hname (by simp; decide)
  simp only [closeTagChars, List.cons_append, List.append_assoc, List.nil_append, readToken,
    readCloseTag, hread, Option.bind_eq_bind, Option.bind_some,
    skipSpaces_cons (show isSpace '>' = false from rfl)]

theorem cutAt_eq_none {mark cs : List Char} {x : Char} (hx : x ∈ mark) (hcs : x ∉ cs) :
    cutAt mark cs = none := by
  induction cs with
  | nil => rfl
  | cons c cs ih =>
    have hmark : mark.isPrefixOf (c :: cs) = false := by
      rw [Bool.eq_false_iff, ne_eq, List.isPrefixOf_iff_prefix]
      intro h
      exact hcs (h.subset hx)
    rw [cutAt, if_neg (by simp [hmark]), ih fun h => hcs (List.mem_cons_of_mem c h),
      Option.map_none]

/-- Escaped text is one token, up to the next tag or the end. -/
theorem readToken_text {cs rest : List Char} (hcs : cs ≠ [])
    (hrest : ∀ c, rest.head? = some c → c = '<') :
    readToken (cs.flatMap escapeChar ++ rest) = some (.text (cs.flatMap escapeChar), rest) := by
  have hangle : ∀ c ∈ cs.flatMap escapeChar, (c != '<') = true := by
    intro c hc
    rw [bne_iff_ne]
    rintro rfl
    exact not_mem_escape rfl (by decide) hc
  obtain ⟨htake, hdrop⟩ := takeWhile_append_stop rest hangle fun c hc => by
    simp [hrest c hc]
  have hmark : hasInside "]]>".toList (cs.flatMap escapeChar) = false := by
    rw [hasInside, cutAt_eq_none (x := '>') (by decide) (not_mem_escape rfl (by decide))]
    rfl
  have htext : readText (cs.flatMap escapeChar ++ rest) =
      some (.text (cs.flatMap escapeChar), rest) := by
    simp only [readText, htake, hdrop, hmark, Bool.false_eq_true, if_false]
  rw [← htext]
  obtain ⟨d, ds, hfirst⟩ := List.exists_cons_of_ne_nil (mt escape_eq_nil_iff.mp hcs)
  have hd : d ≠ '<' := by simpa using hangle d (by simp [hfirst])
  simp [readToken, hfirst, hd]

/-- The tokens that a text is read as, whatever the bound on their number, if it is no shorter than
the text. -/
def Spells (cs : List Char) (ts : List Token) : Prop :=
  ∀ n, cs.length ≤ n → readTokens n cs = some ts

theorem spells_nil : Spells [] [] := fun n _ => by cases n <;> rfl

theorem spells_append {w rest : List Char} {t : Token} {ts : List Token} (hw : w ≠ [])
    (ht : readToken (w ++ rest) = some (t, rest)) (hrest : Spells rest ts) :
    Spells (w ++ rest) (t :: ts) := by
  intro n hn
  obtain ⟨c, cs, rfl⟩ := List.exists_cons_of_ne_nil hw
  obtain ⟨n, rfl⟩ : ∃ m, n = m + 1 := ⟨n - 1, by simp at hn; omega⟩
  rw [List.cons_append] at ht ⊢
  have hle : rest.length ≤ n := by
    simp only [List.cons_append, List.length_cons, List.length_append] at hn
    omega
  simp only [readTokens, ht, Option.bind_eq_bind, Option.bind_some, hrest n hle, Option.map_some]

theorem tokens_eq_some {cs : List Char} {ts : List Token} (h : Spells cs ts) :
    tokens cs = some ts :=
  h cs.length (Nat.le_refl _)

end ChatForms.Xml
