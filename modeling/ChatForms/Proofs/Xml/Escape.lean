import ChatForms.Xml.Escape
import ChatForms.Xml.Reference

namespace ChatForms.Xml

/-- How a character is written in text and in attribute values. -/
def escapeChar (c : Char) : List Char :=
  if c = '&' then ['&', 'a', 'm', 'p', ';']
  else if c = '<' then ['&', 'l', 't', ';']
  else if c = '>' then ['&', 'g', 't', ';']
  else if c = '"' then ['&', 'q', 'u', 'o', 't', ';']
  else if c = '\x27' then ['&', 'a', 'p', 'o', 's', ';']
  else [c]

/-- The characters that are always written by a reference. -/
def isMark (c : Char) : Bool :=
  c == '&' || c == '<' || c == '>' || c == '"' || c == '\x27'

/-- How a reader meets a character that was escaped. -/
def written (c : Char) : Written := if isMark c then .referred c else .plain c

@[simp] theorem char_written (c : Char) : (written c).char = c := by
  unfold written
  split <;> rfl

theorem isMark_cases {c : Char} (h : isMark c = true) :
    c = '&' ∨ c = '<' ∨ c = '>' ∨ c = '"' ∨ c = '\x27' := by
  simpa [isMark, or_assoc] using h

/-- Only marks are written in another way than they are. -/
theorem escapeChar_cases (c : Char) :
    (c = '&' ∨ c = '<' ∨ c = '>' ∨ c = '"' ∨ c = '\x27') ∨
      (isMark c = false ∧ escapeChar c = [c]) := by
  cases hc : isMark c with
  | true => exact Or.inl (isMark_cases hc)
  | false =>
    refine Or.inr ⟨rfl, ?_⟩
    simp only [isMark, Bool.or_eq_false_iff, beq_eq_false_iff_ne, ne_eq] at hc
    simp [escapeChar, hc]

/-- The replacements amount to one pass, in which every character is written on its own. -/
theorem escape_eq (s : String) : escape s = String.ofList (s.toList.flatMap escapeChar) := by
  simp only [escape, replaceChar, List.flatMap_assoc]
  congr 2
  funext c
  rcases escapeChar_cases c with hmark | ⟨hc, hescape⟩
  · rcases hmark with rfl | rfl | rfl | rfl | rfl <;> rfl
  · simp only [isMark, Bool.or_eq_false_iff, beq_eq_false_iff_ne, ne_eq] at hc
    simp only [hescape, hc, if_false, List.flatMap_singleton]

theorem toList_escape (s : String) : (escape s).toList = s.toList.flatMap escapeChar := by
  rw [escape_eq, String.toList_ofList]

theorem not_mem_escapeChar {c x : Char} (hx : isMark x = true) (hamp : x ≠ '&') :
    x ∉ escapeChar c := by
  rcases escapeChar_cases c with hmark | ⟨hc, hescape⟩
  · rcases hmark with rfl | rfl | rfl | rfl | rfl <;>
      rcases isMark_cases hx with rfl | rfl | rfl | rfl | rfl <;>
        first | exact absurd rfl hamp | decide
  · rw [hescape, List.mem_singleton]
    rintro rfl
    exact absurd hx (by simp [hc])

/-- Escaped text holds neither angle brackets nor quotes. -/
theorem not_mem_escape {cs : List Char} {x : Char} (hx : isMark x = true) (hamp : x ≠ '&') :
    x ∉ cs.flatMap escapeChar := by
  rw [List.mem_flatMap]
  rintro ⟨c, -, hc⟩
  exact not_mem_escapeChar hx hamp hc

theorem escape_eq_nil_iff {cs : List Char} : cs.flatMap escapeChar = [] ↔ cs = [] := by
  cases cs with
  | nil => simp
  | cons c cs =>
    rcases escapeChar_cases c with hmark | ⟨-, hescape⟩
    · rcases hmark with rfl | rfl | rfl | rfl | rfl <;> simp [escapeChar]
    · simp [hescape]

theorem all_isXmlChar_escapeChar (c : Char) : (escapeChar c).all isXmlChar = isXmlChar c := by
  rcases escapeChar_cases c with hmark | ⟨-, hescape⟩
  · rcases hmark with rfl | rfl | rfl | rfl | rfl <;> decide
  · simp [hescape]

theorem all_isXmlChar_escape (cs : List Char) :
    (cs.flatMap escapeChar).all isXmlChar = cs.all isXmlChar := by
  induction cs with
  | nil => rfl
  | cons c cs ih =>
    rw [List.flatMap_cons, List.all_append, all_isXmlChar_escapeChar, ih, List.all_cons]

theorem resolve_escapeChar (c : Char) (rest : List Char) :
    resolve none (escapeChar c ++ rest) = (resolve none rest).map (written c :: ·) := by
  rcases escapeChar_cases c with hmark | ⟨hc, hescape⟩
  · rcases hmark with rfl | rfl | rfl | rfl | rfl <;> rfl
  · have hamp : c ≠ '&' := by
      rintro rfl
      exact absurd hc (by decide)
    simp [hescape, resolve, hamp, written, hc]

/-- Every character of an escaped text comes back. -/
theorem resolve_escape (cs : List Char) :
    resolve none (cs.flatMap escapeChar) = some (cs.map written) := by
  induction cs with
  | nil => rfl
  | cons c cs ih => rw [List.flatMap_cons, resolve_escapeChar, ih, Option.map_some, List.map_cons]

/-! ### Attribute values -/

/-- A tab or one of the two characters that end lines. -/
def isLineSpace (c : Char) : Bool := c == '\t' || c == '\n' || c == '\r'

/-- Every line end and every other tab, line feed or carriage return becomes one space. The two
characters that end a line together count once. -/
def spaceLines : List Char → List Char
  | [] => []
  | c :: cs =>
    if c = '\r' ∧ cs.head? = some '\n' then spaceLines cs
    else (if isLineSpace c then ' ' else c) :: spaceLines cs

def spaced (s : String) : String := String.ofList (spaceLines s.toList)

theorem head?_escape (cs : List Char) :
    (cs.flatMap escapeChar).head? = some '\n' ↔ cs.head? = some '\n' := by
  cases cs with
  | nil => simp
  | cons c cs =>
    rcases escapeChar_cases c with hmark | ⟨-, hescape⟩
    · rcases hmark with rfl | rfl | rfl | rfl | rfl <;> simp [escapeChar]
    · simp [hescape]

theorem plainText_plain (isAfter : Bool) (c : Char) :
    plainText isAfter '\r' (some (.plain c)) = if c = '\n' then [] else ['\n'] := by
  by_cases hc : c = '\n'
  · subst hc
    rfl
  · simp [plainText, hc]

theorem plainText_return (next : Option Char) :
    plainText false '\r' (next.map .plain) = if next = some '\n' then [] else ['\n'] := by
  cases next with
  | none => rfl
  | some c => simp [plainText_plain]

theorem settleLines_plain (cs : List Char) (rest : List Written) (h : '\r' ∉ cs) :
    settleLines false (cs.map .plain ++ rest) = cs ++ settleLines false rest := by
  induction cs with
  | nil => rfl
  | cons c cs ih =>
    obtain ⟨hc, hcs⟩ := List.ne_and_not_mem_of_not_mem_cons h
    simp only [List.map_cons, List.cons_append, settleLines, plainText, if_pos (Ne.symm hc)]
    rw [ih hcs]
    rfl

/-- The white space that a reader makes of line ends and tabs. -/
def spaceFor (c : Char) : Char := if c == '\n' || c == '\t' then ' ' else c

theorem map_spaceFor_escapeChar {c : Char} (h : c ≠ '\r') :
    (escapeChar c).map spaceFor = escapeChar (if isLineSpace c then ' ' else c) := by
  rcases escapeChar_cases c with hmark | ⟨-, hescape⟩
  · rcases hmark with rfl | rfl | rfl | rfl | rfl <;> decide
  · rw [hescape]
    by_cases hline : c = '\n' ∨ c = '\t'
    · rcases hline with rfl | rfl <;> decide
    · rw [not_or] at hline
      have hspace : isLineSpace c = false := by simp [isLineSpace, h, hline]
      simp [spaceFor, hline, hspace, hescape]

theorem not_return_mem_escapeChar {c : Char} (h : c ≠ '\r') : '\r' ∉ escapeChar c := by
  rcases escapeChar_cases c with hmark | ⟨-, hescape⟩
  · rcases hmark with rfl | rfl | rfl | rfl | rfl <;> decide
  · simpa [hescape] using Ne.symm h

/-- Spaces take the place of line ends before references are resolved. -/
theorem map_decodeSection_escape (cs : List Char) :
    (decodeSection (cs.flatMap escapeChar)).map spaceFor = (spaceLines cs).flatMap escapeChar := by
  unfold decodeSection
  induction cs with
  | nil => rfl
  | cons c cs ih =>
    rw [List.flatMap_cons, List.map_append]
    by_cases hc : c = '\r'
    · -- a line feed behind the carriage return takes its place, so the next character decides
      subst hc
      simp only [show escapeChar '\r' = ['\r'] from rfl, List.map_cons, List.map_nil,
        List.cons_append, List.nil_append, settleLines, List.head?_map, plainText_return,
        head?_escape, spaceLines, true_and, List.map_append, ih]
      by_cases hnext : cs.head? = some '\n'
      · simp [hnext]
      · simp [hnext, spaceFor, isLineSpace, escapeChar]
    · rw [settleLines_plain _ _ (not_return_mem_escapeChar hc), List.map_append, ih,
        map_spaceFor_escapeChar hc]
      simp only [spaceLines, hc, false_and, if_false, List.flatMap_cons]

/-- An escaped attribute value is read back with spaces for its line ends. -/
theorem decodeValue_escape (cs : List Char) :
    decodeValue (cs.flatMap escapeChar) = some (spaceLines cs) := by
  have hspaced : (decodeSection (cs.flatMap escapeChar)).map
      (fun c => if c == '\n' || c == '\t' then ' ' else c) = _ := map_decodeSection_escape cs
  simp only [decodeValue, hspaced, resolve_escape, Option.map_some, List.map_map]
  congr 1
  calc
    _ = (spaceLines cs).map id := List.map_congr_left fun c _ => char_written c
    _ = spaceLines cs := List.map_id _

theorem mem_spaceLines {cs : List Char} {x : Char} (h : x ∈ spaceLines cs) :
    x = ' ' ∨ (x ∈ cs ∧ isLineSpace x = false) := by
  induction cs with
  | nil => simp [spaceLines] at h
  | cons c cs ih =>
    have htail : x ∈ spaceLines cs → x = ' ' ∨ (x ∈ c :: cs ∧ isLineSpace x = false) :=
      fun h => (ih h).imp_right fun hx => ⟨List.mem_cons_of_mem c hx.1, hx.2⟩
    simp only [spaceLines] at h
    split at h
    · exact htail h
    · rcases List.mem_cons.mp h with hx | h
      · split at hx
        · exact Or.inl hx
        · next hc => exact Or.inr ⟨hx ▸ List.mem_cons_self, by simpa [hx] using hc⟩
      · exact htail h

theorem spaceLines_eq_self {cs : List Char} (h : ∀ c ∈ cs, isLineSpace c = false) :
    spaceLines cs = cs := by
  induction cs with
  | nil => rfl
  | cons c cs ih =>
    have hc := h c List.mem_cons_self
    have hreturn : c ≠ '\r' := by
      rintro rfl
      exact absurd hc (by decide)
    simp only [spaceLines, hreturn, false_and, if_false, hc, Bool.false_eq_true]
    rw [ih fun d hd => h d (List.mem_cons_of_mem c hd)]

/-- Only values without tabs and line ends come back as they are. -/
theorem spaceLines_eq_self_iff {cs : List Char} :
    spaceLines cs = cs ↔ ∀ c ∈ cs, isLineSpace c = false := by
  refine ⟨fun h c hc => ?_, spaceLines_eq_self⟩
  rw [← h] at hc
  rcases mem_spaceLines hc with rfl | hc
  · decide
  · exact hc.2

theorem spaced_eq_self_iff {s : String} :
    spaced s = s ↔ ∀ c ∈ s.toList, isLineSpace c = false := by
  rw [← spaceLines_eq_self_iff, spaced]
  constructor
  · intro h
    rw [← String.toList_ofList (l := spaceLines s.toList), h]
  · intro h
    rw [h, String.ofList_toList]

theorem mem_spaced {s : String} {x : Char} (h : x ∈ (spaced s).toList) :
    x = ' ' ∨ (x ∈ s.toList ∧ isLineSpace x = false) := by
  rw [spaced, String.toList_ofList] at h
  exact mem_spaceLines h

@[simp] theorem spaced_spaced (s : String) : spaced (spaced s) = spaced s := by
  rw [spaced_eq_self_iff]
  intro c hc
  rcases mem_spaced hc with rfl | hc
  · decide
  · exact hc.2

/-! ### Texts -/

/-- How an escaped text is read back. -/
def rereadChars (cs : List Char) : List Char := settleLines false (cs.map written)

def reread (s : String) : String := String.ofList (rereadChars s.toList)

theorem decodeText_escape (cs : List Char) :
    decodeText (cs.flatMap escapeChar) = some (rereadChars cs) := by
  rw [decodeText, resolve_escape, Option.map_some, rereadChars]

/-- Every carriage return stands in front of a character that is written by a reference, or behind
one at the end of the text. -/
def keepsReturns (isAfterMark : Bool) : List Char → Bool
  | [] => true
  | c :: cs =>
    (c != '\r' || (cs.head?.map isMark).getD isAfterMark) && keepsReturns (isMark c) cs

theorem settleLines_written (isAfter : Bool) (c : Char) (cs : List Char) :
    settleLines isAfter ((c :: cs).map written) =
      (if c = '\r' then plainText isAfter c (cs.head?.map written) else [c]) ++
        settleLines (isMark c) (cs.map written) := by
  rw [List.map_cons, written]
  by_cases hc : isMark c = true
  · have hreturn : c ≠ '\r' := by
      rintro rfl
      exact absurd hc (by decide)
    rw [if_pos hc, if_neg hreturn, settleLines, hc, List.singleton_append]
  · rw [Bool.not_eq_true] at hc
    rw [hc, if_neg (by decide), settleLines, List.head?_map]
    by_cases hreturn : c = '\r'
    · rw [if_pos hreturn]
    · simp [hreturn, plainText]

theorem settleLines_of_keepsReturns {isAfter : Bool} {cs : List Char}
    (h : keepsReturns isAfter cs = true) : settleLines isAfter (cs.map written) = cs := by
  induction cs generalizing isAfter with
  | nil => rfl
  | cons c cs ih =>
    simp only [keepsReturns, Bool.and_eq_true, Bool.or_eq_true, bne_iff_ne] at h
    obtain ⟨hc, hcs⟩ := h
    rw [settleLines_written, ih hcs]
    by_cases hreturn : c = '\r'
    · subst hreturn
      cases cs with
      | nil =>
        simp only [ne_eq, not_true_eq_false, List.head?_nil, Option.map_none, Option.getD_none,
          false_or] at hc
        subst hc
        rfl
      | cons d ds =>
        simp only [ne_eq, not_true_eq_false, List.head?_cons, Option.map_some, Option.getD_some,
          false_or] at hc
        simp [plainText, written, hc]
    · rw [if_neg hreturn, List.singleton_append]

theorem plainText_written (isAfter : Bool) (c : Char) :
    plainText isAfter '\r' (some (written c)) =
      if isMark c then ['\r'] else if c = '\n' then [] else ['\n'] := by
  by_cases hc : isMark c = true
  · simp [plainText, written, hc]
  · simp [written, hc, plainText_plain]

/-- What has been read once has no carriage return left that another reading would change. -/
theorem keepsReturns_settleLines {isAfter isBehind : Bool} {cs : List Char}
    (h : isAfter = isBehind ∨ ∃ c rest, cs = c :: rest ∧ c ≠ '\r') :
    keepsReturns isBehind (settleLines isAfter (cs.map written)) = true := by
  induction cs generalizing isAfter isBehind with
  | nil => rfl
  | cons c cs ih =>
    rw [settleLines_written]
    by_cases hreturn : c = '\r'
    · -- only here does it matter whether a mark stands in front, and then the two agree
      subst hreturn
      obtain rfl : isAfter = isBehind := by simpa using h
      rw [if_pos rfl]
      cases cs with
      | nil => cases isAfter <;> decide
      | cons d ds =>
        rw [List.head?_cons, Option.map_some, plainText_written]
        by_cases hmark : isMark d = true
        · have hd : d ≠ '\r' := by
            rintro rfl
            exact absurd hmark (by decide)
          have hhead : (settleLines false ((d :: ds).map written)).head? = some d := by
            rw [settleLines_written, if_neg hd]
            rfl
          have hrest : keepsReturns false (settleLines false ((d :: ds).map written)) = true :=
            ih (Or.inl rfl)
          rw [if_pos hmark, List.singleton_append, keepsReturns]
          rw [show isMark '\r' = false from rfl, hhead, hrest, Option.map_some, Option.getD_some,
            hmark, Bool.or_true, Bool.and_true]
        · rw [if_neg hmark]
          by_cases hline : d = '\n'
          · rw [if_pos hline]
            exact ih (Or.inr ⟨d, ds, rfl, by rw [hline]; decide⟩)
          · rw [if_neg hline, List.singleton_append, keepsReturns]
            have hrest : keepsReturns false (settleLines false ((d :: ds).map written)) = true :=
              ih (Or.inl rfl)
            simpa [show isMark '\r' = false from rfl, show isMark '\n' = false from rfl] using hrest
    · rw [if_neg hreturn, List.singleton_append, keepsReturns, ih (Or.inl rfl)]
      simp [hreturn]

theorem keepsReturns_of_not_mem {isAfter : Bool} {cs : List Char} (h : '\r' ∉ cs) :
    keepsReturns isAfter cs = true := by
  induction cs generalizing isAfter with
  | nil => rfl
  | cons c cs ih =>
    obtain ⟨hc, hcs⟩ := List.ne_and_not_mem_of_not_mem_cons h
    simp [keepsReturns, ih hcs, Ne.symm hc]

/-- A text that a reader leaves as it is when it meets it escaped. -/
def IsSettled (s : String) : Prop := keepsReturns false s.toList = true

instance (s : String) : Decidable (IsSettled s) := inferInstanceAs (Decidable (_ = _))

theorem reread_eq_self {s : String} (h : IsSettled s) : reread s = s := by
  rw [reread, rereadChars, settleLines_of_keepsReturns h, String.ofList_toList]

theorem isSettled_reread (s : String) : IsSettled (reread s) := by
  rw [IsSettled, reread, String.toList_ofList]
  exact keepsReturns_settleLines (Or.inl rfl)

theorem isSettled_of_not_mem {s : String} (h : '\r' ∉ s.toList) : IsSettled s :=
  keepsReturns_of_not_mem h

end ChatForms.Xml
