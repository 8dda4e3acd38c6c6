import ChatForms.Text.Lower
import ChatForms.Xml.Char

namespace ChatForms.Text

/-- A character that is its own small letter. -/
def IsSmall (c : Char) : Prop := lowerChar c = [c]

instance (c : Char) : Decidable (IsSmall c) := inferInstanceAs (Decidable (_ = _))

/-- The last number that small letters of the range have. -/
def CaseRange.lastTarget (r : CaseRange) : Nat := r.target + (r.last - r.first)

/-- No small letter of `r` is a capital of `s`: the numbers lie apart, or they differ in parity. -/
def CaseRange.avoids (r s : CaseRange) : Bool :=
  r.lastTarget.blt s.first || s.last.blt r.target ||
    ((r.first == r.last || r.stride == 2) && s.stride == 2 && (r.target + s.first) % 2 == 1)

/-- The small letters are characters that may stand in a document. None is a capital of ASCII or
the capital with two small letters. -/
def CaseRange.isPlain (r : CaseRange) : Bool :=
  Nat.blt 0x5A r.target && (r.lastTarget.blt 0x130 || Nat.blt 0x130 r.target) &&
    (r.lastTarget.blt 0xD800 || Nat.blt 0xDFFF r.target) &&
    (r.lastTarget.blt 0xFFFE || Nat.blt 0xFFFF r.target) && r.lastTarget.blt 0x110000

theorem caseRanges_avoid : caseRanges.all (fun r => caseRanges.all r.avoids) = true := by
  decide +kernel

theorem caseRanges_plain : caseRanges.all CaseRange.isPlain = true := by decide +kernel

theorem CaseRange.contains_iff {r : CaseRange} {n : Nat} :
    r.contains n = true ↔ r.first ≤ n ∧ n ≤ r.last ∧ (n - r.first) % r.stride = 0 := by
  simp [CaseRange.contains, and_assoc]

/-- A small letter is no capital of another range. -/
theorem CaseRange.contains_target {r s : CaseRange} {n : Nat} (hrs : r.avoids s = true)
    (hn : r.contains n = true) : s.contains (r.target + (n - r.first)) = false := by
  obtain ⟨hfirst, hlast, hmod⟩ := contains_iff.mp hn
  rw [Bool.eq_false_iff, ne_eq, contains_iff]
  rintro ⟨hfirst', hlast', hmod'⟩
  simp only [avoids, lastTarget, Bool.or_eq_true, Bool.and_eq_true, beq_iff_eq, Nat.blt_eq] at hrs
  rcases hrs with (hrs | hrs) | ⟨⟨hr, hs⟩, hparity⟩
  · omega
  · omega
  · -- the capitals of `s` are every second number, and this one is of the other parity
    rw [hs] at hmod'
    rcases hr with hr | hr
    · omega
    · rw [hr] at hmod
      omega

theorem toNat_ofNat {n : Nat} (h : n.isValidChar) : (Char.ofNat n).toNat = n := by
  rw [Char.ofNat, dif_pos h]
  rfl

/-- A character that no reader of documents takes for anything but itself. -/
def IsClear (c : Char) : Prop := 0x20 < c.toNat ∧ Xml.isXmlChar c = true

instance (c : Char) : Decidable (IsClear c) := inferInstanceAs (Decidable (_ ∧ _))

instance (s : String) : Decidable (∀ c ∈ s.toList, IsClear c) := List.decidableBAll _ _

theorem toNat_target {r : CaseRange} {n : Nat} (hr : r ∈ caseRanges) (hn : r.contains n = true) :
    (Char.ofNat (r.target + (n - r.first))).toNat = r.target + (n - r.first) := by
  have hplain := List.all_eq_true.mp caseRanges_plain r hr
  simp only [CaseRange.isPlain, CaseRange.lastTarget, Bool.and_eq_true, Bool.or_eq_true,
    Nat.blt_eq] at hplain
  obtain ⟨hfirst, hlast, -⟩ := CaseRange.contains_iff.mp hn
  apply toNat_ofNat
  simp only [Nat.isValidChar]
  omega

/-- Characters outside of A to Z are left as they are. -/
theorem toLower_eq_self {c : Char} (h : 'Z'.toNat < c.toNat) : c.toLower = c := by
  have hupper : ¬(c.val ≥ 'A'.val ∧ c.val ≤ 'Z'.val) := by
    intro hupper
    have hle : c.toNat ≤ 'Z'.toNat := hupper.2
    exact Nat.lt_irrefl _ (Nat.lt_of_lt_of_le h hle)
  exact dif_neg hupper

/-- Every small letter in the table is its own small letter. -/
theorem isSmall_of_caseRange {r : CaseRange} {n : Nat} (hr : r ∈ caseRanges)
    (hn : r.contains n = true) :
    IsSmall (Char.ofNat (r.target + (n - r.first))) ∧
      IsClear (Char.ofNat (r.target + (n - r.first))) := by
  have hplain := List.all_eq_true.mp caseRanges_plain r hr
  simp only [CaseRange.isPlain, CaseRange.lastTarget, Bool.and_eq_true, Bool.or_eq_true,
    Nat.blt_eq] at hplain
  obtain ⟨hfirst, hlast, -⟩ := CaseRange.contains_iff.mp hn
  have htarget := toNat_target hr hn
  have hfind : caseRanges.find? (·.contains (r.target + (n - r.first))) = none := by
    rw [List.find?_eq_none]
    intro s hs
    have havoid := List.all_eq_true.mp (List.all_eq_true.mp caseRanges_avoid r hr) s hs
    rw [CaseRange.contains_target havoid hn]
    decide
  generalize hm : r.target + (n - r.first) = m at *
  refine ⟨?_, ?_, ?_⟩
  · simp only [IsSmall, lowerChar, htarget, hfind]
    by_cases hascii : m < 0x80
    · have hupper : 'Z'.toNat < (Char.ofNat m).toNat := by
        rw [htarget]
        exact Nat.lt_of_lt_of_le hplain.1.1.1.1 (hm ▸ Nat.le_add_right _ _)
      rw [if_pos hascii, toLower_eq_self hupper]
    · rw [if_neg hascii, if_neg (by omega)]
  · rw [htarget]
    omega
  · simp only [Xml.isXmlChar, htarget]
    rw [if_neg (by omega)]
    simp only [Bool.and_eq_true, bne_iff_ne]
    omega

theorem isSmall_of_ascii : ∀ n : Fin 0x80, IsSmall (Char.ofNat n).toLower ∧
    ((Char.ofNat n).toLower = Char.ofNat n ∨ IsClear (Char.ofNat n).toLower) := by
  decide +kernel

theorem mem_lowerChar {c x : Char} (h : x ∈ lowerChar c) : IsSmall x ∧ (x = c ∨ IsClear x) := by
  simp only [lowerChar] at h
  split at h
  · next hascii =>
    have hsmall := isSmall_of_ascii ⟨c.toNat, hascii⟩
    rw [Char.ofNat_toNat] at hsmall
    rw [List.mem_singleton.mp h]
    exact hsmall
  · next hascii =>
    split at h
    · -- the dotted capital I, the one character with two small letters
      simp only [List.mem_cons, List.not_mem_nil, or_false] at h
      rcases h with rfl | rfl <;> exact ⟨by decide +kernel, Or.inr (by decide)⟩
    · next hdotted =>
      split at h
      · next r hr =>
        have hsmall := isSmall_of_caseRange (List.mem_of_find?_eq_some hr)
          (by simpa using List.find?_some hr)
        rw [List.mem_singleton.mp h]
        exact ⟨hsmall.1, Or.inr hsmall.2⟩
      · next hnone =>
        rw [List.mem_singleton.mp h]
        refine ⟨?_, Or.inl rfl⟩
        simp only [IsSmall, lowerChar, if_neg hascii, if_neg hdotted, hnone]

theorem mem_lowerChars {before cs : List Char} {x : Char} (h : x ∈ lowerChars before cs) :
    IsSmall x ∧ (x ∈ cs ∨ IsClear x) := by
  induction cs generalizing before with
  | nil => simp [lowerChars] at h
  | cons c cs ih =>
    simp only [lowerChars, List.mem_append] at h
    rcases h with h | h
    · split at h
      · have hsigma : x = 'ς' ∨ x = 'σ' := by
          split at h
          · exact Or.inl (List.mem_singleton.mp h)
          · exact Or.inr (List.mem_singleton.mp h)
        rcases hsigma with rfl | rfl <;> exact ⟨by decide +kernel, Or.inr (by decide)⟩
      · obtain ⟨hsmall, hx⟩ := mem_lowerChar h
        refine ⟨hsmall, hx.imp_left ?_⟩
        rintro rfl
        exact List.mem_cons_self
    · obtain ⟨hsmall, hx⟩ := ih h
      exact ⟨hsmall, hx.imp_left (List.mem_cons_of_mem c)⟩

theorem lowerChars_eq_self {before cs : List Char} (h : ∀ c ∈ cs, IsSmall c) :
    lowerChars before cs = cs := by
  induction cs generalizing before with
  | nil => rfl
  | cons c cs ih =>
    have hsigma : c ≠ 'Σ' := by
      rintro rfl
      exact absurd (h _ List.mem_cons_self) (by decide +kernel)
    have hc : lowerChar c = [c] := h c List.mem_cons_self
    simp only [lowerChars, if_neg hsigma, hc, List.cons_append, List.nil_append]
    rw [ih fun d hd => h d (List.mem_cons_of_mem c hd)]

/-- Text is in lower case exactly if each of its characters is. -/
theorem lower_eq_self_iff {s : String} : lower s = s ↔ ∀ c ∈ s.toList, IsSmall c := by
  constructor
  · intro h c hc
    rw [← h, lower, String.toList_ofList] at hc
    exact (mem_lowerChars hc).1
  · intro h
    rw [lower, lowerChars_eq_self h, String.ofList_toList]

theorem lower_lower (s : String) : lower (lower s) = lower s := by
  rw [lower_eq_self_iff]
  intro c hc
  rw [lower, String.toList_ofList] at hc
  exact (mem_lowerChars hc).1

theorem mem_lower {s : String} {x : Char} (h : x ∈ (lower s).toList) :
    x ∈ s.toList ∨ IsClear x := by
  rw [lower, String.toList_ofList] at h
  exact (mem_lowerChars h).2

end ChatForms.Text
