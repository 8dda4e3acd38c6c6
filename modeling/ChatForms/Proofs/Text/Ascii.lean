import ChatForms.Proofs.Text.Lower

namespace ChatForms.Text

def IsAscii (c : Char) : Prop := c.toNat < 0x80

instance (c : Char) : Decidable (IsAscii c) := inferInstanceAs (Decidable (_ < _))

/-- Texts that differ in nothing but large and small letters of ASCII. -/
def EqCaseless (s t : String) : Prop := lowerAscii s = lowerAscii t

instance (s t : String) : Decidable (EqCaseless s t) := inferInstanceAs (Decidable (_ = _))

/-! ### Letters beyond ASCII -/

/-- A small letter of the range is one of ASCII only if its capital is one, apart from the k of the
kelvin sign. -/
def CaseRange.keepsAscii (r : CaseRange) : Bool :=
  r.last.blt 0x80 || Nat.ble 0x80 r.target || (r.target == 'k'.toNat && r.first == r.last)

theorem caseRanges_keepAscii : caseRanges.all CaseRange.keepsAscii = true := by decide +kernel

/-- No character beyond ASCII becomes one of ASCII but a k. -/
theorem isAscii_of_lowerChar {c : Char} (h : ∀ x ∈ lowerChar c, IsAscii x ∧ x ≠ 'k') :
    IsAscii c := by
  refine Nat.lt_of_not_le fun hle => ?_
  have hc : ¬c.toNat < 0x80 := Nat.not_lt.mpr hle
  simp only [lowerChar, if_neg hc] at h
  split at h
  · -- the dot that the capital I with a dot leaves behind
    exact absurd (h '\u0307' (by simp)).1 (by decide)
  · split at h
    · next r hr =>
      have hmem : r ∈ caseRanges := List.mem_of_find?_eq_some hr
      have hn : r.contains c.toNat = true := by simpa using List.find?_some hr
      have hkeeps := List.all_eq_true.mp caseRanges_keepAscii r hmem
      simp only [CaseRange.keepsAscii, Bool.or_eq_true, Bool.and_eq_true, Nat.blt_eq,
        Nat.ble_eq, beq_iff_eq] at hkeeps
      obtain ⟨hfirst, hlast, -⟩ := CaseRange.contains_iff.mp hn
      obtain ⟨hascii, hne⟩ := h _ List.mem_cons_self
      rw [IsAscii, toNat_target hmem hn] at hascii
      rcases hkeeps with (hsmall | hbeyond) | ⟨hkelvin, honly⟩
      · omega
      · omega
      · have hzero : c.toNat - r.first = 0 := by omega
        rw [hkelvin, hzero] at hne
        exact hne (by decide)
    · exact hc (h c List.mem_cons_self).1

theorem lowerChar_of_isAscii {c : Char} (h : IsAscii c) : lowerChar c = [c.toLower] := by
  have hc : c.toNat < 0x80 := h
  simp only [lowerChar, if_pos hc]

theorem isAscii_of_toLower {c : Char} (h : IsAscii c.toLower) : IsAscii c := by
  by_cases hupper : 'Z'.toNat < c.toNat
  · rwa [toLower_eq_self hupper] at h
  · have hz : 'Z'.toNat < 0x80 := by decide
    exact Nat.lt_of_le_of_lt (Nat.le_of_not_lt hupper) hz

/-! ### Texts of ASCII -/

/-- Within ASCII, full lower case is that of ASCII. -/
theorem lowerChars_of_isAscii {before cs : List Char} (h : ∀ c ∈ cs, IsAscii c) :
    lowerChars before cs = cs.map Char.toLower := by
  induction cs generalizing before with
  | nil => rfl
  | cons c cs ih =>
    obtain ⟨hc, hcs⟩ := List.forall_mem_cons.mp h
    have hsigma : c ≠ 'Σ' := by
      rintro rfl
      exact absurd hc (by decide)
    rw [lowerChars, if_neg hsigma, lowerChar_of_isAscii hc, ih hcs, List.map_cons]
    rfl

theorem isAscii_of_lowerChars {before cs : List Char}
    (h : ∀ x ∈ lowerChars before cs, IsAscii x ∧ x ≠ 'k') : ∀ c ∈ cs, IsAscii c := by
  induction cs generalizing before with
  | nil => simp
  | cons c cs ih =>
    rw [lowerChars, List.forall_mem_append] at h
    obtain ⟨hsmall, hrest⟩ := h
    refine List.forall_mem_cons.mpr ⟨?_, ih hrest⟩
    by_cases hsigma : c = 'Σ'
    · -- neither of the two small letters is one of ASCII
      rw [if_pos hsigma] at hsmall
      split at hsmall <;> exact absurd (hsmall _ List.mem_cons_self).1 (by decide)
    · rw [if_neg hsigma] at hsmall
      exact isAscii_of_lowerChar hsmall

/-- In text of ASCII without a k, full lower case finds nothing that the lower case of ASCII does
not find. -/
theorem lower_eq_iff {s t : String} (ht : ∀ c ∈ t.toList, IsAscii c ∧ c ≠ 'k') :
    lower s = t ↔ lowerAscii s = t := by
  have hsame : (∀ c ∈ s.toList, IsAscii c) → lower s = lowerAscii s := by
    intro hs
    rw [lower, lowerAscii, lowerChars_of_isAscii hs]
  constructor
  · rintro rfl
    rw [lower, String.toList_ofList] at ht
    exact (hsame (isAscii_of_lowerChars ht)).symm
  · rintro rfl
    rw [lowerAscii, String.toList_ofList, List.forall_mem_map] at ht
    exact hsame fun c hc => isAscii_of_toLower (ht c hc).1

/-- The kelvin sign is why a k is left out. -/
example : lower "To\u212Aen" = "token" ∧ lowerAscii "To\u212Aen" ≠ "token" := by decide +kernel

end ChatForms.Text
