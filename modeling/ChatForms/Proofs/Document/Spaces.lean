import ChatForms.Proofs.Attributes
import ChatForms.Proofs.Document.Arena
import ChatForms.Proofs.Xml.Escape

namespace ChatForms

/-! ### Values with spaces for their line ends -/

namespace Xml

theorem isWhite_of_isLineSpace {c : Char} (h : isLineSpace c = true) : Text.isWhite c = true := by
  simp only [isLineSpace, Bool.or_eq_true, beq_iff_eq] at h
  rcases h with (rfl | rfl) | rfl <;> decide

@[simp] theorem isBlank_spaced (s : String) : Text.isBlank (spaced s) = Text.isBlank s := by
  rw [Text.isBlank, Text.isBlank, spaced, String.toList_ofList]
  induction s.toList with
  | nil => rfl
  | cons c cs ih =>
    rw [spaceLines]
    split
    · next h =>
      rw [ih, List.all_cons, h.1, show Text.isWhite '\r' = true by decide, Bool.true_and]
    · rw [List.all_cons, List.all_cons, ih]
      split
      · next hline =>
        rw [isWhite_of_isLineSpace hline, show Text.isWhite ' ' = true by decide]
      · rfl

theorem splitWords_return {word cs : List Char} (h : cs.head? = some '\n') :
    Text.splitWords word ('\r' :: cs) = Text.splitWords word cs := by
  obtain ⟨rest, rfl⟩ : ∃ rest, cs = '\n' :: rest := by
    cases cs with
    | nil => cases h
    | cons c rest =>
      cases h
      exact ⟨rest, rfl⟩
  simp [Text.splitWords, show Text.isWhite '\r' = true by decide,
    show Text.isWhite '\n' = true by decide]

theorem splitWords_spaceLines (word cs : List Char) :
    Text.splitWords word (spaceLines cs) = Text.splitWords word cs := by
  induction cs generalizing word with
  | nil => rfl
  | cons c cs ih =>
    rw [spaceLines]
    split
    · next h => rw [ih, h.1, splitWords_return h.2]
    · split
      · next hline =>
        simp only [Text.splitWords, isWhite_of_isLineSpace hline,
          show Text.isWhite ' ' = true by decide, ih, if_true]
      · simp only [Text.splitWords, ih]

@[simp] theorem words_spaced (s : String) : Text.words (spaced s) = Text.words s := by
  rw [Text.words, Text.words, spaced, String.toList_ofList, splitWords_spaceLines]

theorem space_mem_spaceLines {cs : List Char} {c : Char} (hc : c ∈ cs)
    (hline : isLineSpace c = true) : ' ' ∈ spaceLines cs := by
  induction cs generalizing c with
  | nil => cases hc
  | cons d ds ih =>
    rw [spaceLines]
    split
    · next h =>
      -- the line feed behind this carriage return leaves the space
      exact ih (List.mem_of_mem_head? h.2) rfl
    · rcases List.mem_cons.mp hc with rfl | hc
      · rw [if_pos hline]
        exact List.mem_cons_self
      · exact List.mem_cons_of_mem _ (ih hc hline)

/-- A value without spaces comes from nothing but itself. -/
theorem spaced_eq_iff {s t : String} (ht : ' ' ∉ t.toList) (hline : spaced t = t) :
    spaced s = t ↔ s = t := by
  refine ⟨fun h => ?_, fun h => h ▸ hline⟩
  have hs : spaced s = s := by
    rw [spaced_eq_self_iff]
    intro c hc
    rw [Bool.eq_false_iff]
    intro hspace
    apply ht
    rw [← h, spaced, String.toList_ofList]
    exact space_mem_spaceLines hc hspace
  rw [← h, hs]

end Xml

theorem AttributeRule.normalize_spaced {r : AttributeRule} {value : String}
    (h : r.normalize value = value) : r.normalize (Xml.spaced value) = Xml.spaced value := by
  unfold normalize at h ⊢
  split
  · next hlower =>
    rw [if_pos hlower, Text.lower_eq_self_iff] at h
    rw [Text.lower_eq_self_iff]
    intro c hc
    rcases Xml.mem_spaced hc with rfl | ⟨hc, -⟩
    · decide
    · exact h c hc
  · rfl

namespace Kind

/-- No listed value has white space in it. -/
theorem spaced_of_listed (k : Kind) : ∀ r ∈ k.contract.rules, ∀ set ∈ r.values,
    ∀ value ∈ set.values, Xml.spaced value = value := by
  cases k <;> decide

theorem not_space_mem_provided (k : Kind) : ∀ r ∈ k.contract.requirements, ∀ p ∈ r.provided,
    ' ' ∉ p.2.toList ∧ Xml.spaced p.2 = p.2 := by
  cases k <;> decide

theorem Stores.spaced {k : Kind} {attributes : Attributes} (h : k.Stores attributes) :
    k.Stores (attributes.mapValues Xml.spaced) := by
  constructor
  · intro name value hvalue
    rw [StringMap.get?_mapValues, Option.map_eq_some_iff] at hvalue
    obtain ⟨old, hold, rfl⟩ := hvalue
    obtain ⟨rule, hrule, hnormal⟩ := h.listed name old hold
    exact ⟨rule, hrule, AttributeRule.normalize_spaced hnormal⟩
  · intro rule hrule value hvalue
    rw [StringMap.get?_mapValues, Option.isSome_map]
    exact h.defaulted rule hrule value hvalue

theorem ruleFault?_spaced {k : Kind} {attributes : Attributes} {r : AttributeRule}
    (hr : r ∈ k.contract.rules) (h : k.ruleFault? attributes r = none) :
    k.ruleFault? (attributes.mapValues Xml.spaced) r = none := by
  unfold ruleFault? at h ⊢
  rw [StringMap.get?_mapValues]
  cases hset : r.values with
  | none => rfl
  | some set =>
    cases hvalue : attributes.get? r.name with
    | none => rfl
    | some value =>
      simp only [hset, hvalue, Option.map_some] at h ⊢
      split at h
      · next hlisted =>
        rw [spaced_of_listed k r hr set hset value (by simpa using hlisted), if_pos hlisted]
      · cases h

theorem applies_of_spaced {k : Kind} {attributes : Attributes} {r : Requirement}
    (hr : r ∈ k.contract.requirements)
    (h : r.applies (attributes.mapValues Xml.spaced) = true) : r.applies attributes = true := by
  unfold Requirement.applies at h ⊢
  cases hprovided : r.provided with
  | none => rfl
  | some p =>
    obtain ⟨name, value⟩ := p
    obtain ⟨hspace, hline⟩ := not_space_mem_provided k r hr (name, value) hprovided
    simp only [hprovided, StringMap.get?_mapValues, decide_eq_true_eq] at h ⊢
    obtain ⟨old, hold, hspaced⟩ := Option.map_eq_some_iff.mp h
    rw [hold, (Xml.spaced_eq_iff hspace hline).mp hspaced]

theorem isMet_spaced (r : Requirement) (attributes : Attributes) :
    r.isMet (attributes.mapValues Xml.spaced) = r.isMet attributes := by
  unfold Requirement.isMet
  congr 1
  funext name
  rw [StringMap.get?_mapValues]
  cases attributes.get? name <;> simp

/-- Spaces for line ends bring no fault. -/
theorem attributesFault?_spaced {k : Kind} {attributes : Attributes}
    (h : k.attributesFault? attributes = none) :
    k.attributesFault? (attributes.mapValues Xml.spaced) = none := by
  unfold attributesFault? at h ⊢
  rw [Option.or_eq_none_iff, List.findSome?_eq_none_iff, List.findSome?_eq_none_iff] at h ⊢
  obtain ⟨hrules, hrequirements⟩ := h
  refine ⟨fun r hr => ruleFault?_spaced hr (hrules r hr), fun r hr => ?_⟩
  have hold := hrequirements r hr
  unfold requirementFault? at hold ⊢
  rw [isMet_spaced]
  split
  · next hfault =>
    rw [Bool.and_eq_true] at hfault
    rw [applies_of_spaced hr hfault.1, hfault.2] at hold
    cases hold
  · rfl

end Kind

def Element.spaced (e : Element) : Element :=
  { e with attributes := e.attributes.mapValues Xml.spaced }

/-- The document with spaces for the line ends and tabs in its attribute values. -/
def Document.spaced (d : Document) : Document := d.mapElements Element.spaced

end ChatForms
