import ChatForms.Presentation
import ChatForms.Proofs.Markup.All
import ChatForms.Proofs.Presentation.Group

namespace ChatForms

/-- The ways in which an element below the root is recognized. -/
inductive Candidate.Recognizes (m : Markup) : Candidate → Prop where
  | group {input : Markup} {label : String} (input_mem : input ∈ m.children)
      (gathered : label = "" ∨ ∃ l ∈ m.children, Presentation.labelText? l = some label) :
      Recognizes m ⟨.checkbox, Markup.without ["class"] m.attributes ++
        Markup.without ["type"] input.attributes, some label, .presentation⟩
  | selector :
      Recognizes m ⟨.personSelector, Markup.without ["class"] m.attributes, none, .presentation⟩
  | bare (childless : m.children = []) :
      Recognizes m ⟨.checkbox, Markup.without ["type"] m.attributes, none, .presentation⟩
  | written {k : Kind} (unmarked : Presentation.field? m = .ok none)
      (tag : Kind.ofTag? (m.tag?.getD "") = some k) : Recognizes m (asWritten k m)

open Presentation

theorem Presentation.recognizes_of_checkboxGroup {m : Markup} {c : Candidate}
    (h : checkboxGroup m = .ok c) : c.Recognizes m := by
  obtain ⟨input, label, hgroup, rfl⟩ := checkboxGroup_eq_ok_iff.mp h
  exact .group hgroup.input_mem hgroup.label_cases

/-- A div that was not taken for a field has no mark of one. -/
theorem Presentation.unmarked_of_field? {m : Markup} (h : field? m = .ok none)
    (htag : m.tag? = some "div") :
    m.hasClass groupClass = false ∧ m.hasClass selectorClass = false := by
  have hfound : ∀ x : Except Fault Candidate, some <$> x ≠ .ok none := by
    intro x
    cases x <;> nofun
  unfold field? at h
  rw [htag] at h
  constructor
  · rw [Bool.eq_false_iff]
    intro hclass
    rw [hclass] at h
    exact hfound _ h
  · rw [Bool.eq_false_iff]
    intro hclass
    rw [hclass] at h
    split at h
    · exact hfound _ h
    · exact hfound _ h

theorem Kind.tag_of_ofTag? {m : Markup} {k : Kind} (h : ofTag? (m.tag?.getD "") = some k) :
    m.tag? = some k.tag := by
  have htag : k.tag = m.tag?.getD "" := by simpa [ofTag?] using List.find?_some h
  rw [htag]
  cases hm : m.tag? with
  | some tag => rfl
  | none =>
    rw [hm] at htag
    cases k <;> exact absurd htag (by decide)

theorem Candidate.ofInner_of_field {m : Markup} {c : Candidate}
    (h : Presentation.field? m = .ok (some c)) : ofInner m = .ok c := by
  rw [ofInner, h]
  rfl

/-- A div without a mark of a field is one. -/
theorem Candidate.ofInner_of_unmarked {m : Markup} (htag : m.tag? = some "div")
    (hgroup : m.hasClass groupClass = false) (hselector : m.hasClass selectorClass = false) :
    ofInner m = .ok (asWritten .div m) := by
  have hfield : Presentation.field? m = .ok none := by
    rw [field?, htag, hgroup, hselector]
    rfl
  rw [ofInner, hfield, htag]
  rfl

theorem Candidate.recognizes_of_ofInner {m : Markup} {c : Candidate} (h : ofInner m = .ok c) :
    c.Recognizes m := by
  unfold ofInner at h
  cases hfield : field? m with
  | error fault =>
    rw [hfield] at h
    cases h
  | ok found =>
    rw [hfield] at h
    cases found with
    | none =>
      simp only [bind, Except.bind] at h
      split at h
      · next k hk =>
        cases h
        exact .written hfield hk
      · cases h
    | some c' =>
      cases h
      unfold field? at hfield
      split at hfield
      · cases hgroup : checkboxGroup m with
        | error fault =>
          rw [hgroup] at hfield
          cases hfield
        | ok c' =>
          rw [hgroup] at hfield
          cases hfield
          exact recognizes_of_checkboxGroup hgroup
      · split at hfield
        · unfold personSelector at hfield
          split at hfield
          · cases hfield
            exact .selector
          · cases hfield
        · split at hfield
          · unfold bareCheckbox at hfield
            split at hfield
            · next hempty =>
              cases hfield
              exact .bare (List.isEmpty_iff.mp hempty)
            · cases hfield
          · cases hfield

/-- The ways in which the root is recognized. -/
theorem Candidate.ofRoot_cases {m : Markup} {c : Candidate} (h : ofRoot m = .ok c) :
    c = ⟨.message, Markup.without [formatAttribute, versionAttribute] m.attributes, none,
        .presentation⟩ ∨
      m.tag? = some Kind.message.tag ∧ c = asWritten .message m := by
  unfold ofRoot at h
  cases henvelope : envelope? m with
  | error fault =>
    rw [henvelope] at h
    cases h
  | ok found =>
    rw [henvelope] at h
    cases found with
    | none =>
      simp only [bind, Except.bind] at h
      split at h
      · next htag =>
        cases h
        exact Or.inr ⟨htag, rfl⟩
      · cases h
    | some c' =>
      cases h
      refine Or.inl ?_
      unfold envelope? at henvelope
      split at henvelope
      · cases henvelope
      · split at henvelope
        · split at henvelope
          · cases henvelope
          · split at henvelope
            · cases henvelope
            · cases henvelope
              rfl
        · cases henvelope

/-- What is inside a form or a div does not tell what it is. -/
theorem Candidate.ofInner_inside {tag : String} {attributes : List (String × String)}
    {own own' : List Markup} {c : Candidate} (h : ofInner (.element tag attributes own) = .ok c)
    (hkind : c.kind = .form ∨ c.kind = .div) :
    ofInner (.element tag attributes own') = .ok c ∧ c.label = none := by
  cases recognizes_of_ofInner h with
  | group _ _ | selector | bare _ => rcases hkind with hkind | hkind <;> cases hkind
  | @written k hfield htag =>
    have htag := Kind.tag_of_ofTag? htag
    rcases hkind with hkind | hkind
    · obtain rfl : k = .form := hkind
      cases htag
      exact ⟨rfl, rfl⟩
    · obtain rfl : k = .div := hkind
      obtain ⟨hgroup, hselector⟩ := unmarked_of_field? hfield htag
      exact ⟨ofInner_of_unmarked htag hgroup hselector, rfl⟩

/-- No markup with a tag stands for a text. -/
theorem Candidate.kind_ne_text {m : Markup} {c : Candidate} (h : ofInner m = .ok c) :
    c.kind ≠ .text := by
  cases recognizes_of_ofInner h with
  | written _ htag =>
    rintro rfl
    exact absurd (List.mem_of_find?_eq_some htag) (by decide)
  | _ => exact nofun

end ChatForms
