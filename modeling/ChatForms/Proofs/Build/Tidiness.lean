import ChatForms.Proofs.Build.Validity
import ChatForms.Proofs.Markup.Tidy

namespace ChatForms

/-! ### Labels -/

namespace Presentation

/-- A label that a reader has found is empty, or it is a text of its own. -/
theorem labelText?_cases {m : Markup} {s : String} (hm : Markup.Tidy m.children)
    (h : labelText? m = some s) : s = "" ∨ m = .text s ∨ .text s ∈ m.children := by
  simp only [labelText?, Option.ite_none_right_eq_some, Bool.and_eq_true, List.all_eq_true,
    Option.isNone_iff_eq_none] at h
  obtain ⟨⟨-, hchildren⟩, h⟩ := h
  cases h
  cases m with
  | text s => exact Or.inr (Or.inl rfl)
  | element tag attributes own =>
    rcases Markup.eq_text_of_apart hm.apart hchildren with hown | ⟨s, hown⟩
    · cases hown
      exact Or.inl rfl
    · cases hown
      refine Or.inr (Or.inr ?_)
      simp [Markup.textContent, Markup.textContents, Markup.children]

end Presentation

namespace Candidate
open Markup

theorem Recognizes.mem_attributes {m : Markup} {c : Candidate} (h : c.Recognizes m)
    {a : String × String} (ha : a ∈ c.attributes) :
    a ∈ m.attributes ∨ ∃ input ∈ m.children, a ∈ input.attributes := by
  cases h with
  | @group input label hinput _ =>
    rcases List.mem_append.mp ha with ha | ha
    · exact Or.inl (List.mem_of_mem_filter ha)
    · exact Or.inr ⟨input, hinput, List.mem_of_mem_filter ha⟩
  | selector | bare _ => exact Or.inl (List.mem_of_mem_filter ha)
  | written _ _ => exact Or.inl ha

/-- A label that was gathered is empty or the text of some markup inside. -/
theorem Recognizes.label_cases {m : Markup} {c : Candidate} (h : c.Recognizes m)
    (hm : m.All fun m => Tidy m.children) {s : String} (hs : c.label = some s) :
    c.kind = .checkbox ∧
      (s = "" ∨ .text s ∈ m.children ∨ ∃ l ∈ m.children, .text s ∈ l.children) := by
  cases h with
  | @group input label _ hgathered =>
    cases hs
    refine ⟨rfl, ?_⟩
    rcases hgathered with rfl | ⟨l, hl, hlabel⟩
    · exact Or.inl rfl
    · rcases Presentation.labelText?_cases (hm.inside l hl).self hlabel with hs | rfl | hs
      · exact Or.inl hs
      · exact Or.inr (Or.inl hl)
      · exact Or.inr (Or.inr ⟨l, hl, hs⟩)
  | selector | bare _ | written _ _ => cases hs

theorem Recognizes.label_of_all {m : Markup} {c : Candidate} (h : c.Recognizes m)
    (hm : m.All fun m => Tidy m.children) {P : Markup → Prop} (hP : m.All P) (hempty : P (.text ""))
    {s : String} (hs : c.label = some s) : P (.text s) := by
  rcases (h.label_cases hm hs).2 with rfl | hs | ⟨l, hl, hs⟩
  · exact hempty
  · exact (hP.inside _ hs).self
  · exact ((hP.inside l hl).inside _ hs).self

theorem Recognizes.label_eq_empty {m : Markup} {c : Candidate} (h : c.Recognizes m)
    (hm : m.All fun m => Tidy m.children) {s : String} (hs : c.label = some s)
    (hblank : Text.isBlank s = true) : c.kind = .checkbox ∧ s = "" := by
  obtain ⟨hkind, hcases⟩ := h.label_cases hm hs
  refine ⟨hkind, ?_⟩
  rcases hcases with rfl | hs | ⟨l, hl, hs⟩
  · rfl
  · exact absurd hblank (hm.self.not_isBlank hs)
  · exact absurd hblank ((hm.inside l hl).self.not_isBlank hs)

end Candidate

namespace Tree

/-- What holds of texts, and is handed on to every element whose markup has a property throughout,
holds of all trees that grow from tidy markup with the property. -/
theorem growth_of_all {rules : Containment} {P : Markup → Prop}
    {motive : List Kind → Origin → Tree → Prop} (hempty : P (.text ""))
    (text : ∀ above origin s, P (.text s) → motive above origin (.node (.ofText s origin) []))
    (element : ∀ above origin (m : Markup) (c : Candidate) e ts, m.All P → c.Recognizes m →
      c.Passes rules above m.children e → (∀ t ∈ ts, motive (c.kind :: above) c.origin t) →
      motive above origin (.node e ts))
    {above : List Kind} {origin : Origin} {m : Markup} {t : Tree} (hP : m.All P)
    (hm : m.All fun m => Markup.Tidy m.children) (h : ofMarkup rules above origin m = .ok t) :
    motive above origin t := by
  refine growth_induction (motive := fun above origin m t => m.All P →
    m.All (fun m => Markup.Tidy m.children) → motive above origin t) ?_ ?_ h hP hm
  · intro above origin s hP _
    exact text above origin s hP.self
  · intro above origin tag attributes own c e ts hc he hts hP hm
    have hrecognizes := Candidate.recognizes_of_ofInner hc
    refine element above origin _ c e ts hP hrecognizes he ?_
    intro t ht
    obtain ⟨child, hchild, hgrown⟩ := exists_of_forall₂ hts ht
    rw [Candidate.children] at hchild
    split at hchild
    · next s hs =>
      rw [List.mem_singleton.mp hchild] at hgrown
      exact hgrown (.text (hrecognizes.label_of_all hm hP hempty hs))
        (.text (Markup.tidy_text s))
    · exact hgrown (hP.inside _ hchild) (hm.inside _ hchild)

/-! ### Tidy trees -/

/-- Children as they come from source text: no two texts meet, and none is blank. Only the label of
a checkbox may be empty. -/
structure Tidy (t : Tree) : Prop where
  apart : t.children.IsChain fun a b => a.element.kind ≠ .text ∨ b.element.kind ≠ .text
  notBlank : ∀ c ∈ t.children, ∀ s ∈ c.element.text, Text.isBlank s = true →
    t.element.kind = .checkbox ∧ s = ""

/-- A tree that looks like the markup from which it has grown. -/
def Resembles (m : Markup) (t : Tree) : Prop :=
  match m with
  | .text s => ∃ origin, t = .node (.ofText s origin) []
  | .element .. => t.element.kind ≠ .text ∧ t.element.text = none

theorem resembles_of_ofMarkup {rules : Containment} {above : List Kind} {origin : Origin}
    {m : Markup} {t : Tree} (h : ofMarkup rules above origin m = .ok t) : Resembles m t := by
  match m with
  | .text s =>
    cases h
    exact ⟨origin, rfl⟩
  | .element tag attributes own =>
    obtain ⟨c, e, ts, hc, he, -, rfl⟩ := ofMarkup_element.mp h
    exact ⟨he.kind ▸ Candidate.kind_ne_text hc, he.text⟩

theorem Resembles.kind_ne_text {m : Markup} {t : Tree} (h : Resembles m t) (hm : m.tag?.isSome) :
    t.element.kind ≠ .text := by
  cases m with
  | text s => cases hm
  | element _ _ _ => exact h.1

theorem apart_of_resembles {ms : List Markup} {ts : List Tree} (h : List.Forall₂ Resembles ms ts)
    (hms : ms.IsChain fun a b => a.tag?.isSome ∨ b.tag?.isSome) :
    ts.IsChain fun a b => a.element.kind ≠ .text ∨ b.element.kind ≠ .text := by
  induction h with
  | nil => exact .nil
  | @cons m t ms ts ht hts ih =>
    cases hts with
    | nil => exact .singleton t
    | cons ht' _ =>
      obtain ⟨hapart, hms⟩ := List.isChain_cons_cons.mp hms
      exact List.isChain_cons_cons.mpr
        ⟨hapart.imp ht.kind_ne_text ht'.kind_ne_text, ih hms⟩

/-- Children of an element that have grown from tidy markup. -/
theorem tidy_of_resembles {e : Element} {ms : List Markup} {ts : List Tree}
    (h : List.Forall₂ Resembles ms ts)
    (apart : ms.IsChain fun a b => a.tag?.isSome ∨ b.tag?.isSome)
    (hblank : ∀ s, .text s ∈ ms → Text.isBlank s = true → e.kind = .checkbox ∧ s = "") :
    (node e ts).Tidy := by
  refine ⟨apart_of_resembles h apart, ?_⟩
  intro t ht s hs hs'
  obtain ⟨m, hm, hresembles⟩ := exists_of_forall₂ h ht
  cases m with
  | element _ _ _ =>
    rw [hresembles.2] at hs
    cases hs
  | text x =>
    obtain ⟨origin, rfl⟩ := hresembles
    cases hs
    exact hblank s hm hs'

theorem tidy_ofText (s : String) (origin : Origin) : (node (.ofText s origin) []).All Tidy := by
  refine all_node.mpr ⟨⟨by simp [Tree.children], by simp [Tree.children]⟩, by simp⟩

theorem all_tidy_of_ofMarkup {rules : Containment} {above : List Kind} {origin : Origin}
    {m : Markup} {t : Tree} (hm : m.All fun m => Markup.Tidy m.children)
    (h : ofMarkup rules above origin m = .ok t) : t.All Tidy := by
  have hgrown := growth_induction (motive := fun _ _ m t =>
    m.All (fun m => Markup.Tidy m.children) → Resembles m t ∧ t.All Tidy) ?_ ?_ h
  · exact (hgrown hm).2
  · intro _ origin s _
    exact ⟨⟨origin, rfl⟩, tidy_ofText s origin⟩
  · intro above origin tag attributes own c e ts hc he hts hm
    have hrecognizes := Candidate.recognizes_of_ofInner hc
    refine ⟨⟨he.kind ▸ Candidate.kind_ne_text hc, he.text⟩, all_node.mpr ?_⟩
    rw [Candidate.children] at hts
    split at hts
    · -- a gathered label is the only child, and blank only if it is empty
      next s hs =>
      obtain ⟨t, _, ht, hnil, rfl⟩ := List.forall₂_cons_left_iff.mp hts
      cases hnil
      have ht := ht (.text (Markup.tidy_text s))
      refine ⟨tidy_of_resembles (.cons ht.1 .nil) (.singleton _) ?_, by simpa using ht.2⟩
      intro x hx hblank
      obtain rfl : x = s := by simpa using hx
      exact he.kind ▸ hrecognizes.label_eq_empty hm hs hblank
    · have hgrown := ((List.forall₂_and_left _ _).mpr ⟨hm.inside, hts⟩).imp
        fun _ _ h => h.2 h.1
      refine ⟨tidy_of_resembles (hgrown.imp fun _ _ h => h.1) hm.self.apart ?_, ?_⟩
      · intro s hs hblank
        exact absurd hblank (hm.self.not_isBlank hs)
      · intro t ht
        obtain ⟨_, -, -, htidy⟩ := exists_of_forall₂ hgrown ht
        exact htidy

theorem all_tidy_of_ofRoot {rules : Containment} {m : Markup} {t : Tree}
    (hm : m.All fun m => Markup.Tidy m.children) (h : ofRoot rules m = .ok t) : t.All Tidy := by
  obtain ⟨c, e, ts, -, -, hts, rfl⟩ := ofRoot_eq_ok.mp h
  refine all_node.mpr ⟨tidy_of_resembles (hts.imp fun _ _ => resembles_of_ofMarkup)
    hm.self.apart ?_, ?_⟩
  · intro s hs hblank
    exact absurd hblank (hm.self.not_isBlank hs)
  · intro t ht
    obtain ⟨m', hm', hgrown⟩ := exists_of_forall₂ hts ht
    exact all_tidy_of_ofMarkup (hm.inside m' hm') hgrown

end Tree
end ChatForms
