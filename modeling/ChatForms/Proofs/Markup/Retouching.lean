import ChatForms.Proofs.Recognition
import Mathlib.Data.List.Forall2

namespace ChatForms

/-- What may become of the attributes of an element with a tag, which stands inside another element
or is the root. -/
abbrev Retouch := Option Markup → String → List (String × String) → List (String × String) → Prop

/-- The same markup but for the attributes of its elements. -/
inductive Markup.Retouches (A : Retouch) : Option Markup → Markup → Markup → Prop where
  | text {around : Option Markup} (s : String) : Retouches A around (text s) (text s)
  | element {around : Option Markup} {tag : String}
      {attributes attributes' : List (String × String)} {own own' : List Markup}
      (changed : A around tag attributes attributes')
      (length : own.length = own'.length)
      (inside : ∀ n ∈ own.zip own', Retouches A (some (element tag attributes own)) n.1 n.2) :
      Retouches A around (element tag attributes own) (element tag attributes' own')

open Presentation

/-- Nothing changes by which renderings are told from other markup. -/
structure Retouch.KeepsMarks (A : Retouch) : Prop where
  div : ∀ {around attributes attributes'}, A around "div" attributes attributes' →
    ∀ name ∈ ["class", formatAttribute, versionAttribute],
      attributes.lookup name = attributes'.lookup name
  input : ∀ {around attributes attributes'}, A around "input" attributes attributes' →
    attributes.lookup "type" = attributes'.lookup "type"
  label : ∀ {around attributes attributes'}, A around "label" attributes attributes' →
    attributes.isEmpty = attributes'.isEmpty

theorem isEmpty_eq_of_length {α β : Type} {as : List α} {bs : List β}
    (h : as.length = bs.length) : as.isEmpty = bs.isEmpty := by
  rw [Bool.eq_iff_iff, List.isEmpty_iff_length_eq_zero, List.isEmpty_iff_length_eq_zero, h]

/-- A test that related elements pass together is passed by all elements of both lists or of
neither. -/
theorem all_eq_of_forall₂ {α β : Type} {R : α → β → Prop} {p : α → Bool} {q : β → Bool}
    {as : List α} {bs : List β} (hpq : ∀ a b, R a b → p a = q b) (h : List.Forall₂ R as bs) :
    as.all p = bs.all q := by
  induction h with
  | nil => rfl
  | cons hab _ ih => rw [List.all_cons, List.all_cons, hpq _ _ hab, ih]

theorem mapM_congr_forall₂ {α β γ : Type} {R : α → β → Prop} {f : α → Option γ} {g : β → Option γ}
    {as : List α} {bs : List β} (h : List.Forall₂ R as bs)
    (hfg : ∀ a ∈ as, ∀ b, R a b → f a = g b) : as.mapM f = bs.mapM g := by
  induction h with
  | nil => rfl
  | cons hab _ ih =>
    obtain ⟨hhead, htail⟩ := List.forall_mem_cons.mp hfg
    rw [List.mapM_cons, List.mapM_cons, hhead _ hab, ih htail]

namespace Markup

theorem lookup_without (others : List String) (as : List (String × String)) (name : String) :
    (without others as).lookup name = if name ∈ others then none else as.lookup name := by
  induction as with
  | nil => simp [without]
  | cons a as ih =>
    obtain ⟨key, value⟩ := a
    rw [StringMap.lookup_cons_ite, without, List.filter_cons, ← without]
    by_cases hkey : key ∈ others
    · by_cases hname : name = key
      · subst hname
        simp [hkey, ih]
      · simp [hkey, ih, hname]
    · by_cases hname : name = key
      · subst hname
        simp [hkey]
      · simp [hkey, ih, StringMap.lookup_cons_ite, hname]

theorem textContents_congr {ms ms' : List Markup}
    (h : List.Forall₂ (fun m m' => m.textContent = m'.textContent) ms ms') :
    textContents ms = textContents ms' := by
  induction h with
  | nil => rfl
  | cons hm _ ih => rw [textContents, textContents, hm, ih]

namespace Retouches
variable {A : Retouch} {around : Option Markup} {m m' : Markup}

/-- The children of markup go with those of the other, one by one. -/
theorem children (h : Retouches A around m m') :
    List.Forall₂ (Retouches A (some m)) m.children m'.children := by
  cases h with
  | text s => exact .nil
  | element _ length inside => exact List.forall₂_iff_zip.mpr ⟨length, fun hn => inside _ hn⟩

theorem of_children {tag : String} {attributes attributes' : List (String × String)}
    {own own' : List Markup} (changed : A around tag attributes attributes')
    (inside : List.Forall₂ (Retouches A (some (Markup.element tag attributes own))) own own') :
    Retouches A around (Markup.element tag attributes own)
      (Markup.element tag attributes' own') := by
  obtain ⟨length, inside⟩ := List.forall₂_iff_zip.mp inside
  exact .element changed length fun n hn => inside hn

theorem attributes (h : Retouches A around m m') {tag : String} (htag : m.tag? = some tag) :
    A around tag m.attributes m'.attributes := by
  cases h with
  | text s => cases htag
  | element changed _ _ =>
    cases htag
    exact changed

theorem tag?_eq (h : Retouches A around m m') : m.tag? = m'.tag? := by
  cases h <;> rfl

theorem isBlankText_eq (h : Retouches A around m m') : m.isBlankText = m'.isBlankText := by
  cases h <;> rfl

theorem childless_eq (h : Retouches A around m m') :
    m.children.isEmpty = m'.children.isEmpty :=
  isEmpty_eq_of_length h.children.length_eq

theorem textContent_eq (h : Retouches A around m m') : m.textContent = m'.textContent := by
  induction h with
  | text s => rfl
  | element _ length _ ih =>
    exact textContents_congr (List.forall₂_iff_zip.mpr ⟨length, fun hn => ih _ hn⟩)

theorem textContents_eq {ms ms' : List Markup} (h : List.Forall₂ (Retouches A around) ms ms') :
    textContents ms = textContents ms' :=
  textContents_congr (h.imp fun _ _ hm => hm.textContent_eq)

theorem classes_eq (hA : A.KeepsMarks) (h : Retouches A around m m') (htag : m.tag? = some "div") :
    m.classes = m'.classes := by
  rw [classes, classes, attribute?, attribute?, hA.div (h.attributes htag) "class" (by decide)]

theorem hasClass_eq (hA : A.KeepsMarks) (h : Retouches A around m m') (htag : m.tag? = some "div")
    (name : String) : m.hasClass name = m'.hasClass name := by
  rw [hasClass, hasClass, h.classes_eq hA htag]

theorem hasOnlyClass_eq (hA : A.KeepsMarks) (h : Retouches A around m m')
    (htag : m.tag? = some "div") (name : String) : hasOnlyClass m name = hasOnlyClass m' name := by
  rw [hasOnlyClass, hasOnlyClass, h.classes_eq hA htag]

theorem isCheckboxInput_eq (hA : A.KeepsMarks) (h : Retouches A around m m')
    (htag : m.tag? = some "input") : isCheckboxInput m = isCheckboxInput m' := by
  rw [isCheckboxInput, isCheckboxInput, attribute?, attribute?, hA.input (h.attributes htag)]

theorem labelText?_eq (hA : A.KeepsMarks) (h : Retouches A around m m')
    (htag : m.tag? = some "label") : labelText? m = labelText? m' := by
  rw [labelText?, labelText?, hA.label (h.attributes htag), h.textContent_eq,
    all_eq_of_forall₂ (fun _ _ hc => congrArg Option.isNone hc.tag?_eq) h.children]

end Retouches
end Markup

/-! ### Patterns of children -/

namespace Pattern
variable {R : Markup → Markup → Prop} {ms ms' : List Markup}

theorem slot_rel (htag : ∀ m m', R m m' → m.tag? = m'.tag?) (h : List.Forall₂ R ms ms')
    (p : Pattern) (part : Nat) :
    List.Forall₂ (fun c c' => R c.2 c'.2) (p.slot part ms) (p.slot part ms') := by
  have hslot : List.Forall₂ R ((p.slot part ms).map (·.2)) ((p.slot part ms').map (·.2)) := by
    rw [map_slot, map_slot]
    refine List.rel_filter ?_ h
    intro m m' hm
    simp only [htag m m' hm]
  rwa [List.forall₂_map_left_iff, List.forall₂_map_right_iff] at hslot

/-- Children with the same tags, and blank texts at the same places, are divided alike. -/
theorem match?_rel (htag : ∀ m m', R m m' → m.tag? = m'.tag?)
    (hblank : ∀ m m', R m m' → m.isBlankText = m'.isBlankText) (h : List.Forall₂ R ms ms')
    (p : Pattern) :
    Option.Rel (List.Forall₂ (List.Forall₂ fun c c' => R c.2 c'.2)) (p.match? ms)
      (p.match? ms') := by
  have hadmits : ms.all p.admits = ms'.all p.admits :=
    all_eq_of_forall₂ (fun m m' hm => by rw [admits, admits, htag m m' hm, hblank m m' hm]) h
  have hslots : List.Forall₂ (List.Forall₂ fun c c' => R c.2 c'.2)
      (p.zipIdx.map fun part => p.slot part.2 ms)
      (p.zipIdx.map fun part => p.slot part.2 ms') := by
    rw [List.forall₂_map_left_iff, List.forall₂_map_right_iff, List.forall₂_same]
    exact fun part _ => slot_rel htag h p part.2
  have hfits : ∀ (ps : Pattern) (ss ss' : List (List (Nat × Markup))),
      List.Forall₂ (List.Forall₂ fun c c' => R c.2 c'.2) ss ss' →
      ((ps.zip ss).all fun s => s.1.min ≤ s.2.length && s.2.length ≤ s.1.max) =
        (ps.zip ss').all fun s => s.1.min ≤ s.2.length && s.2.length ≤ s.1.max := by
    intro ps ss ss' hss
    induction hss generalizing ps with
    | nil => rfl
    | cons hs _ ih =>
      cases ps with
      | nil => rfl
      | cons part ps =>
        rw [List.zip_cons_cons, List.zip_cons_cons, List.all_cons, List.all_cons, ih, hs.length_eq]
  rw [match?_eq, match?_eq, hadmits, hfits p _ _ hslots]
  split
  · exact .some hslots
  · exact .none

/-- Both groups have an input, with labels that go with each other, or neither is one. -/
theorem checkboxGroup_rel (htag : ∀ m m', R m m' → m.tag? = m'.tag?)
    (hblank : ∀ m m', R m m' → m.isBlankText = m'.isBlankText) (h : List.Forall₂ R ms ms') :
    checkboxGroup.match? ms = none ∧ checkboxGroup.match? ms' = none ∨
      ∃ input labels input' labels', checkboxGroup.match? ms = some [[input], labels] ∧
        checkboxGroup.match? ms' = some [[input'], labels'] ∧ R input.2 input'.2 ∧
        List.Forall₂ (fun l l' => R l.2 l'.2) labels labels' := by
  have hrel := match?_rel htag hblank h checkboxGroup
  cases hmatch : checkboxGroup.match? ms with
  | none =>
    rw [hmatch] at hrel
    generalize checkboxGroup.match? ms' = found at hrel ⊢
    cases hrel
    exact Or.inl ⟨rfl, rfl⟩
  | some slots =>
    obtain ⟨input, labels, rfl, -⟩ := match?_checkboxGroup hmatch
    rw [hmatch] at hrel
    generalize checkboxGroup.match? ms' = found at hrel ⊢
    obtain ⟨hslots⟩ := hrel
    obtain _ | ⟨hinputs, _ | ⟨hlabels, _ | _⟩⟩ := hslots
    obtain _ | ⟨hinput, _ | _⟩ := hinputs
    exact Or.inr ⟨_, _, _, _, rfl, rfl, hinput, hlabels⟩

end Pattern
end ChatForms
