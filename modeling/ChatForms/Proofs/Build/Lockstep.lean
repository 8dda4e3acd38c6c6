import ChatForms.Proofs.Build.Validity
import ChatForms.Proofs.Markup.Retouching

namespace ChatForms

/-- Two computations end in the same way, with results or with faults that belong together. -/
inductive EndAlike {α β : Type} (E : Fault → Fault → Prop) (R : α → β → Prop) :
    Except Fault α → Except Fault β → Prop where
  | ok {a : α} {b : β} (related : R a b) : EndAlike E R (.ok a) (.ok b)
  | error {fault fault' : Fault} (related : E fault fault') :
      EndAlike E R (.error fault) (.error fault')

namespace EndAlike
variable {α β γ δ : Type} {E : Fault → Fault → Prop} {R : α → β → Prop} {S : γ → δ → Prop}
  {x : Except Fault α} {y : Except Fault β}

theorem bind {f : α → Except Fault γ} {g : β → Except Fault δ} (h : EndAlike E R x y)
    (hnext : ∀ a b, R a b → EndAlike E S (f a) (g b)) : EndAlike E S (x >>= f) (y >>= g) := by
  cases h with
  | ok related => exact hnext _ _ related
  | error related => exact .error related

theorem map {f : α → γ} {g : β → δ} (h : EndAlike E R x y) (hmap : ∀ a b, R a b → S (f a) (g b)) :
    EndAlike E S (x.map f) (y.map g) := by
  cases h with
  | ok related => exact .ok (hmap _ _ related)
  | error related => exact .error related

theorem imp {E' : Fault → Fault → Prop} (h : EndAlike E R x y)
    (hfault : ∀ fault fault', E fault fault' → E' fault fault') : EndAlike E' R x y := by
  cases h with
  | ok related => exact .ok related
  | error related => exact .error (hfault _ _ related)

end EndAlike

open Presentation

/-! ### Recognition -/

/-- A relation of the attributes from which elements of a kind are collected holds of what
retouched markup brings. -/
structure Retouch.Brings (A : Retouch)
    (W : Kind → List (String × String) → List (String × String) → Prop) : Prop
    extends A.KeepsMarks where
  written : ∀ {k : Kind} {around attributes attributes'}, A around k.tag attributes attributes' →
    W k attributes attributes'
  message : ∀ {around attributes attributes'}, A around "div" attributes attributes' →
    W .message (Markup.without [formatAttribute, versionAttribute] attributes)
      (Markup.without [formatAttribute, versionAttribute] attributes')
  selector : ∀ {around attributes attributes'}, A around "div" attributes attributes' →
    W .personSelector (Markup.without ["class"] attributes) (Markup.without ["class"] attributes')
  bare : ∀ {around attributes attributes'}, A around "input" attributes attributes' →
    W .checkbox (Markup.without ["type"] attributes) (Markup.without ["type"] attributes')
  group : ∀ {around m attributes' inner inner'}, m.tag? = some "div" → m.hasClass groupClass →
    A around "div" m.attributes attributes' → A (some m) "input" inner inner' →
    W .checkbox (Markup.without ["class"] m.attributes ++ Markup.without ["type"] inner)
      (Markup.without ["class"] attributes' ++ Markup.without ["type"] inner')

/-- The same candidates but for the attributes that they bring. -/
structure Candidate.Alike (W : Kind → List (String × String) → List (String × String) → Prop)
    (c c' : Candidate) : Prop where
  kind : c'.kind = c.kind
  label : c'.label = c.label
  origin : c'.origin = c.origin
  attributes : W c.kind c.attributes c'.attributes

section
variable {A : Retouch} {W : Kind → List (String × String) → List (String × String) → Prop}
  {around : Option Markup} {m m' : Markup}

theorem Presentation.endAlike_checkboxGroup (hA : A.Brings W) (h : m.Retouches A around m')
    (htag : m.tag? = some "div") (hclass : m.hasClass groupClass) :
    EndAlike Eq (Candidate.Alike W) (checkboxGroup m) (checkboxGroup m') := by
  unfold checkboxGroup
  rw [← h.hasOnlyClass_eq hA.toKeepsMarks htag]
  cases hasOnlyClass m groupClass with
  | false => exact .error rfl
  | true =>
    simp only [Bool.not_true, Bool.false_eq_true, if_false]
    obtain ⟨hnone, hnone'⟩ | ⟨input, labels, input', labels', hmatch, hmatch', hinput, hlabels⟩ :=
      Pattern.checkboxGroup_rel (fun _ _ hm => hm.tag?_eq) (fun _ _ hm => hm.isBlankText_eq)
        h.children
    · rw [hnone, hnone']
      exact .error rfl
    · obtain ⟨htyped, hlabelled⟩ := Pattern.tags_of_match? hmatch
      have htexts := mapM_congr_forall₂ hlabels fun l hl l' hrel =>
        hrel.labelText?_eq hA.toKeepsMarks (hlabelled l hl)
      rw [hmatch, hmatch']
      simp only [← hinput.isCheckboxInput_eq hA.toKeepsMarks htyped, ← hinput.childless_eq]
      split
      · exact .error rfl
      · rw [← htexts]
        cases labels.mapM fun l => labelText? l.2 with
        | none => exact .error rfl
        | some texts =>
          exact .ok ⟨rfl, rfl, rfl, hA.group htag hclass (h.attributes htag)
            (hinput.attributes htyped)⟩

theorem Presentation.endAlike_personSelector (hA : A.Brings W) (h : m.Retouches A around m')
    (htag : m.tag? = some "div") :
    EndAlike Eq (Candidate.Alike W) (personSelector m) (personSelector m') := by
  rw [personSelector, personSelector, ← h.hasOnlyClass_eq hA.toKeepsMarks htag]
  split
  · exact .ok ⟨rfl, rfl, rfl, hA.selector (h.attributes htag)⟩
  · exact .error rfl

theorem Presentation.endAlike_bareCheckbox (hA : A.Brings W) (h : m.Retouches A around m')
    (htag : m.tag? = some "input") :
    EndAlike Eq (Candidate.Alike W) (bareCheckbox m) (bareCheckbox m') := by
  rw [bareCheckbox, bareCheckbox, ← h.childless_eq]
  split
  · exact .ok ⟨rfl, rfl, rfl, hA.bare (h.attributes htag)⟩
  · exact .error rfl

theorem Presentation.endAlike_field? (hA : A.Brings W) (h : m.Retouches A around m') :
    EndAlike Eq (Option.Rel (Candidate.Alike W)) (field? m) (field? m') := by
  rw [field?, field?, ← h.tag?_eq]
  by_cases hdiv : m.tag? = some "div"
  · rw [← h.hasClass_eq hA.toKeepsMarks hdiv, ← h.hasClass_eq hA.toKeepsMarks hdiv]
    simp only [hdiv, decide_true, Bool.true_and]
    split
    · next hgroup =>
      exact (endAlike_checkboxGroup hA h hdiv hgroup).map fun _ _ hc => .some hc
    · split
      · exact (endAlike_personSelector hA h hdiv).map fun _ _ hc => .some hc
      · exact .ok .none
  · simp only [hdiv, decide_false, Bool.false_and, Bool.false_eq_true, if_false]
    by_cases hinput : m.tag? = some "input"
    · rw [← h.isCheckboxInput_eq hA.toKeepsMarks hinput]
      split
      · exact (endAlike_bareCheckbox hA h hinput).map fun _ _ hc => .some hc
      · exact .ok .none
    · simp only [hinput, decide_false, Bool.false_and, Bool.false_eq_true, if_false]
      exact .ok .none

theorem Candidate.endAlike_ofInner (hA : A.Brings W) (h : m.Retouches A around m') :
    EndAlike Eq (Candidate.Alike W) (ofInner m) (ofInner m') := by
  refine (endAlike_field? hA h).bind fun found found' hfound => ?_
  cases hfound with
  | some hc => exact .ok hc
  | none =>
    rw [← h.tag?_eq]
    dsimp only
    cases htag : Kind.ofTag? (m.tag?.getD "") with
    | none => exact .error rfl
    | some k =>
      exact .ok ⟨rfl, rfl, rfl, hA.written (h.attributes (Kind.tag_of_ofTag? htag))⟩

theorem Presentation.endAlike_envelope? (hA : A.Brings W) (h : m.Retouches A around m') :
    EndAlike Eq (Option.Rel (Candidate.Alike W)) (envelope? m) (envelope? m') := by
  rw [envelope?, envelope?, ← h.tag?_eq]
  by_cases hdiv : m.tag? = some "div"
  · have hmark := hA.div (h.attributes hdiv)
    rw [Markup.attribute?, Markup.attribute?, Markup.attribute?, Markup.attribute?,
      ← hmark formatAttribute (by decide), ← hmark versionAttribute (by decide)]
    simp only [hdiv, Kind.tag, ne_eq, not_true_eq_false, if_false]
    split
    · split
      · exact .error rfl
      · split
        · exact .error rfl
        · exact .ok (.some ⟨rfl, rfl, rfl, hA.message (h.attributes hdiv)⟩)
    · exact .ok .none
  · simp only [Kind.tag, ne_eq, hdiv, not_false_eq_true, if_true]
    exact .ok .none

theorem Candidate.endAlike_ofRoot (hA : A.Brings W) (h : m.Retouches A around m') :
    EndAlike Eq (Candidate.Alike W) (ofRoot m) (ofRoot m') := by
  refine (endAlike_envelope? hA h).bind fun found found' hfound => ?_
  cases hfound with
  | some hc => exact .ok hc
  | none =>
    rw [← h.tag?_eq]
    by_cases hmessage : m.tag? = some Kind.message.tag
    · simp only [if_pos hmessage]
      exact .ok ⟨rfl, rfl, rfl, hA.written (h.attributes hmessage)⟩
    · simp only [if_neg hmessage]
      exact .error rfl

end

/-! ### Growth -/

/-- The same element but for its attributes. -/
def Element.Alike (R : Kind → Attributes → Attributes → Prop) (e e' : Element) : Prop :=
  ∃ attributes, R e.kind e.attributes attributes ∧ e' = { e with attributes := attributes }

/-- Trees of one shape whose elements are related. -/
inductive Tree.Alike (R : Element → Element → Prop) : Tree → Tree → Prop where
  | node {e e' : Element} {ts ts' : List Tree} (element : R e e')
      (inside : List.Forall₂ (Alike R) ts ts') : Alike R (node e ts) (node e' ts')

/-- The two runs collect related attributes, in which the same is wrong, or their faults belong
together. -/
structure Kind.Collects (E : Fault → Fault → Prop)
    (W : Kind → List (String × String) → List (String × String) → Prop)
    (R : Kind → Attributes → Attributes → Prop) : Prop where
  fault : ∀ fault, E fault fault
  unchanged : ∀ k attributes, R k attributes attributes
  collect : ∀ {k : Kind} {written written' : List (String × String)}, W k written written' →
    ∀ origin, EndAlike E (R k) (k.collect origin written) (k.collect origin written')
  attributesFault? : ∀ {k : Kind} {attributes attributes' : Attributes},
    R k attributes attributes' → k.attributesFault? attributes' = k.attributesFault? attributes

/-- Attributes are collected alike if the first ones to blame get faults that belong together. -/
theorem Kind.endAlike_collect {E : Fault → Fault → Prop} {R : Attributes → Attributes → Prop}
    {k : Kind} {origin : Origin} {written written' : List (String × String)}
    (hfault : Option.Rel (fun a a' => E (k.refusal origin a.1) (k.refusal origin a'.1))
      (written.find? fun a => (k.contract.rule? a.1).isNone)
      (written'.find? fun a => (k.contract.rule? a.1).isNone))
    (hstored : ∀ x x', k.collect origin written = .ok x → k.collect origin written' = .ok x' →
      R x x') :
    EndAlike E R (k.collect origin written) (k.collect origin written') := by
  have hlisted : ∀ {as : List (String × String)},
      (as.find? fun a => (k.contract.rule? a.1).isNone) = none →
        ∃ x, k.collect origin as = .ok x := by
    intro as has
    refine exists_collect (fun a ha => ?_) origin
    simpa [Option.isSome_iff_ne_none] using List.find?_eq_none.mp has a ha
  cases hfind : written.find? fun a => (k.contract.rule? a.1).isNone with
  | none =>
    cases hfind' : written'.find? fun a => (k.contract.rule? a.1).isNone with
    | none =>
      obtain ⟨x, hx⟩ := hlisted hfind
      obtain ⟨x', hx'⟩ := hlisted hfind'
      rw [hx, hx']
      exact .ok (hstored x x' hx hx')
    | some a' =>
      rw [hfind, hfind'] at hfault
      cases hfault
  | some a =>
    cases hfind' : written'.find? fun a => (k.contract.rule? a.1).isNone with
    | none =>
      rw [hfind, hfind'] at hfault
      cases hfault
    | some a' =>
      rw [hfind, hfind'] at hfault
      cases hfault with
      | some related =>
        rw [collect_eq_error hfind, collect_eq_error hfind']
        exact .error related

theorem Kind.contentFault?_retouched {A : Retouch} {around : Option Markup} {ms ms' : List Markup}
    (h : List.Forall₂ (Markup.Retouches A around) ms ms') (k : Kind) (origin : Origin) :
    k.contentFault? origin ms' = k.contentFault? origin ms := by
  have htags : ms'.findSome? Markup.tag? = ms.findSome? Markup.tag? := by
    induction h with
    | nil => rfl
    | cons hm _ ih => rw [List.findSome?_cons, List.findSome?_cons, ih, hm.tag?_eq]
  have hempty : ms'.isEmpty = ms.isEmpty := isEmpty_eq_of_length h.length_eq.symm
  rw [contentFault?, contentFault?, htags, hempty, h.length_eq, Markup.Retouches.textContents_eq h]

section
variable {A : Retouch} {W : Kind → List (String × String) → List (String × String) → Prop}
  {R : Kind → Attributes → Attributes → Prop} {E : Fault → Fault → Prop}
  {rules : Containment} {c c' : Candidate} {around : Option Markup}

theorem Candidate.endAlike_examine (hW : Kind.Collects E W R) (hc : c.Alike W c')
    {own own' : List Markup} (hown : List.Forall₂ (Markup.Retouches A around) own own')
    (above : List Kind) :
    EndAlike E (Element.Alike R) (c.examine rules above own) (c'.examine rules above own') := by
  have hcontent : c'.kind.contentFault? c'.origin (c'.children own') =
      c.kind.contentFault? c.origin (c.children own) := by
    rw [hc.kind, hc.origin, children, children, hc.label]
    cases c.label with
    | some s => rfl
    | none => exact Kind.contentFault?_retouched hown c.kind c.origin
  rw [examine, examine, hcontent, hc.kind, hc.origin]
  refine (hW.collect hc.attributes c.origin).bind fun x x' hx => ?_
  rw [hW.attributesFault? hx]
  cases c.kind.placementFaultBelow? rules above with
  | some fault => exact .error (hW.fault fault)
  | none =>
    cases c.kind.attributesFault? x with
    | some fault => exact .error (hW.fault fault)
    | none =>
      cases c.kind.contentFault? c.origin (c.children own) with
      | some fault => exact .error (hW.fault fault)
      | none => exact .ok ⟨x', hx, rfl⟩

namespace Tree

theorem alike_ofText (hW : Kind.Collects E W R) (s : String) (origin : Origin) :
    Alike (Element.Alike R) (node (.ofText s origin) []) (node (.ofText s origin) []) :=
  .node ⟨_, hW.unchanged _ _, rfl⟩ .nil

theorem endAlike_ofMarkups {above : List Kind} {origin : Origin} {ms ms' : List Markup}
    (h : List.Forall₂ (fun m m' => EndAlike E (Alike (Element.Alike R))
      (ofMarkup rules above origin m) (ofMarkup rules above origin m')) ms ms') :
    EndAlike E (List.Forall₂ (Alike (Element.Alike R))) (ofMarkups rules above origin ms)
      (ofMarkups rules above origin ms') := by
  induction h with
  | nil => exact .ok .nil
  | cons hm _ ih =>
    rw [ofMarkups, ofMarkups]
    exact hm.bind fun t t' ht => ih.bind fun ts ts' hts => .ok (.cons ht hts)

theorem endAlike_ofCandidate (hW : Kind.Collects E W R) (hc : c.Alike W c')
    {own own' : List Markup} (hown : List.Forall₂ (Markup.Retouches A around) own own')
    {above : List Kind}
    (hinside : List.Forall₂ (fun m m' => EndAlike E (Alike (Element.Alike R))
      (ofMarkup rules (c.kind :: above) c.origin m)
      (ofMarkup rules (c.kind :: above) c.origin m')) own own') :
    EndAlike E (Alike (Element.Alike R)) (ofCandidate rules above c own)
      (ofCandidate rules above c' own') := by
  refine (Candidate.endAlike_examine hW hc hown above).bind fun e e' he => ?_
  have hchildren : EndAlike E (List.Forall₂ (Alike (Element.Alike R)))
      (ofMarkups rules (c.kind :: above) c.origin (c.children own))
      (ofMarkups rules (c'.kind :: above) c'.origin (c'.children own')) := by
    rw [hc.kind, hc.origin, Candidate.children, Candidate.children, hc.label]
    cases c.label with
    | some s => exact .ok (.cons (alike_ofText hW s c.origin) .nil)
    | none => exact endAlike_ofMarkups hinside
  exact hchildren.map fun ts ts' hts => .node he hts

theorem endAlike_ofMarkup (hA : A.Brings W) (hW : Kind.Collects E W R) {m m' : Markup}
    (h : m.Retouches A around m') (above : List Kind) (origin : Origin) :
    EndAlike E (Alike (Element.Alike R)) (ofMarkup rules above origin m)
      (ofMarkup rules above origin m') := by
  induction h generalizing above origin with
  | text s => exact .ok (alike_ofText hW s origin)
  | element changed length inside ih =>
    have hown := List.forall₂_iff_zip.mpr ⟨length, fun hn => inside _ hn⟩
    have hcandidate := Candidate.endAlike_ofInner hA (.element changed length inside)
    rw [ofMarkup_element_eq, ofMarkup_element_eq]
    refine (hcandidate.imp ?_).bind fun c c' hc => ?_
    · rintro fault _ rfl
      exact hW.fault fault
    · exact endAlike_ofCandidate hW hc hown
        (List.forall₂_iff_zip.mpr ⟨length, fun hn => ih _ hn (c.kind :: above) c.origin⟩)

/-- The root is never labelled, so it grows as any other candidate does. -/
theorem ofRoot_eq_bind (rules : Containment) (m : Markup) :
    ofRoot rules m = Candidate.ofRoot m >>= fun c => ofCandidate rules [] c m.children := by
  cases hc : Candidate.ofRoot m with
  | error fault =>
    rw [ofRoot, hc]
    rfl
  | ok c => exact ofRoot_eq hc (candidate_of_ofRoot hc).2.1

theorem endAlike_ofRoot (hA : A.Brings W) (hW : Kind.Collects E W R) {m m' : Markup}
    (h : m.Retouches A around m') :
    EndAlike E (Alike (Element.Alike R)) (ofRoot rules m) (ofRoot rules m') := by
  rw [ofRoot_eq_bind, ofRoot_eq_bind]
  refine ((Candidate.endAlike_ofRoot hA h).imp ?_).bind fun c c' hc => ?_
  · rintro fault _ rfl
    exact hW.fault fault
  · exact endAlike_ofCandidate hW hc h.children
      (h.children.imp fun _ _ hm => endAlike_ofMarkup hA hW hm _ _)

/-- Related trees make documents whose elements are related one by one, with the same links. -/
theorem forall₂_entriesOfAll {R : Element → Element → Prop} {ts ts' : List Tree}
    (h : List.Forall₂ (Alike R) ts ts') :
    (subtreesOf ts').length = (subtreesOf ts).length ∧
      (∀ start, childNumbers start ts' = childNumbers start ts) ∧
      ∀ parent start, List.Forall₂
        (fun e e' : Entry => R e.toElement e'.toElement ∧ e'.parent = e.parent ∧
          e'.children = e.children)
        (entriesOfAll parent start ts) (entriesOfAll parent start ts') := by
  induction ts using forest_induction generalizing ts' with
  | nil =>
    cases h
    exact ⟨rfl, fun _ => rfl, fun _ _ => .nil⟩
  | cons e inside others ihinside ihothers =>
    obtain ⟨_, us', ⟨helement, hinside⟩, hothers, rfl⟩ := List.forall₂_cons_left_iff.mp h
    obtain ⟨hlength, hnumbers, hentries⟩ := ihinside hinside
    obtain ⟨hlength', hnumbers', hentries'⟩ := ihothers hothers
    refine ⟨?_, fun start => ?_, fun parent start => ?_⟩
    · simp only [subtreesOf, subtrees, List.length_append, List.length_cons, hlength, hlength']
    · simp only [childNumbers, size_node, hlength, hnumbers']
    · simp only [entriesOfAll, entriesFrom, size_node, hlength, hnumbers, List.cons_append]
      exact .cons ⟨helement, rfl, rfl⟩ (List.rel_append (hentries _ _) (hentries' _ _))

end Tree

/-- Runs on retouched markup come to documents of one shape, or to faults that belong together. -/
theorem Document.endAlike_build (hA : A.Brings W) (hW : Kind.Collects E W R) {m m' : Markup}
    (h : m.Retouches A around m') (rules : Containment) :
    EndAlike E (fun d d' => ∃ t t', t.Alike (Element.Alike R) t' ∧ d = ofTree t ∧ d' = ofTree t')
      (build rules m) (build rules m') := by
  rw [build_eq, build_eq]
  exact (Tree.endAlike_ofRoot hA hW h).map fun t t' ht => ⟨t, t', ht, rfl, rfl⟩

end
end ChatForms
