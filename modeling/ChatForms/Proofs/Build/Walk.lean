import ChatForms.Proofs.Build.Validity
import ChatForms.Proofs.Containment

namespace ChatForms

/-! ### Computations that end in a fault -/

/-- The fault in which a computation ends, if it does. -/
def faultOf {α : Type} : Except Fault α → Option Fault
  | .error fault => some fault
  | .ok _ => none

theorem faultOf_eq_some_iff {α : Type} {x : Except Fault α} {fault : Fault} :
    faultOf x = some fault ↔ x = .error fault := by
  cases x <;> simp [faultOf]

theorem faultOf_eq_none_iff {α : Type} {x : Except Fault α} :
    faultOf x = none ↔ ∃ a, x = .ok a := by
  cases x <;> simp [faultOf]

@[simp] theorem faultOf_map {α β : Type} (f : α → β) (x : Except Fault α) :
    faultOf (x.map f) = faultOf x := by
  cases x <;> rfl

/-- If the second part fails in the same way wherever the first part gets to, the first fault
counts. -/
theorem faultOf_bind {α β : Type} {x : Except Fault α} {next : α → Except Fault β}
    {later : Option Fault} (h : ∀ a, x = .ok a → faultOf (next a) = later) :
    faultOf (x >>= next) = (faultOf x).or later := by
  cases x with
  | error fault => rfl
  | ok a => exact h a rfl

theorem findSome?_cons_or {α β : Type} (f : α → Option β) (a : α) (as : List α) :
    (a :: as).findSome? f = (f a).or (as.findSome? f) := by
  rw [List.findSome?_cons]
  cases f a <;> rfl

/-! ### The places of a walk -/

/-- The first thing wrong with an element below elements of the kinds `above`: an attribute that is
not listed, its place, a value that is not allowed or missing, its content. -/
def Candidate.fault? (c : Candidate) (rules : Containment) (above : List Kind)
    (own : List Markup) : Option Fault :=
  match c.kind.collect c.origin c.attributes with
  | .error fault => some fault
  | .ok attributes =>
    if c.kind.MayStand rules above then
      (c.kind.attributesFault? attributes).or (c.kind.contentFault? c.origin (c.children own))
    else some (c.kind.misplacement rules)

theorem Candidate.faultOf_examine (c : Candidate) (rules : Containment) (above : List Kind)
    (own : List Markup) : faultOf (c.examine rules above own) = c.fault? rules above own := by
  rw [examine, fault?]
  cases c.kind.collect c.origin c.attributes with
  | error fault => rfl
  | ok attributes =>
    simp only [bind, Except.bind, Kind.placementFaultBelow?_eq]
    by_cases hstand : c.kind.MayStand rules above
    · simp only [if_pos hstand]
      cases c.kind.attributesFault? attributes with
      | some fault => rfl
      | none => cases c.kind.contentFault? c.origin (c.children own) <;> rfl
    · simp only [if_neg hstand]
      rfl

/-- An element of markup with the kinds of the elements around it, nearest first. -/
structure Place where
  above : List Kind
  markup : Markup

namespace Place

/-- What the markup stands for. Nothing is around the root, and around nothing else. -/
def candidate (p : Place) : Except Fault Candidate :=
  if p.above.isEmpty then Candidate.ofRoot p.markup else Candidate.ofInner p.markup

/-- What is wrong with the markup itself. Nothing but the kinds around it is looked at. -/
def fault? (rules : Containment) (p : Place) : Option Fault :=
  match p.candidate with
  | .error fault => some fault
  | .ok c => c.fault? rules p.above p.markup.children

/-- The element that comes of a place is what its candidate has become. -/
def Becomes (rules : Containment) (p : Place) (e : Element) : Prop :=
  ∃ c, p.candidate = .ok c ∧ c.Passes rules p.above p.markup.children e

mutual
/-- The elements of markup in the order in which they begin. Those inside an element are its own, if
it has not gathered a label from them. -/
def below (above : List Kind) : Markup → List Place
  | .text _ => []
  | .element tag attributes own =>
    ⟨above, .element tag attributes own⟩ ::
      match Candidate.ofInner (.element tag attributes own) with
      | .ok c =>
        match c.label with
        | some _ => []
        | none => belowAll (c.kind :: above) own
      | .error _ => []
def belowAll (above : List Kind) : List Markup → List Place
  | [] => []
  | m :: rest => below above m ++ belowAll above rest
end

theorem below_element (above : List Kind) (tag : String) (attributes : List (String × String))
    (own : List Markup) :
    below above (.element tag attributes own) =
      ⟨above, .element tag attributes own⟩ ::
        match Candidate.ofInner (.element tag attributes own) with
        | .ok c => belowAll (c.kind :: above) (c.children own)
        | .error _ => [] := by
  rw [below]
  cases Candidate.ofInner (.element tag attributes own) with
  | error fault => rfl
  | ok c =>
    obtain ⟨kind, written, label, around⟩ := c
    cases label <;> rfl

/-- The elements that a walk over a whole message comes to, as long as nothing is wrong. -/
def all (m : Markup) : List Place :=
  ⟨[], m⟩ ::
    match Candidate.ofRoot m with
    | .ok c => belowAll [c.kind] m.children
    | .error _ => []

end Place

namespace Tree
open Place

/-- What is inside an element has one kind more around it. A label has no faults. -/
theorem faultOf_ofCandidate {rules : Containment} {above : List Kind} {c : Candidate}
    {own : List Markup} (hinside : faultOf (ofMarkups rules (c.kind :: above) c.origin own) =
      (belowAll (c.kind :: above) own).findSome? (fault? rules)) :
    faultOf (ofCandidate rules above c own) =
      (c.fault? rules above own).or
        ((belowAll (c.kind :: above) (c.children own)).findSome? (fault? rules)) := by
  rw [← Candidate.faultOf_examine]
  refine faultOf_bind fun e _ => ?_
  rw [faultOf_map, Candidate.children]
  cases c.label with
  | some s => rfl
  | none => exact hinside

mutual
theorem faultOf_ofMarkup (rules : Containment) {above : List Kind} (habove : above ≠ [])
    (origin : Origin) (m : Markup) :
    faultOf (ofMarkup rules above origin m) = (below above m).findSome? (fault? rules) := by
  match m with
  | .text s => rfl
  | .element tag attributes own =>
    have hcandidate : candidate ⟨above, .element tag attributes own⟩ =
        Candidate.ofInner (.element tag attributes own) := by
      simp [candidate, habove]
    rw [ofMarkup_element_eq, below_element, findSome?_cons_or, fault?, hcandidate]
    cases Candidate.ofInner (.element tag attributes own) with
    | error fault => rfl
    | ok c =>
      exact faultOf_ofCandidate
        (faultOf_ofMarkups rules (List.cons_ne_nil c.kind above) c.origin own)
theorem faultOf_ofMarkups (rules : Containment) {above : List Kind} (habove : above ≠ [])
    (origin : Origin) (ms : List Markup) :
    faultOf (ofMarkups rules above origin ms) = (belowAll above ms).findSome? (fault? rules) := by
  match ms with
  | [] => rfl
  | m :: rest =>
    rw [ofMarkups, belowAll, List.findSome?_append, ← faultOf_ofMarkup rules habove origin m,
      ← faultOf_ofMarkups rules habove origin rest]
    refine faultOf_bind fun t _ => ?_
    have hrest : faultOf (ofMarkups rules above origin rest >>= fun ts => pure (t :: ts)) =
        (faultOf (ofMarkups rules above origin rest)).or none := faultOf_bind fun _ _ => rfl
    rwa [Option.or_none] at hrest
end

theorem faultOf_ofRoot (rules : Containment) (m : Markup) :
    faultOf (ofRoot rules m) = (Place.all m).findSome? (fault? rules) := by
  have hcandidate : candidate ⟨[], m⟩ = Candidate.ofRoot m := rfl
  rw [Place.all, findSome?_cons_or, fault?, hcandidate]
  cases hc : Candidate.ofRoot m with
  | error fault =>
    rw [ofRoot, hc]
    rfl
  | ok c =>
    have hlabel := (candidate_of_ofRoot hc).2.1
    have hinside := faultOf_ofMarkups rules (List.cons_ne_nil c.kind []) c.origin m.children
    rw [ofRoot_eq hc hlabel, faultOf_ofCandidate hinside, Candidate.children, hlabel]

/-- The elements of trees that are no texts, in the order in which they begin. -/
def elementsOf (ts : List Tree) : List Element :=
  ((subtreesOf ts).map element).filter fun e => e.kind ≠ .text

theorem elementsOf_cons (t : Tree) (ts : List Tree) :
    elementsOf (t :: ts) = elementsOf [t] ++ elementsOf ts := by
  simp only [elementsOf, subtreesOf, List.append_nil, List.map_append, List.filter_append]

theorem elementsOf_node {e : Element} (hkind : e.kind ≠ .text) (ts : List Tree) :
    elementsOf [node e ts] = e :: elementsOf ts := by
  rw [elementsOf, subtreesOf, subtreesOf, List.append_nil, subtrees, List.map_cons]
  exact List.filter_cons_of_pos (decide_eq_true hkind)

theorem forall₂_belowAll {R : Place → Element → Prop} {above : List Kind} {ms : List Markup}
    {ts : List Tree} (h : List.Forall₂ (fun m t => List.Forall₂ R (below above m) (elementsOf [t]))
      ms ts) : List.Forall₂ R (belowAll above ms) (elementsOf ts) := by
  induction h with
  | nil => exact .nil
  | cons hm _ ih =>
    rw [belowAll, elementsOf_cons]
    exact List.rel_append hm ih

theorem forall₂_below {rules : Containment} {above : List Kind} (habove : above ≠ [])
    {origin : Origin} {m : Markup} {t : Tree} (h : ofMarkup rules above origin m = .ok t) :
    List.Forall₂ (Place.Becomes rules) (below above m) (elementsOf [t]) := by
  refine growth_induction (motive := fun above _ m t => above ≠ [] →
    List.Forall₂ (Place.Becomes rules) (below above m) (elementsOf [t])) ?_ ?_ h habove
  · intro above origin s _
    exact .nil
  · intro above origin tag attributes own c e ts hc he hts habove
    have hcandidate : candidate ⟨above, .element tag attributes own⟩ = .ok c := by
      simpa [candidate, habove] using hc
    have hkind : e.kind ≠ .text := he.kind ▸ Candidate.kind_ne_text hc
    rw [below_element, hc, elementsOf_node hkind]
    refine .cons ⟨c, hcandidate, he⟩ (forall₂_belowAll ?_)
    exact hts.imp fun _ _ ht => ht (List.cons_ne_nil c.kind above)

/-- The elements of a tree that are no texts are those of the places, one by one. -/
theorem forall₂_places {rules : Containment} {m : Markup} {t : Tree}
    (h : ofRoot rules m = .ok t) :
    List.Forall₂ (Place.Becomes rules) (Place.all m) (elementsOf [t]) := by
  obtain ⟨c, e, ts, hc, he, hts, rfl⟩ := ofRoot_eq_ok.mp h
  have hkind : e.kind ≠ .text := by
    rw [he.kind, (candidate_of_ofRoot hc).1]
    decide
  rw [Place.all, hc, elementsOf_node hkind]
  refine .cons ⟨c, hc, he⟩ (forall₂_belowAll ?_)
  exact hts.imp fun _ _ ht => forall₂_below (List.cons_ne_nil c.kind []) ht

end Tree

/-- Markup is built as by a walk that knows of no document, only of the kinds around the place where
it is. Something is wrong with the message if it is with some place, and the first one counts: what
stands before a place has no say in what is wrong there. -/
theorem Document.build_walk (rules : Containment) (m : Markup) :
    build rules m = (Tree.ofRoot rules m).map ofTree ∧
      ((∃ d, build rules m = .ok d) ↔ ∀ p ∈ Place.all m, p.fault? rules = none) ∧
      ∀ fault, build rules m = .error fault ↔
        ∃ before p after, Place.all m = before ++ p :: after ∧ p.fault? rules = some fault ∧
          ∀ q ∈ before, q.fault? rules = none := by
  have hfault : faultOf (build rules m) = (Place.all m).findSome? (Place.fault? rules) := by
    rw [build_eq, faultOf_map, Tree.faultOf_ofRoot]
  refine ⟨build_eq rules m, ?_, fun fault => ?_⟩
  · rw [← faultOf_eq_none_iff, hfault, List.findSome?_eq_none_iff]
  · rw [← faultOf_eq_some_iff, hfault, List.findSome?_eq_some_iff]

/-- The unknown element comes later than the second form, and is not looked at. -/
example : Document.build .standard (.element "messageML" [] [.element "form" [("id", "a")]
    [.element "div" [] [.element "form" [("id", "b")] []]], .element "marquee" [] []]) =
    .error (.nestedElement "form") := by decide +kernel

end ChatForms
