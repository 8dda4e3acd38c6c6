import ChatForms.Build
import ChatForms.Proofs.Document.Arena
import ChatForms.Proofs.Markup.All
import Mathlib.Data.List.Forall2

namespace ChatForms

theorem bind_eq_ok {α β ε : Type} {x : Except ε α} {next : α → Except ε β} {b : β} :
    x >>= next = .ok b ↔ ∃ a, x = .ok a ∧ next a = .ok b := by
  cases x with
  | error fault =>
    constructor
    · intro h
      cases h
    · rintro ⟨_, h, -⟩
      cases h
  | ok a =>
    constructor
    · intro h
      exact ⟨a, rfl, h⟩
    · rintro ⟨_, h, hb⟩
      cases h
      exact hb

theorem bind_eq_error {α β ε : Type} {x : Except ε α} {next : α → Except ε β} {fault : ε} :
    x >>= next = .error fault ↔ x = .error fault ∨ ∃ a, x = .ok a ∧ next a = .error fault := by
  cases x with
  | error found =>
    constructor
    · rintro ⟨⟩
      exact Or.inl rfl
    · rintro (⟨⟨⟩⟩ | ⟨_, h, -⟩)
      · rfl
      · cases h
  | ok a =>
    constructor
    · intro h
      exact Or.inr ⟨a, rfl, h⟩
    · rintro (h | ⟨_, ⟨⟩, h⟩)
      · cases h
      · exact h

theorem map_eq_ok {α β ε : Type} {x : Except ε α} {f : α → β} {b : β} :
    x.map f = .ok b ↔ ∃ a, x = .ok a ∧ b = f a := by
  cases x with
  | error fault =>
    constructor
    · intro h
      cases h
    · rintro ⟨_, h, -⟩
      cases h
  | ok a =>
    constructor
    · intro h
      cases h
      exact ⟨a, rfl, rfl⟩
    · rintro ⟨_, h, rfl⟩
      cases h
      rfl

theorem exists_of_forall₂ {α β : Type} {R : α → β → Prop} {as : List α} {bs : List β}
    (h : List.Forall₂ R as bs) {b : β} (hb : b ∈ bs) : ∃ a ∈ as, R a b := by
  induction h with
  | nil => cases hb
  | @cons a b' as bs hr _ ih =>
    rcases List.mem_cons.mp hb with rfl | hb
    · exact ⟨a, List.mem_cons_self, hr⟩
    · obtain ⟨a', ha', hr'⟩ := ih hb
      exact ⟨a', List.mem_cons_of_mem a ha', hr'⟩

/-- The element that markup stands for below elements of the kinds `above`. -/
def Candidate.examine (c : Candidate) (rules : Containment) (above : List Kind)
    (own : List Markup) : Except Fault Element := do
  let attributes ← c.kind.collect c.origin c.attributes
  if let some fault := c.kind.placementFaultBelow? rules above then throw fault
  if let some fault := c.kind.attributesFault? attributes then throw fault
  if let some fault := c.kind.contentFault? c.origin (c.children own) then throw fault
  pure ⟨c.kind, attributes, none, c.origin⟩

/-- What an element has come through. -/
structure Candidate.Passes (c : Candidate) (rules : Containment) (above : List Kind)
    (own : List Markup) (e : Element) : Prop where
  kind : e.kind = c.kind
  origin : e.origin = c.origin
  text : e.text = none
  collected : c.kind.collect c.origin c.attributes = .ok e.attributes
  placed : c.kind.placementFaultBelow? rules above = none
  valued : c.kind.attributesFault? e.attributes = none
  filled : c.kind.contentFault? c.origin (c.children own) = none

theorem Candidate.examine_eq_ok {c : Candidate} {rules : Containment} {above : List Kind}
    {own : List Markup} {e : Element} :
    c.examine rules above own = .ok e ↔ c.Passes rules above own e := by
  obtain ⟨kind, attributes, text, origin⟩ := e
  constructor
  · intro h
    rw [examine] at h
    cases hcollect : c.kind.collect c.origin c.attributes with
    | error fault =>
      rw [hcollect] at h
      cases h
    | ok stored =>
      simp only [hcollect, bind, Except.bind] at h
      cases hplace : c.kind.placementFaultBelow? rules above with
      | some fault =>
        rw [hplace] at h
        cases h
      | none =>
        simp only [hplace] at h
        cases hvalue : c.kind.attributesFault? stored with
        | some fault =>
          rw [hvalue] at h
          cases h
        | none =>
          simp only [hvalue] at h
          cases hfill : c.kind.contentFault? c.origin (c.children own) with
          | some fault =>
            rw [hfill] at h
            cases h
          | none =>
            rw [hfill] at h
            cases h
            exact ⟨rfl, rfl, rfl, hcollect, hplace, hvalue, hfill⟩
  · rintro ⟨rfl, rfl, rfl, hcollect, hplace, hvalue, hfill⟩
    rw [examine, hcollect]
    simp only [bind, Except.bind, hplace, hvalue, hfill]
    rfl

theorem Document.accept_eq (d : Document) (rules : Containment) (parent : Option Nat)
    (c : Candidate) (own : List Markup) :
    d.accept rules parent c own =
      (c.examine rules (d.lineageKinds parent) own).map (d.attach · parent) := by
  simp only [accept, Candidate.examine, Kind.placementFault?]
  cases c.kind.collect c.origin c.attributes with
  | error fault => rfl
  | ok stored =>
    simp only [bind, Except.bind]
    cases c.kind.placementFaultBelow? rules (d.lineageKinds parent) with
    | some fault => rfl
    | none =>
      cases c.kind.attributesFault? stored with
      | some fault => rfl
      | none => cases c.kind.contentFault? c.origin (c.children own) <;> rfl

namespace Tree

mutual
/-- The tree that markup stands for below elements of the kinds `above`. -/
def ofMarkup (rules : Containment) (above : List Kind) (origin : Origin) :
    Markup → Except Fault Tree
  | .text s => .ok (.node (.ofText s origin) [])
  | .element tag attributes own => do
    let c ← Candidate.ofInner (.element tag attributes own)
    let e ← c.examine rules above own
    match c.label with
    | some s => pure (.node e [.node (.ofText s c.origin) []])
    | none => pure (.node e (← ofMarkups rules (c.kind :: above) c.origin own))
def ofMarkups (rules : Containment) (above : List Kind) (origin : Origin) :
    List Markup → Except Fault (List Tree)
  | [] => .ok []
  | m :: rest => do
    let t ← ofMarkup rules above origin m
    pure (t :: (← ofMarkups rules above origin rest))
end

/-- The tree that markup stands for once its candidate is known. -/
def ofCandidate (rules : Containment) (above : List Kind) (c : Candidate) (own : List Markup) :
    Except Fault Tree := do
  let e ← c.examine rules above own
  (ofMarkups rules (c.kind :: above) c.origin (c.children own)).map (node e)

/-- The tree that the markup of a whole message stands for. -/
def ofRoot (rules : Containment) (m : Markup) : Except Fault Tree := do
  let c ← Candidate.ofRoot m
  let e ← c.examine rules [] m.children
  pure (.node e (← ofMarkups rules [c.kind] c.origin m.children))

theorem ofMarkups_eq_ok {rules : Containment} {above : List Kind} {origin : Origin}
    {ms : List Markup} {ts : List Tree} :
    ofMarkups rules above origin ms = .ok ts ↔
      List.Forall₂ (fun m t => ofMarkup rules above origin m = .ok t) ms ts := by
  induction ms generalizing ts with
  | nil => rw [ofMarkups, List.forall₂_nil_left_iff, Except.ok.injEq, eq_comm]
  | cons m ms ih =>
    rw [ofMarkups, bind_eq_ok, List.forall₂_cons_left_iff]
    simp only [bind_eq_ok, ← ih]
    constructor
    · rintro ⟨t, ht, rest, hrest, h⟩
      cases h
      exact ⟨t, rest, ht, hrest, rfl⟩
    · rintro ⟨t, rest, ht, hrest, rfl⟩
      exact ⟨t, ht, rest, hrest, rfl⟩

/-- A label that was gathered from the markup grows as a text does. -/
theorem ofMarkup_element_eq (rules : Containment) (above : List Kind) (origin : Origin)
    (tag : String) (attributes : List (String × String)) (own : List Markup) :
    ofMarkup rules above origin (.element tag attributes own) =
      Candidate.ofInner (.element tag attributes own) >>= fun c =>
        ofCandidate rules above c own := by
  have hinside : ∀ (c : Candidate) (e : Element),
      (match c.label with
        | some s => pure (.node e [.node (.ofText s c.origin) []])
        | none => do pure (.node e (← ofMarkups rules (c.kind :: above) c.origin own))) =
        (ofMarkups rules (c.kind :: above) c.origin (c.children own)).map (node e) := by
    intro c e
    rw [Candidate.children]
    cases c.label with
    | some s => rfl
    | none => cases ofMarkups rules (c.kind :: above) c.origin own <;> rfl
  simp only [ofMarkup, hinside, ofCandidate]

theorem ofRoot_eq {rules : Containment} {m : Markup} {c : Candidate}
    (hc : Candidate.ofRoot m = .ok c) (hlabel : c.label = none) :
    ofRoot rules m = ofCandidate rules [] c m.children := by
  have hinside : ∀ e : Element,
      (do pure (.node e (← ofMarkups rules [c.kind] c.origin m.children))) =
        (ofMarkups rules [c.kind] c.origin m.children).map (node e) := by
    intro e
    cases ofMarkups rules [c.kind] c.origin m.children <;> rfl
  rw [ofRoot, hc, ofCandidate, Candidate.children, hlabel]
  simp only [← hinside]
  rfl

theorem ofCandidate_eq_ok {rules : Containment} {above : List Kind} {c : Candidate}
    {own : List Markup} {t : Tree} :
    ofCandidate rules above c own = .ok t ↔
      ∃ e ts, c.Passes rules above own e ∧
        ofMarkups rules (c.kind :: above) c.origin (c.children own) = .ok ts ∧ t = .node e ts := by
  simp only [ofCandidate, bind_eq_ok, Candidate.examine_eq_ok, map_eq_ok, exists_and_left]

/-- The way in which an element comes into a tree. -/
theorem ofMarkup_element {rules : Containment} {above : List Kind} {origin : Origin} {tag : String}
    {attributes : List (String × String)} {own : List Markup} {t : Tree} :
    ofMarkup rules above origin (.element tag attributes own) = .ok t ↔
      ∃ c e ts, Candidate.ofInner (.element tag attributes own) = .ok c ∧
        c.Passes rules above own e ∧
        ofMarkups rules (c.kind :: above) c.origin (c.children own) = .ok ts ∧ t = .node e ts := by
  simp only [ofMarkup_element_eq, bind_eq_ok, ofCandidate_eq_ok, exists_and_left]

/-- What holds of texts, and is handed on from the children to every element, holds of all trees
that grow. -/
theorem growth_induction {rules : Containment} {motive : List Kind → Origin → Markup → Tree → Prop}
    (text : ∀ above origin s, motive above origin (.text s) (.node (.ofText s origin) []))
    (element : ∀ above origin tag attributes own c e ts,
      Candidate.ofInner (.element tag attributes own) = .ok c → c.Passes rules above own e →
      List.Forall₂ (motive (c.kind :: above) c.origin) (c.children own) ts →
      motive above origin (.element tag attributes own) (.node e ts))
    {above : List Kind} {origin : Origin} {m : Markup} {t : Tree}
    (h : ofMarkup rules above origin m = .ok t) : motive above origin m t := by
  induction m using Markup.induction generalizing above origin t with
  | text s =>
    cases h
    exact text above origin s
  | element tag attributes own ih =>
    obtain ⟨c, e, ts, hc, he, hts, rfl⟩ := ofMarkup_element.mp h
    refine element above origin tag attributes own c e ts hc he ?_
    have hgrown := ofMarkups_eq_ok.mp hts
    rw [Candidate.children] at hgrown ⊢
    cases hlabel : c.label with
    | some s =>
      -- the label is no markup of its own, so no hypothesis speaks of it
      simp only [hlabel] at hgrown ⊢
      obtain ⟨t, _, ht, hnil, rfl⟩ := List.forall₂_cons_left_iff.mp hgrown
      cases hnil
      cases ht
      exact .cons (text _ _ s) .nil
    | none =>
      simp only [hlabel] at hgrown ⊢
      clear h hc he hts hlabel
      induction hgrown with
      | nil => exact .nil
      | cons ht _ ihts =>
        obtain ⟨hm, hms⟩ := List.forall_mem_cons.mp ih
        exact .cons (hm ht) (ihts hms)

end Tree

namespace Document

mutual
theorem add_eq (rules : Containment) {parent : Nat} (origin : Origin) {d : Document}
    (hd : d.Linked) (hparent : parent < d.size) (m : Markup) :
    add rules parent origin d m =
      (Tree.ofMarkup rules (d.lineageKinds (some parent)) origin m).map (d.graft parent) := by
  match m with
  | .text s =>
    rw [add, Tree.ofMarkup, attach_eq_graft]
    rfl
  | .element tag attributes own =>
    rw [add, Tree.ofMarkup]
    cases Candidate.ofInner (.element tag attributes own) with
    | error fault => rfl
    | ok c =>
      simp only [bind, Except.bind, accept_eq]
      cases he : c.examine rules (d.lineageKinds (some parent)) own with
      | error fault => rfl
      | ok e =>
        have hkind : e.kind = c.kind := (Candidate.examine_eq_ok.mp he).kind
        -- the children come below the element that has just joined
        have hlinked := linked_graft hd hparent (.node e [])
        have hsize : d.size < (d.graft parent (.node e [])).size := by
          rw [size_graft, Tree.size_node]
          omega
        have hinside := addAll_eq rules c.origin hlinked hsize own
        have hkinds := lineageKinds_attach hd hparent e
        rw [← attach_eq_graft, hkinds, hkind] at hinside
        simp only [Except.map]
        cases c.label with
        | some s =>
          simp only [attach_eq_graft (d.attach e (some parent)), pure, Except.pure]
          rw [← graftAll_attach d e parent]
          rfl
        | none =>
          simp only [hinside]
          cases Tree.ofMarkups rules (c.kind :: d.lineageKinds (some parent)) c.origin own with
          | error fault => rfl
          | ok ts =>
            simp only [Except.map, pure, Except.pure]
            rw [graftAll_attach]
theorem addAll_eq (rules : Containment) {parent : Nat} (origin : Origin) {d : Document}
    (hd : d.Linked) (hparent : parent < d.size) (ms : List Markup) :
    addAll rules parent origin d ms =
      (Tree.ofMarkups rules (d.lineageKinds (some parent)) origin ms).map (d.graftAll parent) := by
  match ms with
  | [] => rfl
  | m :: rest =>
    rw [addAll, Tree.ofMarkups, add_eq rules origin hd hparent m]
    cases Tree.ofMarkup rules (d.lineageKinds (some parent)) origin m with
    | error fault => rfl
    | ok t =>
      have hlinked := linked_graft hd hparent t
      have hsize : parent < (d.graft parent t).size := by
        rw [size_graft]
        omega
      have hrest := addAll_eq rules origin hlinked hsize rest
      rw [lineageKinds_graft hd hparent t hparent] at hrest
      simp only [bind, Except.bind, Except.map, hrest]
      cases Tree.ofMarkups rules (d.lineageKinds (some parent)) origin rest <;> rfl
end

/-- A document is built if its tree grows, with the same fault otherwise. -/
theorem build_eq (rules : Containment) (m : Markup) :
    build rules m = (Tree.ofRoot rules m).map ofTree := by
  rw [build, Tree.ofRoot]
  cases Candidate.ofRoot m with
  | error fault => rfl
  | ok c =>
    simp only [bind, Except.bind, accept_eq, lineageKinds_none]
    cases he : c.examine rules [] m.children with
    | error fault => rfl
    | ok e =>
      have hkind : e.kind = c.kind := (Candidate.examine_eq_ok.mp he).kind
      have hroot : (empty.attach e none).get? 0 =
          some { e with parent := none, children := [] } := rfl
      -- the root has no parent, so there is nothing to check above it
      have hlinked : (empty.attach e none).Linked := by
        intro i entry hentry p hp
        have hi : i < 1 := (Array.getElem?_eq_some_iff.mp hentry).1
        obtain rfl : i = 0 := by omega
        rw [hroot] at hentry
        cases hentry
        cases hp
      have hinside := addAll_eq rules c.origin hlinked (Nat.zero_lt_one : 0 < 1) m.children
      rw [lineageKinds_some hlinked hroot, lineageKinds_none, hkind] at hinside
      simp only [Except.map, hinside]
      cases Tree.ofMarkups rules [c.kind] c.origin m.children with
      | error fault => rfl
      | ok ts =>
        simp only [pure, Except.pure]
        rw [graftAll_root]

theorem build_eq_ok {rules : Containment} {m : Markup} {d : Document} :
    build rules m = .ok d ↔ ∃ t, Tree.ofRoot rules m = .ok t ∧ d = ofTree t := by
  rw [build_eq, map_eq_ok]

end Document
end ChatForms
