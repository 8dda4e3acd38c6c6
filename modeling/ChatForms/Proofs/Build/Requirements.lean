import ChatForms.Proofs.Build.Validity
import ChatForms.Proofs.Containment
import ChatForms.Proofs.Contract
import ChatForms.Proofs.Document.Preorder

namespace ChatForms

/-! ### Content -/

namespace Kind

/-- The elements that stand inside one of a kind: a wording inside a button, at most a label inside
a checkbox. -/
def Encloses (k : Kind) (children : List Element) : Prop :=
  match k with
  | message | form | div => True
  | button => children.length = 1 ∧ ∀ c ∈ children, c.kind = text ∧ c.text ≠ some ""
  | checkbox => children.length ≤ 1 ∧ ∀ c ∈ children, c.kind = text
  | personSelector | text => children = []

instance (k : Kind) (children : List Element) : Decidable (k.Encloses children) :=
  match k with
  | message | form | div => inferInstanceAs (Decidable True)
  | button | checkbox => inferInstanceAs (Decidable (_ ∧ _))
  | personSelector | text => inferInstanceAs (Decidable (children = []))

theorem Holds.encloses {k : Kind} {children : List Tree} (h : k.Holds children) :
    k.Encloses (children.map Tree.element) := by
  cases k with
  | message | form | div => trivial
  | button =>
    obtain ⟨s, origin, rfl, hne⟩ := holds_button h
    simpa [Encloses, Tree.element, Element.ofText] using hne
  | checkbox =>
    rcases holds_checkbox h with rfl | ⟨s, origin, rfl⟩ <;>
      simp [Encloses, Tree.element, Element.ofText]
  | personSelector | text => exact List.map_eq_nil_iff.mpr h

theorem holds_of_encloses {k : Kind} {children : List Tree} {rules : Containment}
    {above : List Kind} (hchildren : ∀ t ∈ children, t.Valid rules above)
    (h : k.Encloses (children.map Tree.element)) : k.Holds children := by
  cases k with
  | message | form | div => trivial
  | button =>
    obtain ⟨hlength, htext⟩ := h
    obtain ⟨t, rfl⟩ := List.length_eq_one_iff.mp (List.length_map _ ▸ hlength)
    obtain ⟨hkind, hne⟩ := htext _ List.mem_cons_self
    obtain ⟨s, origin, rfl⟩ := (hchildren t List.mem_cons_self).eq_ofText hkind
    refine Or.inr ⟨s, origin, rfl, ?_⟩
    rintro - rfl
    exact hne rfl
  | checkbox =>
    obtain ⟨hlength, htext⟩ := h
    match children with
    | [] => exact Or.inl ⟨rfl, rfl⟩
    | [t] =>
      obtain ⟨s, origin, rfl⟩ :=
        (hchildren t List.mem_cons_self).eq_ofText (htext _ List.mem_cons_self)
      exact Or.inr ⟨s, origin, rfl, nofun⟩
    | _ :: _ :: _ => simp at hlength
  | personSelector | text => exact List.map_eq_nil_iff.mp h

theorem encloses_forgetOrigin {k : Kind} {children : List Element} :
    k.Encloses (children.map Element.forgetOrigin) ↔ k.Encloses children := by
  cases k <;> simp [Encloses, Element.forgetOrigin]

end Kind

/-! ### Elements in their places -/

/-- An element keeps all rules in its place: what is around it, what it bears and what stands inside
it. -/
structure Element.Belongs (e : Element) (rules : Containment) (above : List Kind)
    (children : List Element) : Prop where
  worded : e.text.isSome ↔ e.kind = .text
  bears : e.kind.Bears e.attributes
  stands : e.kind.MayStand rules above
  encloses : e.kind.Encloses children

instance (e : Element) (rules : Containment) (above : List Kind) (children : List Element) :
    Decidable (e.Belongs rules above children) :=
  decidable_of_iff ((e.text.isSome ↔ e.kind = .text) ∧ e.kind.Bears e.attributes ∧
      e.kind.MayStand rules above ∧ e.kind.Encloses children)
    ⟨fun ⟨worded, bears, stands, encloses⟩ => ⟨worded, bears, stands, encloses⟩,
      fun ⟨worded, bears, stands, encloses⟩ => ⟨worded, bears, stands, encloses⟩⟩

/-- How elements were written does not matter for the rules. -/
theorem Element.belongs_forgetOrigin {e : Element} {rules : Containment} {above : List Kind}
    {children : List Element} :
    e.forgetOrigin.Belongs rules above (children.map forgetOrigin) ↔
      e.Belongs rules above children := by
  constructor
  · rintro ⟨worded, bears, stands, encloses⟩
    exact ⟨worded, bears, stands, Kind.encloses_forgetOrigin.mp encloses⟩
  · rintro ⟨worded, bears, stands, encloses⟩
    exact ⟨worded, bears, stands, Kind.encloses_forgetOrigin.mpr encloses⟩

namespace Tree

theorem fits_iff {rules : Containment} {above : List Kind} {e : Element} {ts : List Tree}
    (hts : ∀ t ∈ ts, t.Valid rules (e.kind :: above)) :
    e.Fits rules above ts ↔ e.Belongs rules above (ts.map element) := by
  constructor
  · rintro ⟨hstores, hplaced, hvalued, hholds, hworded⟩
    exact ⟨hworded, Kind.bears_iff.mpr ⟨hstores, hvalued⟩,
      Kind.placementFaultBelow?_eq_none_iff.mp hplaced, hholds.encloses⟩
  · rintro ⟨hworded, hbears, hstands, hencloses⟩
    obtain ⟨hstores, hvalued⟩ := Kind.bears_iff.mp hbears
    exact ⟨hstores, Kind.placementFaultBelow?_eq_none_iff.mpr hstands, hvalued,
      Kind.holds_of_encloses hts hencloses, hworded⟩

/-- A tree is valid if its root keeps the rules and the trees inside are valid. -/
theorem valid_node_iff {rules : Containment} {above : List Kind} {e : Element} {ts : List Tree} :
    (node e ts).Valid rules above ↔
      e.Belongs rules above (ts.map element) ∧ ∀ t ∈ ts, t.Valid rules (e.kind :: above) := by
  constructor
  · rintro ⟨hfits, hinside⟩
    exact ⟨(fits_iff hinside).mp hfits, hinside⟩
  · rintro ⟨hbelongs, hinside⟩
    exact .node ((fits_iff hinside).mpr hbelongs) hinside

end Tree

/-! ### Documents -/

namespace Document

/-- An element keeps the rules in its place in the document. -/
def Belongs (d : Document) (rules : Containment) (e : Entry) : Prop :=
  e.toElement.Belongs rules (d.lineageKinds e.parent)
    ((e.children.filterMap d.get?).map Entry.toElement)

instance (d : Document) (rules : Containment) (e : Entry) : Decidable (d.Belongs rules e) :=
  inferInstanceAs (Decidable (e.toElement.Belongs _ _ _))

/-- The first element and no other is the message, and all of them keep the rules. -/
def IsValid (rules : Containment) (d : Document) : Prop :=
  ∀ i e, d.get? i = some e → (e.kind = .message ↔ i = 0) ∧ d.Belongs rules e

instance (rules : Containment) (d : Document) : Decidable (d.IsValid rules) :=
  decidable_of_iff
    (∀ i < d.size, ∀ e ∈ d.get? i, (e.kind = .message ↔ i = 0) ∧ d.Belongs rules e)
    ⟨fun h i e he => h i (Array.getElem?_eq_some_iff.mp he).1 e he, fun h i _ e he => h i e he⟩

theorem Carries.valid_iff {rules : Containment} {d : Document} {parent : Option Nat} {start : Nat}
    {ts : List Tree} (hd : d.Linked) (h : d.Carries parent start ts) :
    (∀ t ∈ ts, t.Valid rules (d.lineageKinds parent)) ↔
      ∀ i, Numbers start ts i → ∀ e, d.get? i = some e → d.Belongs rules e := by
  induction h with
  | nil => simp [not_numbers_nil]
  | @cons parent start e ts us here inside others ihInside ihOthers =>
    rw [List.forall_mem_cons, Tree.valid_node_iff, ← lineageKinds_some hd here, ihInside, ihOthers,
      ← inside.elements_childNumbers]
    simp only [numbers_cons, or_imp, forall_and, forall_eq, here, Option.some.injEq, forall_eq']
    exact and_assoc

theorem linked_ofTree (t : Tree) : (ofTree t).Linked := by
  intro i e he p hp
  rw [get?, ofTree, List.getElem?_toArray] at he
  have hnone : ∀ p, none = some p → p < 0 := by simp
  simpa using parent_lt_of_entriesFrom hnone t he hp

/-- Only what is at the top has nothing above it. -/
theorem IsArena.eq_zero_of_lineageKinds {d : Document} (h : d.IsArena) (hd : d.Linked) {i : Nat}
    {e : Entry} (he : d.get? i = some e) (hnil : d.lineageKinds e.parent = []) : i = 0 := by
  have hi : i < d.size := (Array.getElem?_eq_some_iff.mp he).1
  refine (h.root i hi).mp ?_
  cases hp : e.parent with
  | none => simp [parent?, he, hp]
  | some p =>
    have hlt := hd i e he p hp
    obtain ⟨above, habove, -⟩ := get?_of_lt (d := d) (i := p) (by omega)
    rw [hp, lineageKinds_some hd habove] at hnil
    cases hnil

theorem isValid_ofTree_iff {rules : Containment} {t : Tree} :
    (ofTree t).IsValid rules ↔ t.Valid rules [] ∧ t.element.kind = .message := by
  have hlinked := linked_ofTree t
  have hcarries := carries_ofTree t
  have hvalid := @Carries.valid_iff rules _ _ _ _ hlinked hcarries
  rw [lineageKinds_none, List.forall_mem_singleton] at hvalid
  obtain ⟨root, hroot, helement⟩ :
      ∃ root, (ofTree t).get? 0 = some root ∧ root.toElement = t.element := by
    cases t with
    | node e ts => cases hcarries with
      | cons here _ _ => exact ⟨_, here, rfl⟩
  rw [hvalid]
  constructor
  · intro h
    refine ⟨fun i _ e he => (h i e he).2, ?_⟩
    rw [← helement]
    exact (h 0 root hroot).1.mpr rfl
  · rintro ⟨hbelongs, hkind⟩ i e he
    have hi : i < (ofTree t).size := (Array.getElem?_eq_some_iff.mp he).1
    have hbelongs := hbelongs i (numbers_ofTree.mpr hi) e he
    refine ⟨⟨fun hmessage => ?_, ?_⟩, hbelongs⟩
    · have hstands := hbelongs.stands
      rw [hmessage] at hstands
      exact (isArena_ofTree t).eq_zero_of_lineageKinds hlinked he hstands
    · rintro rfl
      rw [hroot] at he
      cases he
      rw [helement, hkind]

end Document
end ChatForms
