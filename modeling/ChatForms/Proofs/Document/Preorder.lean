import ChatForms.Proofs.Document.Arena

namespace ChatForms

namespace Document
open ChatForms.Tree

/-- The order in which a walk comes to elements: to each one before what is inside it, and to what
is inside it before what comes behind it. -/
inductive Meets (inside : Nat → List Nat) : List Nat → List Nat → Prop where
  | nil : Meets inside [] []
  | cons {i : Nat} {later below rest : List Nat} (first : Meets inside (inside i) below)
      (others : Meets inside later rest) : Meets inside (i :: later) (i :: (below ++ rest))

/-- The links of a document fit together, and its elements are numbered as a walk comes to them. -/
structure IsArena (d : Document) : Prop where
  root : ∀ i < d.size, d.parent? i = none ↔ i = 0
  linked : ∀ i j, j ∈ d.children i ↔ d.parent? j = some i
  ordered : Meets d.children [0] (List.range d.size)

/-- Trees stand one after the other below an element, the first one under the number `start`. -/
inductive Carries (d : Document) : Option Nat → Nat → List Tree → Prop where
  | nil {parent : Option Nat} {start : Nat} : d.Carries parent start []
  | cons {parent : Option Nat} {start : Nat} {e : Element} {ts us : List Tree}
      (here : d.get? start =
        some { e with parent := parent, children := childNumbers (start + 1) ts })
      (inside : d.Carries (some start) (start + 1) ts)
      (others : d.Carries parent (start + (node e ts).size) us) :
      d.Carries parent start (node e ts :: us)

/-! ### The numbers of trees that stand in a document -/

/-- The numbers of the elements of trees of which the first one has the number `start`. -/
def Numbers (start : Nat) (ts : List Tree) (i : Nat) : Prop :=
  start ≤ i ∧ i < start + (subtreesOf ts).length

theorem not_numbers_nil {start i : Nat} : ¬Numbers start [] i := by
  simp [Numbers, subtreesOf]

/-- A number is that of the first tree, or of one inside it, or of one behind it. -/
theorem numbers_cons {start : Nat} {e : Element} {ts us : List Tree} {i : Nat} :
    Numbers start (node e ts :: us) i ↔
      i = start ∨ Numbers (start + 1) ts i ∨ Numbers (start + (node e ts).size) us i := by
  have hsize : (subtreesOf (node e ts :: us)).length =
      (node e ts).size + (subtreesOf us).length := by
    rw [subtreesOf, List.length_append, Tree.size]
  simp only [Numbers, hsize, size_node]
  omega

section
variable {d : Document} {parent : Option Nat} {start : Nat} {ts : List Tree}

theorem Carries.children_eq {e : Element} {us : List Tree}
    (h : d.Carries parent start (node e ts :: us)) :
    d.children start = childNumbers (start + 1) ts := by
  cases h with
  | cons here _ _ => rw [children, here]; rfl

theorem Carries.parent?_eq {e : Element} {us : List Tree}
    (h : d.Carries parent start (node e ts :: us)) : d.parent? start = parent := by
  cases h with
  | cons here _ _ => rw [parent?, here]; rfl

theorem Carries.parent?_childNumbers (h : d.Carries parent start ts) :
    ∀ i ∈ childNumbers start ts, d.parent? i = parent := by
  induction h with
  | nil => simp [childNumbers]
  | cons here inside others _ ih =>
    exact List.forall_mem_cons.mpr ⟨(Carries.cons here inside others).parent?_eq, ih⟩

/-- Child numbers lead to the elements of the children. -/
theorem Carries.elements_childNumbers (h : d.Carries parent start ts) :
    ((childNumbers start ts).filterMap d.get?).map Entry.toElement = ts.map element := by
  induction h with
  | nil => rfl
  | cons here _ _ _ ih =>
    rw [childNumbers, List.filterMap_cons_some here, List.map_cons, List.map_cons, ih, element]

/-- From every number on, some trees stand in the document. -/
theorem Carries.exists_at (h : d.Carries parent start ts) {i : Nat} (hi : Numbers start ts i) :
    ∃ above e inside others, d.Carries above i (node e inside :: others) := by
  induction h with
  | nil => exact absurd hi not_numbers_nil
  | cons here inside others ihInside ihOthers =>
    rcases numbers_cons.mp hi with rfl | hi | hi
    · exact ⟨_, _, _, _, .cons here inside others⟩
    · exact ihInside hi
    · exact ihOthers hi

/-- An element belongs to those at the top, or one of the elements links to it. -/
theorem Carries.parent?_cases (h : d.Carries parent start ts) {i : Nat} (hi : Numbers start ts i) :
    i ∈ childNumbers start ts ∨
      ∃ p, Numbers start ts p ∧ d.parent? i = some p ∧ i ∈ d.children p := by
  induction h with
  | nil => exact absurd hi not_numbers_nil
  | @cons _ start _ _ _ here inside others ihInside ihOthers =>
    simp only [numbers_cons] at hi ⊢
    rcases hi with rfl | hi | hi
    · exact Or.inl List.mem_cons_self
    · refine Or.inr ?_
      rcases ihInside hi with hroot | ⟨p, hp, hlink⟩
      · have hchildren := (Carries.cons here inside others).children_eq
        exact ⟨start, Or.inl rfl, inside.parent?_childNumbers i hroot, hchildren ▸ hroot⟩
      · exact ⟨p, Or.inr (Or.inl hp), hlink⟩
    · rcases ihOthers hi with hroot | ⟨p, hp, hlink⟩
      · exact Or.inl (List.mem_cons_of_mem _ hroot)
      · exact Or.inr ⟨p, Or.inr (Or.inr hp), hlink⟩

/-- Two documents in which the same trees stand agree there. -/
theorem Carries.get?_eq {d' : Document} (h : d.Carries parent start ts)
    (h' : d'.Carries parent start ts) {i : Nat} (hi : Numbers start ts i) :
    d.get? i = d'.get? i := by
  induction h with
  | nil => exact absurd hi not_numbers_nil
  | cons here _ _ ihInside ihOthers =>
    cases h' with
    | cons here' inside' others' =>
      rcases numbers_cons.mp hi with rfl | hi | hi
      · rw [here, here']
      · exact ihInside inside' hi
      · exact ihOthers others' hi

/-- The numbers of trees in a row: that of the first one, those inside it and those behind it. -/
theorem range'_cons (start : Nat) (e : Element) (ts us : List Tree) :
    List.range' start (subtreesOf (node e ts :: us)).length =
      start :: (List.range' (start + 1) (subtreesOf ts).length ++
        List.range' (start + (node e ts).size) (subtreesOf us).length) := by
  have hnext : start + (node e ts).size = start + 1 + (subtreesOf ts).length := by
    rw [size_node]
    omega
  have hlength : (subtreesOf (node e ts :: us)).length =
      (subtreesOf ts).length + (subtreesOf us).length + 1 := by
    rw [subtreesOf, List.length_append, ← Tree.size, size_node]
    omega
  rw [hlength, List.range'_succ, hnext, List.range'_append_1]

theorem Carries.meets (h : d.Carries parent start ts) :
    Meets d.children (childNumbers start ts) (List.range' start (subtreesOf ts).length) := by
  induction h with
  | nil => exact .nil
  | cons here inside others ihInside ihOthers =>
    rw [← (Carries.cons here inside others).children_eq] at ihInside
    rw [range'_cons, childNumbers]
    exact .cons ihInside ihOthers

end

/-- Entries that are written down for trees make these stand in the document. -/
theorem carries_of_entries {d : Document} {parent : Option Nat} {before after : List Entry}
    (ts : List Tree)
    (h : d.entries.toList = before ++ (entriesOfAll parent before.length ts ++ after)) :
    d.Carries parent before.length ts := by
  induction ts using forest_induction generalizing parent before after with
  | nil => exact .nil
  | cons e ts us ihInside ihOthers =>
    rw [entriesOfAll, entriesFrom] at h
    refine .cons ?_ ?_ ?_
    · rw [get?, ← Array.getElem?_toList, h]
      simp
    · have hinside := @ihInside (some before.length)
        (before ++ [{ e with parent := parent, children := childNumbers (before.length + 1) ts }])
        (entriesOfAll parent (before.length + (node e ts).size) us ++ after)
      simp only [List.length_append, List.length_singleton] at hinside
      exact hinside (by simpa using h)
    · have hothers :=
        @ihOthers parent (before ++ (node e ts).entriesFrom parent before.length) after
      simp only [List.length_append, length_entriesFrom] at hothers
      exact hothers (by simpa [entriesFrom] using h)

theorem carries_ofTree (t : Tree) : (ofTree t).Carries none 0 [t] :=
  @carries_of_entries _ none [] [] [t] (by simp [ofTree, entriesOfAll])

theorem size_ofTree (t : Tree) : (ofTree t).size = (subtreesOf [t]).length := by
  simp [size, ofTree, length_entriesFrom, Tree.size, subtreesOf]

theorem numbers_ofTree {t : Tree} {i : Nat} : Numbers 0 [t] i ↔ i < (ofTree t).size := by
  simp [Numbers, size_ofTree]

/-! ### Arenas are the documents of trees -/

theorem get?_of_lt {d : Document} {i : Nat} (h : i < d.size) :
    ∃ e, d.get? i = some e ∧ d.parent? i = e.parent ∧ d.children i = e.children := by
  have he : d.get? i = some d.entries[i] := Array.getElem?_eq_getElem h
  exact ⟨_, he, by simp [parent?, he], by simp [children, he]⟩

theorem lt_of_mem_children {d : Document} {i j : Nat} (h : j ∈ d.children i) : i < d.size := by
  rw [← Nat.not_le]
  intro hle
  have hnone : d.get? i = none := Array.getElem?_eq_none hle
  simp [children, hnone] at h

theorem lt_of_parent? {d : Document} {i p : Nat} (h : d.parent? i = some p) : i < d.size := by
  obtain ⟨e, he, -⟩ := Option.bind_eq_some_iff.mp h
  exact (Array.getElem?_eq_some_iff.mp he).1

/-- What a walk comes to one number after the other stands in the document as trees. -/
theorem Meets.exists_carries {d : Document}
    (hlinked : ∀ i j, j ∈ d.children i ↔ d.parent? j = some i) {roots order : List Nat}
    (h : Meets d.children roots order) {parent : Option Nat} {start : Nat}
    (horder : order = List.range' start order.length) (hsize : start + order.length ≤ d.size)
    (hparent : ∀ i ∈ roots, d.parent? i = parent) :
    ∃ ts, childNumbers start ts = roots ∧ (subtreesOf ts).length = order.length ∧
      d.Carries parent start ts := by
  -- the walk is followed step by step; the links tell the parent of what it comes to
  induction h generalizing parent start with
  | nil => exact ⟨[], rfl, rfl, .nil⟩
  | @cons i later below rest first others ihFirst ihOthers =>
    simp only [List.length_cons, List.length_append] at horder hsize ⊢
    -- the numbers inside the first element come next, and then those behind it
    obtain ⟨rfl, hrest⟩ := List.cons.inj ((List.range'_succ ..) ▸ horder)
    rw [← List.range'_append_1] at hrest
    obtain ⟨hbelow, hrest⟩ := List.append_inj hrest (by simp)
    obtain ⟨hhere, hlater⟩ := List.forall_mem_cons.mp hparent
    obtain ⟨ts, hchildren, hlength, hinside⟩ := ihFirst hbelow (by omega)
      fun j hj => (hlinked i j).mp hj
    have hnext : ∀ e : Element, i + (node e ts).size = i + 1 + below.length := by
      intro e
      rw [size_node, hlength]
      omega
    obtain ⟨us, hroots, hlength', hothers⟩ := ihOthers hrest (by omega) hlater
    obtain ⟨e, he, hp, hc⟩ := get?_of_lt (d := d) (i := i) (by omega)
    refine ⟨node e.toElement ts :: us, ?_, ?_, .cons ?_ hinside ?_⟩
    · rw [childNumbers, hnext, hroots]
    · rw [subtreesOf, List.length_append, ← Tree.size, size_node, hlength, hlength']
      omega
    · rw [he, hchildren, ← hhere, hp, hc]
    · rwa [hnext]

/-- A document with nothing but one tree in it is the document of the tree. -/
theorem Carries.eq_ofTree {d : Document} {t : Tree} (h : d.Carries none 0 [t])
    (hsize : ∀ i, Numbers 0 [t] i ↔ i < d.size) : d = ofTree t := by
  refine ext_toList (List.ext_getElem? fun i => ?_)
  simp only [Array.getElem?_toList]
  by_cases hi : i < d.size
  · exact h.get?_eq (carries_ofTree t) ((hsize i).mpr hi)
  · have hi' : ¬i < (ofTree t).size := by rwa [← numbers_ofTree, hsize]
    rw [Array.getElem?_eq_none (Nat.le_of_not_lt hi), Array.getElem?_eq_none (Nat.le_of_not_lt hi')]

theorem IsArena.exists_ofTree {d : Document} (h : d.IsArena) : ∃ t, d = ofTree t := by
  have hrange : List.range d.size = List.range' 0 (List.range d.size).length := by
    rw [List.length_range, List.range_eq_range']
  have hsize : 0 < d.size := by
    have hordered := h.ordered
    cases hd : d.size with
    | zero =>
      rw [hd] at hordered
      cases hordered
    | succ n => exact Nat.succ_pos n
  have hroot : ∀ i ∈ [0], d.parent? i = none := by
    intro i hi
    obtain rfl := List.mem_singleton.mp hi
    exact (h.root 0 hsize).mpr rfl
  obtain ⟨ts, hroots, hlength, hcarries⟩ :=
    h.ordered.exists_carries h.linked hrange (by simp) hroot
  rw [List.length_range] at hlength
  match ts with
  | [] => cases hroots
  | [t] => exact ⟨t, hcarries.eq_ofTree fun i => by simp [Numbers, hlength]⟩
  | _ :: _ :: _ => simp [childNumbers] at hroots

theorem isArena_ofTree (t : Tree) : (ofTree t).IsArena := by
  have hcarries := carries_ofTree t
  have hroot : (ofTree t).parent? 0 = none :=
    hcarries.parent?_childNumbers 0 List.mem_cons_self
  have hcases : ∀ i < (ofTree t).size,
      i = 0 ∨ ∃ p, (ofTree t).parent? i = some p ∧ i ∈ (ofTree t).children p := by
    intro i hi
    rcases hcarries.parent?_cases (numbers_ofTree.mpr hi) with hroot | ⟨p, -, hlink⟩
    · exact Or.inl (List.mem_singleton.mp hroot)
    · exact Or.inr ⟨p, hlink⟩
  refine ⟨fun i hi => ⟨fun hparent => ?_, ?_⟩, fun i j => ⟨fun hj => ?_, fun hparent => ?_⟩, ?_⟩
  · refine (hcases i hi).resolve_right ?_
    rintro ⟨p, hp, -⟩
    rw [hparent] at hp
    cases hp
  · rintro rfl
    exact hroot
  · have hi := numbers_ofTree.mpr (lt_of_mem_children hj)
    obtain ⟨_, _, _, _, hat⟩ := hcarries.exists_at hi
    rw [hat.children_eq] at hj
    cases hat with
    | cons _ inside _ => exact inside.parent?_childNumbers j hj
  · rcases hcases j (lt_of_parent? hparent) with rfl | ⟨p, hp, hmem⟩
    · rw [hroot] at hparent
      cases hparent
    · rw [hparent] at hp
      cases hp
      exact hmem
  · rw [List.range_eq_range', size_ofTree]
    exact hcarries.meets

/-- The arenas are the documents of trees. -/
theorem isArena_iff {d : Document} : d.IsArena ↔ ∃ t, d = ofTree t := by
  refine ⟨IsArena.exists_ofTree, ?_⟩
  rintro ⟨t, rfl⟩
  exact isArena_ofTree t

/-- How elements were written does not matter for the links between them. -/
theorem IsArena.of_forgetOrigin {d : Document} (h : d.forgetOrigin.IsArena) : d.IsArena := by
  have hsize : d.forgetOrigin.size = d.size := by simp [forgetOrigin, size]
  have hparent : d.forgetOrigin.parent? = d.parent? := by
    funext i
    simp only [parent?, forgetOrigin, get?, Array.getElem?_map]
    cases d.entries[i]? <;> rfl
  have hchildren : d.forgetOrigin.children = d.children := by
    funext i
    simp only [children, forgetOrigin, get?, Array.getElem?_map]
    cases d.entries[i]? <;> rfl
  obtain ⟨hroot, hlinked, hordered⟩ := h
  rw [hsize, hparent] at hroot
  rw [hparent, hchildren] at hlinked
  rw [hsize, hchildren] at hordered
  exact ⟨hroot, hlinked, hordered⟩

end Document
end ChatForms
