import ChatForms.Proofs.Document.Preorder
import Mathlib.Data.List.Chain

namespace ChatForms

/-- Texts have a text and nothing else, and other elements have none. -/
structure Element.IsWorded (e : Element) : Prop where
  text : e.text.isSome ↔ e.kind = .text
  attributes : e.kind = .text → e.attributes = .empty

theorem Element.isWorded_ofText (s : String) (origin : Origin) : (ofText s origin).IsWorded :=
  ⟨by simp [ofText], fun _ => rfl⟩

theorem Element.isWorded_of_ne {e : Element} (hkind : e.kind ≠ .text) (htext : e.text = none) :
    e.IsWorded :=
  ⟨by simp [htext, hkind], fun h => absurd h hkind⟩

namespace Document

/-! ### One more element -/

theorem get?_attach_root (e : Element) (i : Nat) :
    (empty.attach e none).get? i =
      if i = 0 then some { e with parent := none, children := [] } else none := by
  cases i with
  | zero => rfl
  | succ i => simp [attach, empty, get?]

/-- A new element has the next number. It changes nothing but the children of its parent. -/
theorem get?_attach (d : Document) (e : Element) (p i : Nat) :
    (d.attach e (some p)).get? i =
      if i = d.size then some { e with parent := some p, children := [] }
      else (d.get? i).map fun x =>
        if i = p then { x with children := x.children ++ [d.size] } else x := by
  have hsize : d.entries.size = d.size := rfl
  rw [get?, attach, get?, Array.getElem?_push, Array.size_modify, Array.getElem?_modify, hsize]
  split
  · rfl
  · by_cases hi : i = p
    · simp [hi]
    · simp [hi, Ne.symm hi]

@[simp] theorem size_attach (d : Document) (e : Element) (parent : Option Nat) :
    (d.attach e parent).size = d.size + 1 := by
  cases parent <;> simp [attach, size]

variable {d : Document} {p : Nat}

theorem parent?_attach (d : Document) (e : Element) (p i : Nat) :
    (d.attach e (some p)).parent? i = if i = d.size then some p else d.parent? i := by
  rw [parent?, get?_attach]
  split
  · rfl
  · rw [parent?]
    cases d.get? i with
    | none => rfl
    | some x =>
      simp only [Option.map_some, Option.bind_eq_bind, Option.bind_some]
      split <;> rfl

theorem children_of_get? {i : Nat} {e : Entry} (he : d.get? i = some e) :
    d.children i = e.children := by
  rw [children, he]
  rfl

theorem children_of_size_le {i : Nat} (h : d.size ≤ i) : d.children i = [] := by
  rw [children, get?, Array.getElem?_eq_none h]
  rfl

theorem children_attach (hp : p < d.size) (e : Element) (i : Nat) :
    (d.attach e (some p)).children i =
      if i = p then d.children i ++ [d.size] else d.children i := by
  rw [children, get?_attach]
  split
  · next hi =>
    rw [if_neg (by omega), children_of_size_le (Nat.le_of_eq hi.symm)]
    rfl
  · split
    · next hi =>
      obtain ⟨x, hx, -, hchildren⟩ := get?_of_lt (hi ▸ hp)
      rw [hchildren, hx]
      rfl
    · rw [children]
      cases d.get? i <;> rfl

/-! ### Documents whose links fit -/

/-- The links of a document and its texts fit together. The elements need not have their final
order, and more of them may join. -/
structure IsSound (d : Document) : Prop where
  root : ∀ i < d.size, d.parent? i = none ↔ i = 0
  earlier : ∀ i p, d.parent? i = some p → p < i
  linked : ∀ i j, (d.children i).count j = if d.parent? j = some i then 1 else 0
  ascending : ∀ i, (d.children i).Pairwise (· < ·)
  worded : ∀ i e, d.get? i = some e → e.IsWorded
  bare : ∀ i e, d.get? i = some e → e.kind = .text → e.children = []

/-- A step of a build: an element joins the document, below one that may have children. -/
inductive Joins (d : Document) : Document → Prop where
  | root {e : Element} (first : d = empty) (kind : e.kind ≠ .text) (worded : e.IsWorded) :
      Joins d (d.attach e none)
  | inner {e : Element} {p : Nat} {x : Entry} (here : d.get? p = some x) (holds : x.kind ≠ .text)
      (worded : e.IsWorded) : Joins d (d.attach e (some p))

theorem isSound_empty : empty.IsSound :=
  ⟨nofun, nofun, fun _ _ => rfl, fun _ => .nil, nofun, nofun⟩

theorem isSound_attach_root {e : Element} (hworded : e.IsWorded) :
    (empty.attach e none).IsSound := by
  have hparent : ∀ i, (empty.attach e none).parent? i = none := by
    intro i
    rw [parent?, get?_attach_root]
    split <;> rfl
  have hchildren : ∀ i, (empty.attach e none).children i = [] := by
    intro i
    rw [children, get?_attach_root]
    split <;> rfl
  refine ⟨fun i hi => ?_, fun i p h => ?_, fun i j => ?_, fun i => ?_, fun i x hx => ?_,
    fun i x hx _ => ?_⟩
  · have hzero : i = 0 := Nat.lt_one_iff.mp hi
    simp [hparent, hzero]
  · rw [hparent] at h
    cases h
  · rw [hchildren, hparent]
    rfl
  · rw [hchildren]
    exact .nil
  · rw [get?_attach_root] at hx
    split at hx
    · cases hx
      exact hworded
    · cases hx
  · rw [← children_of_get? hx]
    exact hchildren i

theorem IsSound.mem_children_iff (h : d.IsSound) {i j : Nat} :
    j ∈ d.children i ↔ d.parent? j = some i := by
  rw [← List.count_pos_iff, h.linked i j]
  split
  · simpa
  · simpa

theorem IsSound.lt_of_mem_children (h : d.IsSound) {i j : Nat} (hj : j ∈ d.children i) :
    d.parent? j = some i ∧ i < j ∧ j < d.size := by
  have hparent := h.mem_children_iff.mp hj
  exact ⟨hparent, h.earlier j i hparent, lt_of_parent? hparent⟩

theorem parent?_eq_none_of_size_le {i : Nat} (h : d.size ≤ i) : d.parent? i = none := by
  rw [parent?, get?, Array.getElem?_eq_none h]
  rfl

/-- Only the new number is new, and only below its parent. -/
theorem IsSound.linked_attach (h : d.IsSound) (hp : p < d.size) (e : Element) (i j : Nat) :
    ((d.attach e (some p)).children i).count j =
      if (d.attach e (some p)).parent? j = some i then 1 else 0 := by
  have hlast : d.parent? d.size = none := parent?_eq_none_of_size_le (Nat.le_refl _)
  have hold := h.linked i j
  rw [children_attach hp, parent?_attach]
  by_cases hj : j = d.size
  · rw [hj, hlast] at hold
    by_cases hi : i = p
    · rw [if_pos hi, if_pos hj, hj, List.count_append, hold, hi]
      simp
    · simpa [hi, hj, Ne.symm hi] using hold
  · by_cases hi : i = p
    · rw [if_pos hi, if_neg hj, List.count_append, hold, List.count_singleton]
      simp [Ne.symm hj]
    · rw [if_neg hi, if_neg hj, hold]

theorem IsSound.attach (h : d.IsSound) {e : Element} {x : Entry} (hx : d.get? p = some x)
    (hholds : x.kind ≠ .text) (hworded : e.IsWorded) : (d.attach e (some p)).IsSound := by
  have hp : p < d.size := (Array.getElem?_eq_some_iff.mp hx).1
  constructor
  case root =>
    intro i hi
    rw [size_attach] at hi
    rw [parent?_attach]
    split
    · simp
      omega
    · exact h.root i (by omega)
  case earlier =>
    intro i q hq
    rw [parent?_attach] at hq
    split at hq
    · cases hq
      omega
    · exact h.earlier i q hq
  case linked => exact h.linked_attach hp e
  case ascending =>
    intro i
    rw [children_attach hp]
    split
    · rw [List.pairwise_append]
      refine ⟨h.ascending i, List.pairwise_singleton _ _, fun j hj k hk => ?_⟩
      rw [List.mem_singleton.mp hk]
      exact (h.lt_of_mem_children hj).2.2
    · exact h.ascending i
  case worded =>
    intro i y hy
    rw [get?_attach] at hy
    split at hy
    · cases hy
      exact hworded
    · obtain ⟨y', hy', rfl⟩ := Option.map_eq_some_iff.mp hy
      split <;> exact h.worded i y' hy'
  case bare =>
    intro i y hy hkind
    rw [get?_attach] at hy
    split at hy
    · cases hy
      rfl
    · obtain ⟨y', hy', rfl⟩ := Option.map_eq_some_iff.mp hy
      split at hkind
      · next hi =>
        -- the parent of the new element is no text
        rw [hi, hx] at hy'
        cases hy'
        exact absurd hkind hholds
      · next hi =>
        rw [if_neg hi]
        exact h.bare i y' hy' hkind

theorem Joins.isSound {d' : Document} (hjoins : d.Joins d') (h : d.IsSound) : d'.IsSound := by
  cases hjoins with
  | root first _ worded =>
    subst first
    exact isSound_attach_root worded
  | inner here holds worded => exact h.attach here holds worded

/-- Documents that come from the empty one step by step are sound. -/
theorem isSound_of_isChain {ds : List Document} (h : (empty :: ds).IsChain Joins) :
    ∀ d ∈ empty :: ds, d.IsSound :=
  h.induction IsSound _ (fun _ _ hjoins => hjoins.isSound) fun _ => isSound_empty

end Document
end ChatForms
