import ChatForms.Proofs.Document.Soundness

namespace ChatForms.Document

variable {d : Document}

/-! ### What can be asked of a document whose links fit -/

theorem IsSound.isLinked (h : d.IsSound) : d.Linked := by
  intro i e he p hp
  exact h.earlier i p (by simp [parent?, he, hp])

/-- The way up from an element: parent after parent, with ever smaller numbers, to the root. -/
structure IsWayUp (d : Document) (i : Nat) (way : List Nat) : Prop where
  first : way.head? = some i
  step : way.IsChain fun j p => d.parent? j = some p
  falling : way.Pairwise (· > ·)
  last : way.getLast? = some 0
  inside : ∀ j ∈ way, j < d.size

theorem IsSound.isWayUp_lineage (h : d.IsSound) {i : Nat} (hi : i < d.size) :
    d.IsWayUp i (d.lineage (some i)) := by
  induction i using Nat.strongRecOn with
  | ind i ih =>
    rw [lineage_some h.isLinked hi]
    cases hparent : d.parent? i with
    | none =>
      obtain rfl : i = 0 := (h.root i hi).mp hparent
      rw [lineage_none]
      exact ⟨rfl, .singleton _, List.pairwise_singleton _ _, rfl, by simpa using hi⟩
    | some p =>
      have hp := h.earlier i p hparent
      obtain ⟨hfirst, hstep, hfalling, hlast, hinside⟩ := ih p hp (by omega)
      generalize d.lineage (some p) = way at *
      cases way with
      | nil => cases hfirst
      | cons q way =>
        cases hfirst
        refine ⟨rfl, .cons_cons hparent hstep, ?_, by simpa using hlast, ?_⟩
        · refine List.pairwise_cons.mpr ⟨fun j hj => ?_, hfalling⟩
          rcases List.mem_cons.mp hj with rfl | hj
          · exact hp
          · exact Nat.lt_trans ((List.pairwise_cons.mp hfalling).1 j hj) hp
        · exact List.forall_mem_cons.mpr ⟨hi, hinside⟩

/-- The trees that are put together for later entries are the same wherever one begins. -/
theorem getElem?_treesFrom {start : Nat} {es : List Entry} {i : Nat} {e : Entry}
    (he : es[i]? = some e) (hlater : ∀ c ∈ e.children, start + i < c) :
    (treesFrom start es)[i]? = some (.node e.toElement
      (e.children.filterMap fun c => (treesFrom start es)[c - start]?)) := by
  induction es generalizing start i with
  | nil => cases he
  | cons x es ih =>
    have hskip : ∀ c ∈ e.children,
        (treesFrom start (x :: es))[c - start]? = (treesFrom (start + 1) es)[c - (start + 1)]? := by
      intro c hc
      have hlt := hlater c hc
      obtain ⟨k, hk⟩ : ∃ k, c - start = k + 1 := ⟨c - start - 1, by omega⟩
      rw [hk, treesFrom, List.getElem?_cons_succ]
      congr 1
      omega
    rw [List.filterMap_congr hskip]
    cases i with
    | zero =>
      cases he
      rw [treesFrom, List.getElem?_cons_zero]
    | succ i =>
      rw [treesFrom, List.getElem?_cons_succ]
      exact ih he fun c hc => by have := hlater c hc; omega

theorem IsSound.subtree?_eq (h : d.IsSound) {i : Nat} {e : Entry} (he : d.get? i = some e) :
    d.subtree? i = some (.node e.toElement (e.children.filterMap d.subtree?)) := by
  have hentry : d.entries.toList[i]? = some e := by rwa [Array.getElem?_toList]
  have hlater : ∀ c ∈ e.children, 0 + i < c := by
    intro c hc
    rw [Nat.zero_add]
    exact (h.lt_of_mem_children (children_of_get? he ▸ hc)).2.1
  rw [subtree?, getElem?_treesFrom hentry hlater]
  simp only [Nat.sub_zero]
  rfl

theorem IsSound.isSome_subtree? (h : d.IsSound) {i : Nat} (hi : i < d.size) :
    (d.subtree? i).isSome := by
  obtain ⟨e, he, -⟩ := get?_of_lt hi
  rw [h.subtree?_eq he]
  rfl

theorem textContents_filterMap {cs : List Nat} (hcs : ∀ c ∈ cs, (d.subtree? c).isSome) :
    Tree.textContents (cs.filterMap d.subtree?) = String.join (cs.map d.textContent) := by
  induction cs with
  | nil => simp [Tree.textContents]
  | cons c cs ih =>
    obtain ⟨hc, hcs⟩ := List.forall_mem_cons.mp hcs
    obtain ⟨t, ht⟩ := Option.isSome_iff_exists.mp hc
    rw [List.filterMap_cons_some ht, Tree.textContents, ih hcs, List.map_cons, textContent, ht]
    simp

/-- Texts of children are gathered without any child being passed over. -/
theorem IsSound.textContent_eq (h : d.IsSound) {i : Nat} {e : Entry} (he : d.get? i = some e) :
    d.textContent i = e.text.getD (String.join (e.children.map d.textContent)) := by
  have hfound : ∀ c ∈ e.children, (d.subtree? c).isSome := by
    intro c hc
    apply h.isSome_subtree?
    exact (h.lt_of_mem_children (children_of_get? he ▸ hc)).2.2
  rw [textContent, h.subtree?_eq he, Option.map_some, Option.getD_some, Tree.textContent,
    textContents_filterMap hfound]

/-! ### The final order -/

/-- How many elements there are in the tree below an element, the element included. -/
def extent (d : Document) (i : Nat) : Nat := ((d.subtree? i).map Tree.size).getD 0

/-- The tree below an element has the numbers from that of the element on. Its first child follows
it at once, and each other child follows the tree of the one before. -/
structure IsPreordered (d : Document) : Prop where
  first : ∀ i j, (d.children i).head? = some j → j = i + 1
  next : ∀ i, (d.children i).IsChain fun j k => k = j + d.extent j
  within : ∀ i k, k < d.size → (i ∈ d.lineage (some k) ↔ i ≤ k ∧ k < i + d.extent i)

section
open ChatForms.Tree
variable {parent : Option Nat} {start : Nat} {ts : List Tree}

theorem Carries.map_subtree? (hd : d.IsSound) (h : d.Carries parent start ts) :
    (childNumbers start ts).map d.subtree? = ts.map some := by
  induction h with
  | nil => rfl
  | @cons parent start e ts us here _ _ ihInside ihOthers =>
    have hinside : (childNumbers (start + 1) ts).filterMap d.subtree? = ts := by
      have hmap := congrArg (List.filterMap id) ihInside
      simpa only [List.filterMap_map, Function.id_comp, List.filterMap_some] using hmap
    rw [childNumbers, List.map_cons, List.map_cons, ihOthers, hd.subtree?_eq here, hinside]

theorem Carries.extent_eq (hd : d.IsSound) {e : Element} {us : List Tree}
    (h : d.Carries parent start (node e ts :: us)) : d.extent start = (node e ts).size := by
  have hsubtree := List.cons.inj (h.map_subtree? hd)
  rw [extent, hsubtree.1]
  rfl

theorem Carries.isChain_childNumbers (hd : d.IsSound) (h : d.Carries parent start ts) :
    (childNumbers start ts).IsChain fun j k => k = j + d.extent j := by
  induction h with
  | nil => exact .nil
  | @cons parent start e ts us here inside others _ ih =>
    have hextent := (Carries.cons here inside others).extent_eq hd
    rw [childNumbers]
    cases others with
    | nil => exact .singleton _
    | cons _ _ _ => exact .cons_cons (by rw [hextent]) ih

theorem numbers_childNumbers {i : Nat} (h : i ∈ childNumbers start ts) : Numbers start ts i := by
  induction ts generalizing start with
  | nil => cases h
  | cons t ts ih =>
    obtain ⟨e, us⟩ := t
    rw [numbers_cons]
    rcases List.mem_cons.mp h with rfl | h
    · exact Or.inl rfl
    · exact Or.inr (Or.inr (ih h))

/-- Children stay among the numbers of the trees that their parent belongs to. -/
theorem Carries.numbers_of_mem_children (h : d.Carries parent start ts) {i j : Nat}
    (hi : Numbers start ts i) (hj : j ∈ d.children i) : Numbers start ts j := by
  induction h with
  | nil => exact absurd hi not_numbers_nil
  | cons here inside others ihInside ihOthers =>
    rw [numbers_cons] at hi ⊢
    rcases hi with rfl | hi | hi
    · rw [(Carries.cons here inside others).children_eq] at hj
      exact Or.inr (Or.inl (numbers_childNumbers hj))
    · exact Or.inr (Or.inl (ihInside hi))
    · exact Or.inr (Or.inr (ihOthers hi))

/-- Inside a tree, only the first element has its parent elsewhere. -/
theorem Carries.numbers_parent {e : Element} {i k p : Nat} (h : d.Carries parent i [node e ts])
    (hk : Numbers i [node e ts] k) (hparent : d.parent? k = some p) :
    i = k ∨ Numbers i [node e ts] p := by
  cases h with
  | cons _ inside _ =>
    rw [numbers_cons] at hk ⊢
    rcases hk with rfl | hk | hnil
    · exact Or.inl rfl
    · refine Or.inr ?_
      rcases inside.parent?_cases hk with hroot | ⟨q, hq, hlink, -⟩
      · have hself := inside.parent?_childNumbers k hroot
        exact Or.inl (Option.some.inj (hparent.symm.trans hself))
      · have heq : q = p := Option.some.inj (hlink.symm.trans hparent)
        exact Or.inr (Or.inl (heq ▸ hq))
    · exact absurd hnil not_numbers_nil

/-- The elements with a given one on their way up are those of its tree. -/
theorem Carries.mem_lineage_iff (hd : d.IsSound) {e : Element} {i : Nat}
    (h : d.Carries parent i [node e ts]) {k : Nat} (hk : k < d.size) :
    i ∈ d.lineage (some k) ↔ Numbers i [node e ts] k := by
  induction k using Nat.strongRecOn with
  | ind k ih =>
    rw [lineage_some hd.isLinked hk, List.mem_cons]
    cases hparent : d.parent? k with
    | none =>
      obtain rfl : k = 0 := (hd.root k hk).mp hparent
      rw [lineage_none]
      constructor
      · rintro (rfl | hnil)
        · exact numbers_cons.mpr (Or.inl rfl)
        · cases hnil
      · intro hnumbers
        exact Or.inl (Nat.le_zero.mp hnumbers.1)
    | some p =>
      have hp := hd.earlier k p hparent
      rw [ih p hp (by omega)]
      constructor
      · rintro (rfl | hnumbers)
        · exact numbers_cons.mpr (Or.inl rfl)
        · exact h.numbers_of_mem_children hnumbers (hd.mem_children_iff.mpr hparent)
      · intro hnumbers
        exact h.numbers_parent hnumbers hparent

theorem exists_carries_at {t : Tree} {i : Nat} (hi : i < (ofTree t).size) :
    ∃ parent e ts, (ofTree t).Carries parent i [node e ts] := by
  obtain ⟨parent, e, ts, _, h⟩ := (carries_ofTree t).exists_at (numbers_ofTree.mpr hi)
  cases h with
  | cons here inside _ => exact ⟨parent, e, ts, .cons here inside .nil⟩

/-- The numbers of a document of a tree are those of its final order. -/
theorem IsSound.isPreordered {t : Tree} (hd : (ofTree t).IsSound) : (ofTree t).IsPreordered := by
  have hinside : ∀ i, ∃ ts, (ofTree t).children i = childNumbers (i + 1) ts ∧
      (ofTree t).Carries (some i) (i + 1) ts := by
    intro i
    by_cases hi : i < (ofTree t).size
    · obtain ⟨_, _, ts, h⟩ := exists_carries_at hi
      cases h with
      | cons here inside _ => exact ⟨ts, (Carries.cons here inside .nil).children_eq, inside⟩
    · exact ⟨[], children_of_size_le (Nat.le_of_not_lt hi), .nil⟩
  refine ⟨fun i j hj => ?_, fun i => ?_, fun i k hk => ?_⟩
  · obtain ⟨ts, hchildren, -⟩ := hinside i
    rw [hchildren] at hj
    cases ts with
    | nil => cases hj
    | cons t ts => exact (Option.some.inj hj).symm
  · obtain ⟨ts, hchildren, h⟩ := hinside i
    rw [hchildren]
    exact h.isChain_childNumbers hd
  · by_cases hi : i < (ofTree t).size
    · obtain ⟨_, e, ts, h⟩ := exists_carries_at hi
      have hextent : (subtreesOf [node e ts]).length = (ofTree t).extent i := by
        rw [h.extent_eq hd, subtreesOf, subtreesOf, List.append_nil, Tree.size]
      rw [h.mem_lineage_iff hd hk, Numbers, hextent]
    · constructor
      · intro hmem
        exact absurd ((hd.isWayUp_lineage hk).inside i hmem) hi
      · rintro ⟨hle, -⟩
        omega

end

end ChatForms.Document
