import ChatForms.Proofs.Build.Requirements
import ChatForms.Proofs.Build.Stages
import ChatForms.Proofs.Build.Wording
import Mathlib.Data.List.Sort
import Mathlib.Order.Interval.Finset.Nat

namespace ChatForms

/-- Every tree inside a valid one is valid below the elements around it. -/
theorem Tree.Valid.all_valid {rules : Containment} {above : List Kind} {t : Tree}
    (h : t.Valid rules above) : t.All fun s => ∃ above, s.Valid rules above := by
  induction h with
  | node fits inside ih => exact all_node.mpr ⟨⟨_, .node fits inside⟩, ih⟩

namespace Document
open ChatForms.Tree

/-- The numbers of the tree below an element, the element included. -/
def span (d : Document) (i : Nat) : Finset Nat := Finset.Ico i (i + d.extent i)

/-- The numbers of the elements that name an element as their parent. -/
def below (d : Document) (i : Nat) : List Nat :=
  (List.range d.size).filter fun j => d.parent? j = some i

/-- The texts of some elements, in the order in which they are named. -/
def textsAt (d : Document) (numbers : List Nat) : List String :=
  numbers.filterMap fun i => d.get? i >>= (·.text)

theorem mem_span {d : Document} {i j : Nat} : j ∈ d.span i ↔ i ≤ j ∧ j < i + d.extent i :=
  Finset.mem_Ico

/-! ### Children -/

section
variable {d : Document}

theorem IsSound.children_eq (h : d.IsSound) (i : Nat) : d.children i = d.below i := by
  have hbelow : (d.below i).Pairwise (· < ·) := List.pairwise_lt_range.filter _
  refine (h.ascending i).eq_of_mem_iff hbelow fun j => ?_
  rw [h.mem_children_iff, below, List.mem_filter, List.mem_range, decide_eq_true_eq]
  exact ⟨fun hparent => ⟨lt_of_parent? hparent, hparent⟩, And.right⟩

theorem IsSound.isSome_child? (h : d.IsSound) (i n : Nat) :
    (d.child? i n).isSome ↔ n < (d.children i).length := by
  rw [child?]
  constructor
  · intro hsome
    by_contra hle
    rw [List.getElem?_eq_none (Nat.le_of_not_lt hle)] at hsome
    cases hsome
  · intro hn
    have hlt := (h.lt_of_mem_children (List.getElem_mem hn)).2.2
    obtain ⟨e, he, -⟩ := get?_of_lt hlt
    rw [List.getElem?_eq_getElem hn]
    exact Option.isSome_of_eq_some he

/-! ### Ways up -/

theorem IsSound.lineage_eq (h : d.IsSound) {i : Nat} (hi : i < d.size) :
    d.lineage (some i) = i :: d.ancestors i :=
  lineage_some h.isLinked hi

/-- The way up from an element on the way is the rest of the way. -/
theorem IsSound.lineage_suffix (h : d.IsSound) {i k : Nat} (hk : k < d.size)
    (hi : i ∈ d.lineage (some k)) : d.lineage (some i) <:+ d.lineage (some k) := by
  induction k using Nat.strongRecOn with
  | ind k ih =>
    have hlineage := h.lineage_eq hk
    rw [hlineage] at hi ⊢
    rcases List.mem_cons.mp hi with rfl | hi
    · rw [hlineage]
    · rw [ancestors] at hi ⊢
      cases hparent : d.parent? k with
      | none =>
        rw [hparent, lineage_none] at hi
        cases hi
      | some p =>
        have hlt := h.earlier k p hparent
        rw [hparent] at hi
        exact (ih p hlt (Nat.lt_trans hlt hk) hi).trans (List.suffix_cons k _)

/-- No form has a form around it. -/
theorem IsValid.form_not_mem_ancestors {rules : Containment} (h : d.IsValid rules) {i j : Nat}
    {e f : Entry} (hi : d.get? i = some e) (hj : d.get? j = some f) (he : e.kind = .form)
    (hf : f.kind = .form) : i ∉ d.ancestors j := by
  intro hmem
  have hstands : Kind.form ∉ d.lineageKinds f.parent := by
    have hstands := (h j f hj).2.stands
    rwa [hf] at hstands
  have hparent : d.parent? j = f.parent := by simp [parent?, hj]
  rw [ancestors, hparent] at hmem
  exact hstands (List.mem_filterMap.mpr ⟨i, hmem, by simp [hi, he]⟩)

/-! ### Trees and their numbers -/

theorem Carries.lt_size {parent : Option Nat} {start : Nat} {ts : List Tree}
    (h : d.Carries parent start ts) {i : Nat} (hi : Numbers start ts i) : i < d.size := by
  obtain ⟨_, _, _, _, hat⟩ := h.exists_at hi
  cases hat with
  | cons here _ _ => exact (Array.getElem?_eq_some_iff.mp here).1

theorem Carries.textsAt_eq {parent : Option Nat} {start : Nat} {ts : List Tree}
    (h : d.Carries parent start ts) :
    d.textsAt (List.range' start (subtreesOf ts).length) = textsOf ts := by
  induction h with
  | nil => rfl
  | cons here _ _ ihInside ihOthers =>
    rw [textsAt] at ihInside ihOthers ⊢
    rw [range'_cons, List.filterMap_cons, List.filterMap_append, ihInside, ihOthers, here,
      textsOf_cons, texts_node]
    simp only [Option.bind_eq_bind, Option.bind_some]
    split <;> simp_all

end

variable {t : Tree} {i j : Nat}

theorem IsSound.span_subset_range (h : (ofTree t).IsSound) (hi : i < (ofTree t).size) :
    (ofTree t).span i ⊆ .range (ofTree t).size := by
  obtain ⟨_, e, ts, hat⟩ := exists_carries_at hi
  intro k hk
  rw [mem_span, hat.extent_eq h] at hk
  refine Finset.mem_range.mpr (hat.lt_size ⟨hk.1, ?_⟩)
  simpa [subtreesOf, Tree.size] using hk.2

/-- The numbers of a tree inside another one are among the numbers of that one. -/
theorem IsSound.span_subset (h : (ofTree t).IsSound) (hj : j < (ofTree t).size)
    (hmem : j ∈ (ofTree t).span i) : (ofTree t).span j ⊆ (ofTree t).span i := by
  have hwithin := h.isPreordered.within
  intro k hk
  have hlt : k < (ofTree t).size := Finset.mem_range.mp (h.span_subset_range hj hk)
  have hupper : j ∈ (ofTree t).lineage (some k) := (hwithin j k hlt).mpr (mem_span.mp hk)
  have hrest : i ∈ (ofTree t).lineage (some j) := (hwithin i j hj).mpr (mem_span.mp hmem)
  exact mem_span.mpr ((hwithin i k hlt).mp ((h.lineage_suffix hlt hupper).subset hrest))

/-- What is said below an element is what the texts among its numbers say. -/
theorem IsSound.textContent_eq_join (h : (ofTree t).IsSound) {rules : Containment}
    {above : List Kind} (ht : t.Valid rules above) (hi : i < (ofTree t).size) :
    (ofTree t).textContent i =
      String.join ((ofTree t).textsAt (List.range' i ((ofTree t).extent i))) := by
  obtain ⟨_, e, ts, hat⟩ := exists_carries_at hi
  have hsubtree : (ofTree t).subtree? i = some (node e ts) :=
    (List.cons.inj (hat.map_subtree? h)).1
  obtain ⟨_, hvalid⟩ := ht.all_valid _ (List.mem_of_getElem? (subtree?_ofTree t i ▸ hsubtree))
  have htexts := hat.textsAt_eq
  rw [textsOf_cons, subtreesOf, subtreesOf, List.append_nil, ← Tree.size] at htexts
  rw [textContent, hsubtree, hat.extent_eq h, htexts]
  simpa [textsOf, subtreesOf] using hvalid.textContent_eq

theorem IsSound.nested_or_disjoint (h : (ofTree t).IsSound) (hi : i < (ofTree t).size)
    (hj : j < (ofTree t).size) :
    (ofTree t).span i ⊆ (ofTree t).span j ∨ (ofTree t).span j ⊆ (ofTree t).span i ∨
      Disjoint ((ofTree t).span i) ((ofTree t).span j) := by
  by_cases hmem : i ∈ (ofTree t).span j
  · exact Or.inl (h.span_subset hi hmem)
  · by_cases hmem' : j ∈ (ofTree t).span i
    · exact Or.inr (Or.inl (h.span_subset hj hmem'))
    · refine Or.inr (Or.inr (Finset.disjoint_left.mpr fun k hk hk' => ?_))
      -- of two intervals with a common number, the later one begins inside the other
      rw [mem_span] at hmem hmem' hk hk'
      omega

/-- What can be asked of a document fits the intervals of numbers that its trees have. The elements
around an element are those whose intervals hold it, what is said below an element is what the texts
in its interval say, and its children are the elements that name it as their parent. So two trees
are nested or apart, and no form is inside another. -/
theorem intervals_of_build {rules : Containment} {m : Markup} {d : Document}
    (h : build rules m = .ok d) :
    (∀ i < d.size, ∀ j < d.size, i ∈ d.lineage (some j) ↔ j ∈ d.span i) ∧
      (∀ j < d.size, d.lineage (some j) = j :: d.ancestors j ∧
        d.IsWayUp j (d.lineage (some j))) ∧
      (∀ i < d.size, d.textContent i = String.join (d.textsAt (List.range' i (d.extent i)))) ∧
      (∀ i < d.size, d.children i = d.below i ∧ ∀ n,
        d.child? i n = (d.below i)[n]? >>= d.get? ∧
          ((d.child? i n).isSome ↔ n < (d.below i).length)) ∧
      (∀ i < d.size, ∀ j < d.size,
        d.span i ⊆ d.span j ∨ d.span j ⊆ d.span i ∨ Disjoint (d.span i) (d.span j)) ∧
      ∀ i j e f, d.get? i = some e → d.get? j = some f → e.kind = .form → f.kind = .form →
        i ≠ j → j ∉ d.span i := by
  have hsound := isSound_of_build rules h
  obtain ⟨t, ht, rfl⟩ := build_eq_ok.mp h
  have hvalid : (ofTree t).IsValid rules := isValid_ofTree_iff.mpr (valid_of_ofRoot ht)
  have hway : ∀ i, ∀ j < (ofTree t).size,
      i ∈ (ofTree t).lineage (some j) ↔ j ∈ (ofTree t).span i := by
    intro i j hj
    rw [hsound.isPreordered.within i j hj, mem_span]
  refine ⟨fun i _ => hway i, fun j hj => ⟨hsound.lineage_eq hj, hsound.isWayUp_lineage hj⟩,
    fun i hi => hsound.textContent_eq_join (valid_of_ofRoot ht).1 hi, fun i _ => ?_,
    fun i hi j hj => hsound.nested_or_disjoint hi hj, fun i j e f hi hj he hf hne hmem => ?_⟩
  · have hchildren := hsound.children_eq i
    exact ⟨hchildren, fun n => ⟨by rw [child?, hchildren], hchildren ▸ hsound.isSome_child? i n⟩⟩
  · have hlt : j < (ofTree t).size := (Array.getElem?_eq_some_iff.mp hj).1
    have hup := (hway i j hlt).mpr hmem
    rw [hsound.lineage_eq hlt] at hup
    rcases List.mem_cons.mp hup with heq | hup
    · exact hne heq
    · exact hvalid.form_not_mem_ancestors hi hj he hf hup

/-- Two forms side by side, one of them with a button. -/
def twoForms : Markup :=
  .element "messageML" [] [.element "form" [("id", "f")]
    [.text "Sure?", .element "button" [("name", "yes")] [.text "Yes"]],
    .element "form" [("id", "g")] []]

theorem intervals_of_build_twoForms :
    ∃ d, build .standard twoForms = .ok d ∧ (1 ∈ d.lineage (some 4) ↔ 4 ∈ d.span 1) ∧
      4 ∈ d.span 1 ∧ d.children 1 = d.below 1 ∧ d.below 1 = [2, 3] ∧
      d.textContent 1 = String.join (d.textsAt (List.range' 1 (d.extent 1))) ∧
      d.textContent 1 = "Sure?Yes" ∧ 5 ∉ d.span 1 := by
  obtain ⟨d, hd⟩ : ∃ d, build .standard twoForms = .ok d := ⟨_, by rfl⟩
  have hshape : (build .standard twoForms).toOption.map
      (fun d => (d.size, d.extent 1, d.below 1, d.textContent 1)) =
      some (6, 4, [2, 3], "Sure?Yes") := by decide +kernel
  have hkinds : (build .standard twoForms).toOption.map
      (fun d => ((d.get? 1).map fun e => e.kind, (d.get? 5).map fun e => e.kind)) =
      some (some .form, some .form) := by decide +kernel
  rw [hd] at hshape hkinds
  simp only [Except.toOption, Option.map_some, Option.some.injEq, Prod.mk.injEq] at hshape hkinds
  obtain ⟨hsize, hextent, hbelow, hcontent⟩ := hshape
  obtain ⟨⟨e, he, hform⟩, f, hf, hform'⟩ := hkinds.imp Option.map_eq_some_iff.mp
    Option.map_eq_some_iff.mp
  obtain ⟨hway, -, htexts, hchildren, -, hforms⟩ := intervals_of_build hd
  refine ⟨d, hd, hway 1 (by omega) 4 (by omega), ?_, (hchildren 1 (by omega)).1, hbelow,
    htexts 1 (by omega), hcontent, hforms 1 5 e f he hf hform hform' (by decide)⟩
  rw [mem_span, hextent]
  decide

end Document
end ChatForms
