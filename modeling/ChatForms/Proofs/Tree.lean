import ChatForms.Tree

namespace ChatForms.Tree

/-- What is handed on from the children to every element holds of all trees. -/
theorem induction {motive : Tree → Prop}
    (node : ∀ e ts, (∀ t ∈ ts, motive t) → motive (node e ts)) (t : Tree) : motive t := by
  match t with
  | .node e ts =>
    refine node e ts fun t ht => ?_
    have := List.sizeOf_lt_of_mem ht
    exact induction node t

/-- What is handed on to trees from those inside the first one and from those behind it holds of all
trees that stand side by side. -/
theorem forest_induction {motive : List Tree → Prop} (nil : motive [])
    (cons : ∀ e ts us, motive ts → motive us → motive (node e ts :: us)) (ts : List Tree) :
    motive ts := by
  match ts with
  | [] => exact nil
  | .node e inside :: others =>
    exact cons e inside others (forest_induction nil cons inside)
      (forest_induction nil cons others)

mutual
/-- The tree itself and the trees below it, in the order in which they begin. -/
def subtrees : Tree → List Tree
  | node e ts => node e ts :: subtreesOf ts
def subtreesOf : List Tree → List Tree
  | [] => []
  | t :: ts => t.subtrees ++ subtreesOf ts
end

def size (t : Tree) : Nat := t.subtrees.length

theorem mem_subtreesOf {s : Tree} {ts : List Tree} :
    s ∈ subtreesOf ts ↔ ∃ t ∈ ts, s ∈ t.subtrees := by
  induction ts with
  | nil => simp [subtreesOf]
  | cons t ts ih => simp [subtreesOf, ih]

/-- The texts of a tree, in the order of their elements. -/
def texts (t : Tree) : List String := t.subtrees.filterMap fun s => s.element.text

def textsOf (ts : List Tree) : List String := (subtreesOf ts).filterMap fun s => s.element.text

theorem textsOf_cons (t : Tree) (ts : List Tree) : textsOf (t :: ts) = t.texts ++ textsOf ts := by
  rw [textsOf, subtreesOf, List.filterMap_append]
  rfl

theorem texts_node (e : Element) (ts : List Tree) :
    (node e ts).texts = e.text.toList ++ textsOf ts := by
  rw [texts, subtrees, List.filterMap_cons, element]
  cases e.text <;> rfl

/-- A property holds of a tree and of every tree below it. -/
def All (P : Tree → Prop) (t : Tree) : Prop := ∀ s ∈ t.subtrees, P s

theorem all_node {P : Tree → Prop} {e : Element} {ts : List Tree} :
    All P (node e ts) ↔ P (node e ts) ∧ ∀ t ∈ ts, All P t := by
  simp only [All, subtrees, List.forall_mem_cons, mem_subtreesOf]
  constructor
  · rintro ⟨self, inside⟩
    exact ⟨self, fun t ht s hs => inside s ⟨t, ht, hs⟩⟩
  · rintro ⟨self, inside⟩
    exact ⟨self, fun s ⟨t, ht, hs⟩ => inside t ht s hs⟩

theorem all_self {P : Tree → Prop} {t : Tree} (h : t.All P) : P t := by
  cases t
  exact (all_node.mp h).1

theorem All.imp {P Q : Tree → Prop} {t : Tree} (h : ∀ s, P s → Q s) (ht : All P t) : All Q t :=
  fun s hs => h s (ht s hs)

/-- Every element is replaced. -/
def map (f : Element → Element) : Tree → Tree
  | node e ts => node (f e) (ts.map (map f))

theorem subtrees_map (f : Element → Element) (t : Tree) :
    (t.map f).subtrees = t.subtrees.map (map f) := by
  induction t using Tree.induction with
  | node e ts ih =>
    have hts : subtreesOf (ts.map (map f)) = (subtreesOf ts).map (map f) := by
      induction ts with
      | nil => rfl
      | cons t ts iht =>
        obtain ⟨ht, hts⟩ := List.forall_mem_cons.mp ih
        rw [List.map_cons, subtreesOf, subtreesOf, List.map_append, ht, iht hts]
    rw [map, subtrees, subtrees, hts, List.map_cons, map]

theorem size_map (f : Element → Element) (t : Tree) : (t.map f).size = t.size := by
  rw [size, subtrees_map, List.length_map, size]

@[simp] theorem element_map (f : Element → Element) (t : Tree) :
    (t.map f).element = f t.element := by
  cases t
  simp [map, element]

@[simp] theorem children_map (f : Element → Element) (t : Tree) :
    (t.map f).children = t.children.map (map f) := by
  cases t
  simp [map, children]

theorem map_map (f g : Element → Element) (t : Tree) : (t.map g).map f = t.map (f ∘ g) := by
  induction t using Tree.induction with
  | node e ts ih =>
    simp only [map, List.map_map, node.injEq, Function.comp_apply, true_and]
    exact List.map_congr_left ih

theorem map_eq_map_iff {f g : Element → Element} {t : Tree} :
    t.map f = t.map g ↔ t.All fun s => f s.element = g s.element := by
  induction t using Tree.induction with
  | node e ts ih =>
    rw [map, map, node.injEq, List.map_inj_left, all_node, element]
    exact and_congr_right fun _ => forall₂_congr ih

theorem all_map {P : Element → Prop} {f : Element → Element} {t : Tree} :
    ((t.map f).All fun s => P s.element) ↔ t.All fun s => P (f s.element) := by
  simp only [All, subtrees_map, List.forall_mem_map, element_map]

theorem map_eq_self {f : Element → Element} {t : Tree}
    (h : t.All fun s => f s.element = s.element) : t.map f = t := by
  induction t using Tree.induction with
  | node e ts ih =>
    obtain ⟨self, inside⟩ := all_node.mp h
    have hts : ts.map (map f) = ts.map id := List.map_congr_left fun t ht => ih t ht (inside t ht)
    rw [map, hts, List.map_id]
    simpa [element] using self

/-- How the elements of a tree were written is forgotten. -/
def forget (t : Tree) : Tree := t.map Element.forgetOrigin

theorem forget_node (e : Element) (ts : List Tree) :
    (node e ts).forget = node e.forgetOrigin (ts.map forget) := by
  rw [forget, map]
  rfl

theorem element_forget (t : Tree) : t.forget.element = t.element.forgetOrigin :=
  element_map Element.forgetOrigin t

theorem forget_forget (t : Tree) : t.forget.forget = t.forget :=
  map_map Element.forgetOrigin Element.forgetOrigin t

end ChatForms.Tree
