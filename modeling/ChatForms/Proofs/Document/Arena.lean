import ChatForms.Document
import ChatForms.Proofs.Tree

namespace ChatForms

namespace Tree

/-- The numbers of trees that are written down one after the other. -/
def childNumbers (start : Nat) : List Tree → List Nat
  | [] => []
  | t :: ts => start :: childNumbers (start + t.size) ts

mutual
/-- The entries of a tree whose first element has the number `start`. -/
def entriesFrom (parent : Option Nat) (start : Nat) : Tree → List Entry
  | node e ts =>
    { e with parent := parent, children := childNumbers (start + 1) ts } ::
      entriesOfAll (some start) (start + 1) ts
def entriesOfAll (parent : Option Nat) (start : Nat) : List Tree → List Entry
  | [] => []
  | t :: ts => entriesFrom parent start t ++ entriesOfAll parent (start + t.size) ts
end

@[simp] theorem size_node (e : Element) (ts : List Tree) :
    (node e ts).size = (subtreesOf ts).length + 1 := by
  simp [size, subtrees]

mutual
theorem map_entriesFrom (parent : Option Nat) (start : Nat) (t : Tree) :
    (entriesFrom parent start t).map Entry.toElement = t.subtrees.map element := by
  match t with
  | node e ts =>
    have hts := map_entriesOfAll (some start) (start + 1) ts
    rw [entriesFrom, subtrees, List.map_cons, List.map_cons, hts, element]
theorem map_entriesOfAll (parent : Option Nat) (start : Nat) (ts : List Tree) :
    (entriesOfAll parent start ts).map Entry.toElement = (subtreesOf ts).map element := by
  match ts with
  | [] => rfl
  | t :: ts =>
    have ht := map_entriesFrom parent start t
    have hts := map_entriesOfAll parent (start + t.size) ts
    rw [entriesOfAll, subtreesOf, List.map_append, List.map_append, ht, hts]
end

theorem length_entriesFrom (parent : Option Nat) (start : Nat) (t : Tree) :
    (entriesFrom parent start t).length = t.size := by
  rw [← List.length_map (f := Entry.toElement), map_entriesFrom, List.length_map, size]

end Tree

/-! ### The tree of a document -/

namespace Document
open ChatForms.Tree

/-- The document of a tree. -/
def ofTree (t : Tree) : Document := ⟨(t.entriesFrom none 0).toArray⟩

theorem subtrees_head (t : Tree) : ∃ ts, t.subtrees = t :: ts := by
  cases t with
  | node e ts => exact ⟨_, by rw [subtrees]⟩

/-- Child numbers lead to the children. -/
theorem filterMap_childNumbers (start : Nat) (before : List Tree) (ts after : List Tree) :
    (childNumbers (start + before.length) ts).filterMap
        (fun c => (before ++ (subtreesOf ts ++ after))[c - start]?) = ts := by
  induction ts generalizing before with
  | nil => rfl
  | cons t ts ih =>
    obtain ⟨below, hbelow⟩ := subtrees_head t
    have hfirst : (before ++ (subtreesOf (t :: ts) ++ after))[start + before.length - start]? =
        some t := by
      rw [Nat.add_sub_cancel_left, List.getElem?_append_right (Nat.le_refl _), Nat.sub_self,
        subtreesOf, hbelow]
      rfl
    have hrest := ih (before ++ t.subtrees)
    rw [List.length_append, ← Nat.add_assoc, List.append_assoc] at hrest
    simp only [childNumbers, List.filterMap_cons, hfirst, List.cons.injEq, true_and]
    rw [subtreesOf, List.append_assoc, Tree.size, hrest]

mutual
theorem treesFrom_entriesFrom (parent : Option Nat) (start : Nat) (t : Tree) (rest : List Entry) :
    treesFrom start (entriesFrom parent start t ++ rest) =
      t.subtrees ++ treesFrom (start + t.size) rest := by
  match t with
  | node e ts =>
    have hlater := treesFrom_entriesOfAll (some start) (start + 1) ts rest
    have hchildren := filterMap_childNumbers (start + 1) [] ts
      (treesFrom (start + 1 + (subtreesOf ts).length) rest)
    rw [List.length_nil, Nat.add_zero, List.nil_append] at hchildren
    have hnext : start + (node e ts).size = start + 1 + (subtreesOf ts).length := by
      rw [size_node]
      omega
    rw [entriesFrom, List.cons_append, treesFrom, hlater, hchildren, subtrees, hnext,
      List.cons_append]
theorem treesFrom_entriesOfAll (parent : Option Nat) (start : Nat) (ts : List Tree)
    (rest : List Entry) :
    treesFrom start (entriesOfAll parent start ts ++ rest) =
      subtreesOf ts ++ treesFrom (start + (subtreesOf ts).length) rest := by
  match ts with
  | [] => rfl
  | t :: ts =>
    rw [entriesOfAll, List.append_assoc, treesFrom_entriesFrom parent start t,
      treesFrom_entriesOfAll parent (start + t.size) ts rest, subtreesOf, List.append_assoc,
      List.length_append, Tree.size, Nat.add_assoc]
end

/-- A tree can be read off its document. -/
@[simp] theorem tree_ofTree (t : Tree) : (ofTree t).tree = t := by
  obtain ⟨below, hbelow⟩ := subtrees_head t
  have htrees := treesFrom_entriesFrom none 0 t []
  rw [List.append_nil] at htrees
  simp [tree, subtree?, ofTree, htrees, hbelow]

theorem map_entries_ofTree (t : Tree) :
    (ofTree t).entries.toList.map Entry.toElement = t.subtrees.map element :=
  map_entriesFrom none 0 t

theorem forall_entries_ofTree {P : Element → Prop} {t : Tree} :
    (∀ e ∈ (ofTree t).entries, P e.toElement) ↔ t.All fun s => P s.element := by
  have hlist : ∀ {xs : List Entry}, (∀ e ∈ xs, P e.toElement) ↔
      ∀ e ∈ xs.map Entry.toElement, P e := by simp
  simp only [← Array.mem_toList_iff, hlist, map_entries_ofTree, All, List.forall_mem_map]

theorem ofTree_inj {s t : Tree} : ofTree s = ofTree t ↔ s = t := by
  refine ⟨fun h => ?_, congrArg ofTree⟩
  rw [← tree_ofTree s, h, tree_ofTree]

/-! ### Replaced elements -/

def mapElements (f : Element → Element) (d : Document) : Document :=
  ⟨d.entries.map fun e => { e with toElement := f e.toElement }⟩

theorem childNumbers_map (f : Element → Element) (start : Nat) (ts : List Tree) :
    childNumbers start (ts.map (Tree.map f)) = childNumbers start ts := by
  induction ts generalizing start with
  | nil => rfl
  | cons t ts ih => rw [List.map_cons, childNumbers, childNumbers, size_map, ih]

mutual
theorem entriesFrom_map (f : Element → Element) (parent : Option Nat) (start : Nat) (t : Tree) :
    entriesFrom parent start (t.map f) =
      (entriesFrom parent start t).map fun e => { e with toElement := f e.toElement } := by
  match t with
  | node e ts =>
    have hts := entriesOfAll_map f (some start) (start + 1) ts
    rw [Tree.map, entriesFrom, entriesFrom, hts, childNumbers_map, List.map_cons]
theorem entriesOfAll_map (f : Element → Element) (parent : Option Nat) (start : Nat)
    (ts : List Tree) :
    entriesOfAll parent start (ts.map (Tree.map f)) =
      (entriesOfAll parent start ts).map fun e => { e with toElement := f e.toElement } := by
  match ts with
  | [] => rfl
  | t :: ts =>
    rw [List.map_cons, entriesOfAll, entriesOfAll, entriesFrom_map f parent start t,
      entriesOfAll_map f parent (start + (t.map f).size) ts, size_map, List.map_append]
end

theorem mapElements_ofTree (f : Element → Element) (t : Tree) :
    (ofTree t).mapElements f = ofTree (t.map f) := by
  rw [mapElements, ofTree, ofTree, entriesFrom_map, List.map_toArray]

theorem forgetOrigin_ofTree (t : Tree) : (ofTree t).forgetOrigin = ofTree t.forget :=
  mapElements_ofTree Element.forgetOrigin t

/-- Documents are the same if their trees are, apart from how elements were written. -/
theorem same_ofTree {s t : Tree} :
    (ofTree s).Same (ofTree t) ↔ s.map Element.forgetOrigin = t.map Element.forgetOrigin := by
  rw [Same, forgetOrigin_ofTree, forgetOrigin_ofTree, ofTree_inj, Tree.forget, Tree.forget]

/-! ### Growth -/

/-- A tree becomes the last one below an element. -/
def graft (parent : Nat) (d : Document) (t : Tree) : Document :=
  ⟨d.entries.modify parent (fun e => { e with children := e.children ++ [d.size] }) ++
    (t.entriesFrom (some parent) d.size).toArray⟩

def graftAll (parent : Nat) (d : Document) (ts : List Tree) : Document :=
  ts.foldl (graft parent) d

theorem attach_eq_graft (d : Document) (e : Element) (parent : Nat) :
    d.attach e (some parent) = d.graft parent (node e []) := by
  simp [attach, graft, entriesFrom, entriesOfAll, childNumbers]

theorem size_graft (parent : Nat) (d : Document) (t : Tree) :
    (d.graft parent t).size = d.size + t.size := by
  simp [graft, size, length_entriesFrom]

theorem modify_append_cons {α : Type} (f : α → α) (xs : List α) (x : α) (ys : List α) :
    (xs ++ x :: ys).modify xs.length f = xs ++ f x :: ys := by
  induction xs with
  | nil => rfl
  | cons a xs ih => simp [List.modify_succ_cons, ih]

theorem ext_toList {d e : Document} (h : d.entries.toList = e.entries.toList) : d = e := by
  cases d
  cases e
  simpa using h

/-- Trees that are grafted one after the other onto an element make up its last children. -/
theorem toList_graftAll {d : Document} {parent : Nat} {before after : List Entry} {x : Entry}
    (hparent : before.length = parent) (h : d.entries.toList = before ++ x :: after)
    (ts : List Tree) :
    (d.graftAll parent ts).entries.toList =
      before ++ { x with children := x.children ++ childNumbers d.size ts } ::
        (after ++ entriesOfAll (some parent) d.size ts) := by
  subst hparent
  induction ts generalizing d after x with
  | nil => simpa [graftAll, childNumbers, entriesOfAll] using h
  | cons t ts ih =>
    -- the first tree takes the next free number, and the others go behind it
    have hgraft : (d.graft before.length t).entries.toList =
        before ++ { x with children := x.children ++ [d.size] } ::
          (after ++ entriesFrom (some before.length) d.size t) := by
      simp [graft, h, modify_append_cons]
    have hrest := ih hgraft
    rw [size_graft] at hrest
    rw [graftAll, List.foldl_cons, ← graftAll, hrest, childNumbers, entriesOfAll]
    simp

/-- An element with its children grafted onto it is a graft itself. -/
theorem graftAll_attach (d : Document) (e : Element) (parent : Nat) (ts : List Tree) :
    (d.attach e (some parent)).graftAll d.size ts = d.graft parent (node e ts) := by
  have hattach : (d.attach e (some parent)).entries.toList =
      d.entries.toList.modify parent (fun e => { e with children := e.children ++ [d.size] }) ++
        { e with parent := some parent, children := [] } :: [] := by
    simp [attach]
  have hsize : (d.attach e (some parent)).size = d.size + 1 := by simp [attach, size]
  apply ext_toList
  rw [toList_graftAll (by simp [size]) hattach, hsize]
  simp [graft, entriesFrom]

theorem graftAll_root (e : Element) (ts : List Tree) :
    (empty.attach e none).graftAll 0 ts = ofTree (node e ts) := by
  have hattach : (empty.attach e none).entries.toList =
      [] ++ { e with parent := none, children := [] } :: [] := by
    simp [attach, empty]
  have hsize : (empty.attach e none).size = 1 := by simp [attach, size, empty]
  apply ext_toList
  rw [toList_graftAll List.length_nil hattach, hsize]
  simp [ofTree, entriesFrom]

/-! ### The way up -/

/-- Every element comes after its parent. -/
def Linked (d : Document) : Prop := ∀ i e, d.get? i = some e → ∀ p, e.parent = some p → p < i

/-- The way up does not depend on how far one may go, if that is far enough. -/
theorem climb_eq {d : Document} (hd : d.Linked) {i n m : Nat} (hn : i < n) (hm : i < m) :
    d.climb n (some i) = d.climb m (some i) := by
  induction i using Nat.strongRecOn generalizing n m with
  | ind i ih =>
    obtain ⟨n, rfl⟩ : ∃ k, n = k + 1 := ⟨n - 1, by omega⟩
    obtain ⟨m, rfl⟩ : ∃ k, m = k + 1 := ⟨m - 1, by omega⟩
    simp only [climb, List.cons.injEq, true_and]
    cases hparent : d.parent? i with
    | none => cases n <;> cases m <;> simp [climb]
    | some p =>
      -- one step up leads to a smaller number, which fewer steps suffice for
      obtain ⟨e, he, hp⟩ := Option.bind_eq_some_iff.mp hparent
      have hlt := hd i e he p hp
      exact ih p hlt (by omega) (by omega)

theorem lineage_none (d : Document) : d.lineage none = [] := by
  rw [lineage]
  cases d.size <;> rfl

theorem lineage_some {d : Document} (hd : d.Linked) {i : Nat} (hi : i < d.size) :
    d.lineage (some i) = i :: d.lineage (d.parent? i) := by
  obtain ⟨n, hn⟩ : ∃ n, d.size = n + 1 := ⟨d.size - 1, by omega⟩
  have hclimb : d.climb n (d.parent? i) = d.climb (n + 1) (d.parent? i) := by
    cases hparent : d.parent? i with
    | none => cases n <;> rfl
    | some p =>
      obtain ⟨e, he, hp⟩ := Option.bind_eq_some_iff.mp hparent
      have hlt := hd i e he p hp
      exact climb_eq hd (by omega) (by omega)
  rw [lineage, lineage, hn, climb, hclimb]

theorem lineageKinds_none (d : Document) : d.lineageKinds none = [] := by
  rw [lineageKinds, lineage_none, List.filterMap_nil]

theorem lineageKinds_some {d : Document} (hd : d.Linked) {i : Nat} {e : Entry}
    (he : d.get? i = some e) : d.lineageKinds (some i) = e.kind :: d.lineageKinds e.parent := by
  have hi : i < d.size := by
    obtain ⟨hi, -⟩ := Array.getElem?_eq_some_iff.mp he
    exact hi
  have hparent : d.parent? i = e.parent := by simp [parent?, he]
  simp [lineageKinds, lineage_some hd hi, hparent, he]

/-- Below its first elements, a document that has grown is the same on the way up. -/
theorem lineageKinds_eq {d d' : Document} (hd : d.Linked) (hd' : d'.Linked)
    (h : ∀ i e, d.get? i = some e →
      ∃ e', d'.get? i = some e' ∧ e'.kind = e.kind ∧ e'.parent = e.parent)
    {i : Nat} (hi : i < d.size) : d'.lineageKinds (some i) = d.lineageKinds (some i) := by
  induction i using Nat.strongRecOn with
  | ind i ih =>
    have he : d.get? i = some d.entries[i] := Array.getElem?_eq_getElem hi
    generalize d.entries[i] = e at he
    obtain ⟨e', he', hkind, hparent⟩ := h i e he
    rw [lineageKinds_some hd he, lineageKinds_some hd' he', hkind, hparent]
    cases hp : e.parent with
    | none => rw [lineageKinds_none, lineageKinds_none]
    | some p =>
      have hlt := hd i e he p hp
      rw [ih p hlt (by omega)]

mutual
theorem parent_lt_of_entriesFrom {parent : Option Nat} {start : Nat}
    (hparent : ∀ p, parent = some p → p < start) (t : Tree) {i : Nat} {e : Entry}
    (he : (entriesFrom parent start t)[i]? = some e) {p : Nat} (hp : e.parent = some p) :
    p < start + i := by
  match t with
  | node root ts =>
    rw [entriesFrom] at he
    cases i with
    | zero =>
      cases he
      exact hparent p hp
    | succ i =>
      rw [List.getElem?_cons_succ] at he
      have hlater : ∀ q, some start = some q → q < start + 1 := by
        intro q hq
        cases hq
        omega
      have hlt := parent_lt_of_entriesOfAll hlater ts he hp
      omega
theorem parent_lt_of_entriesOfAll {parent : Option Nat} {start : Nat}
    (hparent : ∀ p, parent = some p → p < start) (ts : List Tree) {i : Nat} {e : Entry}
    (he : (entriesOfAll parent start ts)[i]? = some e) {p : Nat} (hp : e.parent = some p) :
    p < start + i := by
  match ts with
  | [] => simp [entriesOfAll] at he
  | t :: ts =>
    rw [entriesOfAll] at he
    by_cases hi : i < t.size
    · rw [List.getElem?_append_left (by rwa [length_entriesFrom])] at he
      exact parent_lt_of_entriesFrom hparent t he hp
    · rw [List.getElem?_append_right (by rw [length_entriesFrom]; omega), length_entriesFrom] at he
      have hlater : ∀ p, parent = some p → p < start + t.size := by
        intro q hq
        have := hparent q hq
        omega
      have hlt := parent_lt_of_entriesOfAll hlater ts he hp
      omega
end

/-- The first elements of a document stay where they are when a tree is grafted. -/
theorem get?_graft {d : Document} (parent : Nat) (t : Tree) {i : Nat} {e : Entry}
    (he : d.get? i = some e) :
    ∃ e', (d.graft parent t).get? i = some e' ∧ e'.kind = e.kind ∧ e'.parent = e.parent := by
  have hi : i < d.entries.size := (Array.getElem?_eq_some_iff.mp he).1
  rw [get?] at he
  rw [get?, graft, Array.getElem?_append_left (by simpa using hi), Array.getElem?_modify, he]
  split
  · exact ⟨_, rfl, rfl, rfl⟩
  · exact ⟨e, rfl, rfl, rfl⟩

theorem linked_graft {d : Document} (hd : d.Linked) {parent : Nat} (hparent : parent < d.size)
    (t : Tree) : (d.graft parent t).Linked := by
  intro i e he p hp
  by_cases hi : i < d.size
  · have hold : d.get? i = some d.entries[i] := Array.getElem?_eq_getElem hi
    obtain ⟨e', he', -, hsame⟩ := get?_graft parent t hold
    rw [he] at he'
    cases he'
    exact hd i _ hold p (hsame ▸ hp)
  · rw [get?, graft, Array.getElem?_append_right (by simpa [size] using hi)] at he
    rw [List.getElem?_toArray, Array.size_modify] at he
    have hlt := parent_lt_of_entriesFrom (by intro q hq; cases hq; exact hparent) t he hp
    simp only [size] at hi hlt
    omega

theorem lineageKinds_graft {d : Document} (hd : d.Linked) {parent : Nat}
    (hparent : parent < d.size) (t : Tree) {i : Nat} (hi : i < d.size) :
    (d.graft parent t).lineageKinds (some i) = d.lineageKinds (some i) :=
  lineageKinds_eq hd (linked_graft hd hparent t) (fun _ _ he => get?_graft parent t he) hi

/-- The kinds above the children of an element that has just joined. -/
theorem lineageKinds_attach {d : Document} (hd : d.Linked) {parent : Nat}
    (hparent : parent < d.size) (e : Element) :
    (d.attach e (some parent)).lineageKinds (some d.size) =
      e.kind :: d.lineageKinds (some parent) := by
  have hlinked := linked_graft hd hparent (node e [])
  have hparents := lineageKinds_graft hd hparent (node e []) hparent
  have hlast : (d.graft parent (node e [])).get? d.size =
      some { e with parent := some parent, children := [] } := by
    rw [get?, graft, Array.getElem?_append_right (by simp [size])]
    simp [size, entriesFrom, childNumbers]
  rw [attach_eq_graft, lineageKinds_some hlinked hlast, hparents]

end Document
end ChatForms
