import ChatForms.Proofs.Document.Arena

namespace ChatForms

namespace Tree

/-- Elements of which each one has only the next one as a child, and the last one has `ts`. -/
def enclose (es : List Element) (ts : List Tree) : List Tree :=
  es.foldr (fun e inside => [node e inside]) ts

@[simp] theorem enclose_nil (ts : List Tree) : enclose [] ts = ts := rfl

@[simp] theorem enclose_cons (e : Element) (es : List Element) (ts : List Tree) :
    enclose (e :: es) ts = [node e (enclose es ts)] := rfl

/-! ### Trees that stand one after the other -/

theorem childNumbers_append (start : Nat) (ts us : List Tree) :
    childNumbers start (ts ++ us) =
      childNumbers start ts ++ childNumbers (start + (subtreesOf ts).length) us := by
  induction ts generalizing start with
  | nil => rfl
  | cons t ts ih =>
    rw [List.cons_append, childNumbers, childNumbers, ih, subtreesOf, List.length_append,
      ← Tree.size, Nat.add_assoc, List.cons_append]

theorem entriesOfAll_append (parent : Option Nat) (start : Nat) (ts us : List Tree) :
    entriesOfAll parent start (ts ++ us) =
      entriesOfAll parent start ts ++
        entriesOfAll parent (start + (subtreesOf ts).length) us := by
  induction ts generalizing start with
  | nil => rfl
  | cons t ts ih =>
    rw [List.cons_append, entriesOfAll, entriesOfAll, ih, subtreesOf, List.length_append,
      ← Tree.size, Nat.add_assoc, List.append_assoc]

theorem length_entriesOfAll (parent : Option Nat) (start : Nat) (ts : List Tree) :
    (entriesOfAll parent start ts).length = (subtreesOf ts).length := by
  rw [← List.length_map (f := Entry.toElement), map_entriesOfAll, List.length_map]

end Tree

/-! ### Numbers that move on -/

namespace Entry

/-- The number of an element once `k` others have come in behind number `n`. -/
def shiftNumber (n k i : Nat) : Nat := if n < i then i + k else i

def shift (n k : Nat) (e : Entry) : Entry :=
  { e with
    parent := e.parent.map (shiftNumber n k)
    children := e.children.map (shiftNumber n k) }

theorem shiftNumber_of_lt {n i : Nat} (h : n < i) (k : Nat) : shiftNumber n k i = i + k := if_pos h

theorem shiftNumber_self (n k : Nat) : shiftNumber n k n = n := if_neg (Nat.lt_irrefl n)

end Entry

namespace Tree

variable {n : Nat} (k : Nat)

theorem childNumbers_shift {start : Nat} (h : n < start) (ts : List Tree) :
    (childNumbers start ts).map (Entry.shiftNumber n k) = childNumbers (start + k) ts := by
  induction ts generalizing start with
  | nil => rfl
  | cons t ts ih =>
    rw [childNumbers, childNumbers, List.map_cons, Entry.shiftNumber_of_lt h, ih (by omega)]
    congr 2
    omega

mutual
/-- Entries that are written down behind number `n` move on with it. -/
theorem entriesFrom_shift (parent : Option Nat) {start : Nat} (h : n < start) (t : Tree) :
    (entriesFrom parent start t).map (Entry.shift n k) =
      entriesFrom (parent.map (Entry.shiftNumber n k)) (start + k) t := by
  match t with
  | node e ts =>
    have hnext : start + 1 + k = start + k + 1 := by omega
    have hinside := entriesOfAll_shift (some start) (by omega : n < start + 1) ts
    rw [Option.map_some, Entry.shiftNumber_of_lt h, hnext] at hinside
    rw [entriesFrom, entriesFrom, List.map_cons, hinside, Entry.shift]
    simp only [childNumbers_shift k (by omega : n < start + 1), hnext]
theorem entriesOfAll_shift (parent : Option Nat) {start : Nat} (h : n < start)
    (ts : List Tree) :
    (entriesOfAll parent start ts).map (Entry.shift n k) =
      entriesOfAll (parent.map (Entry.shiftNumber n k)) (start + k) ts := by
  match ts with
  | [] => rfl
  | t :: ts =>
    have hnext : start + t.size + k = start + k + t.size := by omega
    rw [entriesOfAll, entriesOfAll, List.map_append, entriesFrom_shift parent h t,
      entriesOfAll_shift parent (by omega) ts, hnext]
end

end Tree

/-! ### Documents that share a spine -/

namespace Document
open ChatForms.Tree

/-- The elements of `e` behind number `n` come behind all those of `d`. They stand below the element
that has this number in both documents, after the children that it has in `d`. -/
def join (n : Nat) (d e : Document) : Document :=
  let k := d.size - (n + 1)
  let others := e.entries.toList.drop (n + 1)
  ⟨(d.entries.toList.modify n
      (fun x => { x with children := x.children ++ (e.children n).map (Entry.shiftNumber n k) }) ++
    others.map (Entry.shift n k)).toArray⟩

/-- The elements on the way down are written down before what they enclose, and only the last one of
them depends on it. -/
theorem exists_entriesFrom_enclose (parent : Option Nat) (start : Nat) (e : Element)
    (es : List Element) :
    ∃ (before : List Entry) (x : Entry), before.length = es.length ∧ ∀ ts,
      entriesFrom parent start (node e (enclose es ts)) =
        before ++ { x with children := childNumbers (start + es.length + 1) ts } ::
          entriesOfAll (some (start + es.length)) (start + es.length + 1) ts := by
  induction es generalizing e parent start with
  | nil => exact ⟨[], { e with parent := parent, children := [] }, rfl, fun ts => rfl⟩
  | cons e' es ih =>
    obtain ⟨before, x, hlength, hbelow⟩ := ih (some start) (start + 1) e'
    refine ⟨{ e with parent := parent, children := [start + 1] } :: before, x, by simp [hlength],
      fun ts => ?_⟩
    have hnext : start + 1 + es.length = start + (es.length + 1) := by omega
    have hbelow := hbelow ts
    rw [hnext] at hbelow
    simp only [enclose_cons, List.length_cons, entriesFrom, entriesOfAll, childNumbers,
      List.append_nil, List.cons_append]
    rw [entriesFrom] at hbelow
    rw [hbelow]

theorem ofTree_enclose_append (e : Element) (es : List Element) (ts us : List Tree) :
    ofTree (node e (enclose es (ts ++ us))) =
      (ofTree (node e (enclose es ts))).join es.length (ofTree (node e (enclose es us))) := by
  obtain ⟨before, x, hlength, hentries⟩ := exists_entriesFrom_enclose none 0 e es
  simp only [Nat.zero_add] at hentries
  have hlist : ∀ ts, (ofTree (node e (enclose es ts))).entries.toList = _ := hentries
  have hsize : (ofTree (node e (enclose es ts))).size - (es.length + 1) =
      (subtreesOf ts).length := by
    rw [size, ← Array.length_toList, hlist]
    simp only [List.length_append, List.length_cons, length_entriesOfAll, hlength]
    omega
  have hchildren : (ofTree (node e (enclose es us))).children es.length =
      childNumbers (es.length + 1) us := by
    rw [children, get?, ← Array.getElem?_toList, hlist, List.getElem?_append_right (by omega)]
    simp [hlength]
  apply ext_toList
  rw [join, hsize, hchildren, hlist, hlist, hlist, ← hlength, modify_append_cons, hlength]
  have hdrop : (before ++ { x with children := childNumbers (es.length + 1) us } ::
      entriesOfAll (some es.length) (es.length + 1) us).drop (es.length + 1) =
      entriesOfAll (some es.length) (es.length + 1) us := by
    simp [← hlength]
  have hlt : es.length < es.length + 1 := Nat.lt_succ_self _
  rw [hdrop, entriesOfAll_shift _ _ hlt, childNumbers_shift _ hlt, Option.map_some,
    Entry.shiftNumber_self, childNumbers_append, entriesOfAll_append]
  simp

/-! ### What is right below an element -/

/-- The trees right below an element. -/
def inside (d : Document) (i : Nat) : List Tree := ((d.subtree? i).map Tree.children).getD []

theorem subtree?_ofTree (t : Tree) (i : Nat) : (ofTree t).subtree? i = t.subtrees[i]? := by
  have htrees := treesFrom_entriesFrom none 0 t []
  rw [List.append_nil] at htrees
  simp [subtree?, ofTree, htrees, treesFrom]

theorem exists_subtrees_enclose (e : Element) (es : List Element) (ts : List Tree) :
    ∃ x, (node e (enclose es ts)).subtrees[es.length]? = some (node x ts) := by
  induction es generalizing e with
  | nil => exact ⟨e, rfl⟩
  | cons e' es ih =>
    obtain ⟨x, hx⟩ := ih e'
    exact ⟨x, by simpa [subtrees, subtreesOf] using hx⟩

theorem inside_enclose (e : Element) (es : List Element) (ts : List Tree) :
    (ofTree (node e (enclose es ts))).inside es.length = ts := by
  obtain ⟨x, hx⟩ := exists_subtrees_enclose e es ts
  rw [inside, subtree?_ofTree, hx]
  rfl

end Document
end ChatForms
