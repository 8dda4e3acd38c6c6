import ChatForms.Settings.Basic
import ChatForms.Settings.Layers

namespace ChatForms.Settings

/-- The settings that there are, each a member of a group. -/
inductive Leaf where
  | button | checkbox | personSelector | defaultTarget | prettyJson
deriving DecidableEq, Repr

namespace Leaf

def group : Leaf → String
  | button | checkbox | personSelector => "containment"
  | defaultTarget => "convert"
  | prettyJson => "inspect"

def name : Leaf → String
  | button => "button"
  | checkbox => "checkbox"
  | personSelector => "person_selector"
  | defaultTarget => "default_target"
  | prettyJson => "pretty_json"

def key (l : Leaf) : String := l.group ++ "." ++ l.name

def default : Leaf → Value
  | button | checkbox => .string "transitive"
  | personSelector => .string "direct"
  | defaultTarget => .string "presentationml"
  | prettyJson => .bool true

theorem parse_key (l : Leaf) : KeyPath.parse? l.key = some ⟨l.group, [.key l.name]⟩ := by
  cases l <;> decide

theorem lower_group (l : Leaf) : Text.lower l.group = l.group := by cases l <;> decide

theorem lower_name (l : Leaf) : Text.lower l.name = l.name := by cases l <;> decide

/-- No two settings of a group have one name. -/
theorem eq_of_group_name : ∀ l l' : Leaf, l.group = l'.group → l.name = l'.name → l = l' := by
  intro l l'
  cases l <;> cases l' <;> decide

theorem eq_of_key {l l' : Leaf} (h : l.key = l'.key) : l = l' := by
  have hparse := l.parse_key
  rw [h, l'.parse_key] at hparse
  obtain ⟨hgroup, hname⟩ : l'.group = l.group ∧ l'.name = l.name := by simpa using hparse
  exact eq_of_group_name l l' hgroup.symm hname.symm

def all : List Leaf := [button, checkbox, personSelector, defaultTarget, prettyJson]

theorem mem_all (l : Leaf) : l ∈ all := by cases l <;> decide

instance {p : Leaf → Prop} [DecidablePred p] : Decidable (∀ l, p l) :=
  decidable_of_iff (∀ l ∈ all, p l) ⟨fun h l => h l l.mem_all, fun h l _ => h l⟩

instance {p : Leaf → Prop} [DecidablePred p] : Decidable (∃ l, p l) :=
  decidable_of_iff (∃ l ∈ all, p l) ⟨fun ⟨l, _, h⟩ => ⟨l, h⟩, fun ⟨l, h⟩ => ⟨l, l.mem_all, h⟩⟩

end Leaf

/-! ### The values of the settings inside a value -/

namespace Value

def leaf? (v : Value) (l : Leaf) : Option Value :=
  (v.asTable.lookup l.group).bind fun members => members.asTable.lookup l.name

theorem leaf?_defaults (l : Leaf) : defaults.leaf? l = some l.default := by
  cases l <;> rfl

theorem leaf?_eq (v : Value) (l : Leaf) :
    v.leaf? l = ((v.asTable.lookup l.group).getD null).asTable.lookup l.name := by
  unfold leaf?
  cases v.asTable.lookup l.group <;> rfl

/-- Tables are merged into what is there. Every other value takes its place. -/
def isTable : Value → Bool
  | table _ => true
  | _ => false

theorem put_of_not_isTable {v : Value} (h : v.isTable = false) (key : String) (t : Table) :
    put key v t = t.assign (Text.lower key) v := by
  cases v <;> first | rfl | cases h

theorem asTable_table (t : Table) : (table t).asTable = t := rfl

theorem putAt_key (name : String) (new old : Value) :
    putAt [.key name] new old = table (put name new old.asTable) := rfl

theorem putAt_key_cons (name : String) (step : Step) (rest : List Step) (new old : Value) :
    putAt (.key name :: step :: rest) new old =
      table (old.asTable.assign (Text.lower name)
        (putAt (step :: rest) new ((old.asTable.lookup (Text.lower name)).getD null))) := rfl

/-- A step by a key changes nothing under other keys. -/
theorem exists_putAt_key (name : String) (rest : List Step) (new old : Value) :
    ∃ x, putAt (.key name :: rest) new old = table (old.asTable.assign (Text.lower name) x) := by
  cases rest with
  | nil => cases new <;> exact ⟨_, rfl⟩
  | cons step rest => exact ⟨_, rfl⟩

end Value

/-! ### Assignments -/

namespace KeyPath

/-- The path leads to the setting itself. -/
def isFor (path : KeyPath) (l : Leaf) : Bool :=
  Text.lower path.first = l.group && match path.rest with
    | [.key name] => Text.lower name = l.name
    | _ => false

/-- The path leaves the way to the setting, at its first key or at its second one. -/
def isApart (path : KeyPath) (l : Leaf) : Bool :=
  Text.lower path.first ≠ l.group || match path.rest with
    | .key name :: _ => Text.lower name ≠ l.name
    | _ => false

/-- A value at the end of the path either is one of a setting or has to do with none. -/
def Suits (path : KeyPath) (v : Value) : Prop :=
  ∀ l : Leaf, path.isApart l = true ∨ path.isFor l = true ∧ v.isTable = false

instance (path : KeyPath) (v : Value) : Decidable (path.Suits v) :=
  inferInstanceAs (Decidable (∀ _ : Leaf, _ ∨ _))

theorem isFor_of_isApart {path : KeyPath} {l : Leaf} (h : path.isApart l = true) :
    path.isFor l = false := by
  obtain ⟨first, rest⟩ := path
  by_cases hfirst : Text.lower first = l.group
  · rcases rest with _ | ⟨name | _, _ | _⟩ <;> simp_all [isApart, isFor]
  · simp [isFor, hfirst]

end KeyPath

theorem Leaf.isFor_own (l : Leaf) : KeyPath.isFor ⟨l.group, [.key l.name]⟩ l = true := by
  simp [KeyPath.isFor, l.lower_group, l.lower_name]

theorem Leaf.isApart_own {l l' : Leaf} (h : l ≠ l') :
    KeyPath.isApart ⟨l.group, [.key l.name]⟩ l' = true := by
  simp only [KeyPath.isApart, l.lower_group, l.lower_name, Bool.or_eq_true, decide_eq_true_iff]
  by_cases hgroup : l.group = l'.group
  · exact .inr fun hname => h (Leaf.eq_of_group_name l l' hgroup hname)
  · exact .inl hgroup

/-! ### The last value in a list -/

section Last
variable {α β γ : Type} {f : α → Option β}

/-- The last value that a function gives. -/
def last? (f : α → Option β) (xs : List α) : Option β := xs.reverse.findSome? f

theorem last?_append (f : α → Option β) (xs ys : List α) :
    last? f (xs ++ ys) = (last? f ys).or (last? f xs) := by
  rw [last?, List.reverse_append, List.findSome?_append]
  rfl

theorem last?_singleton (f : α → Option β) (x : α) : last? f [x] = f x := by
  cases hx : f x <;> simp [last?, hx]

theorem last?_cons (f : α → Option β) (x : α) (xs : List α) :
    last? f (x :: xs) = (last? f xs).or (f x) := by
  rw [← List.singleton_append, last?_append, last?_singleton]

theorem last?_swap {x y : α} (h : f x = none ∨ f y = none) (before after : List α) :
    last? f (before ++ x :: y :: after) = last? f (before ++ y :: x :: after) := by
  simp only [last?_append, last?_cons]
  rcases h with h | h <;> simp only [h, Option.or_none]

/-- A value that is not the last one does not matter. -/
theorem last?_drop {x : α} {after : List α} (h : f x = none ∨ (last? f after).isSome)
    (before : List α) : last? f (before ++ x :: after) = last? f (before ++ after) := by
  rw [last?_append, last?_append, last?_cons]
  rcases h with h | h
  · rw [h, Option.or_none]
  · rw [Option.or_of_isSome h]

theorem last?_filterMap {g : β → Option γ} {k : α → Option γ} {xs : List α}
    (h : ∀ x ∈ xs, (f x).bind g = k x) : last? g (xs.filterMap f) = last? k xs := by
  induction xs with
  | nil => rfl
  | cons x xs ih =>
    obtain ⟨hx, hxs⟩ := List.forall_mem_cons.mp h
    rw [List.filterMap_cons, last?_cons, ← ih hxs, ← hx]
    cases f x with
    | none => rw [Option.bind_none, Option.or_none]
    | some y => rw [Option.bind_some, last?_cons]

end Last

/-! ### What assignments do to a setting -/

/-- What an assignment gives to a setting. -/
def given? (l : Leaf) (a : KeyPath × Value) : Option Value := if a.1.isFor l then some a.2 else none

namespace Value
variable {l : Leaf}

theorem leaf?_setPath_of_ne (path : KeyPath) (h : Text.lower path.first ≠ l.group) (new v : Value) :
    (v.setPath path new).leaf? l = v.leaf? l := by
  obtain ⟨x, hx⟩ := exists_putAt_key path.first path.rest new v
  rw [leaf?, setPath, hx, asTable_table, Entries.lookup_assign, if_neg h.symm, leaf?]

theorem leaf?_setPath_key {first : String} (h : Text.lower first = l.group) (name : String)
    (rest : List Step) (new v : Value) :
    (v.setPath ⟨first, .key name :: rest⟩ new).leaf? l =
      (putAt (.key name :: rest) new
        ((v.asTable.lookup l.group).getD null)).asTable.lookup l.name := by
  rw [leaf?, setPath, putAt_key_cons, asTable_table, Entries.lookup_assign, if_pos h.symm, h,
    Option.bind_some]

theorem leaf?_setPath_of_isApart {path : KeyPath} (h : path.isApart l = true) (new v : Value) :
    (v.setPath path new).leaf? l = v.leaf? l := by
  by_cases hfirst : Text.lower path.first = l.group
  · obtain ⟨first, rest⟩ := path
    rcases rest with _ | ⟨name | _, rest⟩
    · simp [KeyPath.isApart, hfirst] at h
    · have hname : Text.lower name ≠ l.name := by simpa [KeyPath.isApart, hfirst] using h
      obtain ⟨x, hx⟩ := exists_putAt_key name rest new ((v.asTable.lookup l.group).getD null)
      rw [leaf?_setPath_key hfirst, hx, asTable_table, Entries.lookup_assign, if_neg hname.symm,
        leaf?_eq v]
    · simp [KeyPath.isApart, hfirst] at h
  · exact leaf?_setPath_of_ne path hfirst new v

theorem leaf?_setPath_of_isFor {path : KeyPath} {new : Value} (h : path.isFor l = true)
    (hnew : new.isTable = false) (v : Value) : (v.setPath path new).leaf? l = some new := by
  obtain ⟨first, rest⟩ := path
  rcases rest with _ | ⟨name | _, _ | _⟩ <;>
    simp only [KeyPath.isFor, Bool.and_false, Bool.and_eq_true, decide_eq_true_iff,
      Bool.false_eq_true] at h
  obtain ⟨hfirst, hname⟩ := h
  rw [leaf?_setPath_key hfirst, putAt_key, put_of_not_isTable hnew, asTable_table,
    Entries.lookup_assign, if_pos hname.symm]

/-- One assignment gives a setting its value or leaves it as it is. -/
theorem leaf?_setPath {path : KeyPath} {new : Value} (h : path.Suits new) (l : Leaf) (v : Value) :
    (v.setPath path new).leaf? l = (given? l (path, new)).or (v.leaf? l) := by
  rcases h l with hapart | ⟨hfor, hnew⟩
  · rw [leaf?_setPath_of_isApart hapart, given?, KeyPath.isFor_of_isApart hapart]
    rfl
  · rw [leaf?_setPath_of_isFor hfor hnew, given?, if_pos hfor]
    rfl

/-- Of many assignments the last one for a setting counts. -/
theorem leaf?_setPaths {as : List (KeyPath × Value)} (h : ∀ a ∈ as, a.1.Suits a.2) (l : Leaf)
    (v : Value) : (as.foldl (fun v a => v.setPath a.1 a.2) v).leaf? l =
      (last? (given? l) as).or (v.leaf? l) := by
  induction as generalizing v with
  | nil => rfl
  | cons a as ih =>
    obtain ⟨ha, has⟩ := List.forall_mem_cons.mp h
    rw [List.foldl_cons, ih has, leaf?_setPath ha, last?_cons, Option.or_assoc]

/-- A table under a group is as good as an assignment for each of its members. -/
theorem leaf?_setPath_table (first : String) (members : Table) (l : Leaf) (v : Value) :
    (v.setPath ⟨first, []⟩ (.table members)).leaf? l =
      (members.foldl (fun v m => v.setPath ⟨first, [.key m.1]⟩ m.2) v).leaf? l := by
  induction members generalizing v with
  | nil =>
    -- an empty table makes a group that is not there, but no setting in it
    by_cases hfirst : Text.lower first = l.group
    · rw [setPath, putAt_key, List.foldl_nil, leaf?_eq v, leaf?, asTable_table, put,
        Entries.lookup_assign, hfirst, if_pos rfl, Option.bind_some]
      cases v.asTable.lookup l.group <;> rfl
    · exact leaf?_setPath_of_ne ⟨first, []⟩ hfirst (.table []) v
  | cons m members ih =>
    have hmissing : ∀ x : Option Value, (x.getD (table [])).asTable = (x.getD null).asTable :=
      fun x => by cases x <;> rfl
    rw [List.foldl_cons, ← ih]
    simp only [setPath, putAt_key, putAt_key_cons, put, putAll, asTable_table,
      Entries.lookup_assign, Entries.assign_assign, if_true, Option.getD_some, hmissing]

end Value

/-! ### Files -/

/-- An outermost key of a file as a path. -/
def outerPath (key : String) : KeyPath := (KeyPath.parse? key).getD ⟨key, []⟩

/-- A table under an outermost key stands for its members, any other value for itself. -/
def assignmentsAt (e : String × Value) : List (KeyPath × Value) :=
  match (outerPath e.1).rest, e.2 with
  | [], .table members => members.map fun m => (⟨(outerPath e.1).first, [.key m.1]⟩, m.2)
  | _, v => [(outerPath e.1, v)]

/-- What a file assigns, in its order. -/
def assignments (t : Table) : List (KeyPath × Value) := t.flatMap assignmentsAt

theorem mergeTable_eq (v : Value) (t : Table) :
    Layers.mergeTable v t = t.foldl (fun v e => v.setPath (outerPath e.1) e.2) v := by
  unfold Layers.mergeTable
  congr 1
  funext v e
  unfold outerPath
  cases KeyPath.parse? e.1 <;> rfl

theorem assignmentsAt_cases (e : String × Value) :
    (∃ members, (outerPath e.1).rest = [] ∧ e.2 = .table members ∧ assignmentsAt e =
      members.map fun m => (⟨(outerPath e.1).first, [.key m.1]⟩, m.2)) ∨
      assignmentsAt e = [(outerPath e.1, e.2)] := by
  unfold assignmentsAt
  split
  · next members hrest hvalue => exact .inl ⟨members, hrest, hvalue, rfl⟩
  · exact .inr rfl

theorem leaf?_setOuter {e : String × Value} (h : ∀ a ∈ assignmentsAt e, a.1.Suits a.2) (l : Leaf)
    (v : Value) : (v.setPath (outerPath e.1) e.2).leaf? l =
      (last? (given? l) (assignmentsAt e)).or (v.leaf? l) := by
  rcases assignmentsAt_cases e with ⟨members, hrest, hvalue, heq⟩ | heq
  · rw [← Value.leaf?_setPaths h, heq, List.foldl_map, ← Value.leaf?_setPath_table, ← hrest, hvalue]
  · rw [heq] at h ⊢
    rw [Value.leaf?_setPath (h _ (List.mem_singleton_self _)), last?_singleton]

/-- A file gives each setting the last value that it assigns to it. -/
theorem leaf?_mergeTable {t : Table} (h : ∀ a ∈ assignments t, a.1.Suits a.2) (l : Leaf)
    (v : Value) : (Layers.mergeTable v t).leaf? l =
      (last? (given? l) (assignments t)).or (v.leaf? l) := by
  rw [mergeTable_eq]
  induction t generalizing v with
  | nil => rfl
  | cons e t ih =>
    rw [assignments, List.flatMap_cons] at h ⊢
    obtain ⟨he, ht⟩ := List.forall_mem_append.mp h
    rw [List.foldl_cons, ih ht, leaf?_setOuter he, last?_append, Option.or_assoc]
    rfl

end ChatForms.Settings
