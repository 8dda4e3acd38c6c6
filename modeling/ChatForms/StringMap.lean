namespace ChatForms

/-- A finite map with text keys. The entries ascend strictly, so equal maps have equal entries. -/
structure StringMap (α : Type) where
  entries : List (String × α)
  sorted : entries.Pairwise (fun a b => a.1 < b.1)
deriving DecidableEq

namespace StringMap
variable {α : Type}

def empty : StringMap α := ⟨[], .nil⟩

instance : Inhabited (StringMap α) := ⟨empty⟩

def isEmpty (m : StringMap α) : Bool := m.entries.isEmpty

def get? (m : StringMap α) (key : String) : Option α := m.entries.lookup key

def keys (m : StringMap α) : List String := m.entries.map (·.1)

def insertEntry (key : String) (value : α) : List (String × α) → List (String × α)
  | [] => [(key, value)]
  | e :: es =>
    if key < e.1 then (key, value) :: e :: es
    else if key = e.1 then (key, value) :: es
    else e :: insertEntry key value es

theorem mem_insertEntry {key : String} {value : α} {es : List (String × α)} {x : String × α}
    (h : x ∈ insertEntry key value es) : x = (key, value) ∨ x ∈ es := by
  induction es with
  | nil => simpa [insertEntry] using h
  | cons e es ih =>
    simp only [insertEntry] at h
    split at h
    · simpa using h
    · split at h <;> simp only [List.mem_cons] at h ⊢
      · rcases h with h | h <;> simp [h]
      · rcases h with h | h
        · simp [h]
        · rcases ih h with h | h <;> simp [h]

theorem sorted_insertEntry (key : String) (value : α) {es : List (String × α)}
    (h : es.Pairwise (fun a b => a.1 < b.1)) :
    (insertEntry key value es).Pairwise (fun a b => a.1 < b.1) := by
  induction es with
  | nil => simp [insertEntry]
  | cons e es ih =>
    obtain ⟨he, hes⟩ := List.pairwise_cons.mp h
    simp only [insertEntry]
    split
    · next hk =>
      refine List.pairwise_cons.mpr ⟨fun x hx => ?_, h⟩
      rcases List.mem_cons.mp hx with rfl | hx
      · exact hk
      · exact String.lt_trans hk (he x hx)
    · next hk =>
      split
      · next hk' => exact List.pairwise_cons.mpr ⟨fun x hx => hk' ▸ he x hx, hes⟩
      · next hk' =>
        refine List.pairwise_cons.mpr ⟨fun x hx => ?_, ih hes⟩
        rcases mem_insertEntry hx with rfl | hx
        · rcases Std.lt_trichotomy key e.1 with h | h | h
          · exact absurd h hk
          · exact absurd h hk'
          · exact h
        · exact he x hx

/-- An earlier value of the key is replaced. -/
def insert (m : StringMap α) (key : String) (value : α) : StringMap α :=
  ⟨insertEntry key value m.entries, sorted_insertEntry key value m.sorted⟩

def insertIfNew (m : StringMap α) (key : String) (value : α) : StringMap α :=
  if (m.get? key).isSome then m else m.insert key value

/-- Later pairs win over earlier ones with the same key. -/
def ofList (pairs : List (String × α)) : StringMap α :=
  pairs.foldl (fun m p => m.insert p.1 p.2) empty

theorem lookup_cons_ite (k key : String) (value : α) (es : List (String × α)) :
    ((key, value) :: es).lookup k = if k = key then some value else es.lookup k := by
  by_cases h : k = key
  · simp [h]
  · simp [List.lookup_cons, beq_false_of_ne h, h]

theorem lookup_insertEntry (key k : String) (value : α) (es : List (String × α)) :
    (insertEntry key value es).lookup k = if k = key then some value else es.lookup k := by
  induction es with
  | nil => simp [insertEntry, lookup_cons_ite]
  | cons e es ih =>
    obtain ⟨a, b⟩ := e
    simp only [insertEntry]
    split
    · rw [lookup_cons_ite]
    · split
      · next hk => subst hk; by_cases h : k = key <;> simp [lookup_cons_ite, h]
      · next hk =>
        by_cases ha : k = a
        · subst ha; simp [Ne.symm hk]
        · simp [lookup_cons_ite, ha, ih]

theorem get?_insert (m : StringMap α) (key k : String) (value : α) :
    (m.insert key value).get? k = if k = key then some value else m.get? k :=
  lookup_insertEntry key k value m.entries

theorem get?_insertIfNew (m : StringMap α) (key k : String) (value : α) :
    (m.insertIfNew key value).get? k =
      if k = key then (m.get? key).or (some value) else m.get? k := by
  unfold insertIfNew
  by_cases h : k = key
  · subst h; cases hm : m.get? k <;> simp [hm, get?_insert]
  · cases hm : m.get? key <;> simp [h, get?_insert]

end StringMap
end ChatForms
