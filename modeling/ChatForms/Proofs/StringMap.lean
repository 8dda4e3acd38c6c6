import ChatForms.StringMap

namespace ChatForms.StringMap
variable {α β : Type}

@[simp] theorem get?_empty (key : String) : (empty : StringMap α).get? key = none := rfl

theorem lookup_eq_none {key : String} {es : List (String × α)} (h : ∀ e ∈ es, key < e.1) :
    es.lookup key = none := by
  induction es with
  | nil => rfl
  | cons e es ih =>
    obtain ⟨he, hes⟩ := List.forall_mem_cons.mp h
    have hne : key ≠ e.1 := fun heq => String.lt_irrefl _ (heq ▸ he)
    rw [← Prod.eta e, lookup_cons_ite, if_neg hne, ih hes]

/-- The order does not matter where all entries under a key have the same value. -/
theorem lookup_eq_some_of_forall {key : String} {value : α} {es : List (String × α)}
    (hmem : (key, value) ∈ es) (hall : ∀ e ∈ es, e.1 = key → e.2 = value) :
    es.lookup key = some value := by
  induction es with
  | nil => cases hmem
  | cons e es ih =>
    obtain ⟨he, hes⟩ := List.forall_mem_cons.mp hall
    rw [← Prod.eta e, lookup_cons_ite]
    split
    · next hkey => rw [he hkey.symm]
    · next hkey =>
      rcases List.mem_cons.mp hmem with rfl | hmem
      · exact absurd rfl hkey
      · exact ih hmem hes

/-- No key in a sorted list comes before the first. -/
theorem not_lt_first {key key' : String} {value value' : α} {es : List (String × α)}
    (hes : ((key', value') :: es).Pairwise fun a b => a.1 < b.1)
    (h : ((key', value') :: es).lookup key = some value) : ¬key < key' := by
  intro hlt
  have hnone : ((key', value') :: es).lookup key = none := by
    refine lookup_eq_none fun e he => ?_
    rcases List.mem_cons.mp he with rfl | he
    · exact hlt
    · exact String.lt_trans hlt ((List.pairwise_cons.mp hes).1 e he)
  rw [hnone] at h
  cases h

theorem entries_eq {es fs : List (String × α)} (hes : es.Pairwise fun a b => a.1 < b.1)
    (hfs : fs.Pairwise fun a b => a.1 < b.1) (h : ∀ key, es.lookup key = fs.lookup key) :
    es = fs := by
  induction es generalizing fs with
  | nil =>
    cases fs with
    | nil => rfl
    | cons f fs =>
      have hf := h f.1
      rw [← Prod.eta f, lookup_cons_ite, if_pos rfl] at hf
      cases hf
  | cons e es ih =>
    cases fs with
    | nil =>
      have he := h e.1
      rw [← Prod.eta e, lookup_cons_ite, if_pos rfl] at he
      cases he
    | cons f fs =>
      obtain ⟨key, value⟩ := e
      obtain ⟨key', value'⟩ := f
      have hfirst := h key
      have hfirst' := h key'
      rw [lookup_cons_ite, if_pos rfl] at hfirst
      rw [lookup_cons_ite key' key' value' fs, if_pos rfl] at hfirst'
      obtain rfl : key = key' := by
        rcases Std.lt_trichotomy key key' with hlt | heq | hlt
        · exact absurd hlt (not_lt_first hfs hfirst.symm)
        · exact heq
        · exact absurd hlt (not_lt_first hes hfirst')
      rw [lookup_cons_ite, if_pos rfl] at hfirst
      obtain ⟨hlt, hes⟩ := List.pairwise_cons.mp hes
      obtain ⟨hlt', hfs⟩ := List.pairwise_cons.mp hfs
      have hrest : es = fs := by
        refine ih hes hfs fun k => ?_
        by_cases hk : k = key
        · subst hk
          rw [lookup_eq_none hlt, lookup_eq_none hlt']
        · have hlookup := h k
          rwa [lookup_cons_ite, lookup_cons_ite, if_neg hk, if_neg hk] at hlookup
      rw [hrest, Option.some.inj hfirst]

/-- Where no key is repeated, the entries tell what is found. -/
theorem mem_iff_lookup {es : List (String × α)} (hes : (es.map (·.1)).Nodup) {key : String}
    {value : α} : (key, value) ∈ es ↔ es.lookup key = some value := by
  induction es with
  | nil => simp
  | cons e es ih =>
    obtain ⟨key', value'⟩ := e
    obtain ⟨hfirst, hes⟩ := List.nodup_cons.mp hes
    rw [List.mem_cons, lookup_cons_ite, ih hes, Prod.mk.injEq]
    by_cases hkey : key = key'
    · subst hkey
      have hnone : es.lookup key = none := by
        rw [List.lookup_eq_none_iff]
        intro e he
        rw [bne_iff_ne]
        rintro rfl
        exact hfirst (List.mem_map.mpr ⟨e, he, rfl⟩)
      simp [hnone, eq_comm]
    · simp [hkey]

theorem isSome_lookup (es : List (String × α)) (key : String) :
    (es.lookup key).isSome = es.any fun e => e.1 = key := by
  induction es with
  | nil => rfl
  | cons e es ih =>
    obtain ⟨key', value⟩ := e
    rw [lookup_cons_ite, List.any_cons, ← ih]
    by_cases hkey : key = key'
    · simp [hkey]
    · simp [hkey, Ne.symm hkey]

theorem lookup_perm {es fs : List (String × α)} (hes : (es.map (·.1)).Nodup) (h : es.Perm fs)
    (key : String) : es.lookup key = fs.lookup key := by
  ext value
  have hfs : (fs.map (·.1)).Nodup := (h.map _).nodup_iff.mp hes
  rw [← mem_iff_lookup hes, ← mem_iff_lookup hfs, h.mem_iff]

theorem pairwise_keys (m : StringMap α) : m.keys.Pairwise (· < ·) :=
  List.pairwise_map.mpr m.sorted

theorem nodup_keys (m : StringMap α) : m.keys.Nodup := by
  refine m.pairwise_keys.imp fun hlt heq => ?_
  exact String.lt_irrefl _ (heq ▸ hlt)

theorem mem_entries {m : StringMap α} {key : String} {value : α} :
    (key, value) ∈ m.entries ↔ m.get? key = some value :=
  mem_iff_lookup m.nodup_keys

theorem mem_keys {m : StringMap α} {key : String} :
    key ∈ m.keys ↔ ∃ value, m.get? key = some value := by
  simp [keys, ← mem_entries]

/-- Maps are equal if they hold the same values under the same keys. -/
@[ext] theorem ext_get? {m n : StringMap α} (h : ∀ key, m.get? key = n.get? key) : m = n := by
  obtain ⟨es, hes⟩ := m
  obtain ⟨fs, hfs⟩ := n
  obtain rfl : es = fs := entries_eq hes hfs h
  rfl

def mapValues (f : α → β) (m : StringMap α) : StringMap β :=
  ⟨m.entries.map fun e => (e.1, f e.2), List.pairwise_map.mpr m.sorted⟩

@[simp] theorem get?_mapValues (f : α → β) (m : StringMap α) (key : String) :
    (m.mapValues f).get? key = (m.get? key).map f := by
  obtain ⟨es, hes⟩ := m
  simp only [get?, mapValues]
  clear hes
  induction es with
  | nil => rfl
  | cons e es ih =>
    obtain ⟨k, value⟩ := e
    rw [List.map_cons, lookup_cons_ite, lookup_cons_ite, ih]
    split <;> rfl

theorem mapValues_eq_self_iff {f : α → α} {m : StringMap α} :
    m.mapValues f = m ↔ ∀ key value, m.get? key = some value → f value = value := by
  constructor
  · intro h key value hvalue
    have hmap := get?_mapValues f m key
    rw [h, hvalue, Option.map_some] at hmap
    exact (Option.some.inj hmap).symm
  · intro h
    ext key
    rw [get?_mapValues]
    cases hvalue : m.get? key with
    | none => simp
    | some value => rw [Option.map_some, h key value hvalue]

theorem mapValues_mapValues {γ : Type} (f : β → γ) (g : α → β) (m : StringMap α) :
    (m.mapValues g).mapValues f = m.mapValues (f ∘ g) := by
  ext key
  simp

end ChatForms.StringMap
