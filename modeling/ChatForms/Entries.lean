namespace ChatForms

/-- Values under keys, in the order in which the keys came up. -/
abbrev Entries (α : Type) := List (String × α)

namespace Entries
variable {α : Type}

/-- The value of a key is replaced in place; a new key goes to the end. -/
def assign (key : String) (value : α) : Entries α → Entries α
  | [] => [(key, value)]
  | e :: es => if e.1 = key then (key, value) :: es else e :: assign key value es

theorem lookup_assign (key k : String) (value : α) (es : Entries α) :
    (es.assign key value).lookup k = if k = key then some value else es.lookup k := by
  induction es with
  | nil => by_cases h : k = key <;> simp [assign, List.lookup_cons, h, beq_false_of_ne]
  | cons e es ih =>
    obtain ⟨a, b⟩ := e
    by_cases ha : a = key <;> by_cases hk : k = a <;> by_cases h : k = key <;>
      simp_all [assign, List.lookup_cons, beq_false_of_ne]

theorem assign_assign (key : String) (value value' : α) (es : Entries α) :
    (es.assign key value).assign key value' = es.assign key value' := by
  induction es with
  | nil => simp [assign]
  | cons e es ih => by_cases he : e.1 = key <;> simp [assign, he, ih]

end Entries
end ChatForms
