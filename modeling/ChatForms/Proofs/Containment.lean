import ChatForms.Containment

namespace ChatForms

/-- The kinds around an element, nearest first, hold a form as near as the policy asks for. -/
def Policy.IsMet (p : Policy) (above : List Kind) : Prop :=
  match p with
  | .direct => above.head? = some .form
  | .transitive => .form ∈ above

instance (p : Policy) (above : List Kind) : Decidable (p.IsMet above) :=
  match p with
  | .direct => inferInstanceAs (Decidable (above.head? = some .form))
  | .transitive => inferInstanceAs (Decidable (Kind.form ∈ above))

namespace Kind

/-- Whether an element may stand below elements of the kinds `above`, nearest first: the message
around all others, no form inside another, and every field in a form. -/
def MayStand (k : Kind) (rules : Containment) (above : List Kind) : Prop :=
  match k with
  | message => above = []
  | form => form ∉ above
  | div | text => True
  | button | checkbox | personSelector => ∀ p ∈ rules.policy? k, p.IsMet above

instance (k : Kind) (rules : Containment) (above : List Kind) :
    Decidable (k.MayStand rules above) :=
  match k with
  | message => inferInstanceAs (Decidable (above = []))
  | form => inferInstanceAs (Decidable (form ∉ above))
  | div | text => inferInstanceAs (Decidable True)
  | button | checkbox | personSelector =>
    inferInstanceAs (Decidable (∀ p ∈ rules.policy? _, p.IsMet above))

/-- The fault of an element that may not stand where it is. -/
def misplacement (k : Kind) (rules : Containment) : Fault :=
  match k with
  | message => .rootOnly k.tag
  | form | div | text => .nestedElement k.tag
  | button | checkbox | personSelector =>
    .illegalContainment k.tag form.tag ((rules.policy? k).getD .transitive)

theorem placementFaultBelow?_within {k : Kind} {rules : Containment} {p : Policy}
    (hpolicy : rules.policy? k = some p) (above : List Kind) :
    k.placementFaultBelow? rules above =
      if p.IsMet above then none else some (.illegalContainment k.tag form.tag p) := by
  cases k with
  | message | form | div | text => cases hpolicy
  | button | checkbox | personSelector =>
    simp only [placementFaultBelow?, contract, hpolicy, Option.getD_some]
    by_cases h : p.IsMet above
    · rw [if_pos h]
      cases p <;> simpa [Policy.IsMet] using h
    · rw [if_neg h]
      cases p <;> simpa [Policy.IsMet] using h

theorem placementFaultBelow?_eq (k : Kind) (rules : Containment) (above : List Kind) :
    k.placementFaultBelow? rules above =
      if k.MayStand rules above then none else some (k.misplacement rules) := by
  by_cases h : k.MayStand rules above
  · rw [if_pos h]
    cases k with
    | message | form => simpa [placementFaultBelow?, contract, MayStand] using h
    | div | text => rfl
    | button | checkbox | personSelector =>
      rw [placementFaultBelow?_within rfl, if_pos (h _ rfl)]
  · rw [if_neg h]
    cases k with
    | message | form => simpa [placementFaultBelow?, contract, MayStand, misplacement] using h
    | div | text => exact absurd trivial h
    | button | checkbox | personSelector =>
      rw [placementFaultBelow?_within rfl, if_neg fun hmet => h ?_]
      · rfl
      · rintro _ ⟨⟩
        exact hmet

theorem placementFaultBelow?_eq_none_iff {k : Kind} {rules : Containment} {above : List Kind} :
    k.placementFaultBelow? rules above = none ↔ k.MayStand rules above := by
  rw [placementFaultBelow?_eq]
  split <;> simp_all

end Kind
end ChatForms
