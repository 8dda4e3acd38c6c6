import ChatForms.Proofs.Attributes

namespace ChatForms

/-- No attributes under any names but these. -/
def Attributes.Within (attributes : Attributes) (names : List String) : Prop :=
  ∀ name ∈ attributes.keys, name ∈ names

/-- An attribute with more than white space for its value. -/
def Attributes.Says (attributes : Attributes) (name : String) : Prop :=
  ∃ value ∈ attributes.get? name, Text.isBlank value = false

instance (attributes : Attributes) (names : List String) : Decidable (attributes.Within names) :=
  inferInstanceAs (Decidable (∀ name ∈ attributes.keys, name ∈ names))

instance (attributes : Attributes) (name : String) : Decidable (attributes.Says name) :=
  inferInstanceAs (Decidable (∃ value ∈ attributes.get? name, Text.isBlank value = false))

/-- The attributes that elements of a kind bear. -/
def Kind.Bears (k : Kind) (attributes : Attributes) : Prop :=
  match k with
  | message | personSelector | text => attributes.Within []
  | form => attributes.Within ["id"] ∧ attributes.Says "id"
  | div => attributes.Within ["class"]
  | button =>
    attributes.Within ["name", "id", "type", "class"] ∧
      (attributes.get? "type" = some "action" ∨ attributes.get? "type" = some "reset") ∧
      (∀ value ∈ attributes.get? "class", value ∈
        ["primary", "secondary", "primary-destructive", "secondary-destructive"]) ∧
      (∀ value ∈ attributes.get? "name", Text.lower value = value) ∧
      (∀ value ∈ attributes.get? "id", Text.lower value = value) ∧
      (attributes.get? "type" = some "action" → attributes.Says "name" ∨ attributes.Says "id")
  | checkbox =>
    attributes.Within ["name", "value", "checked"] ∧ attributes.Says "name" ∧
      (attributes.get? "value").isSome ∧
      ∀ value ∈ attributes.get? "checked", value = "true" ∨ value = "false"

instance (k : Kind) (attributes : Attributes) : Decidable (k.Bears attributes) :=
  match k with
  | .message | .personSelector | .text | .div => inferInstanceAs (Decidable (attributes.Within _))
  | .form | .button | .checkbox => inferInstanceAs (Decidable (_ ∧ _))

/-- A value that is stored as it is and is listed, if there is a list. -/
def AttributeRule.Allows (r : AttributeRule) (value : String) : Prop :=
  match r.values with
  | some set => value ∈ set.values
  | none => r.normalize value = value

namespace AttributeRule
variable {name value : String} {default : Option Default}

theorem allows_verbatim : (AttributeRule.mk name .verbatim none default).Allows value := rfl

theorem allows_lowercase :
    (AttributeRule.mk name .lowercase none default).Allows value ↔ Text.lower value = value :=
  Iff.rfl

theorem allows_listed {n : Normalization} {set : ValueSet} :
    (AttributeRule.mk name n (some set) default).Allows value ↔ value ∈ set.values := Iff.rfl

end AttributeRule

/-- One of two values is there if there is a value and it is none but these. -/
theorem eq_some_or_iff {o : Option String} {a b : String} :
    (o = some a ∨ o = some b) ↔ (∀ value ∈ o, value ∈ [a, b]) ∧ o.isSome := by
  cases o <;> simp

namespace Kind

theorem normalize_of_listed (k : Kind) : ∀ r ∈ k.contract.rules, ∀ set ∈ r.values,
    ∀ value ∈ set.values, r.normalize value = value := by
  cases k <;> decide +kernel

theorem allows_iff {k : Kind} {r : AttributeRule} (hr : r ∈ k.contract.rules) {value : String} :
    r.Allows value ↔ r.normalize value = value ∧ ∀ set ∈ r.values, value ∈ set.values := by
  unfold AttributeRule.Allows
  cases hset : r.values with
  | none => simp
  | some set =>
    refine ⟨fun hlisted => ⟨k.normalize_of_listed r hr set hset value hlisted, ?_⟩, fun h => ?_⟩
    · rintro _ ⟨⟩
      exact hlisted
    · exact h.2 set rfl

theorem rule?_name (k : Kind) : ∀ r ∈ k.contract.rules, k.contract.rule? r.name = some r := by
  cases k <;> decide

theorem ruleFault?_eq_none_iff {k : Kind} {attributes : Attributes} {r : AttributeRule} :
    k.ruleFault? attributes r = none ↔
      ∀ set ∈ r.values, ∀ value ∈ attributes.get? r.name, value ∈ set.values := by
  unfold ruleFault?
  cases r.values <;> cases attributes.get? r.name <;> simp

theorem requirementFault?_eq_none_iff {k : Kind} {attributes : Attributes} {r : Requirement} :
    k.requirementFault? attributes r = none ↔
      (r.applies attributes = true → r.isMet attributes = true) := by
  unfold requirementFault?
  cases r.applies attributes <;> cases r.isMet attributes <;> simp

theorem ruleFault?_eq_some {k : Kind} {attributes : Attributes} {r : AttributeRule} {fault : Fault}
    (h : k.ruleFault? attributes r = some fault) :
    ∃ set ∈ r.values, fault = .invalidAttributeValue k.tag r.name set.values set.style := by
  unfold ruleFault? at h
  split at h
  · next set _ hset _ =>
    split at h <;> cases h
    exact ⟨set, hset, rfl⟩
  · cases h

theorem requirementFault?_eq_some {k : Kind} {attributes : Attributes} {r : Requirement}
    {fault : Fault} (h : k.requirementFault? attributes r = some fault) :
    fault = .missingRequiredAttribute k.tag r.name r.condition := by
  unfold requirementFault? at h
  split at h <;> cases h
  rfl

theorem isMet_iff {r : Requirement} {attributes : Attributes} :
    r.isMet attributes = true ↔ ∃ name ∈ r.name :: r.alternatives, attributes.Says name := by
  simp only [Requirement.isMet, List.any_eq_true, Attributes.Says, Option.any_eq_true,
    Bool.not_eq_true', Option.mem_def]

theorem Stores.within {k : Kind} {attributes : Attributes} (h : k.Stores attributes) :
    attributes.Within (k.contract.rules.map (·.name)) := by
  intro name hname
  obtain ⟨value, hvalue⟩ := StringMap.mem_keys.mp hname
  obtain ⟨r, hr, -⟩ := h.listed name value hvalue
  exact List.mem_map.mpr ⟨r, Contract.of_rule? hr⟩

/-- What a contract asks of attributes, rule by rule. -/
theorem stores_iff {k : Kind} {attributes : Attributes} :
    k.Stores attributes ∧ k.attributesFault? attributes = none ↔
      attributes.Within (k.contract.rules.map (·.name)) ∧
        (∀ r ∈ k.contract.rules, (∀ value ∈ attributes.get? r.name, r.Allows value) ∧
          (r.stored?.isSome → (attributes.get? r.name).isSome)) ∧
        ∀ r ∈ k.contract.requirements, r.applies attributes = true →
          ∃ name ∈ r.name :: r.alternatives, attributes.Says name := by
  rw [attributesFault?, Option.or_eq_none_iff, List.findSome?_eq_none_iff,
    List.findSome?_eq_none_iff]
  simp only [ruleFault?_eq_none_iff, requirementFault?_eq_none_iff, isMet_iff]
  constructor
  · rintro ⟨hstores, hrules, hrequirements⟩
    refine ⟨hstores.within, fun r hr => ⟨fun value hvalue => ?_, fun hstored => ?_⟩,
      hrequirements⟩
    · obtain ⟨r', hr', hnormal⟩ := hstores.listed r.name value hvalue
      rw [k.rule?_name r hr] at hr'
      cases hr'
      exact (allows_iff hr).mpr ⟨hnormal, fun set hset => hrules r hr set hset value hvalue⟩
    · obtain ⟨value, hvalue⟩ := Option.isSome_iff_exists.mp hstored
      exact hstores.defaulted r hr value (AttributeRule.stored?_eq_some_iff.mp hvalue)
  · rintro ⟨hwithin, hrules, hrequirements⟩
    refine ⟨⟨fun name value hvalue => ?_, fun r hr value hvalue => ?_⟩,
      fun r hr set hset value hvalue => ?_, hrequirements⟩
    · obtain ⟨r, hr, rfl⟩ := List.mem_map.mp (hwithin name (StringMap.mem_keys.mpr ⟨value, hvalue⟩))
      exact ⟨r, k.rule?_name r hr, ((allows_iff hr).mp ((hrules r hr).1 value hvalue)).1⟩
    · exact (hrules r hr).2
        (Option.isSome_of_eq_some (AttributeRule.stored?_eq_some_iff.mpr hvalue))
    · exact ((allows_iff hr).mp ((hrules r hr).1 value hvalue)).2 set hset

theorem bears_iff {k : Kind} {attributes : Attributes} :
    k.Bears attributes ↔ k.Stores attributes ∧ k.attributesFault? attributes = none := by
  rw [stores_iff]
  cases k with
  | message | personSelector | text => simp [Bears, contract, Contract.rules]
  | form =>
    simp [Bears, contract, Contract.rules, AttributeRule.plain, AttributeRule.allows_verbatim,
      AttributeRule.stored?, Requirement.always, Requirement.applies]
  | div =>
    simp [Bears, contract, Contract.rules, AttributeRule.plain, AttributeRule.allows_verbatim,
      AttributeRule.stored?]
  | button =>
    simp [Bears, contract, Contract.rules, buttonRules, AttributeRule.lowercase,
      AttributeRule.allows_lowercase, AttributeRule.allows_listed, AttributeRule.stored?,
      Requirement.applies, eq_some_or_iff, and_assoc, and_left_comm]
  | checkbox =>
    simp [Bears, contract, Contract.rules, checkboxRules, AttributeRule.plain,
      AttributeRule.allows_verbatim, AttributeRule.allows_listed, AttributeRule.stored?,
      Requirement.always, Requirement.applies, and_left_comm, and_comm]

end Kind
end ChatForms
