import ChatForms.Presentation
import ChatForms.Proofs.StringMap
import ChatForms.Proofs.Text.Lower

namespace ChatForms

def Element.values (e : Element) : List String := e.attributes.entries.map (·.2)

theorem Element.mem_values {e : Element} {value : String} :
    value ∈ e.values ↔ ∃ name, e.attribute? name = some value := by
  rw [values, List.mem_map]
  constructor
  · rintro ⟨⟨name, _⟩, hmem, rfl⟩
    exact ⟨name, StringMap.mem_entries.mp hmem⟩
  · rintro ⟨name, hvalue⟩
    exact ⟨(name, value), StringMap.mem_entries.mpr hvalue, rfl⟩

theorem Element.mem_pick {e : Element} {names : List String} {a : String × String} :
    a ∈ e.pick names ↔ a.1 ∈ names ∧ e.attribute? a.1 = some a.2 := by
  simp only [pick, List.mem_filterMap, Option.map_eq_some_iff]
  constructor
  · rintro ⟨name, hname, value, hvalue, rfl⟩
    exact ⟨hname, hvalue⟩
  · rintro ⟨hname, hvalue⟩
    exact ⟨a.1, hname, a.2, hvalue, rfl⟩

@[simp] theorem AttributeRule.normalize_normalize (r : AttributeRule) (value : String) :
    r.normalize (r.normalize value) = r.normalize value := by
  unfold normalize
  split
  · exact Text.lower_lower value
  · rfl

theorem AttributeRule.mem_normalize {r : AttributeRule} {value : String} {x : Char}
    (h : x ∈ (r.normalize value).toList) : x ∈ value.toList ∨ Text.IsClear x := by
  unfold normalize at h
  split at h
  · exact Text.mem_lower h
  · exact Or.inl h

/-- The value that is stored if none is written. -/
def AttributeRule.stored? (r : AttributeRule) : Option String :=
  match r.default with
  | some (.stored value) => some value
  | _ => none

theorem AttributeRule.stored?_eq_some_iff {r : AttributeRule} {value : String} :
    r.stored? = some value ↔ r.default = some (.stored value) := by
  unfold stored?
  split <;> simp_all

theorem Contract.of_rule? {c : Contract} {name : String} {rule : AttributeRule}
    (h : c.rule? name = some rule) : rule ∈ c.rules ∧ rule.name = name :=
  ⟨List.mem_of_find?_eq_some h, by simpa using List.find?_some h⟩

namespace Kind

/-- A default stands for an attribute of its contract, and in the form in which it is stored. -/
theorem default_normal (k : Kind) {rule : AttributeRule} (hrule : rule ∈ k.contract.rules)
    {value : String} (hvalue : rule.default = some (.stored value)) :
    k.contract.rule? rule.name = some rule ∧ rule.normalize value = value ∧
      ∀ c ∈ value.toList, Text.IsClear c := by
  cases k with
  | button =>
    have hcases : rule = ⟨"type", .lowercase, some ⟨["action", "reset"], .prose⟩,
        some (.stored "action")⟩ := by
      simp only [contract, Contract.rules, buttonRules, List.mem_cons, List.not_mem_nil,
        or_false] at hrule
      rcases hrule with rfl | rfl | rfl | rfl <;> first | rfl | cases hvalue
    subst hcases
    cases hvalue
    decide
  | checkbox =>
    have hcases : rule = ⟨"value", .verbatim, none, some (.stored "on")⟩ := by
      simp only [contract, Contract.rules, checkboxRules, List.mem_cons, List.not_mem_nil,
        or_false] at hrule
      rcases hrule with rfl | rfl | rfl <;> first | rfl | cases hvalue
    subst hcases
    cases hvalue
    decide
  | form | div =>
    rw [List.mem_singleton.mp hrule] at hvalue
    cases hvalue
  | message | personSelector | text => cases hrule

/-- Attributes as elements of a kind store them: under names that the contract lists, in normal
form, and with the defaults in place. -/
structure Stores (k : Kind) (attributes : Attributes) : Prop where
  listed : ∀ name value, attributes.get? name = some value →
    ∃ rule, k.contract.rule? name = some rule ∧ rule.normalize value = value
  defaulted : ∀ rule ∈ k.contract.rules, ∀ value, rule.default = some (.stored value) →
    (attributes.get? rule.name).isSome

theorem Stores.get?_eq_none {k : Kind} {attributes : Attributes} (h : k.Stores attributes)
    {name : String} (hrule : k.contract.rule? name = none) : attributes.get? name = none := by
  cases hvalue : attributes.get? name with
  | none => rfl
  | some value =>
    obtain ⟨rule, hsome, -⟩ := h.listed name value hvalue
    rw [hrule] at hsome
    cases hsome

/-- Where a contract lists no attributes, none are stored. -/
theorem Stores.eq_empty {k : Kind} {attributes : Attributes} (h : k.Stores attributes)
    (hrules : k.contract.rules = []) : attributes = .empty := by
  ext name : 1
  rw [StringMap.get?_empty, h.get?_eq_none]
  rw [Contract.rule?, hrules]
  rfl

theorem Stores.stored?_eq_none {k : Kind} {attributes : Attributes} (h : k.Stores attributes)
    {name : String} {rule : AttributeRule} (hrule : k.contract.rule? name = some rule)
    (hnone : attributes.get? name = none) : rule.stored? = none := by
  obtain ⟨hmem, hname⟩ := Contract.of_rule? hrule
  cases hstored : rule.stored? with
  | none => rfl
  | some value =>
    have hsome := h.defaulted rule hmem value
      (AttributeRule.stored?_eq_some_iff.mp hstored)
    rw [hname, hnone] at hsome
    cases hsome

/-! ### Collected attributes -/

theorem of_collectListed {k : Kind} {P : String → String → Prop}
    {written : List (String × String)} {start attributes : Attributes}
    (h : k.collectListed start written = .ok attributes)
    (hwritten : ∀ a ∈ written, ∀ rule, k.contract.rule? a.1 = some rule →
      P a.1 (rule.normalize a.2))
    (hstart : ∀ name value, start.get? name = some value → P name value) :
    ∀ name value, attributes.get? name = some value → P name value := by
  induction written generalizing start with
  | nil =>
    cases h
    exact hstart
  | cons a rest ih =>
    obtain ⟨ha, hrest⟩ := List.forall_mem_cons.mp hwritten
    rw [collectListed] at h
    split at h
    · next rule hrule =>
      refine ih h hrest ?_
      intro name value hvalue
      rw [StringMap.get?_insert] at hvalue
      split at hvalue
      · next hname =>
        cases hvalue
        exact hname ▸ ha rule hrule
      · exact hstart name value hvalue
    · cases h

theorem addDefaults_cons (start : Attributes) (rule : AttributeRule) (rules : List AttributeRule) :
    addDefaults start (rule :: rules) =
      addDefaults (match rule.stored? with
        | some value => start.insertIfNew rule.name value
        | none => start) rules := by
  rw [addDefaults, List.foldl_cons, ← addDefaults]
  unfold AttributeRule.stored?
  cases rule.default with
  | none => rfl
  | some default => cases default <;> rfl

/-- Where a value is missing, the first default for it is stored. -/
theorem get?_addDefaults (start : Attributes) (rules : List AttributeRule) (name : String) :
    (addDefaults start rules).get? name =
      (start.get? name).or
        (rules.findSome? fun r => if r.name = name then r.stored? else none) := by
  induction rules generalizing start with
  | nil => exact Option.or_none.symm
  | cons rule rules ih =>
    rw [addDefaults_cons, ih, List.findSome?_cons]
    cases hstored : rule.stored? with
    | none => simp
    | some value =>
      rw [StringMap.get?_insertIfNew]
      by_cases hname : rule.name = name
      · subst hname
        simp
      · simp [hname, Ne.symm hname]

theorem addDefaults_defaulted {rules : List AttributeRule} (start : Attributes)
    {rule : AttributeRule} (hrule : rule ∈ rules) {value : String}
    (hvalue : rule.default = some (.stored value)) :
    ((addDefaults start rules).get? rule.name).isSome := by
  rw [get?_addDefaults, Option.isSome_or, Bool.or_eq_true, List.findSome?_isSome_iff]
  refine Or.inr ⟨rule, hrule, ?_⟩
  rw [if_pos rfl, AttributeRule.stored?_eq_some_iff.mpr hvalue]
  rfl

theorem exists_of_collect {k : Kind} {origin : Origin} {written : List (String × String)}
    {attributes : Attributes} (h : k.collect origin written = .ok attributes) :
    ∃ listed, k.collectListed .empty written = .ok listed ∧
      attributes = addDefaults listed k.contract.rules := by
  unfold collect at h
  cases hattributes : k.contract.attributes with
  | listed rules =>
    simp only [hattributes] at h
    have hcontract : k.contract.rules = rules := by rw [Contract.rules, hattributes]
    cases hlisted : k.collectListed .empty written with
    | error fault =>
      rw [hlisted] at h
      cases h
    | ok listed =>
      rw [hlisted] at h
      cases h
      exact ⟨listed, rfl, by rw [hcontract]⟩
  | forbidden =>
    simp only [hattributes] at h
    have hcontract : k.contract.rules = [] := by rw [Contract.rules, hattributes]
    cases written with
    | nil =>
      cases h
      exact ⟨.empty, rfl, by rw [hcontract]; rfl⟩
    | cons a rest => cases origin <;> cases h

/-- What holds of the normal form of written values and of defaults holds of stored attributes. -/
theorem of_collect {k : Kind} {origin : Origin} {P : String → String → Prop}
    {written : List (String × String)} {attributes : Attributes}
    (h : k.collect origin written = .ok attributes)
    (hwritten : ∀ a ∈ written, ∀ rule, k.contract.rule? a.1 = some rule →
      P a.1 (rule.normalize a.2))
    (hdefault : ∀ rule ∈ k.contract.rules, ∀ value, rule.default = some (.stored value) →
      P rule.name value) :
    ∀ name value, attributes.get? name = some value → P name value := by
  obtain ⟨listed, hlisted, rfl⟩ := exists_of_collect h
  intro name value hvalue
  rw [get?_addDefaults, Option.or_eq_some_iff] at hvalue
  rcases hvalue with hvalue | ⟨-, hvalue⟩
  · exact of_collectListed hlisted hwritten (by simp) name value hvalue
  · obtain ⟨rule, hrule, hstored⟩ := List.exists_of_findSome?_eq_some hvalue
    rw [Option.ite_none_right_eq_some, AttributeRule.stored?_eq_some_iff] at hstored
    obtain ⟨rfl, hstored⟩ := hstored
    exact hdefault rule hrule value hstored

theorem stores_of_collect {k : Kind} {origin : Origin} {written : List (String × String)}
    {attributes : Attributes} (h : k.collect origin written = .ok attributes) :
    k.Stores attributes := by
  constructor
  · refine of_collect h ?_ ?_
    · intro a _ rule hrule
      exact ⟨rule, hrule, rule.normalize_normalize a.2⟩
    · intro rule hrule value hvalue
      obtain ⟨hname, hnormal, -⟩ := k.default_normal hrule hvalue
      exact ⟨rule, hname, hnormal⟩
  · intro rule hrule value hvalue
    obtain ⟨listed, -, rfl⟩ := exists_of_collect h
    exact addDefaults_defaulted listed hrule hvalue

/-- Of several values under one name the last one counts. -/
theorem get?_collectListed {k : Kind} {written : List (String × String)}
    {start attributes : Attributes} (h : k.collectListed start written = .ok attributes)
    {name : String} {rule : AttributeRule} (hrule : k.contract.rule? name = some rule) :
    attributes.get? name =
      ((written.reverse.lookup name).map rule.normalize).or (start.get? name) := by
  induction written generalizing start with
  | nil =>
    cases h
    rfl
  | cons a rest ih =>
    obtain ⟨n, value⟩ := a
    rw [collectListed] at h
    split at h
    · next rule' hrule' =>
      rw [ih h, StringMap.get?_insert, List.reverse_cons, List.lookup_append]
      by_cases hname : name = n
      · subst hname
        rw [hrule] at hrule'
        cases hrule'
        cases rest.reverse.lookup name <;> simp
      · have hnone : [(n, value)].lookup name = none := by
          rw [StringMap.lookup_cons_ite, if_neg hname]
          rfl
        rw [hnone, Option.or_none, if_neg hname]
    · cases h

/-- Nothing is collected that the contract does not list. -/
theorem listed_of_collectListed {k : Kind} {written : List (String × String)}
    {start attributes : Attributes} (h : k.collectListed start written = .ok attributes) :
    ∀ a ∈ written, (k.contract.rule? a.1).isSome := by
  induction written generalizing start with
  | nil => simp
  | cons a rest ih =>
    rw [collectListed] at h
    split at h
    · next rule hrule => exact List.forall_mem_cons.mpr ⟨by rw [hrule]; rfl, ih h⟩
    · cases h

theorem stored?_of_rule? {k : Kind} {name : String} {rule : AttributeRule}
    (h : k.contract.rule? name = some rule) :
    (k.contract.rules.findSome? fun r => if r.name = name then r.stored? else none) =
      rule.stored? := by
  obtain ⟨hmem, hname⟩ := Contract.of_rule? h
  have hall : ∀ r ∈ k.contract.rules,
      (k.contract.rules.findSome? fun r' => if r'.name = r.name then r'.stored? else none) =
        r.stored? := by
    cases k <;> decide
  exact hname ▸ hall rule hmem

/-- What is stored under a name: the last value that was written, in normal form, or the default. -/
theorem get?_of_collect {k : Kind} {origin : Origin} {written : List (String × String)}
    {attributes : Attributes} (h : k.collect origin written = .ok attributes) {name : String}
    {rule : AttributeRule} (hrule : k.contract.rule? name = some rule) :
    attributes.get? name = ((written.reverse.lookup name).map rule.normalize).or rule.stored? := by
  obtain ⟨listed, hlisted, rfl⟩ := exists_of_collect h
  rw [get?_addDefaults, get?_collectListed hlisted hrule, StringMap.get?_empty, Option.or_none,
    stored?_of_rule? hrule]

/-- Stored values hold no characters but those that were written and clear ones. -/
theorem mem_of_collect {k : Kind} {origin : Origin} {written : List (String × String)}
    {attributes : Attributes} (h : k.collect origin written = .ok attributes) {name value : String}
    (hvalue : attributes.get? name = some value) {c : Char} (hc : c ∈ value.toList) :
    (∃ a ∈ written, c ∈ a.2.toList) ∨ Text.IsClear c := by
  refine of_collect (P := fun _ value => ∀ c ∈ value.toList,
    (∃ a ∈ written, c ∈ a.2.toList) ∨ Text.IsClear c) h ?_ ?_ name value hvalue c hc
  · intro a ha rule _ c hc
    exact (AttributeRule.mem_normalize hc).imp_left fun hc => ⟨a, ha, hc⟩
  · intro rule hrule value hvalue c hc
    exact Or.inr ((k.default_normal hrule hvalue).2.2 c hc)

/-! ### Attributes that are written again -/

theorem exists_collectListed {k : Kind} {written : List (String × String)}
    (h : ∀ a ∈ written, (k.contract.rule? a.1).isSome) (start : Attributes) :
    ∃ attributes, k.collectListed start written = .ok attributes := by
  induction written generalizing start with
  | nil => exact ⟨start, rfl⟩
  | cons a rest ih =>
    obtain ⟨ha, hrest⟩ := List.forall_mem_cons.mp h
    obtain ⟨rule, hrule⟩ := Option.isSome_iff_exists.mp ha
    rw [collectListed, hrule]
    exact ih hrest _

theorem exists_collect {k : Kind} {written : List (String × String)}
    (h : ∀ a ∈ written, (k.contract.rule? a.1).isSome) (origin : Origin) :
    ∃ attributes, k.collect origin written = .ok attributes := by
  unfold collect
  cases hattributes : k.contract.attributes with
  | listed rules =>
    obtain ⟨listed, hlisted⟩ := exists_collectListed h .empty
    exact ⟨_, by rw [hlisted]; rfl⟩
  | forbidden =>
    cases written with
    | nil => exact ⟨_, rfl⟩
    | cons a rest =>
      have ha := h a List.mem_cons_self
      simp [Contract.rule?, Contract.rules, hattributes] at ha

/-- What an element of a kind is told about an attribute that its contract does not list. -/
def refusal (k : Kind) (origin : Origin) (name : String) : Fault :=
  match k.contract.attributes, origin with
  | .forbidden, .author => .attributesNotAllowed k.tag
  | _, _ => .unknownAttribute k.tag name

theorem collectListed_eq_error {k : Kind} {written : List (String × String)} {a : String × String}
    (h : written.find? (fun a => (k.contract.rule? a.1).isNone) = some a) (start : Attributes) :
    k.collectListed start written = .error (.unknownAttribute k.tag a.1) := by
  induction written generalizing start with
  | nil => cases h
  | cons b rest ih =>
    rw [List.find?_cons] at h
    rw [collectListed]
    cases hrule : k.contract.rule? b.1 with
    | some rule =>
      rw [hrule] at h
      exact ih h _
    | none =>
      rw [hrule] at h
      cases h
      rfl

/-- The first attribute that is not listed is the one to blame. -/
theorem collect_eq_error {k : Kind} {written : List (String × String)} {a : String × String}
    (h : written.find? (fun a => (k.contract.rule? a.1).isNone) = some a) (origin : Origin) :
    k.collect origin written = .error (k.refusal origin a.1) := by
  unfold collect refusal
  cases hattributes : k.contract.attributes with
  | listed rules =>
    rw [collectListed_eq_error h]
    rfl
  | forbidden =>
    have hnone : ∀ name, (k.contract.rule? name).isNone = true := by
      simp [Contract.rule?, Contract.rules, hattributes]
    cases written with
    | nil => cases h
    | cons b rest =>
      rw [List.find?_cons, hnone] at h
      cases h
      cases origin <;> rfl

/-- Stored attributes are collected as they are, whoever wrote them, if nothing else is written and
each of them is the last one of its name. -/
theorem Stores.collect_eq {k : Kind} {attributes : Attributes} (h : k.Stores attributes)
    {written : List (String × String)}
    (hwritten : ∀ a ∈ written, (attributes.get? a.1).isSome)
    (hlast : ∀ name value, attributes.get? name = some value →
      written.reverse.lookup name = some value) (origin : Origin) :
    k.collect origin written = .ok attributes := by
  have hlisted : ∀ a ∈ written, (k.contract.rule? a.1).isSome := by
    intro a ha
    obtain ⟨value, hvalue⟩ := Option.isSome_iff_exists.mp (hwritten a ha)
    obtain ⟨rule, hrule, -⟩ := h.listed a.1 value hvalue
    rw [hrule]
    rfl
  obtain ⟨collected, hcollect⟩ := exists_collect hlisted origin
  have hsame : collected = attributes := by
    ext name : 1
    cases hrule : k.contract.rule? name with
    | none => rw [(stores_of_collect hcollect).get?_eq_none hrule, h.get?_eq_none hrule]
    | some rule =>
      rw [get?_of_collect hcollect hrule]
      cases hvalue : attributes.get? name with
      | some value =>
        obtain ⟨rule', hrule', hnormal⟩ := h.listed name value hvalue
        rw [hrule] at hrule'
        cases hrule'
        rw [hlast name value hvalue, Option.map_some, hnormal, Option.some_or]
      | none =>
        have hnone : written.reverse.lookup name = none := by
          rw [List.lookup_eq_none_iff]
          intro a ha
          rw [bne_iff_ne]
          rintro rfl
          simpa [hvalue] using hwritten a (List.mem_reverse.mp ha)
        rw [hnone, Option.map_none, Option.none_or, h.stored?_eq_none hrule hvalue]
  rw [hcollect, hsame]

/-- The names under which attributes of an element are written. -/
def writtenNames : Kind → List String
  | form => ["id"]
  | div => ["class"]
  | button => Presentation.buttonNames
  | checkbox => Presentation.checkboxNames
  | message | personSelector | text => []

theorem mem_writtenNames {k : Kind} {name : String} {rule : AttributeRule}
    (h : k.contract.rule? name = some rule) : name ∈ k.writtenNames := by
  obtain ⟨hrule, hname⟩ := Contract.of_rule? h
  have hall : ∀ r ∈ k.contract.rules, r.name ∈ k.writtenNames := by cases k <;> decide
  exact hname ▸ hall rule hrule

theorem last_of_pick {k : Kind} {e : Element} (h : k.Stores e.attributes) {name value : String}
    (hvalue : e.attribute? name = some value) :
    (e.pick k.writtenNames).reverse.lookup name = some value := by
  obtain ⟨rule, hrule, -⟩ := h.listed name value hvalue
  refine StringMap.lookup_eq_some_of_forall ?_ ?_
  · rw [List.mem_reverse, Element.mem_pick]
    exact ⟨mem_writtenNames hrule, hvalue⟩
  · intro a ha hname
    obtain ⟨-, ha⟩ := Element.mem_pick.mp (List.mem_reverse.mp ha)
    rw [hname, hvalue] at ha
    exact (Option.some.inj ha).symm

theorem collect_pick {k : Kind} {e : Element} (h : k.Stores e.attributes) (origin : Origin) :
    k.collect origin (e.pick k.writtenNames) = .ok e.attributes := by
  refine h.collect_eq ?_ (fun _ _ => last_of_pick h) origin
  intro a ha
  exact Option.isSome_of_eq_some (Element.mem_pick.mp ha).2

end Kind
end ChatForms
