import ChatForms.Proofs.Contract
import ChatForms.Proofs.Text.Ascii
import Mathlib.Logic.Basic

namespace ChatForms
open Text (EqCaseless)

/-! ### Listed values -/

namespace Kind

theorem listed_ascii (k : Kind) : ∀ r ∈ k.contract.rules, ∀ set ∈ r.values,
    ∀ allowed ∈ set.values, allowed.toList.all fun c => Text.IsAscii c ∧ c ≠ 'k' := by
  cases k <;> decide +kernel

theorem stored?_listed (k : Kind) : ∀ r ∈ k.contract.rules, ∀ set ∈ r.values,
    ∀ value ∈ r.stored?, value ∈ set.values := by
  cases k <;> decide

variable {k : Kind} {r : AttributeRule} {set : ValueSet} {value : String}

/-- A value is stored as a listed one if they differ in nothing but the case of their letters. -/
theorem normalize_eq_iff (hr : r ∈ k.contract.rules) (hset : set ∈ r.values) {allowed : String}
    (hallowed : allowed ∈ set.values) : r.normalize value = allowed ↔ EqCaseless value allowed := by
  have hascii : ∀ c ∈ allowed.toList, Text.IsAscii c ∧ c ≠ 'k' := by
    simpa only [List.all_eq_true, decide_eq_true_eq] using
      k.listed_ascii r hr set hset allowed hallowed
  have hnormalize : ∀ s, r.normalize s = Text.lower s := by
    intro s
    rw [AttributeRule.normalize, Option.mem_def.mp hset]
    rfl
  have hlower : Text.lowerAscii allowed = allowed := by
    rw [← Text.lower_eq_iff hascii, ← hnormalize]
    exact k.normalize_of_listed r hr set hset allowed hallowed
  rw [hnormalize, Text.lower_eq_iff hascii, EqCaseless, hlower]

theorem normalize_mem_iff (hr : r ∈ k.contract.rules) (hset : set ∈ r.values) :
    r.normalize value ∈ set.values ↔ ∃ allowed ∈ set.values, EqCaseless value allowed := by
  constructor
  · intro hmem
    exact ⟨_, hmem, (normalize_eq_iff hr hset hmem).mp rfl⟩
  · rintro ⟨allowed, hallowed, hsame⟩
    rwa [(normalize_eq_iff hr hset hallowed).mpr hsame]

end Kind

/-! ### Collected attributes -/

/-- The attributes that are stored for what is written where these rules hold. The last value under
a name counts, and what is stored can be written again. Listed values pass if nothing but the case
of letters of ASCII is changed. -/
structure Kind.IsCollected (k : Kind) (rules : List AttributeRule)
    (written : List (String × String)) (attributes : Attributes) : Prop where
  stored : ∀ r ∈ rules, attributes.get? r.name =
    ((written.reverse.lookup r.name).map r.normalize).or r.stored?
  only : ∀ name ∈ attributes.keys, name ∈ rules.map (·.name)
  again : ∀ origin entries, entries.Perm attributes.entries →
    k.collect origin entries = .ok attributes
  passes : ∀ r ∈ rules, ∀ set ∈ r.values, ∀ value ∈ written.reverse.lookup r.name,
    k.ruleFault? attributes r = none ↔ ∃ allowed ∈ set.values, EqCaseless value allowed
  spelled : ∀ r ∈ rules, ∀ set ∈ r.values, ∀ value ∈ written.reverse.lookup r.name,
    ∀ allowed ∈ set.values, EqCaseless value allowed → attributes.get? r.name = some allowed
  faults : (∃ tag name allowed style,
      k.attributesFault? attributes = some (.invalidAttributeValue tag name allowed style)) ↔
    ∃ r ∈ rules, ∃ set ∈ r.values, ∃ value ∈ written.reverse.lookup r.name,
      ∀ allowed ∈ set.values, ¬EqCaseless value allowed

namespace Kind

theorem isNone_rule?_iff {c : Contract} {name : String} :
    (c.rule? name).isNone ↔ name ∉ c.rules.map (·.name) := by
  simp [Contract.rule?, List.find?_eq_none]

variable {k : Kind} {attributes : Attributes}

/-- Stored attributes can be written again in any order. -/
theorem Stores.collect_entries (h : k.Stores attributes) {entries : List (String × String)}
    (hentries : entries.Perm attributes.entries) (origin : Origin) :
    k.collect origin entries = .ok attributes := by
  refine h.collect_eq (fun a ha => ?_) (fun name value hvalue => ?_) origin
  · exact Option.isSome_of_eq_some (StringMap.mem_entries.mp (hentries.mem_iff.mp ha))
  · have hperm : attributes.entries.Perm entries.reverse :=
      hentries.symm.trans (List.reverse_perm entries).symm
    rw [← StringMap.lookup_perm attributes.nodup_keys hperm]
    exact hvalue

/-- Values outside their sets are the only ones that the faults of values tell of. -/
theorem exists_invalid_iff :
    (∃ tag name allowed style,
        k.attributesFault? attributes = some (.invalidAttributeValue tag name allowed style)) ↔
      ∃ r ∈ k.contract.rules, (k.ruleFault? attributes r).isSome := by
  rw [← List.findSome?_isSome_iff, attributesFault?]
  cases hrules : k.contract.rules.findSome? (k.ruleFault? attributes) with
  | some fault =>
    obtain ⟨r, -, hfault⟩ := List.exists_of_findSome?_eq_some hrules
    obtain ⟨set, -, rfl⟩ := ruleFault?_eq_some hfault
    simp
  | none =>
    simp only [Option.none_or, Option.isSome_none, Bool.false_eq_true, iff_false]
    rintro ⟨tag, name, allowed, style, hrequirements⟩
    obtain ⟨r, -, hfault⟩ := List.exists_of_findSome?_eq_some hrequirements
    cases requirementFault?_eq_some hfault

/-- A value that is listed and stored was written, or is the default, which passes. -/
theorem isSome_ruleFault?_iff {r : AttributeRule} (hr : r ∈ k.contract.rules)
    {written : List (String × String)}
    (hstored : attributes.get? r.name =
      ((written.reverse.lookup r.name).map r.normalize).or r.stored?) :
    (k.ruleFault? attributes r).isSome ↔
      ∃ set ∈ r.values, ∃ value ∈ written.reverse.lookup r.name,
        r.normalize value ∉ set.values := by
  rw [← not_iff_not, Option.not_isSome_iff_eq_none, ruleFault?_eq_none_iff, hstored]
  simp only [not_exists, not_and, not_not]
  refine forall₂_congr fun set hset => ?_
  cases written.reverse.lookup r.name with
  | some value => simp
  | none => simpa using k.stored?_listed r hr set hset

theorem isCollected_of_collect {origin : Origin} {written : List (String × String)}
    (h : k.collect origin written = .ok attributes) :
    k.IsCollected k.contract.rules written attributes := by
  have hstores := stores_of_collect h
  have hstored : ∀ r ∈ k.contract.rules, attributes.get? r.name =
      ((written.reverse.lookup r.name).map r.normalize).or r.stored? :=
    fun r hr => get?_of_collect h (k.rule?_name r hr)
  have hwritten : ∀ r ∈ k.contract.rules, ∀ value ∈ written.reverse.lookup r.name,
      attributes.get? r.name = some (r.normalize value) := by
    intro r hr value hvalue
    rw [hstored r hr, Option.mem_def.mp hvalue]
    rfl
  constructor
  case stored => exact hstored
  case only => exact hstores.within
  case again =>
    intro origin entries hentries
    exact hstores.collect_entries hentries origin
  case passes =>
    intro r hr set hset value hvalue
    rw [ruleFault?_eq_none_iff, hwritten r hr value hvalue, ← normalize_mem_iff hr hset]
    refine ⟨fun hall => hall set hset _ rfl, ?_⟩
    rintro hmem set' hset' _ ⟨⟩
    rwa [Option.mem_unique hset' hset]
  case spelled =>
    intro r hr set hset value hvalue allowed hallowed hsame
    rw [hwritten r hr value hvalue, (normalize_eq_iff hr hset hallowed).mpr hsame]
  case faults =>
    rw [exists_invalid_iff]
    refine exists_congr fun r => and_congr_right fun hr => ?_
    rw [isSome_ruleFault?_iff hr (hstored r hr)]
    refine exists_congr fun set => and_congr_right fun hset => ?_
    simp only [normalize_mem_iff hr hset, not_exists, not_and]

/-- Where attributes are listed, they are collected unless one has another name, and the first such
name is the one that is told. -/
theorem collect_listed {rules : List AttributeRule} (hk : k.contract.attributes = .listed rules)
    (origin : Origin) (written : List (String × String)) :
    (∀ fault, k.collect origin written = .error fault ↔
      ∃ a, written.find? (fun a => a.1 ∉ rules.map (·.name)) = some a ∧
        fault = .unknownAttribute k.tag a.1) ∧
      ((∀ a ∈ written, a.1 ∈ rules.map (·.name)) →
        ∃ attributes, k.collect origin written = .ok attributes ∧
          k.IsCollected rules written attributes) := by
  have hrules : k.contract.rules = rules := by rw [Contract.rules, hk]
  have hunknown : (fun a : String × String => (k.contract.rule? a.1).isNone) =
      fun a => decide (a.1 ∉ rules.map (·.name)) := by
    funext a
    rw [← hrules, Bool.eq_iff_iff, isNone_rule?_iff, decide_eq_true_eq]
  have hfails : ∀ a, written.find? (fun a => a.1 ∉ rules.map (·.name)) = some a →
      k.collect origin written = .error (.unknownAttribute k.tag a.1) := by
    intro a ha
    rw [← hunknown] at ha
    simp only [collect_eq_error ha, refusal, hk]
  have hsucceeds : (∀ a ∈ written, a.1 ∈ rules.map (·.name)) →
      ∃ attributes, k.collect origin written = .ok attributes ∧
        k.IsCollected rules written attributes := by
    intro hall
    have hlisted : ∀ a ∈ written, (k.contract.rule? a.1).isSome := by
      intro a ha
      rw [← Option.not_isNone, Bool.not_eq_true', Bool.eq_false_iff, ne_eq, isNone_rule?_iff,
        hrules, not_not]
      exact hall a ha
    obtain ⟨attributes, h⟩ := exists_collect hlisted origin
    exact ⟨attributes, h, hrules ▸ isCollected_of_collect h⟩
  refine ⟨fun fault => ⟨fun h => ?_, ?_⟩, hsucceeds⟩
  · cases hfind : written.find? (fun a => a.1 ∉ rules.map (·.name)) with
    | some a =>
      rw [hfails a hfind] at h
      cases h
      exact ⟨a, rfl, rfl⟩
    | none =>
      obtain ⟨attributes, hok, -⟩ := hsucceeds (by simpa using hfind)
      rw [hok] at h
      cases h
  · rintro ⟨a, ha, rfl⟩
    exact hfails a ha

theorem collect_listed_button :
    (∃ attributes,
      Kind.button.collect .presentation
          [("class", "Primary"), ("type", "submit"), ("name", "Go"), ("type", "rEset")] =
        .ok attributes ∧
      attributes.get? "type" = some "reset" ∧ attributes.get? "name" = some "go" ∧
      Kind.button.collect .author attributes.entries.reverse = .ok attributes) ∧
    Kind.button.collect .author [("name", "Go"), ("href", "/"), ("alt", "")] =
      .error (.unknownAttribute "button" "href") := by
  constructor
  · obtain ⟨-, hcollected⟩ := @collect_listed .button buttonRules rfl .presentation
      [("class", "Primary"), ("type", "submit"), ("name", "Go"), ("type", "rEset")]
    obtain ⟨attributes, hok, h⟩ := hcollected (by decide)
    have htype := h.spelled _ (show _ ∈ buttonRules from .tail _ (.tail _ (.head _))) _ rfl
      "rEset" (by decide) "reset" (by decide) (by decide)
    have hname := h.stored _ (show _ ∈ buttonRules from .head _)
    exact ⟨attributes, hok, htype, hname.trans (by decide),
      h.again .author _ (List.reverse_perm _)⟩
  · have hfails := (@collect_listed .button buttonRules rfl .author
      [("name", "Go"), ("href", "/"), ("alt", "")]).1 (.unknownAttribute "button" "href")
    exact hfails.mpr ⟨("href", "/"), by decide, rfl⟩

end Kind
end ChatForms
