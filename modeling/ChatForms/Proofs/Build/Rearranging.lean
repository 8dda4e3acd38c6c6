import ChatForms.Proofs.Build.Lockstep

namespace ChatForms

/-! ### Attributes in another order and case -/

namespace Markup

/-- The attributes whose values may be written in large or small letters, for elements of a tag. A
group may bear the state of its checkbox. -/
def caseless : String → List String
  | "button" => ["name", "id", "type", "class"]
  | "checkbox" | "input" | "div" => ["checked"]
  | _ => []

/-- A value under a name is taken to lower case if the name is among some. -/
def foldCase (names : List String) (a : String × String) : String × String :=
  (a.1, if a.1 ∈ names then Text.lower a.2 else a.2)

end Markup

/-- Attributes, each with a name of its own, come in another order, and with other letters where
these may be large or small. -/
def Retouch.rearranging : Retouch := fun _ tag attributes attributes' =>
  (attributes.map (·.1)).Nodup ∧
    (attributes.map (Markup.foldCase (Markup.caseless tag))).Perm
      (attributes'.map (Markup.foldCase (Markup.caseless tag)))

instance (around : Option Markup) (tag : String) (attributes attributes' : List (String × String)) :
    Decidable (Retouch.rearranging around tag attributes attributes') :=
  inferInstanceAs (Decidable (_ ∧ _))

namespace Markup
variable {names : List String} {as as' bs bs' : List (String × String)}

theorem lookup_foldCase (names : List String) (as : List (String × String)) (name : String) :
    (as.map (foldCase names)).lookup name =
      (as.lookup name).map fun value => (foldCase names (name, value)).2 := by
  induction as with
  | nil => rfl
  | cons a as ih =>
    obtain ⟨key, value⟩ := a
    rw [List.map_cons, foldCase, StringMap.lookup_cons_ite, StringMap.lookup_cons_ite, ih]
    split
    · next hkey => rw [hkey]; rfl
    · rfl

theorem map_fst_foldCase (names : List String) (as : List (String × String)) :
    (as.map (foldCase names)).map (·.1) = as.map (·.1) := by
  rw [List.map_map]
  rfl

/-- Under every name the last value is the same, at least in lower case if the name is among
some. -/
def AgreeInCase (names : List String) (as as' : List (String × String)) : Prop :=
  ∀ name, (as.map (foldCase names)).reverse.lookup name =
    (as'.map (foldCase names)).reverse.lookup name

theorem AgreeInCase.append (h : AgreeInCase names as as') (h' : AgreeInCase names bs bs') :
    AgreeInCase names (as ++ bs) (as' ++ bs') := by
  intro name
  simp only [List.map_append, List.reverse_append, List.lookup_append, h name, h' name]

theorem AgreeInCase.without (h : AgreeInCase names as as') (others : List String) :
    AgreeInCase names (without others as) (without others as') := by
  have hfilter : ∀ bs : List (String × String),
      ((Markup.without others bs).map (foldCase names)).reverse =
        Markup.without others (bs.map (foldCase names)).reverse := by
    intro bs
    rw [Markup.without, Markup.without, List.filter_reverse, List.filter_map]
    rfl
  intro name
  rw [hfilter, hfilter, lookup_without, lookup_without, h name]

end Markup

open Markup

theorem Retouch.lookup_rearranging {around : Option Markup} {tag : String}
    {as as' : List (String × String)} (h : rearranging around tag as as') (name : String) :
    (as.map (foldCase (caseless tag))).lookup name =
      (as'.map (foldCase (caseless tag))).lookup name := by
  obtain ⟨hnodup, hperm⟩ := h
  refine StringMap.lookup_perm ?_ hperm name
  rwa [map_fst_foldCase]

theorem Retouch.agreeInCase_rearranging {around : Option Markup} {tag : String}
    {as as' : List (String × String)} (h : rearranging around tag as as') :
    AgreeInCase (caseless tag) as as' := by
  obtain ⟨hnodup, hperm⟩ := h
  intro name
  refine StringMap.lookup_perm ?_ ?_ name
  · rw [List.map_reverse, map_fst_foldCase]
    exact (List.reverse_perm _).nodup_iff.mpr hnodup
  · exact (List.reverse_perm _).trans (hperm.trans (List.reverse_perm _).symm)

theorem Retouch.keepsMarks_rearranging : rearranging.KeepsMarks := by
  have hkept : ∀ {around tag as as'}, rearranging around tag as as' →
      ∀ name, name ∉ caseless tag → as.lookup name = as'.lookup name := by
    intro around tag as as' h name hname
    have hlookup := lookup_rearranging h name
    simpa [lookup_foldCase, foldCase, hname] using hlookup
  refine ⟨fun h name hname => hkept h name ?_, fun h => hkept h "type" (by decide), fun h => ?_⟩
  · revert name
    decide
  · have hlength := h.2.length_eq
    rw [List.length_map, List.length_map] at hlength
    exact isEmpty_eq_of_length hlength

/-! ### Attributes that are collected alike -/

/-- The same fault, or the same but for the name of the attribute that is unknown. -/
def Fault.Alike (fault fault' : Fault) : Prop :=
  fault = fault' ∨ ∃ tag name name', fault = .unknownAttribute tag name ∧
    fault' = .unknownAttribute tag name'

namespace Kind

/-- The values of these attributes are stored in lower case. -/
def Folds (k : Kind) (names : List String) : Prop :=
  ∀ r ∈ k.contract.rules, r.name ∈ names → r.values.isSome ∨ r.normalization = .lowercase

instance (k : Kind) (names : List String) : Decidable (k.Folds names) :=
  List.decidableBAll _ _

theorem folds_caseless (k : Kind) : k.Folds (caseless k.tag) := by
  cases k <;> decide

theorem Folds.normalize_foldCase {k : Kind} {names : List String} (h : k.Folds names)
    {r : AttributeRule} (hr : r ∈ k.contract.rules) (value : String) :
    r.normalize (foldCase names (r.name, value)).2 = r.normalize value := by
  rw [foldCase]
  split
  · next hname =>
    have hlower : (r.values.isSome || r.normalization = .lowercase) = true := by
      simpa using h r hr hname
    rw [AttributeRule.normalize, AttributeRule.normalize, if_pos hlower, if_pos hlower]
    exact Text.lower_lower value
  · rfl

/-- Attributes from which an element of a kind cannot tell which of two runs it is in. -/
def ReadsAlike (k : Kind) (written written' : List (String × String)) : Prop :=
  ∃ names, k.Folds names ∧ AgreeInCase names written written'

variable {k : Kind} {written written' : List (String × String)}

theorem ReadsAlike.stored_eq (h : k.ReadsAlike written written') {origin : Origin}
    {x x' : Attributes} (hx : k.collect origin written = .ok x)
    (hx' : k.collect origin written' = .ok x') : x = x' := by
  obtain ⟨names, hfolds, hagree⟩ := h
  ext name : 1
  cases hrule : k.contract.rule? name with
  | none =>
    rw [(stores_of_collect hx).get?_eq_none hrule, (stores_of_collect hx').get?_eq_none hrule]
  | some rule =>
    obtain ⟨hmem, rfl⟩ := Contract.of_rule? hrule
    have hnormal : ∀ as : List (String × String), (as.reverse.lookup rule.name).map rule.normalize =
        ((as.map (foldCase names)).reverse.lookup rule.name).map rule.normalize := by
      intro as
      rw [← List.map_reverse, lookup_foldCase, Option.map_map]
      exact Option.map_congr fun value _ => (hfolds.normalize_foldCase hmem value).symm
    rw [get?_of_collect hx hrule, get?_of_collect hx' hrule, hnormal written, hnormal written',
      hagree]

theorem ReadsAlike.mem_names (h : k.ReadsAlike written written') (name : String) :
    (∃ a ∈ written, a.1 = name) ↔ ∃ a ∈ written', a.1 = name := by
  obtain ⟨names, -, hagree⟩ := h
  have hfound : ∀ as : List (String × String),
      (∃ a ∈ as, a.1 = name) ↔ ((as.map (foldCase names)).reverse.lookup name).isSome := by
    intro as
    rw [StringMap.isSome_lookup, List.any_reverse, List.any_map, List.any_eq_true]
    exact exists_congr fun a => and_congr_right fun _ => decide_eq_true_iff.symm
  rw [hfound, hfound, hagree]

theorem alike_refusal (k : Kind) (origin : Origin) (name name' : String) :
    (k.refusal origin name).Alike (k.refusal origin name') := by
  unfold refusal
  split
  · exact Or.inl rfl
  · exact Or.inr ⟨k.tag, name, name', rfl, rfl⟩

theorem collects_readsAlike : Collects Fault.Alike ReadsAlike fun _ x x' => x = x' where
  fault _ := Or.inl rfl
  unchanged _ _ := rfl
  collect := by
    intro k written written' h origin
    refine endAlike_collect ?_ fun x x' hx hx' => h.stored_eq hx hx'
    have hsome : (written.find? fun a => (k.contract.rule? a.1).isNone).isSome =
        (written'.find? fun a => (k.contract.rule? a.1).isNone).isSome := by
      rw [Bool.eq_iff_iff, List.find?_isSome, List.find?_isSome]
      constructor
      · rintro ⟨a, ha, hnone⟩
        obtain ⟨b, hb, hname⟩ := (h.mem_names a.1).mp ⟨a, ha, rfl⟩
        exact ⟨b, hb, hname ▸ hnone⟩
      · rintro ⟨b, hb, hnone⟩
        obtain ⟨a, ha, hname⟩ := (h.mem_names b.1).mpr ⟨b, hb, rfl⟩
        exact ⟨a, ha, hname ▸ hnone⟩
    generalize (written.find? fun a => (k.contract.rule? a.1).isNone) = first at hsome ⊢
    generalize (written'.find? fun a => (k.contract.rule? a.1).isNone) = first' at hsome ⊢
    cases first with
    | none => cases first' with
      | none => exact .none
      | some a' => cases hsome
    | some a => cases first' with
      | none => cases hsome
      | some a' => exact .some (k.alike_refusal origin a.1 a'.1)
  attributesFault? := by
    rintro k x _ rfl
    rfl

end Kind

theorem Retouch.brings_rearranging : rearranging.Brings Kind.ReadsAlike where
  toKeepsMarks := keepsMarks_rearranging
  written h := ⟨_, Kind.folds_caseless _, agreeInCase_rearranging h⟩
  message h := ⟨_, by decide, (agreeInCase_rearranging h).without _⟩
  selector h := ⟨_, by decide, (agreeInCase_rearranging h).without _⟩
  bare h := ⟨_, by decide, (agreeInCase_rearranging h).without _⟩
  group _ _ h h' := ⟨["checked"], by decide,
    ((agreeInCase_rearranging h).without _).append ((agreeInCase_rearranging h').without _)⟩

theorem Tree.eq_of_alike {t t' : Tree} (h : t.Alike (Element.Alike fun _ x x' => x = x') t') :
    t = t' := by
  induction t using Tree.induction generalizing t' with
  | node e ts ih =>
    cases h with
    | @node _ e' _ ts' element inside =>
      obtain ⟨_, rfl, rfl⟩ := element
      have hts : ts = ts' := by
        induction inside with
        | nil => rfl
        | cons ht _ ihts =>
          obtain ⟨hhead, htail⟩ := List.forall_mem_cons.mp ih
          rw [hhead ht, ihts htail]
      rw [hts]

namespace Document

/-- Neither the order of attributes nor the case of values that are stored in lower case matters to
what is built. If no name is repeated, two messages that differ in nothing else come to the same
document, or to the same fault, but for the name of the attribute that is said to be unknown. -/
theorem build_rearranged {m m' : Markup} (h : m.Retouches .rearranging none m')
    (rules : Containment) :
    (∃ d, build rules m = .ok d ∧ build rules m' = .ok d) ∨
      ∃ fault fault', build rules m = .error fault ∧ build rules m' = .error fault' ∧
        (fault = fault' ∨ ∃ tag name name', fault = .unknownAttribute tag name ∧
          fault' = .unknownAttribute tag name') := by
  have hend := endAlike_build Retouch.brings_rearranging Kind.collects_readsAlike h rules
  generalize build rules m = x at hend
  generalize build rules m' = y at hend
  cases hend with
  | ok related =>
    obtain ⟨t, t', ht, rfl, rfl⟩ := related
    exact Or.inl ⟨_, rfl, by rw [Tree.eq_of_alike ht]⟩
  | error related => exact Or.inr ⟨_, _, rfl, rfl, related⟩

/-- A form with a button and a checkbox whose group bears its state. -/
def poll : Markup :=
  .element "messageML" [] [.element "form" [("id", "f")]
    [.element "button" [("type", "action"), ("name", "Send")] [.text "Go"],
      .element "div" [("class", "checkbox-group"), ("checked", "true")]
        [.element "input" [("type", "checkbox"), ("name", "N")] []]]]

/-- The same form, with attributes in another order and with other letters. -/
def rearrangedPoll : Markup :=
  .element "messageML" [] [.element "form" [("id", "f")]
    [.element "button" [("name", "sEND"), ("type", "ACTION")] [.text "Go"],
      .element "div" [("checked", "True"), ("class", "checkbox-group")]
        [.element "input" [("name", "N"), ("type", "checkbox")] []]]]

theorem build_rearranged_poll :
    poll.Retouches .rearranging none rearrangedPoll ∧
      ∃ d, build .standard poll = .ok d ∧ build .standard rearrangedPoll = .ok d := by
  have hpoll : poll.Retouches .rearranging none rearrangedPoll :=
    .of_children (by decide +kernel) (.cons (.of_children (by decide +kernel)
      (.cons (.of_children (by decide +kernel) (.cons (.text "Go") .nil))
        (.cons (.of_children (by decide +kernel)
          (.cons (.of_children (by decide +kernel) .nil) .nil)) .nil))) .nil)
  refine ⟨hpoll, (build_rearranged hpoll .standard).resolve_right ?_⟩
  rintro ⟨fault, _, hfault, -⟩
  have hbuilt : (build .standard poll).toOption.isSome := by decide +kernel
  rw [hfault] at hbuilt
  cases hbuilt

/-- The first of two unknown attributes is named, whichever this is. -/
example : build .standard (.element "messageML" [("b", ""), ("a", "")] []) =
    .error (.unknownAttribute "messageML" "b") := by decide +kernel

end Document
end ChatForms
