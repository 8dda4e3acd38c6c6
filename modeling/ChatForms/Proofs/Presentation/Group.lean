import ChatForms.Recognition
import ChatForms.Proofs.Pattern

namespace ChatForms

/-! ### Labels -/

namespace Markup

/-- The label of a rendered checkbox, which may be missing if the text is empty. -/
inductive Labels : List Markup → String → Prop where
  | missing : Labels [] ""
  | present (texts : List String) :
      Labels [element "label" [] (texts.map text)] (String.join texts)

theorem textContents_texts (texts : List String) :
    textContents (texts.map text) = String.join texts := by
  induction texts with
  | nil => rfl
  | cons s texts ih => rw [List.map_cons, textContents, textContent, ih, String.join_cons]

theorem labelText?_texts (texts : List String) :
    Presentation.labelText? (element "label" [] (texts.map text)) = some (String.join texts) := by
  have hplain : ((texts.map text).all fun m => m.tag?.isNone) = true := by
    simp [tag?]
  rw [Presentation.labelText?, attributes, children, hplain, textContent, textContents_texts]
  rfl

theorem Labels.gathered {labels : List Markup} {label : String} (h : Labels labels label) :
    labels.length ≤ 1 ∧ (∀ l ∈ labels, l.tag? = some "label") ∧
      ∃ texts, labels.mapM Presentation.labelText? = some texts ∧ String.join texts = label := by
  cases h with
  | missing => exact ⟨Nat.zero_le 1, by simp, [], rfl, rfl⟩
  | present texts =>
    refine ⟨Nat.le_refl 1, by simp [tag?], [String.join texts], ?_, by simp⟩
    simp [labelText?_texts]

theorem eq_texts_of_forall {ms : List Markup} (h : ∀ m ∈ ms, m.tag? = none) :
    ∃ texts : List String, ms = texts.map text := by
  induction ms with
  | nil => exact ⟨[], rfl⟩
  | cons m ms ih =>
    obtain ⟨hm, hms⟩ := List.forall_mem_cons.mp h
    obtain ⟨texts, rfl⟩ := ih hms
    cases m with
    | text s => exact ⟨s :: texts, rfl⟩
    | element _ _ _ => cases hm

/-- A label has no attributes, and nothing but texts inside. -/
theorem eq_label_of_labelText? {l : Markup} {label : String} (htag : l.tag? = some "label")
    (h : Presentation.labelText? l = some label) :
    ∃ texts : List String, l = element "label" [] (texts.map text) ∧ label = String.join texts := by
  cases l with
  | text s => cases htag
  | element tag attributes own =>
    cases htag
    simp only [Presentation.labelText?, Option.ite_none_right_eq_some, Bool.and_eq_true,
      List.all_eq_true, Option.isNone_iff_eq_none, List.isEmpty_iff] at h
    obtain ⟨⟨hattributes, hown⟩, h⟩ := h
    obtain ⟨texts, rfl⟩ := eq_texts_of_forall hown
    cases hattributes
    exact ⟨texts, rfl, by rw [← Option.some.inj h, textContent, textContents_texts]⟩

/-- The texts of at most one label make up the label of the checkbox. -/
theorem labels_of_mapM {labels : List Markup} {texts : List String} (hlength : labels.length ≤ 1)
    (htags : ∀ l ∈ labels, l.tag? = some "label")
    (h : labels.mapM Presentation.labelText? = some texts) : Labels labels (String.join texts) := by
  match labels with
  | [] =>
    cases h
    exact .missing
  | [l] =>
    cases hlabel : Presentation.labelText? l with
    | none => simp [hlabel] at h
    | some label =>
      obtain ⟨_, rfl, rfl⟩ := eq_label_of_labelText? (htags l List.mem_cons_self) hlabel
      simp only [List.mapM_cons, hlabel, List.mapM_nil] at h
      cases h
      simpa using Labels.present _
  | _ :: _ :: _ => simp at hlength

/-- If all texts are blank, the children that count are the elements. -/
theorem filter_not_isBlankText {ms : List Markup}
    (h : ∀ s, text s ∈ ms → Text.isBlank s = true) :
    (ms.filter fun m => !m.isBlankText) = ms.filter fun m => m.tag?.isSome := by
  refine List.filter_congr fun m hm => ?_
  cases m with
  | element _ _ _ => rfl
  | text s => simp [isBlankText, tag?, h s hm]

end Markup

/-! ### Groups -/

/-- The checkbox that a group stands for. -/
def Candidate.ofGroup (attributes input : List (String × String)) (label : String) : Candidate :=
  ⟨.checkbox, Markup.without ["class"] attributes ++ Markup.without ["type"] input, some label,
    .presentation⟩

namespace Presentation

/-- The grammar of a group. It has one class, and inside are one input without content, which is a
checkbox, and at most one label without attributes, which holds nothing but text. They may stand in
any order, with blank text between them. Other attributes have no say. -/
structure IsGroup (classes : List String) (children : List Markup)
    (input : List (String × String)) (label : String) : Prop where
  unmixed : ∀ name ∈ classes, name = groupClass
  blank : ∀ s, .text s ∈ children → Text.isBlank s = true
  parts : ∃ labels, Markup.Labels labels label ∧
    (children.filter fun m => m.tag?.isSome).Perm (.element "input" input [] :: labels)
  typed : ∃ type, input.lookup "type" = some type ∧ Text.lowerAscii type = "checkbox"

theorem isCheckboxInput_iff {m : Markup} :
    isCheckboxInput m = true ↔
      ∃ type, m.attributes.lookup "type" = some type ∧ Text.lowerAscii type = "checkbox" := by
  simp only [isCheckboxInput, Markup.attribute?, Option.any_eq_true, decide_eq_true_eq]

/-- A checkbox with its label, recognized by the children of the group. -/
theorem checkboxGroup_eq_ok {m input : Markup} {labels : List Markup}
    {texts : List String} (hclass : hasOnlyClass m groupClass = true)
    (hchildren : (m.children.filter fun m => !m.isBlankText).Perm (input :: labels))
    (hinput : input.tag? = some "input") (hcheckbox : isCheckboxInput input = true)
    (hempty : input.children = []) (hlabels : ∀ l ∈ labels, l.tag? = some "label")
    (hlength : labels.length ≤ 1) (htexts : labels.mapM labelText? = some texts) :
    checkboxGroup m = .ok (.ofGroup m.attributes input.attributes (String.join texts)) := by
  obtain ⟨n, numbered, hmatch, rfl⟩ := Pattern.match?_of_perm hchildren hinput hlabels hlength
  rw [List.mapM_map] at htexts
  unfold checkboxGroup
  rw [hmatch, hclass]
  simp only [hcheckbox, hempty, List.isEmpty_nil, Bool.not_true, Bool.or_self, Bool.false_eq_true,
    if_false]
  simp only [Function.comp_def] at htexts
  rw [htexts]
  rfl

theorem exists_isGroup_of_checkboxGroup {m : Markup} {c : Candidate} (h : checkboxGroup m = .ok c) :
    ∃ input label, IsGroup m.classes m.children input label ∧
      c = .ofGroup m.attributes input label := by
  unfold checkboxGroup at h
  cases hclass : hasOnlyClass m groupClass with
  | false =>
    rw [hclass] at h
    cases h
  | true =>
    simp only [hclass, Bool.not_true, Bool.false_eq_true, if_false] at h
    cases hmatch : Pattern.checkboxGroup.match? m.children with
    | none =>
      rw [hmatch] at h
      cases h
    | some slots =>
      obtain ⟨⟨n, input⟩, labels, rfl, hlength, -⟩ := Pattern.match?_checkboxGroup hmatch
      obtain ⟨hblank, hparts⟩ := Pattern.children_of_match? hmatch
      obtain ⟨hinput, hlabels⟩ := Pattern.tags_of_match? hmatch
      rw [hmatch] at h
      dsimp only at h
      split at h
      · cases h
      · next hcheckbox =>
        rw [Bool.or_eq_true, Bool.not_eq_true', Bool.not_eq_true', not_or, Bool.not_eq_false,
          Bool.not_eq_false, List.isEmpty_iff] at hcheckbox
        split at h
        · next texts htexts =>
          cases h
          cases input with
          | text s => cases hinput
          | element tag attributes own =>
            cases hinput
            obtain ⟨htyped, hempty⟩ := hcheckbox
            obtain rfl : own = [] := hempty
            have hlabelled : Markup.Labels (labels.map (·.2)) (String.join texts) :=
              Markup.labels_of_mapM (by rwa [List.length_map]) (List.forall_mem_map.mpr hlabels)
                (by rwa [List.mapM_map])
            refine ⟨attributes, String.join texts, ⟨?_, hblank, ⟨_, hlabelled, hparts⟩,
              isCheckboxInput_iff.mp htyped⟩, rfl⟩
            intro name hname
            simpa using List.all_eq_true.mp hclass name hname
        · cases h

/-- The markup that is recognized as a group is that of the grammar. -/
theorem checkboxGroup_eq_ok_iff {m : Markup} {c : Candidate} :
    checkboxGroup m = .ok c ↔
      ∃ input label, IsGroup m.classes m.children input label ∧
        c = .ofGroup m.attributes input label := by
  refine ⟨exists_isGroup_of_checkboxGroup, ?_⟩
  rintro ⟨input, label, ⟨hunmixed, hblank, ⟨labels, hlabelled, hparts⟩, htyped⟩, rfl⟩
  obtain ⟨hlength, hlabels, texts, htexts, rfl⟩ := hlabelled.gathered
  have hclass : hasOnlyClass m groupClass = true := by
    rw [hasOnlyClass, List.all_eq_true]
    exact fun name hname => decide_eq_true (hunmixed name hname)
  rw [← Markup.filter_not_isBlankText hblank] at hparts
  exact @checkboxGroup_eq_ok m (.element "input" input []) labels texts hclass hparts rfl
    (isCheckboxInput_iff.mpr htyped) rfl hlabels hlength htexts

/-- All that is said of a group that is none is that it is malformed. -/
theorem checkboxGroup_cases (m : Markup) :
    (∃ c, checkboxGroup m = .ok c) ∨ checkboxGroup m = .error invalidCheckbox := by
  unfold checkboxGroup
  cases hasOnlyClass m groupClass with
  | false => exact Or.inr rfl
  | true =>
    simp only [Bool.not_true, Bool.false_eq_true, if_false]
    split
    · split
      · exact Or.inr rfl
      · split
        · exact Or.inl ⟨_, rfl⟩
        · exact Or.inr rfl
    · exact Or.inr rfl

namespace IsGroup
variable {classes : List String} {children : List Markup} {input : List (String × String)}
  {label : String}

theorem input_mem (h : IsGroup classes children input label) :
    .element "input" input [] ∈ children := by
  obtain ⟨labels, -, hparts⟩ := h.parts
  exact (List.mem_filter.mp (hparts.mem_iff.mpr List.mem_cons_self)).1

theorem label_cases (h : IsGroup classes children input label) :
    label = "" ∨ ∃ l ∈ children, labelText? l = some label := by
  obtain ⟨_, hlabelled, hparts⟩ := h.parts
  cases hlabelled with
  | missing => exact Or.inl rfl
  | present texts =>
    refine Or.inr ⟨_, ?_, Markup.labelText?_texts texts⟩
    have hmem := hparts.mem_iff.mpr (List.mem_cons_of_mem _ List.mem_cons_self)
    exact (List.mem_filter.mp hmem).1

end IsGroup

theorem map_some_eq_ok {x : Except Fault Candidate} {c : Candidate} :
    some <$> x = .ok (some c) ↔ x = .ok c := by
  cases x with
  | error fault => exact iff_of_false nofun nofun
  | ok c' =>
    constructor
    · rintro ⟨⟩
      rfl
    · rintro ⟨⟩
      rfl

theorem map_some_eq_error {x : Except Fault Candidate} {fault : Fault} :
    some <$> x = .error fault ↔ x = .error fault := by
  cases x with
  | error found =>
    constructor
    · rintro ⟨⟩
      rfl
    · rintro ⟨⟩
      rfl
  | ok c => exact iff_of_false nofun nofun

/-- Of the fields, only groups have their labels gathered. -/
theorem isGroup_of_field? {m : Markup} {c : Candidate} {label : String}
    (h : field? m = .ok (some c)) (hlabel : c.label = some label) :
    m.hasClass groupClass = true ∧ ∃ input, IsGroup m.classes m.children input label := by
  unfold field? at h
  split at h
  · next hmark =>
    obtain ⟨input, _, hgroup, rfl⟩ := checkboxGroup_eq_ok_iff.mp (map_some_eq_ok.mp h)
    cases hlabel
    exact ⟨(Bool.and_eq_true_iff.mp hmark).2, input, hgroup⟩
  · split at h
    · have hselector := map_some_eq_ok.mp h
      unfold personSelector at hselector
      split at hselector <;> cases hselector
      cases hlabel
    · split at h
      · have hbare := map_some_eq_ok.mp h
        unfold bareCheckbox at hbare
        split at hbare <;> cases hbare
        cases hlabel
      · cases h

/-- A div with the class of a group is taken for a checkbox if it is of the grammar, and else the
message is at fault, whatever attributes there are. The checkbox has the attributes of the group and
then those of the input, but for the marks, and one text inside, which it may always have. -/
theorem field?_group_iff {attributes : List (String × String)} {children : List Markup}
    (hclass : (Markup.element "div" attributes children).hasClass groupClass = true) :
    (∀ c, field? (.element "div" attributes children) = .ok (some c) ↔
      ∃ input label,
        IsGroup (Markup.element "div" attributes children).classes children input label ∧
        c = ⟨.checkbox, Markup.without ["class"] attributes ++ Markup.without ["type"] input,
          some label, .presentation⟩ ∧ c.children children = [.text label]) ∧
      (∀ c, field? (.element "div" attributes children) = .ok (some c) →
        c.kind.contentFault? c.origin (c.children children) = none) ∧
      ((¬∃ input label,
        IsGroup (Markup.element "div" attributes children).classes children input label) →
        field? (.element "div" attributes children) =
          .error (.invalidPresentation Kind.checkbox.tag)) := by
  have hfield : field? (.element "div" attributes children) =
      some <$> checkboxGroup (.element "div" attributes children) := by
    rw [field?, hclass]
    rfl
  have hok : ∀ c, field? (.element "div" attributes children) = .ok (some c) ↔
      checkboxGroup (.element "div" attributes children) = .ok c := by
    intro c
    rw [hfield, map_some_eq_ok]
  refine ⟨fun c => ?_, fun c hc => ?_, fun hnone => ?_⟩
  · rw [hok, checkboxGroup_eq_ok_iff]
    constructor
    · rintro ⟨input, label, hgroup, rfl⟩
      exact ⟨input, label, hgroup, rfl, rfl⟩
    · rintro ⟨input, label, hgroup, rfl, -⟩
      exact ⟨input, label, hgroup, rfl⟩
  · rw [hok, checkboxGroup_eq_ok_iff] at hc
    obtain ⟨_, _, -, rfl⟩ := hc
    rfl
  · obtain ⟨c, hc⟩ | hfault := checkboxGroup_cases (.element "div" attributes children)
    · obtain ⟨input, label, hgroup, -⟩ := checkboxGroup_eq_ok_iff.mp hc
      exact absurd ⟨input, label, hgroup⟩ hnone
    · rw [hfield, hfault]
      rfl

/-- A label in two pieces in front of its input, with blank texts around them. -/
def looseParts : List Markup :=
  [.text "\n", .element "label" [] [.text "I ", .text "agree"], .text " ",
    .element "input" [("name", "ok"), ("type", "CheckBox"), ("size", "1")] []]

theorem field?_group_iff_looseParts :
    (Markup.element "div" [("id", "g"), ("class", "checkbox-group ")] looseParts).hasClass
        groupClass = true ∧
      (∃ input label, IsGroup ["checkbox-group"] looseParts input label ∧ label = "I agree") ∧
      (Markup.element "div" [("class", "checkbox-group wide")] looseParts).hasClass
        groupClass = true ∧
      field? (.element "div" [("class", "checkbox-group wide")] looseParts) =
        .error (.invalidPresentation "checkbox") := by
  have hclass : (Markup.element "div" [("id", "g"), ("class", "checkbox-group ")]
      looseParts).hasClass groupClass = true := by decide +kernel
  have hwide : (Markup.element "div" [("class", "checkbox-group wide")] looseParts).hasClass
      groupClass = true := by decide +kernel
  have hfield : field? (.element "div" [("id", "g"), ("class", "checkbox-group ")] looseParts) =
      .ok (some ⟨.checkbox, [("id", "g"), ("name", "ok"), ("size", "1")], some "I agree",
        .presentation⟩) := by rfl
  obtain ⟨input, label, hgroup, hc, -⟩ := ((field?_group_iff hclass).1 _).mp hfield
  have hlabel : some "I agree" = some label := congrArg Candidate.label hc
  refine ⟨hclass, ⟨input, label, hgroup, (Option.some.inj hlabel).symm⟩, hwide,
    (field?_group_iff hwide).2.2 ?_⟩
  rintro ⟨_, _, ⟨hunmixed, -, -, -⟩⟩
  exact absurd (hunmixed "wide" (by decide +kernel)) (by decide)

end Presentation
end ChatForms
