import ChatForms.Proofs.Build.Validity
import Mathlib.Logic.Relation
import Mathlib.Tactic.FinCases

namespace ChatForms

namespace Markup

/-- A value that lists one class, once or more often. -/
def ListsOnly (value name : String) : Prop :=
  Text.words value ≠ [] ∧ ∀ word ∈ Text.words value, word = name

instance (value name : String) : Decidable (ListsOnly value name) :=
  inferInstanceAs (Decidable (_ ∧ _))

/-- The two spellings of a field: as authors write it, and as clients show it. The marks of a
rendering may stand anywhere among the other attributes. -/
inductive Renders : Markup → Markup → Prop where
  | labelled {before after first last : List (String × String)} {mark type label : String}
      {labels children : List Markup}
      (unclassed : ∀ a ∈ before ++ after, a.1 ≠ "class")
      (marked : ListsOnly mark Presentation.groupClass)
      (untyped : ∀ a ∈ first ++ last, a.1 ≠ "type")
      (typed : Text.lowerAscii type = "checkbox")
      (worded : Labels labels label)
      (arranged : (children.filter fun m => !m.isBlankText).Perm
        (element "input" (first ++ ("type", type) :: last) [] :: labels)) :
      Renders (element "checkbox" ((before ++ after) ++ (first ++ last)) [text label])
        (element "div" (before ++ ("class", mark) :: after) children)
  | bare {first last : List (String × String)} {type : String}
      (untyped : ∀ a ∈ first ++ last, a.1 ≠ "type")
      (typed : Text.lowerAscii type = "checkbox") :
      Renders (element "checkbox" (first ++ last) [])
        (element "input" (first ++ ("type", type) :: last) [])
  | selector {mark : String} (marked : ListsOnly mark Presentation.selectorClass) :
      Renders (element "person-selector" [] []) (element "div" [("class", mark)] [])

/-- A field below forms and divs is spelled in the other way. -/
inductive RespellsField : Markup → Markup → Prop where
  | here {m m' : Markup} (spelled : Renders m m') : RespellsField m m'
  | inside {tag : String} {attributes : List (String × String)} {before after : List Markup}
      {m m' : Markup} {c : Candidate}
      (around : Candidate.ofInner (element tag attributes (before ++ m :: after)) = .ok c)
      (kind : c.kind = .form ∨ c.kind = .div) (respelled : RespellsField m m') :
      RespellsField (element tag attributes (before ++ m :: after))
        (element tag attributes (before ++ m' :: after))

/-- A message with one element spelled in the other way: the message itself or one field. -/
inductive Respells : Markup → Markup → Prop where
  | message {attributes : List (String × String)} {children : List Markup}
      (enveloped : attributes ∈
        [[(Presentation.formatAttribute, Presentation.formatName)],
         [(Presentation.formatAttribute, Presentation.formatName),
           (Presentation.versionAttribute, Presentation.version)],
         [(Presentation.versionAttribute, Presentation.version),
           (Presentation.formatAttribute, Presentation.formatName)]]) :
      Respells (element "messageML" [] children) (element "div" attributes children)
  | field {tag : String} {attributes : List (String × String)} {before after : List Markup}
      {m m' : Markup} {c : Candidate}
      (around : Candidate.ofRoot (element tag attributes (before ++ m :: after)) = .ok c)
      (respelled : RespellsField m m') :
      Respells (element tag attributes (before ++ m :: after))
        (element tag attributes (before ++ m' :: after))

theorem lookup_inserted {name value : String} {before after : List (String × String)}
    (h : ∀ a ∈ before ++ after, a.1 ≠ name) :
    (before ++ (name, value) :: after).lookup name = some value := by
  have hbefore : before.lookup name = none := by
    rw [List.lookup_eq_none_iff]
    intro a ha
    simpa using (h a (List.mem_append_left after ha)).symm
  rw [List.lookup_append, hbefore, List.lookup_cons_self, Option.none_or]

theorem without_inserted {name value : String} {before after : List (String × String)}
    (h : ∀ a ∈ before ++ after, a.1 ≠ name) :
    without [name] (before ++ (name, value) :: after) = before ++ after := by
  have hself : without [name] (before ++ after) = before ++ after := by
    rw [without, List.filter_eq_self]
    intro a ha
    simpa using h a ha
  rw [without, List.filter_append, List.filter_cons_of_neg (by simp), ← List.filter_append]
  exact hself

/-! ### Recognized renderings -/

section
variable {before after : List (String × String)} {mark name : String} {own : List Markup}

theorem classes_marked (h : ∀ a ∈ before ++ after, a.1 ≠ "class") (tag : String) :
    (element tag (before ++ ("class", mark) :: after) own).classes = Text.words mark := by
  rw [classes, attribute?, attributes, lookup_inserted h]
  rfl

theorem hasClass_marked (h : ∀ a ∈ before ++ after, a.1 ≠ "class") (hmark : ListsOnly mark name)
    (tag : String) :
    (element tag (before ++ ("class", mark) :: after) own).hasClass name = true := by
  rw [hasClass, classes_marked h]
  obtain ⟨word, hword⟩ := List.exists_mem_of_ne_nil _ hmark.1
  rw [List.contains_iff_mem]
  exact hmark.2 word hword ▸ hword

theorem hasClass_other (h : ∀ a ∈ before ++ after, a.1 ≠ "class") (hmark : ListsOnly mark name)
    {other : String} (hother : other ≠ name) (tag : String) :
    (element tag (before ++ ("class", mark) :: after) own).hasClass other = false := by
  rw [hasClass, classes_marked h, Bool.eq_false_iff, ne_eq, List.contains_iff_mem]
  exact fun hmem => hother (hmark.2 other hmem)

theorem hasOnlyClass_marked (h : ∀ a ∈ before ++ after, a.1 ≠ "class")
    (hmark : ListsOnly mark name) (tag : String) :
    Presentation.hasOnlyClass (element tag (before ++ ("class", mark) :: after) own) name =
      true := by
  rw [Presentation.hasOnlyClass, classes_marked h, List.all_eq_true]
  intro word hword
  simpa using hmark.2 word hword

theorem isCheckboxInput_typed {type : String} (h : ∀ a ∈ before ++ after, a.1 ≠ "type")
    (htype : Text.lowerAscii type = "checkbox") (tag : String) :
    Presentation.isCheckboxInput (element tag (before ++ ("type", type) :: after) own) = true := by
  rw [Presentation.isCheckboxInput, attribute?, attributes, lookup_inserted h]
  simpa using htype

end

/-- Both spellings of a field stand for the same element, apart from how it was written. What it is
is known without its place. -/
theorem Renders.candidates {m m' : Markup} (h : Renders m m') :
    ∃ kind written label,
      Candidate.ofInner m = .ok ⟨kind, written, none, .author⟩ ∧
      Candidate.ofInner m' = .ok ⟨kind, written, label, .presentation⟩ ∧
      (Candidate.mk kind written label .presentation).children m'.children = m.children ∧
      kind.Admits m.children ∧ (kind.contract.attributes = .forbidden → written = []) := by
  cases h with
  | @labelled before after first last mark type label labels children unclassed marked untyped
      typed worded arranged =>
    refine ⟨.checkbox, (before ++ after) ++ (first ++ last), some label, rfl, ?_, rfl,
      Or.inr ⟨label, rfl, nofun⟩, nofun⟩
    obtain ⟨hlength, hlabels, texts, htexts, rfl⟩ := worded.gathered
    have hgroup := Presentation.checkboxGroup_eq_ok
      (m := element "div" (before ++ ("class", mark) :: after) children)
      (hasOnlyClass_marked unclassed marked "div") arranged rfl
      (isCheckboxInput_typed untyped typed "input") rfl hlabels hlength htexts
    rw [attributes, attributes, Candidate.ofGroup, without_inserted unclassed,
      without_inserted untyped] at hgroup
    refine Candidate.ofInner_of_field ?_
    rw [Presentation.field?, hasClass_marked unclassed marked "div", hgroup]
    rfl
  | @bare first last type untyped typed =>
    refine ⟨.checkbox, first ++ last, none, rfl, ?_, rfl, Or.inl ⟨rfl, rfl⟩, nofun⟩
    refine Candidate.ofInner_of_field ?_
    rw [Presentation.field?, isCheckboxInput_typed untyped typed "input", Presentation.bareCheckbox,
      attributes, without_inserted untyped]
    rfl
  | @selector mark marked =>
    refine ⟨.personSelector, [], none, rfl, ?_, rfl, rfl, fun _ => rfl⟩
    -- the class stands alone, with nothing before it and nothing behind it
    have halone : ∀ a ∈ ([] ++ [] : List (String × String)), a.1 ≠ "class" := by simp
    have hgroup := @hasClass_other _ _ _ _ [] halone marked _
      (show Presentation.groupClass ≠ Presentation.selectorClass by decide) "div"
    have hselector := @hasClass_marked _ _ _ _ [] halone marked "div"
    have honly := @hasOnlyClass_marked _ _ _ _ [] halone marked "div"
    rw [List.nil_append] at hgroup hselector honly
    refine Candidate.ofInner_of_field ?_
    rw [Presentation.field?, hgroup, hselector, Presentation.personSelector, if_pos honly]
    rfl

end Markup

/-! ### The same apart from how it was written -/

section
variable {α β γ δ ε : Type} {f : α → γ} {g : β → δ} {x x' : Except ε α}

/-- Two computations that look the same go on in the same way. -/
theorem bind_map_congr {next next' : α → Except ε β} (h : x.map f = x'.map f)
    (hnext : ∀ a a', f a = f a' → (next a).map g = (next' a').map g) :
    (x >>= next).map g = (x' >>= next').map g := by
  cases x with
  | error fault => cases x' with
    | error fault' => exact congrArg Except.error (Except.error.inj h)
    | ok a' => cases h
  | ok a => cases x' with
    | error fault' => cases h
    | ok a' => exact hnext a a' (Except.ok.inj h)

theorem map_map_congr {k k' : α → β} (h : x.map f = x'.map f)
    (hk : ∀ a a', f a = f a' → g (k a) = g (k' a')) : (x.map k).map g = (x'.map k').map g := by
  have hbind : ∀ (y : Except ε α) (k : α → β), y.map k = y >>= fun a => .ok (k a) := by
    intro y k
    cases y <;> rfl
  rw [hbind, hbind]
  exact bind_map_congr h fun a a' ha => congrArg Except.ok (hk a a' ha)

end

theorem Candidate.examine_congr {c c' : Candidate} {own own' : List Markup}
    (hkind : c.kind = c'.kind)
    (hcollect : c.kind.collect c.origin c.attributes = c'.kind.collect c'.origin c'.attributes)
    (hcontent : c.kind.contentFault? c.origin (c.children own) =
      c'.kind.contentFault? c'.origin (c'.children own'))
    (rules : Containment) (above : List Kind) :
    (c.examine rules above own).map Element.forgetOrigin =
      (c'.examine rules above own').map Element.forgetOrigin := by
  rw [examine, examine, hcollect, hcontent, hkind]
  cases c'.kind.collect c'.origin c'.attributes with
  | error fault => rfl
  | ok attributes =>
    simp only [bind, Except.bind]
    cases c'.kind.placementFaultBelow? rules above with
    | some fault => rfl
    | none =>
      cases c'.kind.attributesFault? attributes with
      | some fault => rfl
      | none =>
        cases c'.kind.contentFault? c'.origin (c'.children own') <;> rfl

/-- It only matters who brings attributes where none are allowed. -/
theorem Kind.collect_origin {k : Kind} {written : List (String × String)}
    (h : k.contract.attributes = .forbidden → written = []) (origin origin' : Origin) :
    k.collect origin written = k.collect origin' written := by
  unfold collect
  cases hattributes : k.contract.attributes with
  | listed rules => rfl
  | forbidden => rw [h hattributes]

theorem Kind.contentFault?_any {k : Kind} (h : k.contract.content = .any) (origin : Origin)
    (children : List Markup) : k.contentFault? origin children = none := by
  rw [contentFault?, h]

namespace Tree

variable {rules : Containment} {above : List Kind}

theorem ofCandidate_congr {c c' : Candidate} {own own' : List Markup} (hkind : c.kind = c'.kind)
    (hcollect : c.kind.collect c.origin c.attributes = c'.kind.collect c'.origin c'.attributes)
    (hcontent : c.kind.contentFault? c.origin (c.children own) =
      c'.kind.contentFault? c'.origin (c'.children own'))
    (hinside : (ofMarkups rules (c.kind :: above) c.origin (c.children own)).map (List.map forget) =
      (ofMarkups rules (c'.kind :: above) c'.origin (c'.children own')).map (List.map forget)) :
    (ofCandidate rules above c own).map forget = (ofCandidate rules above c' own').map forget := by
  refine bind_map_congr (Candidate.examine_congr hkind hcollect hcontent rules above) ?_
  intro e e' he
  exact map_map_congr hinside fun ts ts' hts => by rw [forget_node, forget_node, he, hts]

/-- Nothing but the texts depends on the way in which the element around was written. -/
theorem ofMarkup_forget (origin origin' : Origin) (m : Markup) :
    (ofMarkup rules above origin m).map forget = (ofMarkup rules above origin' m).map forget := by
  cases m with
  | text s =>
    rw [ofMarkup, ofMarkup]
    exact congrArg Except.ok (by rw [forget_node, forget_node]; rfl)
  | element tag attributes own => rw [ofMarkup_element_eq, ofMarkup_element_eq]

theorem ofMarkups_congr {origin origin' : Origin} {ms ms' : List Markup}
    (h : List.Forall₂ (fun m m' => (ofMarkup rules above origin m).map forget =
      (ofMarkup rules above origin' m').map forget) ms ms') :
    (ofMarkups rules above origin ms).map (List.map forget) =
      (ofMarkups rules above origin' ms').map (List.map forget) := by
  induction h with
  | nil => rfl
  | cons hm _ ih =>
    rw [ofMarkups, ofMarkups]
    refine bind_map_congr hm fun t t' ht => ?_
    refine bind_map_congr ih fun ts ts' hts => ?_
    exact congrArg Except.ok (by rw [List.map_cons, List.map_cons, ht, hts])

theorem ofMarkups_forget (origin origin' : Origin) (ms : List Markup) :
    (ofMarkups rules above origin ms).map (List.map forget) =
      (ofMarkups rules above origin' ms).map (List.map forget) :=
  ofMarkups_congr (List.forall₂_same.mpr fun m _ => ofMarkup_forget origin origin' m)

/-- One child among others is exchanged for one from which the same grows. -/
theorem ofMarkups_exchanged {origin : Origin} {m m' : Markup}
    (h : (ofMarkup rules above origin m).map forget = (ofMarkup rules above origin m').map forget)
    (before after : List Markup) :
    (ofMarkups rules above origin (before ++ m :: after)).map (List.map forget) =
      (ofMarkups rules above origin (before ++ m' :: after)).map (List.map forget) := by
  have hsame : ∀ ms, List.Forall₂ (fun m m' => (ofMarkup rules above origin m).map forget =
      (ofMarkup rules above origin m').map forget) ms ms :=
    fun ms => List.forall₂_same.mpr fun _ _ => rfl
  exact ofMarkups_congr (List.rel_append (hsame before) (.cons h (hsame after)))

/-! ### One element spelled in the other way -/

theorem ofMarkup_of_ofInner {m : Markup} {c : Candidate} (hc : Candidate.ofInner m = .ok c)
    (origin : Origin) : ofMarkup rules above origin m = ofCandidate rules above c m.children := by
  cases m with
  | text s => cases hc
  | element tag attributes own =>
    rw [ofMarkup_element_eq, hc]
    rfl

theorem ofMarkup_renders {m m' : Markup} (h : m.Renders m') (origin : Origin) :
    (ofMarkup rules above origin m).map forget = (ofMarkup rules above origin m').map forget := by
  obtain ⟨kind, written, label, hc, hc', hchildren, hadmits, hforbidden⟩ := h.candidates
  rw [ofMarkup_of_ofInner hc, ofMarkup_of_ofInner hc']
  refine ofCandidate_congr rfl ?_ ?_ ?_
  · exact Kind.collect_origin hforbidden _ _
  · rw [hchildren, Candidate.children, Kind.contentFault?_eq_none_iff.mpr hadmits,
      Kind.contentFault?_eq_none_iff.mpr hadmits]
  · rw [hchildren, Candidate.children]
    exact ofMarkups_forget _ _ _

theorem ofMarkup_respells {m m' : Markup} (h : m.RespellsField m') (above : List Kind)
    (origin : Origin) :
    (ofMarkup rules above origin m).map forget = (ofMarkup rules above origin m').map forget := by
  induction h generalizing above origin with
  | here spelled => exact ofMarkup_renders spelled origin
  | @inside tag attributes before after m m' c around kind _ ih =>
    obtain ⟨haround, hlabel⟩ :=
      @Candidate.ofInner_inside _ _ _ (before ++ m' :: after) _ around kind
    have hany : c.kind.contract.content = .any := by
      rcases kind with kind | kind <;> rw [kind] <;> rfl
    rw [ofMarkup_of_ofInner around, ofMarkup_of_ofInner haround]
    refine ofCandidate_congr rfl rfl ?_ ?_
    · rw [Kind.contentFault?_any hany, Kind.contentFault?_any hany]
    · rw [Candidate.children, Candidate.children, hlabel]
      exact ofMarkups_exchanged (ih _ _) before after

theorem ofRoot_respells {m m' : Markup} (h : m.Respells m') :
    (ofRoot rules m).map forget = (ofRoot rules m').map forget := by
  cases h with
  | @message attributes children enveloped =>
    have hc : Candidate.ofRoot (.element "messageML" [] children) =
        .ok ⟨.message, [], none, .author⟩ := rfl
    have hc' : Candidate.ofRoot (.element "div" attributes children) =
        .ok ⟨.message, [], none, .presentation⟩ := by
      fin_cases enveloped <;> rfl
    rw [ofRoot_eq hc rfl, ofRoot_eq hc' rfl]
    exact ofCandidate_congr rfl rfl rfl (ofMarkups_forget _ _ _)
  | @field tag attributes before after m m' c around respelled =>
    have haround : Candidate.ofRoot (.element tag attributes (before ++ m' :: after)) = .ok c :=
      around
    obtain ⟨hkind, hlabel, -⟩ := candidate_of_ofRoot around
    have hany : c.kind.contract.content = .any := by rw [hkind]; rfl
    rw [ofRoot_eq around hlabel, ofRoot_eq haround hlabel]
    refine ofCandidate_congr rfl rfl ?_ ?_
    · rw [Kind.contentFault?_any hany, Kind.contentFault?_any hany]
    · rw [Candidate.children, Candidate.children, hlabel]
      exact ofMarkups_exchanged (ofMarkup_respells respelled _ _) before after

end Tree

namespace Document

/-- Messages that differ only in which of their elements are spelled as clients show them are built
alike: they come to the same document, apart from how the elements were written, or to the same
fault. -/
theorem build_respelled (rules : Containment) {m m' : Markup}
    (h : Relation.EqvGen Markup.Respells m m') :
    (build rules m).map forgetOrigin = (build rules m').map forgetOrigin := by
  have hbuild : ∀ m, (build rules m).map forgetOrigin =
      ((Tree.ofRoot rules m).map Tree.forget).map ofTree := by
    intro m
    rw [build_eq]
    cases Tree.ofRoot rules m with
    | error fault => rfl
    | ok t => exact congrArg Except.ok (forgetOrigin_ofTree t)
  induction h with
  | rel m m' h => rw [hbuild, hbuild, Tree.ofRoot_respells h]
  | refl _ => rfl
  | symm _ _ _ ih => exact ih.symm
  | trans _ _ _ _ _ ih ih' => exact ih.trans ih'

/-- A message with a checkbox, as its author writes it. -/
def consent : Markup :=
  .element "messageML" [] [.element "form" [("id", "f")] [.element "div" []
    [.element "checkbox" [("name", "N"), ("checked", "TRUE")] [.text "I agree"]]]]

/-- The same message as a client may show it, with its label in two pieces before the input. -/
def renderedConsent : Markup :=
  .element "div" [("data-version", "2.0"), ("data-format", "PresentationML")]
    [.element "form" [("id", "f")] [.element "div" []
      [.element "div" [("name", "N"), ("class", " checkbox-group")]
        [.element "label" [] [.text "I ", .text "agree"], .text " ",
          .element "input" [("type", "CheckBox"), ("checked", "TRUE")] []]]]]

theorem build_respelled_consent :
    (build .standard consent).map forgetOrigin =
        (build .standard renderedConsent).map forgetOrigin ∧
      (build .standard consent).toOption.isSome := by
  have hmessage : Markup.Respells consent (.element "div"
      [("data-version", "2.0"), ("data-format", "PresentationML")] consent.children) :=
    .message (by decide)
  have hspelled : Markup.Renders
      (.element "checkbox" [("name", "N"), ("checked", "TRUE")] [.text "I agree"])
      (.element "div" [("name", "N"), ("class", " checkbox-group")]
        [.element "label" [] [.text "I ", .text "agree"], .text " ",
          .element "input" [("type", "CheckBox"), ("checked", "TRUE")] []]) :=
    @Markup.Renders.labelled [("name", "N")] [] [] [("checked", "TRUE")] _ _ _ _ _ (by decide)
      (by decide +kernel) (by decide) (by decide +kernel) (.present ["I ", "agree"]) (.swap _ _ _)
  have hfield : Markup.Respells (.element "div"
      [("data-version", "2.0"), ("data-format", "PresentationML")] consent.children)
      renderedConsent :=
    @Markup.Respells.field _ _ [] [] _ _ _ rfl (@Markup.RespellsField.inside _ _ [] [] _ _ _ rfl
      (.inl rfl) (@Markup.RespellsField.inside _ _ [] [] _ _ _ rfl (.inr rfl) (.here hspelled)))
  exact ⟨build_respelled .standard (.trans _ _ _ (.rel _ _ hmessage) (.rel _ _ hfield)),
    by decide +kernel⟩

end Document
end ChatForms
