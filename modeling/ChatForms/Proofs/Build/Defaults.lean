import ChatForms.Markdown
import ChatForms.Proofs.Build.Lockstep
import ChatForms.Proofs.Build.Walk
import Mathlib.Data.List.Find

namespace ChatForms

/-! ### Defaults that are written out -/

/-- The attributes whose default may be written out, for elements of a tag. -/
def Markup.defaults : String → List (String × String)
  | "button" => [("type", "action")]
  | "checkbox" | "input" => [("value", "on"), ("checked", "false")]
  | _ => []

open Markup Presentation

/-- Defaults of some of the names are written out, at any places among the attributes, where an
element does not bear them, and the group around an input does not either. -/
def Retouch.writingOut (names : List String) : Retouch := fun around tag attributes attributes' =>
  ∃ new ⊆ names, without new attributes' = attributes ∧
    (∀ a ∈ attributes', a.1 ∈ new → a ∈ defaults tag) ∧
    (tag = "input" → ∀ m ∈ around, m.tag? = some "div" → m.hasClass groupClass →
      ∀ a ∈ m.attributes, a.1 ∉ new)

theorem Markup.without_eq_self {names : List String} {as : List (String × String)}
    (h : ∀ a ∈ as, a.1 ∉ names) : without names as = as := by
  rw [without, List.filter_eq_self]
  intro a ha
  simpa using h a ha

theorem Markup.without_comm (names others : List String) (as : List (String × String)) :
    without names (without others as) = without others (without names as) := by
  rw [without, without, without, without, List.filter_filter, List.filter_filter]
  exact List.filter_congr fun a _ => Bool.and_comm _ _

namespace Retouch
variable {names : List String} {around : Option Markup} {tag : String}
  {as as' : List (String × String)}

theorem eq_of_writingOut (h : writingOut names around tag as as') (htag : defaults tag = []) :
    as' = as := by
  obtain ⟨new, -, rfl, hdefaults, -⟩ := h
  refine (without_eq_self fun a ha hnew => ?_).symm
  have hnone := hdefaults a ha hnew
  rw [htag] at hnone
  cases hnone

theorem keepsMarks_writingOut : (writingOut names).KeepsMarks := by
  refine ⟨fun h _ _ => by rw [eq_of_writingOut h rfl], fun h => ?_,
    fun h => by rw [eq_of_writingOut h rfl]⟩
  obtain ⟨new, -, rfl, hdefaults, -⟩ := h
  have hnames : ∀ a ∈ defaults "input", a.1 ≠ "type" := by decide
  rw [lookup_without]
  split
  · next hnew =>
    refine (List.lookup_eq_none_iff.mpr fun a ha => bne_iff_ne.mpr fun hname => ?_).symm
    exact hnames a (hdefaults a ha (hname ▸ hnew)) hname.symm
  · rfl

end Retouch

namespace Kind

/-- The default of an attribute, be it stored or understood. -/
def default? (k : Kind) (name : String) : Option String :=
  (k.contract.rule? name >>= (·.default)).map (·.value)

/-- The second attributes have more of the defaults than the first ones, and nothing else. -/
def WritesOut (names : List String) (k : Kind) (written written' : List (String × String)) : Prop :=
  ∃ new ⊆ names, without new written' = written ∧
    ∀ a ∈ written', a.1 ∈ new → k.default? a.1 = some a.2

/-- The same attributes, or those of a checkbox with its state left to be understood and stored. -/
def StoresOut (names : List String) (k : Kind) (x x' : Attributes) : Prop :=
  x' = x ∨ "checked" ∈ names ∧ k = .checkbox ∧ x.get? "checked" = none ∧
    x' = x.insert "checked" "false"

theorem default_normalize (k : Kind) : ∀ r ∈ k.contract.rules, ∀ d ∈ r.default,
    r.normalize d.value = d.value := by
  cases k <;> decide +kernel

/-- Only the state of a checkbox has a default that is understood. -/
theorem implicit_default {k : Kind} {r : AttributeRule} (hr : r ∈ k.contract.rules)
    {value : String} (h : r.default = some (.implicit value)) :
    k = .checkbox ∧ r.name = "checked" ∧ value = "false" := by
  have hall : ∀ r ∈ k.contract.rules, ∀ d ∈ r.default,
      r.stored? = some d.value ∨ k = .checkbox ∧ r.name = "checked" ∧ d = .implicit "false" := by
    cases k <;> decide
  rcases hall r hr _ h with hstored | ⟨hkind, hname, hvalue⟩
  · rw [AttributeRule.stored?_eq_some_iff, h] at hstored
    cases hstored
  · cases hvalue
    exact ⟨hkind, hname, rfl⟩

variable {names : List String} {k : Kind} {written written' : List (String × String)}

theorem exists_of_default? {name value : String} (h : k.default? name = some value) :
    ∃ r, k.contract.rule? name = some r ∧ ∃ d, r.default = some d ∧ d.value = value := by
  obtain ⟨d, hd, hvalue⟩ := Option.map_eq_some_iff.mp h
  obtain ⟨r, hr, hd⟩ := Option.bind_eq_some_iff.mp hd
  exact ⟨r, hr, d, hd, hvalue⟩

/-- Defaults are listed, so they are never to blame. -/
theorem WritesOut.find?_eq (h : WritesOut names k written written') :
    (written.find? fun a => (k.contract.rule? a.1).isNone) =
      written'.find? fun a => (k.contract.rule? a.1).isNone := by
  obtain ⟨new, -, rfl, hdefaults⟩ := h
  rw [without, List.find?_filter]
  refine List.find?_congr fun a ha => ?_
  by_cases hnew : a.1 ∈ new
  · obtain ⟨r, hr, -⟩ := exists_of_default? (hdefaults a ha hnew)
    simp [hr]
  · cases k.contract.rule? a.1 <;> simp [hnew]

/-- What is written last under a name is the same, or it is a default where nothing was. -/
theorem WritesOut.lookup_cases (h : WritesOut names k written written') (name : String) :
    written'.reverse.lookup name = written.reverse.lookup name ∨
      name ∈ names ∧ written.reverse.lookup name = none ∧
        ∃ value, written'.reverse.lookup name = some value ∧ k.default? name = some value := by
  obtain ⟨new, hsub, rfl, hdefaults⟩ := h
  have hlookup : (without new written').reverse.lookup name =
      if name ∈ new then none else written'.reverse.lookup name := by
    rw [← lookup_without, without, without, List.filter_reverse]
  rw [hlookup]
  by_cases hnew : name ∈ new
  · rw [if_pos hnew]
    cases hvalue : written'.reverse.lookup name with
    | none => exact Or.inl rfl
    | some value =>
      obtain ⟨first, last, hsplit, -⟩ := List.lookup_eq_some_iff.mp hvalue
      have hmem : (name, value) ∈ written' := by
        rw [← List.mem_reverse, hsplit]
        exact List.mem_append_right _ List.mem_cons_self
      exact Or.inr ⟨hsub hnew, rfl, value, rfl, hdefaults _ hmem hnew⟩
  · rw [if_neg hnew]
    exact Or.inl rfl

/-- Stored attributes differ only where a default is understood. -/
theorem WritesOut.get?_cases (h : WritesOut names k written written') {origin : Origin}
    {x x' : Attributes} (hx : k.collect origin written = .ok x)
    (hx' : k.collect origin written' = .ok x') (name : String) :
    x'.get? name = x.get? name ∨ "checked" ∈ names ∧ k = .checkbox ∧ name = "checked" ∧
      x.get? "checked" = none ∧ x'.get? "checked" = some "false" := by
  cases hrule : k.contract.rule? name with
  | none =>
    rw [(stores_of_collect hx).get?_eq_none hrule, (stores_of_collect hx').get?_eq_none hrule]
    exact Or.inl rfl
  | some r =>
    have hfirst := get?_of_collect hx hrule
    have hsecond := get?_of_collect hx' hrule
    obtain hsame | ⟨hname, hnone, value, hvalue, hdefault⟩ := h.lookup_cases name
    · rw [hsame] at hsecond
      exact Or.inl (hsecond.trans hfirst.symm)
    · obtain ⟨r', hrule', d, hd, rfl⟩ := exists_of_default? hdefault
      rw [hrule] at hrule'
      cases hrule'
      obtain ⟨hr, rfl⟩ := Contract.of_rule? hrule
      rw [hnone, Option.map_none, Option.none_or] at hfirst
      rw [hvalue, Option.map_some, k.default_normalize r hr d hd, Option.some_or] at hsecond
      cases d with
      | stored value =>
        rw [AttributeRule.stored?_eq_some_iff.mpr hd] at hfirst
        exact Or.inl (hsecond.trans hfirst.symm)
      | implicit value =>
        obtain ⟨hkind, hchecked, rfl⟩ := implicit_default hr hd
        have hstored : r.stored? = none := by rw [AttributeRule.stored?, hd]
        rw [hstored, hchecked] at hfirst
        rw [hchecked] at hsecond hname
        exact Or.inr ⟨hname, hkind, hchecked, hfirst, hsecond⟩

theorem WritesOut.storesOut (h : WritesOut names k written written') {origin : Origin}
    {x x' : Attributes} (hx : k.collect origin written = .ok x)
    (hx' : k.collect origin written' = .ok x') : StoresOut names k x x' := by
  have hcases := h.get?_cases hx hx'
  rcases hcases "checked" with hchecked | ⟨hnames, hkind, -, hnone, hfalse⟩
  · refine Or.inl ?_
    ext name : 1
    rcases hcases name with hname | ⟨-, -, rfl, hnone, hfalse⟩
    · exact hname
    · exact hchecked
  · refine Or.inr ⟨hnames, hkind, hnone, ?_⟩
    ext name : 1
    rw [StringMap.get?_insert]
    split
    · next hname => rw [hname, hfalse]
    · next hname => exact (hcases name).resolve_right fun h => hname h.2.2.1

/-- The default of the state is one of its values, and nothing else that is asked depends on it. -/
theorem attributesFault?_insert {x : Attributes} (h : x.get? "checked" = none) :
    checkbox.attributesFault? (x.insert "checked" "false") = checkbox.attributesFault? x := by
  have hget : ∀ name, name ≠ "checked" → (x.insert "checked" "false").get? name = x.get? name := by
    intro name hname
    rw [StringMap.get?_insert, if_neg hname]
  have hchecked : (x.insert "checked" "false").get? "checked" = some "false" := by
    rw [StringMap.get?_insert, if_pos rfl]
  have hname := hget "name" (by decide)
  simp [attributesFault?, contract, Contract.rules, checkboxRules, AttributeRule.plain,
    List.findSome?_cons, ruleFault?, requirementFault?, Requirement.always, Requirement.applies,
    Requirement.isMet, hname, hchecked, h]

theorem collects_writesOut (names : List String) :
    Collects Eq (WritesOut names) (StoresOut names) where
  fault _ := rfl
  unchanged _ _ := Or.inl rfl
  collect := by
    intro k written written' h origin
    refine endAlike_collect ?_ fun x x' hx hx' => h.storesOut hx hx'
    rw [h.find?_eq]
    cases written'.find? fun a => (k.contract.rule? a.1).isNone with
    | none => exact .none
    | some a => exact .some rfl
  attributesFault? := by
    rintro k x x' (rfl | ⟨-, rfl, hnone, rfl⟩)
    · rfl
    · exact attributesFault?_insert hnone

theorem WritesOut.refl (names : List String) (k : Kind) (written : List (String × String)) :
    WritesOut names k written written :=
  ⟨[], List.nil_subset _, without_eq_self (by simp), by simp⟩

/-- What stands for the defaults of a tag are defaults of the kinds that its elements may have. -/
theorem default?_of_defaults : (∀ k : Kind, ∀ a ∈ defaults k.tag, k.default? a.1 = some a.2) ∧
    ∀ a ∈ defaults "input", checkbox.default? a.1 = some a.2 := by
  refine ⟨fun k => ?_, by decide⟩
  cases k <;> decide

end Kind

theorem Retouch.brings_writingOut (names : List String) :
    (writingOut names).Brings (Kind.WritesOut names) where
  toKeepsMarks := keepsMarks_writingOut
  written := by
    rintro k around _ attributes' ⟨new, hsub, rfl, hdefaults, -⟩
    exact ⟨new, hsub, rfl, fun a ha hnew => Kind.default?_of_defaults.1 k a (hdefaults a ha hnew)⟩
  message h := by
    rw [eq_of_writingOut h rfl]
    exact .refl names _ _
  selector h := by
    rw [eq_of_writingOut h rfl]
    exact .refl names _ _
  bare := by
    rintro around _ attributes' ⟨new, hsub, rfl, hdefaults, -⟩
    refine ⟨new, hsub, without_comm _ _ _, fun a ha hnew => ?_⟩
    exact Kind.default?_of_defaults.2 a (hdefaults a (List.mem_of_mem_filter ha) hnew)
  group := by
    intro around m attributes' inner inner' htag hclass h h'
    obtain ⟨new, hsub, rfl, hdefaults, hgroup⟩ := h'
    rw [eq_of_writingOut h rfl]
    have hapart := hgroup rfl m rfl htag hclass
    refine ⟨new, hsub, ?_, fun a ha hnew => ?_⟩
    · have hself : without new (without ["class"] m.attributes) = without ["class"] m.attributes :=
        without_eq_self fun a ha => hapart a (List.mem_of_mem_filter ha)
      rw [without, List.filter_append, ← without, ← without, hself, without_comm]
    · rcases List.mem_append.mp ha with ha | ha
      · exact absurd hnew (hapart a (List.mem_of_mem_filter ha))
      · exact Kind.default?_of_defaults.2 a (hdefaults a (List.mem_of_mem_filter ha) hnew)

/-! ### Documents and their summaries -/

namespace Tree

theorem summaries_alike {R : Element → Element → Prop}
    (hR : ∀ e e', R e e' → e'.kind = e.kind ∧ e'.text = e.text ∧
      e'.attribute? "name" = e.attribute? "name")
    {ts ts' : List Tree} (h : List.Forall₂ (Alike R) ts ts') :
    textContents ts' = textContents ts ∧ Markdown.summaries ts' = Markdown.summaries ts := by
  induction ts using forest_induction generalizing ts' with
  | nil =>
    cases h
    exact ⟨rfl, rfl⟩
  | cons e inside others ihinside ihothers =>
    obtain ⟨_, us', ⟨helement, hinside⟩, hothers, rfl⟩ := List.forall₂_cons_left_iff.mp h
    obtain ⟨hkind, htext, hname⟩ := hR _ _ helement
    obtain ⟨htexts, hsummaries⟩ := ihinside hinside
    obtain ⟨htexts', hsummaries'⟩ := ihothers hothers
    simp only [textContents, textContent, Markdown.summaries, Markdown.summary, hkind, htext, hname,
      htexts, hsummaries, htexts', hsummaries', and_self]

end Tree

/-! ### States that are stored -/

/-- The element that comes of a place gets an attribute from its markup. -/
def Place.bears (p : Place) (name : String) : Bool :=
  match p.candidate with
  | .ok c => c.attributes.any fun a => a.1 = name
  | .error _ => false

/-- A state is stored if it is written, since its default is none that is stored. -/
theorem Kind.isSome_checked_of_collect {k : Kind} {origin : Origin}
    {written : List (String × String)} {x : Attributes} (h : k.collect origin written = .ok x) :
    (x.get? "checked").isSome = written.any fun a => a.1 = "checked" := by
  have hunstored : ∀ r ∈ k.contract.rules, r.name = "checked" → r.stored? = none := by
    cases k <;> decide
  cases hrule : k.contract.rule? "checked" with
  | none =>
    obtain ⟨listed, hlisted, -⟩ := exists_of_collect h
    rw [(stores_of_collect h).get?_eq_none hrule, Option.isSome_none, eq_comm, List.any_eq_false]
    intro a ha hname
    have hsome := listed_of_collectListed hlisted a ha
    rw [of_decide_eq_true hname, hrule] at hsome
    cases hsome
  | some r =>
    obtain ⟨hr, hname⟩ := Contract.of_rule? hrule
    rw [get?_of_collect h hrule, hunstored r hr hname, Option.or_none, Option.isSome_map,
      StringMap.isSome_lookup, List.any_reverse]

namespace Document

/-- Elements other than texts, in the order in which they begin. -/
def elements (d : Document) : List Element :=
  (d.entries.toList.map Entry.toElement).filter fun e => e.kind ≠ .text

/-- Each element stores a state exactly if its markup brings one. -/
def StatesAsWritten (d : Document) (m : Markup) : Prop :=
  List.Forall₂ (fun p e => (e.attribute? "checked").isSome = p.bears "checked") (Place.all m)
    d.elements

theorem statesAsWritten_of_build {rules : Containment} {m : Markup} {d : Document}
    (h : build rules m = .ok d) : d.StatesAsWritten m := by
  obtain ⟨t, ht, rfl⟩ := build_eq_ok.mp h
  have helements : (ofTree t).elements = Tree.elementsOf [t] := by
    rw [elements, map_entries_ofTree, Tree.elementsOf, Tree.subtreesOf, Tree.subtreesOf,
      List.append_nil]
  rw [StatesAsWritten, helements]
  refine (Tree.forall₂_places ht).imp ?_
  rintro p e ⟨c, hc, he⟩
  rw [Place.bears, hc, Element.attribute?, Kind.isSome_checked_of_collect he.collected]

end Document

/-- A checkbox without a state, and the same one with the state that is understood stored. -/
def Entry.StoresState (e e' : Entry) : Prop :=
  e.kind = .checkbox ∧ e.attribute? "checked" = none ∧
    e' = { e with attributes := e.attributes.insert "checked" "false" }

theorem Entry.StoresState.effective?_eq {e e' : Entry} (h : e.StoresState e') (name : String) :
    e'.effective? name = e.effective? name := by
  obtain ⟨hkind, hnone, rfl⟩ := h
  rw [Element.effective?, Element.effective?, Element.attribute?, StringMap.get?_insert]
  split
  · next hname =>
    subst hname
    rw [hnone, hkind]
    rfl
  · rfl

namespace Document

theorem forall₂_entries_of_alike {names : List String} {t t' : Tree}
    (h : t.Alike (Element.Alike (Kind.StoresOut names)) t') :
    List.Forall₂ (fun e e' => e' = e ∨ "checked" ∈ names ∧ e.StoresState e')
      (ofTree t).entries.toList (ofTree t').entries.toList := by
  obtain ⟨-, -, hall⟩ := Tree.forall₂_entriesOfAll (.cons h .nil)
  have hentries := hall none 0
  simp only [Tree.entriesOfAll, List.append_nil] at hentries
  refine hentries.imp ?_
  rintro ⟨e, parent, children⟩ ⟨e', parent', children'⟩ ⟨⟨x, hx, he⟩, hparent, hchildren⟩
  obtain rfl : e' = { e with attributes := x } := he
  obtain rfl : parent' = parent := hparent
  obtain rfl : children' = children := hchildren
  rcases hx with rfl | ⟨hnames, hkind, hnone, rfl⟩
  · exact Or.inl rfl
  · exact Or.inr ⟨hnames, hkind, hnone, rfl⟩

/-- Whether defaults are left to be understood or written out makes no difference but that states of
checkboxes are stored where they are written. The same fault is found, or the documents have the
same elements with the same effective attributes, and the same summary. -/
theorem build_writtenOut {names : List String} {m m' : Markup}
    (h : m.Retouches (.writingOut names) none m') (rules : Containment) :
    (∃ fault, build rules m = .error fault ∧ build rules m' = .error fault) ∨
      ∃ d d', build rules m = .ok d ∧ build rules m' = .ok d' ∧
        List.Forall₂ (fun e e' => e' = e ∨ e.StoresState e') d.entries.toList d'.entries.toList ∧
        d.StatesAsWritten m ∧ d'.StatesAsWritten m' ∧
        ("checked" ∉ names → d' = d) ∧
        (∀ i name, (d'.get? i).map (·.effective? name) = (d.get? i).map (·.effective? name)) ∧
        d'.markdown = d.markdown := by
  have hend := endAlike_build (Retouch.brings_writingOut names) (Kind.collects_writesOut names) h
    rules
  generalize hbuild : build rules m = x at hend
  generalize hbuild' : build rules m' = y at hend
  cases hend with
  | error related => exact Or.inl ⟨_, rfl, by rw [related]⟩
  | ok related =>
    obtain ⟨t, t', ht, rfl, rfl⟩ := related
    have hentries := forall₂_entries_of_alike ht
    refine Or.inr ⟨_, _, rfl, rfl, ?_, statesAsWritten_of_build hbuild,
      statesAsWritten_of_build hbuild', fun hnames => ?_, fun i name => ?_, ?_⟩
    · exact hentries.imp fun e e' he => he.imp_right And.right
    · have hsame : List.Forall₂ Eq (ofTree t).entries.toList (ofTree t').entries.toList :=
        hentries.imp fun e e' he => (he.resolve_right fun h => hnames h.1).symm
      rw [List.forall₂_eq_eq_eq] at hsame
      exact ext_toList hsame.symm
    · have hsame : (ofTree t').entries.toList.map (·.effective? name) =
          (ofTree t).entries.toList.map (·.effective? name) := by
        rw [← List.forall₂_eq_eq_eq, List.forall₂_map_left_iff, List.forall₂_map_right_iff]
        refine (hentries.imp fun e e' he => ?_).flip
        rcases he with rfl | ⟨-, he⟩
        · rfl
        · exact he.effective?_eq name
      have hget := congrArg (·[i]?) hsame
      simpa [get?] using hget
    · have hsummary := (Tree.summaries_alike ?_ (.cons ht .nil)).2
      · simpa [markdown, Markdown.summaries] using hsummary
      · rintro e _ ⟨x, rfl | ⟨-, -, -, rfl⟩, rfl⟩
        · exact ⟨rfl, rfl, rfl⟩
        · refine ⟨rfl, rfl, ?_⟩
          rw [Element.attribute?, StringMap.get?_insert]
          rfl

/-- A form in which everything that has a default is left to be understood. -/
def survey : Markup :=
  .element "messageML" [] [.element "form" [("id", "f")]
    [.element "button" [("name", "send")] [.text "Go"],
      .element "checkbox" [("name", "a")] [],
      .element "div" [("class", "checkbox-group"), ("value", "b")]
        [.element "input" [("type", "checkbox"), ("name", "b")] []]]]

/-- The same form with the defaults written out, but for the value that the group bears. -/
def writtenSurvey : Markup :=
  .element "messageML" [] [.element "form" [("id", "f")]
    [.element "button" [("type", "action"), ("name", "send")] [.text "Go"],
      .element "checkbox" [("value", "on"), ("name", "a")] [],
      .element "div" [("class", "checkbox-group"), ("value", "b")]
        [.element "input" [("type", "checkbox"), ("checked", "false"), ("name", "b")] []]]]

theorem build_writtenOut_survey :
    survey.Retouches (.writingOut ["type", "value", "checked"]) none writtenSurvey ∧
      ∃ d d', build .standard survey = .ok d ∧ build .standard writtenSurvey = .ok d' ∧
        d' ≠ d ∧ d'.StatesAsWritten writtenSurvey ∧ d'.markdown = d.markdown := by
  have hunchanged : ∀ {around tag as},
      Retouch.writingOut ["type", "value", "checked"] around tag as as :=
    ⟨[], by simp, without_eq_self (by simp), by simp, by simp⟩
  have hsurvey : survey.Retouches (.writingOut ["type", "value", "checked"]) none writtenSurvey :=
    .of_children hunchanged (.cons (.of_children hunchanged
      (.cons (.of_children ⟨["type"], by decide, rfl, by decide, by decide⟩
          (.cons (.text "Go") .nil))
        (.cons (.of_children ⟨["value"], by decide, rfl, by decide, by decide⟩ .nil)
          (.cons (.of_children hunchanged
            (.cons (.of_children ⟨["checked"], by decide, rfl, by decide, by decide⟩ .nil) .nil))
            .nil)))) .nil)
  have hbuilt : (build .standard survey).toOption.isSome := by decide +kernel
  obtain ⟨fault, hfault, -⟩ | ⟨d, d', hd, hd', -, -, hstates, -, -, hmarkdown⟩ :=
    build_writtenOut hsurvey .standard
  · rw [hfault] at hbuilt
    cases hbuilt
  · refine ⟨hsurvey, d, d', hd, hd', ?_, hstates, hmarkdown⟩
    rintro rfl
    have hdiffer : build .standard survey ≠ build .standard writtenSurvey := by decide +kernel
    exact hdiffer (hd.trans hd'.symm)

end Document
end ChatForms
