import ChatForms.Proofs.Build.Tidiness
import ChatForms.Proofs.Presentation.Outline
import Mathlib.Data.List.Nodup

namespace ChatForms

/-! ### Characters of stored values -/

theorem Text.isLineSpace_of_isClear {x : Char} (h : IsClear x) : Xml.isLineSpace x = false := by
  rw [Bool.eq_false_iff]
  intro hspace
  simp only [Xml.isLineSpace, Bool.or_eq_true, beq_iff_eq] at hspace
  rcases hspace with (rfl | rfl) | rfl <;> exact absurd h.1 (by decide)

/-- Stored values hold characters of written values and clear ones. -/
theorem Candidate.Passes.values_of_all {rules : Containment} {above : List Kind}
    {own : List Markup} {m : Markup} {c : Candidate} {e : Element}
    (he : c.Passes rules above own e) (hc : c.Recognizes m) {P : Char → Prop}
    (hm : m.All fun m => ∀ a ∈ m.attributes, ∀ x ∈ a.2.toList, P x)
    (hclear : ∀ x, Text.IsClear x → P x) : ∀ value ∈ e.values, ∀ x ∈ value.toList, P x := by
  intro value hvalue x hx
  obtain ⟨name, hname⟩ := Element.mem_values.mp hvalue
  rcases Kind.mem_of_collect he.collected hname hx with ⟨a, ha, hxa⟩ | hx
  · rcases hc.mem_attributes ha with ha | ⟨input, hinput, ha⟩
    · exact hm.self a ha x hxa
    · exact (hm.inside input hinput).self a ha x hxa
  · exact hclear x hx

/-- No text stands in an element that has come through. -/
theorem Candidate.Passes.forall_text {rules : Containment} {above : List Kind}
    {own : List Markup} {c : Candidate} {e : Element} (he : c.Passes rules above own e)
    {P : String → Prop} : ∀ s ∈ e.text, P s := by
  simp [he.text]

/-- The root of a message has no attributes. -/
theorem Candidate.Passes.values_eq_nil {rules : Containment} {above : List Kind}
    {own : List Markup} {c : Candidate} {e : Element} (he : c.Passes rules above own e)
    (hkind : e.kind = .message) : e.values = [] := by
  have hstores : e.kind.Stores e.attributes := he.kind ▸ Kind.stores_of_collect he.collected
  exact Element.values_of_stores hstores (by rw [hkind]; rfl)

theorem Markup.IsLegal.attributes {m : Markup} (h : m.IsLegal) :
    ∀ a ∈ m.attributes, Xml.IsLegal a.2 := by
  cases m with
  | text s => simp [Markup.attributes]
  | element _ _ _ => exact h

theorem Tree.all_isLegal_of_ofMarkup {rules : Containment} {above : List Kind} {origin : Origin}
    {m : Markup} {t : Tree} (hread : m.All Markup.IsRead)
    (h : ofMarkup rules above origin m = .ok t) : t.All fun s => s.element.IsLegal := by
  refine growth_of_all (motive := fun _ _ t => t.All fun s => s.element.IsLegal)
    (show Xml.IsLegal "" by decide) ?_ ?_
    (hread.imp fun _ h => h.legal) (hread.imp fun _ h => h.tidy) h
  · intro _ origin s hs
    exact Presentation.all_isLegal_ofText.mpr hs
  · intro above origin m c e ts hm hc he hts
    refine all_node.mpr ⟨⟨?_, he.forall_text⟩, hts⟩
    exact he.values_of_all hc (hm.imp fun _ h => h.attributes) fun x hx => hx.2

theorem Tree.all_isLegal_of_ofRoot {rules : Containment} {m : Markup} {t : Tree}
    (hread : m.All Markup.IsRead) (h : ofRoot rules m = .ok t) :
    t.All fun s => s.element.IsLegal := by
  obtain ⟨hvalid, hkind⟩ := valid_of_ofRoot h
  obtain ⟨c, e, ts, -, he, hts, rfl⟩ := ofRoot_eq_ok.mp h
  refine all_node.mpr ⟨⟨?_, he.forall_text⟩, ?_⟩
  · rw [element, he.values_eq_nil hkind]
    simp
  · intro t ht
    obtain ⟨m', hm', hgrown⟩ := exists_of_forall₂ hts ht
    exact all_isLegal_of_ofMarkup (hread.inside m' hm') hgrown

/-! ### Steady elements -/

namespace Element

/-- A div without a class that marks the rendering of a field. -/
def IsUnmarked (e : Element) : Prop :=
  e.kind = .div → ∀ value ∈ e.attribute? "class",
    Presentation.groupClass ∉ Text.words value ∧ Presentation.selectorClass ∉ Text.words value

instance (e : Element) : Decidable e.IsUnmarked := inferInstanceAs (Decidable (_ → _))

/-- An element that comes back from its rendering as it was. -/
def IsSteady (e : Element) : Prop :=
  (∀ value ∈ e.values, ∀ c ∈ value.toList, Xml.isLineSpace c = false) ∧
    (∀ s ∈ e.text, Xml.IsSettled s) ∧ e.IsUnmarked

instance (e : Element) : Decidable e.IsSteady :=
  have (value : String) : Decidable (∀ c ∈ value.toList, Xml.isLineSpace c = false) :=
    List.decidableBAll _ _
  inferInstanceAs (Decidable (_ ∧ _))

theorem spaced_eq_self_iff {e : Element} :
    e.spaced = e ↔ ∀ value ∈ e.values, ∀ c ∈ value.toList, Xml.isLineSpace c = false := by
  have hattributes : e.spaced = e ↔ e.attributes.mapValues Xml.spaced = e.attributes := by
    obtain ⟨kind, attributes, text, origin⟩ := e
    simp [spaced]
  rw [hattributes, StringMap.mapValues_eq_self_iff]
  simp only [mem_values, Xml.spaced_eq_self_iff]
  constructor
  · intro h value hvalue
    obtain ⟨name, hname⟩ := hvalue
    exact h name value hname
  · intro h name value hname
    exact h value ⟨name, hname⟩

end Element

namespace Element

theorem spaced_spaced (e : Element) : e.spaced.spaced = e.spaced := by
  have hvalue : Xml.spaced ∘ Xml.spaced = Xml.spaced := by
    funext s
    exact Xml.spaced_spaced s
  rw [spaced, spaced, StringMap.mapValues_mapValues, hvalue]

/-- Spaces for line ends leave the marks of a div as they are. -/
theorem isUnmarked_spaced {e : Element} (h : e.IsUnmarked) : e.spaced.IsUnmarked := by
  intro hkind value hvalue
  rw [spaced, attribute?, StringMap.get?_mapValues] at hvalue
  obtain ⟨old, hold, rfl⟩ := Option.map_eq_some_iff.mp hvalue
  rw [Xml.words_spaced]
  exact h hkind old hold

theorem isSteady_spaced {e : Element} (h : e.IsUnmarked)
    (hreturn : ∀ s ∈ e.text, '\r' ∉ s.toList) : e.spaced.IsSteady :=
  ⟨spaced_eq_self_iff.mp e.spaced_spaced, fun s hs => Xml.isSettled_of_not_mem (hreturn s hs),
    isUnmarked_spaced h⟩

theorem forget_spaced_iff {e : Element} :
    e.spaced.forgetOrigin = e.forgetOrigin ↔ e.spaced = e := by
  obtain ⟨kind, attributes, text, origin⟩ := e
  simp [spaced, forgetOrigin]

end Element

/-- The way in which elements count as written once they have been rendered. Texts go with the
element around them. -/
def Kind.renderedOrigin (around : Origin) : Kind → Origin
  | text => around
  | message | checkbox | personSelector => .presentation
  | form | div | button => .author

/-- A tree as it counts as written once it has been rendered. -/
def Tree.restamp (around : Origin) : Tree → Tree
  | .node e children =>
    let own := e.kind.renderedOrigin around
    .node { e with origin := own } (children.map (restamp own))

/-! ### Trees that grow from rendered markup -/

namespace Markup

/-- A reader finds nothing else when the tag or the text is written once more. -/
def IsSettled : Markup → Prop
  | text s => Xml.IsSettled s
  | element _ attributes _ => ∀ a ∈ attributes, ∀ c ∈ a.2.toList, Xml.isLineSpace c = false

theorem IsSettled.attributes {m : Markup} (h : m.IsSettled) :
    ∀ a ∈ m.attributes, ∀ c ∈ a.2.toList, Xml.isLineSpace c = false := by
  cases m with
  | text s => simp [Markup.attributes]
  | element _ _ _ => exact h

theorem IsNamed.nodup {m : Markup} (h : m.IsNamed) : (m.attributes.map (·.1)).Nodup := by
  cases m with
  | text s => exact List.nodup_nil
  | element _ _ _ => exact h.2.2

/-- What a reader finds in a rendering. -/
structure IsShown (m : Markup) : Prop where
  rendered : Presentation.IsRendered m
  settled : m.IsSettled

theorem all_isShown_settle {m : Markup} (hm : m.All Presentation.IsRendered) :
    m.settle.All IsShown := by
  refine all_settle ?_ ?_ hm
  · intro s
    exact ⟨Presentation.isRendered_text _, Xml.isSettled_reread s⟩
  · intro tag attributes children children' h
    refine ⟨⟨⟨h.1.1, ?_, ?_⟩, h.2⟩, ?_⟩
    · intro a ha
      obtain ⟨b, hb, rfl⟩ := List.mem_map.mp ha
      exact h.1.2.1 b hb
    · have hnames : (spacedAttributes attributes).map (·.1) = attributes.map (·.1) := by
        simp [spacedAttributes]
      rw [hnames]
      exact h.1.2.2
    · intro a ha
      obtain ⟨b, hb, rfl⟩ := List.mem_map.mp ha
      exact Xml.spaced_eq_self_iff.mp (Xml.spaced_spaced b.2)

end Markup

/-! ### Divs with more than one class -/

section
open Presentation

/-- A div of which the first class bears no mark of a field, while the last one does. -/
def Markup.HidesMark (m : Markup) : Prop :=
  m.tag? = some "div" ∧ m.hasClass groupClass = false ∧ m.hasClass selectorClass = false ∧
    ∃ value ∈ m.attributes.reverse.lookup "class",
      groupClass ∈ Text.words value ∨ selectorClass ∈ Text.words value

instance (m : Markup) : Decidable m.HidesMark := inferInstanceAs (Decidable (_ ∧ _))

theorem Markup.not_hidesMark_of_nodup {m : Markup} (h : (m.attributes.map (·.1)).Nodup) :
    ¬m.HidesMark := by
  rintro ⟨-, hgroup, hselector, value, hvalue, hmark⟩
  obtain ⟨first, last, hsplit, -⟩ := List.lookup_eq_some_iff.mp hvalue
  have hmem : ("class", value) ∈ m.attributes := by
    rw [← List.mem_reverse, hsplit]
    exact List.mem_append_right first List.mem_cons_self
  -- the class that is stored is the one that was looked at, since there is no other
  have hfirst : m.attributes.lookup "class" = some value := by
    refine StringMap.lookup_eq_some_of_forall hmem fun a ha hname => ?_
    rw [List.inj_on_of_nodup_map h ha hmem hname]
  rw [hasClass, classes, attribute?, hfirst] at hgroup hselector
  rcases hmark with hmark | hmark
  · simp [hmark] at hgroup
  · simp [hmark] at hselector

variable {rules : Containment} {above : List Kind} {own : List Markup} {m : Markup} {c : Candidate}
  {e : Element}

/-- A div stores the last class. -/
theorem Candidate.Passes.attribute?_class (he : c.Passes rules above own e)
    (hkind : c.kind = .div) :
    e.attribute? "class" = c.attributes.reverse.lookup "class" := by
  have hrule : c.kind.contract.rule? "class" = some (.plain "class") := by rw [hkind]; rfl
  have hstored := Kind.get?_of_collect he.collected hrule
  have hverbatim : (AttributeRule.plain "class").normalize = id := rfl
  rw [hverbatim, Option.map_id, id] at hstored
  exact hstored.trans Option.or_none

theorem Candidate.Passes.isUnmarked (he : c.Passes rules above own e) (hc : c.Recognizes m)
    (hhides : ¬m.HidesMark) : e.IsUnmarked := by
  intro hkind value hvalue
  rw [he.kind] at hkind
  rw [he.attribute?_class hkind] at hvalue
  cases hc with
  | group _ _ | selector | bare _ => cases hkind
  | @written k hfield htag =>
    obtain rfl : k = .div := hkind
    have htag := Kind.tag_of_ofTag? htag
    obtain ⟨hgroup, hselector⟩ := unmarked_of_field? hfield htag
    rw [← not_or]
    exact fun hmark => hhides ⟨htag, hgroup, hselector, value, hvalue, hmark⟩

end

/-- Only forms, divs and buttons are rendered under the tags in which they are written. -/
theorem Candidate.Recognizes.renderedOrigin {m : Markup} {c : Candidate} (hc : c.Recognizes m)
    (htag : ∀ tag ∈ m.tag?, tag ∈ Presentation.renderedTags) (around : Origin) :
    c.kind.renderedOrigin around = c.origin := by
  cases hc with
  | group _ _ | selector | bare _ => rfl
  | @written k _ hk =>
    have hmem := htag _ (Kind.tag_of_ofTag? hk)
    cases k <;> first | rfl | exact absurd hmem (by decide)

namespace Tree

theorem isSteady_ofText {s : String} {origin : Origin} (h : Xml.IsSettled s) :
    (Element.ofText s origin).IsSteady := by
  refine ⟨?_, ?_, nofun⟩
  · intro value hvalue
    cases hvalue
  · rintro _ ⟨⟩
    exact h

/-- Trees that grow from what a reader finds in a rendering are steady. -/
theorem steady_of_isShown {rules : Containment} {above : List Kind} {origin : Origin} {m : Markup}
    {t : Tree} (hm : m.All Markup.IsShown) (htidy : m.All fun m => Markup.Tidy m.children)
    (h : ofMarkup rules above origin m = .ok t) :
    (t.All fun s => s.element.IsSteady) ∧ t.restamp origin = t := by
  refine growth_of_all (motive := fun _ origin t =>
    (t.All fun s => s.element.IsSteady) ∧ t.restamp origin = t)
    ⟨Presentation.isRendered_text _, show Xml.IsSettled "" by decide⟩ ?_ ?_ hm htidy h
  · intro _ origin s hs
    refine ⟨all_node.mpr ⟨isSteady_ofText hs.settled, by simp⟩, ?_⟩
    rw [restamp]
    rfl
  · intro above origin m c e ts hm hc he hts
    refine ⟨all_node.mpr ⟨⟨?_, he.forall_text, ?_⟩, fun t ht => (hts t ht).1⟩, ?_⟩
    · exact he.values_of_all hc (hm.imp fun _ h => h.settled.attributes) fun x hx =>
        Text.isLineSpace_of_isClear hx
    · exact he.isUnmarked hc (Markup.not_hidesMark_of_nodup hm.self.rendered.1.nodup)
    · -- no checkbox and no person selector comes from a tag of its own in a rendering
      have hstamp : e.kind.renderedOrigin origin = e.origin := by
        rw [he.kind, he.origin, hc.renderedOrigin hm.self.rendered.2]
      have hinside : ts.map (restamp e.origin) = ts := by
        have hid : ts.map (restamp e.origin) = ts.map id :=
          List.map_congr_left fun t ht => he.origin ▸ (hts t ht).2
        rw [hid, List.map_id]
      rw [restamp, hstamp, hinside]

theorem steady_of_isShown_root {rules : Containment} {m : Markup} {t : Tree}
    (hm : m.All Markup.IsShown) (htidy : m.All fun m => Markup.Tidy m.children)
    (htag : m.tag? = some "div") (h : ofRoot rules m = .ok t) (origin : Origin) :
    (t.All fun s => s.element.IsSteady) ∧ t.restamp origin = t := by
  obtain ⟨-, hkind⟩ := valid_of_ofRoot h
  obtain ⟨c, e, ts, hc, he, hts, rfl⟩ := ofRoot_eq_ok.mp h
  have hkind : e.kind = .message := hkind
  obtain ⟨-, -, horigin⟩ := candidate_of_ofRoot hc
  have horigin : e.origin = .presentation := by
    rw [he.origin, horigin]
    rw [htag]
    decide
  have hgrown : ∀ t ∈ ts, (t.All fun s => s.element.IsSteady) ∧ t.restamp .presentation = t := by
    intro t ht
    obtain ⟨m', hm', hgrown⟩ := exists_of_forall₂ hts ht
    rw [← he.origin, horigin] at hgrown
    exact steady_of_isShown (hm.inside m' hm') (htidy.inside m' hm') hgrown
  refine ⟨all_node.mpr ⟨⟨?_, he.forall_text, ?_⟩, fun t ht => (hgrown t ht).1⟩, ?_⟩
  · rw [element, he.values_eq_nil hkind]
    simp
  · intro hdiv
    rw [element, hkind] at hdiv
    cases hdiv
  · have hstamp : e.kind.renderedOrigin origin = e.origin := by
      rw [hkind, horigin]
      rfl
    have hid : ts.map (restamp e.origin) = ts.map id :=
      List.map_congr_left fun t ht => horigin ▸ (hgrown t ht).2
    rw [restamp, hstamp, hid, List.map_id]

end Tree
end ChatForms
