import ChatForms.Presentation
import ChatForms.Proofs.Build.Validity
import ChatForms.Proofs.Markup.Gathering
import ChatForms.Proofs.Markup.Tidy

namespace ChatForms

namespace Presentation

mutual
/-- The markup in which a reader finds an element, read off the tree alone. What becomes of the
line ends in a text is up to `lines`. -/
def outline (lines : String → String) : Tree → Markup
  | .node e children =>
    match e.kind with
    | .message =>
      .element "div" [(formatAttribute, formatName), (versionAttribute, version)]
        (outlines lines "" children)
    | .form => .element "form" (e.pick ["id"]) (outlines lines "" children)
    | .div => .element "div" (e.pick ["class"]) (outlines lines "" children)
    | .button => .element "button" (e.pick buttonNames) (outlines lines "" children)
    | .checkbox =>
      let input := .element "input" (("type", "checkbox") :: e.pick checkboxNames) []
      if children.isEmpty then input
      else .element "div" [("class", groupClass)]
        [input, .element "label" [] (outlines lines "" children)]
    | .personSelector => .element "div" [("class", selectorClass)] []
    | .text => .text (lines (e.text.getD ""))
/-- Sibling texts that follow each other are one text, or none if it is blank; `pending` is the
text since the last element. -/
def outlines (lines : String → String) (pending : String) : List Tree → List Markup
  | [] => Markup.run (lines pending)
  | t :: rest =>
    if t.element.kind = .text then outlines lines (pending ++ t.element.text.getD "") rest
    else Markup.run (lines pending) ++ outline lines t :: outlines lines "" rest
end

end Presentation

/-! ### Picked attributes -/

namespace Element

theorem values_of_stores {e : Element} (h : e.kind.Stores e.attributes)
    (hrules : e.kind.contract.rules = []) : e.values = [] := by
  rw [values, h.eq_empty hrules]
  rfl

theorem map_fst_pick_sublist (e : Element) (names : List String) :
    ((e.pick names).map (·.1)).Sublist names := by
  induction names with
  | nil => exact List.Sublist.refl []
  | cons n names ih =>
    cases hvalue : e.attribute? n with
    | none =>
      have hpick : e.pick (n :: names) = e.pick names := by simp [pick, hvalue]
      rw [hpick]
      exact ih.cons n
    | some value =>
      have hpick : e.pick (n :: names) = (n, value) :: e.pick names := by simp [pick, hvalue]
      rw [hpick, List.map_cons]
      exact ih.cons_cons n

end Element

namespace Presentation
open Markup

/-! ### Rendered markup -/

def renderedTags : List String := ["div", "form", "button", "input", "label"]

/-- A tag as the renderer writes it. -/
def IsRendered (m : Markup) : Prop := m.IsNamed ∧ ∀ tag ∈ m.tag?, tag ∈ renderedTags

theorem mem_markups {m : Markup} {ts : List Tree} : m ∈ markups ts ↔ ∃ t ∈ ts, m ∈ markup t := by
  induction ts with
  | nil => simp [markups]
  | cons t ts ih => simp [markups, ih]

theorem isRendered_text (s : String) : IsRendered (.text s) := ⟨trivial, nofun⟩

theorem isRendered_pick {tag : String} {names : List String} (e : Element) (children : List Markup)
    (htag : tag ∈ renderedTags) (hplain : ∀ name ∈ names, Xml.isPlainName name ∧ name ≠ "xmlns")
    (hnames : names.Nodup) : IsRendered (.element tag (e.pick names) children) := by
  refine ⟨⟨?_, ?_, (e.map_fst_pick_sublist names).nodup hnames⟩, ?_⟩
  · have hall : ∀ tag ∈ renderedTags, Xml.isPlainName tag = true := by decide
    exact hall tag htag
  · intro a ha
    exact hplain a.1 (Element.mem_pick.mp ha).1
  · rintro _ ⟨⟩
    exact htag

theorem isRendered_input (e : Element) :
    IsRendered (.element "input" (("type", "checkbox") :: e.pick checkboxNames) []) := by
  have hpick : IsRendered (.element "input" (e.pick checkboxNames) []) :=
    isRendered_pick e [] (by decide) (by decide) (by decide)
  obtain ⟨⟨htag, hplain, hnodup⟩, htags⟩ := hpick
  refine ⟨⟨htag, ?_, ?_⟩, htags⟩
  · exact List.forall_mem_cons.mpr ⟨by decide, hplain⟩
  · refine List.nodup_cons.mpr ⟨fun htype => ?_, hnodup⟩
    have hmem := (e.map_fst_pick_sublist checkboxNames).subset htype
    exact absurd hmem (by decide)

theorem isRendered_closed {tag : String} {attributes : List (String × String)}
    (h : Xml.isPlainName tag = true ∧
      (∀ a ∈ attributes, Xml.isPlainName a.1 = true ∧ a.1 ≠ "xmlns") ∧
      (attributes.map (·.1)).Nodup ∧ tag ∈ renderedTags) (children : List Markup) :
    IsRendered (.element tag attributes children) := by
  refine ⟨⟨h.1, h.2.1, h.2.2.1⟩, ?_⟩
  rintro _ ⟨⟩
  exact h.2.2.2

theorem all_isRendered_checkbox (e : Element) (labels : List Tree) :
    All IsRendered (checkboxMarkup e labels) := by
  have hinput := All.element (isRendered_input e) (by simp)
  unfold checkboxMarkup
  split
  · exact hinput
  · refine .element (isRendered_closed (by decide) _) ?_
    intro m hm
    rcases List.mem_cons.mp hm with rfl | hm
    · exact hinput
    · rw [List.mem_singleton.mp hm]
      refine .element (isRendered_closed (by decide) _) ?_
      simp [All.text (isRendered_text _)]

theorem all_isRendered_markup (t : Tree) : ∀ m ∈ markup t, All IsRendered m := by
  induction t using Tree.induction with
  | node e children ih =>
    have hinside : ∀ m ∈ markups children, All IsRendered m := by
      intro m hm
      obtain ⟨t, ht, hm⟩ := mem_markups.mp hm
      exact ih t ht m hm
    intro m hm
    rw [markup] at hm
    split at hm
    · exact hinside m hm
    · rw [List.mem_singleton.mp hm]
      exact .element (isRendered_pick e _ (by decide) (by decide) (by decide)) hinside
    · rw [List.mem_singleton.mp hm]
      exact .element (isRendered_pick e _ (by decide) (by decide) (by decide)) hinside
    · rw [List.mem_singleton.mp hm]
      refine .element (isRendered_pick e _ (by decide) (by decide) (by decide)) ?_
      simp [All.text (isRendered_text _)]
    · rw [List.mem_singleton.mp hm]
      exact all_isRendered_checkbox e children
    · rw [List.mem_singleton.mp hm]
      exact .element (isRendered_closed (by decide) _) (by simp)
    · rw [List.mem_singleton.mp hm]
      exact .text (isRendered_text _)

theorem all_isRendered_envelope (t : Tree) : All IsRendered (envelope t) := by
  refine .element (isRendered_closed (by decide) _) ?_
  intro m hm
  rcases List.mem_cons.mp hm with rfl | hm
  · exact .text (isRendered_text "")
  · obtain ⟨s, -, hm⟩ := mem_markups.mp hm
    exact all_isRendered_markup s m hm

/-! ### Rendered markup as it is read -/

/-- A reader that makes `lines` of texts and `values` of values makes `change` of elements. An empty
text stays empty, and so do the values that are the same in all renderings. -/
structure Revises (lines values : String → String) (change : Element → Element) : Prop where
  empty : lines "" = ""
  fixed : ∀ s ∈ [formatName, version, groupClass, selectorClass, "checkbox"], values s = s
  kind : ∀ e, (change e).kind = e.kind
  text : ∀ e, (change e).text = e.text
  stored : ∀ e name, (change e).attribute? name = (e.attribute? name).map values

theorem revises_spaced : Revises Xml.reread Xml.spaced Element.spaced :=
  ⟨by decide, by decide, fun _ => rfl, fun _ => rfl,
    fun e => StringMap.get?_mapValues Xml.spaced e.attributes⟩

theorem revises_id : Revises id id id :=
  ⟨rfl, fun _ _ => rfl, fun _ => rfl, fun _ => rfl, fun _ _ => Option.map_id_apply.symm⟩

theorem reviseAll_element (lines values : String → String) (pending : String) {m : Markup}
    (hm : m.tag?.isSome) (ms : List Markup) :
    reviseAll lines values pending (m :: ms) =
      run (lines pending) ++ revise lines values m :: reviseAll lines values "" ms := by
  obtain ⟨tag, htag⟩ := Option.isSome_iff_exists.mp hm
  rw [reviseAll, htag]

section
variable {lines values : String → String} {change : Element → Element}

theorem Revises.pick (h : Revises lines values change) (e : Element) (names : List String) :
    (change e).pick names = (e.pick names).map fun a => (a.1, values a.2) := by
  induction names with
  | nil => rfl
  | cons n names ih =>
    simp only [Element.pick] at ih ⊢
    rw [List.filterMap_cons, List.filterMap_cons, h.stored]
    cases e.attribute? n <;> simp [ih]

theorem outlines_ofText (lines : String → String) (s : String) (origin : Origin) :
    outlines lines "" [.node (.ofText s origin) []] = run (lines s) := by
  simp [outlines, Tree.element, Element.ofText]

theorem Revises.outlines_ofText (h : Revises lines values change) (s : String) (origin : Origin) :
    outlines lines "" ([.node (.ofText s origin) []].map (Tree.map change)) = run (lines s) := by
  have hkind : (change (.ofText s origin)).kind = .text := h.kind _
  have htext : (change (.ofText s origin)).text = some s := h.text _
  rw [List.map_singleton, Tree.map]
  simp [outlines, Tree.element, hkind, htext]

/-- What is to be shown of an element that is not a text. -/
def IsFaithful (lines values : String → String) (change : Element → Element) (t : Tree) : Prop :=
  ∃ m, markup t = [m] ∧ m.tag?.isSome ∧ m.revise lines values = outline lines (t.map change)

theorem reviseAll_markups (hchange : Revises lines values change) {ts : List Tree}
    (pending : String) (h : ∀ t ∈ ts, t.element.kind ≠ .text → IsFaithful lines values change t) :
    reviseAll lines values pending (markups ts) =
      outlines lines pending (ts.map (Tree.map change)) := by
  induction ts generalizing pending with
  | nil => simp [markups, reviseAll, outlines]
  | cons t ts ih =>
    obtain ⟨ht, hts⟩ := List.forall_mem_cons.mp h
    rw [markups, List.map_cons, outlines, Tree.element_map, hchange.kind, hchange.text]
    by_cases hkind : t.element.kind = .text
    · -- on both sides the text is added to the texts in front of it
      obtain ⟨e, children⟩ := t
      have hkind : e.kind = .text := hkind
      rw [if_pos (show (Tree.node e children).element.kind = .text from hkind), markup, hkind]
      exact ih _ hts
    · obtain ⟨m, hm, htag, hrevise⟩ := ht hkind
      rw [if_neg hkind, hm, List.singleton_append, reviseAll_element lines values pending htag,
        hrevise, ih "" hts]

theorem isFaithful_of_valid (hchange : Revises lines values change) {rules : Containment}
    {above : List Kind} {t : Tree} (h : t.Valid rules above) (habove : above ≠ [])
    (hkind : t.element.kind ≠ .text) : IsFaithful lines values change t := by
  -- the induction is on validity, which says what stands below each kind of element
  induction h with
  | @node above e children fits _ ih =>
    have hinside := reviseAll_markups hchange "" fun t ht hkind => ih t ht (by simp) hkind
    have hfixed := hchange.fixed
    simp only [List.forall_mem_cons] at hfixed
    obtain ⟨-, -, hgroup, hselector, hcheckbox, -⟩ := hfixed
    rw [IsFaithful, Tree.map, markup, outline, hchange.kind]
    simp only [hchange.pick]
    have hholds := fits.holds
    have hplaced := fits.placed
    cases hk : e.kind with
    | message =>
      rw [hk] at hplaced
      exact absurd (Kind.above_of_message hplaced) habove
    | form => exact ⟨_, rfl, rfl, by rw [revise, hinside]⟩
    | div => exact ⟨_, rfl, rfl, by rw [revise, hinside]⟩
    | button =>
      rw [hk] at hholds
      obtain ⟨s, origin, rfl, -⟩ := Kind.holds_button hholds
      refine ⟨_, rfl, rfl, ?_⟩
      simp only [hchange.outlines_ofText]
      simp [revise, reviseAll, tag?, Markup.textContent, Tree.textContents, Tree.textContent,
        Element.ofText]
    | checkbox =>
      rw [hk] at hholds
      have hempty : run (lines "") = [] := by
        rw [hchange.empty]
        rfl
      have hinput : revise lines values
          (.element "input" (("type", "checkbox") :: e.pick checkboxNames) []) =
          .element "input" (("type", "checkbox") ::
            (e.pick checkboxNames).map fun a => (a.1, values a.2)) [] := by
        rw [revise, List.map_cons, hcheckbox, reviseAll, hempty]
      rcases Kind.holds_checkbox hholds with rfl | ⟨s, origin, rfl⟩
      · exact ⟨_, rfl, rfl, hinput⟩
      · refine ⟨_, rfl, rfl, ?_⟩
        have hlabel : revise lines values (.element "label" []
            [.text (Tree.textContents [.node (.ofText s origin) []])]) =
            .element "label" [] (run (lines s)) := by
          simp [revise, reviseAll, tag?, Markup.textContent, Tree.textContents, Tree.textContent,
            Element.ofText]
        simp only [checkboxMarkup, hchange.outlines_ofText, List.isEmpty_cons, List.isEmpty_map,
          Bool.false_eq_true, if_false]
        rw [revise, reviseAll_element lines values "" rfl, reviseAll_element lines values "" rfl,
          hinput, hlabel, reviseAll, hempty, List.map_singleton, hgroup]
        rfl
    | personSelector =>
      refine ⟨_, rfl, rfl, ?_⟩
      rw [revise, List.map_singleton, hselector, reviseAll, hchange.empty]
      rfl
    | text => exact absurd hk hkind

/-- What a reader makes of a rendering shows in the outline of the changed tree. -/
theorem revise_envelope (hchange : Revises lines values change) {rules : Containment} {t : Tree}
    (ht : t.Valid rules []) (hkind : t.element.kind = .message) :
    (envelope t).revise lines values = outline lines (t.map change) := by
  cases ht with
  | @node _ e children fits inside =>
    have hkind : e.kind = .message := hkind
    have hinside := reviseAll_markups hchange "" fun t ht =>
      isFaithful_of_valid hchange (inside t ht) (List.cons_ne_nil _ _)
    have hformat : values formatName = formatName := hchange.fixed _ (by decide)
    have hversion : values version = version := hchange.fixed _ (by decide)
    rw [envelope, Tree.map, outline, hchange.kind, hkind, revise, List.map_cons, List.map_singleton,
      hformat, hversion, ← hinside]
    rfl

end

theorem settle_envelope {rules : Containment} {t : Tree} (ht : t.Valid rules [])
    (hkind : t.element.kind = .message) :
    (envelope t).settle = outline Xml.reread (t.map Element.spaced) := by
  rw [settle_eq_revise, revise_envelope revises_spaced ht hkind]

end Presentation

/-! ### Legal characters -/

/-- A document may hold the characters of the values and of the text. -/
def Element.IsLegal (e : Element) : Prop :=
  (∀ value ∈ e.values, Xml.IsLegal value) ∧ ∀ s ∈ e.text, Xml.IsLegal s

instance (e : Element) : Decidable e.IsLegal := inferInstanceAs (Decidable (_ ∧ _))

/-- The values under the names of the contract are all values. -/
theorem Element.Fits.isLegal_iff {e : Element} {rules : Containment} {above : List Kind}
    {children : List Tree} (h : e.Fits rules above children) (hkind : e.kind ≠ .text) :
    e.IsLegal ↔ ∀ a ∈ e.pick e.kind.writtenNames, Xml.IsLegal a.2 := by
  constructor
  · intro hlegal a ha
    exact hlegal.1 a.2 (mem_values.mpr ⟨a.1, (mem_pick.mp ha).2⟩)
  · intro hpick
    constructor
    · intro value hvalue
      obtain ⟨name, hvalue⟩ := mem_values.mp hvalue
      obtain ⟨rule, hrule, -⟩ := h.stores.listed name value hvalue
      exact hpick (name, value) (mem_pick.mpr ⟨Kind.mem_writtenNames hrule, hvalue⟩)
    · intro s hs
      exact absurd (h.worded.mp (by rw [hs]; rfl)) hkind

namespace Presentation
open Markup

theorem all_isLegal_element {tag : String} {attributes : List (String × String)}
    {children : List Markup} :
    All Markup.IsLegal (.element tag attributes children) ↔
      (∀ a ∈ attributes, Xml.IsLegal a.2) ∧ ∀ c ∈ children, All Markup.IsLegal c :=
  ⟨fun h => ⟨h.self, h.inside⟩, fun h => .element h.1 h.2⟩

theorem all_isLegal_text {s : String} : All Markup.IsLegal (.text s) ↔ Xml.IsLegal s :=
  ⟨fun h => h.self, fun h => .text h⟩

theorem all_isLegal_ofText {s : String} {origin : Origin} :
    (Tree.node (.ofText s origin) []).All (fun t => t.element.IsLegal) ↔ Xml.IsLegal s := by
  simp [Tree.all_node, Element.IsLegal, Element.values, Element.ofText, Tree.element,
    StringMap.empty]

theorem all_isLegal_markup {rules : Containment} {above : List Kind} {t : Tree}
    (h : t.Valid rules above) :
    (∀ m ∈ markup t, All Markup.IsLegal m) ↔ t.All fun s => s.element.IsLegal := by
  induction h with
  | @node above e children fits _ ih =>
    have hinside : (∀ m ∈ markups children, All Markup.IsLegal m) ↔
        ∀ t ∈ children, t.All fun s => s.element.IsLegal := by
      constructor
      · intro h t ht
        exact (ih t ht).mp fun m hm => h m (mem_markups.mpr ⟨t, ht, hm⟩)
      · intro h m hm
        obtain ⟨t, ht, hm⟩ := mem_markups.mp hm
        exact (ih t ht).mpr (h t ht) m hm
    -- the values of an element are written in its tag, except that a root has none
    have hself := fits.isLegal_iff
    have hholds := fits.holds
    rw [Tree.all_node, ← hinside, markup]
    simp only [Tree.element]
    cases hk : e.kind with
    | message =>
      have hlegal : e.IsLegal := (hself (by simp [hk])).mpr (by simp [hk, Kind.writtenNames,
        Element.pick])
      exact ⟨fun h => ⟨hlegal, h⟩, fun h => h.2⟩
    | form | div =>
      rw [hself (by simp [hk]), hk]
      simp only [List.mem_singleton, forall_eq, all_isLegal_element]
      rfl
    | button =>
      rw [hk] at hholds
      obtain ⟨s, origin, rfl, -⟩ := Kind.holds_button hholds
      rw [hself (by simp [hk]), hk]
      simp [all_isLegal_element, all_isLegal_text, Tree.textContents, Tree.textContent,
        Element.ofText, markups, markup, Kind.writtenNames]
    | checkbox =>
      rw [hk] at hholds
      rw [hself (by simp [hk]), hk]
      have htype : Xml.IsLegal "checkbox" := by decide
      have hgroup : Xml.IsLegal groupClass := by decide
      rcases Kind.holds_checkbox hholds with rfl | ⟨s, origin, rfl⟩
      · simp [checkboxMarkup, all_isLegal_element, markups, htype, Kind.writtenNames]
      · simp [checkboxMarkup, all_isLegal_element, all_isLegal_text, Tree.textContents,
          Tree.textContent, Element.ofText, markups, markup, htype, hgroup, Kind.writtenNames]
    | personSelector =>
      rw [hk] at hholds
      obtain rfl : children = [] := hholds
      have hlegal : e.IsLegal := (hself (by simp [hk])).mpr (by simp [hk, Kind.writtenNames,
        Element.pick])
      have hclass : Xml.IsLegal selectorClass := by decide
      simp [all_isLegal_element, markups, hlegal, hclass]
    | text =>
      rw [hk] at hholds
      obtain rfl : children = [] := hholds
      obtain ⟨s, hs⟩ := Option.isSome_iff_exists.mp (fits.worded.mpr hk)
      have hvalues : e.values = [] :=
        Element.values_of_stores fits.stores (by rw [hk]; rfl)
      have hlegal : e.IsLegal ↔ Xml.IsLegal s := by simp [Element.IsLegal, hvalues, hs]
      simp [all_isLegal_text, markups, hlegal, hs]

theorem all_isLegal_envelope {rules : Containment} {t : Tree} (ht : t.Valid rules [])
    (hkind : t.element.kind = .message) :
    All Markup.IsLegal (envelope t) ↔ t.All fun s => s.element.IsLegal := by
  have hmarkup := all_isLegal_markup ht
  have hname : Xml.IsLegal formatName := by decide
  have hversion : Xml.IsLegal version := by decide
  have hempty : Xml.IsLegal "" := by decide
  obtain ⟨e, children⟩ := t
  have hkind : e.kind = .message := hkind
  rw [markup, hkind] at hmarkup
  rw [← hmarkup, envelope, all_isLegal_element]
  simp [all_isLegal_text, hname, hversion, hempty, Tree.children]

end Presentation
end ChatForms
