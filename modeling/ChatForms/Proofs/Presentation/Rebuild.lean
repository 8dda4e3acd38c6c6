import ChatForms.Proofs.Presentation.Steadiness

namespace ChatForms

/-- A reader that makes `lines` of texts finds an element as it was. -/
structure Element.IsKept (lines : String → String) (e : Element) : Prop where
  text : ∀ s ∈ e.text, lines s = s
  unmarked : e.IsUnmarked

theorem Element.IsSteady.isKept {e : Element} (h : e.IsSteady) : e.IsKept Xml.reread :=
  ⟨fun s hs => Xml.reread_eq_self (h.2.1 s hs), h.2.2⟩

namespace Presentation
open Markup

/-! ### The outline of tidy children -/

section
variable {lines : String → String}

theorem run_empty (hempty : lines "" = "") : run (lines "") = [] := by
  rw [hempty]
  rfl

theorem run_of_not_blank {s : String} (h : Text.isBlank s = false) : run s = [.text s] := by
  rw [run, h]
  rfl

/-- A label is read as it is, even if it is empty. -/
theorem textContents_run {s : String} (hkept : lines s = s)
    (hblank : Text.isBlank s = true → s = "") : textContents (run (lines s)) = s := by
  rw [hkept, run]
  split
  · next h =>
    rw [hblank h]
    rfl
  · simp [textContents, textContent]

theorem outlines_element (lines : String → String) (pending : String) {t : Tree}
    (ht : t.element.kind ≠ .text) (ts : List Tree) :
    outlines lines pending (t :: ts) =
      run (lines pending) ++ outline lines t :: outlines lines "" ts := by
  rw [outlines, if_neg ht]

/-- A text between elements keeps to itself. -/
theorem outlines_text (hempty : lines "" = "") {s : String} (hs : Text.isBlank s = false)
    (hkept : lines s = s) {t : Tree} (ht : t.element.kind = .text)
    (htext : t.element.text = some s) {ts : List Tree}
    (hts : ∀ u ∈ ts.head?, u.element.kind ≠ .text) :
    outlines lines "" (t :: ts) = .text s :: outlines lines "" ts := by
  have hrun : run (lines s) = [.text s] := by rw [hkept, run_of_not_blank hs]
  rw [outlines, if_pos ht, htext]
  cases ts with
  | nil => simp [outlines, hrun, run_empty hempty]
  | cons u us =>
    have hu : u.element.kind ≠ .text := hts u rfl
    rw [outlines_element _ _ hu, outlines_element _ _ hu, run_empty hempty]
    simp [hrun]

end

/-! ### Recognized outlines -/

theorem lookup_pick_class (e : Element) :
    (e.pick ["class"]).lookup "class" = e.attribute? "class" := by
  cases hvalue : e.attribute? "class" <;> simp [Element.pick, hvalue]

theorem ofInner_form (e : Element) (own : List Markup) :
    Candidate.ofInner (.element "form" (e.pick ["id"]) own) =
      .ok ⟨.form, e.pick ["id"], none, .author⟩ := rfl

theorem ofInner_button (e : Element) (own : List Markup) :
    Candidate.ofInner (.element "button" (e.pick buttonNames) own) =
      .ok ⟨.button, e.pick buttonNames, none, .author⟩ := rfl

theorem ofInner_div {e : Element} (hkind : e.kind = .div) (h : e.IsUnmarked) (own : List Markup) :
    Candidate.ofInner (.element "div" (e.pick ["class"]) own) =
      .ok ⟨.div, e.pick ["class"], none, .author⟩ := by
  have hclasses : (Markup.element "div" (e.pick ["class"]) own).classes =
      ((e.attribute? "class").map Text.words).getD [] := by
    rw [classes, attribute?, attributes, lookup_pick_class]
  have hclass : ∀ name, (∀ value ∈ e.attribute? "class", name ∉ Text.words value) →
      (Markup.element "div" (e.pick ["class"]) own).hasClass name = false := by
    intro name hname
    rw [hasClass, hclasses]
    cases hvalue : e.attribute? "class" with
    | none => rfl
    | some value => simpa using hname value hvalue
  have hgroup := hclass groupClass fun value hvalue => (h hkind value hvalue).1
  have hselector := hclass selectorClass fun value hvalue => (h hkind value hvalue).2
  exact Candidate.ofInner_of_unmarked rfl hgroup hselector

theorem ofInner_selector (own : List Markup) :
    Candidate.ofInner (.element "div" [("class", selectorClass)] own) =
      .ok ⟨.personSelector, [], none, .presentation⟩ := by
  rfl

theorem without_type_pick (e : Element) :
    without ["type"] (("type", "checkbox") :: e.pick checkboxNames) = e.pick checkboxNames := by
  rw [without, List.filter_cons_of_neg (by decide), List.filter_eq_self]
  intro a ha
  have hname : a.1 ∈ checkboxNames := (Element.mem_pick.mp ha).1
  have hall : ∀ name ∈ checkboxNames, (!(["type"].contains name)) = true := by decide
  exact hall a.1 hname

theorem ofInner_checkbox (e : Element) :
    Candidate.ofInner (.element "input" (("type", "checkbox") :: e.pick checkboxNames) []) =
      .ok ⟨.checkbox, e.pick checkboxNames, none, .presentation⟩ := by
  have hbare : Candidate.ofInner
      (.element "input" (("type", "checkbox") :: e.pick checkboxNames) []) =
        .ok ⟨.checkbox, without ["type"] (("type", "checkbox") :: e.pick checkboxNames), none,
          .presentation⟩ := rfl
  rw [hbare, without_type_pick]

theorem ofInner_group (e : Element) (kids : List Markup) (hkids : ∀ m ∈ kids, m.tag? = none) :
    Candidate.ofInner (.element "div" [("class", groupClass)]
        [.element "input" (("type", "checkbox") :: e.pick checkboxNames) [],
          .element "label" [] kids]) =
      .ok ⟨.checkbox, e.pick checkboxNames, some (textContents kids), .presentation⟩ := by
  have hall : (kids.all fun m => m.tag?.isNone) = true := by
    rw [List.all_eq_true]
    intro m hm
    rw [hkids m hm]
    rfl
  have hlabel : labelText? (.element "label" [] kids) = some (textContents kids) := by
    simp [labelText?, Markup.attributes, Markup.children, hall, Markup.textContent]
  have hlabels : ∀ l ∈ [Markup.element "label" [] kids], l.tag? = some "label" := by
    simp [Markup.tag?]
  have htexts : [Markup.element "label" [] kids].mapM labelText? = some [textContents kids] := by
    simp [hlabel]
  have hjoin : String.join [textContents kids] = textContents kids := by simp [String.join]
  have hgroup : checkboxGroup (.element "div" [("class", groupClass)]
      [.element "input" (("type", "checkbox") :: e.pick checkboxNames) [],
        .element "label" [] kids]) =
        .ok ⟨.checkbox, without ["type"] (("type", "checkbox") :: e.pick checkboxNames),
          some (String.join [textContents kids]), .presentation⟩ :=
    @checkboxGroup_eq_ok _ (.element "input" (("type", "checkbox") :: e.pick checkboxNames) []) _ _
      rfl (.refl _) rfl rfl rfl hlabels (Nat.le_refl 1) htexts
  refine Candidate.ofInner_of_field ?_
  rw [field?, if_pos (by rfl), hgroup, without_type_pick, hjoin]
  rfl

end Presentation

/-! ### Trees that grow again -/

theorem Element.Fits.passes {e : Element} {rules : Containment} {above : List Kind}
    {children : List Tree} (h : e.Fits rules above children) (htext : e.kind ≠ .text)
    {c : Candidate} {own : List Markup} (hkind : e.kind = c.kind)
    (hattributes : e.pick e.kind.writtenNames = c.attributes)
    (hadmits : c.kind.Admits (c.children own)) :
    c.Passes rules above own { e with origin := c.origin } :=
  h.passes_of_collect htext hkind (hattributes ▸ Kind.collect_pick h.stores c.origin) hadmits

namespace Tree
open Presentation

theorem restamp_ofText (s : String) (origin around : Origin) :
    restamp around (node (.ofText s origin) []) = node (.ofText s around) [] := by
  rw [restamp]
  rfl

section
variable {lines : String → String}

/-- Children of which every one grows again grow again together. -/
theorem ofMarkups_outlines (hempty : lines "" = "") {rules : Containment} {above : List Kind}
    {origin : Origin} {ts : List Tree} (htext : ∀ t ∈ ts, t.element.kind = .text →
      ∃ s o, t = .node (.ofText s o) [] ∧ Text.isBlank s = false ∧ lines s = s)
    (hinner : ∀ t ∈ ts, t.element.kind ≠ .text →
      ofMarkup rules above origin (outline lines t) = .ok (t.restamp origin))
    (hapart : ts.IsChain fun a b => a.element.kind ≠ .text ∨ b.element.kind ≠ .text) :
    ofMarkups rules above origin (outlines lines "" ts) = .ok (ts.map (restamp origin)) := by
  induction ts with
  | nil =>
    rw [outlines, run_empty hempty]
    rfl
  | cons t ts ih =>
    obtain ⟨ht, hts⟩ := List.forall_mem_cons.mp htext
    obtain ⟨hgrow, hgrows⟩ := List.forall_mem_cons.mp hinner
    obtain ⟨hnext, hapart⟩ := List.isChain_cons.mp hapart
    have hrest := ih hts hgrows hapart
    by_cases hkind : t.element.kind = .text
    · obtain ⟨s, o, rfl, hblank, hkept⟩ := ht hkind
      have hhead : ∀ u ∈ ts.head?, u.element.kind ≠ .text := fun u hu =>
        (hnext u hu).resolve_left fun hne => hne hkind
      rw [outlines_text hempty hblank hkept hkind rfl hhead, ofMarkups, hrest, List.map_cons,
        restamp_ofText]
      rfl
    · rw [outlines_element _ _ hkind, run_empty hempty, List.nil_append, ofMarkups, hgrow hkind,
        hrest]
      rfl

/-- Below an element other than a checkbox, the texts are there to be seen. -/
theorem texts_of_tidy {rules : Containment} {above : List Kind} {e : Element} {ts : List Tree}
    (inside : ∀ t ∈ ts, t.Valid rules above)
    (hkept : (node e ts).All fun s => s.element.IsKept lines) (htidy : (node e ts).Tidy)
    (hkind : e.kind ≠ .checkbox) : ∀ t ∈ ts, t.element.kind = .text →
      ∃ s o, t = .node (.ofText s o) [] ∧ Text.isBlank s = false ∧ lines s = s := by
  intro t ht htext
  obtain ⟨s, o, rfl⟩ := (inside t ht).eq_ofText htext
  refine ⟨s, o, rfl, ?_, ?_⟩
  · rw [Bool.eq_false_iff]
    intro hblank
    exact hkind (htidy.notBlank _ ht s rfl hblank).1
  · have hself := (all_node.mp ((all_node.mp hkept).2 _ ht)).1
    exact hself.text s rfl

/-- A tree with nothing that a reader would change grows again from its outline. -/
theorem ofMarkup_outline (hempty : lines "" = "") {rules : Containment} {above : List Kind}
    {t : Tree} (h : t.Valid rules above) (hkept : t.All fun s => s.element.IsKept lines)
    (htidy : t.All Tidy) (habove : above ≠ []) (hkind : t.element.kind ≠ .text) (origin : Origin) :
    ofMarkup rules above origin (outline lines t) = .ok (t.restamp origin) := by
  induction h generalizing origin with
  | @node above e children fits inside ih =>
    obtain ⟨hself, hkepts⟩ := all_node.mp hkept
    obtain ⟨htidy, htidies⟩ := all_node.mp htidy
    have hinside : ∀ origin, e.kind ≠ .checkbox → ofMarkups rules (e.kind :: above) origin
        (outlines lines "" children) = .ok (children.map (restamp origin)) := by
      intro origin hne
      refine ofMarkups_outlines hempty (texts_of_tidy inside hkept htidy hne) ?_ htidy.apart
      intro t ht hkind
      exact ih t ht (hkepts t ht) (htidies t ht) (List.cons_ne_nil _ _) hkind origin
    obtain ⟨kind, attributes, text, around⟩ := e
    have hholds := fits.holds
    rw [outline, restamp]
    cases kind with
    | message => exact absurd (Kind.above_of_message fits.placed) habove
    | form =>
      exact ofMarkup_element.mpr ⟨_, _, _, ofInner_form _ _, fits.passes hkind rfl rfl trivial,
        hinside _ (by simp), rfl⟩
    | div =>
      exact ofMarkup_element.mpr ⟨_, _, _, ofInner_div rfl hself.unmarked _,
        fits.passes hkind rfl rfl trivial, hinside _ (by simp), rfl⟩
    | button =>
      -- the wording cannot be blank, or a reader would drop it
      obtain ⟨s, o, rfl, hne⟩ := Kind.holds_button hholds
      obtain ⟨s', o', heq, hblank, hline⟩ :=
        texts_of_tidy inside hkept htidy (by simp) _ List.mem_cons_self rfl
      cases heq
      have hown : outlines lines "" [.node (.ofText s o) []] = [.text s] := by
        rw [outlines_ofText, hline, run_of_not_blank hblank]
      have hadmits : Kind.button.Admits [.text s] := Or.inr ⟨s, rfl, fun _ => hne⟩
      have hinside := hinside .author (by simp)
      rw [hown] at hinside ⊢
      exact ofMarkup_element.mpr ⟨_, _, _, ofInner_button _ _, fits.passes hkind rfl rfl hadmits,
        hinside, rfl⟩
    | checkbox =>
      -- a label is gathered from the group around it, so it does not grow from markup of its own
      rcases Kind.holds_checkbox hholds with rfl | ⟨s, o, rfl⟩
      · have hadmits : Kind.checkbox.Admits [] := Or.inl ⟨rfl, rfl⟩
        simp only [List.isEmpty_nil, if_true]
        exact ofMarkup_element.mpr ⟨_, _, _, ofInner_checkbox _, fits.passes hkind rfl rfl hadmits,
          rfl, rfl⟩
      · have hline : lines s = s := (all_node.mp (hkepts _ List.mem_cons_self)).1.text s rfl
        have hlabel := textContents_run hline fun hblank =>
          (htidy.notBlank _ List.mem_cons_self s rfl hblank).2
        have hkids : ∀ m ∈ Markup.run (lines s), m.tag? = none := by
          intro m hm
          rw [(Markup.mem_run hm).1]
          rfl
        have hgroup := ofInner_group ⟨.checkbox, attributes, text, around⟩ _ hkids
        rw [hlabel] at hgroup
        have hadmits : Kind.checkbox.Admits [.text s] := Or.inr ⟨s, rfl, by simp⟩
        simp only [List.isEmpty_cons, Bool.false_eq_true, if_false, outlines_ofText,
          List.map_cons, List.map_nil, restamp_ofText]
        exact ofMarkup_element.mpr ⟨_, _, _, hgroup, fits.passes hkind rfl rfl hadmits, rfl, rfl⟩
    | personSelector =>
      obtain rfl : children = [] := hholds
      have hadmits : Kind.personSelector.Admits [] := rfl
      exact ofMarkup_element.mpr ⟨_, _, _, ofInner_selector _, fits.passes hkind rfl rfl hadmits,
        rfl, rfl⟩
    | text => exact absurd rfl hkind

theorem ofRoot_outline (hempty : lines "" = "") {rules : Containment} {t : Tree}
    (h : t.Valid rules []) (hkind : t.element.kind = .message)
    (hkept : t.All fun s => s.element.IsKept lines) (htidy : t.All Tidy) (origin : Origin) :
    ofRoot rules (outline lines t) = .ok (t.restamp origin) := by
  cases h with
  | @node _ e children fits inside =>
    obtain ⟨kind, attributes, text, around⟩ := e
    obtain rfl : kind = .message := hkind
    obtain ⟨-, hkepts⟩ := all_node.mp hkept
    obtain ⟨htidy, htidies⟩ := all_node.mp htidy
    have hinside : ofMarkups rules [.message] .presentation (outlines lines "" children) =
        .ok (children.map (restamp .presentation)) := by
      refine ofMarkups_outlines hempty (texts_of_tidy inside hkept htidy (by simp)) ?_ htidy.apart
      intro t ht hkind
      exact ofMarkup_outline hempty (inside t ht) (hkepts t ht) (htidies t ht)
        (List.cons_ne_nil _ _) hkind .presentation
    have hroot : Candidate.ofRoot (outline lines
        (node ⟨.message, attributes, text, around⟩ children)) =
          .ok ⟨.message, [], none, .presentation⟩ := by
      rw [outline]
      rfl
    rw [restamp]
    refine ofRoot_eq_ok.mpr ⟨_, _, _, hroot, fits.passes (by simp) rfl rfl trivial, ?_, rfl⟩
    rw [outline]
    exact ofMarkups_eq_ok.mp hinside

end

end Tree
end ChatForms
