import ChatForms.Proofs.Build.Requirements

namespace ChatForms

/-- The attributes of an element, behind empty ones of the same names. A div is searched for the
mark of a field where its first class is, and its last class is stored, so that no mark is found. -/
def Element.veiled (e : Element) : List (String × String) :=
  (e.pick e.kind.writtenNames).map (fun a => (a.1, "")) ++ e.pick e.kind.writtenNames

/-- Markup in which an author can write a tree, whatever its classes are. -/
def Tree.authored : Tree → Markup
  | node e ts =>
    if e.kind = .text then .text (e.text.getD "")
    else .element e.kind.tag e.veiled (ts.map authored)

namespace Element

theorem lookup_veiled (e : Element) (name : String) :
    e.veiled.lookup name = none ∨ e.veiled.lookup name = some "" := by
  rw [veiled, List.lookup_append]
  cases hveil : ((e.pick e.kind.writtenNames).map fun a => (a.1, "")).lookup name with
  | some value =>
    obtain ⟨first, last, hsplit, -⟩ := List.lookup_eq_some_iff.mp hveil
    have hmem : (name, value) ∈ (e.pick e.kind.writtenNames).map fun a => (a.1, "") := by
      rw [hsplit]
      exact List.mem_append_right first List.mem_cons_self
    obtain ⟨_, -, heq⟩ := List.mem_map.mp hmem
    cases heq
    exact Or.inr rfl
  | none =>
    refine Or.inl ?_
    rw [Option.none_or, List.lookup_eq_none_iff]
    intro a ha
    exact List.lookup_eq_none_iff.mp hveil (a.1, "") (List.mem_map_of_mem ha)

theorem not_hasClass_veiled (e : Element) (tag name : String) (own : List Markup) :
    (Markup.element tag e.veiled own).hasClass name = false := by
  rw [Markup.hasClass, Markup.classes, Markup.attribute?, Markup.attributes]
  rcases e.lookup_veiled "class" with h | h <;> rw [h] <;> rfl

/-- The empty values are forgotten, since the stored ones come later. -/
theorem collect_veiled {e : Element} (h : e.kind.Stores e.attributes) (origin : Origin) :
    e.kind.collect origin e.veiled = .ok e.attributes := by
  have hstored : ∀ a ∈ e.pick e.kind.writtenNames, (e.attributes.get? a.1).isSome :=
    fun a ha => Option.isSome_of_eq_some (mem_pick.mp ha).2
  refine h.collect_eq ?_ ?_ origin
  · intro a ha
    rcases List.mem_append.mp ha with ha | ha
    · obtain ⟨b, hb, rfl⟩ := List.mem_map.mp ha
      exact hstored b hb
    · exact hstored a ha
  · intro name value hvalue
    rw [veiled, List.reverse_append, List.lookup_append, Kind.last_of_pick h hvalue, Option.some_or]

end Element

theorem Candidate.ofInner_veiled {e : Element} (hkind : e.kind ≠ .text) (own : List Markup) :
    ofInner (.element e.kind.tag e.veiled own) =
      .ok (asWritten e.kind (.element e.kind.tag e.veiled own)) := by
  have hclass := fun name => e.not_hasClass_veiled e.kind.tag name own
  generalize e.veiled = attributes at *
  cases hk : e.kind with
  | text => exact absurd hk hkind
  | div =>
    rw [hk] at hclass
    exact ofInner_of_unmarked rfl (hclass _) (hclass _)
  | message | form | button | checkbox | personSelector => rfl

namespace Tree

theorem admits_authored {k : Kind} {ts : List Tree} (h : k.Holds ts) :
    k.Admits (ts.map authored) := by
  unfold Kind.Holds at h
  unfold Kind.Admits
  cases hcontent : k.contract.content with
  | any => trivial
  | empty =>
    simp only [hcontent] at h
    exact List.map_eq_nil_iff.mpr h
  | text required =>
    simp only [hcontent] at h
    rcases h with ⟨rfl, hrequired⟩ | ⟨s, origin, rfl, hrequired⟩
    · exact Or.inl ⟨rfl, hrequired⟩
    · refine Or.inr ⟨s, ?_, hrequired⟩
      simp [authored, Element.ofText]

theorem passes_authored {rules : Containment} {above : List Kind} {e : Element} {ts : List Tree}
    (h : e.Fits rules above ts) (hkind : e.kind ≠ .text) (own : List Markup) :
    (Candidate.asWritten e.kind (.element e.kind.tag e.veiled own)).Passes rules above
      (ts.map authored) e.forgetOrigin :=
  h.passes_of_collect hkind rfl (Element.collect_veiled h.stores _) (admits_authored h.holds)

/-- A valid tree grows from what its author writes. -/
theorem ofMarkup_authored {rules : Containment} {above : List Kind} {t : Tree}
    (h : t.Valid rules above) : ofMarkup rules above .author t.authored = .ok t.forget := by
  induction h with
  | @node above e ts fits inside ih =>
    by_cases hkind : e.kind = .text
    · obtain ⟨s, origin, heq⟩ := (Valid.node fits inside).eq_ofText hkind
      cases heq
      rw [authored, if_pos hkind, forget_node]
      rfl
    · have hinside : ofMarkups rules (e.kind :: above) .author (ts.map authored) =
          .ok (ts.map forget) := by
        rw [ofMarkups_eq_ok, List.forall₂_map_left_iff, List.forall₂_map_right_iff,
          List.forall₂_same]
        exact ih
      rw [authored, if_neg hkind, ofMarkup_element, forget_node]
      exact ⟨_, _, _, Candidate.ofInner_veiled hkind _, passes_authored fits hkind _, hinside, rfl⟩

theorem ofRoot_authored {rules : Containment} {t : Tree} (h : t.Valid rules [])
    (hkind : t.element.kind = .message) : ofRoot rules t.authored = .ok t.forget := by
  cases h with
  | @node _ e ts fits inside =>
    have hkind : e.kind = .message := hkind
    have htext : e.kind ≠ .text := by simp [hkind]
    have hroot : Candidate.ofRoot (.element e.kind.tag e.veiled (ts.map authored)) =
        .ok (.asWritten e.kind (.element e.kind.tag e.veiled (ts.map authored))) := by
      rw [hkind]
      rfl
    rw [authored, if_neg htext, ofRoot_eq_ok, forget_node]
    refine ⟨_, _, ts.map forget, hroot, passes_authored fits htext _, ?_, rfl⟩
    simp only [Markup.children, List.forall₂_map_left_iff, List.forall₂_map_right_iff,
      List.forall₂_same]
    exact fun t ht => ofMarkup_authored (inside t ht)

theorem valid_forget {rules : Containment} {above : List Kind} {t : Tree} :
    t.forget.Valid rules above ↔ t.Valid rules above := by
  induction t using Tree.induction generalizing above with
  | node e ts ih =>
    have helements : (ts.map forget).map element = (ts.map element).map Element.forgetOrigin := by
      simp [element_forget]
    rw [forget_node, valid_node_iff, valid_node_iff, helements, Element.belongs_forgetOrigin,
      List.forall_mem_map]
    exact and_congr_right fun _ => forall₂_congr fun t ht => ih t ht

end Tree

namespace Document

/-- Documents that are the same keep the same rules. -/
theorem isValid_congr {rules : Containment} {s t : Tree} (h : s.forget = t.forget) :
    (ofTree s).IsValid rules ↔ (ofTree t).IsValid rules := by
  have hkind : s.element.kind = t.element.kind := by
    have hforget := congrArg (fun t => t.element.kind) h
    rwa [Tree.element_forget, Tree.element_forget] at hforget
  rw [isValid_ofTree_iff, isValid_ofTree_iff, ← Tree.valid_forget, h, Tree.valid_forget, hkind]

/-- The documents that are built are the arenas whose elements keep the rules, and all of them. -/
theorem exists_build_iff {rules : Containment} {d : Document} :
    (∃ m d', build rules m = .ok d' ∧ d'.Same d) ↔ d.IsArena ∧ d.IsValid rules := by
  constructor
  · rintro ⟨m, d', hbuild, hsame⟩
    obtain ⟨t', ht', rfl⟩ := build_eq_ok.mp hbuild
    have harena : d.IsArena := by
      apply IsArena.of_forgetOrigin
      rw [← hsame, forgetOrigin_ofTree]
      exact isArena_ofTree t'.forget
    obtain ⟨t, rfl⟩ := harena.exists_ofTree
    have hvalid : (ofTree t').IsValid rules := isValid_ofTree_iff.mpr (Tree.valid_of_ofRoot ht')
    exact ⟨harena, (isValid_congr (same_ofTree.mp hsame)).mp hvalid⟩
  · rintro ⟨harena, hvalid⟩
    obtain ⟨t, rfl⟩ := harena.exists_ofTree
    obtain ⟨hvalid, hkind⟩ := isValid_ofTree_iff.mp hvalid
    refine ⟨t.authored, ofTree t.forget, ?_, same_ofTree.mpr t.forget_forget⟩
    exact build_eq_ok.mpr ⟨_, Tree.ofRoot_authored hvalid hkind, rfl⟩

/-- A div may bear the mark of a field, and the label of a checkbox may be empty. -/
example : (ofTree (.node ⟨.message, .empty, none, .author⟩
    [.node ⟨.div, .ofList [("class", "checkbox-group")], none, .author⟩
      [.node ⟨.form, .ofList [("id", "f")], none, .author⟩
        [.node ⟨.checkbox, .ofList [("name", "n"), ("value", "on")], none, .author⟩
          [.node (.ofText "" .author) []]]]])).IsValid .standard := by
  decide +kernel

end Document
end ChatForms
