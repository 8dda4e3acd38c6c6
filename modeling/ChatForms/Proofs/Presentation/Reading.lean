import ChatForms.Format
import ChatForms.Proofs.Presentation.Steadiness

namespace ChatForms

namespace Presentation

/-! ### Texts that settle alike -/

theorem outlines_congr {lines lines' : String → String} {P : String → Prop}
    (happend : ∀ s t, P s → P t → P (s ++ t)) (hempty : P "")
    (hlines : ∀ s, P s → lines s = lines' s) {ts : List Tree}
    (htext : ∀ t ∈ ts, ∀ s ∈ t.element.text, P s)
    (houtline : ∀ t ∈ ts, outline lines t = outline lines' t) {pending : String}
    (hpending : P pending) : outlines lines pending ts = outlines lines' pending ts := by
  induction ts generalizing pending with
  | nil => rw [outlines, outlines, hlines pending hpending]
  | cons t ts ih =>
    obtain ⟨ht, hts⟩ := List.forall_mem_cons.mp htext
    obtain ⟨hfirst, hrest⟩ := List.forall_mem_cons.mp houtline
    rw [outlines, outlines]
    split
    · apply ih hts hrest
      cases hs : t.element.text with
      | none => exact happend _ _ hpending hempty
      | some s => exact happend _ _ hpending (ht s hs)
    · rw [hlines pending hpending, hfirst, ih hts hrest hempty]

/-- The outline depends on nothing but what becomes of the texts that can come together. -/
theorem outline_congr {lines lines' : String → String} {P : String → Prop}
    (happend : ∀ s t, P s → P t → P (s ++ t)) (hempty : P "")
    (hlines : ∀ s, P s → lines s = lines' s) {t : Tree}
    (ht : t.All fun u => ∀ s ∈ u.element.text, P s) : outline lines t = outline lines' t := by
  induction t using Tree.induction with
  | node e ts ih =>
    obtain ⟨self, inside⟩ := Tree.all_node.mp ht
    have hself : lines (e.text.getD "") = lines' (e.text.getD "") := by
      cases hs : e.text with
      | none => exact hlines "" hempty
      | some s => exact hlines s (self s hs)
    have hinside := outlines_congr happend hempty hlines
      (fun t ht => (Tree.all_self (inside t ht))) (fun t ht => ih t ht (inside t ht)) hempty
    rw [outline, outline, hself]
    simp only [hinside]

end Presentation

namespace Document
open Presentation ChatForms.Tree

theorem parse_eq_ok {rules : Containment} {source : String} {d : Document} :
    parse rules source = .ok d ↔ ∃ m, Markup.read source = some m ∧ build rules m = .ok d := by
  rw [parse]
  cases Markup.read source with
  | none => simp
  | some m => cases hbuild : build rules m <;> simp [hbuild, Except.mapError]

/-- A document from a source text has a tidy and legal tree. -/
theorem parse_cases {rules : Containment} {source : String} {d : Document}
    (h : parse rules source = .ok d) :
    ∃ t, d = ofTree t ∧ t.Valid rules [] ∧ t.element.kind = .message ∧ t.All Tidy ∧
      t.All fun s => s.element.IsLegal := by
  obtain ⟨m, hm, hbuild⟩ := parse_eq_ok.mp h
  obtain ⟨t, ht, rfl⟩ := build_eq_ok.mp hbuild
  have hread := Markup.all_isRead_of_read hm
  obtain ⟨hvalid, hkind⟩ := valid_of_ofRoot ht
  exact ⟨t, rfl, hvalid, hkind, all_tidy_of_ofRoot (hread.imp fun _ h => h.tidy) ht,
    all_isLegal_of_ofRoot hread ht⟩

/-- What a reader finds in a rendering. -/
theorem read_presentationMl_ofTree {rules : Containment} {t : Tree} (ht : t.Valid rules [])
    (hkind : t.element.kind = .message) :
    ((t.All fun s => s.element.IsLegal) →
        Markup.read (ofTree t).presentationMl = some (envelope t).settle) ∧
      ((¬t.All fun s => s.element.IsLegal) → Markup.read (ofTree t).presentationMl = none) := by
  have hnamed := (all_isRendered_envelope t).imp fun _ h => h.1
  have hread := Markup.read_write hnamed rfl
  rw [all_isLegal_envelope ht hkind] at hread
  rw [presentationMl, tree_ofTree]
  exact hread

theorem spaced_ofTree (t : Tree) : (ofTree t).spaced = ofTree (t.map Element.spaced) :=
  mapElements_ofTree Element.spaced t

/-- No text and no value is taken for markup: what a reader finds in a rendering is the outline of
the tree, with spaces for the line ends in its values, or nothing if some character may not stand in
a document. -/
theorem read_presentationMl {rules : Containment} {m : Markup} {d : Document}
    (h : build rules m = .ok d) (hreturn : ∀ e ∈ d.entries, ∀ s ∈ e.text, '\r' ∉ s.toList) :
    ((∀ e ∈ d.entries, e.IsLegal) →
        Markup.read d.presentationMl = some (outline id d.spaced.tree)) ∧
      ((¬∀ e ∈ d.entries, e.IsLegal) → Markup.read d.presentationMl = none) := by
  obtain ⟨t, ht, rfl⟩ := build_eq_ok.mp h
  obtain ⟨hvalid, hkind⟩ := valid_of_ofRoot ht
  have hread := read_presentationMl_ofTree hvalid hkind
  rw [forall_entries_ofTree (P := fun e => ∀ s ∈ e.text, '\r' ∉ s.toList)] at hreturn
  rw [forall_entries_ofTree (P := Element.IsLegal), spaced_ofTree, tree_ofTree]
  have houtline :
      outline Xml.reread (t.map Element.spaced) = outline id (t.map Element.spaced) := by
    refine outline_congr (P := fun s => '\r' ∉ s.toList) ?_ (by decide) ?_ ?_
    · intro s t hs ht
      simp [hs, ht]
    · intro s hs
      exact Xml.reread_eq_self (Xml.isSettled_of_not_mem hs)
    · exact (all_map (P := fun e => ∀ s ∈ e.text, '\r' ∉ s.toList)).mpr hreturn
  rw [settle_envelope hvalid hkind, houtline] at hread
  exact hread

/-- A message with a text inside a div of the given class, in which the root counts as written in
the given way. -/
def note (kind : String) (origin : Origin) : Document :=
  ofTree (.node ⟨.message, .empty, none, origin⟩
    [.node ⟨.div, .ofList [("class", kind)], none, .author⟩
      [.node (.ofText "x < y" .author) []]])

theorem read_presentationMl_note :
    build .standard (.element "messageML" [] [.element "div" [("class", "a\tb")] [.text "x < y"]]) =
        .ok (note "a\tb" .author) ∧
      Markup.read (note "a\tb" .author).presentationMl =
        some (outline id (note "a b" .author).tree) := by
  have hbuild : build .standard
      (.element "messageML" [] [.element "div" [("class", "a\tb")] [.text "x < y"]]) =
      .ok (note "a\tb" .author) := by decide +kernel
  have hspaced : (note "a\tb" .author).spaced = note "a b" .author := by decide +kernel
  have hread := (read_presentationMl hbuild (by decide +kernel)).1 (by decide +kernel)
  rw [hspaced] at hread
  exact ⟨hbuild, hread⟩

end Document
end ChatForms
