import ChatForms.Proofs.Build.Walk
import ChatForms.Proofs.Presentation.Reading

namespace ChatForms
open Presentation

variable {rules : Containment} {above : List Kind}

/-- The first class is looked at for a mark, and the last one is stored. -/
theorem Candidate.Passes.isUnmarked_iff {own : List Markup} {m : Markup} {c : Candidate}
    {e : Element} (he : c.Passes rules above own e) (hc : Candidate.ofInner m = .ok c) :
    e.IsUnmarked ↔ ¬m.HidesMark := by
  refine ⟨?_, he.isUnmarked (Candidate.recognizes_of_ofInner hc)⟩
  rintro hunmarked ⟨htag, hgroup, hselector, value, hvalue, hmark⟩
  have hdiv := (ofInner_of_unmarked htag hgroup hselector).symm.trans hc
  cases hdiv
  obtain ⟨hgroup, hselector⟩ := hunmarked he.kind value (he.attribute?_class rfl ▸ hvalue)
  exact hmark.elim hgroup hselector

namespace Tree
open Place

theorem forall_places_iff {P : Tree → Prop} {Q : Place → Prop} {ms : List Markup} {ts : List Tree}
    (h : List.Forall₂ (fun m t => t.All P ↔ ∀ p ∈ below above m, Q p) ms ts) :
    (∀ t ∈ ts, t.All P) ↔ ∀ p ∈ belowAll above ms, Q p := by
  induction h with
  | nil => simp [belowAll]
  | cons hm _ ih =>
    rw [List.forall_mem_cons, belowAll, List.forall_mem_append, hm, ih]

theorem all_isUnmarked_iff {origin : Origin} {m : Markup} {t : Tree}
    (h : ofMarkup rules above origin m = .ok t) :
    (t.All fun s => s.element.IsUnmarked) ↔ ∀ p ∈ below above m, ¬p.markup.HidesMark := by
  refine growth_induction (motive := fun above _ m t =>
    (t.All fun s => s.element.IsUnmarked) ↔ ∀ p ∈ below above m, ¬p.markup.HidesMark) ?_ ?_ h
  · intro above origin s
    simp [all_node, below, element, Element.ofText, Element.IsUnmarked]
  · intro above origin tag attributes own c e ts hc he hts
    rw [all_node, below_element, hc, List.forall_mem_cons, element, he.isUnmarked_iff hc,
      forall_places_iff hts]

/-- The root of a message bears no class at all. -/
theorem not_hidesMark_root {m : Markup} {c : Candidate} {e : Element}
    (hc : Candidate.ofRoot m = .ok c) (he : c.Passes rules above m.children e) :
    ¬m.HidesMark := by
  rintro ⟨-, -, -, value, hvalue, -⟩
  obtain ⟨first, last, hattributes, -⟩ := List.lookup_eq_some_iff.mp hvalue
  have hmem : ("class", value) ∈ m.attributes := by
    rw [← List.mem_reverse, hattributes]
    exact List.mem_append_right _ List.mem_cons_self
  have hname : "class" ∈ [formatAttribute, versionAttribute] := mem_names_of_ofRoot hc he hmem
  exact absurd hname (by decide)

theorem all_isUnmarked_root_iff {m : Markup} {t : Tree} (h : ofRoot rules m = .ok t) :
    (t.All fun s => s.element.IsUnmarked) ↔ ∀ p ∈ Place.all m, ¬p.markup.HidesMark := by
  obtain ⟨c, e, ts, hc, he, hts, rfl⟩ := ofRoot_eq_ok.mp h
  have hroot : e.IsUnmarked := by
    intro hkind
    rw [he.kind, (candidate_of_ofRoot hc).1] at hkind
    cases hkind
  rw [all_node, Place.all, hc, List.forall_mem_cons,
    forall_places_iff (hts.imp fun _ _ => all_isUnmarked_iff)]
  exact and_congr_left fun _ => iff_of_true hroot (not_hidesMark_root hc he)

end Tree

namespace Document

/-- No div of a document bears the mark of a field, unless one was hidden behind another class: what
is looked at is the first class of an element, and what is stored is the last one. -/
theorem parse_isUnmarked_iff {rules : Containment} {source : String} {d : Document}
    (h : parse rules source = .ok d) :
    ∃ m, Markup.read source = some m ∧
      ((∀ e ∈ d.entries, e.IsUnmarked) ↔ ∀ p ∈ Place.all m, ¬p.markup.HidesMark) := by
  obtain ⟨m, hm, hbuild⟩ := parse_eq_ok.mp h
  obtain ⟨t, ht, rfl⟩ := build_eq_ok.mp hbuild
  refine ⟨m, hm, ?_⟩
  rw [forall_entries_ofTree (P := Element.IsUnmarked), Tree.all_isUnmarked_root_iff ht]

theorem parse_isUnmarked_iff_note :
    ∃ m, Markup.read "<messageML><div class=\"a\" xml:class=\"b\">x &lt; y</div></messageML>" =
        some m ∧
      ((∀ e ∈ (note "b" .author).entries, e.IsUnmarked) ↔
        ∀ p ∈ Place.all m, ¬p.markup.HidesMark) :=
  @parse_isUnmarked_iff .standard _ _ (by decide +kernel)

/-- The second class is that of another vocabulary, and its local name is all that is left of it. -/
theorem marked_of_hidden_class :
    parse .standard
        "<messageML><div class=\"a\" xml:class=\"checkbox-group\">x &lt; y</div></messageML>" =
        .ok (note "checkbox-group" .author) ∧
      ¬∀ e ∈ (note "checkbox-group" .author).entries, e.IsUnmarked := by
  decide +kernel

end Document
end ChatForms
