import ChatForms.Proofs.Build.Loosening
import ChatForms.Proofs.Presentation.RoundTrip

namespace ChatForms

namespace Tree
open Presentation

variable {rules : Containment} {t : Tree}

/-- A tidy tree without marked divs grows again from its outline, whatever its characters are. -/
theorem ofRoot_outline_id (ht : t.Valid rules []) (hkind : t.element.kind = .message)
    (htidy : t.All Tidy) (hunmarked : t.All fun s => s.element.IsUnmarked) :
    ofRoot rules (outline id t) = .ok (t.restamp .presentation) := by
  have hkept : t.All fun s => s.element.IsKept id :=
    hunmarked.imp fun _ h => ⟨fun _ _ => rfl, h⟩
  exact ofRoot_outline rfl ht hkind hkept htidy .presentation

/-- The outline can be read off the rendering. -/
theorem outline_eq_of_write_eq {rules' : Containment} {t' : Tree} (ht : t.Valid rules [])
    (ht' : t'.Valid rules' []) (hkind : t.element.kind = .message)
    (hkind' : t'.element.kind = .message) (h : (envelope t).write = (envelope t').write) :
    outline id t = outline id t' := by
  have hnamed : ∀ t, (envelope t).All Markup.IsNamed :=
    fun t => (all_isRendered_envelope t).imp fun _ h => h.1
  have hmap : ∀ t : Tree, t.map id = t := fun t => map_eq_self fun _ _ => rfl
  have hrevise := Markup.revise_eq_of_write_eq (hnamed t) (hnamed t') rfl rfl h
  rw [revise_envelope revises_id ht hkind, revise_envelope revises_id ht' hkind', hmap, hmap]
    at hrevise
  exact hrevise

end Tree

namespace Document
open Presentation ChatForms.Tree

/-- The rendering is a canonical form. Of documents from source texts in which no div is marked as a
field, the same ones are rendered alike and others are not, under whatever rules they were built and
whatever characters they hold. -/
theorem presentationMl_eq_iff {rules rules' : Containment} {source source' : String}
    {d d' : Document} (h : parse rules source = .ok d) (h' : parse rules' source' = .ok d')
    (hunmarked : ∀ e ∈ d.entries, e.IsUnmarked) (hunmarked' : ∀ e ∈ d'.entries, e.IsUnmarked) :
    d.presentationMl = d'.presentationMl ↔ d.Same d' := by
  obtain ⟨t, rfl, hvalid, hkind, htidy, -⟩ := parse_cases h
  obtain ⟨t', rfl, hvalid', hkind', htidy', -⟩ := parse_cases h'
  rw [forall_entries_ofTree (P := Element.IsUnmarked)] at hunmarked hunmarked'
  refine ⟨fun heq => ?_, presentationMl_of_same⟩
  rw [presentationMl, presentationMl, tree_ofTree, tree_ofTree] at heq
  have houtline := outline_eq_of_write_eq hvalid hvalid' hkind hkind' heq
  -- both trees grow from the one outline, under rules that have no say in what grows
  have hgrow := ofRoot_outline_id hvalid hkind htidy hunmarked
  have hgrow' := ofRoot_outline_id hvalid' hkind' htidy' hunmarked'
  rw [← houtline] at hgrow'
  have hrestamp := ofRoot_unique hgrow hgrow'
  have hforget := congrArg (Tree.map Element.forgetOrigin) hrestamp
  rw [map_forget_restamp, map_forget_restamp] at hforget
  exact same_ofTree.mpr hforget

/-- A tab and a space in a value are written apart, though a reader takes the one for the other. -/
theorem presentationMl_eq_iff_note :
    (note "a\tb" .author).presentationMl ≠ (note "a b" .author).presentationMl := by
  have htab : parse .standard "<messageML><div class=\"a&#9;b\">x &lt; y</div></messageML>" =
      .ok (note "a\tb" .author) := by decide +kernel
  have hspace : parse (Containment.standard.set .button .direct)
      "<messageML><div class=\"a b\">x &lt; y</div></messageML>" = .ok (note "a b" .author) := by
    decide +kernel
  have hdiffer : ¬(note "a\tb" .author).Same (note "a b" .author) := by decide +kernel
  exact mt (presentationMl_eq_iff htab hspace (by decide +kernel) (by decide +kernel)).mp hdiffer

end Document
end ChatForms
