import ChatForms.Proofs.Presentation.Reading
import ChatForms.Proofs.Presentation.Rebuild

namespace ChatForms

/-! ### Documents and their trees -/

namespace Tree
open Presentation

theorem map_forget_restamp (origin : Origin) (t : Tree) :
    (t.restamp origin).map Element.forgetOrigin = t.map Element.forgetOrigin := by
  induction t using Tree.induction generalizing origin with
  | node e ts ih =>
    rw [restamp, map, map, List.map_map, node.injEq]
    exact ⟨rfl, List.map_congr_left fun t ht => ih t ht _⟩

theorem textContents_map {f : Element → Element} {ts : List Tree}
    (h : ∀ t ∈ ts, (t.map f).textContent = t.textContent) :
    textContents (ts.map (map f)) = textContents ts := by
  induction ts with
  | nil => rfl
  | cons t ts ih =>
    obtain ⟨ht, hts⟩ := List.forall_mem_cons.mp h
    rw [List.map_cons, textContents, textContents, ht, ih hts]

theorem textContent_forget (t : Tree) :
    (t.map Element.forgetOrigin).textContent = t.textContent := by
  induction t using Tree.induction with
  | node e ts ih =>
    rw [map, textContent, textContent, textContents_map ih]
    rfl

theorem markups_map {f : Element → Element} {ts : List Tree}
    (h : ∀ t ∈ ts, markup (t.map f) = markup t) : markups (ts.map (map f)) = markups ts := by
  induction ts with
  | nil => rfl
  | cons t ts ih =>
    obtain ⟨ht, hts⟩ := List.forall_mem_cons.mp h
    rw [List.map_cons, markups, markups, ht, ih hts]

theorem markup_forget (t : Tree) : markup (t.map Element.forgetOrigin) = markup t := by
  induction t using Tree.induction with
  | node e ts ih =>
    have htexts : textContents (ts.map (map Element.forgetOrigin)) = textContents ts :=
      textContents_map fun t _ => textContent_forget t
    have hpick : ∀ names, e.forgetOrigin.pick names = e.pick names := fun _ => rfl
    have hkind : e.forgetOrigin.kind = e.kind := rfl
    rw [map, markup, markup, hkind]
    simp only [markups_map ih, htexts, hpick, checkboxMarkup, List.isEmpty_map]
    rfl

/-- How elements were written does not show. -/
theorem envelope_forget (t : Tree) : envelope (t.map Element.forgetOrigin) = envelope t := by
  rw [envelope, envelope, children_map, markups_map fun t _ => markup_forget t]

theorem Tidy.spaced {t : Tree} (h : t.All Tidy) : (t.map Element.spaced).All Tidy := by
  intro s hs
  rw [subtrees_map] at hs
  obtain ⟨u, hu, rfl⟩ := List.mem_map.mp hs
  obtain ⟨apart, notBlank⟩ := h u hu
  constructor
  · rw [children_map, List.isChain_map]
    refine apart.imp fun a b h => ?_
    rw [element_map, element_map]
    exact h
  · intro c hc x hx hblank
    rw [children_map] at hc
    obtain ⟨c', hc', rfl⟩ := List.mem_map.mp hc
    rw [element_map] at hx ⊢
    exact notBlank c' hc' x hx hblank

end Tree

namespace Document
open Presentation ChatForms.Tree

/-- The rendering of a tidy, legal tree stands for the tree with spaces for its line ends, if the
other elements of it are steady. -/
theorem parse_presentationMl_ofTree {rules : Containment} {t : Tree} (ht : t.Valid rules [])
    (hkind : t.element.kind = .message) (htidy : t.All Tidy)
    (hlegal : t.All fun s => s.element.IsLegal)
    (hsteady : (t.map Element.spaced).All fun s => s.element.IsSteady) :
    parse rules (ofTree t).presentationMl =
      .ok (ofTree ((t.map Element.spaced).restamp .presentation)) := by
  have hread := (read_presentationMl_ofTree ht hkind).1 hlegal
  rw [settle_envelope ht hkind] at hread
  refine parse_eq_ok.mpr ⟨_, hread, build_eq_ok.mpr ⟨_, ?_, rfl⟩⟩
  have hspaced : (t.map Element.spaced).element.kind = .message := by
    rw [element_map]
    exact hkind
  have hkept := hsteady.imp fun _ h => h.isKept
  exact ofRoot_outline (by decide) ht.spaced hspaced hkept (Tidy.spaced htidy) _

/-- Rendered documents are steady, and they count as written the way in which they are rendered. -/
theorem steady_of_parse {rules : Containment} {t : Tree} {d : Document} (ht : t.Valid rules [])
    (hkind : t.element.kind = .message)
    (h : parse rules (ofTree t).presentationMl = .ok d) :
    ∃ t', d = ofTree t' ∧ (t'.All fun s => s.element.IsSteady) ∧
      t'.restamp .presentation = t' := by
  obtain ⟨m, hm, hbuild⟩ := parse_eq_ok.mp h
  obtain ⟨t', ht', rfl⟩ := build_eq_ok.mp hbuild
  obtain ⟨hlegal, hillegal⟩ := read_presentationMl_ofTree ht hkind
  have hsettle : m = (envelope t).settle := by
    by_cases hall : t.All fun s => s.element.IsLegal
    · rw [hlegal hall] at hm
      exact (Option.some.inj hm).symm
    · rw [hillegal hall] at hm
      cases hm
  have hshown : m.All Markup.IsShown :=
    hsettle ▸ Markup.all_isShown_settle (all_isRendered_envelope t)
  have htag : m.tag? = some "div" := hsettle ▸ rfl
  have htidy := (Markup.all_isRead_of_read hm).imp fun _ h => h.tidy
  exact ⟨t', rfl, steady_of_isShown_root hshown htidy htag ht' _⟩

theorem presentationMl_of_same {s t : Tree} (h : (ofTree s).Same (ofTree t)) :
    (ofTree s).presentationMl = (ofTree t).presentationMl := by
  have hforget := congrArg envelope (same_ofTree.mp h)
  rw [envelope_forget, envelope_forget] at hforget
  rw [presentationMl, presentationMl, tree_ofTree, tree_ofTree, hforget]

theorem same_restamp (origin : Origin) (t : Tree) : (ofTree (t.restamp origin)).Same (ofTree t) :=
  same_ofTree.mpr (map_forget_restamp origin t)

/-! ### Rendering and reading -/

/-- A document comes back from its rendering exactly if all of its elements are steady. -/
theorem parse_presentationMl_iff {rules : Containment} {source : String} {d : Document}
    (h : parse rules source = .ok d) :
    (∃ d', parse rules d.presentationMl = .ok d' ∧ d'.Same d ∧
      d'.presentationMl = d.presentationMl) ↔ ∀ e ∈ d.entries, e.IsSteady := by
  obtain ⟨t, rfl, hvalid, hkind, htidy, hlegal⟩ := parse_cases h
  rw [forall_entries_ofTree (P := Element.IsSteady)]
  constructor
  · -- whatever comes back is steady, and steadiness does not depend on how elements were written
    rintro ⟨d', hparse, hsame, -⟩
    obtain ⟨t', rfl, hsteady, -⟩ := steady_of_parse hvalid hkind hparse
    have hforget : (t.map Element.forgetOrigin).All fun s => s.element.IsSteady := by
      rw [← same_ofTree.mp hsame]
      exact all_map.mpr hsteady
    exact all_map.mp hforget
  · intro hsteady
    have hspaced : t.map Element.spaced = t :=
      map_eq_self (hsteady.imp fun s h => Element.spaced_eq_self_iff.mpr h.1)
    have hparse := parse_presentationMl_ofTree hvalid hkind htidy hlegal (by rwa [hspaced])
    rw [hspaced] at hparse
    have hsame := same_restamp .presentation t
    exact ⟨_, hparse, hsame, presentationMl_of_same hsame⟩

theorem parse_presentationMl_iff_note :
    ∃ d', parse .standard (note "a" .author).presentationMl = .ok d' ∧ d'.Same (note "a" .author) ∧
      d'.presentationMl = (note "a" .author).presentationMl := by
  have hparse : parse .standard "<messageML><div class=\"a\">x &lt; y</div></messageML>" =
      .ok (note "a" .author) := by decide +kernel
  exact (parse_presentationMl_iff hparse).mpr (by decide +kernel)

/-- A tab that was written as a reference is written as it stands, and read as a space. -/
theorem not_same_of_tab :
    parse .standard "<messageML><div class=\"a&#9;b\">x &lt; y</div></messageML>" =
        .ok (note "a\tb" .author) ∧
      parse .standard (note "a\tb" .author).presentationMl = .ok (note "a b" .presentation) ∧
      ¬(note "a b" .presentation).Same (note "a\tb" .author) := by
  decide +kernel

/-- A document without marked divs, and without carriage returns in its texts, comes back from its
rendering with spaces for the line ends and tabs in its values. -/
theorem parse_presentationMl_spaced {rules : Containment} {source : String} {d : Document}
    (h : parse rules source = .ok d) (hunmarked : ∀ e ∈ d.entries, e.IsUnmarked)
    (hreturn : ∀ e ∈ d.entries, ∀ s ∈ e.text, '\r' ∉ s.toList) :
    ∃ d', parse rules d.presentationMl = .ok d' ∧ d'.Same d.spaced ∧
      (d'.Same d ↔ ∀ e ∈ d.entries, ∀ value ∈ e.values, ∀ c ∈ value.toList,
        Xml.isLineSpace c = false) := by
  obtain ⟨t, rfl, hvalid, hkind, htidy, hlegal⟩ := parse_cases h
  rw [forall_entries_ofTree (P := Element.IsUnmarked)] at hunmarked
  rw [forall_entries_ofTree (P := fun e => ∀ s ∈ e.text, '\r' ∉ s.toList)] at hreturn
  have hsteady : (t.map Element.spaced).All fun s => s.element.IsSteady :=
    all_map.mpr fun s hs => Element.isSteady_spaced (hunmarked s hs) (hreturn s hs)
  have hparse := parse_presentationMl_ofTree hvalid hkind htidy hlegal hsteady
  have hsame := same_restamp .presentation (t.map Element.spaced)
  refine ⟨_, hparse, spaced_ofTree t ▸ hsame, ?_⟩
  rw [forall_entries_ofTree (P := fun e => ∀ value ∈ e.values, ∀ c ∈ value.toList,
    Xml.isLineSpace c = false), same_ofTree, map_forget_restamp, map_map, map_eq_map_iff]
  simp only [← Element.spaced_eq_self_iff, Function.comp_apply, Element.forget_spaced_iff]

theorem parse_presentationMl_spaced_note :
    ∃ d', parse .standard (note "a\tb" .author).presentationMl = .ok d' ∧
      d'.Same (note "a b" .author) := by
  have hparse : parse .standard "<messageML><div class=\"a&#9;b\">x &lt; y</div></messageML>" =
      .ok (note "a\tb" .author) := by decide +kernel
  have hspaced : (note "a\tb" .author).spaced = note "a b" .author := by decide +kernel
  obtain ⟨d', hparse', hsame, -⟩ :=
    parse_presentationMl_spaced hparse (by decide +kernel) (by decide +kernel)
  rw [hspaced] at hsame
  exact ⟨d', hparse', hsame⟩

/-- What has been rendered and read once is not changed by another time, whatever it was at
first. -/
theorem parse_presentationMl_stable {rules : Containment} {m : Markup} {d d' : Document}
    (h : build rules m = .ok d) (h' : parse rules d.presentationMl = .ok d') :
    parse rules d'.presentationMl = .ok d' := by
  obtain ⟨t, ht, rfl⟩ := build_eq_ok.mp h
  obtain ⟨hvalid, hkind⟩ := valid_of_ofRoot ht
  -- the second document is all that the first need not be: steady, tidy and legal
  obtain ⟨t', rfl, hsteady, hstamp⟩ := steady_of_parse hvalid hkind h'
  obtain ⟨u, hu, hvalid', hkind', htidy, hlegal⟩ := parse_cases h'
  obtain rfl : t' = u := ofTree_inj.mp hu
  have hspaced : t'.map Element.spaced = t' :=
    map_eq_self (hsteady.imp fun s h => Element.spaced_eq_self_iff.mpr h.1)
  have hparse := parse_presentationMl_ofTree hvalid' hkind' htidy hlegal (by rwa [hspaced])
  rwa [hspaced, hstamp] at hparse

theorem parse_presentationMl_stable_note :
    parse .standard (note "a b" .presentation).presentationMl =
      .ok (note "a b" .presentation) := by
  have hbuild : build .standard
      (.element "messageML" [] [.element "div" [("class", "a\tb")] [.text "x < y"]]) =
      .ok (note "a\tb" .author) := by decide +kernel
  have hparse : parse .standard (note "a\tb" .author).presentationMl =
      .ok (note "a b" .presentation) := by decide +kernel
  exact parse_presentationMl_stable hbuild hparse

end Document
end ChatForms
