import ChatForms.Proofs.Build.Validity
import ChatForms.Proofs.Document.Spine
import ChatForms.Proofs.Markup.Tidy

namespace ChatForms

/-! ### The texts of trees and documents -/

namespace Tree

theorem Valid.all_worded {rules : Containment} {above : List Kind} {t : Tree}
    (h : t.Valid rules above) : t.All fun s => s.element.text.isSome ↔ s.element.kind = .text := by
  induction h with
  | node fits _ ih => exact all_node.mpr ⟨fits.worded, ih⟩

theorem textContents_eq {ts : List Tree} (h : ∀ t ∈ ts, t.textContent = String.join t.texts) :
    textContents ts = String.join (textsOf ts) := by
  induction ts with
  | nil => rfl
  | cons t ts ih =>
    obtain ⟨ht, hts⟩ := List.forall_mem_cons.mp h
    rw [textContents, textsOf_cons, String.join_append, ht, ih hts]

/-- Texts have nothing inside, so that the whole content is what the texts say. -/
theorem Valid.textContent_eq {rules : Containment} {above : List Kind} {t : Tree}
    (h : t.Valid rules above) : t.textContent = String.join t.texts := by
  induction h with
  | @node above e children fits _ ih =>
    rw [textContent, texts_node, String.join_append]
    cases htext : e.text with
    | none => simpa using textContents_eq ih
    | some s =>
      have hkind : e.kind = .text := fits.worded.mp (Option.isSome_of_eq_some htext)
      have hleaf := fits.holds
      rw [hkind] at hleaf
      obtain rfl : children = [] := hleaf
      simp [textsOf, subtreesOf]

end Tree

namespace Document
open ChatForms.Tree

/-- The texts of a document, in the order of their numbers. -/
def texts (d : Document) : List String :=
  (d.entries.toList.filter fun e => e.kind = .text).filterMap (·.text)

theorem textContent_ofTree (t : Tree) : (ofTree t).textContent 0 = t.textContent := by
  obtain ⟨below, hbelow⟩ := subtrees_head t
  rw [textContent, subtree?_ofTree, hbelow]
  rfl

theorem texts_ofTree {rules : Containment} {above : List Kind} {t : Tree}
    (h : t.Valid rules above) : (ofTree t).texts = t.texts := by
  have helements : (ofTree t).texts = (((ofTree t).entries.toList.map Entry.toElement).filter
      fun e => e.kind = .text).filterMap Element.text := by
    rw [List.filter_map, List.filterMap_map]
    rfl
  rw [helements, map_entries_ofTree, List.filter_map, List.filterMap_map, List.filterMap_filter,
    Tree.texts]
  refine List.filterMap_congr fun s hs => ?_
  have hworded : s.element.text.isSome ↔ s.element.kind = .text := h.all_worded s hs
  cases htext : s.element.text with
  | none => simp [htext]
  | some x =>
    rw [htext] at hworded
    simp [htext, hworded.mp rfl]

end Document

/-! ### The wording of markup -/

namespace Markup

/-- Markup that stands for a checkbox and the label beside it. -/
def isGroup (m : Markup) : Bool :=
  match Presentation.field? m with
  | .ok (some c) => c.label.isSome
  | _ => false

mutual
/-- All text inside, in order, but for blank texts between the parts of groups. -/
def wording : Markup → String
  | text s => s
  | element tag attributes children => wordings (isGroup (element tag attributes children)) children
def wordings (inGroup : Bool) : List Markup → String
  | [] => ""
  | m :: ms => (if inGroup && m.isBlankText then "" else m.wording) ++ wordings inGroup ms
end

theorem wordings_false (ms : List Markup) : wordings false ms = String.join (ms.map wording) := by
  induction ms with
  | nil => rfl
  | cons m ms ih => simp [wordings, ih]

theorem wordings_true (ms : List Markup) :
    wordings true ms = String.join ((ms.filter fun m => !m.isBlankText).map wording) := by
  induction ms with
  | nil => rfl
  | cons m ms ih =>
    rw [wordings, List.filter_cons, ih]
    cases m.isBlankText <;> simp

/-- Where no text is blank, none is left out. -/
theorem wordings_eq {ms : List Markup} (h : ∀ m ∈ ms, m.isBlankText = false) (inGroup : Bool) :
    wordings inGroup ms = String.join (ms.map wording) := by
  cases inGroup with
  | false => exact wordings_false ms
  | true =>
    rw [wordings_true, List.filter_eq_self.mpr]
    intro m hm
    rw [h m hm]
    rfl

theorem textContents_eq_join (ms : List Markup) :
    textContents ms = String.join (ms.map textContent) := by
  induction ms with
  | nil => rfl
  | cons m ms ih => rw [textContents, List.map_cons, String.join_cons, ih]

/-- A reader leaves no blank texts, so all text counts. -/
theorem wording_eq_textContent {m : Markup} (h : m.All fun m => Tidy m.children) :
    m.wording = m.textContent := by
  induction h with
  | text _ => rfl
  | @element tag attributes children self _ ih =>
    have hsaid : ∀ m ∈ children, m.isBlankText = false := self.notBlank
    rw [wording, textContent, wordings_eq hsaid, textContents_eq_join, List.map_congr_left ih]

/-! ### Groups -/

theorem join_eq_of_perm {as bs : List String} (h : as.Perm bs)
    (hbs : (bs.filter fun s => s ≠ "").length ≤ 1) : String.join as = String.join bs := by
  have hsilent : ∀ cs : List String,
      String.join cs = String.join (cs.filter fun s => s ≠ "") := by
    intro cs
    induction cs with
    | nil => rfl
    | cons s cs ih =>
      rw [String.join_cons, ih, List.filter_cons]
      by_cases hs : s = "" <;> simp [hs]
  have hfilter := h.filter fun s => s ≠ ""
  rw [hsilent as, hsilent bs]
  match hsaid : bs.filter fun s => s ≠ "" with
  | [] =>
    rw [hsaid] at hfilter
    rw [List.perm_nil.mp hfilter]
  | [s] =>
    rw [hsaid] at hfilter
    rw [List.perm_singleton.mp hfilter]
  | _ :: _ :: _ =>
    rw [hsaid] at hbs
    simp at hbs

end Markup
open Markup Presentation

/-- The label is all that the parts of a group say, wherever it stands. -/
theorem Presentation.IsGroup.wordings_eq {classes : List String} {children : List Markup}
    {input : List (String × String)} {label : String} (h : IsGroup classes children input label) :
    wordings true children = label := by
  obtain ⟨labels, hlabels, hparts⟩ := h.parts
  rw [wordings_true, filter_not_isBlankText h.blank]
  have hinput : (element "input" input []).wording = "" := by
    rw [wording, wordings]
  have hlabel : ∀ texts : List String,
      (element "label" [] (texts.map text)).wording = String.join texts := by
    intro texts
    have hnone : isGroup (element "label" [] (texts.map text)) = false := rfl
    rw [wording, hnone, wordings_false, List.map_map]
    congr 1
    exact List.map_id texts
  have hperm := hparts.map wording
  rw [List.map_cons, hinput] at hperm
  cases hlabels with
  | missing => rw [join_eq_of_perm hperm (by simp)]; rfl
  | present texts =>
    rw [List.map_singleton, hlabel] at hperm
    rw [join_eq_of_perm hperm ?_]
    · simp
    · rw [List.filter_cons_of_neg (by simp)]
      exact List.length_filter_le _ _

/-- Only groups have their labels gathered. -/
theorem Candidate.isGroup_of_ofInner {m : Markup} {c : Candidate} (h : ofInner m = .ok c) :
    m.isGroup = c.label.isSome ∧
      ∀ s, c.label = some s → ∃ input, IsGroup m.classes m.children input s := by
  obtain ⟨found, hfield, hfound⟩ := bind_eq_ok.mp h
  cases found with
  | none =>
    dsimp only at hfound
    split at hfound <;> cases hfound
    exact ⟨by rw [isGroup, hfield]; rfl, nofun⟩
  | some c' =>
    cases hfound
    exact ⟨by rw [isGroup, hfield], fun s hs => (isGroup_of_field? hfield hs).2⟩

namespace Tree

variable {rules : Containment}

theorem textContents_of_forall₂ {ms : List Markup} {ts : List Tree}
    (h : List.Forall₂ (fun m t => t.textContent = m.wording) ms ts) :
    textContents ts = String.join (ms.map wording) := by
  induction h with
  | nil => rfl
  | cons ht _ ih => rw [textContents, List.map_cons, String.join_cons, ht, ih]

/-- What grows says what its markup says. -/
theorem textContent_of_ofMarkup {above : List Kind} {origin : Origin} {m : Markup} {t : Tree}
    (h : ofMarkup rules above origin m = .ok t) : t.textContent = m.wording := by
  refine growth_induction (motive := fun _ _ m t => t.textContent = m.wording) ?_ ?_ h
  · intro above origin s
    rfl
  · intro above origin tag attributes own c e ts hc he hts
    obtain ⟨hgroup, hlabel⟩ := Candidate.isGroup_of_ofInner hc
    rw [textContent, he.text, Option.getD_none, textContents_of_forall₂ hts, wording, hgroup]
    cases hs : c.label with
    | none => rw [Candidate.children, hs, Option.isSome_none, wordings_false]
    | some s =>
      -- the label takes the place of all that stands in the group
      obtain ⟨input, hparts⟩ := hlabel s hs
      have hinside : wordings true own = s := hparts.wordings_eq
      rw [Candidate.children, hs, Option.isSome_some, hinside]
      simp [wording]

/-- The root of a message has no class, so it is no group. -/
theorem isGroup_of_root {above : List Kind} {own : List Markup} {m : Markup} {c : Candidate}
    {e : Element} (hc : Candidate.ofRoot m = .ok c) (he : c.Passes rules above own e) :
    m.isGroup = false := by
  have hunclassed : m.attribute? "class" = none := by
    rw [attribute?, List.lookup_eq_none_iff]
    intro a ha
    have hname := mem_names_of_ofRoot hc he ha
    rw [bne_iff_ne]
    intro hclass
    rw [← hclass] at hname
    exact absurd hname (by decide)
  rw [isGroup]
  split
  · next c' hfield =>
    rw [Bool.eq_false_iff]
    intro hlabel
    obtain ⟨label, hlabel⟩ := Option.isSome_iff_exists.mp hlabel
    have hclass := (isGroup_of_field? hfield hlabel).1
    rw [hasClass, classes, hunclassed] at hclass
    cases hclass
  · rfl

theorem textContent_of_ofRoot {m : Markup} {t : Tree} (h : ofRoot rules m = .ok t) :
    t.textContent = m.wording := by
  obtain ⟨c, e, ts, hc, he, hts, rfl⟩ := ofRoot_eq_ok.mp h
  have hgroup := isGroup_of_root hc he
  have hinside := textContents_of_forall₂ (hts.imp fun _ _ => textContent_of_ofMarkup)
  cases m with
  | text s => cases hc
  | element tag attributes own =>
    rw [textContent, he.text, Option.getD_none, hinside, wording, hgroup, wordings_false]
    rfl

end Tree

namespace Document
open ChatForms.Tree

/-- A document says what its markup says, in the same order: its texts one after the other. What is
left out is blank text between the parts of groups, of which there is none in markup that has been
read. -/
theorem textContent_of_build {rules : Containment} {m : Markup} {d : Document}
    (h : build rules m = .ok d) :
    d.textContent 0 = m.wording ∧ d.textContent 0 = String.join d.texts ∧
      ∀ source, Markup.read source = some m → d.textContent 0 = m.textContent := by
  obtain ⟨t, ht, rfl⟩ := build_eq_ok.mp h
  have hvalid := (valid_of_ofRoot ht).1
  rw [textContent_ofTree, texts_ofTree hvalid]
  have hwording := textContent_of_ofRoot ht
  refine ⟨hwording, hvalid.textContent_eq, fun source hread => ?_⟩
  rw [hwording]
  exact wording_eq_textContent ((all_isRead_of_read hread).imp fun _ hm => hm.tidy)

/-- A question, and the answer in a group with a gap between its parts. -/
def agreement (gap : String) : Markup :=
  .element "messageML" [] [.text "Well, ", .element "form" [("id", "f")]
    [.text "do you agree?", .element "div" [("class", "checkbox-group")]
      [.element "label" [] [.text " I do", .text "\n"], .text gap,
        .element "input" [("type", "checkbox"), ("name", "ok")] []]]]

/-- The same as source text, where a comment divides the label. -/
def agreementSource : String :=
  "<messageML>Well, <form id=\"f\">do you agree?<div class=\"checkbox-group\">\n" ++
    "<label> I <!-- surely -->do\n</label> <input type=\"checkbox\" name=\"ok\"/></div>" ++
    "</form></messageML>"

theorem textContent_of_build_agreement :
    (∃ d, build .standard (agreement "\t ") = .ok d ∧ d.textContent 0 = (agreement "\t ").wording ∧
      d.textContent 0 = String.join d.texts ∧
      (agreement "\t ").wording = "Well, do you agree? I do\n") ∧
      ∃ m d, Markup.read agreementSource = some m ∧ build .standard m = .ok d ∧
        d.textContent 0 = m.textContent := by
  constructor
  · obtain ⟨d, hd⟩ : ∃ d, build .standard (agreement "\t ") = .ok d := ⟨_, by rfl⟩
    obtain ⟨hwording, htexts, -⟩ := textContent_of_build hd
    exact ⟨d, hd, hwording, htexts, by decide +kernel⟩
  · obtain ⟨d, hd⟩ : ∃ d, (Markup.read agreementSource).bind
        (fun m => (build .standard m).toOption) = some d :=
      Option.isSome_iff_exists.mp (by decide +kernel)
    obtain ⟨m, hread, hbuild⟩ := Option.bind_eq_some_iff.mp hd
    cases hm : build .standard m with
    | error fault =>
      rw [hm] at hbuild
      cases hbuild
    | ok d' => exact ⟨m, d', hread, hm, (textContent_of_build hm).2.2 agreementSource hread⟩

end Document
end ChatForms
