import ChatForms.Format
import ChatForms.Proofs.Build.Walk
import ChatForms.Proofs.Contract
import ChatForms.Proofs.Markup.Tidy

namespace ChatForms

/-! ### Faults other than texts in pieces -/

/-- The fault is that the text of an element is in pieces. -/
def Fault.isFragmented : Fault → Bool
  | .fragmentedText _ => true
  | _ => false

theorem Presentation.notFragmented_of_field? {m : Markup} {fault : Fault}
    (h : field? m = .error fault) : fault.isFragmented = false := by
  unfold field? at h
  split at h
  · obtain ⟨c, hc⟩ | hinvalid := checkboxGroup_cases m
    · cases hc.symm.trans (map_some_eq_error.mp h)
    · cases hinvalid.symm.trans (map_some_eq_error.mp h)
      rfl
  · split at h
    · have hselector := map_some_eq_error.mp h
      unfold personSelector at hselector
      split at hselector <;> cases hselector
      rfl
    · split at h
      · have hbare := map_some_eq_error.mp h
        unfold bareCheckbox at hbare
        split at hbare <;> cases hbare
        rfl
      · cases h

theorem Presentation.notFragmented_of_envelope? {m : Markup} {fault : Fault}
    (h : envelope? m = .error fault) : fault.isFragmented = false := by
  unfold envelope? at h
  split at h
  · cases h
  · split at h
    · split at h
      · cases h
        rfl
      · split at h <;> cases h
        rfl
    · cases h

theorem Candidate.notFragmented_of_ofInner {m : Markup} {fault : Fault}
    (h : ofInner m = .error fault) : fault.isFragmented = false := by
  obtain hfield | ⟨found, -, hfound⟩ := bind_eq_error.mp h
  · exact Presentation.notFragmented_of_field? hfield
  · cases found with
    | some c => cases hfound
    | none =>
      dsimp only at hfound
      split at hfound <;> cases hfound
      rfl

theorem Candidate.notFragmented_of_ofRoot {m : Markup} {fault : Fault}
    (h : ofRoot m = .error fault) : fault.isFragmented = false := by
  obtain henvelope | ⟨found, -, hfound⟩ := bind_eq_error.mp h
  · exact Presentation.notFragmented_of_envelope? henvelope
  · cases found with
    | some c => cases hfound
    | none =>
      dsimp only at hfound
      split at hfound <;> cases hfound
      rfl

namespace Kind

theorem notFragmented_of_collect {k : Kind} {origin : Origin} {written : List (String × String)}
    {fault : Fault} (h : k.collect origin written = .error fault) : fault.isFragmented = false := by
  cases hfind : written.find? fun a => (k.contract.rule? a.1).isNone with
  | none =>
    have hlisted : ∀ a ∈ written, (k.contract.rule? a.1).isSome := fun a ha => by
      simpa [Option.isSome_iff_ne_none] using List.find?_eq_none.mp hfind a ha
    obtain ⟨attributes, hattributes⟩ := exists_collect hlisted origin
    cases hattributes.symm.trans h
  | some a =>
    cases (collect_eq_error hfind origin).symm.trans h
    unfold refusal
    split <;> rfl

theorem notFragmented_misplacement (k : Kind) (rules : Containment) :
    (k.misplacement rules).isFragmented = false := by
  cases k <;> rfl

theorem notFragmented_of_attributesFault? {k : Kind} {attributes : Attributes} {fault : Fault}
    (h : k.attributesFault? attributes = some fault) : fault.isFragmented = false := by
  rcases Option.or_eq_some_iff.mp h with h | ⟨-, h⟩
  · obtain ⟨rule, -, hrule⟩ := List.exists_of_findSome?_eq_some h
    obtain ⟨set, -, rfl⟩ := ruleFault?_eq_some hrule
    rfl
  · obtain ⟨r, -, hr⟩ := List.exists_of_findSome?_eq_some h
    rw [requirementFault?_eq_some hr]
    rfl

/-- Where no two texts meet, children without tags are one text at most. -/
theorem notFragmented_of_contentFault? {k : Kind} {origin : Origin} {children : List Markup}
    (hapart : children.IsChain fun a b => a.tag?.isSome ∨ b.tag?.isSome) {fault : Fault}
    (h : k.contentFault? origin children = some fault) : fault.isFragmented = false := by
  unfold contentFault? at h
  cases hcontent : k.contract.content with
  | any =>
    simp only [hcontent] at h
    cases h
  | empty =>
    simp only [hcontent] at h
    split at h <;> cases h
    rfl
  | text required =>
    simp only [hcontent] at h
    cases htag : children.findSome? Markup.tag? with
    | some tag =>
      rw [htag] at h
      cases origin <;> cases h <;> rfl
    | none =>
      have hlength : ¬1 < children.length := by
        obtain rfl | ⟨s, rfl⟩ :=
          Markup.eq_text_of_apart hapart (List.findSome?_eq_none_iff.mp htag)
        · simp
        · simp
      simp only [htag, if_neg hlength] at h
      split at h
      · cases origin <;> cases h <;> rfl
      · cases h

end Kind

/-! ### Places in tidy markup -/

open Markup

theorem Candidate.notFragmented_of_fault? {c : Candidate} {rules : Containment} {above : List Kind}
    {own : List Markup} (hown : Tidy own) {fault : Fault}
    (h : c.fault? rules above own = some fault) : fault.isFragmented = false := by
  have hapart : (c.children own).IsChain fun a b => a.tag?.isSome ∨ b.tag?.isSome := by
    unfold children
    split
    · exact .singleton _
    · exact hown.apart
  unfold fault? at h
  split at h
  · next hcollect =>
    cases h
    exact Kind.notFragmented_of_collect hcollect
  · split at h
    · rcases Option.or_eq_some_iff.mp h with h | ⟨-, h⟩
      · exact Kind.notFragmented_of_attributesFault? h
      · exact Kind.notFragmented_of_contentFault? hapart h
    · cases h
      exact c.kind.notFragmented_misplacement rules

namespace Place

theorem notFragmented_of_fault? {rules : Containment} {p : Place} (hp : Tidy p.markup.children)
    {fault : Fault} (h : p.fault? rules = some fault) : fault.isFragmented = false := by
  unfold fault? at h
  split at h
  · next hcandidate =>
    cases h
    unfold candidate at hcandidate
    split at hcandidate
    · exact Candidate.notFragmented_of_ofRoot hcandidate
    · exact Candidate.notFragmented_of_ofInner hcandidate
  · exact Candidate.notFragmented_of_fault? hp h

variable {P : Markup → Prop}

mutual
theorem below_of_all {m : Markup} (hm : m.All P) (above : List Kind) :
    ∀ p ∈ below above m, p.markup.All P := by
  match m with
  | .text _ => simp [below]
  | .element tag attributes own =>
    rw [below]
    refine List.forall_mem_cons.mpr ⟨hm, ?_⟩
    split
    · split
      · exact List.forall_mem_nil _
      · exact belowAll_of_all hm.inside _
    · exact List.forall_mem_nil _
theorem belowAll_of_all {ms : List Markup} (hms : ∀ m ∈ ms, m.All P) (above : List Kind) :
    ∀ p ∈ belowAll above ms, p.markup.All P := by
  match ms with
  | [] => simp [belowAll]
  | m :: ms =>
    obtain ⟨hm, hms⟩ := List.forall_mem_cons.mp hms
    rw [belowAll]
    exact List.forall_mem_append.mpr ⟨below_of_all hm above, belowAll_of_all hms above⟩
end

/-- A walk goes through nothing but the markup of the message. -/
theorem all_of_all {m : Markup} (hm : m.All P) : ∀ p ∈ all m, p.markup.All P := by
  rw [all]
  refine List.forall_mem_cons.mpr ⟨hm, ?_⟩
  split
  · exact belowAll_of_all hm.inside _
  · exact List.forall_mem_nil _

end Place

namespace Document

theorem notFragmented_of_build {m : Markup} (hm : m.All fun m => Tidy m.children)
    {rules : Containment} {fault : Fault} (h : build rules m = .error fault) :
    fault.isFragmented = false := by
  rw [build_eq, ← faultOf_eq_some_iff, faultOf_map, Tree.faultOf_ofRoot] at h
  obtain ⟨p, hp, hfault⟩ := List.exists_of_findSome?_eq_some h
  exact Place.notFragmented_of_fault? (Place.all_of_all hm p hp).self hfault

/-- What a reader makes of the content of an element. Its children are the tags and, whole and in
order, the character data between each two of them that is not blank. Remarks, the pieces that data
comes in and white space between tags do not matter, and a message that was read is never found to
have a text in pieces. -/
theorem build_ofXml :
    (∀ name attributes content, ∃ ms,
      ofXml? (.element name attributes content) = some (.element name attributes ms) ∧
      (∀ ms', Stands content ms' ↔ ms' = ms) ∧
      (Markup.element name attributes ms).All (fun m => Tidy m.children) ∧
      (∀ content', Relation.EqvGen Retells content content' →
        ofXml? (.element name attributes content') = some (.element name attributes ms)) ∧
      ∀ rules tag, build rules (.element name attributes ms) ≠ .error (.fragmentedText tag)) ∧
    ∀ rules source tag, parse rules source ≠ .error (.invalid (.fragmentedText tag)) := by
  constructor
  · intro name attributes content
    have hread : ofXml? (.element name attributes content) =
        some (.element name attributes (ofContent "" content)) := rfl
    have htidy := all_tidy_of_ofXml? hread
    refine ⟨ofContent "" content, hread, fun ms' => ?_, htidy, fun content' h => ?_,
      fun rules tag h => ?_⟩
    · rw [stands_iff, eq_comm]
    · rw [ofContent_eq_of_eqvGen h]
      rfl
    · cases notFragmented_of_build htidy h
  · intro rules source tag h
    unfold parse at h
    cases hread : Markup.read source with
    | none =>
      rw [hread] at h
      cases h
    | some m =>
      obtain ⟨root, -, hroot⟩ := Option.bind_eq_some_iff.mp hread
      rw [hread] at h
      cases hbuild : build rules m with
      | ok d =>
        simp only [hbuild] at h
        cases h
      | error fault =>
        simp only [hbuild] at h
        cases h
        cases notFragmented_of_build (all_tidy_of_ofXml? hroot) hbuild

def buttonNode (label : List Xml.Node) : Xml.Node := .element "button" [("name", "a")] label

/-- A form with a line end on either side of its button, and a remark in its label. -/
def spacedForm : List Xml.Node :=
  [.text "\n", buttonNode [.text "Go", .comment "c", .text " Now"], .text "\n"]

/-- The same button behind its tag, with its label in one marked section. -/
def denseForm : List Xml.Node := [buttonNode [.cdata "Go Now"], .text "\n"]

theorem build_ofXml_spacedForm :
    Relation.EqvGen Retells spacedForm denseForm ∧
      ofXml? (.element "form" [("id", "f")] denseForm) = some (.element "form" [("id", "f")]
        [.element "button" [("name", "a")] [.text "Go Now"]]) := by
  have hspace :
      Retells spacedForm [buttonNode [.text "Go", .comment "c", .text " Now"], .text "\n"] :=
    .space [] _ [.text "\n"] [] nofun (by decide) (by decide) nofun (by decide) (by decide)
  have hremark : Retells [buttonNode [.text "Go", .text " Now"], .text "\n"]
      [buttonNode [.text "Go", .comment "c", .text " Now"], .text "\n"] :=
    .inside [] _ _ _ (.comment [.text "Go"] [.text " Now"] "c")
  have hpieces : Retells denseForm [buttonNode [.text "Go", .text " Now"], .text "\n"] :=
    .inside [] _ _ _ (.split [] [] "Go" " Now" (.cdata "Go Now") (.text "Go") (.text " Now"))
  have hsame : Relation.EqvGen Retells spacedForm denseForm :=
    .trans _ _ _ (.rel _ _ hspace) (.trans _ _ _ (.symm _ _ (.rel _ _ hremark))
      (.symm _ _ (.rel _ _ hpieces)))
  obtain ⟨ms, hread, -, -, hretold, -⟩ := build_ofXml.1 "form" [("id", "f")] spacedForm
  refine ⟨hsame, ?_⟩
  rw [hretold denseForm hsame, ← hread]
  rfl

end Document
end ChatForms
