import ChatForms.Proofs.Markup.Reading
import ChatForms.Proofs.Markup.Runs
import Mathlib.Data.List.Chain

namespace ChatForms

namespace Xml

theorem Node.IsLegal.characters {n : Node} (h : n.IsLegal) :
    Xml.IsLegal (n.characters?.getD "") := by
  cases h with
  | text h | cdata h => exact h
  | element _ _ | comment _ | instruction _ _ => exact (by decide : Xml.IsLegal "")

theorem isLegal_data {pieces : List Node} (h : ∀ n ∈ pieces, n.IsLegal) :
    IsLegal (data pieces) := by
  induction pieces with
  | nil => decide
  | cons n pieces ih =>
    obtain ⟨hn, hpieces⟩ := List.forall_mem_cons.mp h
    rw [data_cons]
    exact isLegal_append.mpr ⟨hn.characters, ih hpieces⟩

end Xml

namespace Markup

/-- Children as a reader finds them: no text is blank, and no two texts meet. -/
structure Tidy (ms : List Markup) : Prop where
  notBlank : ∀ m ∈ ms, m.isBlankText = false
  apart : ms.IsChain fun a b => a.tag?.isSome ∨ b.tag?.isSome

theorem Tidy.not_isBlank {ms : List Markup} {s : String} (h : Tidy ms) (hs : text s ∈ ms) :
    ¬Text.isBlank s = true := by
  rw [Bool.not_eq_true]
  exact h.notBlank _ hs

/-- Where no two texts meet, there is one at most between two tags. -/
theorem eq_text_of_apart {ms : List Markup}
    (hapart : ms.IsChain fun a b => a.tag?.isSome ∨ b.tag?.isSome)
    (htexts : ∀ m ∈ ms, m.tag? = none) : ms = [] ∨ ∃ s, ms = [text s] := by
  cases ms with
  | nil => exact Or.inl rfl
  | cons m rest =>
    have hm := htexts m List.mem_cons_self
    cases rest with
    | nil =>
      cases m with
      | text s => exact Or.inr ⟨s, rfl⟩
      | element _ _ _ => cases hm
    | cons next _ =>
      have hnext := htexts next (List.mem_cons_of_mem _ List.mem_cons_self)
      have hmeet := (List.isChain_cons_cons.mp hapart).1
      simp [hm, hnext] at hmeet

theorem tidy_text (s : String) : Tidy (text s).children := by
  constructor
  · simp [children]
  · simp [children]

theorem mem_run {s : String} {m : Markup} (h : m ∈ run s) :
    m = text s ∧ Text.isBlank s = false := by
  unfold run at h
  split at h
  · simp at h
  · next hblank => exact ⟨List.mem_singleton.mp h, by simpa using hblank⟩

theorem tidy_run (s : String) : Tidy (run s) := by
  constructor
  · intro m hm
    obtain ⟨rfl, hblank⟩ := mem_run hm
    exact hblank
  · unfold run
    split <;> simp

/-- A tag may stand between any two runs. -/
theorem tidy_append {s : String} {m : Markup} {ms : List Markup} (hm : m.tag?.isSome)
    (hms : Tidy ms) : Tidy (run s ++ m :: ms) := by
  have hrun := tidy_run s
  constructor
  · intro n hn
    rcases List.mem_append.mp hn with hn | hn
    · exact hrun.notBlank n hn
    · rcases List.mem_cons.mp hn with rfl | hn
      · cases n with
        | text _ => simp [tag?] at hm
        | element _ _ _ => rfl
      · exact hms.notBlank n hn
  · have hlater : (m :: ms).IsChain fun a b => a.tag?.isSome ∨ b.tag?.isSome :=
      List.isChain_cons.mpr ⟨fun _ _ => Or.inl hm, hms.apart⟩
    refine hrun.apart.append hlater ?_
    intro a _ b hb
    cases hb
    exact Or.inr hm

/-! ### What is read -/

theorem forall_mem_run {P : Markup → Prop} {s : String} (h : P (text s)) : ∀ m ∈ run s, P m := by
  intro m hm
  obtain ⟨rfl, -⟩ := mem_run hm
  exact h

namespace Stands
variable {content : List Xml.Node} {ms : List Markup}

theorem tidy (h : Stands content ms) : Tidy ms := by
  induction h with
  | last _ => exact tidy_run _
  | tag _ _ _ _ later => exact tidy_append rfl later

theorem all_tidy (h : Stands content ms) : ∀ m ∈ ms, m.All fun m => Tidy m.children := by
  induction h with
  | last _ => exact forall_mem_run (.text (tidy_text _))
  | tag _ hinside _ inside later =>
    exact List.forall_mem_append.mpr ⟨forall_mem_run (.text (tidy_text _)),
      List.forall_mem_cons.mpr ⟨.element hinside.tidy inside, later⟩⟩

theorem all_isLegal (h : Stands content ms) (hlegal : ∀ n ∈ content, n.IsLegal) :
    ∀ m ∈ ms, m.All IsLegal := by
  induction h with
  | last _ => exact forall_mem_run (.text (Xml.isLegal_data hlegal))
  | tag _ _ _ inside later =>
    obtain ⟨hpieces, hrest⟩ := List.forall_mem_append.mp hlegal
    obtain ⟨helement, hbehind⟩ := List.forall_mem_cons.mp hrest
    obtain ⟨hvalues, hcontent⟩ := helement
    exact List.forall_mem_append.mpr ⟨forall_mem_run (.text (Xml.isLegal_data hpieces)),
      List.forall_mem_cons.mpr ⟨.element hvalues (inside hcontent), later hbehind⟩⟩

end Stands

/-- A root is an element, whatever is inside. -/
theorem exists_of_ofXml? {root : Xml.Node} {m : Markup} (h : ofXml? root = some m) :
    ∃ name attributes content ms, root = .element name attributes content ∧
      m = element name attributes ms ∧ Stands content ms := by
  cases root with
  | element name attributes content =>
    cases h
    exact ⟨name, attributes, content, _, rfl, rfl, stands_iff.mpr rfl⟩
  | _ => cases h

theorem all_tidy_of_ofXml? {root : Xml.Node} {m : Markup} (h : ofXml? root = some m) :
    m.All fun m => Tidy m.children := by
  obtain ⟨_, _, _, _, -, rfl, hstands⟩ := exists_of_ofXml? h
  exact .element hstands.tidy hstands.all_tidy

/-- What holds of a tag or a text that a reader has found. -/
structure IsRead (m : Markup) : Prop where
  tidy : Tidy m.children
  legal : m.IsLegal

theorem all_isRead_of_read {source : String} {m : Markup} (h : read source = some m) :
    All IsRead m := by
  obtain ⟨root, hroot, hm⟩ := Option.bind_eq_some_iff.mp h
  have htidy := all_tidy_of_ofXml? hm
  obtain ⟨name, attributes, content, ms, rfl, rfl, hstands⟩ := exists_of_ofXml? hm
  obtain ⟨hvalues, hcontent⟩ := Xml.isLegal_of_read hroot
  have hlegal : (element name attributes ms).All IsLegal :=
    .element hvalues (hstands.all_isLegal hcontent)
  exact (htidy.and hlegal).imp fun _ h => ⟨h.1, h.2⟩

/-! ### What is read from written markup -/

theorem all_settleAll {Q : Markup → Prop} (htext : ∀ s, Q (text (Xml.reread s)))
    (pending : String) {ms : List Markup} (hms : ∀ m ∈ ms, All Q m.settle) :
    ∀ m ∈ settleAll pending ms, All Q m := by
  have hrun : ∀ s, ∀ m ∈ run (Xml.reread s), All Q m := by
    intro s m hm
    obtain ⟨rfl, -⟩ := mem_run hm
    exact .text (htext s)
  induction ms generalizing pending with
  | nil => exact hrun pending
  | cons m ms ih =>
    obtain ⟨hm, hms⟩ := List.forall_mem_cons.mp hms
    rw [settleAll]
    split
    · exact ih _ hms
    · intro n hn
      rcases List.mem_append.mp hn with hn | hn
      · exact hrun pending n hn
      · rcases List.mem_cons.mp hn with rfl | hn
        · exact hm
        · exact ih "" hms n hn

/-- Tags keep their names and the names of their attributes. -/
theorem all_settle {P Q : Markup → Prop} (htext : ∀ s, Q (text (Xml.reread s)))
    (helement : ∀ tag attributes children children', P (element tag attributes children) →
      Q (element tag (spacedAttributes attributes) children')) {m : Markup} (hm : All P m) :
    All Q m.settle := by
  induction hm with
  | text _ => exact .text (htext _)
  | element self _ ih =>
    exact .element (helement _ _ _ _ self) (all_settleAll htext "" ih)

end Markup
end ChatForms
