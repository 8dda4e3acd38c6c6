import ChatForms.Markup
import Mathlib.Logic.Relation

namespace ChatForms

namespace Xml

/-- A piece of content that is no element. -/
def Node.IsPiece (n : Node) : Prop := n.characters?.isSome

instance (n : Node) : Decidable n.IsPiece :=
  inferInstanceAs (Decidable (n.characters?.isSome = true))

/-- A piece of character data, marked or not. -/
inductive Node.IsData : Node → String → Prop where
  | text (s : String) : IsData (.text s) s
  | cdata (s : String) : IsData (.cdata s) s

theorem Node.IsData.characters?_eq {n : Node} {s : String} (h : n.IsData s) :
    n.characters? = some s := by
  cases h <;> rfl

/-- The character data of pieces of content. -/
def data (pieces : List Node) : String := String.join (pieces.map fun n => n.characters?.getD "")

@[simp] theorem data_nil : data [] = "" := rfl

@[simp] theorem data_cons (n : Node) (ns : List Node) :
    data (n :: ns) = n.characters?.getD "" ++ data ns := by
  rw [data, List.map_cons, String.join_cons, data]

@[simp] theorem data_append (ns ms : List Node) : data (ns ++ ms) = data ns ++ data ms := by
  rw [data, List.map_append, String.join_append, data, data]

end Xml

namespace Markup
open Xml (data)

/-! ### The children that content stands for -/

/-- Content and its children, tag by tag: the character data between two tags is one text, whole and
in order, or nothing if it is blank. -/
inductive Stands : List Xml.Node → List Markup → Prop where
  | last {pieces : List Xml.Node} (between : ∀ n ∈ pieces, n.IsPiece) :
      Stands pieces (run (data pieces))
  | tag {pieces content behind : List Xml.Node} {name : String}
      {attributes : List (String × String)} {children ms : List Markup}
      (between : ∀ n ∈ pieces, n.IsPiece) (inside : Stands content children)
      (later : Stands behind ms) :
      Stands (pieces ++ .element name attributes content :: behind)
        (run (data pieces) ++ element name attributes children :: ms)

theorem ofContent_pieces {pieces : List Xml.Node} (h : ∀ n ∈ pieces, n.IsPiece) (pending : String)
    (ns : List Xml.Node) :
    ofContent pending (pieces ++ ns) = ofContent (pending ++ data pieces) ns := by
  induction pieces generalizing pending with
  | nil => simp
  | cons n pieces ih =>
    obtain ⟨hn, hpieces⟩ := List.forall_mem_cons.mp h
    obtain ⟨s, hs⟩ := Option.isSome_iff_exists.mp hn
    simp only [List.cons_append, ofContent, hs, ih hpieces, Xml.data_cons, Option.getD_some,
      String.append_assoc]

theorem ofContent_tag (pending name : String) (attributes : List (String × String))
    (content ns : List Xml.Node) :
    ofContent pending (.element name attributes content :: ns) =
      run pending ++ element name attributes (ofContent "" content) :: ofContent "" ns := by
  simp [ofContent, ofElement, Xml.Node.characters?]

/-- `pieces` is what has been met since the last tag. -/
theorem stands_ofContent_append {pieces : List Xml.Node} (h : ∀ n ∈ pieces, n.IsPiece)
    (ns : List Xml.Node) : Stands (pieces ++ ns) (ofContent (data pieces) ns) := by
  match ns with
  | [] =>
    rw [List.append_nil, ofContent]
    exact .last h
  | n :: ns =>
    by_cases hn : n.IsPiece
    · have hpieces : ∀ m ∈ pieces ++ [n], m.IsPiece :=
        List.forall_mem_append.mpr ⟨h, List.forall_mem_singleton.mpr hn⟩
      have hlonger := stands_ofContent_append hpieces ns
      rwa [Xml.data_append, ← ofContent_pieces (List.forall_mem_singleton.mpr hn),
        List.append_assoc] at hlonger
    · match n, hn with
      | .element name attributes content, _ =>
        rw [ofContent_tag]
        exact .tag h (stands_ofContent_append (List.forall_mem_nil _) content)
          (stands_ofContent_append (List.forall_mem_nil _) ns)

theorem stands_iff {content : List Xml.Node} {ms : List Markup} :
    Stands content ms ↔ ofContent "" content = ms := by
  constructor
  · intro h
    induction h with
    | @last pieces between =>
      have hrun := ofContent_pieces between "" []
      simpa [ofContent] using hrun
    | tag between _ _ inside later =>
      rw [ofContent_pieces between, ofContent_tag, inside, later, String.empty_append]
  · rintro rfl
    exact stands_ofContent_append (List.forall_mem_nil _) content

/-! ### Content that reads alike -/

/-- A change to content that a reader does not see. -/
inductive Retells : List Xml.Node → List Xml.Node → Prop where
  | comment (before after : List Xml.Node) (s : String) :
      Retells (before ++ after) (before ++ .comment s :: after)
  | instruction (before after : List Xml.Node) (target s : String) :
      Retells (before ++ after) (before ++ .instruction target s :: after)
  /-- A piece of character data becomes two. -/
  | split (before after : List Xml.Node) (s t : String) {whole first second : Xml.Node}
      (hwhole : whole.IsData (s ++ t)) (hfirst : first.IsData s) (hsecond : second.IsData t) :
      Retells (before ++ whole :: after) (before ++ first :: second :: after)
  /-- Between two tags with nothing but white space between them there may be other white space. -/
  | space (before after pieces pieces' : List Xml.Node)
      (hbefore : ∀ n ∈ before.getLast?, ¬n.IsPiece) (hafter : ∀ n ∈ after.head?, ¬n.IsPiece)
      (hpieces : ∀ n ∈ pieces, n.IsPiece) (hpieces' : ∀ n ∈ pieces', n.IsPiece)
      (hblank : Text.isBlank (data pieces) = true) (hblank' : Text.isBlank (data pieces') = true) :
      Retells (before ++ pieces ++ after) (before ++ pieces' ++ after)
  | inside (before after : List Xml.Node) (name : String) (attributes : List (String × String))
      {content content' : List Xml.Node} (h : Retells content content') :
      Retells (before ++ .element name attributes content :: after)
        (before ++ .element name attributes content' :: after)

theorem ofContent_congr {ns ns' : List Xml.Node}
    (h : ∀ pending, ofContent pending ns = ofContent pending ns') (before : List Xml.Node)
    (pending : String) : ofContent pending (before ++ ns) = ofContent pending (before ++ ns') := by
  induction before generalizing pending with
  | nil => exact h pending
  | cons n before ih =>
    simp only [List.cons_append, ofContent]
    split
    · exact ih _
    · rw [ih]

/-- Blank character data in front of a tag, or at the end, does not count. -/
theorem ofContent_of_isBlank {s : String} (h : Text.isBlank s = true) {ns : List Xml.Node}
    (hns : ∀ n ∈ ns.head?, ¬n.IsPiece) : ofContent s ns = ofContent "" ns := by
  have hrun : run s = run "" := by
    rw [run, if_pos h]
    rfl
  cases ns with
  | nil => simpa only [ofContent] using hrun
  | cons n ns =>
    have hn : n.characters? = none := by simpa [Xml.Node.IsPiece] using hns n rfl
    simp only [ofContent, hn, hrun]

theorem ofContent_blank {pieces after : List Xml.Node} (hpieces : ∀ n ∈ pieces, n.IsPiece)
    (hblank : Text.isBlank (data pieces) = true) (hafter : ∀ n ∈ after.head?, ¬n.IsPiece) :
    ofContent "" (pieces ++ after) = ofContent "" after := by
  rw [ofContent_pieces hpieces, String.empty_append, ofContent_of_isBlank hblank hafter]

theorem Retells.ofContent_eq {ns ns' : List Xml.Node} (h : Retells ns ns') :
    ofContent "" ns = ofContent "" ns' := by
  induction h with
  | comment before after s =>
    refine ofContent_congr (fun pending => ?_) before ""
    simp [ofContent, Xml.Node.characters?]
  | instruction before after target s =>
    refine ofContent_congr (fun pending => ?_) before ""
    simp [ofContent, Xml.Node.characters?]
  | split before after s t hwhole hfirst hsecond =>
    refine ofContent_congr (fun pending => ?_) before ""
    simp only [ofContent, hwhole.characters?_eq, hfirst.characters?_eq, hsecond.characters?_eq,
      String.append_assoc]
  | space before after pieces pieces' hbefore hafter hpieces hpieces' hblank hblank' =>
    have hsame : ofContent "" (pieces ++ after) = ofContent "" (pieces' ++ after) := by
      rw [ofContent_blank hpieces hblank hafter, ofContent_blank hpieces' hblank' hafter]
    rw [List.append_assoc, List.append_assoc]
    -- a tag just before, if there is anything before, ends what is pending
    rcases List.eq_nil_or_concat before with rfl | ⟨before, n, rfl⟩
    · exact hsame
    · have hn : n.characters? = none := by simpa [Xml.Node.IsPiece] using hbefore n (by simp)
      rw [List.concat_eq_append, List.append_assoc, List.append_assoc]
      refine ofContent_congr (fun pending => ?_) before ""
      simp only [List.singleton_append, ofContent, hn, hsame]
  | inside before after name attributes _ ih =>
    refine ofContent_congr (fun pending => ?_) before ""
    rw [ofContent_tag, ofContent_tag, ih]

/-- Any number of such changes, either way. -/
theorem ofContent_eq_of_eqvGen {ns ns' : List Xml.Node} (h : Relation.EqvGen Retells ns ns') :
    ofContent "" ns = ofContent "" ns' := by
  induction h with
  | rel _ _ h => exact h.ofContent_eq
  | refl _ => rfl
  | symm _ _ _ ih => exact ih.symm
  | trans _ _ _ _ _ ih ih' => exact ih.trans ih'

end Markup
end ChatForms
