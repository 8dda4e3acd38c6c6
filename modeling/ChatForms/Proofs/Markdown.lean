import ChatForms.Markdown
import ChatForms.Proofs.Build.Validity
import ChatForms.Proofs.Document.Arena

namespace ChatForms

/-! ### What a summary may show -/

/-- An element as it would be without attributes, written by its author. Only the name of a checkbox
is kept. -/
def Element.bare (e : Element) : Element :=
  ⟨e.kind,
    match e.kind, e.attribute? "name" with
    | .checkbox, some name => StringMap.empty.insert "name" name
    | _, _ => .empty,
    e.text, .author⟩

namespace Tree

mutual
/-- A tree of bare elements, without the labels of checkboxes. -/
def prune : Tree → Tree
  | node e ts => node e.bare (if e.kind = .checkbox then [] else pruneAll ts)
def pruneAll : List Tree → List Tree
  | [] => []
  | t :: ts => prune t :: pruneAll ts
end

end Tree

namespace Markdown
open ChatForms.Tree

/-- What is written where an element begins. -/
def opening (e : Element) : String :=
  match e.kind with
  | .message | .div => ""
  | .form => formHeader
  | .button => "(" ++ e.kind.displayName ++ ":"
  | .checkbox => "(" ++ e.kind.displayName ++ ":" ++ (e.attribute? "name").getD ""
  | .personSelector => "(" ++ e.kind.displayName ++ ")\n\n"
  | .text => e.text.getD ""

/-- What is written where an element ends. -/
def closing (k : Kind) : String :=
  match k with
  | .message | .personSelector | .text => ""
  | .form => formFooter
  | .div => "\n\n"
  | .button | .checkbox => ")\n"

mutual
/-- What is written on a walk around a tree, piece by piece. -/
def pieces : Tree → List String
  | node e ts => opening e :: (piecesOf ts ++ [closing e.kind])
def piecesOf : List Tree → List String
  | [] => []
  | t :: ts => pieces t ++ piecesOf ts
end

/-! ### A summary as a walk -/

theorem opening_bare (e : Element) : opening e.bare = opening e := by
  obtain ⟨kind, attributes, text, origin⟩ := e
  cases kind with
  | checkbox =>
    have hname : (Element.bare ⟨.checkbox, attributes, text, origin⟩).attribute? "name" =
        attributes.get? "name" := by
      rw [Element.attribute?, Element.bare, Element.attribute?]
      cases attributes.get? "name" with
      | none => rfl
      | some name => simp [StringMap.get?_insert]
    rw [opening, opening, hname]
    rfl
  | _ => rfl

/-- Fields hold at most one text. A button shows it, and a person selector has none. -/
theorem summary_node {rules : Containment} {above : List Kind} {e : Element} {ts : List Tree}
    (h : e.Fits rules above ts) :
    summary (node e ts) =
      opening e ++ (if e.kind = .checkbox then "" else summaries ts) ++ closing e.kind := by
  have hholds := h.holds
  rw [summary, opening]
  cases hkind : e.kind with
  | message | form | div => simp [closing]
  | checkbox => simp [closing, fieldLine, String.append_assoc]
  | button =>
    rw [hkind] at hholds
    obtain ⟨s, origin, rfl, -⟩ := Kind.holds_button hholds
    simp [closing, fieldLine, textContents, textContent, summaries, summary, Element.ofText,
      String.append_assoc]
  | personSelector | text =>
    rw [hkind] at hholds
    obtain rfl : ts = [] := hholds
    simp [closing, summaries]

theorem join_piecesOf {ts : List Tree}
    (h : ∀ t ∈ ts, String.join (pieces t.prune) = summary t) :
    String.join (piecesOf (pruneAll ts)) = summaries ts := by
  induction ts with
  | nil => rfl
  | cons t ts ih =>
    obtain ⟨ht, hts⟩ := List.forall_mem_cons.mp h
    rw [pruneAll, piecesOf, String.join_append, ht, ih hts, summaries]

theorem join_pieces {rules : Containment} {above : List Kind} {t : Tree} (h : t.Valid rules above) :
    String.join (pieces t.prune) = summary t := by
  induction h with
  | @node above e ts fits _ ih =>
    have hinside : String.join (piecesOf (if e.kind = .checkbox then [] else pruneAll ts)) =
        if e.kind = .checkbox then "" else summaries ts := by
      split
      · rfl
      · exact join_piecesOf ih
    rw [summary_node fits, ← hinside, prune, pieces, opening_bare, String.join_cons,
      String.join_append, String.append_assoc]
    simp [Element.bare]

theorem texts_sublist_piecesOf {ts : List Tree}
    (h : ∀ t ∈ ts, t.prune.texts.Sublist (pieces t.prune)) :
    (textsOf (pruneAll ts)).Sublist (piecesOf (pruneAll ts)) := by
  induction ts with
  | nil => exact .slnil
  | cons t ts ih =>
    obtain ⟨ht, hts⟩ := List.forall_mem_cons.mp h
    rw [pruneAll, textsOf_cons, piecesOf]
    exact ht.append (ih hts)

/-- Every text is a piece of its own, in the order of the elements. -/
theorem texts_sublist_pieces {rules : Containment} {above : List Kind} {t : Tree}
    (h : t.Valid rules above) : t.prune.texts.Sublist (pieces t.prune) := by
  induction h with
  | @node above e ts fits _ ih =>
    have hinside : (textsOf (if e.kind = .checkbox then [] else pruneAll ts)).Sublist
        (piecesOf (if e.kind = .checkbox then [] else pruneAll ts)) := by
      split
      · exact .slnil
      · exact texts_sublist_piecesOf ih
    have hopening : e.text.toList.Sublist [opening e] := by
      cases hs : e.text with
      | none => exact List.nil_sublist _
      | some s =>
        have hkind : e.kind = .text := fits.worded.mp (by rw [hs]; rfl)
        rw [opening, hkind, hs]
        exact .refl _
    rw [prune, texts_node, pieces, opening_bare]
    exact hopening.append (hinside.trans (List.sublist_append_left _ _))

end Markdown

namespace Document

/-- A summary is written on a walk around the pruned tree of its document, so whatever else the
document has does not show in it. All texts that are left show as they are, in the same order. -/
theorem markdown_pruned {rules : Containment} {m : Markup} {d : Document}
    (h : build rules m = .ok d) :
    d.markdown = String.join (Markdown.pieces d.tree.prune) ∧
      d.tree.prune.texts.Sublist (Markdown.pieces d.tree.prune) ∧
      ∀ rules' m' d', build rules' m' = .ok d' → d'.tree.prune = d.tree.prune →
        d'.markdown = d.markdown := by
  have hwalk : ∀ {rules m d}, build rules m = .ok d →
      d.markdown = String.join (Markdown.pieces d.tree.prune) ∧
        d.tree.prune.texts.Sublist (Markdown.pieces d.tree.prune) := by
    intro rules m d h
    obtain ⟨t, ht, rfl⟩ := build_eq_ok.mp h
    have hvalid := (Tree.valid_of_ofRoot ht).1
    rw [markdown, tree_ofTree]
    exact ⟨(Markdown.join_pieces hvalid).symm, Markdown.texts_sublist_pieces hvalid⟩
  obtain ⟨hmarkdown, htexts⟩ := hwalk h
  refine ⟨hmarkdown, htexts, fun rules' m' d' h' hsame => ?_⟩
  rw [hmarkdown, (hwalk h').1, hsame]

/-- A question with a checkbox and a button. -/
def order : Markup :=
  .element "messageML" [] [.text "Hungry?", .element "form" [("id", "lunch")]
    [.element "div" [("class", "wide")]
      [.element "checkbox" [("name", "soup"), ("checked", "true")] []],
      .element "button" [("name", "go"), ("type", "reset")] [.text "Order"]]]

/-- Another form that was rendered, with the same questions. -/
def renderedOrder : Markup :=
  .element "div" [("data-format", "PresentationML")] [.text "Hungry?",
    .element "form" [("id", "dinner")]
      [.element "div" [] [.element "div" [("class", "checkbox-group")]
        [.element "input" [("type", "checkbox"), ("name", "soup"), ("value", "7")] [],
          .element "label" [] [.text "with bread"]]],
        .element "button" [("id", "x")] [.text "Order"]]]

theorem markdown_pruned_order :
    ∃ d d', build .standard order = .ok d ∧ build .standard renderedOrder = .ok d' ∧
      d'.size ≠ d.size ∧ d'.tree.prune = d.tree.prune ∧ d'.markdown = d.markdown ∧
      d.markdown = String.join (Markdown.pieces d.tree.prune) ∧
      d.tree.prune.texts = ["Hungry?", "Order"] ∧
      d.tree.prune.texts.Sublist (Markdown.pieces d.tree.prune) := by
  obtain ⟨d, hd⟩ : ∃ d, build .standard order = .ok d := ⟨_, by rfl⟩
  obtain ⟨d', hd'⟩ : ∃ d', build .standard renderedOrder = .ok d' := ⟨_, by rfl⟩
  have hsize : (build .standard order).toOption.map size = some 7 := by decide +kernel
  have hsize' : (build .standard renderedOrder).toOption.map size = some 8 := by decide +kernel
  have htexts : (build .standard order).toOption.map (fun d => d.tree.prune.texts) =
      some ["Hungry?", "Order"] := by decide +kernel
  have hsame : (build .standard renderedOrder).toOption.map (fun d => ofTree d.tree.prune) =
      (build .standard order).toOption.map fun d => ofTree d.tree.prune := by decide +kernel
  rw [hd] at hsize htexts hsame
  rw [hd'] at hsize' hsame
  have hpruned : d'.tree.prune = d.tree.prune := ofTree_inj.mp (Option.some.inj hsame)
  obtain ⟨hmarkdown, hsublist, hfrom⟩ := markdown_pruned hd
  refine ⟨d, d', hd, hd', ?_, hpruned, hfrom _ _ _ hd' hpruned, hmarkdown,
    Option.some.inj htexts, hsublist⟩
  rw [Option.some.inj hsize, Option.some.inj hsize']
  decide

end Document
end ChatForms
