import ChatForms.Proofs.Markup.Reading

namespace ChatForms

/-! ### Raw texts -/

namespace Xml

/-- The text that raw characters stand for, with the line ends left as they are. -/
def unescape (raw : List Char) : String :=
  String.ofList (((resolve none raw).getD []).map Written.char)

theorem unescape_escape (s : String) : unescape (s.toList.flatMap escapeChar) = s := by
  have hchars : (s.toList.map written).map Written.char = s.toList := by
    simp [Function.comp_def]
  rw [unescape, resolve_escape, Option.getD_some, hchars, String.ofList_toList]

def unescapeAttribute (a : QName × List Char) : String × String := (a.1.base, unescape a.2)

theorem map_unescape_rawAttribute (attributes : List (String × String)) :
    (attributes.map rawAttribute).map unescapeAttribute = attributes := by
  have hsame : unescapeAttribute ∘ rawAttribute = id := by
    funext a
    simp [unescapeAttribute, rawAttribute, plainName, unescape_escape]
  rw [List.map_map, hsame, List.map_id]

end Xml

namespace Markup

/-! ### Texts and values that are replaced -/

mutual
/-- Markup in which a text becomes `lines` of it, and a value becomes `values` of it. -/
def revise (lines values : String → String) : Markup → Markup
  | text s => text (lines s)
  | element tag attributes children =>
    element tag (attributes.map fun a => (a.1, values a.2)) (reviseAll lines values "" children)
/-- Texts that follow each other become one, or none where they are blank; `pending` is the text
since the last tag. -/
def reviseAll (lines values : String → String) (pending : String) : List Markup → List Markup
  | [] => run (lines pending)
  | m :: rest =>
    match m.tag? with
    | none => reviseAll lines values (pending ++ m.textContent) rest
    | some _ => run (lines pending) ++ revise lines values m :: reviseAll lines values "" rest
end

mutual
/-- A reader settles the ends of lines, and nothing else. -/
theorem settle_eq_revise (m : Markup) : m.settle = m.revise Xml.reread Xml.spaced := by
  match m with
  | text s => rfl
  | element tag attributes children =>
    rw [settle, revise, settleAll_eq_reviseAll "" children, spacedAttributes]
theorem settleAll_eq_reviseAll (pending : String) (ms : List Markup) :
    settleAll pending ms = reviseAll Xml.reread Xml.spaced pending ms := by
  match ms with
  | [] => rfl
  | text s :: ms =>
    rw [settleAll, reviseAll]
    exact settleAll_eq_reviseAll (pending ++ s) ms
  | element tag attributes children :: ms =>
    simp only [settleAll, reviseAll, tag?]
    rw [settle_eq_revise (element tag attributes children), settleAll_eq_reviseAll "" ms]
end

/-! ### Markup that is gathered from its tokens -/

/-- One token more, in front of others. `inside` is what has been gathered behind it in the same
element. -/
def gatherToken : Xml.Token → List (List Markup) → List (List Markup)
  | .text raw, inside :: outer => (run (Xml.unescape raw) ++ inside) :: outer
  | .closeTag _, outer => [] :: outer
  | .openTag name attributes true, inside :: outer =>
    (element name.base (attributes.map Xml.unescapeAttribute) [] :: inside) :: outer
  | .openTag name attributes false, children :: inside :: outer =>
    (element name.base (attributes.map Xml.unescapeAttribute) children :: inside) :: outer
  | _, outer => outer

/-- What stands behind a place in every element that is open there, from the last token on. -/
def gather (outer : List (List Markup)) (ts : List Xml.Token) : List (List Markup) :=
  ts.foldr gatherToken outer

theorem gather_append (outer : List (List Markup)) (ts us : List Xml.Token) :
    gather outer (ts ++ us) = gather (gather outer us) ts := List.foldr_append

theorem gather_textToken (s : String) (inside : List Markup) (outer : List (List Markup)) :
    gather (inside :: outer) (textToken s) = (run s ++ inside) :: outer := by
  unfold textToken
  split
  · next hs =>
    subst hs
    rfl
  · rw [gather, List.foldr_cons, List.foldr_nil, gatherToken, Xml.unescape_escape]

mutual
/-- Nothing is lost in the tokens of an element but where a text began and where a blank one
was. -/
theorem gather_elementTokens (tag : String) (attributes : List (String × String))
    (children : List Markup) (inside : List Markup) (outer : List (List Markup)) :
    gather (inside :: outer) (elementTokens (element tag attributes children)) =
      (revise id id (element tag attributes children) :: inside) :: outer := by
  have hattributes : (attributes.map fun a => (a.1, id a.2)) = attributes := List.map_id _
  rw [elementTokens, revise, hattributes]
  cases hempty : children.isEmpty with
  | true =>
    obtain rfl := List.isEmpty_iff.mp hempty
    simp only [if_true, gather, List.foldr_cons, List.foldr_nil, gatherToken,
      Xml.map_unescape_rawAttribute]
    rfl
  | false =>
    have hchildren := gather_contentTokens "" children [] (inside :: outer)
    rw [List.append_nil] at hchildren
    simp only [Bool.false_eq_true, if_false, gather, List.foldr_cons, List.foldr_append,
      List.foldr_nil] at hchildren ⊢
    simp only [gatherToken, hchildren, Xml.map_unescape_rawAttribute]
    rfl
theorem gather_contentTokens (pending : String) (ms : List Markup) (inside : List Markup)
    (outer : List (List Markup)) :
    gather (inside :: outer) (contentTokens pending ms) =
      (reviseAll id id pending ms ++ inside) :: outer := by
  match ms with
  | [] =>
    rw [contentTokens, reviseAll]
    exact gather_textToken pending inside outer
  | text s :: ms =>
    rw [contentTokens, reviseAll]
    exact gather_contentTokens (pending ++ s) ms inside outer
  | element tag attributes children :: ms =>
    -- from the end on: what comes behind the element, the element, the text in front of it
    simp only [contentTokens, reviseAll, tag?, List.append_assoc, gather_append]
    rw [gather_contentTokens "" ms, gather_elementTokens tag attributes children,
      gather_textToken]
    simp
end

/-- Elements that are written alike are alike, apart from the bounds of their texts and from blank
texts. -/
theorem revise_eq_of_write_eq {m m' : Markup} (hm : All IsNamed m) (hm' : All IsNamed m')
    (htag : m.tag?.isSome) (htag' : m'.tag?.isSome) (h : m.write = m'.write) :
    m.revise id id = m'.revise id id := by
  have hspells : ∀ {m : Markup}, All IsNamed m → m.tag?.isSome →
      Xml.tokens m.write.toList = some (elementTokens m) ∧
        gather [[]] (elementTokens m) = [[m.revise id id]] := by
    intro m hm htag
    cases m with
    | text s => cases htag
    | element tag attributes children =>
      refine ⟨Xml.tokens_eq_some ?_, gather_elementTokens tag attributes children [] []⟩
      simpa using spells_element tag attributes children hm Xml.spells_nil
  obtain ⟨htokens, hgather⟩ := hspells hm htag
  obtain ⟨htokens', hgather'⟩ := hspells hm' htag'
  rw [h, htokens', Option.some.injEq] at htokens
  rw [← htokens, hgather'] at hgather
  simpa using hgather.symm

end Markup
end ChatForms
