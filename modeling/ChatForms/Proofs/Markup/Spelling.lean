import ChatForms.Markup.Writer
import ChatForms.Proofs.Markup.All
import ChatForms.Proofs.Xml.Token

namespace ChatForms.Markup

/-- A tag says what it is meant to say: its names need no qualifiers, and no attribute is taken for
a declaration or for a second one of its name. -/
def IsNamed : Markup → Prop
  | text _ => True
  | element tag attributes _ =>
    Xml.isPlainName tag = true ∧
      (∀ a ∈ attributes, Xml.isPlainName a.1 = true ∧ a.1 ≠ "xmlns") ∧
      (attributes.map (·.1)).Nodup

def textToken (s : String) : List Xml.Token :=
  if s = "" then [] else [.text (s.toList.flatMap Xml.escapeChar)]

mutual
/-- The tokens in which an element is written. -/
def elementTokens : Markup → List Xml.Token
  | text s => textToken s
  | element tag attributes children =>
    .openTag (Xml.plainName tag) (attributes.map Xml.rawAttribute) children.isEmpty ::
      if children.isEmpty then []
      else contentTokens "" children ++ [.closeTag (Xml.plainName tag)]
/-- Texts that follow each other are one token; `pending` is the text since the last tag. -/
def contentTokens (pending : String) : List Markup → List Xml.Token
  | [] => textToken pending
  | m :: rest =>
    match m.tag? with
    | none => contentTokens (pending ++ m.textContent) rest
    | some _ => textToken pending ++ elementTokens m ++ contentTokens "" rest
end

theorem toList_writeAttributes (attributes : List (String × String)) :
    (writeAttributes attributes).toList = attributes.flatMap Xml.attributeChars := by
  induction attributes with
  | nil => rfl
  | cons a as ih =>
    rw [writeAttributes] at ih ⊢
    rw [List.map_cons, String.join_cons, String.toList_append, ih, List.flatMap_cons]
    simp [Xml.attributeChars, Xml.toList_escape]

theorem toList_write (tag : String) (attributes : List (String × String))
    (children : List Markup) :
    (write (element tag attributes children)).toList =
      Xml.openTagChars tag attributes children.isEmpty ++
        if children.isEmpty then [] else (writeAll children).toList ++ Xml.closeTagChars tag := by
  rw [write]
  cases children with
  | nil => simp [Xml.openTagChars, Xml.tagEnd, toList_writeAttributes]
  | cons m ms =>
    simp [Xml.openTagChars, Xml.closeTagChars, Xml.tagEnd, toList_writeAttributes]

theorem spells_textToken {s : String} {rest : List Char} {ts : List Xml.Token}
    (hrest : ∀ c, rest.head? = some c → c = '<') (h : Xml.Spells rest ts) :
    Xml.Spells (s.toList.flatMap Xml.escapeChar ++ rest) (textToken s ++ ts) := by
  unfold textToken
  split
  · next hs =>
    subst hs
    exact h
  · next hs =>
    have hs : s.toList ≠ [] := mt String.toList_eq_nil_iff.mp hs
    exact Xml.spells_append (mt Xml.escape_eq_nil_iff.mp hs) (Xml.readToken_text hs hrest) h

mutual
/-- The text of an element is read as its tokens. -/
theorem spells_element (tag : String) (attributes : List (String × String))
    (children : List Markup) (hm : All IsNamed (element tag attributes children))
    {rest : List Char} {ts : List Xml.Token} (hts : Xml.Spells rest ts) :
    Xml.Spells ((write (element tag attributes children)).toList ++ rest)
      (elementTokens (element tag attributes children) ++ ts) := by
  obtain ⟨htag, hattributes, -⟩ := hm.self
  have hopen := Xml.readToken_openTag children.isEmpty htag
    fun a ha => (hattributes a ha).1
  have hne : Xml.openTagChars tag attributes children.isEmpty ≠ [] := by simp [Xml.openTagChars]
  rw [toList_write, elementTokens, List.append_assoc, List.cons_append]
  apply Xml.spells_append hne (hopen _)
  split
  · exact hts
  · have hclose : Xml.Spells (Xml.closeTagChars tag ++ rest)
        (.closeTag (Xml.plainName tag) :: ts) :=
      Xml.spells_append (by simp [Xml.closeTagChars]) (Xml.readToken_closeTag htag rest) hts
    simpa using spells_content "" children hm.inside (by simp [Xml.closeTagChars]) hclose
theorem spells_content (pending : String) (ms : List Markup) (hms : ∀ m ∈ ms, All IsNamed m)
    {rest : List Char} {ts : List Xml.Token} (hrest : ∀ c, rest.head? = some c → c = '<')
    (hts : Xml.Spells rest ts) :
    Xml.Spells (pending.toList.flatMap Xml.escapeChar ++ ((writeAll ms).toList ++ rest))
      (contentTokens pending ms ++ ts) := by
  match ms with
  | [] => exact spells_textToken hrest hts
  | .text s :: ms =>
    have hms := fun m hm => hms m (List.mem_cons_of_mem _ hm)
    simpa [contentTokens, writeAll, write, Xml.toList_escape, tag?, textContent] using
      spells_content (pending ++ s) ms hms hrest hts
  | .element tag attributes children :: ms =>
    -- the tag ends the text in front of it
    obtain ⟨hm, hms⟩ := List.forall_mem_cons.mp hms
    have hlater := spells_content "" ms hms hrest hts
    have helement := spells_element tag attributes children hm hlater
    have htag : ∀ c, ((write (element tag attributes children)).toList ++
        ((writeAll ms).toList ++ rest)).head? = some c → c = '<' := by
      intro c hc
      rw [toList_write, Xml.openTagChars] at hc
      cases hc
      rfl
    simpa [contentTokens, writeAll, tag?] using spells_textToken htag helement
end

end ChatForms.Markup
