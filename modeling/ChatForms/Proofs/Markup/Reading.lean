import ChatForms.Proofs.Markup.Spelling
import ChatForms.Proofs.Xml.Characters

namespace ChatForms

namespace Markup

def spacedAttributes (attributes : List (String × String)) : List (String × String) :=
  attributes.map fun a => (a.1, Xml.spaced a.2)

mutual
/-- What a reader makes of markup that has been written. -/
def settle : Markup → Markup
  | text s => text (Xml.reread s)
  | element tag attributes children =>
    element tag (spacedAttributes attributes) (settleAll "" children)
/-- Texts that follow each other become one, or none where they are blank; `pending` is the text
since the last tag. -/
def settleAll (pending : String) : List Markup → List Markup
  | [] => run (Xml.reread pending)
  | m :: rest =>
    match m.tag? with
    | none => settleAll (pending ++ m.textContent) rest
    | some _ => run (Xml.reread pending) ++ settle m :: settleAll "" rest
end

def textNode (s : String) : List Xml.Node := if s = "" then [] else [.text (Xml.reread s)]

mutual
/-- The document tree that stands between written markup and the markup read from it. -/
def elementNode : Markup → Xml.Node
  | text s => .text (Xml.reread s)
  | element tag attributes children =>
    .element tag (spacedAttributes attributes) (contentNodes "" children)
def contentNodes (pending : String) : List Markup → List Xml.Node
  | [] => textNode pending
  | m :: rest =>
    match m.tag? with
    | none => contentNodes (pending ++ m.textContent) rest
    | some _ => textNode pending ++ elementNode m :: contentNodes "" rest
end

end Markup

/-! ### From tokens to trees -/

namespace Xml

theorem divide_rawAttribute {own : Scope} {as : List (String × String)}
    (has : ∀ a ∈ as, a.1 ≠ "xmlns") :
    divide own (as.map rawAttribute) =
      some (own, as.map fun a => (plainName a.1, spaced a.2)) := by
  induction as with
  | nil => rfl
  | cons a as ih =>
    have ha : declared (plainName a.1) (spaced a.2) = none := by
      simp [declared, plainName, has a List.mem_cons_self]
    have hrest := ih fun b hb => has b (List.mem_cons_of_mem a hb)
    simp only [List.map_cons, rawAttribute, divide, decodeValue_escape, Option.bind_eq_bind,
      Option.bind_some]
    rw [show String.ofList (spaceLines a.2.toList) = spaced a.2 from rfl, ha, hrest]
    rfl

theorem localAttributes_plain (scope : Scope) {seen : List (Option String × String)}
    {as : List (String × String)} (hseen : ∀ a ∈ as, (none, a.1) ∉ seen)
    (has : (as.map (·.1)).Nodup) :
    localAttributes scope seen (as.map fun a => (plainName a.1, spaced a.2)) =
      some (Markup.spacedAttributes as) := by
  induction as generalizing seen with
  | nil => rfl
  | cons a as ih =>
    obtain ⟨ha, has⟩ := List.nodup_cons.mp has
    have hfirst : seen.contains (none, a.1) = false := by
      simpa using hseen a List.mem_cons_self
    have hothers : ∀ b ∈ as, (none, b.1) ∉ (none, a.1) :: seen := by
      intro b hb hmem
      rcases List.mem_cons.mp hmem with heq | hmem
      · have hname : b.1 = a.1 := (Prod.mk.inj heq).2
        exact ha (List.mem_map.mpr ⟨b, hb, hname⟩)
      · exact hseen b (List.mem_cons_of_mem a hb) hmem
    simp only [List.map_cons, localAttributes, spaceOf, plainName, if_true, Option.bind_eq_bind,
      Option.bind_some, hfirst, Bool.false_eq_true, if_false]
    have hrest := ih hothers has
    simp only [plainName] at hrest
    rw [hrest]
    rfl

/-- A tag with plain names opens its element in every scope. -/
theorem OpenElement.start_plain (scope : Scope) (tag : String) {as : List (String × String)}
    (has : ∀ a ∈ as, a.1 ≠ "xmlns") (hdistinct : (as.map (·.1)).Nodup) :
    OpenElement.start scope (plainName tag) (as.map rawAttribute) =
      some ⟨plainName tag, Markup.spacedAttributes as, scope, []⟩ := by
  have hlocal := localAttributes_plain scope
    (fun a _ => List.not_mem_nil (a := (none, a.1))) hdistinct
  simp only [start, divide_rawAttribute has, Option.bind_eq_bind, Option.bind_some,
    List.nil_append, hlocal]
  simp [isElementName, plainName]

/-- Pieces of content join an element, the first one first. -/
def OpenElement.pushAll (e : OpenElement) (nodes : List Node) : OpenElement :=
  { e with children := nodes.reverse ++ e.children }

theorem OpenElement.pushAll_append (e : OpenElement) (ns ms : List Node) :
    e.pushAll (ns ++ ms) = (e.pushAll ns).pushAll ms := by
  simp [pushAll]

theorem assemble_textToken (e : OpenElement) (outer : List OpenElement) (root : Option Node)
    (s : String) (ts : List Token) :
    assemble (e :: outer) root (Markup.textToken s ++ ts) =
      assemble (e.pushAll (Markup.textNode s) :: outer) root ts := by
  unfold Markup.textToken Markup.textNode
  split
  · rfl
  · simp only [List.singleton_append, assemble, decodeText_escape, Option.bind_eq_bind,
      Option.bind_some]
    rfl

mutual
/-- Whatever is open, an element joins the innermost one once its tokens have been met. -/
theorem assemble_elementTokens (e : OpenElement) (outer : List OpenElement) (root : Option Node)
    (tag : String) (attributes : List (String × String)) (children : List Markup)
    (hm : Markup.All Markup.IsNamed (.element tag attributes children)) (ts : List Token) :
    assemble (e :: outer) root
        (Markup.elementTokens (.element tag attributes children) ++ ts) =
      assemble (e.push (Markup.elementNode (.element tag attributes children)) :: outer)
        root ts := by
  obtain ⟨-, hnames, hdistinct⟩ := hm.self
  have hstart := OpenElement.start_plain e.scope tag
    (fun a ha => (hnames a ha).2) hdistinct
  simp only [Markup.elementTokens, List.cons_append, assemble, hstart, Option.bind_eq_bind,
    Option.bind_some]
  have hinside := fun inner => assemble_contentTokens inner (e :: outer) root "" children hm.inside
  cases hempty : children.isEmpty with
  | true =>
    obtain rfl := List.isEmpty_iff.mp hempty
    rfl
  | false =>
    simp only [Bool.false_eq_true, if_false, List.append_assoc, hinside]
    simp [assemble, OpenElement.pushAll, OpenElement.close, Markup.elementNode, plainName]
termination_by (sizeOf children, 1)
theorem assemble_contentTokens (e : OpenElement) (outer : List OpenElement) (root : Option Node)
    (pending : String) (ms : List Markup) (hms : ∀ m ∈ ms, Markup.All Markup.IsNamed m)
    (ts : List Token) :
    assemble (e :: outer) root (Markup.contentTokens pending ms ++ ts) =
      assemble (e.pushAll (Markup.contentNodes pending ms) :: outer) root ts := by
  match ms with
  | [] =>
    rw [Markup.contentTokens, Markup.contentNodes]
    exact assemble_textToken e outer root pending ts
  | .text s :: ms =>
    rw [Markup.contentTokens, Markup.contentNodes]
    exact assemble_contentTokens e outer root (pending ++ s) ms
      (fun m hm => hms m (List.mem_cons_of_mem _ hm)) ts
  | .element tag attributes children :: ms =>
    -- the text up to here, the element and the content behind it join one after the other
    obtain ⟨hm, hms⟩ := List.forall_mem_cons.mp hms
    simp only [Markup.contentTokens, Markup.tag?, List.append_assoc]
    rw [assemble_textToken, assemble_elementTokens _ _ _ tag attributes children hm,
      assemble_contentTokens _ _ _ "" ms hms]
    simp only [Markup.contentNodes, Markup.tag?, OpenElement.pushAll_append]
    simp [OpenElement.pushAll, OpenElement.push]
termination_by (sizeOf ms, 0)
end

/-- The tokens of a whole element spell its tree. -/
theorem assemble_root {tag : String} {attributes : List (String × String)}
    {children : List Markup}
    (hm : Markup.All Markup.IsNamed (.element tag attributes children)) :
    assemble [] none (Markup.elementTokens (.element tag attributes children)) =
      some (Markup.elementNode (.element tag attributes children)) := by
  obtain ⟨-, hnames, hdistinct⟩ := hm.self
  have hstart := OpenElement.start_plain [] tag
    (fun a ha => (hnames a ha).2) hdistinct
  simp only [Markup.elementTokens, assemble, Option.isSome_none, Bool.false_eq_true, if_false,
    hstart, Option.bind_eq_bind, Option.bind_some]
  cases hempty : children.isEmpty with
  | true =>
    obtain rfl := List.isEmpty_iff.mp hempty
    rfl
  | false =>
    simp only [Bool.false_eq_true, if_false, assemble_contentTokens _ _ _ "" children hm.inside]
    simp [assemble, OpenElement.pushAll, OpenElement.close, Markup.elementNode, plainName]

/-! ### Legal characters -/

theorem isLegal_append {s t : String} : IsLegal (s ++ t) ↔ IsLegal s ∧ IsLegal t := by
  simp only [IsLegal, String.toList_append, List.mem_append, or_imp, forall_and]

theorem isLegal_escape {s : String} : IsLegal (escape s) ↔ IsLegal s := by
  simp only [IsLegal, toList_escape, ← List.all_eq_true, all_isXmlChar_escape]

theorem not_isNameChar_of_control :
    ∀ n : Fin 0x20, isNameChar (Char.ofNat n) = false := by decide

theorem isXmlChar_of_isNameChar {c : Char} (h : isNameChar c = true) : isXmlChar c = true := by
  rw [← Bool.not_eq_false]
  intro hc
  have hcases : c.toNat < 0x20 ∨ c.toNat = 0xFFFE ∨ c.toNat = 0xFFFF := by
    simp only [isXmlChar] at hc
    split at hc
    · next hcontrol => exact Or.inl hcontrol
    · simp only [Bool.and_eq_false_iff, bne_eq_false_iff_eq] at hc
      exact Or.inr hc
  rw [← Char.ofNat_toNat c] at h
  rcases hcases with hcontrol | heq | heq
  · have := not_isNameChar_of_control ⟨c.toNat, hcontrol⟩
    rw [this] at h
    exact absurd h (by decide)
  · rw [heq] at h
    exact absurd h (by decide)
  · rw [heq] at h
    exact absurd h (by decide)

theorem isLegal_of_isPlainName {s : String} (h : isPlainName s = true) : IsLegal s :=
  fun c hc => isXmlChar_of_isNameChar (isNameChar_of_isPlainName h c hc)

end Xml

namespace Markup

/-- The attribute values of a tag, or the characters of a text, are legal. -/
def IsLegal : Markup → Prop
  | text s => Xml.IsLegal s
  | element _ attributes _ => ∀ a ∈ attributes, Xml.IsLegal a.2

theorem isLegal_writeAttributes {attributes : List (String × String)}
    (hnames : ∀ a ∈ attributes, Xml.isPlainName a.1 = true) :
    Xml.IsLegal (writeAttributes attributes) ↔ ∀ a ∈ attributes, Xml.IsLegal a.2 := by
  induction attributes with
  | nil => simp [writeAttributes, Xml.IsLegal]
  | cons a as ih =>
    obtain ⟨ha, has⟩ := List.forall_mem_cons.mp hnames
    have hname := Xml.isLegal_of_isPlainName ha
    have hopen : Xml.IsLegal "=\"" := by decide
    have hclose : Xml.IsLegal "\"" := by decide
    have hspace : Xml.IsLegal " " := by decide
    have hrest := ih has
    rw [writeAttributes] at hrest ⊢
    simp only [List.map_cons, String.join_cons, Xml.isLegal_append, hrest, hname, hopen, hclose,
      hspace, Xml.isLegal_escape, List.forall_mem_cons, true_and, and_true]

mutual
theorem isLegal_write (m : Markup) (hm : All IsNamed m) :
    Xml.IsLegal m.write ↔ All IsLegal m := by
  match m with
  | text s =>
    rw [write, Xml.isLegal_escape]
    exact ⟨fun h => .text h, fun h => h.self⟩
  | element tag attributes children =>
    obtain ⟨htag, hnames, -⟩ := hm.self
    have hname := Xml.isLegal_of_isPlainName htag
    have hvalues := isLegal_writeAttributes fun a ha => (hnames a ha).1
    have hinside := isLegal_writeAll children hm.inside
    have hopen : Xml.IsLegal "<" := by decide
    have hclose : Xml.IsLegal "</" := by decide
    have hend : Xml.IsLegal ">" := by decide
    have hempty : Xml.IsLegal "/>" := by decide
    have hall : All IsLegal (element tag attributes children) ↔
        (∀ a ∈ attributes, Xml.IsLegal a.2) ∧ ∀ c ∈ children, All IsLegal c :=
      ⟨fun h => ⟨h.self, h.inside⟩, fun h => .element h.1 h.2⟩
    rw [hall, ← hinside, ← hvalues, write]
    cases children with
    | nil =>
      simp [Xml.isLegal_append, hopen, hname, hempty, writeAll, show Xml.IsLegal "" by decide]
    | cons c cs =>
      simp [Xml.isLegal_append, hopen, hname, hclose, hend]
theorem isLegal_writeAll (ms : List Markup) (hms : ∀ m ∈ ms, All IsNamed m) :
    Xml.IsLegal (writeAll ms) ↔ ∀ m ∈ ms, All IsLegal m := by
  match ms with
  | [] => simp [writeAll, Xml.IsLegal]
  | m :: ms =>
    obtain ⟨hm, hms⟩ := List.forall_mem_cons.mp hms
    rw [writeAll, Xml.isLegal_append, isLegal_write m hm, isLegal_writeAll ms hms,
      List.forall_mem_cons]
end

/-! ### From trees to markup -/

theorem ofContent_textNode (pending : String) (nodes : List Xml.Node) :
    ofContent "" (textNode pending ++ nodes) = ofContent (Xml.reread pending) nodes := by
  unfold textNode
  split
  · next hempty =>
    subst hempty
    rfl
  · simp [ofContent, Xml.Node.characters?]

mutual
theorem ofElement_elementNode (tag : String) (attributes : List (String × String))
    (children : List Markup) :
    ofElement (elementNode (element tag attributes children)) =
      [settle (element tag attributes children)] := by
  rw [elementNode, ofElement, ofContent_contentNodes "" children, settle]
theorem ofContent_contentNodes (pending : String) (ms : List Markup) :
    ofContent "" (contentNodes pending ms) = settleAll pending ms := by
  match ms with
  | [] =>
    have htext := ofContent_textNode pending []
    rwa [List.append_nil] at htext
  | .text s :: ms => exact ofContent_contentNodes (pending ++ s) ms
  | .element tag attributes children :: ms =>
    have hnode := ofElement_elementNode tag attributes children
    have hlater := ofContent_contentNodes "" ms
    simp only [elementNode] at hnode
    simp only [contentNodes, tag?, ofContent_textNode, settleAll, elementNode, ofContent,
      Xml.Node.characters?, hnode, hlater, List.append_assoc, List.singleton_append]
end

theorem xmlRead_write {tag : String} {attributes : List (String × String)}
    {children : List Markup} (hm : All IsNamed (element tag attributes children)) :
    Xml.read (write (element tag attributes children)) =
      if (write (element tag attributes children)).toList.all Xml.isXmlChar then
        some (elementNode (element tag attributes children))
      else none := by
  have hspells := spells_element tag attributes children hm Xml.spells_nil
  rw [List.append_nil, List.append_nil] at hspells
  have htokens := Xml.tokens_eq_some hspells
  obtain ⟨c, cs, hc, hstart⟩ := Xml.isPlainName_cons hm.self.1
  have hfirst : ∃ rest, (write (element tag attributes children)).toList = '<' :: c :: rest := by
    rw [toList_write, Xml.openTagChars, hc]
    exact ⟨_, rfl⟩
  unfold Xml.read
  generalize (write (element tag attributes children)).toList = written at *
  obtain ⟨rest, rfl⟩ := hfirst
  -- an element begins with neither a byte order mark nor a declaration
  have hquestion : c ≠ '?' := Xml.ne_of_isNameStart hstart (by decide)
  have hdeclaration : Xml.skipDeclaration ('<' :: c :: rest) = some ('<' :: c :: rest) := by
    have hstart : "<?xml ".toList = ['<', '?', 'x', 'm', 'l', ' '] := by decide
    have hdeclaration : "<?xml ".toList.isPrefixOf ('<' :: c :: rest) = false := by
      simp [hstart, List.isPrefixOf, Ne.symm hquestion]
    rw [Xml.skipDeclaration, hdeclaration]
    rfl
  have hmark : Xml.dropMark ('<' :: c :: rest) = '<' :: c :: rest := by
    simp [Xml.dropMark]
  simp only [hmark, hdeclaration, htokens, Option.bind_eq_bind, Option.bind_some,
    Xml.assemble_root hm]
  cases ('<' :: c :: rest).all Xml.isXmlChar <;> rfl

/-- Written markup comes back with its texts joined and its line ends settled, provided that a
document may hold its characters. -/
theorem read_write {m : Markup} (hm : All IsNamed m) (htag : m.tag?.isSome) :
    (All IsLegal m → read m.write = some m.settle) ∧ (¬All IsLegal m → read m.write = none) := by
  match m with
  | text s => simp [tag?] at htag
  | element tag attributes children =>
    have hlegal := isLegal_write _ hm
    rw [Xml.IsLegal, ← List.all_eq_true] at hlegal
    rw [← hlegal, read, xmlRead_write hm]
    constructor
    · intro hall
      rw [if_pos hall, Option.bind_eq_bind, Option.bind_some, ofXml?, ofElement_elementNode]
      rfl
    · intro hall
      rw [if_neg hall]
      rfl

end Markup
end ChatForms
