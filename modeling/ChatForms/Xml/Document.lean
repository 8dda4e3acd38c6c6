import ChatForms.Xml.Node
import ChatForms.Xml.Token

namespace ChatForms.Xml

/-- The name space that the qualifier `xml` of an attribute always has. No element is in it. -/
def xmlSpace : String := "http:" ++ "//www.w3.org/XML/1998/namespace"

/-- The name space that the qualifier `xmlns` always has. It is never declared. -/
def xmlnsSpace : String := "http:" ++ "//www.w3.org/2000/xmlns/"

/-- The name spaces in force, each with its qualifier; the nearest declaration stands first. The
default name space has the empty qualifier. -/
abbrev Scope := List (String × String)

/-- The declaration that an attribute makes, if it makes one: the qualifier and its name space. -/
def declared (name : QName) (value : String) : Option (String × String) :=
  if name.qualifier = "xmlns" then some (name.base, value)
  else if name.base = "xmlns" then some ("", value)
  else none

/-- The reserved name spaces stay with their qualifiers, and a tag declares a qualifier once. -/
def mayDeclare (own : Scope) (qualifier space : String) : Bool :=
  space != xmlnsSpace && (space == xmlSpace) == (qualifier == "xml") &&
    (qualifier == "" || (own.lookup qualifier).isNone)

/-- To declare the qualifier `xml`, once or more often, says nothing new. -/
def declare (own : Scope) (qualifier space : String) : Scope :=
  if qualifier = "xml" then own else own ++ [(qualifier, space)]

/-- The attributes of a tag divided into declarations and the others, both in order. -/
def divide (own : Scope) : List (QName × List Char) → Option (Scope × List (QName × String))
  | [] => some (own, [])
  | (name, raw) :: rest => do
    let value := String.ofList (← decodeValue raw)
    match declared name value with
    | some (qualifier, space) =>
      if mayDeclare own qualifier space then divide (declare own qualifier space) rest else none
    | none =>
      let (scope, others) ← divide own rest
      pure (scope, (name, value) :: others)

/-- The name space of an attribute; one without a qualifier is in none. -/
def spaceOf (scope : Scope) (name : QName) : Option (Option String) :=
  if name.qualifier = "" then some none
  else if name.qualifier = "xml" then some (some xmlSpace)
  else (scope.lookup name.qualifier).map some

/-- Whether an element may have a name: its qualifier is in force and not one of the reserved. -/
def isElementName (scope : Scope) (name : QName) : Bool :=
  name.qualifier = "" || (name.qualifier ≠ "xmlns" && (scope.lookup name.qualifier).isSome)

/-- The attributes under their local names. No two may agree in name space and local name. -/
def localAttributes (scope : Scope) (seen : List (Option String × String)) :
    List (QName × String) → Option (List (String × String))
  | [] => some []
  | (name, value) :: rest => do
    let full := (← spaceOf scope name, name.base)
    if seen.contains full then none
    (localAttributes scope (full :: seen) rest).map ((name.base, value) :: ·)

/-- An element whose end has not been reached; the children come last one first. -/
structure OpenElement where
  name : QName
  attributes : List (String × String)
  scope : Scope
  children : List Node

def OpenElement.push (e : OpenElement) (node : Node) : OpenElement :=
  { e with children := node :: e.children }

def OpenElement.close (e : OpenElement) : Node :=
  .element e.name.base e.attributes e.children.reverse

/-- An element begins inside `outer`. The qualifiers of its own name and of its attributes must be
in force. -/
def OpenElement.start (outer : Scope) (name : QName) (attributes : List (QName × List Char)) :
    Option OpenElement := do
  let (own, others) ← divide [] attributes
  let scope := own ++ outer
  if !isElementName scope name then none
  pure ⟨name, ← localAttributes scope [] others, scope, []⟩

/-- The tree that tokens spell. The first argument holds the open elements, innermost first; around
the root there may only be white space, comments and instructions. -/
def assemble : List OpenElement → Option Node → List Token → Option Node
  | [], root, [] => root
  | _ :: _, _, [] => none
  | [], root, token :: rest =>
    match token with
    | .openTag name attributes isEmpty =>
      if root.isSome then none
      else do
        let e ← OpenElement.start [] name attributes
        if isEmpty then assemble [] (some e.close) rest else assemble [e] none rest
    | .text raw => if raw.all isSpace then assemble [] root rest else none
    | .comment _ | .instruction _ _ => assemble [] root rest
    | .closeTag _ | .cdata _ => none
  | e :: outer, root, token :: rest =>
    match token with
    | .openTag name attributes isEmpty => do
      let inner ← OpenElement.start e.scope name attributes
      if isEmpty then assemble (e.push inner.close :: outer) root rest
      else assemble (inner :: e :: outer) root rest
    | .closeTag name =>
      if name = e.name then
        match outer with
        | [] => assemble [] (some e.close) rest
        | parent :: outer => assemble (parent.push e.close :: outer) root rest
      else none
    | .text raw => do
      let s ← decodeText raw
      assemble (e.push (.text (String.ofList s)) :: outer) root rest
    | .cdata raw =>
      assemble (e.push (.cdata (String.ofList (decodeSection raw))) :: outer) root rest
    | .comment raw => assemble (e.push (.comment (String.ofList raw)) :: outer) root rest
    | .instruction target content =>
      let instruction := .instruction (String.ofList target) (String.ofList content)
      assemble (e.push instruction :: outer) root rest

/-- A byte order mark in front of a document is not part of it. -/
def dropMark : List Char → List Char
  | '\uFEFF' :: cs => cs
  | cs => cs

/-- The root element of a well-formed document. There are no document type declarations, and no
entities but the five that every document has. -/
def read (source : String) : Option Node := do
  let cs := dropMark source.toList
  if !cs.all isXmlChar then none
  assemble [] none (← tokens (← skipDeclaration cs))

end ChatForms.Xml
