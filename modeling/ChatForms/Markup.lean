import ChatForms.Text.Blank
import ChatForms.Xml.Document

namespace ChatForms

/-- Markup as it was written, before anything is known about its meaning: tags with their attributes
in order, and text. -/
inductive Markup where
  | element (tag : String) (attributes : List (String × String)) (children : List Markup)
  | text (s : String)
deriving Inhabited

namespace Markup

def tag? : Markup → Option String
  | element tag _ _ => some tag
  | text _ => none

def attributes : Markup → List (String × String)
  | element _ attributes _ => attributes
  | text _ => []

def children : Markup → List Markup
  | element _ _ children => children
  | text _ => []

/-- The first attribute of a name counts. -/
def attribute? (m : Markup) (name : String) : Option String := m.attributes.lookup name

def without (names : List String) (attributes : List (String × String)) : List (String × String) :=
  attributes.filter fun a => !names.contains a.1

def classes (m : Markup) : List String := ((m.attribute? "class").map Text.words).getD []

def hasClass (m : Markup) (name : String) : Bool := m.classes.contains name

def isBlankText : Markup → Bool
  | element .. => false
  | text s => Text.isBlank s

mutual
/-- All text inside, in order. -/
def textContent : Markup → String
  | text s => s
  | element _ _ children => textContents children
def textContents : List Markup → String
  | [] => ""
  | m :: ms => m.textContent ++ textContents ms
end

/-- A run of character data is one text, and none at all when it is blank. -/
def run (s : String) : List Markup := if Text.isBlank s then [] else [text s]

mutual
def ofElement : Xml.Node → List Markup
  | .element name attributes content => [element name attributes (ofContent "" content)]
  | _ => []
/-- The children that document content stands for; `pending` is the character data since the last
tag. Comments and instructions do not end a run. -/
def ofContent (pending : String) : List Xml.Node → List Markup
  | [] => run pending
  | n :: rest =>
    match n.characters? with
    | some s => ofContent (pending ++ s) rest
    | none => run pending ++ ofElement n ++ ofContent "" rest
end

/-- The markup of a document, if its root is an element. -/
def ofXml? (root : Xml.Node) : Option Markup := (ofElement root).head?

/-- The markup that a well-formed source text holds. -/
def read (source : String) : Option Markup := Xml.read source >>= ofXml?

end Markup
end ChatForms
