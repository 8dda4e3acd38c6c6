import ChatForms.Document
import ChatForms.Markup.Writer
import ChatForms.Recognition

namespace ChatForms

/-- The stored attributes of some names, in the order of the names. -/
def Element.pick (e : Element) (names : List String) : List (String × String) :=
  names.filterMap fun name => (e.attribute? name).map fun value => (name, value)

namespace Presentation

def buttonNames : List String := ["type", "class", "name", "id"]

def checkboxNames : List String := ["name", "checked", "value"]

/-- A checkbox with its label around it. One without any label, not even an empty one, stands
alone. -/
def checkboxMarkup (e : Element) (labels : List Tree) : Markup :=
  let input := Markup.element "input" (("type", "checkbox") :: e.pick checkboxNames) []
  if labels.isEmpty then input
  else .element "div" [("class", groupClass)]
    [input, .element "label" [] [.text (Tree.textContents labels)]]

mutual
/-- The markup by which clients show an element. -/
def markup : Tree → List Markup
  | .node e children =>
    match e.kind with
    | .message => markups children
    | .form => [.element "form" (e.pick ["id"]) (markups children)]
    | .div => [.element "div" (e.pick ["class"]) (markups children)]
    | .button => [.element "button" (e.pick buttonNames) [.text (Tree.textContents children)]]
    | .checkbox => [checkboxMarkup e children]
    | .personSelector => [.element "div" [("class", selectorClass)] []]
    | .text => [.text (e.text.getD "")]
def markups : List Tree → List Markup
  | [] => []
  | t :: ts => markup t ++ markups ts
end

/-- The markup of a whole message. An empty text keeps the two tags of the envelope apart. -/
def envelope (t : Tree) : Markup :=
  .element "div" [(formatAttribute, formatName), (versionAttribute, version)]
    (.text "" :: markups t.children)

end Presentation

/-- The one PresentationML text of a document. -/
def Document.presentationMl (d : Document) : String := (Presentation.envelope d.tree).write

end ChatForms
