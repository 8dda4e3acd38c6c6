import ChatForms.Document
import ChatForms.Json

namespace ChatForms

namespace Inspection

def attributesMember (attributes : Attributes) : List (String × Json) :=
  if attributes.isEmpty then []
  else [("attributes", .record (attributes.entries.map fun a => (a.1, .string a.2)))]

def textMember (text : Option String) : List (String × Json) :=
  text.toList.map fun s => ("text", .string s)

mutual
/-- The tree as data; what an element does not have is left out. -/
def data : Tree → Json
  | .node e children =>
    .record ([("kind", .string e.kind.label)] ++ attributesMember e.attributes ++
      textMember e.text ++ [("origin", .string e.origin.label)] ++
      if children.isEmpty then [] else [("children", .list (dataAll children))])
def dataAll : List Tree → List Json
  | [] => []
  | t :: ts => data t :: dataAll ts
end

end Inspection

/-- The document as data in one line or, if `pretty`, in many. -/
def Document.json (d : Document) (pretty : Bool) : String :=
  let data := Inspection.data d.tree
  (if pretty then data.pretty 0 else data.compact) ++ "\n"

end ChatForms
