import ChatForms.Attributes

namespace ChatForms

/-- An element of a message without its links. Text elements have a text, the others have none. -/
structure Element where
  kind : Kind
  attributes : Attributes
  text : Option String
  origin : Origin
deriving DecidableEq

namespace Element

def ofText (s : String) (origin : Origin) : Element := ⟨.text, .empty, some s, origin⟩

def attribute? (e : Element) (name : String) : Option String := e.attributes.get? name

/-- The value that holds for an attribute: the stored one, else the default of the contract. -/
def effective? (e : Element) (name : String) : Option String :=
  (e.attribute? name).or ((e.kind.contract.rule? name >>= (·.default)).map (·.value))

def forgetOrigin (e : Element) : Element := { e with origin := .author }

end Element

/-- An element with all that stands below it. -/
inductive Tree where
  | node (element : Element) (children : List Tree)

instance : Inhabited Tree := ⟨.node ⟨.message, .empty, none, .author⟩ []⟩

namespace Tree

def element : Tree → Element
  | node element _ => element

def children : Tree → List Tree
  | node _ children => children

mutual
def textContent : Tree → String
  | node element children => element.text.getD (textContents children)
def textContents : List Tree → String
  | [] => ""
  | t :: ts => t.textContent ++ textContents ts
end

end Tree
end ChatForms
