namespace ChatForms

/-- What an element of a message is. -/
inductive Kind where
  | message | form | div | button | checkbox | personSelector | text
deriving DecidableEq, Repr

namespace Kind

def all : List Kind := [message, form, div, button, checkbox, personSelector, text]

/-- The elements that ask for an answer. -/
def fields : List Kind := [button, checkbox, personSelector]

def isField (k : Kind) : Bool := fields.contains k

/-- Text has no tag in markup; its name here cannot be one. -/
def tag : Kind → String
  | message => "messageML"
  | form => "form"
  | div => "div"
  | button => "button"
  | checkbox => "checkbox"
  | personSelector => "person-selector"
  | text => "#text"

def displayName : Kind → String
  | message => "MessageML"
  | form => "Form"
  | div => "Div"
  | button => "Button"
  | checkbox => "Checkbox"
  | personSelector => "Person Selector"
  | text => "Text"

/-- The name under which an element is listed in data. -/
def label : Kind → String
  | message => "message-ml"
  | form => "form"
  | div => "div"
  | button => "button"
  | checkbox => "checkbox"
  | personSelector => "person-selector"
  | text => "text"

/-- The element that an author writes with a tag. -/
def ofTag? (tag : String) : Option Kind :=
  [message, form, div, button, checkbox, personSelector].find? fun k => k.tag = tag

def ofLabel? (label : String) : Option Kind := all.find? fun k => k.label = label

theorem mem_all (k : Kind) : k ∈ all := by cases k <;> decide

end Kind

/-- The two ways to write a message: as its author does, or as clients render it. -/
inductive Origin where
  | author | presentation
deriving DecidableEq, Repr

def Origin.label : Origin → String
  | author => "author"
  | presentation => "presentation"

def Origin.ofLabel? (label : String) : Option Origin :=
  [author, presentation].find? fun o => o.label = label

/-- How far up a required container may be: the parent, or any ancestor. -/
inductive Policy where
  | direct | transitive
deriving DecidableEq, Repr

def Policy.label : Policy → String
  | direct => "direct"
  | transitive => "transitive"

def Policy.ofLabel? (label : String) : Option Policy :=
  [direct, transitive].find? fun p => p.label = label

end ChatForms
