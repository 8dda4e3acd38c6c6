namespace ChatForms.Xml

/-- A document tree. Names are local names; declarations of name spaces are not attributes. -/
inductive Node where
  | element (name : String) (attributes : List (String × String)) (children : List Node)
  | text (s : String)
  | cdata (s : String)
  | comment (s : String)
  | instruction (target content : String)

/-- The character data that a piece of content adds; elements are no character data. -/
def Node.characters? : Node → Option String
  | element .. => none
  | text s | cdata s => some s
  | comment _ | instruction .. => some ""

end ChatForms.Xml
