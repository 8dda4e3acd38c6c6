import ChatForms.Kind

namespace ChatForms

/-- How the allowed values are listed in a message. -/
inductive ValueStyle where
  | prose | bracketed
deriving DecidableEq, Repr

/-- A defect of a message. It names the element concerned by its tag. -/
inductive Fault where
  | unknownAttribute (tag name : String)
  | attributesNotAllowed (tag : String)
  | invalidAttributeValue (tag name : String) (allowed : List String) (style : ValueStyle)
  | missingRequiredAttribute (tag name : String) (condition : Option String)
  | illegalContainment (tag container : String) (policy : Policy)
  | nestedElement (tag : String)
  | rootOnly (tag : String)
  | invalidRoot (tag : String)
  | unknownElement (tag : String)
  | elementNotAllowed (tag child : String)
  | contentNotAllowed (tag : String)
  | missingText (tag : String)
  | fragmentedText (tag : String)
  | invalidPresentation (tag : String)
deriving DecidableEq, Repr

namespace Fault

inductive Category where
  | unknownAttribute | invalidAttributeValue | missingRequiredAttribute | illegalContainment
  | illegalContent
deriving DecidableEq, Repr

def category : Fault → Category
  | unknownAttribute .. | attributesNotAllowed .. => .unknownAttribute
  | invalidAttributeValue .. => .invalidAttributeValue
  | missingRequiredAttribute .. => .missingRequiredAttribute
  | illegalContainment .. | nestedElement .. | rootOnly .. | invalidRoot .. => .illegalContainment
  | unknownElement .. | elementNotAllowed .. | contentNotAllowed .. | missingText ..
  | fragmentedText .. | invalidPresentation .. => .illegalContent

def quoted (s : String) : String := "\"" ++ s ++ "\""

/-- Alternatives with commas between them and "or" before the last. -/
def disjunction : List String → String
  | [] => ""
  | [s] => s
  | [s, t] => s ++ " or " ++ t
  | s :: rest => s ++ ", " ++ disjunction rest

/-- The text that authors of messages read. -/
def message : Fault → String
  | unknownAttribute tag name => "Attribute " ++ quoted name ++ " is not allowed in " ++ quoted tag
  | attributesNotAllowed tag => "Element " ++ quoted tag ++ " may not have attributes"
  | invalidAttributeValue _ name allowed .prose =>
    "Attribute " ++ quoted name ++ " must be " ++ disjunction (allowed.map quoted)
  | invalidAttributeValue tag name allowed .bracketed =>
    "Attribute " ++ quoted name ++ " of element " ++ quoted tag ++
      " can only be one of the following values: [" ++ ", ".intercalate allowed ++ "]."
  | missingRequiredAttribute _ name (some condition) =>
    "Attribute " ++ quoted name ++ " is required for " ++ condition
  | missingRequiredAttribute _ name none => "The attribute " ++ quoted name ++ " is required"
  | illegalContainment tag container policy =>
    "Element " ++ quoted tag ++ " can only be a " ++
      (match policy with | .direct => "" | .transitive => "inner ") ++
      "child of the following elements: [" ++ container ++ "]"
  | nestedElement tag =>
    "Element " ++ quoted tag ++ " cannot be nested inside another " ++ quoted tag
  | rootOnly tag => "Element " ++ quoted tag ++ " can only be used as the document root"
  | invalidRoot tag =>
    "Invalid root element " ++ quoted tag ++ ": expected \"messageML\" or a PresentationML envelope"
  | unknownElement tag => "Invalid MessageML content at element " ++ quoted tag
  | elementNotAllowed tag child =>
    "Element " ++ quoted child ++ " is not allowed in " ++ quoted tag
  | contentNotAllowed tag =>
    "Element " ++ quoted tag ++ " may not have child elements or text content"
  | missingText tag => "Element " ++ quoted tag ++ " must have a text label"
  | fragmentedText tag => "Element " ++ quoted tag ++ " must have a single text label"
  | invalidPresentation tag => "Invalid PresentationML for the " ++ quoted tag ++ " element"

end Fault
end ChatForms
