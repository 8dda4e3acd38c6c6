import ChatForms.Fault

namespace ChatForms

/-- The two ways through a format: from text to a document, and from a document to text. -/
inductive Direction where
  | parsing | serialization
deriving DecidableEq, Repr

def Direction.label : Direction → String
  | parsing => "parsing"
  | serialization => "serialization"

/-- Why a format did not do what it was asked for. Where and how a text is not well-formed is left
out. -/
inductive FormatFault where
  | notFound (name : String)
  | notWellFormed
  | invalid (fault : Fault)
  | notSupported (name : String) (direction : Direction)
deriving DecidableEq, Repr

namespace FormatFault

/-- For a text that is not well-formed the message ends before the account of place and cause. -/
def message : FormatFault → String
  | notFound name => "Format '" ++ name ++ "' not found"
  | notWellFormed => "Parse error: XML parsing error"
  | invalid fault => fault.message
  | notSupported name direction =>
    "Operation not supported: Format '" ++ name ++ "' does not support " ++ direction.label

end FormatFault
end ChatForms
