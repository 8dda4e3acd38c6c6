import ChatForms.Build
import ChatForms.FormatFault
import ChatForms.Markdown
import ChatForms.Presentation
import ChatForms.TreeView

namespace ChatForms

/-- The document that a text stands for. -/
def Document.parse (rules : Containment) (source : String) : Except FormatFault Document :=
  match Markup.read source with
  | some m => (Document.build rules m).mapError .invalid
  | none => .error .notWellFormed

/-- A way to write documents, with the file extensions that point to it. What it does not define it
refuses in its own name. -/
structure Format where
  name : String
  description : String := ""
  extensions : List String := []
  parses : Bool := false
  serializes : Bool := false
  parse : Containment → String → Except FormatFault Document :=
    fun _ _ => .error (.notSupported name .parsing)
  serialize : Document → Except FormatFault String :=
    fun _ => .error (.notSupported name .serialization)

namespace Format

instance : Inhabited Format := ⟨{ name := "" }⟩

def messageMl : Format where
  name := "messageml"
  description := "MessageML author markup"
  extensions := ["mml", "messageml", "xml"]
  parses := true
  parse := Document.parse

/-- The same parser serves both kinds of markup, since a message may mix them. -/
def presentationMl : Format where
  name := "presentationml"
  description := "Canonical presentation markup rendered by chat clients"
  extensions := ["pml", "html"]
  parses := true
  serializes := true
  parse := Document.parse
  serialize d := .ok d.presentationMl

def markdown : Format where
  name := "markdown"
  description := "Plain-text form summary for clients without form support"
  extensions := ["md", "markdown"]
  serializes := true
  serialize d := .ok d.markdown

def treeView : Format where
  name := "treeviz"
  description := "Visual tree of the validated elements"
  extensions := ["tree", "treeviz"]
  serializes := true
  serialize d := .ok d.treeView

def standard : List Format := [messageMl, presentationMl, markdown, treeView]

end Format
end ChatForms
