import ChatForms.FileName
import ChatForms.Format
import ChatForms.StringMap

namespace ChatForms

/-- The formats that are known, each under its name. -/
structure Registry where
  formats : StringMap Format

namespace Registry

def empty : Registry := ⟨.empty⟩

/-- A format takes the place of an earlier one with its name. -/
def register (r : Registry) (f : Format) : Registry := ⟨r.formats.insert f.name f⟩

def standard : Registry := Format.standard.foldl register empty

def names (r : Registry) : List String := r.formats.keys

def has (r : Registry) (name : String) : Bool := (r.formats.get? name).isSome

def get (r : Registry) (name : String) : Except FormatFault Format :=
  match r.formats.get? name with
  | some f => .ok f
  | none => .error (.notFound name)

/-- The format that the extension of a file name points to. -/
def detect? (r : Registry) (fileName : String) : Option String := do
  let extension ← FileName.extension? fileName
  let f ← (r.formats.entries.map (·.2)).find? fun f => f.extensions.contains extension
  pure f.name

/-- Reads a document in a format, provided that it says it can be read. -/
def parse (r : Registry) (rules : Containment) (source name : String) :
    Except FormatFault Document := do
  let f ← r.get name
  if f.parses then f.parse rules source else throw (.notSupported name .parsing)

/-- Writes a document in a format, provided that it says it can be written. -/
def serialize (r : Registry) (d : Document) (name : String) : Except FormatFault String := do
  let f ← r.get name
  if f.serializes then f.serialize d else throw (.notSupported name .serialization)

end Registry
end ChatForms
