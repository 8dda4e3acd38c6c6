import ChatForms.Command.Run
import ChatForms.Proofs.Command.Directory

namespace ChatForms

namespace Command

/-- The settings of a run, and the document that its input holds. -/
structure Loads (files : Reader) (settingsFile : Option String) (assignments : List String)
    (input : String) (source : Option String) (s : Settings) (d : Document) : Prop where
  settings : Command.settings files ⟨false, settingsFile, assignments, none⟩ = .ok s
  built : ∃ format bytes text, source.or (Registry.standard.detect? input) = some format ∧
    files input = .ok bytes ∧ String.fromUTF8? bytes = some text ∧
    Registry.standard.parse s.containment text format = .ok d

variable {files : Reader} {settingsFile : Option String} {assignments : List String}
  {input : String} {source : Option String}

/-- The settings are loaded before the document is. -/
def load (files : Reader) (settingsFile : Option String) (assignments : List String)
    (input : String) (source : Option String) : Except Failure (Settings × Document) := do
  let s ← settings files ⟨false, settingsFile, assignments, none⟩
  let format ← sourceFormat input source
  let d ← loadDocument files s input format
  pure (s, d)

end Command

namespace Directory
open Command

/-- A form without a name, and a file that it might be written to. -/
def draft : Directory :=
  .ofFiles [("form.mml", "<messageML><form/></messageML>".toUTF8), ("out.md", "old".toUTF8)]

end Directory
end ChatForms
