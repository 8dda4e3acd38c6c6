import ChatForms.Command.Arguments
import ChatForms.Command.Directory
import ChatForms.Inspection
import ChatForms.Registry
import ChatForms.Settings.Layers

namespace ChatForms

namespace Command

/-- Why a command came to nothing. -/
inductive Failure where
  | noCommand
  | malformedAssignment (assignment : String)
  | rejectedAssignment (assignment : String)
  | settings (fault : Settings.LoadFault)
  | undetectable (input : String)
  | format (fault : FormatFault)
  | unreadable (input : String) (fault : FileFault)
  | unserializable (fault : FormatFault)
  | unwritable (output : String) (fault : FileFault)
deriving DecidableEq, Repr

/-- Why a key is no path, and why no settings could be loaded, is told by a short text only; the
full account is left out. -/
def Failure.message : Failure → String
  | noCommand => "Unknown subcommand. Use --help for usage information."
  | malformedAssignment assignment =>
    "Invalid --set '" ++ assignment ++ "': expected KEY=VALUE"
  | rejectedAssignment assignment =>
    "Invalid --set '" ++ assignment ++ "': the key is not a path"
  | settings fault => "Failed to load configuration: " ++ fault.message
  | undetectable input =>
    "Error: Could not detect format from filename '" ++ input ++
      "'\nPlease specify --from explicitly"
  | format fault => "Error: " ++ fault.message
  | unreadable input fault => "Error reading file '" ++ input ++ "': " ++ fault.message
  | unserializable fault => "Serialization error: " ++ fault.message
  | unwritable output fault => "Error writing file '" ++ output ++ "': " ++ fault.message

/-- What a command does in the end: it prints a text, or it writes one to a file. -/
inductive Effect where
  | print (text : String)
  | write (output text : String)
deriving DecidableEq, Repr

/-- How files are read. -/
abbrev Reader := String → Except FileFault ByteArray

def localSettings : String := "messageml.toml"

def settingsExtension : String := ".toml"

/-- The paths under which a settings file is looked for: as given, and with its extension added. -/
def settingsPaths (path : String) : List String :=
  path :: (FileName.append? path settingsExtension).toList

/-- The text of the first of these files that is there. -/
def readSettings (files : Reader) (path : String) : Option String :=
  ((settingsPaths path).findSome? fun p => (files p).toOption) >>= String.fromUTF8?

/-- One assignment, a key and a text with an equals sign between them. -/
def assign (layers : Settings.Layers) (assignment : String) : Except Failure Settings.Layers :=
  match Text.cut? '=' assignment with
  | none => .error (.malformedAssignment assignment)
  | some (key, value) =>
    match layers.assign? (Text.trim key) (.string (Text.trim value)) with
    | some layers => .ok layers
    | none => .error (.rejectedAssignment assignment)

/-- The settings of a run: the local file, if there is one, then the file that was asked for, then
the assignments. -/
def settings (files : Reader) (i : Invocation) : Except Failure Settings := do
  let base := Settings.Layers.empty.addFile false (readSettings files localSettings)
  let filed := match i.settingsFile with
    | some path => base.addFile true (readSettings files path)
    | none => base
  let layers ← i.assignments.foldlM assign filed
  layers.load.mapError .settings

def sourceFormat (input : String) (source : Option String) : Except Failure String :=
  match source.or (Registry.standard.detect? input) with
  | some name => .ok name
  | none => .error (.undetectable input)

/-- The format asked for, else the one that the output file points to, else the usual one. -/
def targetFormat (s : Settings) (target output : Option String) : String :=
  (target.or (output >>= Registry.standard.detect?)).getD s.defaultTarget

/-- The document in a file. The format is looked up before the file is read. -/
def loadDocument (files : Reader) (s : Settings) (input source : String) :
    Except Failure Document := do
  let _ ← (Registry.standard.get source).mapError .format
  let bytes ← (files input).mapError (.unreadable input)
  match String.fromUTF8? bytes with
  | some text => (Registry.standard.parse s.containment text source).mapError .format
  | none => throw (.unreadable input .notText)

def effect (files : Reader) (s : Settings) : Command → Except Failure Effect
  | convert input source target output => do
    let source ← sourceFormat input source
    let target := targetFormat s target output
    let _ ← (Registry.standard.get target).mapError .format
    let d ← loadDocument files s input source
    let text ← (Registry.standard.serialize d target).mapError .unserializable
    match output with
    | some path => pure (.write path text)
    | none => pure (.print text)
  | validate input source => do
    let source ← sourceFormat input source
    let _ ← loadDocument files s input source
    pure (.print "")
  | inspect input source json => do
    let source ← sourceFormat input source
    let d ← loadDocument files s input source
    pure (.print (if json then d.json s.prettyJson else d.treeView))

/-- Spaces are added at the end up to a width. -/
def padRight (width : Nat) (s : String) : String :=
  s ++ String.ofList (List.replicate (width - s.length) ' ')

def formatLine (f : Format) : String :=
  let directions :=
    (if f.parses then ["parse"] else []) ++ (if f.serializes then ["serialize"] else [])
  "  " ++ padRight 16 f.name ++ padRight 18 ("+".intercalate directions) ++ f.description ++ "\n"

def formatList : String :=
  "Available formats:\n\n" ++
    String.join (Registry.standard.formats.entries.map fun f => formatLine f.2)

end Command

namespace Invocation

/-- Formats are listed whatever else is asked for, and settings are loaded before a command is
looked for. -/
def perform (files : Command.Reader) (i : Invocation) : Except Command.Failure Command.Effect := do
  if i.listFormats then pure (.print Command.formatList)
  else
    let s ← Command.settings files i
    match i.command with
    | some c => c.effect files s
    | none => throw .noCommand

/-- The paths of all files that may be read. -/
def inputs (i : Invocation) : List String :=
  Command.settingsPaths Command.localSettings ++
    (i.settingsFile.map Command.settingsPaths).getD [] ++
    match i.command with
    | some (.convert input ..) | some (.validate input _) | some (.inspect input ..) => [input]
    | none => []

end Invocation
end ChatForms
