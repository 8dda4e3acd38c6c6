import ChatForms.Command.Perform

namespace ChatForms

/-- What a run of the program leaves behind. -/
structure Outcome where
  exitCode : Nat
  stdout : String
  stderr : String
  directory : Directory

namespace Outcome

/-- What is wrong with the arguments, and how they should be given, is left out. -/
def usageError (d : Directory) : Outcome := ⟨2, "", "", d⟩

def failure (d : Directory) (f : Command.Failure) : Outcome := ⟨1, "", f.message ++ "\n", d⟩

/-- A file is written only in the end, when nothing else can fail any more. -/
def ofEffect (d : Directory) : Command.Effect → Outcome
  | .print text => ⟨0, text, "", d⟩
  | .write output text =>
    match d.write output text.toUTF8 with
    | .ok written => ⟨0, "", "", written⟩
    | .error fault => failure d (.unwritable output fault)

end Outcome

namespace Directory

def versionText : String := "mml 0.1.0\n"

def perform (d : Directory) (i : Invocation) : Outcome :=
  match i.perform d.read with
  | .ok e => .ofEffect d e
  | .error f => .failure d f

/-- A run of the program in a directory. -/
def run (d : Directory) (args : List String) : Outcome :=
  match Arguments.read args with
  | none => .usageError d
  | some .version => ⟨0, versionText, "", d⟩
  | some (.run i) => d.perform i

end Directory
end ChatForms
