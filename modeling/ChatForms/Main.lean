import ChatForms.Command.Run

namespace ChatForms.Program

def fileFault (e : IO.Error) : FileFault :=
  match e with
  | .noFileOrDirectory .. => .notFound
  | .inappropriateType .. => .isDirectory
  | e => .other e.toString

def readFile (path : String) : IO (Except FileFault ByteArray) := do
  try
    let bytes ← IO.FS.readBinFile path
    pure (.ok bytes)
  catch e => pure (.error (fileFault e))

def fail (f : Command.Failure) : IO UInt32 := do
  IO.eprintln f.message
  pure 1

def finish (e : Command.Effect) : IO UInt32 := do
  match e with
  | .print text =>
    IO.print text
    pure 0
  | .write output text =>
    try
      IO.FS.writeFile output text
      pure 0
    catch e => fail (.unwritable output (fileFault e))

/-- All files that may matter are read first; what follows from them is settled without reading
any more. -/
def perform (i : Invocation) : IO UInt32 := do
  let found ← i.inputs.mapM fun path => do pure (path, ← readFile path)
  match i.perform fun path => (found.lookup path).getD (.error .notFound) with
  | .ok e => finish e
  | .error f => fail f

def usage : String :=
  "Usage: mml [--config PATH] [--set KEY=VALUE]... [--list-formats] [COMMAND]\n\n" ++
    "Commands:\n" ++
    "  convert INPUT [--from FORMAT] [--to FORMAT] [-o FILE]\n" ++
    "  validate INPUT [--from FORMAT]\n" ++
    "  inspect INPUT [--from FORMAT] [--json]\n"

def run (args : List String) : IO UInt32 := do
  match Arguments.read args with
  | some (.run i) => perform i
  | some .version =>
    IO.print Directory.versionText
    pure 0
  | none =>
    IO.eprint usage
    pure 2

end ChatForms.Program

def main (args : List String) : IO UInt32 := ChatForms.Program.run args
