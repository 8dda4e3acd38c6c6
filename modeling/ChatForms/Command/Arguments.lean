import ChatForms.Text.Split

namespace ChatForms

/-- What is to be done with an input file. -/
inductive Command where
  | convert (input : String) (source target output : Option String)
  | validate (input : String) (source : Option String)
  | inspect (input : String) (source : Option String) (json : Bool)
deriving DecidableEq, Repr

/-- A command with what was said about all commands. Without a command only formats can be
listed. -/
structure Invocation where
  listFormats : Bool
  settingsFile : Option String
  assignments : List String
  command : Option Command
deriving DecidableEq, Repr

/-- What the arguments of the program ask for. -/
inductive Request where
  | version
  | run (i : Invocation)
deriving DecidableEq, Repr

namespace Arguments

inductive Switch where
  | listFormats | settingsFile | assignment | source | target | output | json
deriving DecidableEq, Repr

namespace Switch

def name : Switch → String
  | listFormats => "list-formats"
  | settingsFile => "config"
  | assignment => "set"
  | source => "from"
  | target => "to"
  | output => "output"
  | json => "json"

def letter? : Switch → Option Char
  | output => some 'o'
  | _ => none

def takesValue : Switch → Bool
  | listFormats | json => false
  | _ => true

def isRepeatable (s : Switch) : Bool := s = assignment

/-- The switches that stand before a command as well as after it. -/
def shared : List Switch := [listFormats, settingsFile, assignment]

end Switch

/-- A switch with its value, which is empty for one that takes none. -/
abbrev Given := List (Switch × String)

/-- What the next arguments are. -/
inductive Piece where
  | switch (s : Switch) (value : String)
  | word (w : String)
  | separator
  | version

def beginsWithHyphen (arg : String) : Bool := arg.toList.head? = some '-'

/-- A single hyphen is a word like any other. -/
def isSwitchLike (arg : String) : Bool := beginsWithHyphen arg && arg ≠ "-"

/-- The value of a switch: the one attached to it, or else the next argument. -/
def readValue (s : Switch) (attached : Option String) (rest : List String) :
    Option (Piece × List String) :=
  match s.takesValue, attached, rest with
  | true, some value, rest => some (.switch s value, rest)
  | true, none, value :: rest =>
    if isSwitchLike value then none else some (.switch s value, rest)
  | true, none, [] => none
  | false, none, rest => some (.switch s "", rest)
  | false, some _, _ => none

def readLong (allowed : List Switch) (isOuter : Bool) (body : String) (rest : List String) :
    Option (Piece × List String) := do
  let (name, attached) := match Text.cut? '=' body with
    | some (name, value) => (name, some value)
    | none => (body, none)
  if isOuter && name = "version" then
    if attached.isSome then none else pure (.version, rest)
  else
    let s ← allowed.find? fun s => s.name = name
    readValue s attached rest

/-- After its letter a switch may have its value at once, with an equals sign or without. -/
def readShort (allowed : List Switch) (isOuter : Bool) (letter : Char) (body : List Char)
    (rest : List String) : Option (Piece × List String) := do
  if isOuter && letter = 'V' then pure (.version, rest)
  else
    let s ← allowed.find? fun s => s.letter? = some letter
    readValue s
      (match body with
        | [] => none
        | '=' :: value => some (String.ofList value)
        | value => some (String.ofList value))
      rest

def readPiece (allowed : List Switch) (isOuter : Bool) (arg : String) (rest : List String) :
    Option (Piece × List String) :=
  match arg.toList with
  | ['-', '-'] => some (.separator, rest)
  | '-' :: '-' :: body => readLong allowed isOuter (String.ofList body) rest
  | '-' :: letter :: body => readShort allowed isOuter letter body rest
  | _ => some (.word arg, rest)

/-- The arguments of a command: switches and words in any order, and only words after a
separator. -/
def readCommand (allowed : List Switch) : Nat → List String → Option (Given × List String)
  | _, [] => some ([], [])
  | 0, _ => none
  | n + 1, arg :: rest => do
    match ← readPiece allowed false arg rest with
    | (.switch s value, rest) => do
      let (given, words) ← readCommand allowed n rest
      pure ((s, value) :: given, words)
    | (.word w, rest) => do
      let (given, words) ← readCommand allowed n rest
      pure (given, w :: words)
    | (.separator, rest) => pure ([], rest)
    | (.version, _) => none

def values (given : Given) (s : Switch) : List String :=
  given.filterMap fun g => if g.1 = s then some g.2 else none

def value? (given : Given) (s : Switch) : Option String := (values given s).head?

def has (given : Given) (s : Switch) : Bool := (value? given s).isSome

/-- Only assignments may be given more than once. -/
def isConsistent (given : Given) : Bool :=
  given.all fun g => g.1.isRepeatable || (values given g.1).length ≤ 1

/-- The names of the commands and the switches that each takes besides the shared ones. -/
def commandSwitches? : String → Option (List Switch)
  | "convert" => some [.source, .target, .output]
  | "validate" => some [.source]
  | "inspect" => some [.source, .json]
  | _ => none

def command (name input : String) (given : Given) : Command :=
  if name = "convert" then
    .convert input (value? given .source) (value? given .target) (value? given .output)
  else if name = "validate" then .validate input (value? given .source)
  else .inspect input (value? given .source) (has given .json)

/-- Files and assignments given after the name of a command replace those given before it. -/
def invocation (outer inner : Given) (command : Option Command) : Invocation where
  listFormats := has outer .listFormats || has inner .listFormats
  settingsFile := (value? inner .settingsFile).or (value? outer .settingsFile)
  assignments := values (if has inner .assignment then inner else outer) .assignment
  command := command

/-- A command takes exactly one word, its input. -/
def readNamed (outer : Given) (name : String) (args : List String) : Option Request := do
  let own ← commandSwitches? name
  let (inner, words) ← readCommand (Switch.shared ++ own) args.length args
  match words with
  | [input] =>
    if isConsistent inner then
      pure (.run (invocation outer inner (some (command name input inner))))
    else none
  | _ => none

/-- The arguments up to the name of a command. Without one at least a switch has to be given. -/
def readOuter (given : Given) : Nat → List String → Option Request
  | _, [] => if given.isEmpty then none else some (.run (invocation given [] none))
  | 0, _ => none
  | n + 1, arg :: rest => do
    match ← readPiece Switch.shared true arg rest with
    | (.switch s value, rest) =>
      let given := given ++ [(s, value)]
      if isConsistent given then readOuter given n rest else none
    | (.word name, rest) => readNamed given name rest
    | (.separator, rest) => if rest.isEmpty then readOuter given n [] else none
    | (.version, _) => pure .version

def readDirect (args : List String) : Option Request := readOuter [] args.length args

/-- Words that cannot be the input of a conversion without a command. -/
def reserved : List String := ["convert", "validate", "inspect", "help"]

/-- Arguments that make no sense are taken as those of a conversion if they begin with a word. -/
def read (args : List String) : Option Request :=
  (readDirect args).or <|
    match args with
    | first :: _ =>
      if beginsWithHyphen first || reserved.contains first then none
      else readDirect ("convert" :: args)
    | [] => none

end Arguments
end ChatForms
