/-!
# Command lines

This module reads the arguments of a command line into a command.  An option may stand before or
after the argument of its command; one with a value takes it from behind an equals sign or from the
next argument, and one with a letter may be joined with others.  Behind `--` nothing is an option.
-/

namespace DesignPages
namespace CommandLine

/-- The options of the command lines. -/
inductive Flag where
  | verbose
  | quiet
  | out
  | json
  | config
  | title
  | noTailwind
  | help
  | version
  deriving DecidableEq, Repr

namespace Flag

/-- Every option. -/
def all : List Flag :=
  [verbose, quiet, out, json, config, title, noTailwind, help, version]

/-- The name of an option behind two dashes. -/
def name : Flag → String
  | verbose => "verbose"
  | quiet => "quiet"
  | out => "out"
  | json => "json"
  | config => "config"
  | title => "title"
  | noTailwind => "no-tailwind"
  | help => "help"
  | version => "version"

/-- The letter of an option behind one dash. -/
def letter? : Flag → Option Char
  | verbose => some 'v'
  | quiet => some 'q'
  | out => some 'o'
  | help => some 'h'
  | version => some 'V'
  | _ => none

/-- Whether an option takes a value. -/
def takesValue : Flag → Bool
  | out | config | title => true
  | _ => false

/-- Whether the value of an option is a path, which must not be empty. -/
def isPath : Flag → Bool
  | out | config => true
  | _ => false

end Flag

/-- What is wrong with a command line. -/
inductive UsageError where
  | noCommand
  | unknownCommand (name : String)
  | unexpected (argument : String)
  | missingArgument
  | missingValue (flag : Flag)
  | unwantedValue (flag : Flag)
  | emptyPath
  | repeated (flag : Flag)
  | conflict (first second : Flag)
  deriving DecidableEq, Repr

/-- The message about a command line. -/
def UsageError.message : UsageError → String
  | noCommand => "a command is required"
  | unknownCommand name => "unrecognized command '" ++ name ++ "'"
  | unexpected argument => "unexpected argument '" ++ argument ++ "'"
  | missingArgument => "an argument is required"
  | missingValue flag => "a value is required for '--" ++ flag.name ++ "'"
  | unwantedValue flag => "'--" ++ flag.name ++ "' takes no value"
  | emptyPath => "a path must not be empty"
  | repeated flag => "'--" ++ flag.name ++ "' cannot be used multiple times"
  | conflict first second =>
    "'--" ++ first.name ++ "' cannot be used with '--" ++ second.name ++ "'"

/-- The options that change the options of a compilation. -/
structure Overrides where
  config : Option String
  title : Option String
  noTailwind : Bool
  deriving DecidableEq, Repr

/-- The options that say where the result goes. -/
structure Destination where
  out : String
  json : Bool
  deriving DecidableEq, Repr

/-- What a command line asks for. -/
inductive Command where
  | compile (input : String) (output : Destination) (options : Overrides)
  | analyze (input : String) (options : Overrides)
  | generate (frames : String) (output : Destination) (options : Overrides)
  | fileKey (url : String)
  deriving DecidableEq, Repr

/-- What a whole command line asks for. -/
inductive Request where
  | run (command : Command)
  | showVersion
  | showHelp
  deriving DecidableEq, Repr

/-- The options and arguments read so far, the last one first. -/
structure Given where
  flags : List (Flag × String)
  arguments : List String
  deriving DecidableEq, Repr

namespace Given

/-- Nothing yet. -/
def none : Given := ⟨[], []⟩

/-- Whether an option was given. -/
def has (g : Given) (flag : Flag) : Bool :=
  g.flags.any fun f => f.1 == flag

/-- The value of an option, if it was given. -/
def value? (g : Given) (flag : Flag) : Option String :=
  (g.flags.find? fun f => f.1 == flag).map Prod.snd

/-- Adds an option with its value.  No option may be given twice, and no path may be empty. -/
def addFlag (g : Given) (flag : Flag) (value : String) : Except UsageError Given :=
  if g.has flag then .error (.repeated flag)
  else if flag.isPath && value.isEmpty then .error .emptyPath
  else .ok { g with flags := (flag, value) :: g.flags }

/-- Adds an argument.  There is room for one. -/
def addArgument (g : Given) (argument : String) : Except UsageError Given :=
  if g.arguments.isEmpty then .ok { g with arguments := [argument] }
  else .error (.unexpected argument)

/-- Adds arguments. -/
def addArguments (g : Given) : List String → Except UsageError Given
  | [] => .ok g
  | a :: as => do (← g.addArgument a).addArguments as

end Given

/-- How one argument is read: to the end, with an option that still waits for its value, or as a
request that answers everything at once. -/
inductive Progress where
  | done (given : Given)
  | waiting (flag : Flag) (given : Given)
  | asked (request : Request)

/-- The request that an option makes all by itself. -/
def Flag.request? : Flag → Option Request
  | version => some .showVersion
  | help => some .showHelp
  | _ => none

/-- Reads the letters behind one dash. -/
def readLetters (known : List Flag) (g : Given) : List Char → Except UsageError Progress
  | [] => .ok (.done g)
  | c :: cs =>
    match known.find? fun f => f.letter? == some c with
    | none => .error (.unexpected (String.ofList ['-', c]))
    | some flag =>
      match flag.request? with
      | some request => .ok (.asked request)
      | none =>
        if flag.takesValue then
          match cs with
          | [] => .ok (.waiting flag g)
          | '=' :: value => (g.addFlag flag (String.ofList value)).map .done
          | value => (g.addFlag flag (String.ofList value)).map .done
        else do
          readLetters known (← g.addFlag flag "") cs

/-- Reads what stands behind two dashes. -/
def readName (known : List Flag) (g : Given) (cs : List Char) : Except UsageError Progress :=
  let name := String.ofList (cs.takeWhile (· != '='))
  match known.find? fun f => f.name == name with
  | none => .error (.unexpected (String.ofList ('-' :: '-' :: cs)))
  | some flag =>
    match cs.dropWhile (· != '=') with
    | '=' :: value =>
      if flag.takesValue then (g.addFlag flag (String.ofList value)).map .done
      else .error (.unwantedValue flag)
    | _ =>
      match flag.request? with
      | some request => .ok (.asked request)
      | none =>
        if flag.takesValue then .ok (.waiting flag g) else (g.addFlag flag "").map .done

/-- Whether an argument is read as an option: it starts with a dash and is more than that. -/
def looksLikeFlag (argument : String) : Bool :=
  match argument.toList with
  | '-' :: _ :: _ => true
  | _ => false

/-- Reads one argument that looks like an option. -/
def readFlag (known : List Flag) (g : Given) (argument : String) : Except UsageError Progress :=
  match argument.toList with
  | '-' :: '-' :: cs => readName known g cs
  | _ :: cs => readLetters known g cs
  | [] => .ok (.done g)

/-- Reads the arguments of a command. -/
def readArguments (known : List Flag) : List String → Given → Except UsageError (Request ⊕ Given)
  | [], g => .ok (.inr g)
  | a :: as, g =>
    if a = "--" then do
      return .inr (← g.addArguments as)
    else if looksLikeFlag a then do
      match ← readFlag known g a with
      | .done g => readArguments known as g
      | .asked request => return .inl request
      | .waiting flag g =>
        match as with
        | [] => .error (.missingValue flag)
        | value :: as =>
          if looksLikeFlag value then .error (.missingValue flag)
          else readArguments known as (← g.addFlag flag value)
    else do
      readArguments known as (← g.addArgument a)

/-- The names of the commands. -/
inductive Verb where
  | compile
  | analyze
  | generate
  | fileKey
  deriving DecidableEq, Repr

namespace Verb

/-- Every command. -/
def all : List Verb := [compile, analyze, generate, fileKey]

/-- The name of a command. -/
def name : Verb → String
  | compile => "compile"
  | analyze => "analyze"
  | generate => "generate"
  | fileKey => "file-key"

/-- The options that a command knows. -/
def flags : Verb → List Flag
  | compile | generate => [.verbose, .quiet, .out, .json, .config, .title, .noTailwind, .help]
  | analyze => [.verbose, .quiet, .config, .title, .noTailwind, .help]
  | fileKey => [.verbose, .quiet, .help]

/-- Whether the argument of a command is a path. -/
def takesPath : Verb → Bool
  | fileKey => false
  | _ => true

end Verb

/-- Checks that no two options that exclude each other were given. -/
def checkConflicts (g : Given) : Except UsageError Unit :=
  if g.has .verbose && g.has .quiet then .error (.conflict .verbose .quiet)
  else if g.has .out && g.has .json then .error (.conflict .out .json)
  else .ok ()

/-- The options of the compilation.  A title from the environment applies unless one is given. -/
def Given.overrides (g : Given) (envTitle : Option String) : Overrides :=
  ⟨g.value? .config, (g.value? .title).or envTitle, g.has .noTailwind⟩

/-- The options of the output. -/
def Given.destination (g : Given) : Destination :=
  ⟨(g.value? .out).getD ".", g.has .json⟩

/-- The command with the options and the argument. -/
def Verb.command (v : Verb) (envTitle : Option String) (g : Given) (argument : String) : Command :=
  match v with
  | compile => .compile argument g.destination (g.overrides envTitle)
  | analyze => .analyze argument (g.overrides envTitle)
  | generate => .generate argument g.destination (g.overrides envTitle)
  | fileKey => .fileKey argument

/-- Reads the arguments behind the name of a command. -/
def Verb.read (v : Verb) (envTitle : Option String) (arguments : List String) :
    Except UsageError Request := do
  match ← readArguments v.flags arguments .none with
  | .inl request => return request
  | .inr g =>
    checkConflicts g
    match g.arguments with
    | [] => .error .missingArgument
    | argument :: _ =>
      if v.takesPath && argument.isEmpty then .error .emptyPath
      else return .run (v.command envTitle g argument)

/-- The options that may stand before the name of a command. -/
def leadingFlags : List Flag := [.verbose, .quiet, .help, .version]

/-- Reads the arguments behind the command that explains the others. -/
def readHelp : List String → Except UsageError Request
  | [] => .ok .showHelp
  | [name] =>
    if name = "help" ∨ Verb.all.any (fun v => v.name == name) then .ok .showHelp
    else .error (.unknownCommand name)
  | _ :: extra :: _ => .error (.unexpected extra)

/-- Reads a command line from the options before the command on. -/
def readFrom (envTitle : Option String) : List String → Given → Except UsageError Request
  | [], _ => .error .noCommand
  | a :: as, g =>
    if a = "--" then
      .error (match as with | [] => .noCommand | b :: _ => .unexpected b)
    else if looksLikeFlag a then do
      match ← readFlag leadingFlags g a with
      | .done g => readFrom envTitle as g
      | .asked request => return request
      | .waiting flag _ => .error (.missingValue flag)
    else if a = "help" then readHelp as
    else
      match Verb.all.find? fun v => v.name == a with
      | none => .error (.unknownCommand a)
      | some v => do
        let request ← v.read envTitle as
        match request with
        | .run _ => checkConflicts g
        | _ => pure ()
        return request

/-- Reads a command line. -/
def read (envTitle : Option String) (arguments : List String) : Except UsageError Request :=
  readFrom envTitle arguments .none

end CommandLine
end DesignPages
