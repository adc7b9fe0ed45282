import SourceIr.Options

/-!
# Arguments

What a user asks the program for.

* `Command`, with the `Job` that both commands share;
* `Invocation`, a command or a question about the program;
* `UsageFault`, why arguments are refused;
* `Invocation.ofArguments`, and the texts `helpText` and `versionText`.
-/

namespace SourceIr.Cli

/-- The form in which lowered files are written. -/
inductive Format where
  | text
  | data
  deriving DecidableEq, Repr

/-- What both commands are told. -/
structure Job where
  inputs : List String := []
  config : Option String := none
  policy : Option ErrorPolicy := none
  sequential : Bool := false
  /-- How often more of the log is asked for. -/
  verbosity : Nat := 0
  deriving DecidableEq, Repr

/-- A command. -/
inductive Command where
  | lower (job : Job) (format : Format) (output : Option String)
  | check (job : Job)
  deriving DecidableEq, Repr

/-- What the user asks for help on. -/
inductive Topic where
  | program | lower | check | help
  deriving DecidableEq, Repr

/-- What a user asks for. -/
inductive Invocation where
  | run (command : Command)
  | help (topic : Topic)
  | version
  deriving DecidableEq, Repr

/-- Why arguments are refused. -/
inductive UsageFault where
  | nothing
  | noCommand
  | unknownCommand (name : String)
  | unknownOption (text : String)
  | noValue (option : String)
  | unwantedValue (option : String)
  | badValue (option value : String)
  | repeated (option : String)
  | noInput
  deriving DecidableEq, Repr

namespace UsageFault

/-- The message of a fault. -/
def message : UsageFault → String
  | nothing | noCommand => "a command is required: lower, check or help"
  | unknownCommand name => s!"unrecognized subcommand '{name}'"
  | unknownOption text => s!"unexpected argument '{text}' found"
  | noValue option => s!"a value is required for '{option}' but none was supplied"
  | unwantedValue option => s!"unexpected value for '{option}' found; no more were expected"
  | badValue option value => s!"invalid value '{value}' for '{option}'"
  | repeated option => s!"the argument '{option}' cannot be used multiple times"
  | noInput => "the following required arguments were not provided: <input>..."

end UsageFault

/-- The options of the commands. -/
inductive Flag where
  | config | policy | sequential | verbose | emit | output | help
  deriving DecidableEq, Repr

namespace Flag

/-- The name of an option. -/
def name : Flag → String
  | config => "--config"
  | policy => "--policy"
  | sequential => "--sequential"
  | verbose => "--verbose"
  | emit => "--emit"
  | output => "--output"
  | help => "--help"

/-- The options of a command. -/
def all (lowers : Bool) : List Flag :=
  [config, policy, sequential, verbose, help] ++ if lowers then [emit, output] else []

/-- Whether an option has a value. -/
def hasValue : Flag → Bool
  | config | policy | emit | output => true
  | sequential | verbose | help => false

/-- The letter of an option. -/
def letter? : Flag → Option Char
  | verbose => some 'v'
  | output => some 'o'
  | help => some 'h'
  | _ => none

end Flag

/-- The arguments of a command as far as they are read. -/
structure Draft where
  /-- Whether the command is to lower, and not only to check. -/
  lowers : Bool
  job : Job := {}
  format : Option Format := none
  output : Option String := none

/-- Why the reading of arguments stops early. -/
inductive Halt where
  | fault (fault : UsageFault)
  | helpAsked

namespace Draft

/-- Sets a value that may be set only once. -/
def once {α : Type} (flag : Flag) (old : Option α) (new : α) : Except Halt (Option α) :=
  if old.isSome then .error (.fault (.repeated flag.name)) else .ok (some new)

/-- A value that may not be empty. -/
def filled (flag : Flag) (value : String) : Except Halt String :=
  if value.isEmpty then .error (.fault (.noValue flag.name)) else .ok value

/-- One of the values that an option knows. -/
def known {α : Type} (flag : Flag) (values : List (String × α)) (value : String) :
    Except Halt α :=
  match values.lookup value with
  | some a => .ok a
  | none => .error (.fault (.badValue flag.name value))

/-- Takes an option with its value. -/
def setValue (d : Draft) (flag : Flag) (value : String) : Except Halt Draft := do
  match flag with
  | .config =>
    let config ← once flag d.job.config (← filled flag value)
    return { d with job := { d.job with config } }
  | .policy =>
    let policy ← known flag [("abort", .abort), ("continue", .proceed)] value
    return { d with job := { d.job with policy := ← once flag d.job.policy policy } }
  | .emit =>
    let format ← known flag [("text", .text), ("json", .data)] value
    return { d with format := ← once flag d.format format }
  | .output => return { d with output := ← once flag d.output (← filled flag value) }
  | .sequential | .verbose | .help => throw (.fault (.unwantedValue flag.name))

/-- Takes an option without a value. -/
def set (d : Draft) (flag : Flag) : Except Halt Draft :=
  match flag with
  | .sequential =>
    if d.job.sequential then .error (.fault (.repeated flag.name))
    else .ok { d with job := { d.job with sequential := true } }
  | .verbose => .ok { d with job := { d.job with verbosity := d.job.verbosity + 1 } }
  | .help => .error .helpAsked
  | .config | .policy | .emit | .output => .error (.fault (.noValue flag.name))

/-- Takes inputs. -/
def addInputs (d : Draft) (inputs : List String) : Draft :=
  { d with job := { d.job with inputs := d.job.inputs ++ inputs } }

/-- The value behind a letter: what follows it in the same argument, without an equals sign in
front. -/
def attached? : List Char → Option String
  | [] => none
  | '=' :: rest => some (String.ofList rest)
  | rest => some (String.ofList rest)

/-- Takes the letters of an argument, up to one whose value is still to come. -/
def setLetters (d : Draft) : List Char → Except Halt (Draft × Option Flag)
  | [] => .ok (d, none)
  | c :: rest =>
    match (Flag.all d.lowers).find? (·.letter? = some c) with
    | none => .error (.fault (.unknownOption (String.ofList ['-', c])))
    | some flag =>
      if flag.hasValue then
        match attached? rest with
        | some value => (d.setValue flag value).map (·, none)
        | none => .ok (d, some flag)
      else do setLetters (← d.set flag) rest

/-- Takes an argument that begins with two hyphens, and tells whether its value is still to
come. -/
def setNamed (d : Draft) (text : List Char) : Except Halt (Draft × Option Flag) :=
  let (name, value) := text.span (· ≠ '=')
  match (Flag.all d.lowers).find? (·.name.toList = name) with
  | none => .error (.fault (.unknownOption (String.ofList name)))
  | some flag =>
    match value with
    | _ :: value => (d.setValue flag (String.ofList value)).map (·, none)
    | [] => if flag.hasValue then .ok (d, some flag) else (d.set flag).map (·, none)

/-- Whether an argument is an input, or a value: it has no hyphen in front, or is one. -/
def isPlain (argument : String) : Bool := argument = "-" || !argument.startsWith "-"

/-- Takes all arguments of a command.  The flag is an option whose value must come next. -/
def readAll (d : Draft) (awaited : Option Flag) : List String → Except Halt Draft
  | [] =>
    match awaited with
    | some flag => .error (.fault (.noValue flag.name))
    | none => .ok d
  | argument :: rest =>
    match awaited with
    | some flag =>
      if isPlain argument then do readAll (← d.setValue flag argument) none rest
      else .error (.fault (.noValue flag.name))
    | none =>
      if isPlain argument then readAll (d.addInputs [argument]) none rest
      else if argument = "--" then .ok (d.addInputs rest)
      else do
        let (d, awaited) ←
          if argument.startsWith "--" then d.setNamed argument.toList
          else d.setLetters (argument.toList.drop 1)
        readAll d awaited rest

/-- The command of a draft with an input. -/
def command (d : Draft) : Except UsageFault Command :=
  if d.job.inputs.isEmpty then .error .noInput
  else if d.lowers then .ok (.lower d.job (d.format.getD .text) d.output)
  else .ok (.check d.job)

end Draft

namespace Invocation

/-- A command with these arguments. -/
def ofCommand (lowers : Bool) (arguments : List String) : Except UsageFault Invocation :=
  match Draft.readAll { lowers } none arguments with
  | .ok d => d.command.map run
  | .error (.fault fault) => .error fault
  | .error .helpAsked => .ok (help (if lowers then .lower else .check))

/-- A question for help on what these names say. -/
def ofTopic : List String → Except UsageFault Invocation
  | [] => .ok (help .program)
  | ["lower"] => .ok (help .lower)
  | ["check"] => .ok (help .check)
  | ["help"] => .ok (help .help)
  | name :: rest =>
    .error (.unknownCommand (if ["lower", "check", "help"].contains name then rest.headD "" else name))

/-- An argument in front of the command. -/
def ofFirst (argument : String) : Except UsageFault Invocation :=
  match argument.toList with
  | '-' :: 'h' :: _ => .ok (help .program)
  | '-' :: 'V' :: _ => .ok version
  | '-' :: _ =>
    if argument = "--help" then .ok (help .program)
    else if argument = "--version" then .ok version
    else if argument = "--" then .error .noCommand
    else .error (.unknownOption argument)
  | _ => .error (.unknownCommand argument)

/-- What the arguments of the program ask for. -/
def ofArguments : List String → Except UsageFault Invocation
  | [] => .error .nothing
  | "lower" :: rest => ofCommand true rest
  | "check" :: rest => ofCommand false rest
  | "help" :: rest => ofTopic rest
  | argument :: _ => ofFirst argument

end Invocation

/-- The answer to a question for the version. -/
def versionText : String := "astgen 0.1.0\n"

/-- Some lines of text. -/
def lines (texts : List String) : String := String.join (texts.map (· ++ "\n"))

/-- The help on what both commands are told. -/
def jobHelp : List String :=
  ["      --config <FILE>    TOML file with lowering options",
    "      --policy <POLICY>  What to do after the first error in a unit " ++
      "[possible values: abort, continue]",
    "      --sequential       Lower declarations on the current thread only",
    "  -v, --verbose...       Increase log output (-v info, -vv debug, -vvv trace)"]

/-- The help on the inputs of a command. -/
def inputHelp (about name : String) : List String :=
  [about, "", s!"Usage: astgen {name} [OPTIONS] <input>...", "", "Arguments:",
    "  <input>...  JSON syntax tree files or glob patterns", "", "Options:"]

/-- The answer to a question for help. -/
def helpText : Topic → String
  | .program => lines
    ["Lowers JSON syntax trees into the astgen IR", "", "Usage: astgen <COMMAND>", "",
      "Commands:", "  lower  Lower the inputs and print the IR",
      "  check  Lower the inputs and report diagnostics with a per-unit summary",
      "  help   Print this message or the help of the given subcommand(s)", "", "Options:",
      "  -h, --help     Print help", "  -V, --version  Print version"]
  | .lower => lines (inputHelp "Lower the inputs and print the IR" "lower" ++ jobHelp ++
    ["      --emit <FORMAT>    Output format [default: text] [possible values: text, json]",
      "  -o, --output <FILE>    Write the IR to FILE instead of stdout",
      "  -h, --help             Print help"])
  | .check => lines
    (inputHelp "Lower the inputs and report diagnostics with a per-unit summary" "check" ++
      jobHelp ++ ["  -h, --help             Print help"])
  | .help => lines
    ["Print this message or the help of the given subcommand(s)", "",
      "Usage: astgen help [COMMAND]...", "", "Arguments:",
      "  [COMMAND]...  Print help for the subcommand(s)"]

end SourceIr.Cli
