import SourceIr.Cli.Arguments
import SourceIr.Cli.Failure
import SourceIr.Cli.Glob
import SourceIr.Cli.Log
import SourceIr.Cli.Report
import SourceIr.Options.Toml

/-!
# Runs of the program

What a run prints and writes, as a function of its arguments and of the files it can see.

* `Job.options` and `Job.paths`, what a job is told and what it is about;
* `Batch`, the lowering of all files of a job, up to the first one that fails;
* `Outcome`, with `Outcome.ofCommand` and `Outcome.ofArguments`.
-/

namespace SourceIr.Cli

/-- The failure to read or write a file. -/
def PathFault.failure (f : PathFault) (path : String) : Failure :=
  { message := f.message, path := some path }

/-- The text of a file, or why there is none. -/
def readFile (files : Files) (path : String) : Except Failure String :=
  (files.read path).mapError (·.failure path)

namespace Job

/-- The options of a job: those of its file, then those of its own. -/
def options (job : Job) (files : Files) : Except Failure Options := do
  let base ←
    match job.config with
    | none => pure {}
    | some path =>
      match Options.ofTomlText? (← readFile files path) with
      | some options => pure options
      | none => throw { message := Options.malformed.message, path := some path }
  let chosen : Options := { base with errorPolicy := job.policy.getD base.errorPolicy }
  return if job.sequential then chosen.sequential else chosen

/-- Whether an input is a pattern. -/
def isPattern (input : String) : Bool := input.toList.any fun c => c = '*' || c = '?' || c = '['

/-- The paths that an input stands for. -/
def inputPaths (files : Files) (input : String) : Except Failure (List String) :=
  if !isPattern input then .ok [input]
  else
    match Glob.expand files input with
    | .error fault => .error { message := s!"bad pattern '{input}': {fault.message}" }
    | .ok [] => .error { message := s!"no input matches '{input}'" }
    | .ok paths => .ok paths

/-- The paths of all inputs of a job. -/
def paths (job : Job) (files : Files) : Except Failure (List String) :=
  (job.inputs.mapM (inputPaths files)).map List.flatten

/-- The most detailed level of the log that a job shows. -/
def level (job : Job) : LogLevel := LogLevel.ofCount job.verbosity

end Job

/-- The lines of the entries that are shown. -/
def logLines (level : LogLevel) (entries : List Entry) : List String :=
  (entries.filter (·.isShown level)).map (·.line)

/-- The entry on the options of a job. -/
def optionsEntry (options : Options) : Entry := ⟨.debug, "astgen", s!"options: {options.listing}"⟩

/-- The entry on a file that has been lowered. -/
def fileEntry (path : String) (file : LoweredFile) : Entry :=
  ⟨.info, "astgen", s!"{path}: {file.units.length} units"⟩

/-- Files that have been lowered, or why that failed, with the lines printed meanwhile. -/
structure Batch where
  lines : List String
  result : Except Failure (List Report)

namespace Batch

/-- The lines on a file that has been lowered: its log, then its diagnostics. -/
def fileLines (level : LogLevel) (path : String) (run : FileRun) : List String :=
  logLines level (run.log.map Entry.ofEvent ++ [fileEntry path run.file]) ++
    run.file.diagnostics.map (·.labelled)

/-- Reads and lowers a file whose nodes are numbered from `start` on. -/
def lowerFile (files : Files) (options : Options) (start : Nat) (path : String) :
    Except Failure (FileRun × Nat) := do
  match FileRun.ofText? (← readFile files path) options start with
  | some run => return run
  | none =>
    throw { message := "invalid syntax tree: the text is not a node", path := some path }

/-- Lowers files one after the other, until one fails.  The numbers of nodes go on from file to
file. -/
def ofPaths (files : Files) (options : Options) (level : LogLevel) : Nat → List String → Batch
  | _, [] => ⟨[], .ok []⟩
  | start, path :: rest =>
    match lowerFile files options start path with
    | .error failure => ⟨[], .error failure⟩
    | .ok (run, next) =>
      let later := ofPaths files options level next rest
      ⟨fileLines level path run ++ later.lines, later.result.map (⟨path, run.file⟩ :: ·)⟩

/-- Lowers the files of a job. -/
def ofJob (files : Files) (job : Job) : Batch :=
  match job.options files with
  | .error failure => ⟨[], .error failure⟩
  | .ok options =>
    let first := logLines job.level [optionsEntry options]
    match job.paths files with
    | .error failure => ⟨first, .error failure⟩
    | .ok paths =>
      let batch := ofPaths files options job.level 1 paths
      ⟨first ++ batch.lines, batch.result⟩

end Batch

/-- What a run leaves behind. -/
structure Outcome where
  /-- The status that the run ends with: 0 when all is well, 1 when something is wrong with the
  inputs, 2 when the arguments are refused. -/
  status : Nat
  stdout : String := ""
  stderr : String := ""
  /-- The file that is written, with its text. -/
  written : Option (String × String) := none

namespace Outcome

/-- The run that ends with a failure after these lines. -/
def ofFailure (printed : List String) (failure : Failure) : Outcome :=
  { status := 1, stderr := lines (printed ++ [failure.issue.summary]) }

/-- The status after files have been lowered. -/
def statusOf (reports : List Report) : Nat := if reports.any (·.file.isPoisoned) then 1 else 0

/-- The lowered files in a format. -/
def rendered (format : Format) (reports : List Report) : String :=
  match format with
  | .text => Report.listing reports
  | .data => Report.data reports

/-- The run of a command. -/
def ofCommand (files : Files) : Command → Outcome
  | .check job =>
    let batch := Batch.ofJob files job
    match batch.result with
    | .error failure => ofFailure batch.lines failure
    | .ok reports =>
      { status := statusOf reports
        stdout := lines [Report.table reports, Report.totals reports]
        stderr := lines batch.lines }
  | .lower job format output =>
    let batch := Batch.ofJob files job
    match batch.result with
    | .error failure => ofFailure batch.lines failure
    | .ok reports =>
      let text := rendered format reports
      match output with
      | none => { status := statusOf reports, stdout := text, stderr := lines batch.lines }
      | some path =>
        match files.target path with
        | .error fault => ofFailure batch.lines (fault.failure path)
        | .ok _ =>
          { status := statusOf reports, stderr := lines batch.lines, written := some (path, text) }

/-- The run with arguments that are refused. -/
def ofFault : UsageFault → Outcome
  | .nothing => { status := 2, stderr := helpText .program }
  | fault =>
    { status := 2
      stderr := lines [s!"error: {fault.message}", "", "For more information, try '--help'."] }

/-- The run with these arguments. -/
def ofArguments (files : Files) (arguments : List String) : Outcome :=
  match Invocation.ofArguments arguments with
  | .error fault => ofFault fault
  | .ok (.help topic) => { status := 0, stdout := helpText topic }
  | .ok .version => { status := 0, stdout := versionText }
  | .ok (.run command) => ofCommand files command

end Outcome

end SourceIr.Cli
