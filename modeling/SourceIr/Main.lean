import SourceIr.Cli.Outcome

/-!
# The program

Looks up the files that the arguments speak of, and carries out what the run says.
-/

namespace SourceIr.Cli

/-- Adds what is known of a path: the folders on the way to it, and the text of its file. -/
def learn (known : Files) (path : String) : IO Files := do
  let here ← IO.currentDir
  let names := path.splitOn "/"
  let mut files := known
  for count in [1 : names.length + 1] do
    let front := "/".intercalate (names.take count)
    if ← (here / front).isDir then
      if let .ok place := files.walk front then
        files := { files with folders := place :: files.folders }
  if let .ok place := files.walk path then
    if !files.isFolder place && (← (here / path).pathExists) then
      try
        files := files.put place (← IO.FS.readFile (here / path))
      catch _ => pure ()
  return files

/-- Adds the names of everything below a folder. -/
partial def survey (known : Files) (folder : String) : IO Files := do
  let here ← IO.currentDir
  let mut files ← learn known folder
  if ← (here / folder).isDir then
    for entry in ← (here / folder).readDir do
      let path := Glob.join folder entry.fileName
      if ← entry.path.isDir then files ← survey files path
      else if let .ok place := files.walk path then files := files.put place ""
  return files

/-- The files that a job speaks of. -/
def filesOf (job : Job) : IO Files := do
  let mut files : Files := {}
  for input in job.inputs do
    if Job.isPattern input then files ← survey files (Glob.base input)
  let mut paths := job.config.toList
  for input in job.inputs do
    if let .ok found := Job.inputPaths files input then paths := paths ++ found
  for path in paths do
    files ← learn files path
  return files

/-- The files that some arguments speak of. -/
def filesOfArguments (arguments : List String) : IO Files := do
  match Invocation.ofArguments arguments with
  | .ok (.run (.check job)) => filesOf job
  | .ok (.run (.lower job _ output)) =>
    let mut files ← filesOf job
    for path in output.toList do
      files ← learn files path
    return files
  | _ => return {}

end SourceIr.Cli

open SourceIr.Cli in
/-- Runs the program. -/
def main (arguments : List String) : IO UInt32 := do
  let outcome := Outcome.ofArguments (← filesOfArguments arguments) arguments
  IO.eprint outcome.stderr
  IO.print outcome.stdout
  if let some (path, text) := outcome.written then
    IO.FS.writeFile ((← IO.currentDir) / path) text
  return outcome.status.toUInt32
