import SourceIr.Diagnostic.Report
import SourceIr.File
import SourceIr.Stream.Text
import SourceIr.Text.Json.Printer
import SourceIr.Text.Table

/-!
# Reports on lowered files

The forms in which the program shows what it has lowered: the text of the streams, the data, and
a table with a row for each unit.
-/

namespace SourceIr.Cli

/-- A file that has been lowered, under its path. -/
structure Report where
  path : String
  file : LoweredFile

namespace Report

/-- The streams of the units, under the path. -/
def text (r : Report) : String :=
  s!"; {r.path}\n" ++ String.join (r.file.units.map (·.stream.text))

instance : Encode Report := ⟨fun r =>
  .obj [("file", encode r.path), ("module", encode r.file)]⟩

/-- The header of the table. -/
def header : List String :=
  ["File", "Unit", "Kind", "Instructions", "Comptime blocks", "Warnings", "Status"]

/-- Whether a unit can be used, for the table. -/
def status (u : LoweredUnit) : String :=
  match u.stream.terminalDiagnostic? with
  | some _ => "poisoned"
  | none => "ok"

/-- The number of diagnostics of a unit that are not fatal. -/
def warningCount (u : LoweredUnit) : Nat :=
  (u.stream.diagnostics.filter (!·.isFatal)).length

/-- The row of a unit. -/
def row (path : String) (u : LoweredUnit) : List String :=
  [path, u.name, u.kind.text, toString u.stream.insts.size, toString u.stream.children.length,
    toString (warningCount u), status u]

/-- The table of all units of these files. -/
def table (reports : List Report) : String :=
  Text.boxed header (reports.flatMap fun r => r.file.units.map (row r.path))

/-- The number of units of these files. -/
def unitCount (reports : List Report) : Nat :=
  reports.foldl (fun count r => count + r.file.units.length) 0

/-- The diagnostics of these files. -/
def diagnostics (reports : List Report) : List Message :=
  reports.flatMap (·.file.diagnostics)

/-- The line below the table. -/
def totals (reports : List Report) : String :=
  let all := diagnostics reports
  let errors := (all.filter (·.isFatal)).length
  s!"{unitCount reports} units, {errors} errors, {all.length - errors} warnings"

/-- The files as text, one after the other. -/
def listing (reports : List Report) : String := String.join (reports.map text)

/-- The files as data. -/
def data (reports : List Report) : String := (encode reports).pretty

end Report

end SourceIr.Cli
