import SourceIr.Diagnostic.Report

/-!
# Failures of the command line

What keeps the program from lowering its inputs: a file that cannot be read or written, options
or a syntax tree that cannot be understood.
-/

namespace SourceIr.Cli

/-- A failure, with the file that it concerns. -/
structure Failure where
  message : String
  path : Option String := none
  deriving DecidableEq, Repr

namespace Failure

/-- The failure behind its file. -/
def text (f : Failure) : String :=
  match f.path with
  | some path => s!"{path}: {f.message}"
  | none => f.message

/-- The failure as something that can be reported.  It concerns its file as a whole. -/
def issue (f : Failure) : Issue where
  level := .error
  message := f.message
  issuer := "astgen-cli"
  span := none
  location := f.path.map (⟨·, 0, 0⟩)

end Failure

end SourceIr.Cli
