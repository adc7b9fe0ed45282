import SourceIr.Diagnostic.CallStack
import SourceIr.Inst.Text
import SourceIr.Decl.Table

/-!
# Events of a lowering

What happens while a file is lowered, in the order in which it happens, for a log that a user may
ask for.
-/

namespace SourceIr

/-- Something that happens while a file is lowered. -/
inductive Event where
  /-- The units of a file are about to be lowered. -/
  | fileOpened (units : Nat) (root : String) (parallel : Bool)
  /-- A unit is about to be lowered. -/
  | unitOpened (name : String) (kind : DeclKind)
  /-- A unit has been lowered. -/
  | unitClosed (name : String) (instructions : Nat) (isPoisoned : Bool)
  /-- An instruction is appended to a stream. -/
  | appended (stream : String) (id : InstId) (kind : InstKind)
  /-- A stream records its first error. -/
  | poisoned (stream : String) (message : Message)
  /-- A stream records a warning. -/
  | warned (stream : String) (message : Message)
  /-- A variable is declared in a scope. -/
  | declared (var : VarId) (scope : ScopeId)
  /-- A diagnostic names fewer frames than there are. -/
  | framesHidden (shown total : Nat)

end SourceIr
