import SourceIr.Handle

/-!
# Breaches

The rules that a lowering keeps towards its stream and its scopes: an instruction reads earlier
ones, and every handle has an entry in its list.
-/

namespace SourceIr

/-- A breach of the rules that the lowering keeps towards streams and scopes. -/
inductive Fault where
  /-- An instruction reads one that is not there yet. -/
  | forwardOperand (stream : String) (operand id : InstId)
  /-- A handle has no entry in its list. -/
  | outOfRange (length index : Nat)
  /-- A list is read from a position on that lies behind its end. -/
  | startOutOfRange (length start : Nat)
  deriving DecidableEq, Repr

/-- The message of a breach. -/
def Fault.message : Fault → String
  | .forwardOperand stream operand id =>
    s!"{stream}: operand {operand.text} of {id.text} is not an earlier instruction"
  | .outOfRange length index =>
    s!"index out of bounds: the len is {length} but the index is {index}"
  | .startOutOfRange length start =>
    s!"range start index {start} out of range for slice of length {length}"

end SourceIr
