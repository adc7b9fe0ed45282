import SourceIr.Handle

/-!
# Result locations

Where the value of an expression is to end up.  The one who asks for an expression chooses the
location; expressions that can write in place use it themselves, and the values of all others are
stored afterwards.
-/

namespace SourceIr

/-- Where the value of an expression is to end up. -/
inductive ResultLoc where
  /-- Nowhere yet: the value is only returned. -/
  | none
  /-- The value is not used. -/
  | discard
  /-- The value becomes the value of the function. -/
  | ret
  /-- The value is written to storage that is there. -/
  | existing (ptr : InstId)
  /-- The value is written to storage that is made for it. -/
  | alloc
  deriving DecidableEq, Repr

namespace ResultLoc

instance : Inhabited ResultLoc := ⟨none⟩

/-- Whether the value is not used. -/
def isDiscard (r : ResultLoc) : Bool := r = discard

/-- The storage that the value is written to, if it is there. -/
def ptr? : ResultLoc → Option InstId
  | existing ptr => some ptr
  | _ => Option.none

/-- Whether the value goes to storage, which the expression may write itself. -/
def wantsPtr : ResultLoc → Bool
  | existing _ | ret | alloc => true
  | none | discard => false

end ResultLoc

end SourceIr
