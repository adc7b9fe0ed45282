import SourceIr.Diagnostic.Message

/-!
# The call stack of compile-time evaluation

The evaluations that are open, oldest first.  A diagnostic that is issued while they are open
names the places they were started from, the most recent one first, up to a limit.
-/

namespace SourceIr

/-- The open compile-time evaluations, oldest first. -/
structure CallStack where
  frames : List Frame
  deriving DecidableEq, Repr, Inhabited

namespace CallStack

/-- No evaluation is open. -/
def empty : CallStack := ⟨[]⟩

/-- One more evaluation is open. -/
def push (s : CallStack) (f : Frame) : CallStack := ⟨s.frames ++ [f]⟩

/-- The most recent evaluation and the stack without it. -/
def pop (s : CallStack) : Option Frame × CallStack :=
  (s.frames.getLast?, ⟨s.frames.dropLast⟩)

/-- The number of open evaluations. -/
def depth (s : CallStack) : Nat := s.frames.length

/-- The frames from the most recent one outward. -/
def mostRecentFirst (s : CallStack) : List Frame := s.frames.reverse

end CallStack

namespace Message

/-- The diagnostic with a frame for each of the `limit` most recent evaluations. -/
def withCallers (m : Message) (stack : CallStack) (limit : Nat) : Message :=
  { m with
    callStack := m.callStack ++
      (stack.mostRecentFirst.take limit).map fun f => ⟨f.location, "called from here"⟩ }

end Message

end SourceIr
