import SourceIr.Lower.Event

/-!
# The log of the program

What happens is logged on four levels, and the user chooses how much of it is shown.
-/

namespace SourceIr.Cli

/-- The levels of the log, from the gravest on. -/
inductive LogLevel where
  | warn | info | debug | trace
  deriving DecidableEq, Repr

namespace LogLevel

/-- The name of the level. -/
def name : LogLevel → String
  | warn => "WARN"
  | info => "INFO"
  | debug => "DEBUG"
  | trace => "TRACE"

/-- The position of the level. -/
def rank : LogLevel → Nat
  | warn => 0
  | info => 1
  | debug => 2
  | trace => 3

/-- The most detailed level that is shown when the user asks this many times for more. -/
def ofCount : Nat → LogLevel
  | 0 => warn
  | 1 => info
  | 2 => debug
  | _ => trace

/-- The name of the level, filled up to five columns. -/
def column (l : LogLevel) : String :=
  l.name ++ String.ofList (List.replicate (5 - l.name.length) ' ')

end LogLevel

/-- An entry of the log. -/
structure Entry where
  level : LogLevel
  /-- The part of the program that makes the entry. -/
  source : String
  text : String

namespace Entry

/-- The line of an entry. -/
def line (e : Entry) : String := s!"[{e.level.column}] {e.source}: {e.text}"

/-- Whether an entry is shown. -/
def isShown (chosen : LogLevel) (e : Entry) : Bool := e.level.rank ≤ chosen.rank

/-- How the units of a file are lowered. -/
def manner (parallel : Bool) : String := if parallel then "parallel" else "sequential"

/-- The remark on a unit that may not be used. -/
def poisonRemark (isPoisoned : Bool) : String := if isPoisoned then ", poisoned" else ""

/-- The entry for something that happens while a file is lowered. -/
def ofEvent : Event → Entry
  | .fileOpened units root parallel =>
    ⟨.debug, "astgen_core::ir::lower", s!"lowering {units} units of '{root}' ({manner parallel})"⟩
  | .unitOpened name kind => ⟨.debug, "astgen_core::ir::lower", s!"lowering {name} ({kind.name})"⟩
  | .unitClosed name instructions isPoisoned =>
    ⟨.debug, "astgen_core::ir::lower",
      s!"lowered {name}: {instructions} instructions{poisonRemark isPoisoned}"⟩
  | .appended stream id kind =>
    ⟨.trace, "astgen_core::ir::stream", s!"{stream}: {id.text} = {kind.text}"⟩
  | .poisoned stream message =>
    ⟨.warn, "astgen_core::ir::stream", s!"{stream}: poisoned: {message.text}"⟩
  | .warned stream message =>
    ⟨.debug, "astgen_core::ir::stream", s!"{stream}: warning: {message.text}"⟩
  | .declared var scope =>
    ⟨.trace, "astgen_core::scope", s!"declared {var.text} in {scope.text}"⟩
  | .framesHidden shown total =>
    ⟨.debug, "astgen_core::diagnostics::call_stack",
      s!"call stack truncated: {shown} of {total} frames shown"⟩

end Entry

end SourceIr.Cli
