import SourceIr.Text.Json.Record

/-!
# Levels and kinds of diagnostics

How grave a diagnostic is, and what it is about.  The kind of a diagnostic settles its level when
the lowering makes it; the fatal levels are those that spoil the unit they are reported in.
-/

namespace SourceIr

/-- How grave a diagnostic is. -/
inductive Level where
  | info | warning | error | critical
  deriving DecidableEq, Repr, Inhabited

namespace Level

/-- Every level. -/
def all : List Level := [info, warning, error, critical]

/-- The name of the level in data. -/
def name : Level → String
  | info => "Info"
  | warning => "Warning"
  | error => "Error"
  | critical => "Critical"

/-- The level in a report. -/
def text : Level → String
  | info => "INFO"
  | warning => "WARNING"
  | error => "ERROR"
  | critical => "CRITICAL"

/-- The level at the head of a diagnostic. -/
def label : Level → String
  | info => "info"
  | warning => "warning"
  | error => "error"
  | critical => "critical"

/-- Whether a diagnostic of this level spoils its unit. -/
def isFatal : Level → Bool
  | error | critical => true
  | info | warning => false

instance : Encode Level := ⟨fun l => .str l.name⟩
instance : Decode Level := ⟨Json.enumerated? all name⟩

end Level

/-- What a diagnostic is about.  A note is attached to another diagnostic. -/
inductive DiagnosticKind where
  | nameCollision
  | unresolvedName
  | invalidConstruct
  | forcedComptimeViolation
  | recursionLimitExceeded
  | noEffect
  | unreachableCode
  | note
  deriving DecidableEq, Repr, Inhabited

namespace DiagnosticKind

/-- Every kind. -/
def all : List DiagnosticKind :=
  [nameCollision, unresolvedName, invalidConstruct, forcedComptimeViolation,
    recursionLimitExceeded, noEffect, unreachableCode, note]

/-- The name of the kind in data. -/
def name : DiagnosticKind → String
  | nameCollision => "NameCollision"
  | unresolvedName => "UnresolvedName"
  | invalidConstruct => "InvalidConstruct"
  | forcedComptimeViolation => "ForcedComptimeViolation"
  | recursionLimitExceeded => "RecursionLimitExceeded"
  | noEffect => "NoEffect"
  | unreachableCode => "UnreachableCode"
  | note => "Note"

/-- The kind in words. -/
def text : DiagnosticKind → String
  | nameCollision => "name collision"
  | unresolvedName => "unresolved name"
  | invalidConstruct => "invalid construct"
  | forcedComptimeViolation => "comptime violation"
  | recursionLimitExceeded => "recursion limit"
  | noEffect => "no effect"
  | unreachableCode => "unreachable code"
  | note => "note"

/-- The level of a diagnostic of this kind. -/
def level : DiagnosticKind → Level
  | noEffect | unreachableCode => .warning
  | note => .info
  | recursionLimitExceeded => .critical
  | nameCollision | unresolvedName | invalidConstruct | forcedComptimeViolation => .error

/-- Whether a diagnostic of this kind spoils its unit. -/
def isFatal (kind : DiagnosticKind) : Bool := kind.level.isFatal

instance : Encode DiagnosticKind := ⟨fun k => .str k.name⟩
instance : Decode DiagnosticKind := ⟨Json.enumerated? all name⟩

end DiagnosticKind

end SourceIr
