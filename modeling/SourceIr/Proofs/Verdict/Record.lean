import SourceIr.Proofs.Comparison.Drift
import SourceIr.Proofs.Comparison.Unit

/-!
# What is on record in a stream

A stream says in several places whether its unit can be used: it is poisoned, it has errors, some of
its diagnostics are fatal.  They agree because of the way in which a stream gets its diagnostics.

* `Stream.Recorded`, the ways in which diagnostics get into a stream;
* `Recorded.isPoisoned_iff`, `Recorded.isFatal_of_mem_errors` and `Recorded.isFatal_eq_false`, the
  marks of a failure;
* `Recorded.errors_of_children`, the errors of the streams inside are there, each once;
* `Lower.recording`, no routine brings a diagnostic in in any other way.
-/

namespace SourceIr

namespace Stream

/-- The streams whose diagnostics came one by one: by failures and warnings of their own, and with
the streams inside them. -/
inductive Recorded : Stream → Prop
  | new (name : String) (isInline : Bool) : Recorded (.new name isInline)
  /-- What does not concern diagnostics may change. -/
  | code {s s' : Stream} (before : Recorded s) (errors : s'.errors = s.errors)
      (isPoisoned : s'.isPoisoned = s.isPoisoned) (warnings : s'.warnings = s.warnings)
      (children : s'.children = s.children) : Recorded s'
  | failure {s : Stream} {m : Message} (before : Recorded s) (fatal : m.isFatal = true) :
      Recorded (s.invalidate m)
  | warning {s : Stream} {m : Message} (before : Recorded s) (mild : m.isFatal = false) :
      Recorded (s.addWarning m)
  | child {s c : Stream} (before : Recorded s) (inner : Recorded c) : Recorded (s.addChild c).2

variable {s c : Stream} {m : Message}

theorem isSome_terminalDiagnostic? :
    s.terminalDiagnostic?.isSome = true ↔ s.errors ≠ #[] := by
  simp [terminalDiagnostic?, Nat.pos_iff_ne_zero]

theorem mem_allWarnings_addWarning {w : Message} :
    m ∈ (s.addWarning w).allWarnings ↔ m ∈ s.allWarnings ∨ m = w := by
  rw [allWarnings_eq, allWarnings_eq s]
  simp only [addWarning, Array.toList_push, List.mem_append, List.mem_singleton]
  rw [or_right_comm]

/-! ### Marks of a failure -/

namespace Recorded

/-- A stream is poisoned if it has an error, and only then. -/
theorem isPoisoned_iff (h : Recorded s) : s.isPoisoned = true ↔ s.errors ≠ #[] := by
  induction h with
  | new name isInline => simp [Stream.new]
  | code before errors isPoisoned _ _ ih => rw [errors, isPoisoned, ih]
  | failure => simp [invalidate]
  | warning before mild ih => exact ih
  | child before inner ih ihInner => exact isPoisoned_addChild_iff ihInner ih

/-- An error is fatal. -/
theorem isFatal_of_mem_errors (h : Recorded s) : ∀ m ∈ s.errors, m.isFatal = true := by
  induction h with
  | new name isInline => simp [Stream.new]
  | code before errors _ _ _ ih => rwa [errors]
  | failure before fatal ih =>
    intro m hm
    rcases Array.mem_push.1 hm with hm | rfl
    · exact ih m hm
    · exact fatal
  | warning before mild ih => exact ih
  | child before inner ih ihInner =>
    intro m hm
    rw [errors_addChild inner.isPoisoned_iff, Array.mem_append] at hm
    exact hm.elim (ih m) (ihInner m)

/-- A warning is not, nor is one of a stream inside. -/
theorem isFatal_eq_false (h : Recorded s) : ∀ m ∈ s.allWarnings, m.isFatal = false := by
  induction h with
  | new name isInline => simp [Stream.new, allWarnings, warningsOfAll]
  | code before _ _ warnings children ih =>
    rwa [allWarnings_eq, warnings, children, ← allWarnings_eq]
  | failure before fatal ih =>
    rw [allWarnings_eq] at ih ⊢
    exact ih
  | warning before mild ih =>
    intro m hm
    rcases mem_allWarnings_addWarning.1 hm with hm | rfl
    · exact ih m hm
    · exact mild
  | child before inner ih ihInner =>
    intro m hm
    rw [allWarnings_addChild, List.mem_append] at hm
    exact hm.elim (ih m) (ihInner m)

/-- The errors of the streams inside are errors of the stream, in their order and each once. -/
theorem errors_of_children (h : Recorded s) :
    (s.children.flatMap (·.errors.toList)).Sublist s.errors.toList := by
  induction h with
  | new name isInline => exact List.Sublist.refl _
  | code before errors _ _ children ih => rwa [errors, children]
  | failure before fatal ih => exact ih.trans (by simp [invalidate])
  | warning before mild ih => exact ih
  | child before inner ih ihInner =>
    rw [errors_addChild inner.isPoisoned_iff, children_addChild, List.flatMap_append,
      Array.toList_append, List.flatMap_singleton]
    exact ih.append (List.Sublist.refl _)

end Recorded

end Stream

/-! ### Routines -/

namespace Lower

variable {env : Env} {α : Type}

/-- Diagnostics come one by one, in whichever way a routine ends. -/
def recording : Drift where
  Le s s' := s.stream.Recorded → s'.stream.Recorded
  refl _ h := h
  trans h h' hs := h' (h hs)
  small h hs := .code hs h.errors h.isPoisoned h.warnings h.children
  aside hstream _ _ hs := hstream ▸ hs
  invalidate hm _ hs := .failure hs hm
  addWarning hm _ hs := .warning hs hm
  defer _ hs := hs
  enter _ := .new _ _
  leave h hs := .child hs (h (.new _ _))

/-- The limit of nesting is a failure like others. -/
theorem holds_failDepth {s : State} (node : Node) :
    recording.Holds env s (failDepth node : LowerM α) :=
  Drift.holds_bind (x := read) (fun h => h) fun _ _ =>
    Drift.holds_fail_of fun _ _ hs => .failure hs rfl

theorem relParts_recording (levels : Nat) :
    (recording.comparison env).RelParts (nested levels) (nested levels) := by
  induction levels with
  | zero => exact ⟨fun node _ _ _ => holds_failDepth node, fun node _ _ => holds_failDepth node⟩
  | succ levels ih =>
    exact ⟨fun node scope loc => NestedComparison.rel_lowerExpr scope node loc ih,
      fun node scope => Comparison.rel_lowerStatement scope node ih⟩

end Lower

/-! ### Units -/

namespace Generator

variable (g : Generator) (node : Node) (name : String) (kind : UnitKind)
  (containers : List String)

theorem recorded_runFunction :
    (g.runFunction node name kind containers).unit.stream.Recorded := by
  have hparts := @Lower.relParts_recording ⟨g.table, g.options⟩ g.options.maxDepth
  rw [runFunction_eq]
  exact Lower.Comparison.rel_lowerAsFunction hparts _ (.new _ _)

theorem recorded_runTopLevel :
    (g.runTopLevel node name kind containers).unit.stream.Recorded := by
  have hparts := @Lower.relParts_recording ⟨g.table, g.options⟩ g.options.maxDepth
  rw [runTopLevel_eq]
  exact Lower.Comparison.rel_lowerAsTopLevel hparts _ (.new _ _)

end Generator

end SourceIr
