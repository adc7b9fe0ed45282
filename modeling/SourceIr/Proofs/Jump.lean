import SourceIr.Proofs.Logic.Basic
import SourceIr.Proofs.Run
import SourceIr.Proofs.Scope.Jump

/-!
# Jumps that are lowered

A jump that is lowered has found the scope that it leads to, and it does not leave the stream.  What
is left of the routine then is the way out.

* `Leads`, what is known of the target of a jump;
* `returns_lowerBreak`, `returns_lowerContinue`, `returns_checkFnExit`, the routines that jump,
  taken apart up to the way out.
-/

namespace SourceIr.Lower

variable {env : Env} {parts : Parts} {s s' : State} {scope target : ScopeId} {node : Node}
  {v : InstId} {label : Option String} {jump : JumpKind} {α : Type}

theorem mem_exits_of_breakBlock? {kind : ScopeKind} {stop : BlockId}
    (h : breakBlock? kind = some stop) : stop ∈ exits kind := by
  cases kind <;> simp_all [breakBlock?, exits]

theorem mem_exits_of_continueBlock? {kind : ScopeKind} {step : BlockId}
    (h : continueBlock? kind = some step) : step ∈ exits kind := by
  cases kind <;> simp_all [continueBlock?, exits]

/-- A jump from a scope leads to another one, of this kind, and does not leave the stream. -/
structure Leads (s : State) (jump : JumpKind) (label : Option String)
    (scope target : ScopeId) (z : Scope) : Prop where
  found : ScopeTree.jumpTargetIn jump label (s.scopes.chain scope) = .found target
  stays : s.scopes.leaves s.streamRoot scope (some target) = false
  scope? : s.scopes.scope? target = some z

/-- The target of a jump lies inside the root of the stream. -/
theorem Leads.mem_inside {z : Scope} {b : BlockId} (h : Leads s jump label scope target z)
    (hs : s.scopes.WellFormed)
    (hroot : ∃ y, s.scopes.scope? s.streamRoot = some y ∧ exits y.kind = [])
    (hb : b ∈ exits z.kind) : (target, z.kind) ∈ s.scopes.inside s.streamRoot scope :=
  hs.mem_inside (ne_root_of_exits hroot h.scope? hb)
    (ScopeTree.mem_of_found h.found) h.stays h.scope?

theorem returns_breakScope (h : Returns (breakScope node label scope) env s target s') :
    s = s' ∧ ScopeTree.jumpTargetIn .toBreak label (s.scopes.chain scope) = .found target := by
  rw [breakScope] at h
  replace h := returns_scopesFrom_bind h
  split at h
  next heq =>
    obtain ⟨rfl, rfl⟩ := returns_pure.1 h
    exact ⟨rfl, heq⟩
  all_goals exact absurd h not_returns_fail

theorem returns_continueScope (h : Returns (continueScope node label scope) env s target s') :
    s = s' ∧ ScopeTree.jumpTargetIn .toContinue label (s.scopes.chain scope) = .found target := by
  rw [continueScope] at h
  replace h := returns_scopesFrom_bind h
  split at h
  next heq =>
    obtain ⟨rfl, rfl⟩ := returns_pure.1 h
    exact ⟨rfl, heq⟩
  all_goals exact absurd h not_returns_fail

/-- A jump stays in its stream if it is lowered. -/
theorem returns_leavesStream_bind {target : Option ScopeId} {x : LowerM α} {a : α}
    (h : Returns (do if ← leavesStream scope target then failLeaving node else x) env s a s') :
    s.scopes.leaves s.streamRoot scope target = false ∧ Returns x env s a s' := by
  obtain ⟨leaves, t, h₁, h⟩ := returns_bind.1 h
  rw [leavesStream] at h₁
  replace h₁ := returns_scopesFrom_bind h₁
  rw [returns_get_bind] at h₁
  obtain ⟨rfl, rfl⟩ := returns_pure.1 h₁
  split at h
  · exact absurd h not_returns_fail
  next hleaves => exact ⟨Bool.eq_false_iff.2 hleaves, h⟩

/-- What is left of a `break` once its target is known. -/
theorem returns_lowerBreak {value : Option Node}
    (h : Returns (lowerBreak parts node label value scope) env s v s') :
    ∃ target z stop, Leads s .toBreak label scope target z ∧ breakBlock? z.kind = some stop ∧
      Returns (do
        let v ←
          match value with
          | some value =>
            parts.expr value scope (((s.sinks.lookup target).map (·.resultLoc)).getD .none)
          | none => emitVoid scope node.location
        runDefers parts scope (some target) .normal
        if ← isTerminated then lastInst
        else
          flowInto target v
          emit (.br stop) scope node.location) env s v s' := by
  rw [lowerBreak] at h
  obtain ⟨target, t, h₁, h⟩ := returns_bind.1 h
  obtain ⟨rfl, hfound⟩ := returns_breakScope h₁
  obtain ⟨hstays, h⟩ := returns_leavesStream_bind h
  obtain ⟨z, hz, h⟩ := returns_scopeAt_bind h
  split at h
  next => exact absurd h not_returns_fail
  next stop hstop =>
    obtain ⟨sink, t, h₂, h⟩ := returns_bind.1 h
    rw [sink?, returns_get_bind] at h₂
    obtain ⟨rfl, rfl⟩ := returns_pure.1 h₂
    exact ⟨target, z, stop, ⟨hfound, hstays, hz⟩, hstop, h⟩

/-- What is left of a `continue` once its target is known. -/
theorem returns_lowerContinue (h : Returns (lowerContinue parts node label scope) env s v s') :
    ∃ target z step, Leads s .toContinue label scope target z ∧
      continueBlock? z.kind = some step ∧
      Returns (do
        runDefers parts scope (some target) .normal
        if ← isTerminated then lastInst else emit (.br step) scope node.location) env s v s' := by
  rw [lowerContinue] at h
  obtain ⟨target, t, h₁, h⟩ := returns_bind.1 h
  obtain ⟨rfl, hfound⟩ := returns_continueScope h₁
  obtain ⟨hstays, h⟩ := returns_leavesStream_bind h
  obtain ⟨z, hz, h⟩ := returns_scopeAt_bind h
  split at h
  next => exact absurd h not_returns_fail
  next step hstep => exact ⟨target, z, step, ⟨hfound, hstays, hz⟩, hstep, h⟩

/-- Where the function may be left. -/
theorem returns_checkFnExit {exit : FnExit} {x : PUnit}
    (h : Returns (checkFnExit node scope exit) env s x s') :
    s = s' ∧ s.scopes.inDeferredBody scope = false ∧
      s.scopes.leaves s.streamRoot scope none = false ∧
      (s.scopes.enclosingFn scope).isSome := by
  rw [checkFnExit] at h
  replace h := returns_scopesFrom_bind h
  split at h
  · exact absurd h not_returns_fail
  next hfn =>
    split at h
    · exact absurd h not_returns_fail
    next hd =>
      obtain ⟨hstays, h⟩ := returns_leavesStream_bind h
      obtain ⟨-, rfl⟩ := returns_pure.1 h
      exact ⟨rfl, by simpa using hd, hstays, by simpa [Option.isSome_iff_ne_none] using hfn⟩

theorem returns_lastInst (h : Returns lastInst env s v s') : s = s' := by
  rw [lastInst, returns_get_bind] at h
  exact (returns_pure.1 h).2.symm

end SourceIr.Lower
