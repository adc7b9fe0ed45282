import SourceIr.Proofs.Comparison.Unit
import SourceIr.Proofs.Lexical.Status
import SourceIr.Proofs.Safety.Unit

/-!
# What is kept up

What holds of a state need not be the same where a routine returns as where it fails: a failure
leaves things open, and what was open before decides what it has to leave on record.  Compile-time
blocks are set apart, for there a routine starts over in a stream of its own.

A routine fails with nothing but a sentinel, for the diagnostic is on record in the stream that the
routine was lowering into.  The one way to fail without a diagnostic is the use of a variable whose
declaration has failed, and that one has left its diagnostic in the stream that it was lowered into:
the same stream, unless the use stands in a compile-time block and the declaration outside of it.

* `ComptimeEnd`, the ways in which a compile-time block ends, with `comptimeEnd_lowerComptime`;
* `Upkeep`, two ways in which states change, that of routines that return and that of those that
  fail, with the steps that they allow;
* `Upkeep.comparison`, the routines that change the state in these ways;
* `Upkeep.relParts_nested`, all of them do, and `UnitRun.LeftBy.ends`, those of the units;
* `Stream.Failed`, a stream with a failure on record, which it stays, and `failing`, what a failure
  leaves on record;
* `failed_of_poisoned`, a failing routine, and `UnitRun.LeftBy.failed`, a failing unit.
-/

namespace SourceIr

namespace Lower

variable {env : Env} {s s' t : State} {α β : Type} {x : LowerM α} {f : α → LowerM β}
  {parts : Parts} {node expr : Node} {scope : ScopeId} {loc : ResultLoc}

/-! ### How a compile-time block ends -/

/-- The body of a compile-time block, as it is lowered over the stream of the block. -/
abbrev framedBody (parts : Parts) (node expr : Node) (scope : ScopeId) : LowerM PUnit :=
  withFrame node.location "comptime block" (lowerComptimeBody parts node expr scope)

/-- The state in which the body of a compile-time block is lowered. -/
def State.inBlock (s : State) (node : Node) (scope : ScopeId) : State :=
  (s.opening scope .comptime).inChild s!"{s.stream.name}.comptime:{comptimeSuffix node}" s.top

/-- The ways in which a compile-time block ends that breaks no rule: in place, or over a stream of
its own that is taken in, and evaluated if the body has returned. -/
inductive ComptimeEnd (parts : Parts) (node expr : Node) (scope : ScopeId) (loc : ResultLoc)
    (env : Env) (s : State) : Except Stop InstId × State → Prop
  | fault {f : Fault} {t : State} :
      ComptimeEnd parts node expr scope loc env s (.error (.fault f), t)
  | inPlace (hs : scope.index < s.scopes.scopes.size)
      (h : isComptimeIn s.stream s.scopes scope = true) :
      ComptimeEnd parts node expr scope loc env s
        (outcome (parts.expr expr s.top loc) env (s.opening scope .comptime))
  | failed {t : State} (hs : scope.index < s.scopes.scopes.size)
      (h : isComptimeIn s.stream s.scopes scope = false)
      (hx : outcome (framedBody parts node expr s.top) env (s.inBlock node scope) =
        (.error .poisoned, t)) :
      ComptimeEnd parts node expr scope loc env s
        (.error .poisoned, (s.opening scope .comptime).around t)
  | evaluated {t : State} {v : InstId} (hs : scope.index < s.scopes.scopes.size)
      (h : isComptimeIn s.stream s.scopes scope = false)
      (hx : Returns (framedBody parts node expr s.top) env (s.inBlock node scope) ⟨⟩ t) :
      ComptimeEnd parts node expr scope loc env s
        (outcome (deliver v loc scope node.location) env
          (((s.opening scope .comptime).around t).withNext
            (.comptimeBlock s.stream.children.length) scope node.location false false))

theorem comptimeEnd_lowerComptime (parts : Parts) (node expr : Node) (scope : ScopeId)
    (loc : ResultLoc) (env : Env) (s : State) :
    ComptimeEnd parts node expr scope loc env s
      (outcome (lowerComptime parts node expr scope loc) env s) := by
  rw [lowerComptime, outcome_bind]
  obtain ⟨f, -, ho⟩ | ⟨hs, ho⟩ := outcome_openScope_cases (s := s) scope .comptime <;> rw [ho]
  · exact .fault
  change ComptimeEnd parts node expr scope loc env s (outcome _ env (s.opening scope .comptime))
  -- What the scope is evaluated at has been settled before the block was opened.
  have hcomptime : isComptimeIn s.stream (s.opening scope .comptime).scopes scope =
      isComptimeIn s.stream s.scopes scope := by
    rw [isComptimeIn, isComptimeIn, State.opening,
      (ScopeTree.grows_openUnder scope .comptime).isForcedComptime_eq hs]
  rw [outcome_bind, isComptimeAt, outcome_bind]
  obtain ⟨f, -, ho⟩ | ho := outcome_scopesFrom_cases (s := s.opening scope .comptime) scope <;>
    rw [ho]
  · exact .fault
  simp only [outcome_bind, outcome_get, outcome_pure]
  rw [show (s.opening scope .comptime).stream = s.stream from rfl, hcomptime]
  split
  next h => exact .inPlace hs h
  next h =>
    rw [outcome_bind, outcome_get]
    dsimp only
    have h := Bool.eq_false_iff.2 h
    rw [outcome_bind, outcome_inChildStream]
    rcases hx : outcome _ env ((s.opening scope .comptime).inChild _ _) with ⟨(_ | _) | _, t⟩
    · exact .failed hs h hx
    · exact .fault
    · dsimp only
      rw [emitTo, outcome_bind, emit]
      obtain ⟨f, -, ho⟩ | ho := outcome_emitWith_cases (s := (s.opening scope .comptime).around t)
        (.comptimeBlock (s.opening scope .comptime).stream.children.length) scope node.location
        false false <;> rw [ho]
      · exact .fault
      · exact .evaluated hs h hx

/-! ### Two ways in which states change -/

/-- The ways in which states change where routines return, `Ok`, and where they fail, `Bad`. -/
structure Upkeep (env : Env) where
  Ok : State → State → Prop
  Bad : State → State → Prop
  refl : ∀ s, Ok s s
  trans : ∀ {s s' s''}, Ok s s' → Ok s' s'' → Ok s s''
  before : ∀ {s s' s''}, Ok s s' → Bad s' s'' → Bad s s''
  small : ∀ {s s'}, Small s s' → s'.stream.embedded = s.stream.embedded → Ok s s'
  warn : ∀ {s m log}, Ok s { s with stream := s.stream.addWarning m, log }
  defer : ∀ {s : State} {parent kind expr}, parent.index < s.scopes.scopes.size →
    Ok s { s with
      scopes := (s.scopes.openUnder parent (.deferred kind)).2
      deferred := (⟨s.scopes.scopes.size⟩, expr) :: s.deferred }
  invalidate : ∀ {s m log}, Bad s { s with stream := s.stream.invalidate m, log }
  /-- The use of a variable whose declaration has failed. -/
  lost : ∀ {s}, s.failedVars ≠ [] → Bad s s
  /-- A declaration fails with one of its parts, and its variable is marked if its name is free. -/
  after : ∀ {s s' s''}, Bad s s' → Small s' s'' → Bad s s''
  mark : ∀ {s s' var}, Bad s s' → Bad s { s' with failedVars := var :: s'.failedVars }
  /-- Where that is the policy, the other statements of a block are lowered after a failure. -/
  resume : ∀ {s s' s''}, env.options.errorPolicy = .proceed → Bad s s' → Ok s' s'' → Bad s s''
  again : ∀ {s s' s''}, env.options.errorPolicy = .proceed → Bad s s' → Bad s' s'' → Bad s s''
  framed : ∀ {s t : State} {frame}, Ok { s with calls := s.calls.push frame } t →
    Ok s { t with calls := t.calls.pop.2 }
  framedBad : ∀ {s t : State} {frame}, Bad { s with calls := s.calls.push frame } t →
    Bad s { t with calls := t.calls.pop.2 }
  /-- The stream of a compile-time block is taken in and evaluated when its body has returned. -/
  evaluated : ∀ {s t levels node expr scope}, scope.index < s.scopes.scopes.size →
    isComptimeIn s.stream s.scopes scope = false →
    Returns (framedBody (nested levels) node expr s.top) env (s.inBlock node scope) ⟨⟩ t →
    Ok (s.inBlock node scope) t →
    Ok s (((s.opening scope .comptime).around t).withNext
      (.comptimeBlock s.stream.children.length) scope node.location false false)
  /-- It is taken in also when the body has failed. -/
  failed : ∀ {s t node scope}, scope.index < s.scopes.scopes.size →
    isComptimeIn s.stream s.scopes scope = false → Bad (s.inBlock node scope) t →
    Bad s ((s.opening scope .comptime).around t)

namespace Upkeep

variable {u : Upkeep env}

/-- How a routine ends that changes the state in these ways. -/
def Ends (u : Upkeep env) (s : State) : Except Stop α × State → Prop
  | (.ok _, t) => u.Ok s t
  | (.error .poisoned, t) => u.Bad s t
  | (.error (.fault _), _) => True

/-- From a state on, a routine changes it in these ways. -/
def Holds (u : Upkeep env) (s : State) (x : LowerM α) : Prop := u.Ends s (outcome x env s)

theorem ends_before {o : Except Stop α × State} (h : u.Ok s t) (ho : u.Ends t o) :
    u.Ends s o := by
  obtain ⟨(_ | _) | _, _⟩ := o
  · exact u.before h ho
  · trivial
  · exact u.trans h ho

theorem holds_pure (a : α) : u.Holds s (pure a) := u.refl s

theorem holds_fault (f : Fault) : u.Holds s (throw (.fault f) : LowerM α) := trivial

theorem holds_bind (hx : u.Holds s x) (hf : ∀ a t, u.Holds t (f a)) : u.Holds s (x >>= f) := by
  rw [Holds] at hx ⊢
  rw [outcome_bind]
  rcases ho : outcome x env s with ⟨(_ | _) | a, t⟩ <;> rw [ho] at hx
  · exact hx
  · trivial
  · exact ends_before hx (hf a t)

/-- A routine after one that leaves the state as it is. -/
theorem holds_read_bind {f : Env → LowerM β} (h : u.Holds s (f env)) :
    u.Holds s (read >>= f) := h

theorem holds_step_of (hx : Step x)
    (he : (outcome x env s).2.stream.embedded = s.stream.embedded) : u.Holds s x := by
  have h := hx.ends env s
  rw [Holds]
  rcases ho : outcome x env s with ⟨(_ | _) | a, t⟩ <;> rw [ho] at h he
  · exact h.elim
  · trivial
  · exact u.small h he

theorem holds_step (hx : InnerStep x) : u.Holds s x :=
  holds_step_of hx.toStep (hx.embedded env s)

theorem holds_warnAt {kind : DiagnosticKind} {message : String} :
    u.Holds s (warnAt kind message node) := u.warn

theorem holds_fail {m : Message} : u.Holds s (fail m : LowerM α) := by
  obtain ⟨log, h⟩ := @outcome_fail α env s m
  rw [Holds, h]
  exact u.invalidate

theorem holds_isTerminated : u.Holds s isTerminated := by
  rw [Holds, isTerminated, outcome_bind, outcome_get]
  dsimp only
  cases s.stream.endFault? with
  | some f => trivial
  | none => exact u.refl s

theorem holds_declare (scope : ScopeId) (r : BindingRequest) :
    u.Holds s (declare scope r) := by
  have h := outcome_declare? env s scope r
  rw [Holds, declare, outcome_bind]
  generalize outcome (declare? scope r) env s = o at h
  cases h with
  | fault => trivial
  | declared h hs => exact u.small h (hs ▸ rfl)
  | refused => exact holds_fail

theorem holds_defer (scope : ScopeId) (kind : DeferKind) (expr : Node) : u.Holds s (do
      let after ← openScope scope (.deferred kind)
      remember after expr
      return after) := by
  rw [Holds, outcome_bind]
  obtain ⟨f, -, ho⟩ | ⟨hlt, ho⟩ := outcome_openScope_cases (s := s) scope (.deferred kind) <;>
    rw [ho]
  · trivial
  · exact u.defer hlt

theorem holds_orDeclareFailed (node : Node) (name : String) (scope : ScopeId)
    (hx : u.Holds s x) : u.Holds s (orDeclareFailed x node name scope) := by
  rw [Holds] at hx ⊢
  rw [orDeclareFailed, outcome_bind, outcome_attempt]
  rcases ho : outcome x env s with ⟨(_ | _) | a, t⟩ <;> rw [ho] at hx
  · dsimp only
    rw [declareFailed, outcome_bind]
    have h := outcome_declare? env t scope (.named name node.location)
    generalize outcome (declare? scope (.named name node.location)) env t = o at h
    cases h with
    | fault => trivial
    | declared h => exact u.mark (u.after hx h)
    | refused => exact hx
  · trivial
  · exact hx

theorem holds_withFrame {location : Option Location} {description : String}
    (hx : ∀ s, u.Holds s x) : u.Holds s (withFrame location description x) := by
  have h := hx { s with calls := s.calls.push ⟨location, description⟩ }
  rw [Holds] at h ⊢
  rw [withFrame, outcome_bind, outcome_modify]
  dsimp only
  rw [outcome_bind, outcome_attempt]
  rcases ho : outcome x env { s with calls := s.calls.push ⟨location, description⟩ } with
    ⟨(_ | _) | a, t⟩ <;> rw [ho] at h
  · exact u.framedBad h
  · trivial
  · exact u.framed h

/-! ### Statements -/

/-- How the rest of a block ends after the failure of a statement: it fails in the end. -/
def EndsFailed (u : Upkeep env) (s : State) : Except Stop α × State → Prop
  | (.ok _, _) => False
  | (.error .poisoned, t) => u.Bad s t
  | (.error (.fault _), _) => True

theorem EndsFailed.ends {o : Except Stop α × State} (h : u.EndsFailed s o) : u.Ends s o := by
  obtain ⟨(_ | _) | _, _⟩ := o
  · exact h
  · trivial
  · exact h.elim

theorem endsFailed_lowerStatements (hpolicy : env.options.errorPolicy = .proceed)
    (hp : ∀ node scope s, u.Holds s (parts.statement node scope)) {statements : List Node}
    {scope : ScopeId} (h : u.Bad s t) :
    u.EndsFailed s (outcome (lowerStatements parts scope true statements) env t) := by
  induction statements generalizing t scope with
  | nil => exact h
  | cons statement rest ih =>
    rw [lowerStatements, outcome_bind, isTerminated, outcome_bind, outcome_get]
    dsimp only
    cases t.stream.endFault? with
    | some f => trivial
    | none =>
      rw [outcome_bind, outcome_stopAt_none]
      dsimp only [outcome_pure]
      split
      · exact u.resume hpolicy h u.warn
      · have hs := hp statement scope t
        rw [Holds] at hs
        rw [outcome_bind, outcome_attempt]
        rcases ho : outcome (parts.statement statement scope) env t with ⟨(_ | _) | next, v⟩ <;>
          rw [ho] at hs
        · dsimp only
          rw [outcome_bind, outcome_read]
          dsimp only
          rw [hpolicy]
          exact ih (u.again hpolicy h hs)
        · trivial
        · exact ih (u.resume hpolicy h hs)

theorem holds_lowerStatements (hp : ∀ node scope s, u.Holds s (parts.statement node scope))
    (statements : List Node) (scope : ScopeId) :
    u.Holds s (lowerStatements parts scope false statements) := by
  induction statements generalizing s scope with
  | nil => exact holds_pure _
  | cons statement rest ih =>
    refine holds_bind holds_isTerminated fun terminated s => ?_
    cases terminated with
    | true => exact holds_bind holds_warnAt fun _ s => holds_pure _
    | false =>
      have hs := hp statement scope s
      rw [Holds] at hs ⊢
      rw [if_neg Bool.false_ne_true, outcome_bind, outcome_attempt]
      rcases ho : outcome (parts.statement statement scope) env s with ⟨(_ | _) | next, t⟩ <;>
        rw [ho] at hs
      · dsimp only
        rw [outcome_bind, outcome_read]
        dsimp only
        split
        · exact hs
        next hpolicy => exact (endsFailed_lowerStatements hpolicy hp hs).ends
      · trivial
      · exact ends_before hs (ih next)

/-- The routines that change the state in these ways, from wherever they start. -/
def comparison (u : Upkeep env) : Comparison where
  Rel x _ := ∀ s, u.Holds s x
  rel_pure a _ := holds_pure a
  rel_bind hx hf s := holds_bind (hx s) hf
  rel_get _ h s := h s s
  rel_lookup scopes scope name location lval hx hy s := by
    refine holds_read_bind ?_
    split
    · exact hx _ s
    · exact holds_step_of (step_emitWith _ _ _ _ _) (embedded_emitWith rfl _ _ _ _)
    · exact hy s
  rel_warnIdle _ _ h s := holds_read_bind <| by
    split
    · exact holds_bind holds_warnAt fun _ t => h t
    · exact h s
  rel_fault _ _ := holds_fault _
  rel_fail _ _ _ := holds_fail
  rel_unlessFailed var h s := by
    rw [Holds, outcome_bind, outcome_get]
    dsimp only
    split
    next hvar => exact u.lost fun hnil => by simp [hnil] at hvar
    next => exact h s
  rel_step hx _ := holds_step hx
  rel_declare scope r _ _ := holds_declare scope r
  rel_defer scope kind expr _ := holds_defer scope kind expr
  rel_orDeclareFailed node name scope h s := holds_orDeclareFailed node name scope (h s)
  rel_withFrame _ _ h _ := holds_withFrame h
  rel_lowerStatements h statements scope _ :=
    holds_lowerStatements (fun node scope s => h node scope s) statements scope

/-! ### All levels of nesting -/

theorem ok_opening (hs : scope.index < s.scopes.scopes.size) :
    u.Ok s (s.opening scope .comptime) :=
  u.small (.of_scopes (.opened .comptime hs)) rfl

theorem holds_framedBody (hp : u.comparison.RelParts parts parts) :
    u.Holds s (framedBody parts node expr scope) :=
  holds_withFrame fun s => Comparison.rel_lowerComptimeBody _ _ hp _ s

theorem holds_lowerComptime {levels : Nat}
    (hp : u.comparison.RelParts (nested levels) (nested levels)) :
    u.Holds s (lowerComptime (nested levels) node expr scope loc) := by
  have hbody : u.Holds (s.inBlock node scope) (framedBody (nested levels) node expr s.top) :=
    holds_framedBody hp
  rw [Holds] at hbody ⊢
  have h := comptimeEnd_lowerComptime (nested levels) node expr scope loc env s
  generalize outcome (lowerComptime (nested levels) node expr scope loc) env s = o at h
  cases h with
  | fault => trivial
  | inPlace hs => exact ends_before (ok_opening hs) (hp.expr _ _ _ _)
  | failed hs h hx =>
    rw [hx] at hbody
    exact u.failed hs h hbody
  | evaluated hs h hx =>
    have hok := hbody
    rw [hx] at hok
    exact ends_before (u.evaluated hs h hx hok)
      (Outline.same_deliver (C := u.comparison.toOutline) _ _ _ _ _)

theorem holds_failDepth : u.Holds s (failDepth node : LowerM α) :=
  holds_read_bind holds_fail

theorem relParts_nested (u : Upkeep env) (levels : Nat) :
    u.comparison.RelParts (nested levels) (nested levels) := by
  induction levels with
  | zero => exact ⟨fun _ _ _ _ => holds_failDepth, fun _ _ _ => holds_failDepth⟩
  | succ levels ih =>
    exact ⟨fun node scope loc => Comparison.rel_lowerExpr_of scope node loc ih
        fun _ _ => holds_lowerComptime ih,
      fun node scope => Comparison.rel_lowerStatement scope node ih⟩

end Upkeep

end Lower

/-! ### Units -/

open Lower

/-- A unit is what a routine leaves behind that starts over a fresh stream.  Whatever relates the
routines for parts to themselves relates it to itself. -/
structure UnitRun.LeftBy (run : UnitRun) (env : Env) (s : State) (x : LowerM PUnit) : Prop where
  eq : run = .ofEnd run.unit.name run.unit.kind (Lower.outcome x env s)
  stream : ∃ name isInline, s.stream = .new name isInline
  failedVars : s.failedVars = []
  same : ∀ C : Comparison,
    C.RelParts (nested env.options.maxDepth) (nested env.options.maxDepth) → C.Same x

namespace UnitRun.LeftBy

variable {run : UnitRun} {env : Env} {s : State} {x : LowerM PUnit}

/-- How a unit is left: as one that returned or as one that failed. -/
theorem ends (h : run.LeftBy env s x) (u : Upkeep env) :
    ∃ t, t.stream = run.unit.stream ∧ t.scopes = run.unit.scopes ∧ u.Ends s (run.outcome, t) := by
  have hx : u.Holds s x := h.same u.comparison (u.relParts_nested _) s
  rw [h.eq]
  exact ⟨_, rfl, rfl, hx⟩

end UnitRun.LeftBy

namespace Generator

variable (g : Generator) (node : Node) (name : String) (kind : UnitKind)
  (containers : List String)

theorem leftBy_runFunction : ∃ s x,
    (g.runFunction node name kind containers).LeftBy ⟨g.table, g.options⟩ s x ∧ Starting s := by
  have ho := g.opened_unitScopes containers
  obtain ⟨y, hy, hk⟩ := ho.kind
  have hstart : Starting (g.start (Stream.new name false) (g.unitScopes containers).2
      (g.unitScopes containers).1) :=
    ⟨⟨_, _, rfl⟩, rfl, rfl, ho.scopes, g.bare_unitScopes containers, y, hy, exits_of_endsJumps hk⟩
  refine ⟨_, lowerAsFunction (nested g.options.maxDepth) node name (g.unitScopes containers).1,
    ⟨?_, hstart.stream, rfl, fun C hp => Comparison.rel_lowerAsFunction hp⟩, hstart⟩
  rw [runFunction_eq]
  rfl

theorem leftBy_runTopLevel : ∃ s x,
    (g.runTopLevel node name kind containers).LeftBy ⟨g.table, g.options⟩ s x ∧ Starting s := by
  have ho := g.opened_unitScopes containers
  let scopes := (g.unitScopes containers).2.openUnder (g.unitScopes containers).1 .comptime
  have hstart : Starting (g.start (Stream.new name true) scopes.2 scopes.1) :=
    ⟨⟨_, _, rfl⟩, rfl, rfl, ho.scopes.openUnder ho.index,
      (g.bare_unitScopes containers).openUnder, _, ScopeTree.scope?_openUnder _ _, rfl⟩
  refine ⟨_, lowerAsTopLevel (nested g.options.maxDepth) node name scopes.1,
    ⟨?_, hstart.stream, rfl, fun C hp => Comparison.rel_lowerAsTopLevel hp⟩, hstart⟩
  rw [runTopLevel_eq]
  rfl

theorem leftBy_runNode : ∃ s x,
    (g.runNode node name containers).LeftBy ⟨g.table, g.options⟩ s x ∧ Starting s := by
  rw [runNode]
  cases UnitKind.ofNode node
  case function | test => exact g.leftBy_runFunction ..
  case topLevel | comptime => exact g.leftBy_runTopLevel ..

theorem leftBy_lowerIn (scopes : ScopeTree) (scope : ScopeId) : ∃ s x,
    (g.lowerIn node scopes scope name).LeftBy ⟨g.table, g.options⟩ s x :=
  ⟨g.start (Stream.new name (scopes.isForcedComptime scope)) scopes scope,
    lowerComptimeBody (nested g.options.maxDepth) node node scope, rfl, ⟨_, _, rfl⟩, rfl,
    fun _ hp => Comparison.rel_lowerComptimeBody _ _ hp _⟩

end Generator

theorem Lowering.exists_leftBy {node : Node} {run : UnitRun} (h : Lowering node run) :
    ∃ env s x, run.LeftBy env s x ∧ Starting s := by
  cases h with
  | inFile => exact ⟨_, Generator.leftBy_runNode ..⟩
  | alone g => exact ⟨_, g.leftBy_runNode ..⟩
  | asFn g => exact ⟨_, g.leftBy_runFunction ..⟩

/-! ### Failures on record -/

/-- A failure is on record. -/
structure Stream.Failed (s : Stream) : Prop where
  isPoisoned : s.isPoisoned = true
  errors : s.errors ≠ #[]

namespace Stream

variable {s s' child : Stream}

theorem Failed.congr (h : s.Failed) (hp : s'.isPoisoned = s.isPoisoned)
    (he : s'.errors = s.errors) : s'.Failed :=
  ⟨hp.trans h.isPoisoned, he ▸ h.errors⟩

theorem failed_invalidate (s : Stream) (m : Message) : (s.invalidate m).Failed :=
  ⟨rfl, by simp [invalidate]⟩

/-- What is on record stays when another stream is taken in. -/
theorem Failed.addChild (h : s.Failed) (child : Stream) : (s.addChild child).2.Failed := by
  rw [addChild_eq]
  exact ⟨by simp [h.isPoisoned], by simp [h.errors]⟩

/-- The failure of a stream goes on record in the stream that takes it in. -/
theorem failed_addChild (s : Stream) (h : child.Failed) : (s.addChild child).2.Failed := by
  rw [addChild_eq]
  exact ⟨by simp [h.isPoisoned, h.errors], by simp [h.isPoisoned, h.errors]⟩

end Stream

namespace Lower

variable {env : Env} {s s' : State}

/-- Whether a routine ended with the sentinel. -/
def hasFailed {α : Type} : Except Stop α → Bool
  | .error .poisoned => true
  | _ => false

theorem eq_of_hasFailed {α : Type} {r : Except Stop α} (h : hasFailed r = true) :
    r = .error .poisoned := by
  obtain (_ | _) | _ := r
  · rfl
  · cases h
  · cases h

theorem Small.failed (h : Small s s') (hf : s.stream.Failed) : s'.stream.Failed :=
  hf.congr h.isPoisoned h.errors

/-- A routine that fails leaves a failure on record, or met one that is older than itself. -/
def failing (env : Env) : Upkeep env where
  Ok s s' := s'.failedVars = s.failedVars ∧ (s.stream.Failed → s'.stream.Failed)
  Bad s s' := (s'.stream.Failed ∨ s.failedVars ≠ []) ∧ (s.stream.Failed → s'.stream.Failed)
  refl _ := ⟨rfl, id⟩
  trans h h' := ⟨h'.1.trans h.1, h'.2 ∘ h.2⟩
  before h h' := ⟨h'.1.imp id fun hv => h.1 ▸ hv, h'.2 ∘ h.2⟩
  small h _ := ⟨h.failedVars, h.failed⟩
  warn := ⟨rfl, fun h => h.congr rfl rfl⟩
  defer _ := ⟨rfl, id⟩
  invalidate := ⟨.inl (Stream.failed_invalidate _ _), fun _ => Stream.failed_invalidate _ _⟩
  lost h := ⟨.inr h, id⟩
  after h h' := ⟨h.1.imp h'.failed id, h'.failed ∘ h.2⟩
  mark h := h
  resume _ h h' := ⟨h.1.imp h'.2 id, h'.2 ∘ h.2⟩
  again _ h h' := ⟨h.1.imp h'.2 id, h'.2 ∘ h.2⟩
  framed h := h
  framedBad h := h
  evaluated _ _ _ h := ⟨h.1, fun hf => (hf.addChild _).congr rfl rfl⟩
  failed _ _ h := ⟨h.1.imp (Stream.failed_addChild _) id, fun hf => hf.addChild _⟩

/-- Whichever routine fails, the stream that it was lowering into has a failure on record, unless
the declaration of a variable had failed before. -/
theorem failed_of_poisoned (levels : Nat) :
    (∀ {node : Node} {scope : ScopeId} {loc : ResultLoc},
      outcome ((nested levels).expr node scope loc) env s = (.error .poisoned, s') →
        s'.stream.Failed ∨ s.failedVars ≠ []) ∧
    ∀ {node : Node} {scope : ScopeId},
      outcome ((nested levels).statement node scope) env s = (.error .poisoned, s') →
        s'.stream.Failed ∨ s.failedVars ≠ [] := by
  have hp := (failing env).relParts_nested levels
  constructor
  · intro node scope loc ho
    have h := hp.expr node scope loc s
    rw [Upkeep.Holds, ho] at h
    exact h.1
  · intro node scope ho
    have h := hp.statement node scope s
    rw [Upkeep.Holds, ho] at h
    exact h.1

end Lower

/-- A unit whose lowering fails has a failure on record. -/
theorem UnitRun.LeftBy.failed {run : UnitRun} {env : Env} {s : State} {x : LowerM PUnit}
    (h : run.LeftBy env s x) (ho : run.outcome = .error .poisoned) : run.unit.stream.Failed := by
  obtain ⟨t, hstream, -, hends⟩ := h.ends (failing env)
  rw [ho] at hends
  exact hstream ▸ hends.1.resolve_right fun hv => hv h.failedVars

end SourceIr
