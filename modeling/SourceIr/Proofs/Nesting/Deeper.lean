import SourceIr.Proofs.Comparison.Unit
import SourceIr.Proofs.Safety.Unit

/-!
# More levels of nesting

A node that is nested too deeply is refused with a diagnostic, and what it is a part of fails with
it.  A routine that returns has therefore met no such node, and does the same where more levels of
nesting are allowed.

* `Env.deep`, the environment with another limit;
* `Lasts`, the routines that return under a limit and return the same under another one, and
  `lasting`, the comparison of them;
* `Generator.runNodeBy_of_lasting`, a unit that is not poisoned is the same with routines for parts
  that return the same;
* `Generator.runNode_deep` and `Generator.runFunction_deep`, with more levels of nesting.
-/

namespace SourceIr

/-- The options with another limit of nesting. -/
def Options.deep (o : Options) (maxDepth : Nat) : Options := { o with maxDepth }

namespace Lower

/-- The environment with another limit of nesting. -/
def Env.deep (env : Env) (maxDepth : Nat) : Env :=
  { env with options := env.options.deep maxDepth }

/-- Where the first routine returns, the second returns the same under the other limit. -/
def Lasts (env : Env) (maxDepth : Nat) {α : Type} (x x' : LowerM α) : Prop :=
  ∀ s a t, Returns x env s a t → Returns x' (env.deep maxDepth) s a t

variable {env : Env} {maxDepth : Nat} {α β : Type} {x x' : LowerM α} {f f' : α → LowerM β}

/-! ### Rules -/

/-- A routine that does not ask for the limit. -/
theorem lasts_of_same (h : ∀ s, outcome x (env.deep maxDepth) s = outcome x env s) :
    Lasts env maxDepth x x := fun s _ _ hr => (h s).trans hr

theorem lasts_of_not_returns (h : ∀ s a t, ¬ Returns x env s a t) : Lasts env maxDepth x x' :=
  fun s a t hr => absurd hr (h s a t)

theorem lasts_bind (hx : Lasts env maxDepth x x') (hf : ∀ a, Lasts env maxDepth (f a) (f' a)) :
    Lasts env maxDepth (x >>= f) (x' >>= f') := by
  intro s b t h
  obtain ⟨a, u, ha, hb⟩ := returns_bind.1 h
  exact returns_bind.2 ⟨a, u, hx s a u ha, hf a u b t hb⟩

theorem lasts_ite {p : Prop} [Decidable p] {y y' : LowerM α} (hx : Lasts env maxDepth x x')
    (hy : Lasts env maxDepth y y') :
    Lasts env maxDepth (if p then x else y) (if p then x' else y') := by
  split
  · exact hx
  · exact hy

theorem lasts_isTerminated : Lasts env maxDepth isTerminated isTerminated :=
  lasts_of_same fun s => by
    rw [isTerminated, outcome_bind, outcome_bind, outcome_get, outcome_get]
    dsimp only
    cases s.stream.endFault? <;> rfl

/-- An attempt that fails is followed by a failure. -/
theorem lasts_attempt_bind {f f' : Option α → LowerM β} (hx : Lasts env maxDepth x x')
    (hf : ∀ a, Lasts env maxDepth (f (some a)) (f' (some a)))
    (hn : ∀ s b t, ¬ Returns (f none) env s b t) :
    Lasts env maxDepth (attempt x >>= f) (attempt x' >>= f') := by
  intro s b t h
  obtain ⟨r, u, hr, hb⟩ := returns_bind.1 h
  cases r with
  | none => exact absurd hb (hn u b t)
  | some a =>
    exact returns_bind.2 ⟨some a, u, returns_attempt_some.2 (hx s a u (returns_attempt_some.1 hr)),
      hf a u b t hb⟩

theorem lasts_declare? (scope : ScopeId) (r : BindingRequest) :
    Lasts env maxDepth (declare? scope r) (declare? scope r) := by
  intro s a t h
  rw [declare?, returns_read_bind, returns_get_bind] at h ⊢
  obtain ⟨hf, h⟩ := returns_stopAt_bind h
  rw [hf]
  revert h
  dsimp only [Env.deep]
  cases s.scopes.declare scope r env.table <;> exact id

theorem lasts_declare (scope : ScopeId) (r : BindingRequest) :
    Lasts env maxDepth (declare scope r) (declare scope r) := by
  refine lasts_bind (lasts_declare? scope r) fun r => ?_
  cases r with
  | ok var => exact lasts_of_same fun _ => rfl
  | error m => exact lasts_of_not_returns fun _ _ _ => not_returns_fail

theorem lasts_orDeclareFailed (node : Node) (name : String) (scope : ScopeId)
    (hx : Lasts env maxDepth x x') :
    Lasts env maxDepth (orDeclareFailed x node name scope)
      (orDeclareFailed x' node name scope) := by
  refine lasts_attempt_bind hx (fun a => lasts_of_same fun _ => rfl) fun s b t => ?_
  refine not_returns_bind fun r _ => ?_
  cases r with
  | ok var => exact not_returns_bind fun _ _ => not_returns_throw
  | error m => exact not_returns_throw

theorem lasts_withFrame {location : Option Location} {description : String}
    (hx : Lasts env maxDepth x x') : Lasts env maxDepth (withFrame location description x)
      (withFrame location description x') := by
  refine lasts_bind (lasts_of_same fun _ => rfl) fun _ => ?_
  refine lasts_attempt_bind hx (fun a => lasts_of_same fun _ => rfl) fun s b t => ?_
  exact not_returns_bind fun _ _ => not_returns_throw

theorem lasts_inChildStream {f f' : Nat × Option α → LowerM β} {name : String} {root : ScopeId}
    (hx : Lasts env maxDepth x x') (hf : ∀ unit, f (unit, none) = throw .poisoned)
    (h : ∀ unit a, Lasts env maxDepth (f (unit, some a)) (f' (unit, some a))) :
    Lasts env maxDepth (inChildStream name root x >>= f) (inChildStream name root x' >>= f') := by
  intro s b t hr
  rw [Returns, outcome_bind, outcome_inChildStream] at hr ⊢
  rcases ho : outcome x env (s.inChild name root) with ⟨(_ | e) | a, u⟩ <;> rw [ho] at hr
  · simp only [hf] at hr
    cases hr
  · cases hr
  · rw [show outcome x' _ _ = _ from hx _ a u ho]
    exact h _ a _ b t hr

theorem lasts_lowerStatements {parts parts' : Parts}
    (hp : ∀ node scope,
      Lasts env maxDepth (parts.statement node scope) (parts'.statement node scope))
    (statements : List Node) (scope : ScopeId) :
    Lasts env maxDepth (lowerStatements parts scope false statements)
      (lowerStatements parts' scope false statements) := by
  induction statements generalizing scope with
  | nil => exact lasts_of_same fun _ => rfl
  | cons statement rest ih =>
    refine lasts_bind lasts_isTerminated fun terminated => ?_
    refine lasts_ite (lasts_of_same fun _ => rfl) ?_
    refine lasts_attempt_bind (hp statement scope) (fun next => ih next) fun s b t => ?_
    -- A block one of whose statements has failed does not return, under either policy.
    refine not_returns_bind fun e _ => ?_
    cases e.options.errorPolicy with
    | abort => exact not_returns_throw
    | proceed => exact not_returns_lowerStatements

/-- The routines that return the same under another limit of nesting, if they return. -/
def lasting (env : Env) (maxDepth : Nat) : NestedComparison where
  Rel x x' := Lasts env maxDepth x x'
  rel_pure _ := lasts_of_same fun _ => rfl
  rel_bind hx hf := lasts_bind hx hf
  rel_get _ h s a t hr := returns_get_bind.2 (h s s a t (returns_get_bind.1 hr))
  rel_lookup scopes scope name _ _ hx hy s a t hr := by
    rw [returns_read_bind] at hr ⊢
    revert hr
    dsimp only [Env.deep]
    rcases scopes.lookup scope name env.table with _ | v | d
    · exact hy s a t
    · exact hx v s a t
    · exact lasts_of_same (fun _ => (step_emitWith _ _ _ _ _).same _ _ _) s a t
  rel_warnIdle _ _ h s a t hr := by
    rw [returns_read_bind] at hr ⊢
    exact lasts_ite (lasts_bind (lasts_of_same fun _ => rfl) fun _ => h) h s a t hr
  rel_fault _ := lasts_of_same fun _ => rfl
  rel_fail _ _ := lasts_of_not_returns fun _ _ _ => not_returns_fail
  rel_unlessFailed _ h s a t hr := by
    rw [returns_get_bind] at hr ⊢
    exact lasts_ite (lasts_of_same fun _ => rfl) h s a t hr
  rel_plain hx := lasts_of_same fun _ => hx.same _ _ _
  rel_declare scope r _ := lasts_declare scope r
  rel_defer _ _ _ := lasts_bind (lasts_of_same fun _ => (step_openScope _ _).same _ _ _)
    fun _ => lasts_of_same fun _ => rfl
  rel_orDeclareFailed node name scope h := lasts_orDeclareFailed node name scope h
  rel_withFrame _ _ h := lasts_withFrame h
  rel_inChildStream _ _ hx hf _ h := lasts_inChildStream hx hf h
  rel_lowerStatements h statements scope := lasts_lowerStatements h statements scope

/-- A routine for parts lasts where there are no fewer levels of nesting left. -/
theorem relParts_lasting {levels levels' : Nat} (h : levels ≤ levels') :
    (lasting env maxDepth).RelParts (nested levels) (nested levels') := by
  induction levels generalizing levels' with
  | zero =>
    have fails : ∀ {α : Type} (node : Node) (x : LowerM α),
        (lasting env maxDepth).Rel (failDepth node) x := fun node _ =>
      lasts_of_not_returns (x := failDepth node) fun _ _ _ =>
        not_returns_bind fun _ _ => not_returns_fail
    exact ⟨fun node _ _ => fails node _, fun node _ => fails node _⟩
  | succ levels ih =>
    obtain ⟨levels', rfl⟩ : ∃ n, levels' = n + 1 := ⟨levels' - 1, by omega⟩
    have hp := ih (Nat.le_of_succ_le_succ h)
    exact ⟨fun node scope loc => NestedComparison.rel_lowerExpr scope node loc hp,
      fun node scope => Comparison.rel_lowerStatement scope node hp⟩

end Lower

/-! ### Units -/

namespace Generator

open Lower

/-- The same generator with another limit of nesting. -/
def deep (g : Generator) (maxDepth : Nat) : Generator :=
  { g with options := g.options.deep maxDepth }

variable (g : Generator) (node : Node) (name : String) (kind : UnitKind)
  (containers : List String) {maxDepth : Nat}

section Lasting

variable {parts : Parts}
  (hparts : (lasting ⟨g.table, g.options⟩ maxDepth).RelParts (nested g.options.maxDepth) parts)

include hparts

/-- A function that is not poisoned is the same unit where its parts last. -/
theorem runFunctionBy_of_lasting
    (hp : (g.runFunction node name kind containers).unit.isPoisoned = false) :
    (g.deep maxDepth).runFunctionBy parts node name kind containers =
      g.runFunction node name kind containers := by
  have ho := (g.runFunction_outcome node name kind containers).resolve_right
    fun ⟨_, h⟩ => by simp [hp] at h
  rw [runFunction_eq] at ho ⊢
  have hr := returns_of_outcome ho
  exact congrArg (UnitRun.ofEnd name kind)
    ((Comparison.rel_lowerAsFunction hparts _ _ _ hr).trans hr.symm)

theorem runTopLevelBy_of_lasting
    (hp : (g.runTopLevel node name kind containers).unit.isPoisoned = false) :
    (g.deep maxDepth).runTopLevelBy parts node name kind containers =
      g.runTopLevel node name kind containers := by
  have ho := (g.runTopLevel_outcome node name kind containers).resolve_right
    fun ⟨_, h⟩ => by simp [hp] at h
  rw [runTopLevel_eq] at ho ⊢
  have hr := returns_of_outcome ho
  exact congrArg (UnitRun.ofEnd name kind)
    ((Comparison.rel_lowerAsTopLevel hparts _ _ _ hr).trans hr.symm)

/-- A unit that is not poisoned is the same where its parts last. -/
theorem runNodeBy_of_lasting (hp : (g.runNode node name containers).unit.isPoisoned = false) :
    (g.deep maxDepth).runNodeBy parts node name containers = g.runNode node name containers := by
  rw [runNode] at hp
  rw [runNode, runNodeBy]
  cases hk : UnitKind.ofNode node <;> rw [hk] at hp
  case function | test => exact g.runFunctionBy_of_lasting node name _ containers hparts hp
  case topLevel | comptime => exact g.runTopLevelBy_of_lasting node name _ containers hparts hp

end Lasting

variable (h : g.options.maxDepth ≤ maxDepth)

include h in
/-- A function that is not poisoned is the same unit where more levels are allowed. -/
theorem runFunction_deep
    (hp : (g.runFunction node name kind containers).unit.isPoisoned = false) :
    (g.deep maxDepth).runFunction node name kind containers =
      g.runFunction node name kind containers :=
  (runFunction_eq ..).trans
    (g.runFunctionBy_of_lasting node name kind containers (relParts_lasting h) hp)

include h in
/-- A unit that is not poisoned is the same where more levels of nesting are allowed. -/
theorem runNode_deep (hp : (g.runNode node name containers).unit.isPoisoned = false) :
    (g.deep maxDepth).runNode node name containers = g.runNode node name containers :=
  (runNode_eq ..).trans (g.runNodeBy_of_lasting node name containers (relParts_lasting h) hp)

end Generator

end SourceIr
