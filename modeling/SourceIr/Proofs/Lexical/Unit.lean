import SourceIr.Proofs.Lexical.Control
import SourceIr.Proofs.Lowering
import SourceIr.Proofs.Nesting.Watched
import SourceIr.Proofs.Stream.Graph

/-!
# Units that keep to a discipline

What holds at the start of a unit, and is kept by the steps that routines are made of, holds of the
unit in the end, in whatever way its lowering ended.

The routines for parts may be put under a guard, which raises an alarm where it does not allow
something to be lowered.  Where the discipline says that the guard is never called, the unit is the
same with the guard and without it.

* `keepsParts_nested`, the routines for parts;
* `Guard`, `guarded` and `keepsParts_guarded`, the routines for parts under a guard;
* `State.Every`, what is said of all instructions of a unit;
* `Discipline.Leaves`, what a unit leaves behind;
* `Routine` and `Generator.Unit`, what the ways to lower a unit have in common;
* `Generator.Quiet`, a unit in which a guard is not called.
-/

namespace SourceIr

namespace Lower

variable {env : Env} {d : Discipline env} {k : Ctx d} {parts : Parts} {node : Node}
  {scope : ScopeId} {s : State}

/-! ### One level deeper -/

theorem ends_lowerExpr (hp : KeepsParts d parts) (node : Node) (loc : ResultLoc) (hi : d.Inv s)
    (hat : d.At s scope) :
    d.Ends (fun s s' => Frame s.scopes.scopes.size s s') s (fun _ _ => True)
      (outcome (lowerExpr parts node scope loc) env s) :=
  keeps_lowerExpr hp (Ctx.in_scopes List.mem_cons_self) s hi fun _ hc =>
    List.mem_singleton.1 hc ▸ hat

/-- No level is left. -/
theorem keepsParts_zero : KeepsParts d (nested 0) where
  expr node scope loc s hi hat := by
    have h : (Ctx.scopes d [scope]).Keeps (failDepth node : LowerM InstId) :=
      Mode.runs_read_bind Mode.runs_failAt
    exact h s hi fun _ hc => List.mem_singleton.1 hc ▸ hat
  statement node scope s hi hat hsealed := by
    have h : (Mode.filling d scope []).Runs (failDepth node : LowerM ScopeId) fun _ _ => False :=
      Mode.runs_read_bind Mode.runs_failAt
    have h := h s hi ⟨hat, nofun⟩
    change d.EndsIn s scope (outcome (failDepth node) env s)
    rcases ho : outcome (failDepth node) env s with ⟨(_ | _) | next, t⟩ <;> rw [ho] at h
    · exact h
    · exact h
    · exact h.2.2.elim

/-- The routines for parts, where a `defer` statement may stand anywhere. -/
theorem keepsParts_nested (hdefer : ∀ s c, d.MayDefer s c) (levels : Nat) :
    KeepsParts d (nested levels) := by
  induction levels with
  | zero => exact keepsParts_zero
  | succ levels ih =>
    exact ⟨fun node _ loc _ hi hat => ends_lowerExpr ih node loc hi hat,
      fun _ _ _ hi hat hsealed => endsIn_lowerStatement ih hi hat hsealed fun _ _ _ => hdefer _ _⟩

/-! ### Guards -/

/-- What is asked for where something is lowered: of the scopes, and of the scope in which it is
lowered. -/
structure Guard where
  expr : ScopeTree → ScopeId → Prop
  statement : Node → ScopeTree → ScopeId → Prop

open Classical in
/-- The routines for parts as `nested` has them, under a guard: what it does not allow to be lowered
raises the alarm. -/
noncomputable def guarded (guard : Guard) (alarm : ∀ {α : Type}, LowerM α) :
    (levels : Nat) → Parts
  | 0 => nested 0
  | levels + 1 =>
    { expr := fun node scope loc => do
        if guard.expr (← get).scopes scope then
          lowerExpr (guarded guard alarm levels) node scope loc
        else alarm
      statement := fun node scope => do
        if guard.statement node (← get).scopes scope then
          lowerStatement (guarded guard alarm levels) node scope
        else alarm }

section Guarded

variable {guard : Guard} {alarm : ∀ {α : Type}, LowerM α} {levels : Nat} {loc : ResultLoc}

theorem outcome_guarded_expr (h : guard.expr s.scopes scope) :
    outcome ((guarded guard alarm (levels + 1)).expr node scope loc) env s =
      outcome (lowerExpr (guarded guard alarm levels) node scope loc) env s := by
  simp only [guarded, outcome_bind, outcome_get, if_pos h]

theorem outcome_guarded_expr_of_not (h : ¬ guard.expr s.scopes scope) :
    outcome ((guarded guard alarm (levels + 1)).expr node scope loc) env s =
      outcome alarm env s := by
  simp only [guarded, outcome_bind, outcome_get, if_neg h]

theorem outcome_guarded_statement (h : guard.statement node s.scopes scope) :
    outcome ((guarded guard alarm (levels + 1)).statement node scope) env s =
      outcome (lowerStatement (guarded guard alarm levels) node scope) env s := by
  simp only [guarded, outcome_bind, outcome_get, if_pos h]

theorem outcome_guarded_statement_of_not (h : ¬ guard.statement node s.scopes scope) :
    outcome ((guarded guard alarm (levels + 1)).statement node scope) env s =
      outcome alarm env s := by
  simp only [guarded, outcome_bind, outcome_get, if_neg h]

/-- A guard that is called only where the discipline allows for it. -/
theorem keepsParts_guarded
    (hexpr : ∀ {s c}, d.Inv s → d.At s c → guard.expr s.scopes c)
    (hstatement : ∀ {node s c}, d.Inv s → d.At s c → ¬ s.scopes.Sealed c →
      ¬ guard.statement node s.scopes c → d.Alarm s)
    (hdefer : ∀ {node : Node} {kind expr s c}, guard.statement node s.scopes c →
      node.kind = .deferred kind expr → d.MayDefer s c)
    (levels : Nat) : KeepsParts d (guarded guard raise levels) := by
  induction levels with
  | zero => exact keepsParts_zero
  | succ levels ih =>
    refine ⟨fun node scope loc s hi hat => ?_, fun node scope s hi hat hsealed => ?_⟩
    · rw [outcome_guarded_expr (hexpr hi hat)]
      exact ends_lowerExpr ih node loc hi hat
    · by_cases h : guard.statement node s.scopes scope
      · rw [outcome_guarded_statement h]
        exact endsIn_lowerStatement ih hi hat hsealed fun _ _ => hdefer h
      · rw [outcome_guarded_statement_of_not h]
        exact ⟨hi, fun _ => hstatement hi hat hsealed h⟩

/-- What is lowered under a guard whose alarm is a fault is lowered alike by routines that do the
same where the guard allows it. -/
theorem relParts_of_guarded (parts : Nat → Parts) (hzero : parts 0 = nested 0)
    (hexpr : ∀ levels node scope loc s, guard.expr s.scopes scope →
      outcome ((parts (levels + 1)).expr node scope loc) env s =
        outcome (lowerExpr (parts levels) node scope loc) env s)
    (hstatement : ∀ levels node scope s, guard.statement node s.scopes scope →
      outcome ((parts (levels + 1)).statement node scope) env s =
        outcome (lowerStatement (parts levels) node scope) env s) (levels : Nat) :
    (unlessAlarm env).RelParts (guarded guard raise levels) (parts levels) := by
  induction levels with
  | zero =>
    rw [hzero]
    exact ⟨fun _ _ _ _ => endAlike_rfl, fun _ _ _ => endAlike_rfl⟩
  | succ levels ih =>
    refine ⟨fun node scope loc s => ?_, fun node scope s => ?_⟩
    · by_cases h : guard.expr s.scopes scope
      · rw [EndAlike, outcome_guarded_expr h, hexpr levels node scope loc s h]
        exact NestedComparison.rel_lowerExpr scope node loc ih s
      · rw [EndAlike, outcome_guarded_expr_of_not h]
        exact .inl ⟨s, rfl⟩
    · by_cases h : guard.statement node s.scopes scope
      · rw [EndAlike, outcome_guarded_statement h, hstatement levels node scope s h]
        exact Comparison.rel_lowerStatement scope node ih s
      · rw [EndAlike, outcome_guarded_statement_of_not h]
        exact .inl ⟨s, rfl⟩

theorem relParts_nested_of_guarded (levels : Nat) :
    (unlessAlarm env).RelParts (guarded guard raise levels) (nested levels) :=
  relParts_of_guarded nested rfl (fun _ _ _ _ _ _ => rfl) (fun _ _ _ _ _ => rfl) levels

theorem relParts_guarded (alarm : ∀ {α : Type}, LowerM α) (levels : Nat) :
    (unlessAlarm env).RelParts (guarded guard raise levels) (guarded guard alarm levels) :=
  relParts_of_guarded (guarded guard alarm) rfl (fun _ _ _ _ _ h => outcome_guarded_expr h)
    (fun _ _ _ _ h => outcome_guarded_statement h) levels

end Guarded

/-! ### Instructions -/

/-- Something holds of every instruction of a state, in all of its streams: it depends on the scopes
and on whether the stream is evaluated at compile time as a whole. -/
def State.Every (P : ScopeTree → Bool → Inst → Prop) (s : State) : Prop :=
  ∀ t : Stream, t.PartOf s.stream → ∀ i ∈ t.insts.toList, P s.scopes t.isInline i

section Every

variable {P : ScopeTree → Bool → Inst → Prop} {s' : State}

/-- A state without instructions. -/
theorem State.every_new (hinsts : s.stream.insts = #[]) (hchildren : s.stream.children = []) :
    s.Every P := by
  intro t ht i hi
  cases ht with
  | self =>
    rw [hinsts] at hi
    cases hi
  | child hc =>
    rw [hchildren] at hc
    cases hc

/-- Other scopes, and nothing new in the stream. -/
theorem State.Every.mono (h : s.Every P) (hinsts : s'.stream.insts = s.stream.insts)
    (hchildren : s'.stream.children = s.stream.children)
    (hinline : s'.stream.isInline = s.stream.isInline)
    (hP : ∀ b i, P s.scopes b i → P s'.scopes b i) : s'.Every P := by
  intro t ht i hi
  cases ht with
  | self =>
    rw [hinline]
    exact hP _ _ (h _ (.self _) i (hinsts ▸ hi))
  | child hc ht => exact hP _ _ (h t (.child (hchildren ▸ hc) ht) i hi)

theorem State.Every.of_alike (h : s.Every P) (ha : Alike s s') : s'.Every P :=
  h.mono ha.insts ha.children ha.isInline fun _ _ => by
    rw [ha.scopes]
    exact id

theorem State.Every.withNext {kind : InstKind} {location : Option Location} {force gen : Bool}
    (h : s.Every P)
    (hP : P s.scopes s.stream.isInline ⟨s.stream.next, kind, s.stream.currentBlock, scope, location,
      force || isComptimeIn s.stream s.scopes scope, gen⟩) :
    (s.withNext kind scope location force gen).Every P := by
  intro t ht i hi
  cases ht with
  | self =>
    rcases Array.mem_push.1 (Array.mem_toList_iff.1 hi) with hi | rfl
    · exact h _ (.self _) i (Array.mem_toList_iff.2 hi)
    · exact hP
  | child hc ht => exact h t (.child hc ht) i hi

/-- A stream is taken in by another one. -/
theorem State.Every.around {t : State} (h : s.Every P) (ht : t.Every P)
    (hP : ∀ b i, P s.scopes b i → P t.scopes b i) : (s.around t).Every P := by
  intro u hu i hi
  rw [State.around, Stream.addChild_eq] at hu
  cases hu with
  | self => exact hP _ _ (h _ (.self _) i hi)
  | child hc hu =>
    rcases List.mem_append.1 hc with hc | hc
    · exact hP _ _ (h u (.child hc hu) i hi)
    · exact ht u (List.mem_singleton.1 hc ▸ hu) i hi

end Every

/-! ### The routines of a unit -/

variable {name : String} (hp : KeepsParts d parts) (hc : k.In scope)

include hp hc in
theorem keeps_lowerSignatureType {type : Option Node} :
    k.Keeps (lowerSignatureType parts type scope) :=
  Mode.runs_then (hp.comptimeValue? hc) fun _ => Mode.keeps_pure

theorem keeps_declareParam {param : Option String} {isComptime : Bool} {index : Nat}
    {outer : List ScopeId} :
    (Mode.filling d scope outer).Keeps (declareParam node param isComptime index scope) := by
  unfold declareParam
  split
  · exact Mode.keeps_pure
  · exact Mode.keeps_pure
  · refine Mode.runs_then (Mode.keeps_emit Mode.in_filling fun _ => trivial) fun _ => ?_
    refine Mode.runs_then (keeps_declare (.inr ⟨rfl, rfl⟩)) fun _ => ?_
    exact Mode.runs_then (Mode.keeps_emit Mode.in_filling fun _ => trivial) fun _ =>
      Mode.keeps_pure

include hp in
theorem keeps_lowerParams {index : Nat} {params : List Node} {outer : List ScopeId} :
    (Mode.filling d scope outer).Keeps (lowerParams parts scope index params) := by
  have hc : (Ctx.scopes d (scope :: outer)).In scope := Ctx.in_scopes List.mem_cons_self
  induction params generalizing index with
  | nil => exact Mode.keeps_pure
  | cons param rest ih =>
    rw [lowerParams]
    split
    · exact Mode.runs_then (keeps_lowerSignatureType hp hc).filling fun _ =>
        Mode.runs_then keeps_declareParam fun _ => ih
    · exact ih

include hp hc in
theorem keeps_lowerFunctionBy {fn : FnParts} :
    k.Keeps (lowerFunctionBy parts node fn name scope) := by
  have houter : ∀ o ∈ ([] : List ScopeId), k.In o := nofun
  refine runs_enter hc rfl houter fun fnScope => ?_
  refine Mode.runs_then (keeps_lowerParams hp) fun _ => Ctx.Keeps.filling ?_
  have hc : (Ctx.scopes d [fnScope]).In fnScope := Ctx.in_scopes List.mem_cons_self
  refine Mode.runs_then (keeps_lowerSignatureType hp hc) fun _ => ?_
  split
  · exact Mode.keeps_pure
  · exact Mode.runs_then (hp.keeps hc) fun _ => Mode.runs_then Mode.keeps_isTerminated fun _ =>
      Mode.runs_ite (Mode.runs_then (Mode.keeps_emit hc fun _ => trivial) fun _ =>
        Mode.keeps_pure) Mode.keeps_pure

include hp hc in
theorem keeps_lowerAsFunction : k.Keeps (lowerAsFunction parts node name scope) := by
  unfold lowerAsFunction
  split
  · exact keeps_lowerFunctionBy hp hc
  · exact Mode.runs_failAt

include hp hc in
/-- The value of a global variable. -/
theorem keeps_globalInit {init : Option Node} : k.Keeps (do
    match init with
    | none => failAt .invalidConstruct s!"variables must be initialized: '{name}'" "generate" node
    | some init =>
      setNameHint init name
      lowerComptimeBody parts init init scope) := by
  cases init with
  | none => exact Mode.runs_failAt
  | some init => exact Mode.runs_then Mode.keeps_setNameHint fun _ => keeps_returnBody hp hc

include hp hc in
theorem keeps_lowerGlobalBy {type init : Option Node} :
    k.Keeps (lowerGlobalBy parts node name type init scope) := by
  cases type with
  | none => exact keeps_globalInit hp hc
  | some type => exact Mode.runs_then (hp.value hc) fun _ => keeps_globalInit hp hc

include hp hc in
theorem keeps_lowerAsTopLevel : k.Keeps (lowerAsTopLevel parts node name scope) := by
  unfold lowerAsTopLevel
  split
  · exact keeps_lowerGlobalBy hp hc
  · exact keeps_returnBody hp hc
  · exact keeps_returnBody hp hc

namespace Discipline

variable (d)

/-- A unit is what is left of a state that keeps to the discipline. -/
def Leaves (run : UnitRun) : Prop :=
  ∃ s, d.Inv s ∧ s.stream = run.unit.stream ∧ s.scopes = run.unit.scopes

variable {d} {Le : State → State → Prop} {Q : State → PUnit → Prop}
  {o : Except Stop PUnit × State}

theorem Ends.inv (h : d.Ends Le s Q o) : d.Inv o.2 := by
  obtain ⟨(_ | _) | _, s'⟩ := o
  · exact h.1
  · exact h.1
  · exact h.1

theorem Ends.leaves (h : d.Ends Le s Q o) (name : String) (kind : UnitKind) :
    d.Leaves (.ofEnd name kind o) :=
  ⟨o.2, h.inv, rfl, rfl⟩

theorem Ends.alarm (h : d.Ends Le s Q o) {t : State} (ho : o = (.error (.fault alarmFault), t)) :
    d.Alarm t := by
  subst ho
  exact h.2 rfl

end Discipline

/-- What a unit runs, in a scope that is there. -/
structure Routine where
  scope : ScopeId
  run : Parts → LowerM PUnit
  rel : ∀ {C : Comparison} {parts parts' : Parts}, C.RelParts parts parts' →
    C.Rel (run parts) (run parts')
  keeps : ∀ {env : Env} {d : Discipline env} {k : Ctx d} {parts : Parts}, KeepsParts d parts →
    k.In scope → k.Keeps (run parts)

namespace Routine

/-- The routine of a unit that is lowered as a function. -/
def ofFunction (node : Node) (name : String) (scope : ScopeId) : Routine where
  scope := scope
  run parts := lowerAsFunction parts node name scope
  rel h := Comparison.rel_lowerAsFunction h
  keeps hp hc := keeps_lowerAsFunction hp hc

/-- The routine of a unit that is evaluated at compile time as a whole. -/
def ofTopLevel (node : Node) (name : String) (scope : ScopeId) : Routine where
  scope := scope
  run parts := lowerAsTopLevel parts node name scope
  rel h := Comparison.rel_lowerAsTopLevel h
  keeps hp hc := keeps_lowerAsTopLevel hp hc

/-- The routine of a unit in a scope of the caller. -/
def ofBody (node : Node) (scope : ScopeId) : Routine where
  scope := scope
  run parts := lowerComptimeBody parts node node scope
  rel h := Comparison.rel_lowerComptimeBody _ _ h _
  keeps hp hc := keeps_returnBody hp hc

variable {r : Routine}

theorem ends (hp : KeepsParts d parts) (hi : d.Inv s) (hat : d.At s r.scope) :
    d.Ends (fun s s' => Frame s.scopes.scopes.size s s') s (fun _ _ => True)
      (outcome (r.run parts) env s) :=
  r.keeps hp (Ctx.in_scopes List.mem_cons_self) s hi fun _ hc => List.mem_singleton.1 hc ▸ hat

/-- A guard that is not called changes nothing. -/
theorem outcome_guarded {guard : Guard} {levels : Nat} (alarm : ∀ {α : Type}, LowerM α)
    (h : ∀ t, outcome (r.run (guarded guard raise levels)) env s ≠
      (.error (.fault alarmFault), t)) :
    outcome (r.run (guarded guard alarm levels)) env s =
      outcome (r.run (nested levels)) env s := by
  have hplain : EndAlike env s (r.run (guarded guard raise levels)) (r.run (nested levels)) :=
    r.rel (relParts_nested_of_guarded levels) s
  have halarm : EndAlike env s (r.run (guarded guard raise levels))
      (r.run (guarded guard alarm levels)) := r.rel (relParts_guarded alarm levels) s
  rw [← hplain.resolve_left fun ⟨t, ht⟩ => h t ht, ← halarm.resolve_left fun ⟨t, ht⟩ => h t ht]

end Routine

/-- A state in which a unit may start in a scope. -/
structure Starts (s : State) (scope : ScopeId) : Prop where
  scopes : s.scopes.WellFormed
  lt : scope.index < s.scopes.scopes.size
  root : s.streamRoot = scope
  insts : s.stream.insts = #[]
  children : s.stream.children = []
  isInline : s.stream.isInline = true → s.scopes.isForcedComptime scope = true

end Lower

/-! ### Units -/

namespace Generator

open Lower

variable (g : Generator) (node : Node) (name : String) (kind : UnitKind)
  (containers : List String)

/-- A unit, also as it is lowered with other routines for parts. -/
inductive Unit (F : ScopeTree → Prop) : UnitRun → (Parts → UnitRun) → Prop
  | of (r : Routine) {s : State} (hs : Starts s r.scope) (hf : F s.scopes) (name : String)
      (kind : UnitKind) :
      Unit F (.ofEnd name kind (outcome (r.run (nested g.options.maxDepth)) ⟨g.table, g.options⟩ s))
        fun parts => .ofEnd name kind (outcome (r.run parts) ⟨g.table, g.options⟩ s)

variable {g} in
theorem Unit.imp {F F' : ScopeTree → Prop} {run : UnitRun} {runBy : Parts → UnitRun}
    (h : g.Unit F run runBy) (hF : ∀ t, F t → F' t) : g.Unit F' run runBy := by
  obtain ⟨r, hs, hf, name, kind⟩ := h
  exact .of r hs (hF _ hf) name kind

/-- The scopes at the start of a unit that is evaluated at compile time as a whole. -/
def comptimeScopes : ScopeTree :=
  ((g.unitScopes containers).2.openUnder (g.unitScopes containers).1 .comptime).2

theorem wellFormed_comptimeScopes : (g.comptimeScopes containers).WellFormed :=
  (g.opened_unitScopes containers).scopes.openUnder (g.opened_unitScopes containers).index

theorem lt_comptimeScopes :
    (g.unitScopes containers).2.scopes.size < (g.comptimeScopes containers).scopes.size := by
  simp [comptimeScopes]

theorem isForcedComptime_comptimeScopes : (g.comptimeScopes containers).isForcedComptime
    ⟨(g.unitScopes containers).2.scopes.size⟩ = true := by
  rw [isForcedComptime_eq_links, comptimeScopes,
    ScopeTree.links_openUnder (g.opened_unitScopes containers).index]
  rfl

theorem unit_runFunction : g.Unit ScopeTree.Bare (g.runFunction node name kind containers)
    (g.runFunctionBy · node name kind containers) := by
  have ho := g.opened_unitScopes containers
  rw [runFunction_eq]
  exact .of (.ofFunction node name (g.unitScopes containers).1)
    (s := g.start (.new name false) (g.unitScopes containers).2 (g.unitScopes containers).1)
    ⟨ho.scopes, ho.index, rfl, rfl, rfl, nofun⟩ (g.bare_unitScopes containers) name kind

theorem unit_runTopLevel : g.Unit ScopeTree.Bare (g.runTopLevel node name kind containers)
    (g.runTopLevelBy · node name kind containers) := by
  rw [runTopLevel_eq]
  exact .of (.ofTopLevel node name ⟨(g.unitScopes containers).2.scopes.size⟩)
    (s := g.start (.new name true) (g.comptimeScopes containers)
      ⟨(g.unitScopes containers).2.scopes.size⟩)
    ⟨g.wellFormed_comptimeScopes containers, g.lt_comptimeScopes containers, rfl, rfl, rfl,
      fun _ => g.isForcedComptime_comptimeScopes containers⟩
    (g.bare_unitScopes containers).openUnder name kind

theorem unit_runNode : g.Unit ScopeTree.Bare (g.runNode node name containers)
    (g.runNodeBy · node name containers) := by
  unfold runNode runNodeBy
  cases UnitKind.ofNode node
  case function | test => exact g.unit_runFunction _ _ _ _
  case topLevel | comptime => exact g.unit_runTopLevel _ _ _ _

/-- Lowers a node in a scope of the caller with these routines for parts. -/
def lowerInBy (parts : Parts) (scopes : ScopeTree) (scope : ScopeId) : UnitRun :=
  let isInline := scopes.isForcedComptime scope
  g.run name (if isInline then .comptime else .function)
    (g.start (Stream.new name isInline) scopes scope) (lowerComptimeBody parts node node scope)

theorem unit_lowerIn {F : ScopeTree → Prop} {scopes : ScopeTree} {scope : ScopeId}
    (ht : scopes.WellFormed) (hs : scope.index < scopes.scopes.size) (hf : F scopes) :
    g.Unit F (g.lowerIn node scopes scope name) (g.lowerInBy node name · scopes scope) :=
  .of (.ofBody node scope) (s := g.start (.new name (scopes.isForcedComptime scope)) scopes scope)
    ⟨ht, hs, rfl, rfl, rfl, id⟩ hf name _

/-- A unit is the same under a guard, whatever its alarm does. -/
def Quiet (guard : Guard) (run : UnitRun) (runBy : Parts → UnitRun) : Prop :=
  ∀ alarm : (∀ {α : Type}, LowerM α), runBy (guarded guard alarm g.options.maxDepth) = run

end Generator

/-- The unit of a node. -/
theorem Lowering.unit {node : Node} {run : UnitRun} (h : Lowering node run) :
    ∃ (g : Generator) (runBy : Lower.Parts → UnitRun), g.Unit ScopeTree.Bare run runBy := by
  cases h with
  | inFile => exact ⟨_, _, Generator.unit_runNode _ _ _ _⟩
  | alone g node => exact ⟨g, _, g.unit_runNode _ _ _⟩
  | asFn g node => exact ⟨g, _, g.unit_runFunction _ _ _ _⟩

end SourceIr
