import SourceIr.Proofs.Inspection.Control
import SourceIr.Proofs.Lexical.Unit

/-!
# Inspecting a unit

A unit that is not poisoned was lowered to its end, and nothing in it has raised an alarm.  The
inspection starts with a fresh stream; what is ahead at the end of the unit is nothing.

* `Inspection.Suits`, an inspection that may start at the node of a unit, and
  `Inspection.passes_lowerAsFunction`, `Inspection.passes_lowerAsTopLevel`;
* `Generator.Lowers`, the ways to lower a unit, each as it depends on the routines for parts, and
  `Generator.Lowers.runsRoutine`, what they have in common;
* `Generator.Lowers.raises_no_alarm`, what is in order wherever the inspection gets to raises no
  alarm;
* `listing`, the inspection of instructions against the nodes of a unit, and
  `Generator.Lowers.lists_parts`: every container, every error set, every initializer of a struct
  and every call of a builtin function lists what its node lists, in the order of the source, with
  nothing left out, and names that are to be told apart are distinct.
-/

namespace SourceIr

namespace Lower

namespace Inspection

variable {I : Inspection} {env : Env} {d : Nat} {ways : Ways} {s : State} {scope : ScopeId}
  {node : Node} {name : String} {parts parts' : Parts}

/-- The inspection may start at the node of a unit. -/
def Suits (I : Inspection) (node : Node) (name : String) : Prop :=
  match node.kind with
  | .varDecl _ _ _ typeExpr init => (∀ type ∈ typeExpr, I.Fit type) ∧ ∀ i ∈ init, I.Init name i
  | _ => I.Fit node

/-- What a function is lowered from are the trees of its node. -/
theorem unnamed_of_ofNode? {fn : FnParts} (h : FnParts.ofNode? node = some fn) :
    node.kind.unnamed = fn.params ++ fn.returnType.toList ++ fn.body.toList := by
  rw [← FnParts.trees_of_ofNode? h]
  rw [FnParts.ofNode?] at h
  split at h <;> cases h
  all_goals
    next hk =>
      rw [hk]
      rfl

section Parts

variable (hp : I.PassesParts env parts parts')

include hp in
theorem passes_lowerSignatureType {type : Option Node} (ht : ∀ t ∈ type, I.Fit t) :
    I.Passes env d ways s (lowerSignatureType parts type scope)
      (lowerSignatureType parts' type scope) :=
  passes_bind (hp.comptimeValue? ht) fun _ _ => passes_pure

include hp in
theorem passes_lowerParams {index : Nat} {params : List Node} (hparams : ∀ p ∈ params, I.Fit p) :
    I.Passes env d ways s (lowerParams parts scope index params)
      (lowerParams parts' scope index params) := by
  induction params generalizing s index with
  | nil => exact passes_pure
  | cons param rest ih =>
    obtain ⟨hparam, hrest⟩ := List.forall_mem_cons.1 hparams
    rw [lowerParams, lowerParams]
    split
    next name typeExpr isComptime hk =>
      have ht : ∀ t ∈ typeExpr, I.Fit t := fun t h =>
        I.fit_unnamed hparam t (by
          simp [hk, Kind.unnamed, Kind.trees, Kind.values, FieldValue.trees_ofOption,
            Option.mem_def.1 h])
      exact passes_bind (passes_lowerSignatureType hp ht) fun _ _ =>
        passes_bind passes_declareParam fun _ _ => ih hrest
    · exact ih hrest

include hp in
theorem passes_lowerComptimeBody {expr : Node} (he : I.Fit expr) :
    I.Passes env d ways s (lowerComptimeBody parts node expr scope)
      (lowerComptimeBody parts' node expr scope) :=
  passes_bind (hp.expr he) fun _ _ => passes_returnValue

include hp in
/-- The initializer of a variable at the top level, whose name is set aside for it. -/
theorem passes_lowerGlobalBy {type init : Option Node} (ht : ∀ t ∈ type, I.Fit t)
    (hi : ∀ i ∈ init, I.Init name i) :
    I.Passes env d ways s (lowerGlobalBy parts node name type init scope)
      (lowerGlobalBy parts' node name type init scope) := by
  have value : ∀ s init, I.Init name init → I.Passes env d ways s (do
      setNameHint init name
      lowerComptimeBody parts init init scope) (do
      setNameHint init name
      lowerComptimeBody parts' init init scope) := by
    intro s init hinit
    refine passes_bind_of (passes_setNameHint hinit) fun _ t ht => ?_
    obtain rfl := returns_modify.1 ht
    exact passes_bind (hp.init hinit rfl) fun _ _ => passes_returnValue
  cases type with
  | none =>
    cases init with
    | none => exact passes_fail
    | some init => exact value s init (hi init rfl)
  | some type =>
    refine passes_bind (hp.expr (ht type rfl)) fun _ t => ?_
    cases init with
    | none => exact passes_fail
    | some init => exact value t init (hi init rfl)

include hp in
theorem passes_lowerFunctionBy {fn : FnParts} (hparams : ∀ p ∈ fn.params, I.Fit p)
    (ht : ∀ t ∈ fn.returnType, I.Fit t) (hb : ∀ b ∈ fn.body, I.Fit b) :
    I.Passes env d ways s (lowerFunctionBy parts node fn name scope)
      (lowerFunctionBy parts' node fn name scope) := by
  refine passes_bind passes_openScope fun fnScope _ => ?_
  refine passes_bind (passes_lowerParams hp hparams) fun _ _ => ?_
  refine passes_bind (passes_lowerSignatureType hp ht) fun _ _ => ?_
  split
  · exact passes_pure
  next body hbody =>
    exact passes_bind (hp.expr (hb body hbody)) fun _ _ =>
      passes_unlessTerminated (admitted_simple rfl) fun _ => passes_pure

include hp in
/-- Every unit that is lowered as a function. -/
theorem passes_lowerAsFunction (hn : I.Suits node name) :
    I.Passes env d ways s (lowerAsFunction parts node name scope)
      (lowerAsFunction parts' node name scope) := by
  rw [lowerAsFunction, lowerAsFunction]
  split
  next fn hfn =>
    have hfit : I.Fit node := by
      rw [Suits] at hn
      split at hn
      next hk =>
        rw [FnParts.ofNode?, hk] at hfn
        cases hfn
      · exact hn
    have hparts := I.fit_unnamed hfit
    rw [unnamed_of_ofNode? hfn] at hparts
    exact passes_lowerFunctionBy hp (fun p h => hparts p (by simp [h]))
      (fun t h => hparts t (by simp [Option.mem_def.1 h])) fun b h =>
        hparts b (by simp [Option.mem_def.1 h])
  · exact passes_fail

include hp in
/-- Every unit that is evaluated at compile time as a whole. -/
theorem passes_lowerAsTopLevel (hn : I.Suits node name) :
    I.Passes env d ways s (lowerAsTopLevel parts node name scope)
      (lowerAsTopLevel parts' node name scope) := by
  rw [lowerAsTopLevel, lowerAsTopLevel]
  split
  next hk =>
    simp only [Suits, hk] at hn
    exact passes_lowerGlobalBy hp hn.1 hn.2
  next expr hk =>
    simp only [Suits, hk] at hn
    exact passes_lowerComptimeBody hp (I.fit_unnamed hn expr (by rw [hk]; exact List.mem_cons_self))
  next hvar _ =>
    rw [Suits] at hn
    split at hn
    next hk => exact absurd hk (hvar _ _ _ _ _)
    · exact passes_lowerComptimeBody hp hn

end Parts

/-- A variable is no expression. -/
theorem not_returns_varDecl {levels : Nat} {isConst isComptime : Bool} {typeExpr init : Option Node}
    (hk : node.kind = .varDecl name isConst isComptime typeExpr init) {loc : ResultLoc} {v : InstId}
    {s' : State} : ¬ Returns ((nested levels).expr node scope loc) env s v s' := by
  cases levels with
  | zero => exact not_returns_bind fun _ _ => not_returns_fail
  | succ levels =>
    intro hr
    simp only [nested, lowerExpr, hk] at hr
    exact not_returns_fail hr

/-- Every unit in scopes of the caller. -/
theorem passes_lowerInBody {levels : Nat} (hp : I.PassesParts env (nested levels) parts')
    (hn : I.Suits node name) :
    I.Passes env d ways s (lowerComptimeBody (nested levels) node node scope)
      (lowerComptimeBody parts' node node scope) := by
  rw [Suits] at hn
  split at hn
  next hk =>
    refine passes_of_not_returns fun a s' hr => ?_
    obtain ⟨v, t, hv, -⟩ := returns_bind.1 hr
    exact not_returns_varDecl hk hv
  · exact passes_lowerComptimeBody hp hn

end Inspection

end Lower

namespace Generator

open Lower

variable {g : Generator} {node : Node} {name : String} {run : UnitRun} {runBy : Parts → UnitRun}

/-- A node is lowered into a unit: as the unit of its kind, as a declaration is and a node that
stands by itself; as a function; or in scopes of the caller.  With it, the unit as it depends on the
routines for parts. -/
inductive Lowers (g : Generator) (node : Node) (name : String) :
    UnitRun → (Parts → UnitRun) → Prop
  | byKind (containers : List String) : g.Lowers node name (g.runNode node name containers)
      (g.runNodeBy · node name containers)
  | asFn (kind : UnitKind) (containers : List String) : g.Lowers node name
      (g.runFunction node name kind containers) (g.runFunctionBy · node name kind containers)
  | within {scopes : ScopeTree} {scope : ScopeId} (hscopes : scopes.WellFormed)
      (hs : scope.index < scopes.scopes.size) : g.Lowers node name
      (g.lowerIn node scopes scope name) (g.lowerInBy node name · scopes scope)

/-- A unit that is not poisoned was lowered to its end. -/
theorem Lowers.outcome_eq_ok (h : g.Lowers node name run runBy)
    (hp : run.unit.isPoisoned = false) : run.outcome = .ok ⟨⟩ := by
  have hcases : run.outcome = .ok ⟨⟩ ∨
      run.outcome = .error .poisoned ∧ run.unit.isPoisoned = true := by
    cases h with
    | byKind containers =>
      rw [runNode]
      cases UnitKind.ofNode node
      case function | test => exact g.runFunction_outcome ..
      case topLevel | comptime => exact g.runTopLevel_outcome ..
    | asFn kind containers => exact g.runFunction_outcome ..
    | within hscopes hs => exact g.lowerIn_outcome node name hscopes hs
  exact hcases.resolve_right fun hpoisoned => by simp [hp] at hpoisoned

/-- A unit is what a routine leaves in a fresh stream.  The routine passes an inspection that may
start at the node if the routines for parts do. -/
def RunsRoutine (g : Generator) (node : Node) (name : String) (runBy : Parts → UnitRun) : Prop :=
  ∃ (kind : UnitKind) (s : State) (x : Parts → LowerM PUnit),
    (∃ isInline scopes root, s = g.start (.new name isInline) scopes root) ∧
    (∀ parts, runBy parts = g.run name kind s (x parts)) ∧
    ∀ {I : Inspection} {parts : Parts}, I.Suits node name →
      I.PassesParts ⟨g.table, g.options⟩ (nested g.options.maxDepth) parts →
      I.Passes ⟨g.table, g.options⟩ 0 [] s (x (nested g.options.maxDepth)) (x parts)

theorem runsRoutine_runFunctionBy (kind : UnitKind) (containers : List String) :
    g.RunsRoutine node name (g.runFunctionBy · node name kind containers) :=
  ⟨kind, _, (lowerAsFunction · node name (g.unitScopes containers).1), ⟨_, _, _, rfl⟩,
    fun _ => rfl, fun hn hp => Inspection.passes_lowerAsFunction hp hn⟩

theorem runsRoutine_runTopLevelBy (kind : UnitKind) (containers : List String) :
    g.RunsRoutine node name (g.runTopLevelBy · node name kind containers) :=
  ⟨kind, _, (lowerAsTopLevel · node name _), ⟨_, _, _, rfl⟩, fun _ => rfl,
    fun hn hp => Inspection.passes_lowerAsTopLevel hp hn⟩

/-- Every unit runs a routine, with the routines for parts of the outermost level. -/
theorem Lowers.runsRoutine (h : g.Lowers node name run runBy) :
    run = runBy (nested g.options.maxDepth) ∧ g.RunsRoutine node name runBy := by
  cases h with
  | byKind containers =>
    refine ⟨g.runNode_eq .., ?_⟩
    unfold runNodeBy
    cases UnitKind.ofNode node
    case function | test => exact runsRoutine_runFunctionBy ..
    case topLevel | comptime => exact runsRoutine_runTopLevelBy ..
  | asFn kind containers => exact ⟨g.runFunction_eq .., runsRoutine_runFunctionBy ..⟩
  | within hscopes hs =>
    exact ⟨rfl, _, _, (lowerComptimeBody · node node _), ⟨_, _, _, rfl⟩, fun _ => rfl,
      fun hn hp => Inspection.passes_lowerInBody hp hn⟩

/-- An inspection that may start at the node of a unit, in a fresh stream, gets to the end of a unit
that is not poisoned, and what is in order until then raises no alarm. -/
theorem Lowers.raises_no_alarm (h : g.Lowers node name run runBy) (hp : run.unit.isPoisoned = false)
    {I : Inspection} (hn : I.Suits node name)
    (hs : ∀ name isInline scopes root, I.Inv 0 [] (g.start (.new name isInline) scopes root))
    (ha : ∀ t, t.stream = run.unit.stream → I.Ahead 0 [] t) {ok : Check}
    (hok : I.Approves ⟨g.table, g.options⟩ ok) (alarm : ∀ {α : Type}, LowerM α) :
    runBy (inspected ok alarm g.options.maxDepth) = run ∧
      ∃ t, t.stream = run.unit.stream ∧ I.Inv 0 [] t := by
  have ho := h.outcome_eq_ok hp
  obtain ⟨rfl, kind, s, x, ⟨isInline, scopes, root, rfl⟩, hx, hpasses⟩ := h.runsRoutine
  rw [hx] at ho ha ⊢
  have hr := returns_of_outcome ho
  have hparts : I.PassesParts ⟨g.table, g.options⟩ (nested g.options.maxDepth)
      (inspected ok alarm g.options.maxDepth) := Inspection.passesParts_inspected hok _
  obtain ⟨ht, hback⟩ := hpasses hn hparts (hs ..) _ _ hr
  rw [hx]
  exact ⟨(g.run_congr name kind (hr.trans (hback (ha _ rfl)).2.symm)).symm, _, rfl, ht⟩

end Generator

/-! ### Aggregates list their parts -/

/-- An instruction for an aggregate lists what one of these nodes lists. -/
def Inst.ListsOneOf (nodes : List Node) (i : Inst) : Prop :=
  i.kind.isAggregate = true → ∃ node ∈ nodes, InstKind.Reflects node.kind i.kind

namespace Lower

variable {s s' : State} {nodes : List Node}

/-- What holds of instructions by themselves depends on nothing else in a state. -/
theorem State.Every.of_insts {P : Inst → Prop} (h : s.Every fun _ _ => P)
    (hinsts : s'.stream.insts = s.stream.insts)
    (hchildren : s'.stream.children = s.stream.children) :
    s'.Every fun _ _ => P := by
  intro t ht i hi
  cases ht with
  | self => exact h _ (.self _) i (hinsts ▸ hi)
  | child hc ht => exact h t (.child (hchildren ▸ hc) ht) i hi

/-- What is known of a state: its instructions for aggregates list what a node of the unit lists,
and what is deferred are nodes of the unit. -/
structure State.Listed (unit : Node) (s : State) : Prop where
  insts : s.Every fun _ _ => Inst.ListsOneOf unit.nodes
  deferred : ∀ d ∈ s.deferred, d.2 ∈ unit.nodes

theorem State.Listed.of_aside {unit : Node} (h : s.Listed unit) (ha : Aside s s') :
    s'.Listed unit :=
  ⟨h.insts.of_insts ha.insts ha.children, ha.deferred ▸ h.deferred⟩

/-- The inspection of instructions for aggregates against the nodes of a unit. -/
def listing (unit : Node) : Inspection where
  Inv _ _ s := s.Listed unit
  Ahead _ _ _ := True
  Fit node := node ∈ unit.nodes
  Init _ node := node ∈ unit.nodes
  fit_unnamed hn _ h := Node.tree_mem_nodes hn (Kind.mem_trees_of_unnamed h)
  init_unnamed hn _ h := Node.tree_mem_nodes hn (Kind.mem_trees_of_unnamed h)
  init_of_fit hn hk := Node.tree_mem_nodes hn (hk ▸ Kind.init_mem_trees)
  aside h hi := ⟨hi.of_aside h, id⟩
  append h hi := ⟨⟨hi.insts.withNext fun hlists => (h.lists hlists).imp fun _ hn =>
    ⟨hn.1.elim id fun ⟨_, hn⟩ => hn, hn.2⟩, hi.deferred⟩, id⟩
  openWay _ hi := ⟨⟨hi.insts.of_insts rfl rfl, hi.deferred⟩, id⟩
  closeWay hi := ⟨hi, id⟩
  naming _ hi := ⟨⟨hi.insts, hi.deferred⟩, id⟩
  deferring h hi := ⟨⟨hi.insts, List.forall_mem_cons.2 ⟨h, hi.deferred⟩⟩, id⟩
  deferred_fit hi h := hi.deferred _ h
  enter hi := ⟨State.every_new rfl rfl, hi.deferred⟩
  leave hi ht :=
    ⟨⟨hi.insts.around ht.insts fun _ _ => id, ht.deferred⟩, fun _ => ⟨trivial, trivial⟩⟩

/-- The inspection may start at the node of any unit. -/
theorem suits_listing (unit : Node) (name : String) : (listing unit).Suits unit name := by
  rw [Inspection.Suits]
  split
  next typeExpr init hk =>
    have hparts : ∀ part ∈ unit.kind.trees, part ∈ unit.nodes := fun _ =>
      Node.tree_mem_nodes unit.self_mem_nodes
    rw [hk] at hparts
    constructor
    · rintro type rfl
      exact hparts type (by simp [Kind.trees, Kind.values, FieldValue.ofOption, FieldValue.trees])
    · rintro init rfl
      exact hparts init Kind.init_mem_trees
  · exact unit.self_mem_nodes

/-- The check that the instruction of an aggregate lists what the aggregate lists. -/
def listsParts (env : Env) : Check := fun node _ s v s' =>
  node.kind.isAggregate = true → ∃ levels, ListsParts env (nested levels) node s v s'

end Lower

namespace Generator

open Lower

variable {g : Generator} {node : Node} {name : String} {run : UnitRun} {runBy : Parts → UnitRun}

/-- Aggregates have distinct names and lose nothing.  In a unit that is not poisoned, every
instruction for an aggregate, at any nesting, lists what a node of the unit lists; and wherever a
node is lowered that is one, its instruction lists what the node lists, with the values of the parts
in the order in which the parts were lowered, so that no alarm is raised. -/
theorem Lowers.lists_parts (h : g.Lowers node name run runBy) (hp : run.unit.isPoisoned = false) :
    (∀ t : Stream, t.PartOf run.unit.stream → ∀ i ∈ t.insts.toList, Inst.ListsOneOf node.nodes i) ∧
      ∀ alarm : (∀ {α : Type}, LowerM α),
        runBy (inspected (listsParts ⟨g.table, g.options⟩) alarm g.options.maxDepth) = run := by
  have approves : (listing node).Approves ⟨g.table, g.options⟩ (listsParts ⟨g.table, g.options⟩) :=
    fun _ _ _ hr hk => ⟨_, listsParts_of_returns hk hr⟩
  have raises := h.raises_no_alarm hp (suits_listing node name)
    (fun _ _ _ _ => ⟨State.every_new rfl rfl, nofun⟩) (fun _ _ => trivial) approves
  obtain ⟨-, t, ht, hlisted⟩ := raises (throw .poisoned)
  exact ⟨fun u hu => hlisted.insts u (ht ▸ hu), fun alarm => (raises alarm).1⟩

end Generator

/-- `const S = struct { x: error{A, B}, y: u32 = @sizeOf(u8) };` -/
def Node.nestsAggregates : Node :=
  .bare (.varDecl "S" true false none (some (.bare (.containerDecl .struct
    [.bare (.containerField "x"
      (some (.bare (.errorSetDecl [.bare (.symbol "A"), .bare (.symbol "B")]))) none),
    .bare (.containerField "y" (some (.bare (.symbol "u32")))
      (some (.bare (.builtinCall "@sizeOf" [.bare (.symbol "u8")]))))] []))))

theorem lists_parts_nestsAggregates :
    (Generator.bare.lower .nestsAggregates).unit.isPoisoned = false ∧
      ∀ i ∈ (Generator.bare.lower .nestsAggregates).unit.stream.insts.toList,
        Inst.ListsOneOf Node.nestsAggregates.nodes i :=
  have hp : (Generator.bare.lower .nestsAggregates).unit.isPoisoned = false := by decide +kernel
  ⟨hp, (Generator.Lowers.lists_parts (.byKind (g := .bare) []) hp).1 _ (.self _)⟩

end SourceIr
