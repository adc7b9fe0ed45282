import SourceIr.Proofs.Comparison.Routines
import SourceIr.Proofs.Run
import SourceIr.Unit

/-!
# Units compared

A unit is lowered with the routines for parts that its options allow.  To compare it with one that
is lowered with other routines for parts, those are taken as an argument.

* `lowerAsFunction` and `lowerAsTopLevel`, the routines of the two kinds of units;
* `Generator.runFunctionBy`, `Generator.runTopLevelBy` and `Generator.runNodeBy`, units lowered
  with given routines for parts, with the equations for the routines that the options allow;
* `Comparison.rel_lowerAsFunction` and `Comparison.rel_lowerAsTopLevel`.
-/

namespace SourceIr

namespace Lower

/-- Lowers a function with these routines for parts. -/
def lowerFunctionBy (parts : Parts) (node : Node) (fn : FnParts) (name : String)
    (parent : ScopeId) : LowerM PUnit := do
  let fnScope ← openScope parent (.fnDef name)
  lowerParams parts fnScope 0 fn.params
  lowerSignatureType parts fn.returnType fnScope
  match fn.body with
  | none => return ⟨⟩
  | some body =>
    let _ ← parts.expr body fnScope .discard
    if !(← isTerminated) then
      let _ ← emitGen (.ret none) fnScope node.location

/-- Lowers a variable at the top level with these routines for parts. -/
def lowerGlobalBy (parts : Parts) (node : Node) (name : String) (type init : Option Node)
    (scope : ScopeId) : LowerM PUnit := do
  match type with
  | none => pure ⟨⟩
  | some type => let _ ← parts.value type scope
  match init with
  | none =>
    failAt .invalidConstruct s!"variables must be initialized: '{name}'" "generate" node
  | some init =>
    setNameHint init name
    lowerComptimeBody parts init init scope

/-- Lowers a node as a function. -/
def lowerAsFunction (parts : Parts) (node : Node) (name : String) (scope : ScopeId) :
    LowerM PUnit :=
  match FnParts.ofNode? node with
  | some fn => lowerFunctionBy parts node fn name scope
  | none =>
    failAt .invalidConstruct s!"expected function declaration, found {node.kind.name}"
      "generate_fn_body" node

/-- Lowers a node that is evaluated at compile time as a whole. -/
def lowerAsTopLevel (parts : Parts) (node : Node) (name : String) (scope : ScopeId) :
    LowerM PUnit :=
  match node.kind with
  | .varDecl _ _ _ typeExpr init => lowerGlobalBy parts node name typeExpr init scope
  | .comptime expr => lowerComptimeBody parts expr expr scope
  | _ => lowerComptimeBody parts node node scope

variable {env : Env} {s : State}

theorem outcome_lowerGlobal (node : Node) (name : String) (type init : Option Node)
    (scope : ScopeId) :
    outcome (lowerGlobal node name type init scope) env s =
      outcome (lowerGlobalBy (nested env.options.maxDepth) node name type init scope) env s := by
  have rest : ∀ s, outcome (do
      match init with
      | none =>
        failAt .invalidConstruct s!"variables must be initialized: '{name}'" "generate" node
      | some init =>
        setNameHint init name
        lowerBody init scope) env s = outcome (do
      match init with
      | none =>
        failAt .invalidConstruct s!"variables must be initialized: '{name}'" "generate" node
      | some init =>
        setNameHint init name
        lowerComptimeBody (nested env.options.maxDepth) init init scope) env s := by
    intro s
    cases init <;> rfl
  cases type with
  | none => exact rest s
  | some type =>
    have value : outcome (lowerGlobalType (some type) scope) env s = outcome (do
        let _ ← (nested env.options.maxDepth).value type scope
        pure ⟨⟩) env s := rfl
    unfold lowerGlobal lowerGlobalBy
    rw [outcome_bind, value, outcome_bind, outcome_bind]
    rcases outcome ((nested env.options.maxDepth).value type scope) env s with ⟨_ | _, t⟩
    · rfl
    · exact rest t

theorem Outline.same_declareParam {C : Outline} {node : Node} (hat : C.At node.location)
    (param : Option String) (isComptime : Bool) (index : Nat) (scope : ScopeId) :
    C.Same (declareParam node param isComptime index scope) := by
  unfold declareParam
  split
  · exact C.rel_pure _
  · exact C.rel_pure _
  · exact C.rel_bind (same_emitGen rfl) fun _ =>
      C.rel_bind (C.rel_declare _ _ hat) fun _ => rel_unit_bind (same_emitGen rfl) (C.rel_pure _)

namespace Comparison

open Outline

variable {C : Comparison} {parts parts' : Parts} {scope : ScopeId} {node : Node}
  {name : String} (hp : C.RelParts parts parts')

include hp in
theorem rel_lowerSignatureType (type : Option Node) :
    C.Rel (lowerSignatureType parts type scope) (lowerSignatureType parts' type scope) :=
  rel_unit_bind (hp.comptimeValue? _ _) (C.rel_pure _)

include hp in
theorem rel_lowerParams (index : Nat) (params : List Node) :
    C.Rel (lowerParams parts scope index params) (lowerParams parts' scope index params) := by
  induction params generalizing index with
  | nil => exact C.rel_pure _
  | cons param rest ih =>
    rw [lowerParams, lowerParams]
    split
    · exact C.rel_bind (rel_lowerSignatureType hp _) fun _ =>
        C.rel_bind (same_declareParam (C.at_all _) _ _ _ _) fun _ => ih _
    · exact ih _

include hp in
theorem rel_lowerFunctionBy (fn : FnParts) :
    C.Rel (lowerFunctionBy parts node fn name scope)
      (lowerFunctionBy parts' node fn name scope) := by
  refine C.rel_bind (same_openScope _ _) fun fnScope => ?_
  refine C.rel_bind (rel_lowerParams hp _ _) fun _ => ?_
  refine C.rel_bind (rel_lowerSignatureType hp _) fun _ => ?_
  split
  · exact C.rel_pure _
  · exact rel_unit_bind (hp.expr _ _ _) (same_returnUnlessTerminated _ _ (C.rel_pure _) rfl)

include hp in
theorem rel_lowerGlobalBy (type init : Option Node) :
    C.Rel (lowerGlobalBy parts node name type init scope)
      (lowerGlobalBy parts' node name type init scope) := by
  have rest : C.Rel (do
      match init with
      | none =>
        failAt .invalidConstruct s!"variables must be initialized: '{name}'" "generate" node
      | some init =>
        setNameHint init name
        lowerComptimeBody parts init init scope) (do
      match init with
      | none =>
        failAt .invalidConstruct s!"variables must be initialized: '{name}'" "generate" node
      | some init =>
        setNameHint init name
        lowerComptimeBody parts' init init scope) := by
    cases init with
    | none => exact same_failAt (C.at_all _) rfl
    | some init =>
      exact C.rel_bind (C.rel_step (innerStep_setNameHint _ _)) fun _ =>
        rel_lowerComptimeBody _ _ hp _
  cases type with
  | none => exact rest
  | some type => exact rel_unit_bind (hp.value _ _) rest

include hp in
/-- Every unit that is lowered as a function. -/
theorem rel_lowerAsFunction :
    C.Rel (lowerAsFunction parts node name scope) (lowerAsFunction parts' node name scope) := by
  rw [lowerAsFunction, lowerAsFunction]
  split
  · exact rel_lowerFunctionBy hp _
  · exact same_failAt (C.at_all _) rfl

include hp in
/-- Every unit that is evaluated at compile time as a whole. -/
theorem rel_lowerAsTopLevel :
    C.Rel (lowerAsTopLevel parts node name scope) (lowerAsTopLevel parts' node name scope) := by
  rw [lowerAsTopLevel, lowerAsTopLevel]
  split
  · exact rel_lowerGlobalBy hp _ _
  · exact rel_lowerComptimeBody _ _ hp _
  · exact rel_lowerComptimeBody _ _ hp _

end Comparison

end Lower

/-- The unit that a run leaves behind. -/
def UnitRun.ofEnd (name : String) (kind : UnitKind) (r : Except Lower.Stop PUnit × Lower.State) :
    UnitRun where
  unit := { name, kind, stream := r.2.stream, scopes := r.2.scopes }
  outcome := r.1
  log := r.2.log.toList
  nodesMade := r.2.nodesMade

namespace Generator

open Lower

variable (g : Generator) (parts : Parts) (node : Node) (name : String) (kind : UnitKind)
  (containers : List String)

/-- Lowers a node as a function with these routines for parts. -/
def runFunctionBy : UnitRun :=
  let (top, scopes) := g.unitScopes containers
  g.run name kind (g.start (Stream.new name false) scopes top) (lowerAsFunction parts node name top)

/-- Lowers a node that is evaluated at compile time as a whole with these routines for parts. -/
def runTopLevelBy : UnitRun :=
  let (top, scopes) := g.unitScopes containers
  let (scope, scopes) := scopes.openUnder top .comptime
  g.run name kind (g.start (Stream.new name true) scopes scope)
    (lowerAsTopLevel parts node name scope)

/-- Lowers a node as the unit of its kind with these routines for parts. -/
def runNodeBy : UnitRun :=
  let kind := UnitKind.ofNode node
  match kind with
  | .function | .test => g.runFunctionBy parts node name kind containers
  | .topLevel | .comptime => g.runTopLevelBy parts node name kind containers

/-- A unit is what its routine leaves behind. -/
theorem run_eq (s : State) (x : LowerM PUnit) :
    g.run name kind s x = .ofEnd name kind (outcome x ⟨g.table, g.options⟩ s) := rfl

/-- Runs that end alike in the same state are the same unit. -/
theorem run_congr {s : State} {x y : LowerM PUnit}
    (h : outcome x ⟨g.table, g.options⟩ s = outcome y ⟨g.table, g.options⟩ s) :
    g.run name kind s x = g.run name kind s y := by
  rw [run_eq, run_eq, h]

theorem runFunction_eq : g.runFunction node name kind containers =
    g.runFunctionBy (nested g.options.maxDepth) node name kind containers := by
  refine g.run_congr _ _ ?_
  cases FnParts.ofNode? node <;> rfl

theorem runTopLevel_eq : g.runTopLevel node name kind containers =
    g.runTopLevelBy (nested g.options.maxDepth) node name kind containers := by
  refine g.run_congr _ _ ?_
  cases node.kind
  case varDecl => exact outcome_lowerGlobal _ _ _ _ _
  all_goals rfl

/-- The routines for parts that a unit is lowered with are those at the outermost level. -/
theorem runNode_eq : g.runNode node name containers =
    g.runNodeBy (nested g.options.maxDepth) node name containers := by
  rw [runNode, runNodeBy]
  cases UnitKind.ofNode node
  case function | test => exact g.runFunction_eq ..
  case topLevel | comptime => exact g.runTopLevel_eq ..

end Generator

end SourceIr
