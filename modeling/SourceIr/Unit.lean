import SourceIr.Lower.Function
import SourceIr.Stream.Json

/-!
# Units

Each declaration is lowered into a unit of its own, with its own scopes and its own stream; units
share only the table of declarations and the options.  A unit that failed keeps what was recorded
until then.

* `LoweredUnit`, and `UnitRun`, a unit with how its lowering went;
* `Generator`, what all units of a file are lowered against;
* `Generator.lower`, `Generator.lowerDecl`, `Generator.lowerFnBody`, `Generator.lowerIn`: the
  ways to lower a node.
-/

namespace SourceIr

/-- The kinds of units. -/
inductive UnitKind where
  | function | topLevel | comptime | test
  deriving DecidableEq, Repr, Inhabited

namespace UnitKind

/-- The name of the kind in data. -/
def name : UnitKind → String
  | function => "Function"
  | topLevel => "TopLevel"
  | comptime => "Comptime"
  | test => "Test"

/-- The kind in a summary. -/
def text : UnitKind → String
  | function => "fn"
  | topLevel => "decl"
  | comptime => "comptime"
  | test => "test"

/-- The kind of unit that a node is lowered into. -/
def ofNode (node : Node) : UnitKind :=
  match node.kind with
  | .fnDecl .. => function
  | .testDecl .. => test
  | .varDecl .. => topLevel
  | _ => comptime

instance : Encode UnitKind := ⟨fun k => .str k.name⟩

end UnitKind

/-- A unit that has been lowered.  The scopes are kept because the instructions refer to their
variables. -/
structure LoweredUnit where
  name : String
  kind : UnitKind
  stream : Stream
  scopes : ScopeTree
  deriving Inhabited

namespace LoweredUnit

/-- Whether the unit may not be used. -/
def isPoisoned (u : LoweredUnit) : Bool := u.stream.isPoisoned

instance : Encode LoweredUnit := ⟨fun u =>
  .obj [("name", encode u.name), ("kind", encode u.kind), ("stream", encode u.stream),
    ("scopes", encode u.scopes)]⟩

end LoweredUnit

/-- A unit, and how its lowering went. -/
structure UnitRun where
  unit : LoweredUnit
  /-- Whether the lowering returned, or why it did not. -/
  outcome : Except Lower.Stop PUnit
  log : List Event
  nodesMade : Nat

/-- The rule that was broken, if one was. -/
def UnitRun.fault? (r : UnitRun) : Option Fault :=
  match r.outcome with
  | .error (.fault f) => some f
  | _ => none

/-- What the units of a file are lowered against. -/
structure Generator where
  table : DeclTable
  options : Options
  /-- The evaluations that are open when a unit is started. -/
  calls : CallStack := .empty

namespace Generator

open Lower

/-- The state at the start of a unit. -/
def start (g : Generator) (stream : Stream) (scopes : ScopeTree) (root : ScopeId) : State where
  scopes := scopes
  stream := stream
  calls := g.calls
  streamRoot := root
  deferred := []
  sinks := []
  failedVars := []
  nameHint := none
  nodesMade := 0
  log := #[]

/-- Runs a routine over a state as a unit. -/
def run (g : Generator) (name : String) (kind : UnitKind) (state : State) (x : LowerM PUnit) :
    UnitRun :=
  let (outcome, state) := ((x.run ⟨g.table, g.options⟩).run).run state
  { unit := { name, kind, stream := state.stream, scopes := state.scopes }
    outcome
    log := state.log.toList
    nodesMade := state.nodesMade }

/-- Opens the scopes of the containers around a unit, outermost first, and returns the innermost
scope. -/
def openContainers (scopes : ScopeTree) (scope : ScopeId) : List String → ScopeId × ScopeTree
  | [] => (scope, scopes)
  | path :: rest =>
    let (inner, scopes) := scopes.openUnder scope (.container path)
    openContainers scopes inner rest

/-- The scopes in which a unit starts, and the innermost of them. -/
def unitScopes (g : Generator) (containers : List String) : ScopeId × ScopeTree :=
  let (top, scopes) := ScopeTree.empty.openTop g.table.root
  openContainers scopes top containers

/-- Lowers a node as a function. -/
def runFunction (g : Generator) (node : Node) (name : String) (kind : UnitKind)
    (containers : List String) : UnitRun :=
  let (top, scopes) := g.unitScopes containers
  g.run name kind (g.start (Stream.new name false) scopes top) <|
    match FnParts.ofNode? node with
    | some fn => lowerFunction node fn name top
    | none =>
      failAt .invalidConstruct s!"expected function declaration, found {node.kind.name}"
        "generate_fn_body" node

/-- Lowers a node that is evaluated at compile time as a whole. -/
def runTopLevel (g : Generator) (node : Node) (name : String) (kind : UnitKind)
    (containers : List String) : UnitRun :=
  let (top, scopes) := g.unitScopes containers
  let (scope, scopes) := scopes.openUnder top .comptime
  g.run name kind (g.start (Stream.new name true) scopes scope) <|
    match node.kind with
    | .varDecl _ _ _ typeExpr init => lowerGlobal node name typeExpr init scope
    | .comptime expr => lowerBody expr scope
    | _ => lowerBody node scope

/-- Lowers a node as the unit of its kind. -/
def runNode (g : Generator) (node : Node) (name : String) (containers : List String) : UnitRun :=
  let kind := UnitKind.ofNode node
  match kind with
  | .function | .test => g.runFunction node name kind containers
  | .topLevel | .comptime => g.runTopLevel node name kind containers

/-- The name of the unit of a node that stands by itself. -/
def unitName (node : Node) : String :=
  match node.header? with
  | some (name, _) => name
  | none => s!"expr#{node.id}"

/-- Lowers a node that stands by itself. -/
def lower (g : Generator) (node : Node) : UnitRun := g.runNode node (unitName node) []

/-- Lowers a declaration of the table, which sees the members of the containers around it. -/
def lowerDecl (g : Generator) (decl : Decl) (node : Node) : UnitRun :=
  g.runNode node decl.name (g.table.containersOf decl.id)

/-- Lowers a node that is expected to be a function. -/
def lowerFnBody (g : Generator) (node : Node) : UnitRun :=
  g.runFunction node (node.declName?.getD "anonymous") .function []

/-- Lowers a node in one of the given scopes.  If everything there is evaluated at compile time,
so is the unit. -/
def lowerIn (g : Generator) (node : Node) (scopes : ScopeTree) (scope : ScopeId)
    (name : String) : UnitRun :=
  let isInline := scopes.isForcedComptime scope
  g.run name (if isInline then .comptime else .function)
    (g.start (Stream.new name isInline) scopes scope) (lowerBody node scope)

end Generator

end SourceIr
