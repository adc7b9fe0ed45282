import SourceIr.Lower.Event
import SourceIr.Options
import SourceIr.ResultLoc
import SourceIr.Scope.Binding
import SourceIr.Scope.Jump
import SourceIr.Stream.Basic

/-!
# The state of a lowering

A unit is lowered against the declarations of its file and the options, which do not change, and
over a state that does: the scopes and the stream of the unit, the open compile-time evaluations,
and what the routines have to remember for each other.  The state survives a failure, for what
was recorded before it is part of the result.

* `State`, `Env`, `Stop`, `LowerM`;
* `stopAt`, `scopesFrom` and `scopeAt`, which stop at a handle without an entry;
* `emit` and its variants, `fail`, `warn`, `attempt`;
* `openScope`, `declare`, `newBlock`, `goto`;
* `Parts`, the routines for the parts of a construct.
-/

namespace SourceIr.Lower

/-- The values that flow into the end of a block or a loop, and where they are to go. -/
structure BreakSink where
  resultLoc : ResultLoc
  incoming : List (BlockId × InstId)
  deriving DecidableEq, Repr

/-- What changes while a unit is lowered. -/
structure State where
  scopes : ScopeTree
  stream : Stream
  /-- The open compile-time evaluations. -/
  calls : CallStack
  /-- The scope in which the current stream was started; jumps may not leave it. -/
  streamRoot : ScopeId
  /-- The expressions of the `defer` statements, by their scopes. -/
  deferred : List (ScopeId × Node)
  /-- The sinks of the open loops and labelled blocks, by their scopes. -/
  sinks : List (ScopeId × BreakSink)
  /-- The variables whose declaration failed; their uses fail without a diagnostic. -/
  failedVars : List VarId
  /-- The declaration that names a type, with the number of the node that is its initializer. -/
  nameHint : Option (Nat × String)
  /-- How many nodes were made. -/
  nodesMade : Nat
  log : Array Event

/-- What does not change while a unit is lowered. -/
structure Env where
  table : DeclTable
  options : Options

/-- Why a routine does not return. -/
inductive Stop where
  /-- It failed, and the diagnostic is on record. -/
  | poisoned
  /-- A rule towards a stream or a scope was broken. -/
  | fault (f : Fault)
  deriving DecidableEq, Repr

/-- A routine of the lowering.  It keeps the state also when it does not return. -/
abbrev LowerM := ReaderT Env (ExceptT Stop (StateM State))

variable {α : Type}

/-- Puts an event into the log. -/
def note (e : Event) : LowerM PUnit :=
  modify fun s => { s with log := s.log.push e }

/-- Runs a routine; `none` if it fails with its diagnostic on record. -/
def attempt (x : LowerM α) : LowerM (Option α) :=
  tryCatch (some <$> x) fun
    | .poisoned => pure none
    | .fault f => throw (.fault f)

/-- Stops at a breach of the rules, if there is one. -/
def stopAt (f : Option Fault) : LowerM PUnit :=
  match f with
  | some f => throw (.fault f)
  | none => return ⟨⟩

/-- The scopes of the unit, for a walk outward from one of them. -/
def scopesFrom (scope : ScopeId) : LowerM ScopeTree := do
  let scopes := (← get).scopes
  stopAt (scopes.fault? scope)
  return scopes

/-- The scope behind a handle. -/
def scopeAt (scope : ScopeId) : LowerM Scope := do
  let scopes := (← get).scopes
  match scopes.scope? scope with
  | some s => return s
  | none => throw (.fault (.outOfRange scopes.scopes.size scope.index))

/-! ### Emission -/

/-- Whether everything emitted in a scope is evaluated at compile time. -/
def isComptimeIn (stream : Stream) (scopes : ScopeTree) (scope : ScopeId) : Bool :=
  stream.isInline || scopes.isForcedComptime scope

/-- Whether the current stream and a scope evaluate at compile time. -/
def isComptimeAt (scope : ScopeId) : LowerM Bool := do
  let scopes ← scopesFrom scope
  return isComptimeIn (← get).stream scopes scope

/-- Appends an instruction.  `force` asks for evaluation at compile time where the scope does not,
and `gen` marks what the user did not write. -/
def emitWith (kind : InstKind) (scope : ScopeId) (location : Option Location)
    (force gen : Bool) : LowerM InstId := do
  let _ ← scopesFrom scope
  let s ← get
  match s.stream.append kind scope location (force || isComptimeIn s.stream s.scopes scope) gen with
  | .ok (id, stream) =>
    set { s with stream, log := s.log.push (.appended s.stream.name id kind) }
    return id
  | .error f => throw (.fault f)

/-- Appends an instruction that the user wrote. -/
def emit (kind : InstKind) (scope : ScopeId) (location : Option Location) : LowerM InstId :=
  emitWith kind scope location false false

/-- Appends an instruction that the user did not write. -/
def emitGen (kind : InstKind) (scope : ScopeId) (location : Option Location) : LowerM InstId :=
  emitWith kind scope location false true

/-- Appends the value of what has no value. -/
def emitVoid (scope : ScopeId) (location : Option Location) : LowerM InstId :=
  emitGen (.const .void) scope location

/-- Adds a block to the current stream. -/
def newBlock (name : String) : LowerM BlockId := do
  let s ← get
  let (id, stream) := s.stream.newBlock name
  set { s with stream }
  return id

/-- Goes on in another block of the current stream. -/
def goto (b : BlockId) : LowerM PUnit :=
  modify fun s => { s with stream := s.stream.goto b }

/-- The block at which the lowering goes on. -/
def currentBlock : LowerM BlockId := return (← get).stream.currentBlock

/-- Whether control does not go on from here. -/
def isTerminated : LowerM Bool := do
  let stream := (← get).stream
  stopAt stream.endFault?
  return stream.isTerminated

/-! ### Diagnostics -/

/-- Poisons the current stream with a diagnostic, as it is. -/
def invalidate (m : Message) : LowerM PUnit := do
  let s ← get
  if !s.stream.isPoisoned then note (.poisoned s.stream.name m)
  modify fun s => { s with stream := s.stream.invalidate m }

/-- Fails with a diagnostic, which names the open evaluations if it is fatal. -/
def fail (m : Message) : LowerM α := do
  let limit := (← read).options.callStackLimit
  let calls := (← get).calls
  if m.isFatal then
    if limit < calls.depth then note (.framesHidden limit calls.depth)
    invalidate (m.withCallers calls limit)
  else
    invalidate m
  throw .poisoned

/-- Fails with a diagnostic on a node. -/
def failAt (kind : DiagnosticKind) (message issuer : String) (node : Node) : LowerM α :=
  fail (.ofKind kind message issuer node.location node.span)

/-- Fails with a diagnostic on a name that is taken. -/
def failTaken (message issuer : String) (node : Node) (previous : Option Location)
    (note : String) : LowerM α :=
  fail ((Message.ofKind .nameCollision message issuer node.location node.span).withNote
    (.ofNote note previous))

/-- Records a warning on a statement. -/
def warnAt (kind : DiagnosticKind) (message : String) (node : Node) : LowerM PUnit := do
  let m := Message.ofKind kind message "lower_statement" node.location node.span
  note (.warned (← get).stream.name m)
  modify fun s => { s with stream := s.stream.addWarning m }

/-! ### Scopes and variables -/

/-- Opens a scope. -/
def openScope (parent : ScopeId) (kind : ScopeKind) : LowerM ScopeId := do
  let _ ← scopeAt parent
  let s ← get
  let (id, scopes) := s.scopes.openUnder parent kind
  set { s with scopes }
  return id

/-- Declares a variable, or says why its name is refused. -/
def declare? (scope : ScopeId) (r : BindingRequest) : LowerM (Except Message VarId) := do
  let table := (← read).table
  let s ← get
  stopAt (s.scopes.bindingFault? scope r)
  match s.scopes.declare scope r table with
  | .ok (id, scopes) =>
    set { s with scopes, log := s.log.push (.declared id scope) }
    return .ok id
  | .error m => return .error m

/-- Declares a variable, and fails if its name is refused. -/
def declare (scope : ScopeId) (r : BindingRequest) : LowerM VarId := do
  match ← declare? scope r with
  | .ok id => return id
  | .error m => fail m

/-- Runs a routine while a compile-time evaluation is open. -/
def withFrame (location : Option Location) (description : String) (x : LowerM α) : LowerM α := do
  modify fun s => { s with calls := s.calls.push ⟨location, description⟩ }
  let result ← attempt x
  modify fun s => { s with calls := s.calls.pop.2 }
  match result with
  | some a => return a
  | none => throw .poisoned

/-! ### Break sinks -/

/-- Opens the sink of a loop or a labelled block. -/
def openSink (scope : ScopeId) (resultLoc : ResultLoc) : LowerM PUnit :=
  modify fun s => { s with sinks := (scope, ⟨resultLoc, []⟩) :: s.sinks }

/-- The sink of a scope. -/
def sink? (scope : ScopeId) : LowerM (Option BreakSink) :=
  return (← get).sinks.lookup scope

/-- A sink with one more value that flows into it. -/
def BreakSink.push (b : BreakSink) (block : BlockId) (value : InstId) : BreakSink :=
  { b with incoming := b.incoming ++ [(block, value)] }

/-- Lets a value flow from the current block into the sink of a scope. -/
def flowInto (scope : ScopeId) (value : InstId) : LowerM PUnit :=
  modify fun s =>
    { s with
      sinks := s.sinks.map fun entry =>
        if entry.1 = scope then (scope, entry.2.push s.stream.currentBlock value) else entry }

/-- Closes the sink of a scope and returns the values that flowed into it. -/
def closeSink (scope : ScopeId) : LowerM (List (BlockId × InstId)) := do
  let s ← get
  set { s with sinks := s.sinks.filter (·.1 != scope) }
  return ((s.sinks.lookup scope).map (·.incoming)).getD []

/-! ### Names of types -/

/-- Remembers that a declaration names the type that its initializer makes. -/
def setNameHint (init : Node) (name : String) : LowerM PUnit :=
  modify fun s => { s with nameHint := some (init.id, name) }

/-- The name of the declaration that a node initializes; the hint is used up. -/
def takeNameHint (node : Node) : LowerM (Option String) := do
  let s ← get
  match s.nameHint with
  | some (id, name) =>
    if id = node.id then
      set { s with nameHint := none }
      return some name
    else return none
  | none => return none

/-! ### The routines for parts -/

/-- How the parts of a construct are lowered. -/
structure Parts where
  /-- Lowers an expression in a scope for a result location, and returns its value. -/
  expr : Node → ScopeId → ResultLoc → LowerM InstId
  /-- Lowers a statement in a scope, and returns the scope of the statements after it. -/
  statement : Node → ScopeId → LowerM ScopeId

/-- The value of an expression that has no place to go yet. -/
def Parts.value (parts : Parts) (node : Node) (scope : ScopeId) : LowerM InstId :=
  parts.expr node scope .none

/-- The value of an expression that must be known at compile time, in a scope of its own. -/
def Parts.comptimeValue (parts : Parts) (node : Node) (scope : ScopeId) : LowerM InstId := do
  parts.value node (← openScope scope .comptime)

/-- The value of a part that may be absent and must be known at compile time. -/
def Parts.comptimeValue? (parts : Parts) (node : Option Node) (scope : ScopeId) :
    LowerM (Option InstId) :=
  match node with
  | some node => some <$> parts.comptimeValue node scope
  | none => return none

end SourceIr.Lower
