import SourceIr.Proofs.Comparison.Step
import SourceIr.Proofs.Stream.Coherent
import SourceIr.Unit

/-!
# Streams and steps retouched

Two lowerings of the same nodes may put on record what differs in particulars only: other handles
for the same declarations, longer or shorter lists of frames, warnings that the other one leaves
out.  A retouching says how, and is applied to a stream with the streams inside it.  What routines
look at in their state is not touched by it, and but for what they put on record they do the same
to a state that is retouched.

* `Retouch`, with its action on instructions, streams and units;
* `Stream.append_retouch` and those like it: a stream that is retouched grows in the same way;
* `Retouch.rename`, `Retouch.firstFrames` and `Retouch.withoutNoEffect`;
* `State.retouch`, the state as another lowering has it, and `Blind`, what looks at nothing else;
* `Mirrors`, a routine that ends like another one, in the state as the other lowering has it;
* `PlainStep`, the small steps that follow themselves under every retouching, and `InnerStep`,
  those that evaluate no other stream.
-/

namespace SourceIr

/-- How what one lowering puts on record is turned into what another one does. -/
structure Retouch where
  /-- The handles of the declarations. -/
  decl : DeclId → DeclId
  error : Message → Message
  /-- The warnings that stay. -/
  keeps : Message → Bool

namespace InstKind

/-- The declaration that an instruction refers to. -/
def decl? : InstKind → Option DeclId
  | declRef decl _ _ => some decl
  | _ => none

/-- The instruction with other handles for declarations. -/
def retouch (ρ : Retouch) : InstKind → InstKind
  | declRef decl name lval => declRef (ρ.decl decl) name lval
  | kind => kind

variable {ρ : Retouch} {kind : InstKind}

theorem retouch_of_decl? (h : kind.decl? = none) : kind.retouch ρ = kind := by
  cases kind
  case declRef => cases h
  all_goals rfl

@[simp] theorem operands_retouch : (kind.retouch ρ).operands = kind.operands := by
  cases kind <;> rfl

@[simp] theorem isNoreturn_retouch : (kind.retouch ρ).isNoreturn = kind.isNoreturn := by
  cases kind <;> rfl

@[simp] theorem hasSideEffects_retouch :
    (kind.retouch ρ).hasSideEffects = kind.hasSideEffects := by
  cases kind <;> rfl

end InstKind

/-- The instruction with other handles for declarations. -/
def Inst.retouch (ρ : Retouch) (i : Inst) : Inst := { i with kind := i.kind.retouch ρ }

namespace Stream

mutual

/-- The stream as another lowering has it, with the streams inside it. -/
def retouch (ρ : Retouch) : Stream → Stream
  | ⟨name, insts, blocks, currentBlock, children, isPoisoned, errors, warnings, isInline⟩ =>
    { name, blocks, currentBlock, isPoisoned, isInline
      insts := insts.map (·.retouch ρ)
      children := retouchAll ρ children
      errors := errors.map ρ.error
      warnings := warnings.filter ρ.keeps }

/-- The streams of a list as another lowering has them. -/
def retouchAll (ρ : Retouch) : List Stream → List Stream
  | [] => []
  | s :: rest => s.retouch ρ :: retouchAll ρ rest

end

variable (ρ : Retouch) {s child : Stream}

theorem retouchAll_eq_map (streams : List Stream) :
    retouchAll ρ streams = streams.map (·.retouch ρ) := by
  induction streams with
  | nil => rfl
  | cons s rest ih => rw [retouchAll, ih, List.map_cons]

theorem retouch_eq (s : Stream) : s.retouch ρ =
    { s with
      insts := s.insts.map (·.retouch ρ)
      children := s.children.map (·.retouch ρ)
      errors := s.errors.map ρ.error
      warnings := s.warnings.filter ρ.keeps } := by
  cases s
  rw [retouch, retouchAll_eq_map]

@[simp] theorem retouch_name : (s.retouch ρ).name = s.name := by rw [retouch_eq]

@[simp] theorem retouch_insts : (s.retouch ρ).insts = s.insts.map (·.retouch ρ) := by
  rw [retouch_eq]

@[simp] theorem retouch_blocks : (s.retouch ρ).blocks = s.blocks := by rw [retouch_eq]

@[simp] theorem retouch_currentBlock : (s.retouch ρ).currentBlock = s.currentBlock := by
  rw [retouch_eq]

@[simp] theorem retouch_children : (s.retouch ρ).children = s.children.map (·.retouch ρ) := by
  rw [retouch_eq]

@[simp] theorem retouch_isPoisoned : (s.retouch ρ).isPoisoned = s.isPoisoned := by rw [retouch_eq]

@[simp] theorem retouch_errors : (s.retouch ρ).errors = s.errors.map ρ.error := by rw [retouch_eq]

@[simp] theorem retouch_isInline : (s.retouch ρ).isInline = s.isInline := by rw [retouch_eq]

/-! ### What is looked at -/

@[simp] theorem next_retouch : (s.retouch ρ).next = s.next := by simp [next]

@[simp] theorem endFault?_retouch : (s.retouch ρ).endFault? = s.endFault? := by
  simp [endFault?, block?]

@[simp] theorem last?_retouch : (s.retouch ρ).last? = s.last? := by
  simp [last?, Array.back?, Inst.retouch, Function.comp_def]

theorem lastInBlock?_retouch :
    (s.retouch ρ).lastInBlock? = s.lastInBlock?.map (·.retouch ρ) := by
  simp only [lastInBlock?, inst?, block?, retouch_insts, retouch_blocks, retouch_currentBlock,
    Array.getElem?_map]
  rcases s.blocks[s.currentBlock.index]? with _ | block
  · rfl
  rcases h : block.insts.back? with _ | i <;> simp [h]

@[simp] theorem isTerminated_retouch : (s.retouch ρ).isTerminated = s.isTerminated := by
  rw [isTerminated, lastInBlock?_retouch, isTerminated, Option.any_map]
  simp [Inst.retouch]

/-! ### What is added -/

theorem new_retouch (name : String) (isInline : Bool) :
    (new name isInline).retouch ρ = new name isInline := by
  simp [new, retouch, retouchAll]

theorem forward?_retouch (kind : InstKind) :
    (s.retouch ρ).forward? (kind.retouch ρ) = s.forward? kind := by
  simp [forward?]

theorem withNext_retouch (kind : InstKind) (scope : ScopeId) (location : Option Location)
    (isComptime isGen : Bool) :
    (s.retouch ρ).withNext (kind.retouch ρ) scope location isComptime isGen =
      (s.withNext kind scope location isComptime isGen).retouch ρ := by
  cases s
  simp [withNext, retouch, Inst.retouch, next]

/-- An instruction is appended in the same way. -/
theorem append_retouch (kind : InstKind) (scope : ScopeId) (location : Option Location)
    (isComptime isGen : Bool) :
    (s.retouch ρ).append (kind.retouch ρ) scope location isComptime isGen =
      (s.append kind scope location isComptime isGen).map fun r => (r.1, r.2.retouch ρ) := by
  have next : Except.ok (ε := Fault) ((s.retouch ρ).next,
      (s.retouch ρ).withNext (kind.retouch ρ) scope location isComptime isGen) =
      .ok (s.next, (s.withNext kind scope location isComptime isGen).retouch ρ) := by
    rw [next_retouch, withNext_retouch]
  rw [append, append, forward?_retouch]
  cases s.forward? kind with
  | some operand => simp [Except.map]
  | none =>
    by_cases h : s.currentBlock.index < s.blocks.size
    · rw [if_pos h, if_pos (by simpa using h)]
      exact next
    · rw [if_neg h, if_neg (by simpa using h)]
      simp [Except.map]

theorem newBlock_retouch (name : String) : (s.retouch ρ).newBlock name =
    ((s.newBlock name).1, (s.newBlock name).2.retouch ρ) := by
  cases s
  rfl

theorem goto_retouch (b : BlockId) : (s.retouch ρ).goto b = (s.goto b).retouch ρ := by
  cases s
  rfl

theorem invalidate_retouch (m : Message) :
    (s.retouch ρ).invalidate (ρ.error m) = (s.invalidate m).retouch ρ := by
  cases s
  simp [invalidate, retouch]

theorem addWarning_retouch {m : Message} (h : ρ.keeps m = true) :
    (s.retouch ρ).addWarning m = (s.addWarning m).retouch ρ := by
  cases s
  simp [addWarning, retouch, h]

/-- A warning that does not stay leaves no trace. -/
theorem retouch_addWarning_of_dropped {m : Message} (h : ρ.keeps m = false) :
    (s.addWarning m).retouch ρ = s.retouch ρ := by
  cases s
  simp [addWarning, retouch, h]

theorem addChild_retouch : ((s.retouch ρ).addChild (child.retouch ρ)).2 =
    (s.addChild child).2.retouch ρ := by
  cases s
  rw [addChild_eq, addChild_eq]
  cases h : child.isPoisoned <;> simp [retouch, retouchAll_eq_map, Array.isEmpty, h]

end Stream

/-- The unit as another lowering has it. -/
def LoweredUnit.retouch (ρ : Retouch) (u : LoweredUnit) : LoweredUnit :=
  { u with stream := u.stream.retouch ρ }

/-! ### Particulars -/

namespace Retouch

/-- Declarations under other handles. -/
def rename (π : DeclId → DeclId) : Retouch where
  decl := π
  error := id
  keeps _ := true

/-- Errors with no more frames than this. -/
def firstFrames (limit : Nat) : Retouch where
  decl := id
  error m := { m with callStack := m.callStack.take limit }
  keeps _ := true

/-- Statements without effect pass without a warning. -/
def withoutNoEffect : Retouch where
  decl := id
  error := id
  keeps m := m.kind != .noEffect

end Retouch

/-! ### Steps -/

namespace InstKind

/-- An instruction that refers to no declaration and evaluates no other stream. -/
def isInner (kind : InstKind) : Bool := kind.decl?.isNone && kind.unit?.isNone

variable {kind : InstKind}

theorem decl?_of_isInner (h : kind.isInner = true) : kind.decl? = none :=
  Option.isNone_iff_eq_none.1 (Bool.and_eq_true_iff.1 h).1

theorem unit?_of_isInner (h : kind.isInner = true) : kind.unit? = none :=
  Option.isNone_iff_eq_none.1 (Bool.and_eq_true_iff.1 h).2

end InstKind

namespace Lower

/-- The state as another lowering has it.  The log is free. -/
def State.retouch (ρ : Retouch) (log : Array Event) (s : State) : State :=
  { s with stream := s.stream.retouch ρ, log := log }

/-- What is seen of a state that no retouching touches. -/
def Blind {γ : Type} (look : State → γ) : Prop :=
  ∀ ρ s log, look (s.retouch ρ log) = look s

/-- The same end in the state as the other lowering has it. -/
def Echoes (ρ : Retouch) {α : Type} (o o' : Except Stop α × State) : Prop :=
  ∃ log, o' = (o.1, o.2.retouch ρ log)

/-- From any state, the second routine ends like the first one. -/
def Mirrors (ρ : Retouch) (env env' : Env) {α : Type} (x x' : LowerM α) : Prop :=
  ∀ s log, Echoes ρ (outcome x env s) (outcome x' env' (s.retouch ρ log))

/-- A small step that every retouching lets pass. -/
structure PlainStep {α : Type} (x : LowerM α) : Prop extends Step x where
  mirrors : ∀ ρ env, Mirrors ρ env env x x

/-- A plain step that evaluates no other stream. -/
structure InnerStep {α : Type} (x : LowerM α) : Prop extends PlainStep x where
  embedded : ∀ env s, (outcome x env s).2.stream.embedded = s.stream.embedded

variable {ρ : Retouch} {env env' : Env} {s t : State} {log : Array Event} {α β : Type}
  {x x' : LowerM α} {f f' : α → LowerM β}

@[simp] theorem State.stream_retouch : (s.retouch ρ log).stream = s.stream.retouch ρ := rfl

/-! ### Rules -/

theorem mirrors_pure (a : α) : Mirrors ρ env env' (pure a) (pure a) := fun _ log => ⟨log, rfl⟩

theorem mirrors_throw (e : Stop) : Mirrors ρ env env' (throw e : LowerM α) (throw e) :=
  fun _ log => ⟨log, rfl⟩

theorem mirrors_bind (hx : Mirrors ρ env env' x x') (hf : ∀ a, Mirrors ρ env env' (f a) (f' a)) :
    Mirrors ρ env env' (x >>= f) (x' >>= f') := by
  intro s log
  obtain ⟨log', h⟩ := hx s log
  rw [outcome_bind, outcome_bind, h]
  rcases outcome x env s with ⟨e | a, t⟩
  · exact ⟨log', rfl⟩
  · exact hf a t log'

/-- A routine that reads the state goes on with what it finds. -/
theorem mirrors_get {f f' : State → LowerM β} (h : ∀ s log,
    Echoes ρ (outcome (f s) env s) (outcome (f' (s.retouch ρ log)) env' (s.retouch ρ log))) :
    Mirrors ρ env env' (get >>= f) (get >>= f') := h

theorem mirrors_get_of_blind {f f' : State → LowerM β} (hb : Blind f')
    (h : ∀ s, Mirrors ρ env env' (f s) (f' s)) : Mirrors ρ env env' (get >>= f) (get >>= f') :=
  mirrors_get fun s log => by
    rw [hb]
    exact h s s log

theorem mirrors_modify {g g' : State → State}
    (h : ∀ s log, ∃ log', g' (s.retouch ρ log) = (g s).retouch ρ log') :
    Mirrors ρ env env' (modify g : LowerM PUnit) (modify g') := by
  intro s log
  obtain ⟨log', h⟩ := h s log
  exact ⟨log', by rw [outcome_modify, outcome_modify, h]⟩

theorem mirrors_stopAt (e : Option Fault) : Mirrors ρ env env' (stopAt e) (stopAt e) := by
  cases e with
  | some e => exact mirrors_throw _
  | none => exact mirrors_pure _

theorem mirrors_scopesFrom (scope : ScopeId) :
    Mirrors ρ env env' (scopesFrom scope) (scopesFrom scope) :=
  mirrors_get_of_blind (fun _ _ _ => rfl) fun _ =>
    mirrors_bind (mirrors_stopAt _) fun _ => mirrors_pure _

theorem mirrors_scopeAt (scope : ScopeId) :
    Mirrors ρ env env' (scopeAt scope) (scopeAt scope) := by
  refine mirrors_get_of_blind (fun _ _ _ => rfl) fun s => ?_
  dsimp only
  split
  · exact mirrors_pure _
  · exact mirrors_throw _

/-! ### Steps -/

@[simp] theorem isComptimeIn_retouch (stream : Stream) (scopes : ScopeTree) (scope : ScopeId) :
    isComptimeIn (stream.retouch ρ) scopes scope = isComptimeIn stream scopes scope := by
  simp [isComptimeIn]

/-- An emission, with the instruction as the other lowering has it. -/
theorem mirrors_emitWith (kind : InstKind) (scope : ScopeId) (location : Option Location)
    (force gen : Bool) : Mirrors ρ env env' (emitWith kind scope location force gen)
      (emitWith (kind.retouch ρ) scope location force gen) := by
  refine mirrors_bind (mirrors_scopesFrom scope) fun _ => mirrors_get fun s log => ?_
  dsimp only [State.retouch]
  rw [isComptimeIn_retouch, Stream.append_retouch]
  cases s.stream.append kind scope location (force || isComptimeIn s.stream s.scopes scope) gen with
  | ok r => exact ⟨_, rfl⟩
  | error f => exact ⟨log, rfl⟩

theorem plainStep_emitWith {kind : InstKind} (h : kind.decl? = none) (scope : ScopeId)
    (location : Option Location) (force gen : Bool) :
    PlainStep (emitWith kind scope location force gen) where
  toStep := step_emitWith kind scope location force gen
  mirrors ρ env := by
    have hf := @mirrors_emitWith ρ env env kind scope location force gen
    rwa [InstKind.retouch_of_decl? h] at hf

theorem embedded_emitWith {kind : InstKind} (h : kind.unit? = none) (scope : ScopeId)
    (location : Option Location) (force gen : Bool) :
    (outcome (emitWith kind scope location force gen) env s).2.stream.embedded =
      s.stream.embedded := by
  obtain ⟨f, -, ho⟩ | ho := outcome_emitWith_cases (s := s) kind scope location force gen <;>
    rw [ho]
  simp only [State.withNext, Stream.embedded_withNext, h, Option.toList_none, List.append_nil]

theorem innerStep_emitWith {kind : InstKind} (h : kind.isInner = true) (scope : ScopeId)
    (location : Option Location) (force gen : Bool) :
    InnerStep (emitWith kind scope location force gen) where
  toPlainStep := plainStep_emitWith (InstKind.decl?_of_isInner h) scope location force gen
  embedded _ _ := embedded_emitWith (InstKind.unit?_of_isInner h) scope location force gen

theorem innerStep_newBlock (name : String) : InnerStep (newBlock name) where
  toStep := step_newBlock name
  mirrors _ _ := mirrors_get fun s log => by
    simp only [State.retouch, Stream.newBlock_retouch]
    exact ⟨log, rfl⟩
  embedded _ _ := rfl

theorem innerStep_goto (b : BlockId) : InnerStep (goto b) where
  toStep := step_goto b
  mirrors _ _ := mirrors_modify fun s log => ⟨log, by
    simp only [State.retouch, Stream.goto_retouch]⟩
  embedded _ _ := rfl

theorem innerStep_openScope (parent : ScopeId) (kind : ScopeKind) :
    InnerStep (openScope parent kind) where
  toStep := step_openScope parent kind
  mirrors _ _ := mirrors_bind (mirrors_scopeAt parent) fun _ =>
    mirrors_get fun _ log => ⟨log, rfl⟩
  embedded env s := by
    obtain ⟨f, -, h⟩ | ⟨-, h⟩ := outcome_openScope_cases (s := s) parent kind <;> rw [h]

theorem innerStep_openSink (scope : ScopeId) (loc : ResultLoc) :
    InnerStep (openSink scope loc) where
  toStep := step_openSink scope loc
  mirrors _ _ := mirrors_modify fun _ log => ⟨log, rfl⟩
  embedded _ _ := rfl

theorem innerStep_flowInto (scope : ScopeId) (value : InstId) :
    InnerStep (flowInto scope value) where
  toStep := step_flowInto scope value
  mirrors _ _ := mirrors_modify fun s log => ⟨log, by
    simp only [State.retouch, Stream.retouch_currentBlock]⟩
  embedded _ _ := rfl

theorem innerStep_closeSink (scope : ScopeId) : InnerStep (closeSink scope) where
  toStep := step_closeSink scope
  mirrors _ _ := mirrors_get fun _ log => ⟨log, rfl⟩
  embedded _ _ := rfl

theorem innerStep_setNameHint (init : Node) (name : String) :
    InnerStep (setNameHint init name) where
  toStep := step_setNameHint init name
  mirrors _ _ := mirrors_modify fun _ log => ⟨log, rfl⟩
  embedded _ _ := rfl

theorem innerStep_takeNameHint (node : Node) : InnerStep (takeNameHint node) where
  toStep := step_takeNameHint node
  mirrors _ _ := mirrors_get fun s log => by
    dsimp only [State.retouch]
    split
    · split
      · exact ⟨log, rfl⟩
      · exact ⟨log, rfl⟩
    · exact ⟨log, rfl⟩
  embedded env s := by
    simp only [takeNameHint, outcome_bind, outcome_get]
    split
    · split <;> rfl
    · rfl

theorem innerStep_countMade (m : Node.MemberSymbol) : InnerStep (countMade m) where
  toStep := step_countMade m
  mirrors _ _ := by
    cases m with
    | written => exact mirrors_pure _
    | made symbol => exact mirrors_modify fun _ log => ⟨log, rfl⟩
  embedded _ _ := by cases m <;> rfl

end Lower

end SourceIr
