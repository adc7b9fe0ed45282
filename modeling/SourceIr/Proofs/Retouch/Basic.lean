import SourceIr.Proofs.Comparison.Unit

/-!
# Lowerings that differ in particulars

The same routine is run in two environments, from a state and from that state as the other lowering
has it.  Whatever the routine does, it ends alike in both: what it puts on record differs as the
retouching says, and nothing else does.

* `Between`, the environments that a retouching leads from one to the other;
* `retouches`, the comparison of the routines in two such environments;
* `relParts_retouches`, the routines for parts, however deep they are nested.
-/

namespace SourceIr.Lower

/-- A retouching turns what is lowered in one environment into what is lowered in the other. -/
structure Between (ρ : Retouch) (env env' : Env) : Prop where
  /-- The same names refer to declarations at the same places. -/
  table : ∀ name, (env'.table.get? name).map (fun d => (d.id, d.location)) =
    (env.table.get? name).map fun d => (ρ.decl d.id, d.location)
  policy : env'.options.errorPolicy = env.options.errorPolicy
  maxDepth : env'.options.maxDepth = env.options.maxDepth
  /-- What a routine fails with is put on record with the frames of its environment. -/
  frames : ∀ (m : Message) calls, m.callStack = [] →
    m.withCallers calls env'.options.callStackLimit =
      ρ.error (m.withCallers calls env.options.callStackLimit)
  noEffect : ∀ m : Message, m.kind = .noEffect →
    env'.options.warnNoEffect = (env.options.warnNoEffect && ρ.keeps m)
  unreachable : ∀ m : Message, m.kind = .unreachableCode → ρ.keeps m = true

variable {ρ : Retouch} {env env' : Env} {s : State} {α β : Type} {x x' : LowerM α}

/-! ### What names stand for -/

/-- What a name stands for, with other handles for declarations. -/
def Resolved.retouch (ρ : Retouch) : Resolved → Resolved
  | .var v => .var v
  | .decl d => .decl (ρ.decl d)

namespace Between

open ScopeTree

variable (h : Between ρ env env') (t : ScopeTree) (scope : ScopeId) (name : String)

include h

theorem get?_id : (env'.table.get? name).map (fun d => Resolved.decl d.id) =
    ((env.table.get? name).map fun d => Resolved.decl d.id).map (Resolved.retouch ρ) := by
  have hn := congrArg (Option.map fun d : DeclId × Option Location => Resolved.decl d.1)
    (h.table name)
  simpa only [Option.map_map, Function.comp_def, Resolved.retouch] using hn

theorem get?_location : (env'.table.get? name).map (·.location) =
    (env.table.get? name).map (·.location) := by
  have hn := congrArg (Option.map fun d : DeclId × Option Location => d.2) (h.table name)
  simpa only [Option.map_map, Function.comp_def] using hn

theorem resolveIn_eq (x : Scope) :
    resolveIn x name env'.table = (resolveIn x name env.table).map (Resolved.retouch ρ) := by
  rw [resolveIn, resolveIn]
  cases x.names.lookup name with
  | some v => rfl
  | none =>
    rw [memberDecl?, memberDecl?]
    cases x.kind
    case container path => exact h.get?_id _
    all_goals rfl

/-- A name stands for the same variable, or for the same declaration under its other handle. -/
theorem lookup_eq : t.lookup scope name env'.table =
    (t.lookup scope name env.table).map (Resolved.retouch ρ) := by
  have hchain : (t.chain scope).findSome? (resolveIn · name env'.table) =
      ((t.chain scope).findSome? (resolveIn · name env.table)).map (Resolved.retouch ρ) := by
    rw [List.map_findSome?]
    exact congrArg (List.findSome? · _) (funext fun x => h.resolveIn_eq name x)
  rw [lookup, lookup, hchain]
  cases (t.chain scope).findSome? (resolveIn · name env.table) with
  | some r => rfl
  | none => exact h.get?_id name

/-- What takes a name stands at the same place. -/
theorem location_lookupDecl : (t.lookupDecl scope name env'.table).map (·.location) =
    (t.lookupDecl scope name env.table).map (·.location) := by
  have hmember : ∀ x, (memberDecl? x name env'.table).map (·.location) =
      (memberDecl? x name env.table).map (·.location) := by
    intro x
    rw [memberDecl?, memberDecl?]
    cases x.kind
    case container path => exact h.get?_location _
    all_goals rfl
  have hchain : ((t.chain scope).findSome? (memberDecl? · name env'.table)).map (·.location) =
      ((t.chain scope).findSome? (memberDecl? · name env.table)).map (·.location) := by
    rw [List.map_findSome?, List.map_findSome?]
    exact congrArg (List.findSome? · _) (funext hmember)
  have split : ∀ table, t.lookupDecl scope name table =
      ((t.chain scope).findSome? (memberDecl? · name table)).or (table.get? name) := by
    intro table
    rw [lookupDecl]
    cases (t.chain scope).findSome? (memberDecl? · name table) <;> rfl
  rw [split, split, Option.map_or, Option.map_or, hchain, h.get?_location]

/-- A request is refused with the same diagnostic. -/
theorem declare_eq (r : BindingRequest) :
    t.declare scope r env'.table = t.declare scope r env.table := by
  have refuse : ∀ name, t.nameError? scope name r env'.table =
      t.nameError? scope name r env.table := by
    intro name
    have hl := congrArg (Option.map fun location : Option Location =>
      collision s!"redefinition of '{name}'" r.location "previous definition here" location)
      (h.location_lookupDecl t scope name)
    simp only [Option.map_map, Function.comp_def] at hl
    rw [nameError?, nameError?, hl]
  have error : t.bindingError? scope r env'.table = t.bindingError? scope r env.table := by
    rw [bindingError?, bindingError?]
    cases r.name with
    | some name => simp only [refuse]
    | none => rfl
  rw [ScopeTree.declare, ScopeTree.declare, error]

end Between

/-! ### Failures and warnings -/

/-- A routine that fails. -/
theorem mirrors_fail (h : Between ρ env env') {m : Message} (hm : m.isFatal = true)
    (hc : m.callStack = []) : Mirrors ρ env env' (fail m : LowerM α) (fail m) := by
  intro s log
  obtain ⟨log₁, h₁⟩ := @outcome_fail α env s m
  obtain ⟨log₂, h₂⟩ := @outcome_fail α env' (s.retouch ρ log) m
  have recorded : (s.retouch ρ log).recorded env'.options.callStackLimit m =
      ρ.error (s.recorded env.options.callStackLimit m) := by
    rw [State.recorded, State.recorded, if_pos hm, if_pos hm]
    exact h.frames m s.calls hc
  refine ⟨log₂, ?_⟩
  rw [h₁, h₂, recorded, State.stream_retouch, Stream.invalidate_retouch]
  rfl

/-- A node that is nested too deeply is refused with the same diagnostic. -/
theorem mirrors_failDepth (h : Between ρ env env') (node : Node) :
    Mirrors ρ env env' (failDepth node : LowerM α) (failDepth node) := by
  intro s log
  rw [failDepth, outcome_bind, outcome_bind, outcome_read, outcome_read]
  dsimp only
  rw [h.maxDepth]
  exact mirrors_fail h rfl rfl s log

theorem outcome_warnAt (env : Env) (s : State) (kind : DiagnosticKind) (message : String)
    (node : Node) : ∃ log, outcome (warnAt kind message node) env s =
      (.ok ⟨⟩, { s with
        stream := s.stream.addWarning
          (.ofKind kind message "lower_statement" node.location node.span), log }) := ⟨_, rfl⟩

theorem mirrors_warnAt (kind : DiagnosticKind) (message : String) (node : Node)
    (h : ∀ m : Message, m.kind = kind → ρ.keeps m = true) :
    Mirrors ρ env env' (warnAt kind message node) (warnAt kind message node) := by
  intro s log
  obtain ⟨log₁, h₁⟩ := outcome_warnAt env s kind message node
  obtain ⟨log₂, h₂⟩ := outcome_warnAt env' (s.retouch ρ log) kind message node
  refine ⟨log₂, ?_⟩
  rw [h₁, h₂, State.stream_retouch, Stream.addWarning_retouch ρ (h _ rfl)]
  rfl

/-- A warning that one of the lowerings leaves out. -/
theorem mirrors_of_dropped (kind : DiagnosticKind) (message : String) (node : Node)
    (h : ∀ m : Message, m.kind = kind → ρ.keeps m = false) (hx : Mirrors ρ env env' x x') :
    Mirrors ρ env env' (do warnAt kind message node; x) x' := by
  intro s log
  obtain ⟨log', ho⟩ := outcome_warnAt env s kind message node
  have hs : s.retouch ρ log = State.retouch ρ log { s with
      stream := s.stream.addWarning
        (.ofKind kind message "lower_statement" node.location node.span), log := log' } := by
    rw [State.retouch, State.retouch, Stream.retouch_addWarning_of_dropped ρ (h _ rfl)]
  rw [outcome_bind, ho, hs]
  exact hx _ log

/-- Whether a statement without effect is worth a warning may differ, if its warnings do. -/
theorem mirrors_warnIdle (h : Between ρ env env') (effectful : Bool) (node : Node)
    (hx : Mirrors ρ env env' x x') : Mirrors ρ env env'
      (do
        if (← read).options.warnNoEffect && !effectful then
          warnAt .noEffect "statement has no effect" node
        x)
      (do
        if (← read).options.warnNoEffect && !effectful then
          warnAt .noEffect "statement has no effect" node
        x') := by
  intro s log
  rw [outcome_bind, outcome_bind, outcome_read, outcome_read]
  dsimp only
  by_cases hw : (env.options.warnNoEffect && !effectful) = true
  · obtain ⟨hwarn, heffect⟩ := Bool.and_eq_true_iff.1 hw
    rw [if_pos hw]
    have keeps : ∀ m : Message, m.kind = .noEffect →
        ρ.keeps m = env'.options.warnNoEffect := fun m hm => by rw [h.noEffect m hm, hwarn]; rfl
    cases hw' : env'.options.warnNoEffect <;> rw [hw'] at keeps
    · exact mirrors_of_dropped _ _ _ keeps hx s log
    · simp only [heffect, Bool.and_self, if_true]
      exact mirrors_bind (mirrors_warnAt _ _ _ keeps) (fun _ => hx) s log
  · rw [if_neg hw, if_neg]
    · exact hx s log
    · rw [h.noEffect (.ofKind .noEffect "" "" none none) rfl]
      revert hw
      cases env.options.warnNoEffect <;> cases effectful <;> simp

/-- A small step does not ask for the environment. -/
theorem mirrors_step (hx : PlainStep x) : Mirrors ρ env env' x x := fun s log => by
  rw [← hx.same env env']
  exact hx.mirrors ρ env s log

/-! ### Attempts -/

theorem mirrors_attempt (hx : Mirrors ρ env env' x x') :
    Mirrors ρ env env' (attempt x) (attempt x') := by
  intro s log
  obtain ⟨log', h⟩ := hx s log
  rw [outcome_attempt, outcome_attempt, h]
  rcases outcome x env s with ⟨(_ | _) | a, t⟩ <;> exact ⟨log', rfl⟩

theorem mirrors_declare? (h : Between ρ env env') (scope : ScopeId) (r : BindingRequest) :
    Mirrors ρ env env' (declare? scope r) (declare? scope r) := by
  intro s log
  rw [declare?, outcome_bind, outcome_bind, outcome_read, outcome_read]
  refine mirrors_get (fun s log => ?_) s log
  dsimp only [State.retouch]
  rw [h.declare_eq]
  cases s.scopes.bindingFault? scope r with
  | some f => exact ⟨log, rfl⟩
  | none =>
    rw [outcome_bind, outcome_bind, outcome_stopAt_none, outcome_stopAt_none]
    dsimp only
    cases s.scopes.declare scope r env.table with
    | ok v => exact ⟨_, rfl⟩
    | error m => exact ⟨log, rfl⟩

theorem mirrors_declare (h : Between ρ env env') (scope : ScopeId) (r : BindingRequest) :
    Mirrors ρ env env' (declare scope r) (declare scope r) := by
  intro s log
  -- What a name is refused with is an error.
  have hend := outcome_declare? env s scope r
  obtain ⟨log', hd⟩ := mirrors_declare? h scope r s log
  rw [declare, outcome_bind, outcome_bind, hd]
  generalize outcome (declare? scope r) env s = o at hend
  cases hend with
  | fault => exact ⟨log', rfl⟩
  | declared => exact ⟨log', rfl⟩
  | refused hm => exact mirrors_fail h hm.isFatal hm.callStack s log'

theorem mirrors_orDeclareFailed (h : Between ρ env env') (node : Node) (name : String)
    (scope : ScopeId) (hx : Mirrors ρ env env' x x') :
    Mirrors ρ env env' (orDeclareFailed x node name scope)
      (orDeclareFailed x' node name scope) := by
  refine mirrors_bind (mirrors_attempt hx) fun r => ?_
  cases r with
  | some a => exact mirrors_pure a
  | none =>
    refine mirrors_bind (mirrors_declare? h _ _) fun r => ?_
    cases r with
    | ok var =>
      exact mirrors_bind (mirrors_modify fun _ log => ⟨log, rfl⟩) fun _ => mirrors_throw _
    | error m => exact mirrors_throw _

theorem mirrors_withFrame {location : Option Location} {description : String}
    (hx : Mirrors ρ env env' x x') : Mirrors ρ env env' (withFrame location description x)
      (withFrame location description x') := by
  refine mirrors_bind (mirrors_modify fun _ log => ⟨log, rfl⟩) fun _ => ?_
  refine mirrors_bind (mirrors_attempt hx) fun r => ?_
  refine mirrors_bind (mirrors_modify fun _ log => ⟨log, rfl⟩) fun _ => ?_
  cases r with
  | some a => exact mirrors_pure a
  | none => exact mirrors_throw _

/-- The stream of a routine, as the other lowering has it, becomes a child of the one around it. -/
theorem mirrors_inChildStream {name : String} {root : ScopeId} (hx : Mirrors ρ env env' x x') :
    Mirrors ρ env env' (inChildStream name root x) (inChildStream name root x') := by
  intro s log
  have hstart : (s.retouch ρ log).inChild name root = (s.inChild name root).retouch ρ log := by
    rw [State.inChild, State.inChild, State.retouch, State.retouch, Stream.new_retouch]
  have hend : ∀ t log', ∃ log'', (s.retouch ρ log).around (t.retouch ρ log') =
      (s.around t).retouch ρ log'' := by
    intro t log'
    refine ⟨((s.retouch ρ log).around (t.retouch ρ log')).log, ?_⟩
    simp only [State.around, State.stream_retouch, Stream.addChild_retouch]
    rfl
  obtain ⟨log', h⟩ := hx (s.inChild name root) log
  rw [outcome_inChildStream, outcome_inChildStream, hstart, h]
  rcases outcome x env (s.inChild name root) with ⟨(_ | f) | a, t⟩
  · obtain ⟨log'', ht⟩ := hend t log'
    exact ⟨log'', by simp [ht]⟩
  · exact ⟨log', rfl⟩
  · obtain ⟨log'', ht⟩ := hend t log'
    exact ⟨log'', by simp [ht]⟩

theorem mirrors_lowerStatements (h : Between ρ env env') {parts parts' : Parts}
    (hp : ∀ node scope,
      Mirrors ρ env env' (parts.statement node scope) (parts'.statement node scope))
    (statements : List Node) (scope : ScopeId) (failed : Bool) :
    Mirrors ρ env env' (lowerStatements parts scope failed statements)
      (lowerStatements parts' scope failed statements) := by
  have done : ∀ (scope : ScopeId) (failed : Bool), Mirrors ρ env env'
      (if failed then throw .poisoned else return scope)
      (if failed then throw .poisoned else return scope) := by
    intro scope failed
    cases failed
    · exact mirrors_pure scope
    · exact mirrors_throw _
  induction statements generalizing scope failed with
  | nil => exact done scope failed
  | cons statement rest ih =>
    have terminated : Mirrors ρ env env' isTerminated isTerminated :=
      mirrors_get_of_blind (fun _ _ _ => by simp) fun _ =>
        mirrors_bind (mirrors_stopAt _) fun _ => mirrors_pure _
    refine mirrors_bind terminated fun terminated => ?_
    cases terminated with
    | true => exact mirrors_bind (mirrors_warnAt _ _ _ h.unreachable) fun _ => done scope failed
    | false =>
      refine mirrors_bind (mirrors_attempt (hp statement scope)) fun next => ?_
      cases next with
      | some next => exact ih next failed
      | none =>
        intro s log
        rw [outcome_bind, outcome_bind, outcome_read, outcome_read]
        dsimp only
        rw [h.policy]
        cases env.options.errorPolicy with
        | abort => exact ⟨log, rfl⟩
        | proceed => exact ih scope true s log

/-! ### The comparison -/

/-- The same routines in two environments that a retouching leads from one to the other. -/
def retouches (h : Between ρ env env') : NestedComparison where
  Rel x x' := Mirrors ρ env env' x x'
  rel_pure := mirrors_pure
  rel_bind := mirrors_bind
  rel_get hb hf := mirrors_get_of_blind hb hf
  rel_lookup scopes scope name location lval hx hy s log := by
    rw [outcome_bind, outcome_bind, outcome_read, outcome_read]
    dsimp only
    rw [h.lookup_eq]
    rcases scopes.lookup scope name env.table with _ | v | d
    · exact hy s log
    · exact hx v s log
    · exact mirrors_emitWith (.declRef d name lval) scope location false false s log
  rel_warnIdle effectful node hx := mirrors_warnIdle h effectful node hx
  rel_fault _ := mirrors_throw _
  rel_fail hm _ := mirrors_fail h hm.isFatal hm.callStack
  rel_unlessFailed var hx := mirrors_get_of_blind (fun _ _ _ => rfl) fun s => by
    split
    · exact mirrors_throw _
    · exact hx
  rel_plain hx := mirrors_step hx
  rel_declare scope r _ := mirrors_declare h scope r
  rel_defer scope kind _ := mirrors_bind
    (mirrors_step (innerStep_openScope scope (.deferred kind)).toPlainStep)
    fun _ => mirrors_bind (mirrors_modify fun _ log => ⟨log, rfl⟩) fun _ => mirrors_pure _
  rel_orDeclareFailed node name scope hx := mirrors_orDeclareFailed h node name scope hx
  rel_withFrame _ _ hx := mirrors_withFrame hx
  rel_inChildStream _ _ hx hf hf' hg := mirrors_bind (mirrors_inChildStream hx) fun r => by
    obtain ⟨unit, _ | a⟩ := r
    · rw [hf, hf']
      exact mirrors_throw _
    · exact hg unit a
  rel_lowerStatements hp statements scope := mirrors_lowerStatements h hp statements scope false

/-- The routines for parts, however many levels of nesting are left. -/
theorem relParts_retouches (h : Between ρ env env') (levels : Nat) :
    (retouches h).RelParts (nested levels) (nested levels) := by
  induction levels with
  | zero =>
    exact ⟨fun node _ _ => mirrors_failDepth h node, fun node _ => mirrors_failDepth h node⟩
  | succ levels ih =>
    exact ⟨fun node scope loc => NestedComparison.rel_lowerExpr scope node loc ih,
      fun node scope => Comparison.rel_lowerStatement scope node ih⟩

end SourceIr.Lower
