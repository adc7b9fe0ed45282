import SourceIr.Proofs.Enclosure.Basic
import SourceIr.Proofs.Logic.Routines

/-!
# Enclosure of branches and jumps

The routines that branch, jump or change the stream keep every branch inside, if the routines for
their parts do.  A construct branches to blocks that it has made itself; a jump leads to the blocks
of a scope around it, which were made in the same stream unless the scope is its root.

* `ConfinedParts`, what is relied on for parts;
* deferred expressions, statements and blocks;
* branches, loops and jumps, `Leads.lands`;
* `confines_inChildStream_bind`, the streams of compile-time blocks;
* `confinedParts_nested`, the routines for parts at every level of nesting.
-/

namespace SourceIr.Lower

open Logic

/-- What is relied on for the parts of a construct. -/
structure ConfinedParts (env : Env) (parts : Parts) : Prop where
  expr : ∀ {s node scope loc}, IsInside s scope →
    Confines env s (parts.expr node scope loc) fun _ _ => True
  statement : ∀ {s node scope}, IsInside s scope →
    Confines env s (parts.statement node scope) fun s' inner => NestedIn s' scope inner

variable {env : Env} {s s' : State} {parts : Parts} {node : Node} {scope : ScopeId}
  {location : Option Location} {loc : ResultLoc} {α β : Type}

/-! ### What the logic gives

The rules that all logics share, for this one. -/

theorem ConfinedParts.holds (hp : ConfinedParts env parts) : (enclosure env).HoldsParts parts :=
  fun _ _ _ _ _ hs _ => hp.expr hs

theorem ConfinedParts.value (hp : ConfinedParts env parts) (hs : IsInside s scope) :
    Confines env s (parts.value node scope) fun _ _ => True :=
  hp.expr hs

/-- A result location is never in the way. -/
theorem enclosure_loc : (enclosure env).Loc s loc := fun _ _ => trivial

theorem confines_get_bind {f : State → LowerM α} {Q : State → α → Prop}
    (h : Confines env s (f s) Q) : Confines env s (get >>= f) Q :=
  holds_get_bind (L := enclosure env) h

theorem confines_read_bind {f : Env → LowerM α} {Q : State → α → Prop}
    (h : Confines env s (f env) Q) : Confines env s (read >>= f) Q :=
  holds_read_bind (L := enclosure env) h

/-- A routine that walks outward from a scope goes on with the scopes as they are. -/
theorem confines_scopesFrom_bind {f : ScopeTree → LowerM α} {Q : State → α → Prop}
    (h : Confines env s (f s.scopes) Q) : Confines env s (scopesFrom scope >>= f) Q :=
  fun hs a s' hr => h hs a s' (returns_scopesFrom_bind hr)

theorem confines_settle (hs : IsInside s scope) :
    Confines env s (settle loc scope location) fun _ _ => True :=
  confines_mono (holds_settle (L := enclosure env) hs enclosure_loc) fun _ _ _ _ => trivial

theorem confines_deliver {value : InstId} (hs : IsInside s scope) :
    Confines env s (deliver value loc scope location) fun _ _ => True :=
  holds_deliver (L := enclosure env) hs trivial enclosure_loc

theorem confines_emitVoid : Confines env s (emitVoid scope location) fun _ _ => True :=
  confines_emitPlain rfl

theorem confines_declare {r : BindingRequest} :
    Confines env s (declare scope r) fun _ _ => True := by
  refine confines_bind confines_declare? fun t result _ _ => ?_
  cases result with
  | ok id => exact confines_pure trivial
  | error m => exact confines_of_fails fun _ _ => not_returns_fail

theorem confines_stepIndex {ptr : InstId} (hs : IsInside s scope) :
    Confines env s (stepIndex ptr node scope) fun _ _ => True :=
  holds_stepIndex (L := enclosure env) hs trivial

theorem confines_emitTest {payload : Option String} {cond : InstId} (hs : IsInside s scope) :
    Confines env s (emitTest node payload cond scope) fun _ _ => True :=
  holds_emitTest (L := enclosure env) hs trivial

theorem confines_enterBranch {payload : Option String} {cond : InstId} (hs : IsInside s scope) :
    Confines env s (enterBranch node payload cond scope) IsInside :=
  holds_enterBranch (L := enclosure env) trivial hs

theorem confines_bindPayload {name : String} {value : InstId} (hs : IsInside s scope) :
    Confines env s (bindPayload scope name value node) IsInside :=
  holds_bindPayload (L := enclosure env) trivial hs

/-- A scope without jumps of its own. -/
theorem confines_inner {kind : ScopeKind} (hs : IsInside s scope) (hk : exits kind = []) :
    Confines env s (openScope scope kind) fun s' inner =>
      NestedIn s' scope inner ∧ s'.exitsOf inner = [] :=
  hk ▸ confines_openScope hs (by simp [hk])

/-- A part of a construct, after which the scope of the construct is still inside. -/
theorem confines_then {x : LowerM α} {f : α → LowerM β} {R : State → α → Prop}
    {Q : State → β → Prop} (hs : IsInside s scope) (hx : Confines env s x R)
    (hf : ∀ s' a, Widens s s' → IsInside s' scope → R s' a → Confines env s' (f a) Q) :
    Confines env s (x >>= f) Q :=
  confines_bind hx fun s' a k hR => hf s' a k (hs.mono k) hR

/-! ### Blocks of the stream -/

theorem confines_newBlock {name : String} : Confines env s (newBlock name) IsBlock :=
  confines_step rfl rfl rfl ⟨by simp, .refl _, rfl⟩ id fun _ => by simp [IsBlock]

theorem confines_goto {b : BlockId} : Confines env s (goto b) fun _ _ => True :=
  confines_step (outcome_modify _) rfl rfl (.of_eq rfl rfl rfl) id fun _ => trivial

theorem confines_currentBlock : Confines env s currentBlock fun _ _ => True :=
  confines_get_bind (confines_pure trivial)

/-- A test of whether control goes on leaves the state as it is. -/
theorem confines_isTerminated_bind {f : Bool → LowerM α} {Q : State → α → Prop}
    (h : ∀ terminated, Confines env s (f terminated) Q) :
    Confines env s (isTerminated >>= f) Q :=
  fun hs a s' hr => h _ hs a s' (returns_isTerminated_bind hr)

theorem confines_lastInst : Confines env s lastInst fun _ _ => True :=
  confines_get_bind (confines_pure trivial)

/-- A jump to a block of the stream. -/
theorem confines_jump {target : BlockId} {force gen : Bool} (h : IsBlock s target) :
    Confines env s (emitWith (.br target) scope location force gen) fun _ _ => True :=
  confines_emitWith fun _ hb => .inl (List.mem_singleton.1 hb ▸ h)

/-- A branch to blocks of the stream. -/
theorem confines_condBr {cond : InstId} {yes no : BlockId} {force gen : Bool}
    (hyes : IsBlock s yes) (hno : IsBlock s no) :
    Confines env s (emitWith (.condBr cond yes no) scope location force gen) fun _ _ => True :=
  confines_emitWith (by simp [InstKind.targets, hyes, hno])

/-! ### Sinks -/

theorem confines_openSink : Confines env s (openSink scope loc) fun _ _ => True :=
  confines_set (outcome_modify _) rfl rfl rfl

theorem confines_flowInto {value : InstId} :
    Confines env s (flowInto scope value) fun _ _ => True :=
  confines_set (outcome_modify _) rfl rfl rfl

theorem confines_closeSink : Confines env s (closeSink scope) fun _ _ => True :=
  confines_step rfl rfl rfl (.of_eq rfl rfl rfl) id fun _ => trivial

/-! ### Deferred expressions -/

/-- The scope of a deferred expression that may be run from a scope. -/
def State.Reaches (s : State) (scope : ScopeId) (d : ScopeId × DeferKind) : Prop :=
  ∃ x ∈ s.scopes.inside s.streamRoot scope, x.1 = d.1

theorem State.Reaches.mono {d : ScopeId × DeferKind} (h : s.Reaches scope d)
    (hs : IsInside s scope) (k : Widens s s') : s'.Reaches scope d := by
  rwa [Reaches, k.root, k.scopes.inside_eq hs.index]

variable (hp : ConfinedParts env parts)

include hp in
/-- A deferred expression is lowered next to its scope, which is inside the root too. -/
theorem confines_runDefer {expr : Node} {d : ScopeId × DeferKind} (hs : IsInside s scope)
    (hd : s.Reaches scope d) : Confines env s (runDefer parts d.1 expr) fun _ _ => True := by
  refine confines_of_enclosed fun he => ?_
  obtain ⟨y, hy, hyd⟩ := hd
  obtain ⟨x, hx, hxy⟩ := ScopeTree.reaches_of_mem_inside hy
  have hmem : x ∈ s.scopes.chain scope := by
    obtain ⟨pre, rest, hl, -⟩ := hx
    simp [hl]
  obtain ⟨hlt, hsub⟩ := hx.parent he.scopes
  have hin : IsInside s (x.parent.getD x.id) := ⟨hlt, fun y hy => hs.exits y (hsub y hy)⟩
  rw [← hxy.trans hyd, runDefer]
  intro _ u s' hr
  obtain ⟨z, hz, hr⟩ := returns_scopeAt_bind hr
  obtain rfl := Option.some.inj ((he.scopes.scope?_of_mem hmem).symm.trans hz)
  refine confines_bind (Q := fun _ _ => True) (confines_inner hin rfl) (fun s₁ body _ hb => ?_)
    he u s' hr
  exact confines_bind (hp.expr hb.1.isInside) fun _ _ _ _ => confines_pure trivial

include hp in
theorem confines_runDefersIn {path : ExitPath} {defers : List (ScopeId × DeferKind)}
    (hs : IsInside s scope) (hd : ∀ d ∈ defers, s.Reaches scope d) :
    Confines env s (runDefersIn parts path defers) fun _ _ => True := by
  induction defers generalizing s with
  | nil => exact confines_pure trivial
  | cons d rest ih =>
    have hrest : ∀ d ∈ rest, s.Reaches scope d := fun d h => hd d (List.mem_cons_of_mem _ h)
    rw [runDefersIn]
    refine confines_get_bind ?_
    dsimp only
    split
    · exact ih hs hrest
    · refine confines_bind (confines_runDefer hp hs (hd d List.mem_cons_self))
        fun s₁ _ k₁ _ => confines_isTerminated_bind fun terminated => ?_
      split
      · exact confines_pure trivial
      · exact ih (hs.mono k₁) fun d h => (hrest d h).mono hs k₁

include hp in
/-- The deferred expressions on a way that does not leave the stream. -/
theorem confines_runDefers {target : Option ScopeId} {path : ExitPath} (hs : IsInside s scope)
    (h : s.scopes.leaves s.streamRoot scope target = false) :
    Confines env s (runDefers parts scope target path) fun _ _ => True := by
  refine confines_scopesFrom_bind (confines_runDefersIn hp hs fun d hd => ?_)
  obtain ⟨y, hy, hyd⟩ := ScopeTree.reaches_of_mem_defersIn h hd
  exact ⟨_, hy.mem_inside, hyd⟩

/-! ### Statements and blocks -/

include hp in
theorem confines_lowerStatements {statements : List Node} (hs : IsInside s scope) :
    Confines env s (lowerStatements parts scope false statements) fun s' last =>
      NestedIn s' scope last := by
  induction statements generalizing s scope with
  | nil => exact confines_pure (.self hs)
  | cons statement rest ih =>
    rw [lowerStatements]
    refine confines_isTerminated_bind fun terminated => ?_
    split
    · exact confines_bind confines_warnAt fun s₁ _ k₁ _ => confines_pure (.self (hs.mono k₁))
    intro he last s' hr
    obtain ⟨r, t, hra, hr⟩ := returns_bind.1 hr
    cases r with
    | some next =>
      obtain ⟨ht, k, h⟩ := hp.statement hs he next t (returns_attempt_some.1 hra)
      obtain ⟨hs', k', h'⟩ := ih h.isInside ht last s' hr
      exact ⟨hs', k.trans k', (h.mono (hs.mono k).index k').trans h'⟩
    | none =>
      -- Once a statement has failed, the block fails.
      obtain ⟨_, t', -, hr⟩ := returns_bind.1 hr
      split at hr
      · exact absurd hr not_returns_throw
      · exact absurd hr not_returns_lowerStatements

include hp in
/-- The deferred expressions of a block, from the scope after its last statement. -/
theorem confines_leaveBlock {block last : ScopeId} {x : LowerM α} {Q : State → α → Prop}
    (hb : IsScope s block) (hl : NestedIn s block last)
    (h : ∀ s', Widens s s' → Confines env s' x Q) :
    Confines env s (do
      runDefers parts last (some block) .normal
      x) Q := by
  refine confines_of_enclosed fun he => ?_
  exact confines_bind (confines_runDefers hp hl.isInside (hl.under.leaves_eq_false he.scopes hb))
    fun s' _ k _ => h s' k

/-- The value of a block, once its scope is left. -/
theorem confines_blockValue (hs : IsInside s scope) :
    Confines env s (do
      let terminated ← isTerminated
      let stream := (← get).stream
      match if terminated then stream.last? else none with
      | some stop => return stop
      | none =>
        let void ← emitVoid scope node.location
        deliver void loc scope node.location) fun _ _ => True := by
  refine confines_isTerminated_bind fun terminated => confines_get_bind ?_
  dsimp only
  split
  · exact confines_pure trivial
  · exact confines_bind confines_emitVoid fun s₁ _ k₁ _ => confines_deliver (hs.mono k₁)

include hp in
theorem confines_lowerPlainBlock {statements : List Node} (hs : IsInside s scope) :
    Confines env s (lowerPlainBlock parts node statements scope loc) fun _ _ => True := by
  refine confines_bind (confines_inner hs rfl) fun s₁ block k₁ ⟨hb, _⟩ => ?_
  refine confines_bind (confines_lowerStatements hp hb.isInside) fun s₂ last k₂ hl => ?_
  have hs₂ : IsInside s₂ scope := by grind
  refine confines_isTerminated_bind fun terminated => ?_
  split
  · exact confines_leaveBlock hp (hb.isInside.mono k₂).index hl fun s₃ k₃ =>
      confines_blockValue (hs₂.mono k₃)
  · exact confines_blockValue hs₂

theorem confines_joinAt {stop : BlockId} {incoming : List (BlockId × InstId)} :
    Confines env s (joinAt stop incoming scope node) fun _ _ => True := by
  refine confines_bind confines_goto fun s₁ _ k₁ _ => ?_
  split
  · exact confines_emitPlain rfl
  · exact confines_emitPlain rfl

include hp in
theorem confines_lowerLabelledBlock {label : String} {statements : List Node}
    (hs : IsInside s scope) :
    Confines env s (lowerLabelledBlock parts node label statements scope loc) fun _ _ => True := by
  refine confines_bind (confines_settle hs) fun s₁ loc k₁ _ => ?_
  refine confines_bind confines_newBlock fun s₂ stop k₂ hstop => ?_
  refine confines_bind (confines_openScope (by grind) (by simpa [exits] using hstop))
    fun s₃ block k₃ ⟨hb, _⟩ => ?_
  refine confines_bind confines_openSink fun s₄ _ k₄ _ => ?_
  have hb := hb.isInside.mono k₄
  refine confines_bind (confines_lowerStatements hp hb) fun s₅ last k₅ hl => ?_
  have join : ∀ s', Confines env s' (do
      joinAt stop (← closeSink block) scope node) fun _ _ => True :=
    fun s' => confines_bind confines_closeSink fun _ _ _ _ => confines_joinAt
  refine confines_isTerminated_bind fun terminated => ?_
  split
  · refine confines_leaveBlock hp (hb.mono k₅).index hl fun s₆ k₆ => ?_
    refine confines_isTerminated_bind fun terminated => ?_
    split
    · refine confines_bind confines_emitVoid fun s₇ void k₇ _ => ?_
      refine confines_bind confines_flowInto fun s₈ _ k₈ _ => ?_
      exact confines_bind (confines_jump (by grind)) fun s₉ _ k₉ _ => join s₉
    · exact join s₆
  · exact join s₅

include hp in
theorem confines_lowerBlock {label : Option String} {statements : List Node}
    (hs : IsInside s scope) :
    Confines env s (lowerBlock parts node label statements scope loc) fun _ _ => True := by
  cases label with
  | none => exact confines_lowerPlainBlock hp hs
  | some label => exact confines_lowerLabelledBlock hp hs

include hp in
theorem confines_lowerExprStatement (hs : IsInside s scope) :
    Confines env s (lowerExprStatement parts node scope) fun _ _ => True := by
  refine confines_get_bind ?_
  refine confines_bind (hp.expr hs) fun s₁ value k₁ _ => ?_
  have check : ∀ s', Confines env s' (do
      let _ ← emitGen (.checkStatementIsVoid value) scope node.location) fun _ _ => True :=
    fun s' => confines_bind (confines_emitPlain rfl) fun _ _ _ _ => confines_pure trivial
  refine confines_isTerminated_bind fun terminated => ?_
  split
  · intro he a s' hr
    obtain ⟨effectful, hr⟩ := returns_hasEffectSince_bind hr
    refine confines_read_bind (Q := fun _ _ => True) ?_ he a s' hr
    split
    · exact confines_bind confines_warnAt fun s₂ _ k₂ _ => check s₂
    · exact check s₁
  · exact confines_pure trivial

theorem confines_remember {expr : Node} :
    Confines env s (remember scope expr) fun _ _ => True :=
  confines_set (outcome_modify _) rfl rfl rfl

include hp in
theorem confines_lowerStatement (hs : IsInside s scope) :
    Confines env s (lowerStatement parts node scope) fun s' inner => NestedIn s' scope inner := by
  have after : ∀ {x : LowerM PUnit}, Confines env s x (fun _ _ => True) →
      Confines env s (do x; return scope) fun s' inner => NestedIn s' scope inner := fun hx =>
    confines_bind hx fun _ _ k _ => confines_pure (.self (hs.mono k))
  rw [lowerStatement]
  split
  · exact after (holds_lowerLocalVar (L := enclosure env) hp.holds rfl (fun _ _ => trivial) hs)
  · refine confines_bind (confines_inner hs rfl) fun s₁ inner k₁ ⟨hi, _⟩ => ?_
    exact confines_bind confines_remember fun s₂ _ k₂ _ =>
      confines_pure (hi.mono (hs.mono k₁).index k₂)
  · exact after (holds_lowerAssign (L := enclosure env) hp.holds trivial trivial hs)
  · exact after (holds_lowerAssignOp (L := enclosure env) hp.holds trivial trivial hs)
  · split
    · exact after (confines_lowerExprStatement hp hs)
    · exact confines_bind (hp.expr hs) fun _ _ k _ => confines_pure (.self (hs.mono k))

/-! ### Branches -/

theorem confines_branchInto {stop : BlockId} {incoming : List (BlockId × InstId)} {value : InstId}
    {force : Bool} (h : IsBlock s stop) :
    Confines env s (branchInto stop incoming value scope force) fun _ _ => True := by
  refine confines_isTerminated_bind fun terminated => ?_
  split
  · exact confines_pure trivial
  · refine confines_bind confines_currentBlock fun s₁ source k₁ _ => ?_
    exact confines_bind (confines_jump (by grind)) fun _ _ _ _ => confines_pure trivial

include hp in
theorem confines_lowerElse {branch : Option Node} (hs : IsInside s scope) :
    Confines env s (lowerElse parts node branch scope loc) fun _ _ => True := by
  cases branch with
  | some branch => exact hp.expr hs
  | none => exact confines_emitVoid

include hp in
theorem confines_lowerIf {condition thenBranch : Node} {payload : Option String}
    {elseBranch : Option Node} (hs : IsInside s scope) :
    Confines env s (lowerIf parts node condition payload thenBranch elseBranch scope loc)
      fun _ _ => True := by
  refine confines_then hs (confines_settle hs) fun s₁ loc k₁ hs _ => ?_
  refine confines_then hs (hp.value hs) fun s₂ cond k₂ hs _ => ?_
  refine confines_then hs confines_newBlock fun s₃ thenBlock k₃ hs hthen => ?_
  refine confines_then hs confines_newBlock fun s₄ elseBlock k₄ hs helse => ?_
  refine confines_then hs confines_newBlock fun s₅ stop k₅ hs hstop => ?_
  refine confines_then hs (confines_emitTest hs) fun s₆ test k₆ hs _ => ?_
  refine confines_then hs (confines_condBr (by grind) (by grind)) fun s₇ _ k₇ hs _ => ?_
  refine confines_then hs confines_goto fun s₈ _ k₈ hs _ => ?_
  refine confines_then hs (confines_enterBranch hs) fun s₉ thenScope k₉ hs hs₉ => ?_
  refine confines_then hs (hp.expr hs₉) fun s₁₀ value k₁₀ hs _ => ?_
  refine confines_then hs (confines_branchInto (by grind)) fun s₁₁ incoming k₁₁ hs _ => ?_
  refine confines_then hs confines_goto fun s₁₂ _ k₁₂ hs _ => ?_
  refine confines_then hs (confines_lowerElse hp hs) fun s₁₃ value k₁₃ hs _ => ?_
  exact confines_bind (confines_branchInto (by grind)) fun _ _ _ _ => confines_joinAt

include hp in
theorem confines_lowerCatch {lhs rhs : Node} {payload : Option String} (hs : IsInside s scope) :
    Confines env s (lowerCatch parts node lhs payload rhs scope loc) fun _ _ => True := by
  refine confines_then hs (confines_settle hs) fun s₁ loc k₁ hs _ => ?_
  refine confines_then hs (hp.value hs) fun s₂ value k₂ hs _ => ?_
  refine confines_then hs (confines_emitPlain rfl) fun s₃ isErr k₃ hs _ => ?_
  refine confines_then hs confines_newBlock fun s₄ errBlock k₄ hs herr => ?_
  refine confines_then hs confines_newBlock fun s₅ okBlock k₅ hs hok => ?_
  refine confines_then hs confines_newBlock fun s₆ stop k₆ hs hstop => ?_
  refine confines_then hs (confines_condBr (by grind) (by grind)) fun s₇ _ k₇ hs _ => ?_
  refine confines_then hs confines_goto fun s₈ _ k₈ hs _ => ?_
  refine confines_then hs (confines_inner hs rfl) fun s₉ handler k₉ hs ⟨hh, _⟩ => ?_
  -- What is left once the scope of the handler is known.
  have rest : ∀ s₁₀ handler, Widens s₉ s₁₀ → IsInside s₁₀ handler → Confines env s₁₀ (do
      let handled ← parts.expr rhs handler loc
      let incoming ← branchInto stop [] handled scope false
      goto okBlock
      let payload ← emitGen (.unwrapErrPayload value false) scope node.location
      let payload ← deliver payload loc scope node.location
      let incoming ← branchInto stop incoming payload scope false
      joinAt stop incoming scope node) fun _ _ => True := by
    intro s₁₀ handler k₁₀ hh
    have hs := hs.mono k₁₀
    refine confines_then hs (hp.expr hh) fun s₁₁ handled k₁₁ hs _ => ?_
    refine confines_then hs (confines_branchInto (by grind)) fun s₁₂ incoming k₁₂ hs _ => ?_
    refine confines_then hs confines_goto fun s₁₃ _ k₁₃ hs _ => ?_
    refine confines_then hs (confines_emitPlain rfl) fun s₁₄ payload k₁₄ hs _ => ?_
    refine confines_then hs (confines_deliver hs) fun s₁₅ payload k₁₅ hs _ => ?_
    exact confines_bind (confines_branchInto (by grind)) fun _ _ _ _ => confines_joinAt
  cases payload with
  | some name =>
    refine confines_bind (confines_emitPlain rfl) fun s₁₀ code k₁₀ _ => ?_
    refine confines_bind (confines_bindPayload (hh.isInside.mono k₁₀)) fun s₁₁ handler k₁₁ hh => ?_
    exact rest s₁₁ handler (k₁₀.trans k₁₁) hh
  | none => exact rest s₉ handler (.refl s₉) hh.isInside

include hp in
theorem confines_lowerOrElse {lhs rhs : Node} (hs : IsInside s scope) :
    Confines env s (lowerOrElse parts node lhs rhs scope loc) fun _ _ => True := by
  refine confines_then hs (confines_settle hs) fun s₁ loc k₁ hs _ => ?_
  refine confines_then hs (hp.value hs) fun s₂ value k₂ hs _ => ?_
  refine confines_then hs (confines_emitPlain rfl) fun s₃ nonNull k₃ hs _ => ?_
  refine confines_then hs confines_newBlock fun s₄ okBlock k₄ hs hok => ?_
  refine confines_then hs confines_newBlock fun s₅ nullBlock k₅ hs hnull => ?_
  refine confines_then hs confines_newBlock fun s₆ stop k₆ hs hstop => ?_
  refine confines_then hs (confines_condBr (by grind) (by grind)) fun s₇ _ k₇ hs _ => ?_
  refine confines_then hs confines_goto fun s₈ _ k₈ hs _ => ?_
  refine confines_then hs (hp.expr hs) fun s₉ fallback k₉ hs _ => ?_
  refine confines_then hs (confines_branchInto (by grind)) fun s₁₀ incoming k₁₀ hs _ => ?_
  refine confines_then hs confines_goto fun s₁₁ _ k₁₁ hs _ => ?_
  refine confines_then hs (confines_emitPlain rfl) fun s₁₂ inner k₁₂ hs _ => ?_
  refine confines_then hs (confines_deliver hs) fun s₁₃ inner k₁₃ hs _ => ?_
  exact confines_bind (confines_branchInto (by grind)) fun _ _ _ _ => confines_joinAt

include hp in
theorem confines_lowerShortCircuit {op : BinaryOperator} {lhs rhs : Node} (hs : IsInside s scope) :
    Confines env s (lowerShortCircuit parts node op lhs rhs scope loc) fun _ _ => True := by
  refine confines_then hs (hp.value hs) fun s₁ left k₁ hs _ => ?_
  refine confines_then hs confines_newBlock fun s₂ rhsBlock k₂ hs hrhs => ?_
  refine confines_then hs confines_newBlock fun s₃ stop k₃ hs hstop => ?_
  refine confines_then hs confines_currentBlock fun s₄ source k₄ hs _ => ?_
  -- What is left once the branch is there.
  have rest : ∀ s₅, Widens s₄ s₅ → Confines env s₅ (do
      goto rhsBlock
      let right ← parts.value rhs scope
      let incoming ← branchInto stop [(source, left)] right scope false
      let value ← joinAt stop incoming scope node
      deliver value loc scope node.location) fun _ _ => True := by
    intro s₅ k₅
    have hs := hs.mono k₅
    refine confines_then hs confines_goto fun s₆ _ k₆ hs _ => ?_
    refine confines_then hs (hp.value hs) fun s₇ right k₇ hs _ => ?_
    refine confines_then hs (confines_branchInto (by grind)) fun s₈ incoming k₈ hs _ => ?_
    exact confines_then hs confines_joinAt fun s₉ value k₉ hs _ => confines_deliver hs
  split
  · exact confines_bind (confines_condBr (by grind) (by grind)) fun s₅ _ k₅ _ => rest s₅ k₅
  · exact confines_bind (confines_condBr (by grind) (by grind)) fun s₅ _ k₅ _ => rest s₅ k₅

/-! ### Loops -/

theorem confines_newLoop {word : String} :
    Confines env s (newLoop word) fun s' blocks =>
      IsBlock s' blocks.test ∧ IsBlock s' blocks.body ∧ IsBlock s' blocks.step ∧
        IsBlock s' blocks.orElse ∧ IsBlock s' blocks.stop := by
  refine confines_bind confines_newBlock fun s₁ test k₁ h₁ => ?_
  refine confines_bind confines_newBlock fun s₂ body k₂ h₂ => ?_
  refine confines_bind confines_newBlock fun s₃ step k₃ h₃ => ?_
  refine confines_bind confines_newBlock fun s₄ orElse k₄ h₄ => ?_
  refine confines_bind confines_newBlock fun s₅ stop k₅ h₅ => ?_
  exact confines_pure (by grind)

/-- The ways out of a loop are blocks that the loop has made. -/
theorem confines_enterLoop {label : Option String} {blocks : LoopBlocks} (hs : IsInside s scope)
    (hstop : IsBlock s blocks.stop) (hstep : IsBlock s blocks.step) :
    Confines env s (enterLoop scope label blocks loc) IsInside := by
  refine confines_bind (confines_openScope hs (by simp [exits, hstop, hstep]))
    fun s₁ loopScope k₁ ⟨h₁, _⟩ => ?_
  exact confines_bind confines_openSink fun s₂ _ k₂ _ => confines_pure (h₁.isInside.mono k₂)

theorem confines_jumpUnlessTerminated {target : BlockId} {force : Bool} (h : IsBlock s target) :
    Confines env s (jumpUnlessTerminated target node scope force) fun _ _ => True := by
  refine confines_isTerminated_bind fun terminated => ?_
  split
  · exact confines_bind (confines_jump h) fun _ _ _ _ => confines_pure trivial
  · exact confines_pure trivial

include hp in
theorem confines_finishLoop {loopScope : ScopeId} {elseBranch : Option Node} {blocks : LoopBlocks}
    {force : Bool} (hstop : IsBlock s blocks.stop) (hs : IsInside s scope) :
    Confines env s (finishLoop parts node loopScope elseBranch blocks scope loc force)
      fun _ _ => True := by
  refine confines_then hs confines_goto fun s₁ _ k₁ hs _ => ?_
  refine confines_then hs (confines_lowerElse hp hs) fun s₂ value k₂ hs _ => ?_
  refine confines_then hs confines_closeSink fun s₃ incoming k₃ hs _ => ?_
  exact confines_bind (confines_branchInto (by grind)) fun _ _ _ _ => confines_joinAt

include hp in
theorem confines_lowerWhile {label : Option String} {condition body : Node}
    {payload : Option String} {continueExpr elseBranch : Option Node} {isInline : Bool}
    (hs : IsInside s scope) :
    Confines env s (lowerWhile parts node label condition payload continueExpr body elseBranch
      isInline scope loc) fun _ _ => True := by
  refine confines_then hs (confines_settle hs) fun s₁ loc k₁ hs _ => ?_
  refine confines_then hs confines_newLoop fun s₂ blocks k₂ hs hb => ?_
  refine confines_then hs (confines_jump (by grind)) fun s₃ _ k₃ hs _ => ?_
  refine confines_then hs confines_goto fun s₄ _ k₄ hs _ => ?_
  refine confines_then hs (hp.value hs) fun s₅ cond k₅ hs _ => ?_
  refine confines_then hs (confines_emitTest hs) fun s₆ test k₆ hs _ => ?_
  refine confines_then hs (confines_condBr (by grind) (by grind)) fun s₇ _ k₇ hs _ => ?_
  refine confines_then hs confines_goto fun s₈ _ k₈ hs _ => ?_
  refine confines_then hs (confines_enterLoop hs (by grind) (by grind))
    fun s₉ loopScope k₉ hs hs₉ => ?_
  refine confines_then hs (confines_enterBranch hs₉) fun s₁₀ bodyScope k₁₀ hs hs₁₀ => ?_
  refine confines_then hs (hp.expr hs₁₀) fun s₁₁ _ k₁₁ hs _ => ?_
  refine confines_then hs (confines_jumpUnlessTerminated (by grind)) fun s₁₂ _ k₁₂ hs _ => ?_
  refine confines_then hs confines_goto fun s₁₃ _ k₁₃ hs _ => ?_
  have rest : ∀ s', Widens s₁₃ s' → Confines env s' (do
      jumpUnlessTerminated blocks.test node scope isInline
      finishLoop parts node loopScope elseBranch blocks scope loc isInline) fun _ _ => True := by
    intro s' k'
    have hs := hs.mono k'
    refine confines_then hs (confines_jumpUnlessTerminated (by grind)) fun s₁₄ _ k₁₄ hs _ => ?_
    exact confines_finishLoop hp (by grind) hs
  cases continueExpr with
  | some expr => exact confines_bind (hp.expr (by grind)) fun s' _ k' _ => rest s' k'
  | none => exact rest s₁₃ (.refl s₁₃)

include hp in
theorem confines_lowerFor {label : Option String} {iterable body : Node} {item : String}
    {index : Option String} {elseBranch : Option Node} {isInline : Bool} (hs : IsInside s scope) :
    Confines env s (lowerFor parts node label iterable item index body elseBranch isInline scope
      loc) fun _ _ => True := by
  refine confines_then hs (confines_settle hs) fun s₁ loc k₁ hs _ => ?_
  refine confines_then hs (hp.value hs) fun s₂ array k₂ hs _ => ?_
  refine confines_then hs (confines_emitPlain rfl) fun s₃ lengthPtr k₃ hs _ => ?_
  refine confines_then hs (confines_emitPlain rfl) fun s₄ length k₄ hs _ => ?_
  refine confines_then hs (confines_emitPlain rfl) fun s₅ indexPtr k₅ hs _ => ?_
  refine confines_then hs (confines_emitPlain rfl) fun s₆ zero k₆ hs _ => ?_
  refine confines_then hs (confines_emitPlain rfl) fun s₇ _ k₇ hs _ => ?_
  refine confines_then hs confines_newLoop fun s₈ blocks k₈ hs hb => ?_
  refine confines_then hs (confines_jump (by grind)) fun s₉ _ k₉ hs _ => ?_
  refine confines_then hs confines_goto fun s₁₀ _ k₁₀ hs _ => ?_
  refine confines_then hs (confines_emitPlain rfl) fun s₁₁ position k₁₁ hs _ => ?_
  refine confines_then hs (confines_emitPlain rfl) fun s₁₂ inBounds k₁₂ hs _ => ?_
  refine confines_then hs (confines_condBr (by grind) (by grind)) fun s₁₃ _ k₁₃ hs _ => ?_
  refine confines_then hs confines_goto fun s₁₄ _ k₁₄ hs _ => ?_
  refine confines_then hs (confines_enterLoop hs (by grind) (by grind))
    fun s₁₅ loopScope k₁₅ hs hs₁₅ => ?_
  refine confines_then hs (confines_emitPlain rfl) fun s₁₆ elementPtr k₁₆ hs _ => ?_
  refine confines_then hs (confines_emitPlain rfl) fun s₁₇ element k₁₇ hs _ => ?_
  refine confines_then hs (confines_bindPayload (by grind)) fun s₁₈ bodyScope k₁₈ hs hs₁₈ => ?_
  refine confines_then hs confines_declare fun s₁₉ indexVar k₁₉ hs _ => ?_
  refine confines_then hs (confines_emitPlain rfl) fun s₂₀ _ k₂₀ hs _ => ?_
  refine confines_then hs (hp.expr (by grind)) fun s₂₁ _ k₂₁ hs _ => ?_
  refine confines_then hs (confines_jumpUnlessTerminated (by grind)) fun s₂₂ _ k₂₂ hs _ => ?_
  refine confines_then hs confines_goto fun s₂₃ _ k₂₃ hs _ => ?_
  refine confines_then hs (confines_stepIndex hs) fun s₂₄ _ k₂₄ hs _ => ?_
  refine confines_then hs (confines_jump (by grind)) fun s₂₅ _ k₂₅ hs _ => ?_
  exact confines_finishLoop hp (by grind) hs

/-! ### Jumps -/

/-- A jump leads to a block of the stream, or to the blocks of the root. -/
theorem Leads.lands {jump : JumpKind} {label : Option String} {target : ScopeId} {z : Scope}
    {b : BlockId} (h : Leads s jump label scope target z) (he : Enclosed s)
    (hs : IsInside s scope) (hb : b ∈ exits z.kind) : IsBlock s b ∨ b ∈ s.outer := by
  by_cases hroot : target = s.streamRoot
  · exact .inr (by rwa [State.outer, ← hroot, State.exitsOf_eq h.scope?])
  · exact .inl (hs.exits _ (he.scopes.mem_inside hroot (ScopeTree.mem_of_found h.found) h.stays
      h.scope?) b hb)

/-- A way out that is taken unless the deferred expressions end the block. -/
theorem confines_unlessTerminated {x : LowerM InstId} (hx : Confines env s x fun _ _ => True) :
    Confines env s (do if ← isTerminated then lastInst else x) fun _ _ => True := by
  refine confines_isTerminated_bind fun terminated => ?_
  split
  · exact confines_lastInst
  · exact hx

/-- A jump to where branches may lead, after other routines. -/
theorem confines_jumpOut {b : BlockId} (he : Enclosed s) (hb : IsBlock s b ∨ b ∈ s.outer)
    (k : Widens s s') : Confines env s' (emit (.br b) scope location) fun _ _ => True := by
  refine confines_emitWith fun t ht => ?_
  obtain rfl := List.mem_singleton.1 ht
  rw [k.outer he.root]
  exact hb.imp (Nat.lt_of_lt_of_le · k.blocks) (⟨rfl, ·⟩)

include hp in
theorem confines_lowerBreak {label : Option String} {value : Option Node} (hs : IsInside s scope) :
    Confines env s (lowerBreak parts node label value scope) fun _ _ => True := by
  intro he v s' hr
  obtain ⟨target, z, stop, hleads, hstop, hr⟩ := returns_lowerBreak hr
  have hland := hleads.lands he hs (mem_exits_of_breakBlock? hstop)
  -- What is left once the value is there.
  have rest : ∀ s₁ v, Widens s s₁ → Confines env s₁ (do
      runDefers parts scope (some target) .normal
      if ← isTerminated then lastInst
      else
        flowInto target v
        emit (.br stop) scope node.location) fun _ _ => True := by
    intro s₁ v k₁
    refine confines_bind (confines_runDefers hp (hs.mono k₁)
      ((k₁.leaves_eq hs.index).trans hleads.stays)) fun s₂ _ k₂ _ => confines_unlessTerminated ?_
    exact confines_bind confines_flowInto fun s₃ _ k₃ _ =>
      confines_jumpOut he hland (k₁.trans (k₂.trans k₃))
  cases value with
  | some value =>
    exact confines_bind (hp.expr hs) (fun s₁ v k₁ _ => rest s₁ v k₁) he v s' hr
  | none => exact confines_bind confines_emitVoid (fun s₁ v k₁ _ => rest s₁ v k₁) he v s' hr

include hp in
theorem confines_lowerContinue {label : Option String} (hs : IsInside s scope) :
    Confines env s (lowerContinue parts node label scope) fun _ _ => True := by
  intro he v s' hr
  obtain ⟨target, z, step, hleads, hstep, hr⟩ := returns_lowerContinue hr
  have hland := hleads.lands he hs (mem_exits_of_continueBlock? hstep)
  refine confines_bind (Q := fun _ _ => True) (confines_runDefers hp hs hleads.stays)
    (fun s₁ _ k₁ _ => ?_) he v s' hr
  exact confines_unlessTerminated (confines_jumpOut he hland k₁)

/-- Where the function may be left, the way out does not leave the stream. -/
theorem confines_checkFnExit_bind {exit : FnExit} {f : PUnit → LowerM α} {Q : State → α → Prop}
    (h : s.scopes.leaves s.streamRoot scope none = false → Confines env s (f ⟨⟩) Q) :
    Confines env s (checkFnExit node scope exit >>= f) Q := by
  intro he a s' hr
  obtain ⟨_, t, h₁, hr⟩ := returns_bind.1 hr
  obtain ⟨rfl, -, hleaves, -⟩ := returns_checkFnExit h₁
  exact h hleaves he a s' hr

/-- A return, unless the deferred expressions end the block. -/
theorem confines_retUnlessTerminated {operand : Option InstId} {gen : Bool} {x : LowerM α}
    {Q : State → α → Prop} (hx : ∀ s', Widens s s' → Confines env s' x Q) :
    Confines env s (do
      if !(← isTerminated) then
        let _ ← emitWith (.ret operand) scope location false gen
      x) Q := by
  refine confines_isTerminated_bind fun terminated => ?_
  split
  · exact confines_bind (confines_emitPlain rfl) fun s₁ _ k₁ _ => hx s₁ k₁
  · exact hx s (.refl s)

include hp in
theorem confines_emitErrReturn {value : InstId} (hs : IsInside s scope)
    (hleaves : s.scopes.leaves s.streamRoot scope none = false) :
    Confines env s (emitErrReturn parts node value scope) fun _ _ => True := by
  refine confines_bind (confines_emitPlain rfl) fun s₁ isErr k₁ _ => ?_
  refine confines_bind confines_newBlock fun s₂ errBlock k₂ herr => ?_
  refine confines_bind confines_newBlock fun s₃ okBlock k₃ hok => ?_
  refine confines_bind (confines_condBr (by grind) (by grind)) fun s₄ _ k₄ _ => ?_
  refine confines_bind confines_goto fun s₅ _ k₅ _ => ?_
  have k : Widens s s₅ := k₁.trans (k₂.trans (k₃.trans (k₄.trans k₅)))
  refine confines_bind (confines_runDefers hp (hs.mono k) ((k.leaves_eq hs.index).trans hleaves))
    fun s₆ _ k₆ _ => ?_
  exact confines_retUnlessTerminated fun s₇ k₇ => confines_goto

include hp in
/-- The way out of the function for an operand that is no error. -/
theorem confines_leaveWith {operand : Option InstId} (hs : IsInside s scope)
    (hleaves : s.scopes.leaves s.streamRoot scope none = false) :
    Confines env s (do
      runDefers parts scope none .normal
      if ← isTerminated then lastInst else emit (.ret operand) scope location) fun _ _ => True :=
  confines_bind (confines_runDefers hp hs hleaves) fun _ _ _ _ =>
    confines_unlessTerminated (confines_emitPlain rfl)

include hp in
theorem confines_lowerReturn {value : Option Node} (hs : IsInside s scope) :
    Confines env s (lowerReturn parts node value scope) fun _ _ => True := by
  refine confines_checkFnExit_bind fun hleaves => ?_
  -- The ways out for an operand: the errors are taken care of first.
  have rest : ∀ s₁ operand, Widens s s₁ → Confines env s₁ (do
      match if passesErrDefer (← scopesFrom scope) scope then operand else none with
      | some value => emitErrReturn parts node value scope
      | none => pure ⟨⟩
      runDefers parts scope none .normal
      if ← isTerminated then lastInst else emit (.ret operand) scope node.location)
      fun _ _ => True := by
    intro s₁ operand k₁
    have hs₁ := hs.mono k₁
    have hleaves := (k₁.leaves_eq hs.index).trans hleaves
    refine confines_scopesFrom_bind ?_
    split
    · refine confines_bind (confines_emitErrReturn hp hs₁ hleaves) fun s₂ _ k₂ _ => ?_
      exact confines_leaveWith hp (hs₁.mono k₂) ((k₂.leaves_eq hs₁.index).trans hleaves)
    · exact confines_leaveWith hp hs₁ hleaves
  cases value with
  | some value =>
    have hvalue : Confines env s (some <$> parts.expr value scope .ret) fun _ _ => True := by
      rw [map_eq_pure_bind]
      exact confines_bind (hp.expr hs) fun _ _ _ _ => confines_pure trivial
    exact confines_bind hvalue fun s₁ operand k₁ _ => rest s₁ operand k₁
  | none => exact rest s none (.refl s)

include hp in
theorem confines_lowerTry {expr : Node} (hs : IsInside s scope) :
    Confines env s (lowerTry parts node expr scope loc) fun _ _ => True := by
  refine confines_checkFnExit_bind fun hleaves => ?_
  refine confines_bind (hp.value hs) fun s₁ value k₁ _ => ?_
  refine confines_bind (confines_emitPlain rfl) fun s₂ isErr k₂ _ => ?_
  refine confines_bind confines_newBlock fun s₃ errBlock k₃ herr => ?_
  refine confines_bind confines_newBlock fun s₄ okBlock k₄ hok => ?_
  refine confines_bind (confines_condBr (by grind) (by grind)) fun s₅ _ k₅ _ => ?_
  refine confines_bind confines_goto fun s₆ _ k₆ _ => ?_
  refine confines_bind (confines_emitPlain rfl) fun s₇ code k₇ _ => ?_
  have k : Widens s s₇ :=
    k₁.trans (k₂.trans (k₃.trans (k₄.trans (k₅.trans (k₆.trans k₇)))))
  refine confines_bind (confines_runDefers hp (hs.mono k) ((k.leaves_eq hs.index).trans hleaves))
    fun s₈ _ k₈ _ => ?_
  refine confines_retUnlessTerminated fun s₉ k₉ => ?_
  refine confines_bind confines_goto fun s₁₀ _ k₁₀ _ => ?_
  refine confines_bind (confines_emitPlain rfl) fun s₁₁ payload k₁₁ _ => ?_
  exact confines_deliver (by grind)

/-! ### Streams inside streams -/

/-- A routine over a fresh stream that is started in a scope without jumps of its own. -/
theorem confines_inChildStream_bind {name : String} {root : ScopeId} {x : LowerM β}
    {f : Nat × Option β → LowerM α} {Q : State → α → Prop} (hroot : IsInside s root)
    (hexits : s.exitsOf root = [])
    (hx : ∀ t, IsInside t root → Confines env t x fun _ _ => True)
    (hnone : ∀ index t a s', ¬ Returns (f (index, none)) env t a s')
    (hsome : ∀ index b s', Widens s s' → Confines env s' (f (index, some b)) Q) :
    Confines env s (inChildStream name root x >>= f) Q := by
  intro he a s'' hr
  obtain ⟨b, t, hb, hr⟩ := returns_inChildStream_bind hr fun t index => hnone index t a s''
  have hstart : Enclosed (s.inChild name root) :=
    ⟨he.scopes, hroot.index, Stream.encloses_new name true, fun _ h => absurd h List.not_mem_nil⟩
  obtain ⟨ht, k, -⟩ := hx _ hstart.isInside_root hstart b t hb
  have hchild : ∀ t' : Stream, t'.PartOf t.stream → t'.Encloses [] := by
    intro t' hpart
    cases hpart with
    | self =>
      have houter : t.outer = [] := (k.outer hstart.root).trans hexits
      exact houter ▸ ht.stream
    | child hc hpart => exact ht.children _ hc t' hpart
  have k' : Widens s (s.around t) :=
    ⟨by simp [State.around, Stream.addChild_eq], k.scopes, rfl⟩
  have hs' : Enclosed (s.around t) := by
    refine ⟨ht.scopes, Nat.lt_of_lt_of_le he.root k.scopes.size_le, ?_, fun c hc t' hpart => ?_⟩
    · rw [k'.outer he.root]
      exact he.stream.of_le (by simp [State.around, Stream.addChild_eq]) k'.blocks
    · rw [State.around, Stream.addChild_eq] at hc
      rcases List.mem_append.1 hc with hc | hc
      · exact he.children c hc t' hpart
      · exact hchild t' (List.mem_singleton.1 hc ▸ hpart)
  obtain ⟨hs'', k'', hQ⟩ := hsome _ b _ k' hs' a s'' hr
  exact ⟨hs'', k'.trans k'', hQ⟩

/-- The body of a compile-time block ends with its value. -/
theorem confines_lowerComptimeBody {parts : Parts} (hp : ConfinedParts env parts) {expr : Node}
    (hs : IsInside s scope) :
    Confines env s (lowerComptimeBody parts node expr scope) fun _ _ => True := by
  refine confines_bind (hp.value hs) fun s₁ value k₁ _ => ?_
  refine confines_isTerminated_bind fun terminated => ?_
  split
  · exact confines_bind (confines_emitPlain rfl) fun _ _ _ _ => confines_pure trivial
  · exact confines_pure trivial

include hp in
theorem confines_lowerComptime {expr : Node} (hs : IsInside s scope) :
    Confines env s (lowerComptime parts node expr scope loc) fun _ _ => True := by
  refine confines_bind (confines_inner hs rfl) fun s₁ inner k₁ ⟨hi, hexits⟩ => ?_
  refine confines_bind (R := fun s' _ => s' = s₁)
    (confines_scopesFrom_bind (confines_get_bind (confines_pure rfl))) ?_
  rintro _ atComptime - rfl
  split
  · exact hp.expr hi.isInside
  refine confines_get_bind (confines_inChildStream_bind hi.isInside hexits (fun t ht => ?_)
    (fun _ _ _ _ => not_returns_throw) fun index u s₂ k₂ => ?_)
  · exact confines_withFrame (fun t' k' => confines_lowerComptimeBody hp (ht.mono k'))
      fun _ _ _ _ _ => trivial
  · exact confines_bind (confines_emitPlain rfl) fun s₃ _ k₃ _ => confines_deliver (by grind)

/-! ### Every level of nesting -/

include hp in
theorem confines_lowerExpr (hs : IsInside s scope) :
    Confines env s (lowerExpr parts node scope loc) fun _ _ => True := by
  cases hk : node.kind.branches with
  | false =>
    exact holds_lowerExpr (L := enclosure env) hp.holds hk (fun _ => rfl) (fun _ _ => trivial) hs
      enclosure_loc
  | true =>
    rw [lowerExpr]
    cases h : node.kind <;> rw [h] at hk
    case root | fnDecl | param | varDecl | testDecl | containerDecl | containerField |
        errorSetDecl | deferred | suspend | asm | assign | assignOp | unaryOp | call |
        builtinCall | fieldAccess | arrayAccess | structInit | arrayInit | symbol | intLiteral |
        floatLiteral | stringLiteral | boolLiteral | nullLiteral | undefinedLiteral |
        errorValue => cases hk
    case block => exact confines_lowerBlock hp hs
    case comptime => exact confines_lowerComptime hp hs
    case ifThen => exact confines_lowerIf hp hs
    case whileLoop => exact confines_lowerWhile hp hs
    case forLoop => exact confines_lowerFor hp hs
    case breakTo => exact confines_lowerBreak hp hs
    case continueTo => exact confines_lowerContinue hp hs
    case returnFrom => exact confines_lowerReturn hp hs
    case unreachable => exact confines_emitPlain rfl
    case tryExpr => exact confines_lowerTry hp hs
    case catchExpr => exact confines_lowerCatch hp hs
    case binaryOp op lhs rhs =>
      cases op
      case boolAnd | boolOr => exact confines_lowerShortCircuit hp hs
      case orElse => exact confines_lowerOrElse hp hs
      all_goals cases hk

/-- The routines for parts keep every branch inside, however many levels of nesting are left. -/
theorem confinedParts_nested (levels : Nat) : ConfinedParts env (nested levels) := by
  induction levels with
  | zero =>
    have deep : ∀ {α : Type} {s : State} {node : Node} {Q : State → α → Prop},
        Confines env s (failDepth node) Q := confines_read_bind
      (confines_of_fails fun _ _ => not_returns_fail)
    exact ⟨fun _ => deep, fun _ => deep⟩
  | succ levels ih => exact ⟨confines_lowerExpr ih, confines_lowerStatement ih⟩

end SourceIr.Lower
