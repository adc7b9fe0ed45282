import SourceIr.Proofs.Joins.Basic
import SourceIr.Proofs.Jump
import SourceIr.Proofs.Logic.Routines

/-!
# Joins of branches and jumps

The routines that branch, jump or change the stream start every join that they make with what has
arrived there, if the routines for their parts do.

* `JoinParts`, what is relied on for parts;
* deferred expressions, statements and blocks;
* branches, loops and jumps;
* `joins_inChildStream_bind`, the streams of compile-time blocks;
* `joinParts_nested`, the routines for parts at every level of nesting.
-/

namespace SourceIr.Lower

open SourceIr.Stream Logic Join

/-- What is relied on for the parts of a construct. -/
structure JoinParts (env : Env) (parts : Parts) : Prop where
  expr : ∀ {s node scope loc}, In s scope →
    Joins env s (parts.expr node scope loc) fun s' _ => Le s s'
  statement : ∀ {s node scope}, In s scope →
    Joins env s (parts.statement node scope) fun s' inner =>
      Le s s' ∧ In s' inner ∧ Under s' scope inner

variable {env : Env} {s s₀ : State} {parts : Parts} {node : Node} {scope : ScopeId}
  {location : Option Location} {loc : ResultLoc} {α β : Type} {v : InstId}
  {Q : State → α → Prop}

/-! ### What the logic gives

The rules that all logics share, for this one. -/

theorem JoinParts.holds (hp : JoinParts env parts) : (joining env).HoldsParts parts :=
  fun _ _ _ _ _ hs _ => joins_mono (hp.expr hs) fun _ _ le => ⟨le, trivial⟩

theorem joins_of_keeps {x : LowerM α} (h : (joining env).Keeps s x) :
    Joins env s x fun s' _ => Le s s' :=
  joins_mono h fun _ _ h => h.1

theorem joins_settle (hs : In s scope) :
    Joins env s (settle loc scope location) fun s' _ => Le s s' :=
  joins_mono (holds_settle (L := joining env) hs fun _ _ => trivial) fun _ _ h => h.1

theorem joins_deliver (hs : In s scope) :
    Joins env s (deliver v loc scope location) fun s' _ => Le s s' :=
  joins_mono (holds_deliver (L := joining env) hs trivial fun _ _ => trivial) fun _ _ h => h.1

theorem joins_emitTest {payload : Option String} (hs : In s scope) :
    Joins env s (emitTest node payload v scope) fun s' _ => Le s s' :=
  joins_mono (holds_emitTest (L := joining env) hs trivial) fun _ _ h => h.1

theorem joins_enterBranch {payload : Option String} (hs : In s scope) :
    Joins env s (enterBranch node payload v scope) fun s' inner => Le s s' ∧ In s' inner :=
  holds_enterBranch (L := joining env) trivial hs

theorem joins_bindPayload {name : String} (hs : In s scope) :
    Joins env s (bindPayload scope name v node) fun s' inner => Le s s' ∧ In s' inner :=
  holds_bindPayload (L := joining env) trivial hs

/-! ### Deferred expressions -/

variable (hp : JoinParts env parts)

/-- The scope of a deferred expression that may be run from a scope. -/
def Join.Reach (s : State) (scope : ScopeId) (d : ScopeId × DeferKind) : Prop :=
  ∃ x ∈ s.scopes.inside s.streamRoot scope, x.1 = d.1

theorem Join.Reach.le {s' : State} {d : ScopeId × DeferKind} (h : Reach s scope d)
    (hs : In s scope) (le : Le s s') : Reach s' scope d := by
  rwa [Reach, le.root, le.scopes.inside_eq hs.index]

include hp in
theorem joins_runDefer {expr : Node} {d : ScopeId × DeferKind} (hs : In s scope)
    (hd : Reach s scope d) : Joins env s (runDefer parts d.1 expr) fun s' _ => Le s s' := by
  refine joins_of_joined fun hj => ?_
  obtain ⟨y, hy, hyd⟩ := hd
  obtain ⟨x, hx, hxy⟩ := ScopeTree.reaches_of_mem_inside hy
  have hmem : x ∈ s.scopes.chain scope := by
    obtain ⟨pre, rest, hl, -⟩ := hx
    simp [hl]
  obtain ⟨hlt, hsub⟩ := hx.parent hj.scopes
  have hin : In s (x.parent.getD x.id) :=
    ⟨hlt, fun y hy => hs.sink y (hsub y hy), fun y hy => hs.step y (hsub y hy)⟩
  have hid : x.id = d.1 := hxy.trans hyd
  refine joins_scopeAt_bind fun z hz => ?_
  obtain rfl := Option.some.inj ((hid ▸ hj.scopes.scope?_of_mem hmem).symm.trans hz)
  rw [← hid]
  refine joins_bind (joins_openScope hin rfl) fun s₁ body ⟨le₁, hb, _⟩ => ?_
  exact joins_bind (hp.expr hb) fun s₂ _ le₂ => joins_pure (le₁.le le₂)

include hp in
theorem joins_runDefersIn {path : ExitPath} {defers : List (ScopeId × DeferKind)}
    (hs : In s scope) (hd : ∀ d ∈ defers, Reach s scope d) :
    Joins env s (runDefersIn parts path defers) fun s' _ => Le s s' := by
  induction defers generalizing s with
  | nil => exact joins_pure (.refl s)
  | cons d rest ih =>
    have hrest : ∀ d ∈ rest, Reach s scope d := fun d h => hd d (List.mem_cons_of_mem _ h)
    rw [runDefersIn]
    refine joins_get_bind ?_
    dsimp only
    split
    · exact ih hs hrest
    · refine joins_bind (joins_runDefer hp hs (hd d List.mem_cons_self)) fun s₁ _ le₁ => ?_
      refine joins_isTerminated_bind fun terminated => ?_
      split
      · exact joins_pure le₁
      · refine joins_mono (ih (hs.since le₁) fun d h => (hrest d h).le hs le₁) ?_
        exact fun s₂ _ le₂ => le₁.le le₂

include hp in
/-- The deferred expressions on a way that does not leave the stream. -/
theorem joins_runDefers {target : Option ScopeId} {path : ExitPath} (hs : In s scope)
    (h : s.scopes.leaves s.streamRoot scope target = false) :
    Joins env s (runDefers parts scope target path) fun s' _ => Le s s' := by
  refine joins_scopesFrom_bind (joins_runDefersIn hp hs fun d hd => ?_)
  obtain ⟨y, hy, hyd⟩ := ScopeTree.reaches_of_mem_defersIn h hd
  exact ⟨_, hy.mem_inside, hyd⟩

/-- Whether a way leaves the stream does not change. -/
theorem Join.In.leaves_eq (hs : In s scope) {target : Option ScopeId} {s' : State}
    {unstarted : List BlockId} (e : Since s unstarted s') :
    s'.scopes.leaves s'.streamRoot scope target = s.scopes.leaves s.streamRoot scope target := by
  rw [e.root, e.scopes.leaves_eq hs.index]

/-! ### Statements and blocks -/

include hp in
theorem joins_lowerStatements {statements : List Node} (hs : In s scope) :
    Joins env s (lowerStatements parts scope false statements) fun s' last =>
      Le s s' ∧ In s' last ∧ Under s' scope last := by
  induction statements generalizing s scope with
  | nil => exact joins_pure ⟨.refl s, hs, .refl _ _ _⟩
  | cons statement rest ih =>
    rw [lowerStatements]
    refine joins_isTerminated_bind fun terminated => ?_
    split
    · exact joins_bind joins_warnAt fun s₁ _ le₁ => joins_pure ⟨le₁, hs.since le₁, .refl _ _ _⟩
    refine joins_attempt_bind (hp.statement hs) ?_ fun t last s' => ?_
    · rintro s₁ next ⟨le₁, hn, hu⟩
      refine joins_mono (ih hn) ?_
      rintro s₂ last ⟨le₂, hl, hu'⟩
      exact ⟨le₁.le le₂, hl, ScopeTree.Under.trans (hu.le (hs.since le₁) hn le₂) hu'⟩
    · refine not_returns_bind fun _ _ => ?_
      split
      · exact not_returns_throw
      · exact not_returns_lowerStatements

/-- The deferred expressions of a block, from the scope after its last statement. -/
theorem joins_leaveBlock (hp : JoinParts env parts) {block last : ScopeId} {x : LowerM α}
    (hb : In s block) (hl : In s last) (hu : Under s block last)
    (h : ∀ s', Le s s' → Joins env s' x Q) :
    Joins env s (do
      runDefers parts last (some block) .normal
      x) Q := by
  refine joins_of_joined fun hj => ?_
  have hstays := ScopeTree.Under.leaves_eq_false hj.scopes hu hb.index
  exact joins_bind (joins_runDefers hp hl hstays) fun s' _ le => h s' le

/-- The value of a block, once its scope is left. -/
theorem joins_blockValue (hs : In s scope) :
    Joins env s (do
      let terminated ← isTerminated
      let stream := (← get).stream
      match if terminated then stream.last? else none with
      | some stop => return stop
      | none =>
        let void ← emitVoid scope node.location
        deliver void loc scope node.location) fun s' _ => Le s s' := by
  refine joins_isTerminated_bind fun terminated => joins_get_bind ?_
  dsimp only
  split
  · exact joins_pure (.refl s)
  · refine joins_bind joins_emitVoid fun s₁ void le₁ => ?_
    exact joins_mono (joins_deliver (hs.since le₁)) fun s₂ _ le₂ => le₁.le le₂

include hp in
theorem joins_lowerPlainBlock {statements : List Node} (hs : In s scope) :
    Joins env s (lowerPlainBlock parts node statements scope loc) fun s' _ => Le s s' := by
  refine joins_bind (joins_openScope hs rfl) fun s₁ block ⟨le₁, hb, _⟩ => ?_
  refine joins_bind (joins_lowerStatements hp hb) fun s₂ last ⟨le₂, hlast, hu⟩ => ?_
  have le : Le s s₂ := le₁.le le₂
  refine joins_isTerminated_bind fun terminated => ?_
  split
  · refine joins_leaveBlock hp (hb.since le₂) hlast hu fun s₃ le₃ => ?_
    exact joins_mono (joins_blockValue (hs.since (le.le le₃))) fun s' _ le' => (le.le le₃).le le'
  · exact joins_mono (joins_blockValue (hs.since le)) fun s' _ le' => le.le le'

include hp in
theorem joins_lowerLabelledBlock {label : String} {statements : List Node} (hs : In s scope) :
    Joins env s (lowerLabelledBlock parts node label statements scope loc) fun s' _ => Le s s' := by
  refine joins_bind (joins_settle hs) fun s₁ loc le₁ => ?_
  refine joins_bind (joins_newJoin (isJoinName_append label (by decide))) fun s₂ stop o => ?_
  refine joins_openTarget_bind o ((hs.since le₁).since o.since) rfl nofun fun s₃ block sunk hb => ?_
  refine joins_bind (joins_lowerStatements hp hb) fun s₄ last ⟨le₄, hlast, hu⟩ => ?_
  have join : ∀ s', Le s₄ s' → Joins env s' (do
      joinAt stop (← closeSink block) scope node) fun s' _ => Le s s' := by
    intro s₅ le₅
    refine joins_bind (joins_closeSink ((sunk.le le₄).le le₅)) fun s₆ incoming o => ?_
    exact joins_mono (joins_joinAt o) fun s₇ _ le₇ => le₁.le le₇
  refine joins_isTerminated_bind fun terminated => ?_
  split
  · refine joins_leaveBlock hp (hb.since le₄) hlast hu fun s₅ le₅ => ?_
    refine joins_isTerminated_bind fun terminated => ?_
    split
    · refine joins_bind joins_emitVoid fun s₆ void le₆ => ?_
      have le := le₅.le le₆
      refine joins_flowInto_bind ((sunk.le le₄).le le).feeds fun s₇ _ le₇ => ?_
      exact join s₇ (le.le le₇)
    · exact join s₅ le₅
  · exact join s₄ (.refl s₄)

include hp in
theorem joins_lowerBlock {label : Option String} {statements : List Node} (hs : In s scope) :
    Joins env s (lowerBlock parts node label statements scope loc) fun s' _ => Le s s' := by
  cases label with
  | none => exact joins_lowerPlainBlock hp hs
  | some label => exact joins_lowerLabelledBlock hp hs

include hp in
theorem joins_lowerExprStatement (hs : In s scope) :
    Joins env s (lowerExprStatement parts node scope) fun s' _ => Le s s' := by
  refine joins_get_bind ?_
  refine joins_bind (hp.expr hs) fun s₁ value le₁ => ?_
  have check : ∀ s', Le s₁ s' → Joins env s' (do
      let _ ← emitGen (.checkStatementIsVoid value) scope node.location) fun s' _ => Le s s' := by
    intro s₂ le₂
    exact joins_bind (joins_emitPlain rfl) fun s₃ _ le₃ => joins_pure ((le₁.le le₂).le le₃)
  refine joins_isTerminated_bind fun terminated => ?_
  split
  · refine joins_hasEffectSince_bind fun effectful => joins_read_bind ?_
    split
    · exact joins_bind joins_warnAt fun s₂ _ le₂ => check s₂ le₂
    · exact check s₁ (.refl s₁)
  · exact joins_pure le₁

include hp in
theorem joins_lowerStatement (hs : In s scope) :
    Joins env s (lowerStatement parts node scope) fun s' inner =>
      Le s s' ∧ In s' inner ∧ Under s' scope inner := by
  have after : ∀ {x : LowerM PUnit}, Joins env s x (fun s' _ => Le s s') →
      Joins env s (do x; return scope) fun s' inner =>
        Le s s' ∧ In s' inner ∧ Under s' scope inner := fun hx =>
    joins_bind hx fun s' _ le => joins_pure ⟨le, hs.since le, .refl _ _ _⟩
  rw [lowerStatement]
  split
  · exact after (joins_of_keeps (holds_lowerLocalVar hp.holds rfl (fun _ _ => trivial) hs))
  · refine joins_bind (joins_openScope hs rfl) fun s₁ inner ⟨le₁, hi, hu, _⟩ => ?_
    refine joins_bind joins_remember fun s₂ _ le₂ => joins_pure ?_
    exact ⟨le₁.le le₂, hi.since le₂, hu.le (hs.since le₁) hi le₂⟩
  · exact after (joins_of_keeps (holds_lowerAssign hp.holds trivial trivial hs))
  · exact after (joins_of_keeps (holds_lowerAssignOp hp.holds trivial trivial hs))
  · split
    · exact after (joins_lowerExprStatement hp hs)
    · exact joins_bind (hp.expr hs) fun s' _ le => joins_pure ⟨le, hs.since le, .refl _ _ _⟩

/-! ### Branches -/

include hp in
theorem joins_lowerElse {branch : Option Node} (hs : In s scope) :
    Joins env s (lowerElse parts node branch scope loc) fun s' _ => Le s s' := by
  cases branch with
  | some branch => exact hp.expr hs
  | none => exact joins_emitVoid

include hp in
theorem joins_lowerIf {condition thenBranch : Node} {payload : Option String}
    {elseBranch : Option Node} (hs : In s scope) :
    Joins env s (lowerIf parts node condition payload thenBranch elseBranch scope loc)
      fun s' _ => Le s s' := by
  refine joins_bind (joins_settle hs) fun s₁ loc le₁ => ?_
  refine joins_bind (hp.expr (hs.since le₁)) fun s₂ cond le₂ => ?_
  refine joins_bind (joins_newBlock (by decide)) fun s₃ thenBlock ⟨le₃, hthen⟩ => ?_
  refine joins_bind (joins_newBlock (by decide)) fun b elseBlock ⟨le₄, helse⟩ => ?_
  have le : Le s b := ((le₁.le le₂).le le₃).le le₄
  have hthen := hthen.since le₄
  have hs := hs.since le
  refine joins_bind (joins_newJoin (by decide)) fun s₅ stop o => ?_
  refine joins_bind (joins_emitTest (hs.since o.since)) fun s₆ test le₆ => ?_
  have o := o.le le₆
  refine joins_bind (joins_condBr (hthen.since o.since) (helse.since o.since)) fun s₇ _ le₇ => ?_
  have o := o.le le₇
  refine joins_bind (joins_goto (hthen.since o.since)) fun s₈ _ le₈ => ?_
  have o := o.le le₈
  refine joins_bind (joins_enterBranch (hs.since o.since)) fun s₉ thenScope ⟨le₉, hscope⟩ => ?_
  refine joins_bind (hp.expr hscope) fun s₁₀ value le₁₀ => ?_
  refine joins_bind (joins_branchInto ((o.le le₉).le le₁₀)) fun s₁₁ incoming o => ?_
  refine joins_bind (joins_goto (helse.since o.since)) fun s₁₂ _ le₁₂ => ?_
  have o := o.le le₁₂
  refine joins_bind (joins_lowerElse hp (hs.since o.since)) fun s₁₃ value le₁₃ => ?_
  refine joins_bind (joins_branchInto (o.le le₁₃)) fun s₁₄ incoming o => ?_
  exact joins_mono (joins_joinAt o) fun s' _ le' => le.le le'

include hp in
theorem joins_lowerCatch {lhs rhs : Node} {payload : Option String} (hs : In s scope) :
    Joins env s (lowerCatch parts node lhs payload rhs scope loc) fun s' _ => Le s s' := by
  refine joins_bind (joins_settle hs) fun s₁ loc le₁ => ?_
  refine joins_bind (hp.expr (hs.since le₁)) fun s₂ value le₂ => ?_
  refine joins_bind (joins_emitPlain rfl) fun s₃ isErr le₃ => ?_
  refine joins_bind (joins_newBlock (by decide)) fun s₄ errBlock ⟨le₄, herr⟩ => ?_
  refine joins_bind (joins_newBlock (by decide)) fun b okBlock ⟨le₅, hok⟩ => ?_
  have le : Le s b := (((le₁.le le₂).le le₃).le le₄).le le₅
  have herr := herr.since le₅
  have hs := hs.since le
  refine joins_bind (joins_newJoin (by decide)) fun s₆ stop o => ?_
  refine joins_bind (joins_condBr (herr.since o.since) (hok.since o.since)) fun s₇ _ le₇ => ?_
  have o := o.le le₇
  refine joins_bind (joins_goto (herr.since o.since)) fun s₈ _ le₈ => ?_
  have o := o.le le₈
  refine joins_bind (joins_openScope (hs.since o.since) rfl) fun s₉ handler ⟨le₉, hh, _⟩ => ?_
  have o := o.le le₉
  -- What is left once the scope of the handler is known.
  have rest : ∀ s₁₀ handler, Le s₉ s₁₀ → In s₁₀ handler → Joins env s₁₀ (do
      let handled ← parts.expr rhs handler loc
      let incoming ← branchInto stop [] handled scope false
      goto okBlock
      let payload ← emitGen (.unwrapErrPayload value false) scope node.location
      let payload ← deliver payload loc scope node.location
      let incoming ← branchInto stop incoming payload scope false
      joinAt stop incoming scope node) fun s' _ => Le s s' := by
    intro s₁₀ handler le₁₀ hh
    refine joins_bind (hp.expr hh) fun s₁₁ handled le₁₁ => ?_
    refine joins_bind (joins_branchInto ((o.le le₁₀).le le₁₁)) fun s₁₂ incoming o => ?_
    refine joins_bind (joins_goto (hok.since o.since)) fun s₁₃ _ le₁₃ => ?_
    refine joins_bind (joins_emitPlain rfl) fun s₁₄ payload le₁₄ => ?_
    have o := (o.le le₁₃).le le₁₄
    refine joins_bind (joins_deliver (hs.since o.since)) fun s₁₅ payload le₁₅ => ?_
    refine joins_bind (joins_branchInto (o.le le₁₅)) fun s₁₆ incoming o => ?_
    exact joins_mono (joins_joinAt o) fun s' _ le' => le.le le'
  cases payload with
  | some name =>
    refine joins_bind (joins_emitPlain rfl) fun s₁₀ code le₁₀ => ?_
    refine joins_bind (joins_bindPayload (hh.since le₁₀)) fun s₁₁ handler ⟨le₁₁, hh⟩ => ?_
    exact rest s₁₁ handler (le₁₀.le le₁₁) hh
  | none => exact rest s₉ handler (.refl s₉) hh

include hp in
theorem joins_lowerOrElse {lhs rhs : Node} (hs : In s scope) :
    Joins env s (lowerOrElse parts node lhs rhs scope loc) fun s' _ => Le s s' := by
  refine joins_bind (joins_settle hs) fun s₁ loc le₁ => ?_
  refine joins_bind (hp.expr (hs.since le₁)) fun s₂ value le₂ => ?_
  refine joins_bind (joins_emitPlain rfl) fun s₃ nonNull le₃ => ?_
  refine joins_bind (joins_newBlock (by decide)) fun s₄ okBlock ⟨le₄, hok⟩ => ?_
  refine joins_bind (joins_newBlock (by decide)) fun b nullBlock ⟨le₅, hnull⟩ => ?_
  have le : Le s b := (((le₁.le le₂).le le₃).le le₄).le le₅
  have hok := hok.since le₅
  have hs := hs.since le
  refine joins_bind (joins_newJoin (by decide)) fun s₆ stop o => ?_
  refine joins_bind (joins_condBr (hok.since o.since) (hnull.since o.since)) fun s₇ _ le₇ => ?_
  have o := o.le le₇
  refine joins_bind (joins_goto (hnull.since o.since)) fun s₈ _ le₈ => ?_
  have o := o.le le₈
  refine joins_bind (hp.expr (hs.since o.since)) fun s₉ fallback le₉ => ?_
  refine joins_bind (joins_branchInto (o.le le₉)) fun s₁₀ incoming o => ?_
  refine joins_bind (joins_goto (hok.since o.since)) fun s₁₁ _ le₁₁ => ?_
  refine joins_bind (joins_emitPlain rfl) fun s₁₂ inner le₁₂ => ?_
  have o := (o.le le₁₁).le le₁₂
  refine joins_bind (joins_deliver (hs.since o.since)) fun s₁₃ inner le₁₃ => ?_
  refine joins_bind (joins_branchInto (o.le le₁₃)) fun s₁₄ incoming o => ?_
  exact joins_mono (joins_joinAt o) fun s' _ le' => le.le le'

include hp in
theorem joins_lowerShortCircuit {op : BinaryOperator} {lhs rhs : Node} (hs : In s scope) :
    Joins env s (lowerShortCircuit parts node op lhs rhs scope loc) fun s' _ => Le s s' := by
  refine joins_bind (hp.expr hs) fun s₁ left le₁ => ?_
  refine joins_bind (joins_newBlock (isJoinName_append op.symbol (by decide)))
    fun b rhsBlock ⟨le₂, hrhs⟩ => ?_
  have le : Le s b := le₁.le le₂
  have hs := hs.since le
  refine joins_bind (joins_newJoin (isJoinName_append op.symbol (by decide))) fun s₃ stop o => ?_
  refine joins_currentBlock_bind ?_
  -- What is left once the branch is there.
  have rest : ∀ s₄, Open b stop [(s₃.stream.currentBlock, left)] s₄ → Joins env s₄ (do
      goto rhsBlock
      let right ← parts.value rhs scope
      let incoming ← branchInto stop [(s₃.stream.currentBlock, left)] right scope false
      let value ← joinAt stop incoming scope node
      deliver value loc scope node.location) fun s' _ => Le s s' := by
    intro s₄ o
    refine joins_bind (joins_goto (hrhs.since o.since)) fun s₅ _ le₅ => ?_
    have o := o.le le₅
    refine joins_bind (hp.expr (hs.since o.since)) fun s₆ right le₆ => ?_
    refine joins_bind (joins_branchInto (o.le le₆)) fun s₇ incoming o => ?_
    refine joins_bind (joins_joinAt o) fun s₈ value le₈ => ?_
    exact joins_mono (joins_deliver (hs.since le₈)) fun s₉ _ le₉ => (le.le le₈).le le₉
  have hplain := hrhs.since o.since
  split
  · exact joins_bind (joins_arrive o left rfl (by simp [InstKind.targets])
      fun t ht hne => by simp_all [InstKind.targets]) fun s₄ _ o => rest s₄ o
  · exact joins_bind (joins_arrive o left rfl (by simp [InstKind.targets])
      fun t ht hne => by simp_all [InstKind.targets]) fun s₄ _ o => rest s₄ o

/-! ### Loops -/

/-- The blocks of a loop that are no joins. -/
structure Join.Loop (b : State) (blocks : LoopBlocks) : Prop where
  test : Plain b blocks.test
  body : Plain b blocks.body
  step : Plain b blocks.step
  orElse : Plain b blocks.orElse

theorem joins_newLoop {word : String} :
    Joins env s (newLoop word) fun s' blocks =>
      ∃ b, Le s b ∧ Loop b blocks ∧ Open b blocks.stop [] s' := by
  refine joins_bind (joins_newBlock (isJoinName_append word (by decide)))
    fun s₁ test ⟨le₁, htest⟩ => ?_
  refine joins_bind (joins_newBlock (isJoinName_append word (by decide)))
    fun s₂ body ⟨le₂, hbody⟩ => ?_
  refine joins_bind (joins_newBlock (isJoinName_append word (by decide)))
    fun s₃ step ⟨le₃, hstep⟩ => ?_
  refine joins_bind (joins_newBlock (isJoinName_append word (by decide)))
    fun b orElse ⟨le₄, helse⟩ => ?_
  refine joins_bind (joins_newJoin (isJoinName_append word (by decide))) fun s₅ stop o => ?_
  have hloop : Loop b ⟨test, body, step, orElse, stop⟩ :=
    ⟨htest.since ((le₂.le le₃).le le₄), hbody.since (le₃.le le₄), hstep.since le₄, helse⟩
  exact joins_pure ⟨b, ((le₁.le le₂).le le₃).le le₄, hloop, o⟩

theorem joins_enterLoop {label : Option String} {blocks : LoopBlocks}
    (o : Open s₀ blocks.stop [] s) (hs : In s scope) (hstep : Plain s blocks.step) :
    Joins env s (enterLoop scope label blocks loc) fun s' loopScope =>
      Sunk s₀ blocks.stop loopScope s' ∧ In s' loopScope := by
  refine joins_openTarget_bind o hs rfl (fun step h => ?_) fun s' loopScope sunk hin =>
    joins_pure ⟨sunk, hin⟩
  exact Option.some.inj h ▸ hstep

theorem joins_jumpUnlessTerminated {target : BlockId} {force : Bool} (ht : Plain s target) :
    Joins env s (jumpUnlessTerminated target node scope force) fun s' _ => Le s s' := by
  refine joins_isTerminated_bind fun terminated => ?_
  split
  · exact joins_bind (joins_br ht) fun s' _ le => joins_pure le
  · exact joins_pure (.refl s)

include hp in
theorem joins_finishLoop {b : State} {loopScope : ScopeId} {elseBranch : Option Node}
    {blocks : LoopBlocks} {force : Bool} (hs : In b scope) (helse : Plain b blocks.orElse)
    (sunk : Sunk b blocks.stop loopScope s) :
    Joins env s (finishLoop parts node loopScope elseBranch blocks scope loc force)
      fun s' _ => Le b s' := by
  refine joins_bind (joins_goto (helse.since sunk.since)) fun s₁ _ le₁ => ?_
  have sunk := sunk.le le₁
  refine joins_bind (joins_lowerElse hp (hs.since sunk.since)) fun s₂ value le₂ => ?_
  refine joins_bind (joins_closeSink (sunk.le le₂)) fun s₃ incoming o => ?_
  refine joins_bind (joins_branchInto o) fun s₄ incoming o => ?_
  exact joins_joinAt o

include hp in
theorem joins_lowerWhile {label : Option String} {condition : Node} {payload : Option String}
    {continueExpr : Option Node} {body : Node} {elseBranch : Option Node} {isInline : Bool}
    (hs : In s scope) :
    Joins env s (lowerWhile parts node label condition payload continueExpr body elseBranch isInline
      scope loc) fun s' _ => Le s s' := by
  refine joins_bind (joins_settle hs) fun s₁ loc le₁ => ?_
  refine joins_bind joins_newLoop fun s₂ blocks ⟨b, le₂, loop, o⟩ => ?_
  have le : Le s b := le₁.le le₂
  have hs := hs.since le
  refine joins_bind (joins_br (loop.test.since o.since)) fun s₃ _ le₃ => ?_
  have o := o.le le₃
  refine joins_bind (joins_goto (loop.test.since o.since)) fun s₄ _ le₄ => ?_
  have o := o.le le₄
  refine joins_bind (hp.expr (hs.since o.since)) fun s₅ cond le₅ => ?_
  have o := o.le le₅
  refine joins_bind (joins_emitTest (hs.since o.since)) fun s₆ test le₆ => ?_
  have o := o.le le₆
  refine joins_bind (joins_condBr (loop.body.since o.since) (loop.orElse.since o.since))
    fun s₇ _ le₇ => ?_
  have o := o.le le₇
  refine joins_bind (joins_goto (loop.body.since o.since)) fun s₈ _ le₈ => ?_
  have o := o.le le₈
  refine joins_bind (joins_enterLoop o (hs.since o.since) (loop.step.since o.since))
    fun s₉ loopScope ⟨sunk, hloop⟩ => ?_
  refine joins_bind (joins_enterBranch hloop) fun s₁₀ bodyScope ⟨le₁₀, hbody⟩ => ?_
  have sunk := sunk.le le₁₀
  refine joins_bind (hp.expr hbody) fun s₁₁ _ le₁₁ => ?_
  have sunk := sunk.le le₁₁
  refine joins_bind (joins_jumpUnlessTerminated (loop.step.since sunk.since)) fun s₁₂ _ le₁₂ => ?_
  have sunk := sunk.le le₁₂
  refine joins_bind (joins_goto (loop.step.since sunk.since)) fun s₁₃ _ le₁₃ => ?_
  have sunk := sunk.le le₁₃
  have hbody := hbody.since ((le₁₁.le le₁₂).le le₁₃)
  -- What is left once the continue expression is there.
  have rest : ∀ s₁₄, Le s₁₃ s₁₄ → Joins env s₁₄ (do
      jumpUnlessTerminated blocks.test node scope isInline
      finishLoop parts node loopScope elseBranch blocks scope loc isInline)
      fun s' _ => Le s s' := by
    intro s₁₄ le₁₄
    have sunk := sunk.le le₁₄
    refine joins_bind (joins_jumpUnlessTerminated (loop.test.since sunk.since))
      fun s₁₅ _ le₁₅ => ?_
    exact joins_mono (joins_finishLoop hp hs loop.orElse (sunk.le le₁₅)) fun s' _ le' => le.le le'
  cases continueExpr with
  | some expr => exact joins_bind (hp.expr hbody) fun s₁₄ _ le₁₄ => rest s₁₄ le₁₄
  | none => exact rest s₁₃ (.refl s₁₃)

include hp in
theorem joins_lowerFor {label : Option String} {iterable : Node} {item : String}
    {index : Option String} {body : Node} {elseBranch : Option Node} {isInline : Bool}
    (hs : In s scope) :
    Joins env s (lowerFor parts node label iterable item index body elseBranch isInline scope loc)
      fun s' _ => Le s s' := by
  refine joins_bind (joins_settle hs) fun s₁ loc le₁ => ?_
  refine joins_bind (hp.expr (hs.since le₁)) fun s₂ array le₂ => ?_
  refine joins_bind (joins_emitPlain rfl) fun s₃ lengthPtr le₃ => ?_
  refine joins_bind (joins_emitPlain rfl) fun s₄ length le₄ => ?_
  refine joins_bind (joins_emitPlain rfl) fun s₅ indexPtr le₅ => ?_
  refine joins_bind (joins_emitPlain rfl) fun s₆ zero le₆ => ?_
  refine joins_bind (joins_emitPlain rfl) fun s₇ _ le₇ => ?_
  have le : Le s s₇ := (((((le₁.le le₂).le le₃).le le₄).le le₅).le le₆).le le₇
  refine joins_bind joins_newLoop fun s₈ blocks ⟨b, le₈, loop, o⟩ => ?_
  have le : Le s b := le.le le₈
  have hs := hs.since le
  refine joins_bind (joins_br (loop.test.since o.since)) fun s₉ _ le₉ => ?_
  have o := o.le le₉
  refine joins_bind (joins_goto (loop.test.since o.since)) fun s₁₀ _ le₁₀ => ?_
  refine joins_bind (joins_emitPlain rfl) fun s₁₁ position le₁₁ => ?_
  refine joins_bind (joins_emitPlain rfl) fun s₁₂ inBounds le₁₂ => ?_
  have o := ((o.le le₁₀).le le₁₁).le le₁₂
  refine joins_bind (joins_condBr (loop.body.since o.since) (loop.orElse.since o.since))
    fun s₁₃ _ le₁₃ => ?_
  have o := o.le le₁₃
  refine joins_bind (joins_goto (loop.body.since o.since)) fun s₁₄ _ le₁₄ => ?_
  have o := o.le le₁₄
  refine joins_bind (joins_enterLoop o (hs.since o.since) (loop.step.since o.since))
    fun s₁₅ loopScope ⟨sunk, hloop⟩ => ?_
  refine joins_bind (joins_emitPlain rfl) fun s₁₆ elementPtr le₁₆ => ?_
  refine joins_bind (joins_emitPlain rfl) fun s₁₇ element le₁₇ => ?_
  refine joins_bind (joins_bindPayload (hloop.since (le₁₆.le le₁₇)))
    fun s₁₈ bodyScope ⟨le₁₈, hbody⟩ => ?_
  refine joins_bind joins_declare fun s₁₉ indexVar le₁₉ => ?_
  refine joins_bind (joins_emitPlain rfl) fun s₂₀ _ le₂₀ => ?_
  refine joins_bind (hp.expr (hbody.since (le₁₉.le le₂₀))) fun s₂₁ _ le₂₁ => ?_
  have sunk := (((((sunk.le le₁₆).le le₁₇).le le₁₈).le le₁₉).le le₂₀).le le₂₁
  refine joins_bind (joins_jumpUnlessTerminated (loop.step.since sunk.since)) fun s₂₂ _ le₂₂ => ?_
  have sunk := sunk.le le₂₂
  refine joins_bind (joins_goto (loop.step.since sunk.since)) fun s₂₃ _ le₂₃ => ?_
  have sunk := sunk.le le₂₃
  refine joins_bind (joins_of_keeps (holds_stepIndex (L := joining env) (hs.since sunk.since)
    trivial)) fun s₂₄ _ le₂₄ => ?_
  have sunk := sunk.le le₂₄
  refine joins_bind (joins_br (loop.test.since sunk.since)) fun s₂₅ _ le₂₅ => ?_
  exact joins_mono (joins_finishLoop hp hs loop.orElse (sunk.le le₂₅)) fun s' _ le' => le.le le'

/-! ### Jumps -/

/-- A way out that is taken unless the deferred expressions end the block. -/
theorem joins_unlessTerminated {x : LowerM InstId} (hx : Joins env s x fun s' _ => Le s s') :
    Joins env s (do if ← isTerminated then lastInst else x) fun s' _ => Le s s' := by
  refine joins_isTerminated_bind fun terminated => ?_
  split
  · exact joins_lastInst
  · exact hx

include hp in
theorem joins_lowerBreak {label : Option String} {value : Option Node} (hs : In s scope) :
    Joins env s (lowerBreak parts node label value scope) fun s' _ => Le s s' := by
  intro hj v s' hr
  obtain ⟨target, z, stop, hleads, hstop, hr⟩ := returns_lowerBreak hr
  have hmem := hleads.mem_inside hj.scopes hj.root (mem_exits_of_breakBlock? hstop)
  have hfeeds : Feeds s target stop :=
    ⟨by rw [stop?, hleads.scope?]; exact hstop, hs.sink _ hmem stop hstop⟩
  -- What is left once the value is there.
  have rest : ∀ s₁ v, Le s s₁ → Joins env s₁ (do
      runDefers parts scope (some target) .normal
      if ← isTerminated then lastInst
      else
        flowInto target v
        emit (.br stop) scope node.location) fun s' _ => Le s s' := by
    intro s₁ v le₁
    have hstays := (hs.leaves_eq le₁).trans hleads.stays
    refine joins_bind (joins_runDefers hp (hs.since le₁) hstays) fun s₂ _ le₂ => ?_
    have le := le₁.le le₂
    exact joins_mono (joins_unlessTerminated (joins_flowInto (hfeeds.since le)))
      fun s' _ le' => le.le le'
  cases value with
  | some value => exact joins_bind (hp.expr hs) (fun s₁ v le₁ => rest s₁ v le₁) hj v s' hr
  | none => exact joins_bind joins_emitVoid (fun s₁ v le₁ => rest s₁ v le₁) hj v s' hr

include hp in
theorem joins_lowerContinue {label : Option String} (hs : In s scope) :
    Joins env s (lowerContinue parts node label scope) fun s' _ => Le s s' := by
  intro hj v s' hr
  obtain ⟨target, z, step, hleads, hstep, hr⟩ := returns_lowerContinue hr
  have hmem := hleads.mem_inside hj.scopes hj.root (mem_exits_of_continueBlock? hstep)
  have ht := hs.step _ hmem step hstep
  refine joins_bind (Q := fun s' _ => Le s s') (joins_runDefers hp hs hleads.stays)
    (fun s₁ _ le₁ => ?_) hj v s' hr
  exact joins_mono (joins_unlessTerminated (joins_br (ht.since le₁))) fun s' _ le' => le₁.le le'

/-- Where the function may be left, the way out does not leave the stream. -/
theorem joins_checkFnExit_bind {exit : FnExit} {f : PUnit → LowerM α}
    (h : s.scopes.leaves s.streamRoot scope none = false → Joins env s (f ⟨⟩) Q) :
    Joins env s (checkFnExit node scope exit >>= f) Q := by
  intro hj a s' hr
  obtain ⟨_, t, h₁, hr⟩ := returns_bind.1 hr
  obtain ⟨rfl, -, hstays, -⟩ := returns_checkFnExit h₁
  exact h hstays hj a s' hr

/-- A return, unless the deferred expressions end the block, and what comes in the next block. -/
theorem joins_retUnlessTerminated {x : LowerM α} {gen : Bool}
    (hx : ∀ s', Le s s' → Joins env s' x Q) :
    Joins env s (do
      if !(← isTerminated) then
        let _ ← emitWith (.ret (some v)) scope location false gen
      x) Q := by
  refine joins_isTerminated_bind fun terminated => ?_
  split
  · exact joins_bind joins_ret fun s₁ _ le₁ => hx s₁ le₁
  · exact hx s (.refl s)

include hp in
theorem joins_emitErrReturn (hs : In s scope)
    (hstays : s.scopes.leaves s.streamRoot scope none = false) :
    Joins env s (emitErrReturn parts node v scope) fun s' _ => Le s s' := by
  refine joins_bind (joins_emitPlain rfl) fun s₁ isErr le₁ => ?_
  refine joins_bind (joins_newBlock (by decide)) fun s₂ errBlock ⟨le₂, herr⟩ => ?_
  refine joins_bind (joins_newBlock (by decide)) fun s₃ okBlock ⟨le₃, hok⟩ => ?_
  have herr := herr.since le₃
  refine joins_bind (joins_condBr herr hok) fun s₄ _ le₄ => ?_
  refine joins_bind (joins_goto (herr.since le₄)) fun s₅ _ le₅ => ?_
  have le : Le s s₅ := (((le₁.le le₂).le le₃).le le₄).le le₅
  have hok := hok.since (le₄.le le₅)
  refine joins_bind (joins_runDefers hp (hs.since le) ((hs.leaves_eq le).trans hstays))
    fun s₆ _ le₆ => ?_
  refine joins_retUnlessTerminated fun s₇ le₇ => ?_
  exact joins_mono (joins_goto (hok.since (le₆.le le₇))) fun s' _ le' => ((le.le le₆).le le₇).le le'

include hp in
/-- The way out of the function for an operand that is no error. -/
theorem joins_leaveWith {operand : Option InstId} (hs : In s scope)
    (hstays : s.scopes.leaves s.streamRoot scope none = false) :
    Joins env s (do
      runDefers parts scope none .normal
      if ← isTerminated then lastInst else emit (.ret operand) scope location)
      fun s' _ => Le s s' := by
  refine joins_bind (joins_runDefers hp hs hstays) fun s₁ _ le₁ => ?_
  exact joins_mono (joins_unlessTerminated joins_ret) fun s' _ le' => le₁.le le'

include hp in
/-- The ways out of the function for an operand: the errors are taken care of first. -/
theorem joins_returnOperand {operand : Option InstId} (hs : In s scope)
    (hstays : s.scopes.leaves s.streamRoot scope none = false) :
    Joins env s (do
      match if passesErrDefer (← scopesFrom scope) scope then operand else none with
      | some value => emitErrReturn parts node value scope
      | none => pure ⟨⟩
      runDefers parts scope none .normal
      if ← isTerminated then lastInst else emit (.ret operand) scope location)
      fun s' _ => Le s s' := by
  refine joins_scopesFrom_bind ?_
  split
  · refine joins_bind (joins_emitErrReturn hp hs hstays) fun s₁ _ le₁ => ?_
    exact joins_mono (joins_leaveWith hp (hs.since le₁) ((hs.leaves_eq le₁).trans hstays))
      fun s' _ le' => le₁.le le'
  · exact joins_leaveWith hp hs hstays

include hp in
theorem joins_lowerReturn {value : Option Node} (hs : In s scope) :
    Joins env s (lowerReturn parts node value scope) fun s' _ => Le s s' := by
  refine joins_checkFnExit_bind fun hstays => ?_
  cases value with
  | some value =>
    have hvalue : Joins env s (some <$> parts.expr value scope .ret) fun s' _ => Le s s' := by
      rw [map_eq_pure_bind]
      exact joins_bind (hp.expr hs) fun s₁ v le₁ => joins_pure le₁
    refine joins_bind hvalue fun s₁ operand le₁ => ?_
    exact joins_mono (joins_returnOperand hp (hs.since le₁) ((hs.leaves_eq le₁).trans hstays))
      fun s' _ le' => le₁.le le'
  | none => exact joins_returnOperand hp hs hstays

include hp in
theorem joins_lowerTry {expr : Node} (hs : In s scope) :
    Joins env s (lowerTry parts node expr scope loc) fun s' _ => Le s s' := by
  refine joins_checkFnExit_bind fun hstays => ?_
  refine joins_bind (hp.expr hs) fun s₁ value le₁ => ?_
  refine joins_bind (joins_emitPlain rfl) fun s₂ isErr le₂ => ?_
  refine joins_bind (joins_newBlock (by decide)) fun s₃ errBlock ⟨le₃, herr⟩ => ?_
  refine joins_bind (joins_newBlock (by decide)) fun s₄ okBlock ⟨le₄, hok⟩ => ?_
  have herr := herr.since le₄
  refine joins_bind (joins_condBr herr hok) fun s₅ _ le₅ => ?_
  refine joins_bind (joins_goto (herr.since le₅)) fun s₆ _ le₆ => ?_
  refine joins_bind (joins_emitPlain rfl) fun s₇ code le₇ => ?_
  have le : Le s s₇ := (((((le₁.le le₂).le le₃).le le₄).le le₅).le le₆).le le₇
  have hok := hok.since ((le₅.le le₆).le le₇)
  refine joins_bind (joins_runDefers hp (hs.since le) ((hs.leaves_eq le).trans hstays))
    fun s₈ _ le₈ => ?_
  refine joins_retUnlessTerminated fun s₉ le₉ => ?_
  refine joins_bind (joins_goto (hok.since (le₈.le le₉))) fun s₁₀ _ le₁₀ => ?_
  refine joins_bind (joins_emitPlain rfl) fun s₁₁ payload le₁₁ => ?_
  have le : Le s s₁₁ := (((le.le le₈).le le₉).le le₁₀).le le₁₁
  exact joins_mono (joins_deliver (hs.since le)) fun s' _ le' => le.le le'

/-! ### Streams inside streams -/

/-- A routine over a fresh stream in which it starts every join. -/
theorem joins_inChildStream_bind {name : String} {root : ScopeId} {x : LowerM β}
    {f : Nat × Option β → LowerM α}
    (hroot : ∃ y, s.scopes.scope? root = some y ∧ exits y.kind = [])
    (hx : ∀ s', s'.scopes = s.scopes → s'.streamRoot = root → Joins env s' x fun s'' _ => Le s' s'')
    (hf : ∀ s' index b, Le s s' → Joins env s' (f (index, some b)) Q)
    (hnone : ∀ t index b s', ¬ Returns (f (index, none)) env t b s') :
    Joins env s (inChildStream name root x >>= f) Q := by
  intro hj a s'' hr
  obtain ⟨b, t, hb, hr⟩ := returns_inChildStream_bind hr fun t index => hnone t index a s''
  have hstart : Joined (s.inChild name root) := joined_start rfl rfl hj.scopes hroot
  obtain ⟨hs₁, le₁⟩ := hx (s.inChild name root) rfl rfl hstart b t hb
  obtain ⟨hs₂, le₂⟩ := hj.withChild le₁.scopes hs₁.scopes fun t' ht =>
    hs₁.joinsMatch (fun _ hstop => le₁.started_of_new rfl hstop) ht
  exact hf _ _ b le₂ hs₂ a s'' hr

/-- The body of a compile-time block. -/
theorem joins_lowerComptimeBody (hp : JoinParts env parts) {expr : Node} (hs : In s scope) :
    Joins env s (lowerComptimeBody parts node expr scope) fun s' _ => Le s s' := by
  refine joins_bind (hp.expr hs) fun s₁ value le₁ => ?_
  refine joins_isTerminated_bind fun terminated => ?_
  split
  · exact joins_bind joins_ret fun s₂ _ le₂ => joins_pure (le₁.le le₂)
  · exact joins_pure le₁

/-- No jump leaves the scope that a stream starts in. -/
theorem Join.in_root (hs : s.scopes.WellFormed)
    (hlt : s.streamRoot.index < s.scopes.scopes.size) : In s s.streamRoot := by
  have hinside := ScopeTree.inside_self hs hlt
  refine ⟨hlt, ?_, ?_⟩ <;> simp [hinside]

include hp in
theorem joins_lowerComptime {expr : Node} (hs : In s scope) :
    Joins env s (lowerComptime parts node expr scope loc) fun s' _ => Le s s' := by
  refine joins_bind (joins_openScope hs rfl) fun s₁ inner ⟨le₁, hi, _, x, hx, hk⟩ => ?_
  refine joins_bind (R := fun s' _ => s' = s₁)
    (joins_scopesFrom_bind (joins_get_bind (joins_pure rfl))) ?_
  rintro s₁' atComptime rfl
  split
  · exact joins_mono (hp.expr hi) fun s₂ _ le₂ => le₁.le le₂
  refine joins_get_bind ?_
  dsimp only
  refine joins_inChildStream_bind ⟨x, hx, by rw [hk]; rfl⟩ (fun s' hscopes hroot => ?_)
    (fun s₂ index u le₂ => ?_) fun t index v s' => not_returns_throw
  · refine joins_of_joined fun hj => ?_
    have hin : In s' inner := hroot ▸ in_root hj.scopes hj.root_lt
    refine joins_mono (joins_withFrame (Q := fun _ _ => True) (fun s'' le => ?_) fun _ _ _ _ h => h)
      fun _ _ h => h.1
    exact joins_mono (joins_lowerComptimeBody hp (hin.since le)) fun _ _ le' => ⟨le', trivial⟩
  · refine joins_bind (joins_emitPlain rfl) fun s₃ v le₃ => ?_
    have le := (le₁.le le₂).le le₃
    exact joins_mono (joins_deliver (hs.since le)) fun s₄ _ le₄ => le.le le₄

/-! ### Every level of nesting -/

theorem joins_unreachable :
    Joins env s (emit .unreachable scope location) fun s' _ => Le s s' :=
  joins_emitWith rfl nofun

include hp in
theorem joins_lowerExpr (hs : In s scope) :
    Joins env s (lowerExpr parts node scope loc) fun s' _ => Le s s' := by
  cases hk : node.kind.branches with
  | false =>
    exact joins_mono (holds_lowerExpr (L := joining env) hp.holds hk (fun _ => rfl)
      (fun _ _ => trivial) hs fun _ _ => trivial) fun _ _ h => h.1
  | true =>
    rw [lowerExpr]
    cases h : node.kind <;> rw [h] at hk
    case root | fnDecl | param | varDecl | testDecl | containerDecl | containerField |
        errorSetDecl | deferred | suspend | asm | assign | assignOp | unaryOp | call |
        builtinCall | fieldAccess | arrayAccess | structInit | arrayInit | symbol | intLiteral |
        floatLiteral | stringLiteral | boolLiteral | nullLiteral | undefinedLiteral |
        errorValue => cases hk
    case block => exact joins_lowerBlock hp hs
    case comptime => exact joins_lowerComptime hp hs
    case ifThen => exact joins_lowerIf hp hs
    case whileLoop => exact joins_lowerWhile hp hs
    case forLoop => exact joins_lowerFor hp hs
    case breakTo => exact joins_lowerBreak hp hs
    case continueTo => exact joins_lowerContinue hp hs
    case returnFrom => exact joins_lowerReturn hp hs
    case unreachable => exact joins_unreachable
    case tryExpr => exact joins_lowerTry hp hs
    case catchExpr => exact joins_lowerCatch hp hs
    case binaryOp op lhs rhs =>
      cases op
      case boolAnd | boolOr => exact joins_lowerShortCircuit hp hs
      case orElse => exact joins_lowerOrElse hp hs
      all_goals cases hk

/-- The routines for parts start the joins that they make, however many levels of nesting are
left. -/
theorem joinParts_nested (levels : Nat) : JoinParts env (nested levels) := by
  have deep : ∀ {s : State} {node : Node} {α : Type} {Q : State → α → Prop},
      Joins env s (failDepth node) Q := joins_read_bind joins_fail
  induction levels with
  | zero => exact ⟨fun _ => deep, fun _ => deep⟩
  | succ levels ih => exact ⟨fun hs => joins_lowerExpr ih hs, fun hs => joins_lowerStatement ih hs⟩

end SourceIr.Lower
