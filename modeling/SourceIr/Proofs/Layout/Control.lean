import SourceIr.Proofs.Jump
import SourceIr.Proofs.Layout.Run
import SourceIr.Proofs.Logic.Routines

/-!
# Layout of branches and jumps

The routines that branch, jump or change the stream leave no block behind, if the routines for
their parts do not, and use values only where they may be used.

* `LayParts`, what is relied on for parts;
* deferred expressions, statements and blocks;
* branches, loops and jumps;
* `lays_evaluate_bind`, the streams of compile-time blocks;
* `layParts_nested`, the routines for parts at every level of nesting.
-/

namespace SourceIr.Lower

open SourceIr.Stream Logic Site

/-- What is relied on for the parts of a construct. -/
structure LayParts (env : Env) (parts : Parts) : Prop where
  expr : ∀ {w node scope loc}, w.In w.current scope → w.Loc w.current loc →
    Lays env w (parts.expr node scope loc) fun w' v => w.Le w' ∧ w'.Avail w'.current v
  statement : ∀ {w node scope}, w.In w.current scope →
    Lays env w (parts.statement node scope) fun w' inner =>
      w.LeFrom scope.index w' ∧ w'.In w'.current inner ∧ w'.Under scope inner

variable {env : Env} {w w₀ b : Site} {parts : Parts} {node : Node} {scope : ScopeId}
  {location : Option Location} {loc : ResultLoc} {α β : Type} {v : InstId}
  {x : LowerM α} {Q : Site → α → Prop}

/-! ### What the logic gives

The rules that all logics share, for this one. -/

/-- What the logic says of a routine that declares variables in new scopes only. -/
theorem lays_of_holds (h : (layout env w.state.scopes.scopes.size).Holds w x Q) :
    Lays env w x fun w' a => w.Le w' ∧ Q w' a :=
  lays_mono (h (Nat.le_refl _)) fun _ _ _ ⟨le, ha⟩ => ⟨le.le (Nat.le_refl _), ha⟩

theorem LayParts.holds (hp : LayParts env parts) (n : Nat) : (layout env n).HoldsParts parts :=
  fun _ _ _ _ _ hs hl hn => lays_mono (hp.expr hs hl) fun _ _ _ ⟨le, hv⟩ => ⟨le.from hn, hv⟩

theorem LayParts.value (hp : LayParts env parts) (hs : w.In w.current scope) :
    Lays env w (parts.value node scope) fun w' v => w.Le w' ∧ w'.Avail w'.current v :=
  hp.expr hs nofun

theorem lays_get_bind {f : State → LowerM α} (h : Lays env w (f w.state) Q) :
    Lays env w (get >>= f) Q := by
  refine lays_bind lays_get ?_
  rintro w' s - ⟨rfl, rfl⟩
  exact h

theorem lays_read_bind {f : Env → LowerM α} (h : Lays env w (f env) Q) :
    Lays env w (read >>= f) Q := by
  refine lays_bind lays_read ?_
  rintro w' s - ⟨rfl, rfl⟩
  exact h

theorem lays_settle (hs : w.In w.current scope) (hl : w.Loc w.current loc) :
    Lays env w (settle loc scope location) fun w' loc => w.Le w' ∧ w'.Loc w'.current loc :=
  lays_of_holds (holds_settle hs hl)

theorem lays_deliver (hs : w.In w.current scope) (hv : w.Avail w.current v)
    (hl : w.Loc w.current loc) :
    Lays env w (deliver v loc scope location) fun w' v => w.Le w' ∧ w'.Avail w'.current v :=
  lays_of_holds (holds_deliver hs hv hl)

theorem lays_emitVoid :
    Lays env w (emitVoid scope location) fun w' v => w.Le w' ∧ w'.Avail w'.current v :=
  lays_emitPlain rfl nofun

/-- An instruction without operands that has no say in where control goes. -/
theorem lays_emit_nil {kind : InstKind} {force gen : Bool}
    (hk : (kind.isPlain && !kind.concernsVars) = true) (ho : kind.operands = []) :
    Lays env w (emitWith kind scope location force gen) fun w' v =>
      w.Le w' ∧ w'.Avail w'.current v :=
  lays_emitPlain hk (by simp [ho])

/-- An instruction with one operand. -/
theorem lays_emit_one {kind : InstKind} {force gen : Bool}
    (hk : (kind.isPlain && !kind.concernsVars) = true) (ho : kind.operands = [v])
    (hv : w.Avail w.current v) :
    Lays env w (emitWith kind scope location force gen) fun w' v =>
      w.Le w' ∧ w'.Avail w'.current v :=
  lays_emitPlain hk (by simpa [ho] using hv)

/-- An instruction with two operands. -/
theorem lays_emit_two {kind : InstKind} {u : InstId} {force gen : Bool}
    (hk : (kind.isPlain && !kind.concernsVars) = true) (ho : kind.operands = [u, v])
    (hu : w.Avail w.current u) (hv : w.Avail w.current v) :
    Lays env w (emitWith kind scope location force gen) fun w' v =>
      w.Le w' ∧ w'.Avail w'.current v :=
  lays_emitPlain hk (by simpa [ho] using ⟨hu, hv⟩)

theorem lays_emitTest {payload : Option String} (hv : w.Avail w.current v) :
    Lays env w (emitTest node payload v scope) fun w' v =>
      w.Le w' ∧ w'.Avail w'.current v := by
  cases payload with
  | some name => exact lays_emit_one rfl rfl hv
  | none => exact lays_pure ⟨.refl w, hv⟩

theorem lays_enterBranch {payload : Option String} (hv : w.Avail w.current v)
    (hs : w.In w.current scope) :
    Lays env w (enterBranch node payload v scope) fun w' scope =>
      w.Le w' ∧ w'.In w'.current scope :=
  lays_of_holds (holds_enterBranch hv hs)

theorem lays_bindPayload {name : String} (hv : w.Avail w.current v)
    (hs : w.In w.current scope) :
    Lays env w (bindPayload scope name v node) fun w' inner =>
      w.Le w' ∧ w'.In w'.current inner ∧ w.state.scopes.scopes.size ≤ inner.index :=
  lays_of_holds (holds_bindPayload hv hs)

/-- A scope without jumps of its own, at the current block. -/
theorem lays_inner {kind : ScopeKind} (hs : w.In w.current scope) (hk : exits kind = []) :
    Lays env w (openScope scope kind) fun w' inner =>
      w.Le w' ∧ w'.In w'.current inner ∧ w'.Under scope inner ∧ w.Opens w' scope kind inner := by
  refine lays_mono (lays_openScope hs.index hk) ?_
  rintro w' inner - ⟨le, hu, h, ho⟩
  exact ⟨le, (h _ hs).below le.above, hu, ho⟩

/-- Looking for effects leaves the site as it is. -/
theorem lays_hasEffectSince_bind {start : Nat} {f : Bool → LowerM α}
    (h : ∀ effectful, Lays env w (f effectful) Q) :
    Lays env w (hasEffectSince start >>= f) Q := by
  intro hw a s' hr
  obtain ⟨effectful, hf⟩ := returns_hasEffectSince_bind hr
  exact h effectful hw a s' hf

/-! ### Deferred expressions -/

variable (hp : LayParts env parts)

/-- The scope of a deferred expression that may be run from a scope. -/
def Site.Reach (w : Site) (scope : ScopeId) (d : ScopeId × DeferKind) : Prop :=
  ∃ x ∈ w.state.scopes.inside w.state.streamRoot scope, x.1 = d.1

theorem Site.Reach.ext {w' : Site} {d : ScopeId × DeferKind} (h : w.Reach scope d)
    (hs : w.In w.current scope) (e : Ext w w') : w'.Reach scope d := by
  rwa [Reach, e.root, e.scopes.inside_eq hs.index]

/-- A deferred expression is lowered next to its scope, where code may be lowered too. -/
theorem lays_runDefer_of {expr : Node} {d : ScopeId × DeferKind} {Q : Site → PUnit → Prop}
    (hs : w.In w.current scope) (hd : w.Reach scope d)
    (h : ∀ outer, w.In w.current outer → Lays env w (do
      let body ← openScope outer .deferredBody
      let _ ← parts.expr expr body .discard) Q) :
    Lays env w (runDefer parts d.1 expr) Q := by
  refine lays_of_good fun hw => ?_
  obtain ⟨y, hy, hyd⟩ := hd
  obtain ⟨x, hx, hxy⟩ := ScopeTree.reaches_of_mem_inside hy
  have hmem : x ∈ w.state.scopes.chain scope := by
    obtain ⟨pre, rest, hl, -⟩ := hx
    simp [hl]
  obtain ⟨hlt, hsub⟩ := hx.parent hw.scopes
  have hid : x.id = d.1 := hxy.trans hyd
  have hon : w.state.scopes.OnChain (x.parent.getD x.id) scope := hw.scopes.parent_mem_chain hmem
  have haround : ∀ q, w.state.scopes.Around q (x.parent.getD x.id) →
      w.state.scopes.Around q scope := fun q hq =>
    hw.scopes.around (hw.scopes.onChain_trans hq.2 hon)
  have hin : w.In w.current (x.parent.getD x.id) :=
    ⟨hlt, fun y hy => hs.inside y (hsub y hy), fun y hy => hs.target y (hsub y hy),
      fun y hy => hs.sink y (hsub y hy), hx.onChain_parent hw.scopes hs.rooted,
      fun i y hy hk hq => hs.declared i y hy hk (haround _ hq),
      fun c hc d hd hq => hs.apart c hc d hd (haround _ hq)⟩
  refine lays_scopeAt_bind fun z hz => ?_
  obtain rfl := Option.some.inj ((hid ▸ hw.scopes.scope?_of_mem hmem).symm.trans hz)
  rw [← hid]
  exact h _ hin

include hp in
theorem lays_runDefer {expr : Node} {d : ScopeId × DeferKind} (hs : w.In w.current scope)
    (hd : w.Reach scope d) : Lays env w (runDefer parts d.1 expr) fun w' _ => w.Le w' := by
  refine lays_runDefer_of hs hd fun outer hin => ?_
  refine lays_bind (lays_inner hin rfl) fun w₁ body _ ⟨le₁, hb, _⟩ => ?_
  refine lays_bind (hp.expr hb nofun) fun w₂ _ _ ⟨le₂, _⟩ => ?_
  exact lays_pure (le₁.trans le₂)

include hp in
theorem lays_runDefersIn {path : ExitPath} {defers : List (ScopeId × DeferKind)}
    (hs : w.In w.current scope) (hd : ∀ d ∈ defers, w.Reach scope d) :
    Lays env w (runDefersIn parts path defers) fun w' _ => w.Le w' := by
  induction defers generalizing w with
  | nil => exact lays_pure (.refl w)
  | cons d rest ih =>
    have hrest : ∀ d ∈ rest, w.Reach scope d := fun d h => hd d (List.mem_cons_of_mem _ h)
    rw [runDefersIn]
    refine lays_get_bind ?_
    dsimp only
    split
    · exact ih hs hrest
    · refine lays_bind (lays_runDefer hp hs (hd d List.mem_cons_self)) fun w₁ _ e le₁ => ?_
      refine lays_isTerminated_bind ?_
      split
      · exact lays_pure le₁
      · refine lays_mono (ih (hs.to le₁.toBelow) fun d h => (hrest d h).ext hs e) ?_
        exact fun w₂ _ _ le₂ => le₁.trans le₂

include hp in
/-- The deferred expressions on a way that does not leave the stream. -/
theorem lays_runDefers {target : Option ScopeId} {path : ExitPath} (hs : w.In w.current scope)
    (h : w.state.scopes.leaves w.state.streamRoot scope target = false) :
    Lays env w (runDefers parts scope target path) fun w' _ => w.Le w' := by
  refine lays_scopesFrom_bind (lays_runDefersIn hp hs fun d hd => ?_)
  obtain ⟨y, hy, hyd⟩ := ScopeTree.reaches_of_mem_defersIn h hd
  exact ⟨_, hy.mem_inside, hyd⟩

/-! ### Statements and blocks -/

include hp in
theorem lays_lowerStatements {statements : List Node} (hs : w.In w.current scope) :
    Lays env w (lowerStatements parts scope false statements) fun w' last =>
      w.LeFrom scope.index w' ∧ w'.In w'.current last ∧ w'.Under scope last := by
  induction statements generalizing w scope with
  | nil => exact lays_pure ⟨.refl _ w, hs, .refl _ _ _⟩
  | cons statement rest ih =>
    rw [lowerStatements]
    refine lays_isTerminated_bind ?_
    split
    · refine lays_bind lays_warnAt fun w₁ _ _ le₁ => lays_pure ⟨?_, ?_, .refl _ _ _⟩
      · exact le₁.from (Nat.le_of_lt hs.index)
      · exact hs.to le₁.toBelow
    refine lays_attempt_bind (hp.statement hs) ?_ fun t last s' => ?_
    · rintro w₁ next - ⟨le₁, hn, hu⟩
      have hs₁ := hs.along le₁
      refine lays_of_good fun hw₁ => lays_mono (ih hn) ?_
      rintro w₂ last e ⟨le₂, hl, hu'⟩
      have hnext := (ScopeTree.Under.around hw₁.scopes hu hs₁.index).1
      exact ⟨le₁.trans (le₂.mono hnext), hl,
        ScopeTree.Under.trans (hu.ext hs₁.index hn.index e) hu'⟩
    · refine not_returns_bind fun _ _ => ?_
      split
      · exact not_returns_throw
      · exact not_returns_lowerStatements

/-- The deferred expressions of a block, from the scope after its last statement. -/
theorem lays_leaveBlock (hp : LayParts env parts) {block last : ScopeId} {x : LowerM α}
    (hl : w.In w.current last) (hu : w.Under block last)
    (hb : block.index < w.state.scopes.scopes.size)
    (h : ∀ w', w.Le w' → Lays env w' x Q) :
    Lays env w (do
      runDefers parts last (some block) .normal
      x) Q := by
  refine lays_of_good fun hw => ?_
  exact lays_bind (lays_runDefers hp hl (ScopeTree.Under.leaves_eq_false hw.scopes hu hb))
    fun w' _ _ le => h w' le

/-- The value of a block, once its scope is left. -/
theorem lays_blockValue (hs : w.In w.current scope) (hl : w.Loc w.current loc) :
    Lays env w (do
      let terminated ← isTerminated
      let stream := (← get).stream
      match if terminated then stream.last? else none with
      | some stop => return stop
      | none =>
        let void ← emitVoid scope node.location
        deliver void loc scope node.location) fun w' v => w.Le w' ∧ w'.Avail w'.current v := by
  refine lays_of_good fun hw => lays_isTerminated_bind (lays_get_bind ?_)
  dsimp only
  split
  next stop h =>
    split at h
    next ht => exact lays_pure ⟨.refl w, hw.avail_last ht h⟩
    next => cases h
  next =>
    refine lays_bind lays_emitVoid fun w₁ void _ ⟨le₁, hv⟩ => ?_
    refine lays_mono (lays_deliver (hs.to le₁.toBelow) hv (hl.to le₁.toBelow)) ?_
    exact fun w₂ v _ ⟨le₂, hv⟩ => ⟨le₁.trans le₂, hv⟩

include hp in
theorem lays_lowerPlainBlock {statements : List Node} (hs : w.In w.current scope)
    (hl : w.Loc w.current loc) :
    Lays env w (lowerPlainBlock parts node statements scope loc) fun w' v =>
      w.Le w' ∧ w'.Avail w'.current v := by
  refine lays_bind (lays_inner hs rfl) fun w₁ block _ ⟨le₁, hb, _, ho⟩ => ?_
  refine lays_bind (lays_lowerStatements hp hb) fun w₂ last _ ⟨le₂, hlast, hu⟩ => ?_
  have le : w.Le w₂ := le₁.trans_from le₂ (Nat.le_of_eq ho.index.symm)
  refine lays_isTerminated_bind ?_
  split
  · refine lays_leaveBlock hp hlast hu (hb.along le₂).index fun w₃ le₃ => ?_
    have le : w.Le w₃ := le.trans le₃
    refine lays_mono (lays_blockValue (hs.to le.toBelow) (hl.to le.toBelow)) ?_
    exact fun w' v _ ⟨le', hv⟩ => ⟨le.trans le', hv⟩
  · refine lays_mono (lays_blockValue (hs.to le.toBelow) (hl.to le.toBelow)) ?_
    exact fun w' v _ ⟨le', hv⟩ => ⟨le.trans le', hv⟩

include hp in
theorem lays_lowerLabelledBlock {label : String} {statements : List Node}
    (hs : w.In w.current scope) (hl : w.Loc w.current loc) :
    Lays env w (lowerLabelledBlock parts node label statements scope loc) fun w' v =>
      w.Le w' ∧ w'.Avail w'.current v := by
  refine lays_bind (lays_settle hs hl) fun w₁ loc _ ⟨le₁, hl⟩ => ?_
  refine lays_bind (lays_newBlock (.of_le le₁) (some w₁.current)) fun w₂ stop _ ⟨run, h₂, _⟩ => ?_
  have hkind : ∀ t ∈ exits (.block (some label) (some stop)), w₂.Target w₂.current t := by
    intro t ht
    rw [List.mem_singleton.1 ht]
    exact run.target (by simp)
  have hs₂ := (hs.to le₁.toBelow).to h₂
  refine lays_openTarget_bind hs₂.index fun w₃ block le₃ hindex hblock => ?_
  have hb := (hblock _ hs₂ hkind (hl.to h₂)).below le₃.above
  refine lays_bind (lays_lowerStatements hp hb) fun w₄ last _ ⟨le₄, hlast, hu⟩ => ?_
  have run := run.le (le₃.trans_from le₄ (Nat.le_of_eq hindex.symm))
  have join : ∀ w', w₄.Le w' → w'.state.stream.Ends w'.current → Lays env w' (do
      joinAt stop (← closeSink block) scope node) fun w' v => w.Le w' ∧ w'.Avail w'.current v := by
    intro w' le' ends
    refine lays_bind lays_closeSink fun w'' incoming _ ⟨le'', hstream, hi⟩ => ?_
    have ends : w''.state.stream.Ends w''.state.stream.currentBlock := hstream ▸ ends
    exact lays_joinAt ((run.le le').le le'') ends hi
  refine lays_of_good fun hw => lays_isTerminated_bind ?_
  split
  · refine lays_leaveBlock hp hlast hu (hb.along le₄).index fun w₅ le₅ => ?_
    refine lays_of_good fun hw => lays_isTerminated_bind ?_
    split
    · refine lays_bind lays_emitVoid fun w₆ void _ ⟨le₆, hv⟩ => ?_
      refine lays_bind (lays_flowInto hv) fun w₇ _ _ le₇ => ?_
      have le := (le₅.trans le₆).trans le₇
      refine lays_bind (lays_jump ((run.le le).target (by simp))) fun w₈ _ _ ⟨le₈, _, ends⟩ => ?_
      exact join w₈ (le.trans le₈) ends
    next h => exact join w₅ le₅ (hw.ends (by simpa using h))
  next h => exact join w₄ (.refl w₄) (hw.ends (by simpa using h))

include hp in
theorem lays_lowerBlock {label : Option String} {statements : List Node}
    (hs : w.In w.current scope) (hl : w.Loc w.current loc) :
    Lays env w (lowerBlock parts node label statements scope loc) fun w' v =>
      w.Le w' ∧ w'.Avail w'.current v := by
  cases label with
  | none => exact lays_lowerPlainBlock hp hs hl
  | some label => exact lays_lowerLabelledBlock hp hs hl

include hp in
theorem lays_lowerExprStatement (hs : w.In w.current scope) :
    Lays env w (lowerExprStatement parts node scope) fun w' _ => w.Le w' := by
  refine lays_get_bind ?_
  refine lays_bind (hp.expr hs nofun) fun w₁ value _ ⟨le₁, hv⟩ => ?_
  have check : ∀ w', w₁.Le w' → Lays env w' (do
      let _ ← emitGen (.checkStatementIsVoid value) scope node.location) fun w' _ => w.Le w' := by
    intro w' le'
    refine lays_bind (lays_emit_one rfl rfl (hv.to le'.toBelow)) fun w'' _ _ ⟨le'', _⟩ => ?_
    exact lays_pure ((le₁.trans le').trans le'')
  refine lays_isTerminated_bind ?_
  split
  · refine lays_hasEffectSince_bind fun effectful => lays_read_bind ?_
    split
    · exact lays_bind lays_warnAt fun w₂ _ _ le₂ => check w₂ le₂
    · exact check w₁ (.refl w₁)
  · exact lays_pure le₁

theorem lays_remember {expr : Node} : Lays env w (remember scope expr) fun w' _ => w.Le w' := by
  have e : Ext w { w with state :=
    { w.state with deferred := (scope, expr) :: w.state.deferred } } :=
    ⟨.refl _, fun _ _ => id, .refl _, fun _ _ => id, rfl, rfl, fun _ _ sink h => ⟨sink, h, rfl⟩⟩
  refine lays_step { w with state := _ } (outcome_modify _) (fun hw => ?_) (fun _ => e)
    fun _ => .of_ext e rfl rfl rfl rfl rfl
  refine hw.mono ⟨hw.laid, hw.tail, hw.pending, hw.settled, hw.parent, hw.scopes, hw.root, hw.sinks,
    hw.children⟩ e rfl rfl rfl hw.recorded

include hp in
theorem lays_lowerStatement (hs : w.In w.current scope) :
    Lays env w (lowerStatement parts node scope) fun w' inner =>
      w.LeFrom scope.index w' ∧ w'.In w'.current inner ∧ w'.Under scope inner := by
  have hn := Nat.le_of_lt hs.index
  have after : ∀ {x : LowerM PUnit}, (layout env scope.index).Keeps w x →
      Lays env w (do x; return scope) fun w' inner =>
        w.LeFrom scope.index w' ∧ w'.In w'.current inner ∧ w'.Under scope inner := fun hx =>
    lays_bind (hx hn) fun w' _ _ ⟨le, _⟩ => lays_pure ⟨le, hs.along le, .refl _ _ _⟩
  rw [lowerStatement]
  split
  · exact after (holds_lowerLocalVar (hp.holds _) rfl (fun _ _ => trivial) ⟨hs, Nat.le_refl _⟩)
  · refine lays_bind (lays_inner hs rfl) fun w₁ inner _ ⟨le₁, hi, hu, _⟩ => ?_
    refine lays_bind lays_remember fun w₂ _ e le₂ =>
      lays_pure ⟨(le₁.trans le₂).from hn, hi.to le₂.toBelow, ?_⟩
    exact hu.ext (hs.to le₁.toBelow).index hi.index e
  · exact after (holds_lowerAssign (hp.holds _) trivial trivial hs)
  · exact after (holds_lowerAssignOp (hp.holds _) trivial trivial hs)
  · split
    · exact after fun _ => lays_mono (lays_lowerExprStatement hp hs) fun _ _ _ le =>
        ⟨le.from hn, trivial⟩
    · refine lays_bind (hp.expr hs nofun) fun w' _ _ ⟨le, _⟩ =>
        lays_pure ⟨le.from hn, ?_, .refl _ _ _⟩
      exact hs.to le.toBelow

/-! ### Branches -/

include hp in
theorem lays_lowerElse {branch : Option Node} (hs : w.In w.current scope)
    (hl : w.Loc w.current loc) :
    Lays env w (lowerElse parts node branch scope loc) fun w' v =>
      w.Le w' ∧ w'.Avail w'.current v := by
  cases branch with
  | some branch => exact hp.expr hs hl
  | none => exact lays_emitVoid

include hp in
/-- An `if` up to its first branch: what comes after may rely on the blocks that were made. -/
theorem lays_lowerIf_of {condition thenBranch : Node} {payload : Option String}
    {elseBranch : Option Node} {Q : Site → InstId → Prop} (hs : w.In w.current scope)
    (hl : w.Loc w.current loc)
    (h : ∀ b w' loc cond thenBlock elseBlock stop, Run w b [(thenBlock, some b.current),
        (elseBlock, some b.current), (stop, some b.current)] w' → b.In b.current scope →
      b.Loc b.current loc → b.Avail b.current cond → w'.state.stream.Ends w'.current →
      Lays env w' (do
        goto thenBlock
        let thenScope ← enterBranch node payload cond scope
        let value ← parts.expr thenBranch thenScope loc
        let incoming ← branchInto stop [] value scope false
        goto elseBlock
        let value ← lowerElse parts node elseBranch scope loc
        let incoming ← branchInto stop incoming value scope false
        joinAt stop incoming scope node) Q) :
    Lays env w (lowerIf parts node condition payload thenBranch elseBranch scope loc) Q := by
  refine lays_bind (lays_settle hs hl) fun w₁ loc _ ⟨le₁, hl⟩ => ?_
  refine lays_bind (hp.value (hs.to le₁.toBelow)) fun b cond _ ⟨le₂, hc⟩ => ?_
  have run := Run.of_le (le₁.trans le₂)
  refine lays_bind (lays_newBlock run b.current) fun w₃ thenBlock _ ⟨run, _⟩ => ?_
  refine lays_bind (lays_newBlock run b.current) fun w₄ elseBlock _ ⟨run, _⟩ => ?_
  refine lays_bind (lays_newBlock run b.current) fun w₅ stop _ ⟨run, _⟩ => ?_
  refine lays_bind (lays_emitTest (hc.to run.below)) fun w₆ test _ ⟨le₆, ht⟩ => ?_
  have run := run.le le₆
  refine lays_bind (lays_condBr (run.target (by simp)) (run.target (by simp)) ht)
    fun w₇ _ _ ⟨le₇, ends⟩ => ?_
  exact h b w₇ loc cond thenBlock elseBlock stop (run.le le₇) (hs.to (le₁.trans le₂).toBelow)
    (hl.to le₂.toBelow) hc ends

include hp in
theorem lays_lowerIf {condition thenBranch : Node} {payload : Option String}
    {elseBranch : Option Node} (hs : w.In w.current scope) (hl : w.Loc w.current loc) :
    Lays env w (lowerIf parts node condition payload thenBranch elseBranch scope loc) fun w' v =>
      w.Le w' ∧ w'.Avail w'.current v := by
  refine lays_lowerIf_of hp hs hl fun b w₇ loc cond thenBlock elseBlock stop run hs hl hc ends => ?_
  refine lays_bind (lays_goto [] run ends) fun w₈ _ _ run => ?_
  refine lays_bind (lays_enterBranch (hc.to run.below) (hs.to run.below))
    fun w₉ thenScope _ ⟨le₉, hthen⟩ => ?_
  have run := run.le le₉
  refine lays_bind (hp.expr hthen (hl.to run.below)) fun w₁₀ value _ ⟨le₁₀, hv⟩ => ?_
  have run := run.le le₁₀
  refine lays_bind (lays_branchInto (run.target (by simp)) arrive_nil hv)
    fun w₁₁ incoming _ ⟨le₁₁, ends, hi⟩ => ?_
  refine lays_bind (lays_goto [] (run.le le₁₁) ends) fun w₁₂ _ e₁₂ run => ?_
  refine lays_bind (lays_lowerElse hp (hs.to run.below) (hl.to run.below))
    fun w₁₃ value e₁₃ ⟨le₁₃, hv⟩ => ?_
  have run := run.le le₁₃
  refine lays_bind (lays_branchInto (run.target (by simp)) (hi.ext (e₁₂.trans e₁₃)) hv)
    fun w₁₄ incoming _ ⟨le₁₄, ends, hi⟩ => ?_
  exact lays_joinAt (run.le le₁₄) ends hi

include hp in
theorem lays_lowerCatch {lhs rhs : Node} {payload : Option String} (hs : w.In w.current scope)
    (hl : w.Loc w.current loc) :
    Lays env w (lowerCatch parts node lhs payload rhs scope loc) fun w' v =>
      w.Le w' ∧ w'.Avail w'.current v := by
  refine lays_bind (lays_settle hs hl) fun w₁ loc _ ⟨le₁, hl⟩ => ?_
  refine lays_bind (hp.value (hs.to le₁.toBelow)) fun b value _ ⟨le₂, hv⟩ => ?_
  have hs := hs.to (le₁.trans le₂).toBelow
  have hl := hl.to le₂.toBelow
  have run := Run.of_le (le₁.trans le₂)
  refine lays_bind (lays_emit_one rfl rfl hv) fun w₃ isErr _ ⟨le₃, he⟩ => ?_
  refine lays_bind (lays_newBlock (run.le le₃) b.current) fun w₄ errBlock _ ⟨run, h₄, _⟩ => ?_
  refine lays_bind (lays_newBlock run b.current) fun w₅ okBlock _ ⟨run, h₅, _⟩ => ?_
  refine lays_bind (lays_newBlock run b.current) fun w₆ stop _ ⟨run, h₆, _⟩ => ?_
  refine lays_bind (lays_condBr (run.target (by simp)) (run.target (by simp))
    (he.to ((h₄.trans h₅).trans h₆))) fun w₇ _ _ ⟨le₇, ends⟩ => ?_
  refine lays_bind (lays_goto [] (run.le le₇) ends) fun w₈ _ _ run => ?_
  refine lays_bind (lays_inner (hs.to run.below) rfl) fun w₉ handler _ ⟨le₉, hh, _⟩ => ?_
  have run := run.le le₉
  -- What is left once the scope of the handler is known.
  have rest : ∀ w₁₀ handler, w₉.Le w₁₀ → w₁₀.In w₁₀.current handler → Lays env w₁₀ (do
      let handled ← parts.expr rhs handler loc
      let incoming ← branchInto stop [] handled scope false
      goto okBlock
      let payload ← emitGen (.unwrapErrPayload value false) scope node.location
      let payload ← deliver payload loc scope node.location
      let incoming ← branchInto stop incoming payload scope false
      joinAt stop incoming scope node) fun w' v => w.Le w' ∧ w'.Avail w'.current v := by
    intro w₁₀ handler le₁₀ hh
    have run := run.le le₁₀
    refine lays_bind (hp.expr hh (hl.to run.below)) fun w₁₁ handled _ ⟨le₁₁, hv₁₁⟩ => ?_
    have run := run.le le₁₁
    refine lays_bind (lays_branchInto (run.target (by simp)) arrive_nil hv₁₁)
      fun w₁₂ incoming _ ⟨le₁₂, ends, hi⟩ => ?_
    refine lays_bind (lays_goto [] (run.le le₁₂) ends) fun w₁₃ _ e₁₃ run => ?_
    refine lays_bind (lays_emit_one rfl rfl (hv.to run.below))
      fun w₁₄ payload e₁₄ ⟨le₁₄, hp₁₄⟩ => ?_
    have run := run.le le₁₄
    refine lays_bind (lays_deliver (hs.to run.below) hp₁₄ (hl.to run.below))
      fun w₁₅ payload e₁₅ ⟨le₁₅, hp₁₅⟩ => ?_
    have run := run.le le₁₅
    refine lays_bind (lays_branchInto (run.target (by simp))
      (hi.ext ((e₁₃.trans e₁₄).trans e₁₅)) hp₁₅) fun w₁₆ incoming _ ⟨le₁₆, ends, hi⟩ => ?_
    exact lays_joinAt (run.le le₁₆) ends hi
  cases payload with
  | some name =>
    refine lays_bind (lays_emit_one rfl rfl (hv.to run.below)) fun w₁₀ code _ ⟨le₁₀, hcode⟩ => ?_
    refine lays_bind (lays_bindPayload hcode (hh.to le₁₀.toBelow))
      fun w₁₁ handler _ ⟨le₁₁, hh, _⟩ => ?_
    exact rest w₁₁ handler (le₁₀.trans le₁₁) hh
  | none => exact rest w₉ handler (.refl w₉) hh

include hp in
theorem lays_lowerOrElse {lhs rhs : Node} (hs : w.In w.current scope)
    (hl : w.Loc w.current loc) :
    Lays env w (lowerOrElse parts node lhs rhs scope loc) fun w' v =>
      w.Le w' ∧ w'.Avail w'.current v := by
  refine lays_bind (lays_settle hs hl) fun w₁ loc _ ⟨le₁, hl⟩ => ?_
  refine lays_bind (hp.value (hs.to le₁.toBelow)) fun b value _ ⟨le₂, hv⟩ => ?_
  have hs := hs.to (le₁.trans le₂).toBelow
  have hl := hl.to le₂.toBelow
  have run := Run.of_le (le₁.trans le₂)
  refine lays_bind (lays_emit_one rfl rfl hv) fun w₃ nonNull _ ⟨le₃, hn⟩ => ?_
  refine lays_bind (lays_newBlock (run.le le₃) b.current) fun w₄ okBlock _ ⟨run, h₄, _⟩ => ?_
  refine lays_bind (lays_newBlock run b.current) fun w₅ nullBlock _ ⟨run, h₅, _⟩ => ?_
  refine lays_bind (lays_newBlock run b.current) fun w₆ stop _ ⟨run, h₆, _⟩ => ?_
  refine lays_bind (lays_condBr (run.target (by simp)) (run.target (by simp))
    (hn.to ((h₄.trans h₅).trans h₆))) fun w₇ _ _ ⟨le₇, ends⟩ => ?_
  refine lays_bind (lays_goto [(okBlock, some b.current)] (run.le le₇) ends)
    fun w₈ _ _ run => ?_
  refine lays_bind (hp.expr (hs.to run.below) (hl.to run.below))
    fun w₉ fallback _ ⟨le₉, hv₉⟩ => ?_
  have run := run.le le₉
  refine lays_bind (lays_branchInto (run.target (by simp)) arrive_nil hv₉)
    fun w₁₀ incoming _ ⟨le₁₀, ends, hi⟩ => ?_
  refine lays_bind (lays_goto [] (run.le le₁₀) ends) fun w₁₁ _ e₁₁ run => ?_
  refine lays_bind (lays_emit_one rfl rfl (hv.to run.below)) fun w₁₂ inner e₁₂ ⟨le₁₂, hv₁₂⟩ => ?_
  have run := run.le le₁₂
  refine lays_bind (lays_deliver (hs.to run.below) hv₁₂ (hl.to run.below))
    fun w₁₃ inner e₁₃ ⟨le₁₃, hv₁₃⟩ => ?_
  have run := run.le le₁₃
  refine lays_bind (lays_branchInto (run.target (by simp))
    (hi.ext ((e₁₁.trans e₁₂).trans e₁₃)) hv₁₃) fun w₁₄ incoming _ ⟨le₁₄, ends, hi⟩ => ?_
  exact lays_joinAt (run.le le₁₄) ends hi

include hp in
theorem lays_lowerShortCircuit {op : BinaryOperator} {lhs rhs : Node}
    (hs : w.In w.current scope) (hl : w.Loc w.current loc) :
    Lays env w (lowerShortCircuit parts node op lhs rhs scope loc) fun w' v =>
      w.Le w' ∧ w'.Avail w'.current v := by
  refine lays_bind (hp.value hs) fun b left _ ⟨le₁, hleft⟩ => ?_
  have hb := hs.to le₁.toBelow
  have run := Run.of_le le₁
  refine lays_bind (lays_newBlock run b.current) fun w₂ rhsBlock _ ⟨run, _⟩ => ?_
  refine lays_bind (lays_newBlock run b.current) fun w₃ stop _ ⟨run, _⟩ => ?_
  refine lays_currentBlock_bind ?_
  have hleft := hleft.to run.below
  -- What is left once the branch is there.
  have rest : ∀ w₄, w₃.Le w₄ → w₄.state.stream.Ends w₄.current → Lays env w₄ (do
      goto rhsBlock
      let right ← parts.value rhs scope
      let incoming ← branchInto stop [(w₃.current, left)] right scope false
      let value ← joinAt stop incoming scope node
      deliver value loc scope node.location) fun w' v => w.Le w' ∧ w'.Avail w'.current v := by
    intro w₄ le₄ ends
    refine lays_bind (lays_goto [] (run.le le₄) ends) fun w₅ _ e₅ run => ?_
    refine lays_bind (hp.value (hb.to run.below)) fun w₆ right e₆ ⟨le₆, hright⟩ => ?_
    have run := run.le le₆
    have hsource : w₆.Arrive [(w₃.current, left)] := by
      intro f hf
      rw [List.mem_singleton.1 hf]
      exact hleft.ext ((le₄.toExt.trans e₅).trans e₆)
    refine lays_bind (lays_branchInto (run.target (by simp)) hsource hright)
      fun w₇ incoming _ ⟨le₇, ends, hi⟩ => ?_
    refine lays_bind (lays_joinAt (run.le le₇) ends hi) fun w₈ value _ ⟨le₈, hv⟩ => ?_
    refine lays_mono (lays_deliver (hs.to le₈.toBelow) hv (hl.to le₈.toBelow)) ?_
    exact fun w₉ v _ ⟨le₉, hv⟩ => ⟨le₈.trans le₉, hv⟩
  split
  · exact lays_bind (lays_condBr (run.target (by simp)) (run.target (by simp)) hleft)
      fun w₄ _ _ ⟨le₄, ends⟩ => rest w₄ le₄ ends
  · exact lays_bind (lays_condBr (run.target (by simp)) (run.target (by simp)) hleft)
      fun w₄ _ _ ⟨le₄, ends⟩ => rest w₄ le₄ ends

/-! ### Loops -/

/-- The blocks of a loop that are gone to after its test, with their parents. -/
def LoopBlocks.rest (blocks : LoopBlocks) (q step : Option BlockId) :
    List (BlockId × Option BlockId) :=
  [(blocks.body, q), (blocks.step, step), (blocks.orElse, q), (blocks.stop, q)]

/-- Only the test is led to from where the blocks of a loop are made; where the others stand is
decided at the end of the test. -/
theorem lays_newLoop {word : String} (le : w.Le b) :
    Lays env b (newLoop word) fun w' blocks =>
      Run w b ((blocks.test, some b.current) :: blocks.rest none none) w' := by
  refine lays_bind (lays_newBlock (.of_le le) b.current) fun w₁ test _ ⟨run, _⟩ => ?_
  refine lays_bind (lays_newBlock run none) fun w₂ body _ ⟨run, _⟩ => ?_
  refine lays_bind (lays_newBlock run none) fun w₃ step _ ⟨run, _⟩ => ?_
  refine lays_bind (lays_newBlock run none) fun w₄ orElse _ ⟨run, _⟩ => ?_
  refine lays_bind (lays_newBlock run none) fun w₅ stop _ ⟨run, _⟩ => ?_
  exact lays_pure run

/-- At the end of the test, the body of a loop and what comes after it get their parent. -/
theorem lays_adoptLoop {blocks : LoopBlocks} (run : Run w₀ b (blocks.rest none none) w)
    (h : ∀ b', Below w b' → Run w₀ b' (blocks.rest b'.current none) b' → Lays env b' x Q) :
    Lays env w x Q := by
  let c := w.current
  refine lays_adopt [] c run fun h₁ run => ?_
  refine lays_adopt [(blocks.body, some c), (blocks.step, none)] c run fun h₂ run => ?_
  refine lays_adopt [(blocks.body, some c), (blocks.step, none), (blocks.orElse, some c)] c run
    fun h₃ run => ?_
  exact h _ ((h₁.trans h₂).trans h₃) run.rebase

/-- The scope of a loop may be used where its last blocks may be gone to. -/
theorem lays_enterLoop {label : Option String} {blocks : LoopBlocks} (hs : w.In w.current scope)
    (hl : w.Loc w.current loc) (hstop : w.Target w.current blocks.stop)
    (hstep : w.Target w.current blocks.step) :
    Lays env w (enterLoop scope label blocks loc) fun w' loopScope =>
      w.Le w' ∧ w'.In w'.current loopScope := by
  refine lays_openTarget_bind hs.index fun w' loopScope le _ hloop => lays_pure ⟨le, ?_⟩
  refine (hloop _ hs (fun t ht => ?_) hl).below le.above
  rcases List.mem_pair.1 ht with rfl | rfl
  · exact hstop
  · exact hstep

include hp in
theorem lays_finishLoop {loopScope : ScopeId} {elseBranch : Option Node} {blocks : LoopBlocks}
    {force : Bool} (hs : b.In b.current scope) (hl : b.Loc b.current loc)
    (run : Run w₀ b [(blocks.orElse, some b.current), (blocks.stop, some b.current)] w)
    (ends : w.state.stream.Ends w.current) :
    Lays env w (finishLoop parts node loopScope elseBranch blocks scope loc force) fun w' v =>
      w₀.Le w' ∧ w'.Avail w'.current v := by
  refine lays_bind (lays_goto [] run ends) fun w₁ _ _ run => ?_
  refine lays_bind (lays_lowerElse hp (hs.to run.below) (hl.to run.below))
    fun w₂ value _ ⟨le₂, hv⟩ => ?_
  refine lays_bind lays_closeSink fun w₃ incoming _ ⟨le₃, _, hi⟩ => ?_
  have run := (run.le le₂).le le₃
  refine lays_bind (lays_branchInto (run.target (by simp)) hi (hv.to le₃.toBelow))
    fun w₄ incoming _ ⟨le₄, ends, hi⟩ => ?_
  exact lays_joinAt (run.le le₄) ends hi

include hp in
/-- A loop up to its last two blocks: what comes after may rely on them. -/
theorem lays_lowerWhile_of {label : Option String} {condition : Node} {payload : Option String}
    {continueExpr : Option Node} {body : Node} {elseBranch : Option Node} {isInline : Bool}
    {Q : Site → InstId → Prop} (hs : w.In w.current scope) (hl : w.Loc w.current loc)
    (h : ∀ b w' loc loopScope blocks, Run w b [(blocks.orElse, some b.current),
        (blocks.stop, some b.current)] w' → b.In b.current scope → b.Loc b.current loc →
      w'.state.stream.Ends w'.current →
      Lays env w' (finishLoop parts node loopScope elseBranch blocks scope loc isInline) Q) :
    Lays env w (lowerWhile parts node label condition payload continueExpr body elseBranch isInline
      scope loc) Q := by
  refine lays_bind (lays_settle hs hl) fun w₁ loc _ ⟨le₁, hl⟩ => ?_
  have hs := hs.to le₁.toBelow
  refine lays_bind (lays_newLoop le₁) fun w₂ blocks _ run => ?_
  have htest : w₂.Target w₁.current blocks.test := run.target_parent (by simp)
  refine lays_bind (lays_jump (run.target (by simp))) fun w₃ _ e₃ ⟨le₃, _, ends⟩ => ?_
  refine lays_bind (lays_goto [] (run.le le₃) ends) fun w₄ _ e₄ run => ?_
  refine lays_bind (hp.value (hs.to run.below)) fun w₅ cond e₅ ⟨le₅, hc⟩ => ?_
  refine lays_bind (lays_emitTest hc) fun w₆ test e₆ ⟨le₆, ht⟩ => ?_
  have run := (run.le le₅).le le₆
  refine lays_adoptLoop run fun b hb run' => ?_
  have hbelow := run.below.trans hb
  have htest : b.Target b.current blocks.test :=
    (htest.ext ((((e₃.trans e₄).trans e₅).trans e₆).trans hb.toExt)).below hbelow.above
  have hs := hs.to hbelow
  have hl := hl.to hbelow
  have hc := hc.to (le₆.toBelow.trans hb)
  have run := run'
  refine lays_bind (lays_condBr (run.target (by simp [LoopBlocks.rest]))
    (run.target (by simp [LoopBlocks.rest])) (ht.to hb)) fun w₇ _ _ ⟨le₇, ends⟩ => ?_
  refine lays_bind (lays_goto [] (run.le le₇) ends) fun c _ _ run => ?_
  refine lays_adopt [] c.current run fun _ run => ?_
  have hstep : (c.adopt blocks.step c.current).Target c.current blocks.step :=
    run.target_parent (by simp)
  refine lays_bind (lays_stay stays_enterLoop (lays_enterLoop (hs.to run.below)
    (hl.to run.below) (run.target (by simp)) hstep)) fun w₉ loopScope _ ⟨h₉, le₉, hloop⟩ => ?_
  have run := run.le le₉
  refine lays_bind (lays_stay stays_enterBranch (lays_enterBranch (hc.to run.below) hloop))
    fun w₁₀ bodyScope _ ⟨h₁₀, le₁₀, hbody⟩ => ?_
  have run := run.le le₁₀
  have hbelow := run.below
  -- What comes after the body stands below it, where the capture is declared.
  have hcur : w₁₀.current = c.current := h₁₀.trans h₉
  have run := run.rebase
  rw [← hcur] at run
  refine lays_bind (hp.expr hbody nofun) fun w₁₁ _ _ ⟨le₁₁, _⟩ => ?_
  have run := run.le le₁₁
  refine lays_bind (lays_jumpUnlessTerminated (run.target (by simp)))
    fun w₁₂ _ _ ⟨le₁₂, ends⟩ => ?_
  refine lays_bind (lays_goto [] (run.le le₁₂) ends) fun w₁₃ _ _ run => ?_
  have hbody := hbody.to run.below
  have run := run.at_site run'.start (hbelow.trans run.below)
  -- What is left once the continue expression is there.
  have rest : ∀ w₁₄, w₁₃.Le w₁₄ → Lays env w₁₄ (do
      jumpUnlessTerminated blocks.test node scope isInline
      finishLoop parts node loopScope elseBranch blocks scope loc isInline) Q := by
    intro w₁₄ le₁₄
    have run := run.le le₁₄
    refine lays_bind (lays_jumpUnlessTerminated (htest.to run.below))
      fun w₁₅ _ _ ⟨le₁₅, ends⟩ => ?_
    exact h b w₁₅ loc loopScope blocks (run.le le₁₅) hs hl ends
  cases continueExpr with
  | some expr => exact lays_bind (hp.expr hbody nofun) fun w₁₄ _ _ ⟨le₁₄, _⟩ => rest w₁₄ le₁₄
  | none => exact rest w₁₃ (.refl w₁₃)

include hp in
theorem lays_lowerWhile {label : Option String} {condition : Node} {payload : Option String}
    {continueExpr : Option Node} {body : Node} {elseBranch : Option Node} {isInline : Bool}
    (hs : w.In w.current scope) (hl : w.Loc w.current loc) :
    Lays env w (lowerWhile parts node label condition payload continueExpr body elseBranch isInline
      scope loc) fun w' v => w.Le w' ∧ w'.Avail w'.current v :=
  lays_lowerWhile_of hp hs hl fun _ _ _ _ _ run hs hl ends => lays_finishLoop hp hs hl run ends

include hp in
/-- A loop over elements up to its last two blocks. -/
theorem lays_lowerFor_of {label : Option String} {iterable : Node} {item : String}
    {index : Option String} {body : Node} {elseBranch : Option Node} {isInline : Bool}
    {Q : Site → InstId → Prop} (hs : w.In w.current scope) (hl : w.Loc w.current loc)
    (h : ∀ b w' loc loopScope blocks, Run w b [(blocks.orElse, some b.current),
        (blocks.stop, some b.current)] w' → b.In b.current scope → b.Loc b.current loc →
      w'.state.stream.Ends w'.current →
      Lays env w' (finishLoop parts node loopScope elseBranch blocks scope loc isInline) Q) :
    Lays env w (lowerFor parts node label iterable item index body elseBranch isInline scope loc)
      Q := by
  refine lays_bind (lays_settle hs hl) fun w₁ loc _ ⟨le₁, hl⟩ => ?_
  refine lays_bind (hp.value (hs.to le₁.toBelow)) fun w₂ array _ ⟨le₂, ha⟩ => ?_
  refine lays_bind (lays_emit_one rfl rfl ha) fun w₃ lengthPtr _ ⟨le₃, hlp⟩ => ?_
  refine lays_bind (lays_emit_one rfl rfl hlp) fun w₄ length _ ⟨le₄, hlen⟩ => ?_
  refine lays_bind (lays_emit_nil rfl rfl) fun w₅ indexPtr _ ⟨le₅, hip⟩ => ?_
  refine lays_bind (lays_emit_nil rfl rfl) fun w₆ zero _ ⟨le₆, hz⟩ => ?_
  refine lays_bind (lays_emit_two rfl rfl (hip.to le₆.toBelow) hz) fun w₇ _ _ ⟨le₇, _⟩ => ?_
  have le := ((((le₂.trans le₃).trans le₄).trans le₅).trans le₆).trans le₇
  have hs := hs.to (le₁.trans le).toBelow
  have hl := hl.to le.toBelow
  have ha := ha.to ((((le₃.trans le₄).trans le₅).trans le₆).trans le₇).toBelow
  have hlen := hlen.to ((le₅.trans le₆).trans le₇).toBelow
  have hip := hip.to (le₆.trans le₇).toBelow
  refine lays_bind (lays_newLoop (le₁.trans le)) fun w₈ blocks _ run => ?_
  have htest : w₈.Target w₇.current blocks.test := run.target_parent (by simp)
  refine lays_bind (lays_jump (run.target (by simp))) fun w₉ _ e₉ ⟨le₉, _, ends⟩ => ?_
  refine lays_bind (lays_goto [] (run.le le₉) ends) fun w₁₀ _ e₁₀ run => ?_
  refine lays_bind (lays_emit_one rfl rfl (hip.to run.below))
    fun w₁₁ position e₁₁ ⟨le₁₁, hpos⟩ => ?_
  have run := run.le le₁₁
  refine lays_bind (lays_emit_two rfl rfl hpos (hlen.to run.below))
    fun w₁₂ inBounds e₁₂ ⟨le₁₂, hin⟩ => ?_
  have run := run.le le₁₂
  refine lays_adoptLoop run fun b hb run' => ?_
  have hbelow := run.below.trans hb
  have htest : b.Target b.current blocks.test :=
    (htest.ext ((((e₉.trans e₁₀).trans e₁₁).trans e₁₂).trans hb.toExt)).below hbelow.above
  have hs := hs.to hbelow
  have hl := hl.to hbelow
  have ha := ha.to hbelow
  have hip := hip.to hbelow
  have hpos := hpos.to (le₁₂.toBelow.trans hb)
  have run := run'
  refine lays_bind (lays_condBr (run.target (by simp [LoopBlocks.rest]))
    (run.target (by simp [LoopBlocks.rest])) (hin.to hb)) fun w₁₃ _ _ ⟨le₁₃, ends⟩ => ?_
  refine lays_bind (lays_goto [] (run.le le₁₃) ends) fun c _ _ run => ?_
  refine lays_adopt [] c.current run fun _ run => ?_
  have hstep : (c.adopt blocks.step c.current).Target c.current blocks.step :=
    run.target_parent (by simp)
  refine lays_bind (lays_enterLoop (hs.to run.below) (hl.to run.below) (run.target (by simp))
    hstep) fun w₁₅ loopScope _ ⟨le₁₅, hloop⟩ => ?_
  have hbelow := run.below
  -- What comes after the body stands below the block in which the body starts.
  have run := run.rebase.le le₁₅
  have hb₁₅ := hbelow.trans run.below
  refine lays_bind (lays_emit_two rfl rfl (ha.to hb₁₅) (hpos.to hb₁₅))
    fun w₁₆ elementPtr _ ⟨le₁₆, hep⟩ => ?_
  refine lays_bind (lays_emit_one rfl rfl hep) fun w₁₇ element _ ⟨le₁₇, hel⟩ => ?_
  have hloop := hloop.to (le₁₆.trans le₁₇).toBelow
  refine lays_bind (lays_bindPayload hel hloop) fun w₁₈ bodyScope _ ⟨le₁₈, hbody, hindex⟩ => ?_
  have run := (run.le le₁₆).le le₁₇
  have hb₁₈ := (hbelow.trans run.below).trans le₁₈.toBelow
  refine lays_declareVar_bind hbody (fun v hv => ?_) (hip.to hb₁₈) fun w₂₀ _ le₂₀ => ?_
  · cases index <;> cases hv <;> exact hpos.to hb₁₈
  have run := run.le (le₁₈.trans_from le₂₀ hindex)
  refine lays_bind (hp.expr (hbody.along le₂₀) nofun) fun w₂₁ _ _ ⟨le₂₁, _⟩ => ?_
  have run := run.le le₂₁
  refine lays_bind (lays_jumpUnlessTerminated (run.target (by simp)))
    fun w₂₂ _ _ ⟨le₂₂, ends⟩ => ?_
  refine lays_bind (lays_goto [] (run.le le₂₂) ends) fun w₂₃ _ _ run => ?_
  have run := run.at_site run'.start (hbelow.trans run.below)
  refine lays_bind (lays_of_holds (holds_stepIndex (hs.to run.below) (hip.to run.below)))
    fun w₂₄ _ _ ⟨le₂₄, _⟩ => ?_
  have run := run.le le₂₄
  refine lays_bind (lays_jump (htest.to run.below)) fun w₂₅ _ _ ⟨le₂₅, _, ends⟩ => ?_
  exact h b w₂₅ loc loopScope blocks (run.le le₂₅) hs hl ends

include hp in
theorem lays_lowerFor {label : Option String} {iterable : Node} {item : String}
    {index : Option String} {body : Node} {elseBranch : Option Node} {isInline : Bool}
    (hs : w.In w.current scope) (hl : w.Loc w.current loc) :
    Lays env w (lowerFor parts node label iterable item index body elseBranch isInline scope loc)
      fun w' v => w.Le w' ∧ w'.Avail w'.current v :=
  lays_lowerFor_of hp hs hl fun _ _ _ _ _ run hs hl ends => lays_finishLoop hp hs hl run ends

/-! ### Jumps -/

theorem Site.In.leaves_eq (hs : w.In w.current scope) {target : Option ScopeId} {w' : Site}
    (e : Ext w w') : w'.state.scopes.leaves w'.state.streamRoot scope target =
      w.state.scopes.leaves w.state.streamRoot scope target := by
  rw [e.root, e.scopes.leaves_eq hs.index]

/-- A way out that is taken unless the deferred expressions end the block. -/
theorem lays_unlessTerminated {x : LowerM InstId}
    (hx : Lays env w x fun w' v => w₀.Le w' ∧ w'.Avail w'.current v) (le : w₀.Le w) :
    Lays env w (do if ← isTerminated then lastInst else x) fun w' v =>
      w₀.Le w' ∧ w'.Avail w'.current v := by
  refine lays_isTerminated_bind ?_
  split
  next h => exact lays_mono (lays_lastInst h) fun w' v _ ⟨le', hv⟩ => ⟨le.trans le', hv⟩
  next => exact hx

include hp in
theorem lays_lowerBreak {label : Option String} {value : Option Node}
    (hs : w.In w.current scope) :
    Lays env w (lowerBreak parts node label value scope) fun w' v =>
      w.Le w' ∧ w'.Avail w'.current v := by
  intro hw v s' hr
  obtain ⟨target, z, stop, hleads, hstop, hr⟩ := returns_lowerBreak hr
  have hmem := hleads.mem_inside hw.scopes hw.root (mem_exits_of_breakBlock? hstop)
  have ht := hs.target _ hmem stop (mem_exits_of_breakBlock? hstop)
  have hl : w.Loc w.current (((w.state.sinks.lookup target).map (·.resultLoc)).getD .none) := by
    cases h : w.state.sinks.lookup target with
    | none => exact nofun
    | some sink => exact hs.sink _ hmem sink h
  -- What is left once the value is there.
  have rest : ∀ w₁ v, w.Le w₁ → w₁.Avail w₁.current v → Lays env w₁ (do
      runDefers parts scope (some target) .normal
      if ← isTerminated then lastInst
      else
        flowInto target v
        emit (.br stop) scope node.location) fun w' v => w.Le w' ∧ w'.Avail w'.current v := by
    intro w₁ v le₁ hv
    have hleaves := (hs.leaves_eq le₁.toExt).trans hleads.stays
    refine lays_bind (lays_runDefers hp (hs.to le₁.toBelow) hleaves) fun w₂ _ _ le₂ => ?_
    refine lays_unlessTerminated ?_ (le₁.trans le₂)
    refine lays_bind (lays_flowInto (hv.to le₂.toBelow)) fun w₃ _ _ le₃ => ?_
    have le := (le₁.trans le₂).trans le₃
    exact lays_mono (lays_jump (ht.to le.toBelow)) fun w' v _ ⟨le', hv, _⟩ => ⟨le.trans le', hv⟩
  cases value with
  | some value =>
    exact lays_bind (hp.expr hs hl) (fun w₁ v _ ⟨le₁, hv⟩ => rest w₁ v le₁ hv) hw v s' hr
  | none => exact lays_bind lays_emitVoid (fun w₁ v _ ⟨le₁, hv⟩ => rest w₁ v le₁ hv) hw v s' hr

include hp in
theorem lays_lowerContinue {label : Option String} (hs : w.In w.current scope) :
    Lays env w (lowerContinue parts node label scope) fun w' v =>
      w.Le w' ∧ w'.Avail w'.current v := by
  intro hw v s' hr
  obtain ⟨target, z, step, hleads, hstep, hr⟩ := returns_lowerContinue hr
  have hstep := mem_exits_of_continueBlock? hstep
  have ht := hs.target _ (hleads.mem_inside hw.scopes hw.root hstep) step hstep
  refine lays_bind (Q := fun w' v => w.Le w' ∧ w'.Avail w'.current v)
    (lays_runDefers hp hs hleads.stays) (fun w₁ _ _ le₁ => ?_) hw v s' hr
  refine lays_unlessTerminated ?_ le₁
  exact lays_mono (lays_jump (ht.to le₁.toBelow)) fun w' v _ ⟨le', hv, _⟩ => ⟨le₁.trans le', hv⟩

/-- Where the function may be left, the way out does not leave the stream. -/
theorem lays_checkFnExit_bind {exit : FnExit} {f : PUnit → LowerM α}
    (h : w.state.scopes.leaves w.state.streamRoot scope none = false → Lays env w (f ⟨⟩) Q) :
    Lays env w (checkFnExit node scope exit >>= f) Q := by
  intro hw a s' hr
  obtain ⟨_, t, h₁, hr⟩ := returns_bind.1 hr
  obtain ⟨rfl, -, hleaves, -⟩ := returns_checkFnExit h₁
  exact h hleaves hw a s' hr

/-- A return, unless the deferred expressions end the block, and what comes in the next block. -/
theorem lays_retUnlessTerminated {x : LowerM α} {gen : Bool} (hv : w.Avail w.current v)
    (hx : ∀ w', w.Le w' → w'.state.stream.Ends w'.current → Lays env w' x Q) :
    Lays env w (do
      if !(← isTerminated) then
        let _ ← emitWith (.ret (some v)) scope location false gen
      x) Q := by
  refine lays_of_good fun hw => lays_isTerminated_bind ?_
  split
  · refine lays_bind (lays_ret ?_) fun w₁ _ _ ⟨le₁, _, ends⟩ => hx w₁ le₁ ends
    rintro u ⟨⟩
    exact hv
  next h => exact hx w (.refl w) (hw.ends (by simpa using h))

include hp in
theorem lays_emitErrReturn (hv : w.Avail w.current v) (hs : w.In w.current scope)
    (hleaves : w.state.scopes.leaves w.state.streamRoot scope none = false) :
    Lays env w (emitErrReturn parts node v scope) fun w' _ => w.Le w' := by
  have run := Run.of_le (.refl w)
  refine lays_bind (lays_emit_one rfl rfl hv) fun w₁ isErr _ ⟨le₁, he⟩ => ?_
  refine lays_bind (lays_newBlock (run.le le₁) w.current) fun w₂ errBlock _ ⟨run, h₂, _⟩ => ?_
  refine lays_bind (lays_newBlock run w.current) fun w₃ okBlock _ ⟨run, h₃, _⟩ => ?_
  refine lays_bind (lays_condBr (run.target (by simp)) (run.target (by simp))
    (he.to (h₂.trans h₃))) fun w₄ _ _ ⟨le₄, ends⟩ => ?_
  refine lays_bind (lays_goto [] (run.le le₄) ends) fun w₅ _ _ run => ?_
  have hleaves := (hs.leaves_eq run.below.toExt).trans hleaves
  refine lays_bind (lays_runDefers hp (hs.to run.below) hleaves) fun w₆ _ _ le₆ => ?_
  have run := run.le le₆
  refine lays_retUnlessTerminated (hv.to run.below) fun w₇ le₇ ends => ?_
  exact lays_mono (lays_goto [] (run.le le₇) ends) fun _ _ _ run => run.done

include hp in
/-- The way out of the function for an operand that is no error. -/
theorem lays_leaveWith {operand : Option InstId} (hs : w.In w.current scope)
    (hleaves : w.state.scopes.leaves w.state.streamRoot scope none = false)
    (ho : ∀ v ∈ operand, w.Avail w.current v) :
    Lays env w (do
      runDefers parts scope none .normal
      if ← isTerminated then lastInst else emit (.ret operand) scope location)
      fun w' v => w.Le w' ∧ w'.Avail w'.current v := by
  refine lays_bind (lays_runDefers hp hs hleaves) fun w₁ _ _ le₁ => ?_
  refine lays_unlessTerminated ?_ le₁
  refine lays_mono (lays_ret fun v hv => (ho v hv).to le₁.toBelow) ?_
  exact fun w' v _ ⟨le', hv, _⟩ => ⟨le₁.trans le', hv⟩

include hp in
/-- The ways out of the function for an operand: the errors are taken care of first. -/
theorem lays_returnOperand {operand : Option InstId} (hs : w.In w.current scope)
    (hleaves : w.state.scopes.leaves w.state.streamRoot scope none = false)
    (ho : ∀ v ∈ operand, w.Avail w.current v) :
    Lays env w (do
      match if passesErrDefer (← scopesFrom scope) scope then operand else none with
      | some value => emitErrReturn parts node value scope
      | none => pure ⟨⟩
      runDefers parts scope none .normal
      if ← isTerminated then lastInst else emit (.ret operand) scope location)
      fun w' v => w.Le w' ∧ w'.Avail w'.current v := by
  refine lays_scopesFrom_bind ?_
  split
  next value h =>
    have hv : value ∈ operand := by
      split at h
      · exact h
      · cases h
    refine lays_bind (lays_emitErrReturn hp (ho value hv) hs hleaves) fun w₁ _ _ le₁ => ?_
    refine lays_mono (lays_leaveWith hp (hs.to le₁.toBelow)
      ((hs.leaves_eq le₁.toExt).trans hleaves) fun v hv => (ho v hv).to le₁.toBelow) ?_
    exact fun w' v _ ⟨le', hv⟩ => ⟨le₁.trans le', hv⟩
  next => exact lays_leaveWith hp hs hleaves ho

include hp in
theorem lays_lowerReturn {value : Option Node} (hs : w.In w.current scope) :
    Lays env w (lowerReturn parts node value scope) fun w' v =>
      w.Le w' ∧ w'.Avail w'.current v := by
  refine lays_checkFnExit_bind fun hleaves => ?_
  cases value with
  | some value =>
    have hvalue : Lays env w (some <$> parts.expr value scope .ret) fun w' operand =>
        w.Le w' ∧ ∀ v ∈ operand, w'.Avail w'.current v := by
      rw [map_eq_pure_bind]
      refine lays_bind (hp.expr hs nofun) fun w₁ v _ h => lays_pure ⟨h.1, ?_⟩
      rintro u ⟨⟩
      exact h.2
    refine lays_bind hvalue fun w₁ operand _ ⟨le₁, ho⟩ => ?_
    refine lays_mono (lays_returnOperand hp (hs.to le₁.toBelow)
      ((hs.leaves_eq le₁.toExt).trans hleaves) ho) ?_
    exact fun w' v _ ⟨le', hv⟩ => ⟨le₁.trans le', hv⟩
  | none => exact lays_returnOperand hp hs hleaves (by simp)

include hp in
theorem lays_lowerTry {expr : Node} (hs : w.In w.current scope) (hl : w.Loc w.current loc) :
    Lays env w (lowerTry parts node expr scope loc) fun w' v =>
      w.Le w' ∧ w'.Avail w'.current v := by
  refine lays_checkFnExit_bind fun hleaves => ?_
  refine lays_bind (hp.value hs) fun b value _ ⟨le₁, hv⟩ => ?_
  have hleaves := (hs.leaves_eq le₁.toExt).trans hleaves
  have hs := hs.to le₁.toBelow
  have hl := hl.to le₁.toBelow
  refine lays_bind (lays_emit_one rfl rfl hv) fun w₂ isErr _ ⟨le₂, he⟩ => ?_
  have run := (Run.of_le le₁).le le₂
  refine lays_bind (lays_newBlock run b.current) fun w₃ errBlock _ ⟨run, h₃, _⟩ => ?_
  refine lays_bind (lays_newBlock run b.current) fun w₄ okBlock _ ⟨run, h₄, _⟩ => ?_
  refine lays_bind (lays_condBr (run.target (by simp)) (run.target (by simp))
    (he.to (h₃.trans h₄))) fun w₅ _ _ ⟨le₅, ends⟩ => ?_
  refine lays_bind (lays_goto [] (run.le le₅) ends) fun w₆ _ _ run => ?_
  refine lays_bind (lays_emit_one rfl rfl (hv.to run.below)) fun w₇ code _ ⟨le₇, hcode⟩ => ?_
  have run := run.le le₇
  have hleaves := (hs.leaves_eq run.below.toExt).trans hleaves
  refine lays_bind (lays_runDefers hp (hs.to run.below) hleaves) fun w₈ _ _ le₈ => ?_
  have run := run.le le₈
  refine lays_retUnlessTerminated (hcode.to le₈.toBelow) fun w₉ le₉ ends => ?_
  refine lays_bind (lays_goto [] (run.le le₉) ends) fun w₁₀ _ _ run => ?_
  refine lays_bind (lays_emit_one rfl rfl (hv.to run.below)) fun w₁₁ payload _ ⟨le₁₁, hp₁₁⟩ => ?_
  have run := run.le le₁₁
  refine lays_mono (lays_deliver (hs.to run.below) hp₁₁ (hl.to run.below))
    fun w₁₂ v _ ⟨le₁₂, hv⟩ => ?_
  exact ⟨run.done.trans le₁₂, hv⟩

/-! ### Streams inside streams -/

/-- A routine over a fresh stream that it leaves with an end, and the instruction that evaluates the
stream. -/
theorem lays_evaluate_bind {name : String} {root : ScopeId} {x : LowerM β} {force gen : Bool}
    {f : Nat × Option β → LowerM α} {g : InstId → LowerM α} (hs : w.In w.current scope)
    (hroot : ∃ y, w.state.scopes.scope? root = some y ∧ exits y.kind = [])
    (hempty : ∀ v y, w.state.scopes.var? v = some y → y.scope.index < root.index)
    (hparent : ∀ q, w.state.scopes.OnChain q root → q ≠ root → w.state.scopes.OnChain q scope)
    (hx : ∀ w', w'.In w'.current root → Lays env w' x fun w'' _ =>
      w'.Le w'' ∧ w''.state.stream.Ends w''.current)
    (hnone : ∀ index, f (index, none) = throw .poisoned)
    (hsome : ∀ index b,
      f (index, some b) = emitWith (.comptimeBlock index) scope location force gen >>= g)
    (hg : ∀ w' v, w.Le w' → w'.Avail w'.current v → Lays env w' (g v) Q) :
    Lays env w (inChildStream name root x >>= f) Q := by
  intro hw a s'' hr
  obtain ⟨⟨index, r⟩, s', hchild, hr⟩ := returns_bind.1 hr
  rw [Returns, outcome_inChildStream] at hchild
  split at hchild
  next b t hb =>
    cases hchild
    let start : Site := Site.start (w.state.inChild name root)
    have hrootlt : root.index < w.state.scopes.scopes.size := by
      obtain ⟨y, hy, -⟩ := hroot
      exact (Array.getElem?_eq_some_iff.1 hy).1
    have hstart : start.Good := good_start rfl rfl hw.recorded hroot hempty
    obtain ⟨w₁, rfl, hw₁, e₁, le₁, ends⟩ :=
      hx start (in_start rfl hw.scopes hrootlt) hstart b _ hb
    have hclosed := hw₁.closed (fun t ht => by rwa [le₁.pending] at ht) ends
    rw [hsome] at hr
    obtain ⟨v, t, hemit, hr⟩ := returns_bind.1 hr
    -- The site around the child, and the one after the instruction.
    obtain ⟨log, hlog⟩ : ∃ log, w.state.around w₁.state = (w.withChild w₁.state log).state :=
      ⟨_, rfl⟩
    let w₂ := w.withChild w₁.state log
    let w₃ := w₂.withNext (.comptimeBlock w.state.stream.children.length) scope location
      (force || isComptimeIn w₂.state.stream w₂.state.scopes scope) gen
      (log.push (.appended w₂.state.stream.name w₂.state.stream.next
        (.comptimeBlock w.state.stream.children.length)))
    have hscopes : w.state.scopes.Grows w₁.state.scopes := e₁.scopes
    have hvars : ∀ (i : Nat) (x : Variable), w.state.scopes.vars[i]? = some x →
      w₁.state.scopes.vars[i]? = some x := e₁.vars
    have hcur : w₂.current = w.current := current_withChild
    have e : Ext w w₃ := (ext_withChild hscopes hvars).trans ext_withNext
    have hgood : w₃.Good := hw.evaluating hs hw₁ (hw₁.parts hclosed) e₁.base hscopes hvars
      (e₁.root ▸ hrootlt) (e₁.root ▸ hparent)
    have hshape : w₂.Shape := hw.toShape.withChild hscopes hw₁.scopes (hw₁.parts hclosed)
    rw [hlog] at hemit
    obtain ⟨hv, rfl⟩ := Prod.mk.inj (hemit.symm.trans (outcome_emitWith hemit.fault?_eq_none
      (fun _ h => absurd h List.not_mem_nil) hshape.laid.coherent.current))
    obtain rfl := Except.ok.inj hv
    have le : w.Le w₃ := ⟨⟨e, hcur ▸ .refl,
      declaresInside_evaluating le₁.declares rfl rfl rfl⟩, rfl, fun _ _ => rfl⟩
    obtain ⟨w', rfl, hw', e', hQ⟩ := hg w₃ _ le avail_withNext hgood a s'' hr
    exact ⟨w', rfl, hw', e.trans e', hQ⟩
  next =>
    cases hchild
    rw [hnone] at hr
    exact absurd hr not_returns_throw
  next => cases hchild

/-- The body of a compile-time block ends with its value. -/
theorem lays_lowerComptimeBody (hp : LayParts env parts) {expr : Node}
    (hs : w.In w.current scope) :
    Lays env w (lowerComptimeBody parts node expr scope) fun w' _ =>
      w.Le w' ∧ w'.state.stream.Ends w'.current := by
  refine lays_bind (hp.value hs) fun w₁ value _ ⟨le₁, hv⟩ => ?_
  refine lays_of_good fun hw => lays_isTerminated_bind ?_
  split
  · refine lays_bind (lays_ret ?_) fun w₂ _ _ ⟨le₂, _, ends⟩ => lays_pure ⟨le₁.trans le₂, ends⟩
    rintro u ⟨⟩
    exact hv
  next h => exact lays_pure ⟨le₁, hw.ends (by simpa using h)⟩

/-- So does it while the evaluation of the block is open. -/
theorem lays_framedBody (hp : LayParts env parts) {expr : Node} (hs : w.In w.current scope) :
    Lays env w (withFrame node.location "comptime block" (lowerComptimeBody parts node expr scope))
      fun w' _ => w.Le w' ∧ w'.state.stream.Ends w'.current := by
  refine lays_mono (lays_withFrame w.state.scopes.scopes.size (fun w' le _ => ?_)
    fun w' a state _ q ends => ?_) fun w' _ _ h => ⟨h.1.le (Nat.le_refl _), h.2⟩
  · exact lays_mono (lays_lowerComptimeBody hp (hs.along le)) fun _ _ _ h =>
      ⟨h.1.from le.scopes.size_le, h.2⟩
  · rwa [current, q.stream]

include hp in
theorem lays_lowerComptime {expr : Node} (hs : w.In w.current scope)
    (hl : w.Loc w.current loc) :
    Lays env w (lowerComptime parts node expr scope loc) fun w' v =>
      w.Le w' ∧ w'.Avail w'.current v := by
  refine lays_of_good fun hw => ?_
  refine lays_bind (lays_inner hs rfl) fun w₁ inner _ ⟨le₁, hi, _, ho⟩ => ?_
  refine lays_bind (R := fun w' _ => w' = w₁)
    (lays_scopesFrom_bind (lays_get_bind (lays_pure rfl))) ?_
  rintro w₁' atComptime - rfl
  split
  · exact lays_mono (hp.expr hi (hl.to le₁.toBelow)) fun w₂ v _ ⟨le₂, hv⟩ => ⟨le₁.trans le₂, hv⟩
  refine lays_get_bind ?_
  dsimp only
  have hs₁ := hs.to le₁.toBelow
  refine lays_evaluate_bind hs₁ ⟨_, ho.scope?, rfl⟩ (fun v y hy => ?_) (fun q hq hne => ?_)
    (fun w' hin => lays_framedBody hp hin) (fun _ => rfl) (fun _ _ => rfl) fun w₂ v le₂ hv => ?_
  · -- The scope of the child stream is the last one.
    rw [ScopeTree.var?, ho.vars] at hy
    exact ho.index ▸ (hw.recorded.var_of_mem (Array.mem_of_getElem? hy)).2
  · exact (ho.around q hq).resolve_left hne
  · have le := le₁.trans le₂
    refine lays_mono (lays_deliver (hs.to le.toBelow) hv (hl.to le.toBelow)) ?_
    exact fun w₃ v _ ⟨le₃, hv⟩ => ⟨le.trans le₃, hv⟩

/-! ### Every level of nesting -/

theorem lays_unreachable :
    Lays env w (emit .unreachable scope location) fun w' v => w.Le w' ∧ w'.Avail w'.current v :=
  lays_mono (lays_emitWith rfl nofun nofun) fun _ _ _ ⟨le, hv, _⟩ => ⟨le, hv⟩

include hp in
theorem lays_lowerExpr (hs : w.In w.current scope) (hl : w.Loc w.current loc) :
    Lays env w (lowerExpr parts node scope loc) fun w' v =>
      w.Le w' ∧ w'.Avail w'.current v := by
  cases hk : node.kind.branches with
  | false =>
    exact lays_of_holds (holds_lowerExpr (hp.holds _) hk (fun _ => rfl) (fun _ _ => trivial) hs hl)
  | true =>
    rw [lowerExpr]
    cases h : node.kind <;> rw [h] at hk
    case root | fnDecl | param | varDecl | testDecl | containerDecl | containerField |
        errorSetDecl | deferred | suspend | asm | assign | assignOp | unaryOp | call |
        builtinCall | fieldAccess | arrayAccess | structInit | arrayInit | symbol | intLiteral |
        floatLiteral | stringLiteral | boolLiteral | nullLiteral | undefinedLiteral |
        errorValue => cases hk
    case block => exact lays_lowerBlock hp hs hl
    case comptime => exact lays_lowerComptime hp hs hl
    case ifThen => exact lays_lowerIf hp hs hl
    case whileLoop => exact lays_lowerWhile hp hs hl
    case forLoop => exact lays_lowerFor hp hs hl
    case breakTo => exact lays_lowerBreak hp hs
    case continueTo => exact lays_lowerContinue hp hs
    case returnFrom => exact lays_lowerReturn hp hs
    case unreachable => exact lays_unreachable
    case tryExpr => exact lays_lowerTry hp hs hl
    case catchExpr => exact lays_lowerCatch hp hs hl
    case binaryOp op lhs rhs =>
      cases op
      case boolAnd | boolOr => exact lays_lowerShortCircuit hp hs hl
      case orElse => exact lays_lowerOrElse hp hs hl
      all_goals cases hk

theorem lays_failDepth : Lays env w (failDepth node) Q :=
  lays_read_bind lays_fail

/-- The routines for parts leave no block behind, however many levels of nesting are left. -/
theorem layParts_nested (levels : Nat) : LayParts env (nested levels) := by
  induction levels with
  | zero => exact ⟨fun _ _ => lays_failDepth, fun _ => lays_failDepth⟩
  | succ levels ih => exact ⟨fun hs hl => lays_lowerExpr ih hs hl, lays_lowerStatement ih⟩

end SourceIr.Lower
