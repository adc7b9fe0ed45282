import Mathlib.Data.List.Perm.Subperm
import SourceIr.Proofs.Nesting.Calm
import SourceIr.Proofs.Scope.Jump

/-!
# Constructs without an alarm

The constructs that branch or leave a scope, step by step.  An exit lowers expressions that stand
elsewhere: they are pending where it stands, so there is room for them, and what is pending around
them is out of their reach.

* `WayOut`, a way out that does not leave a deferred expression, and `calm_runDefers`;
* `calm_lowerExpr` and `calm_lowerStatement`, with one lemma for each construct before them.
-/

namespace SourceIr.Lower

open Outline Comparison

variable {env : Env} {s s₀ : State} {α β : Type} {x : LowerM α} {f : α → LowerM β}
  {nodes ss es p : List Nat} {parts : Parts} {node : Node} {scope : ScopeId} {loc : ResultLoc}
  {target : Option ScopeId}

/-! ### Steps -/

/-- A routine without parts is calm. -/
theorem calm_same (h : (calms env).Same x) : Calm env s x fun _ _ => True := h s

/-- A routine without parts comes next. -/
theorem calm_then {Q : State → β → Prop} (hx : (calms env).Same x) (r : Remembers s₀ s)
    (hf : ∀ t a, Remembers s₀ t → Calm env t (f a) Q) : Calm env s (x >>= f) Q :=
  calm_bind (calm_same hx) fun t a r' _ => hf t a (r.trans r')

/-- A scope is opened next, or one is chosen, in which code may be lowered. -/
theorem calm_inner {x : LowerM ScopeId} {f : ScopeId → LowerM β} {Q : State → β → Prop}
    (hs : Within p s₀ scope) (r : Remembers s₀ s)
    (hx : Within p s scope → Calm env s x (Within p))
    (hf : ∀ t inner, Within p t scope → Within p t inner → Calm env t (f inner) Q) :
    Calm env s (x >>= f) Q :=
  calm_bind (hx (hs.mono r)) fun t inner r' hi => hf t inner ((hs.mono r).mono r') hi

variable (hp : RoomyParts env nodes ss es parts)

include hp in
/-- A part for which there is room comes next. -/
theorem calm_part {f : InstId → LowerM β} {Q : State → β → Prop}
    (hn : Roomy nodes ss es p node) (hs : Within p s₀ scope) (r : Remembers s₀ s)
    (hf : ∀ t v, Remembers s₀ t → Calm env t (f v) Q) :
    Calm env s (parts.expr node scope loc >>= f) Q :=
  calm_bind (hp.expr hn (hs.mono r)) fun t v r' _ => hf t v (r.trans r')

/-! ### Ways out -/

/-- A way out of a scope that does not leave a deferred expression. -/
structure WayOut (p : List Nat) (s : State) (scope : ScopeId) (target : Option ScopeId) : Prop
    extends Within p s scope where
  clear : ClearTo target (s.scopes.links scope)

theorem WayOut.after (h : WayOut p s₀ scope target) (r : Remembers s₀ s) :
    WayOut p s scope target :=
  ⟨h.mono r, r.scopes.links_eq h.lt ▸ h.clear⟩

include hp in
theorem calm_runDefer {expr : Node} (he : Roomy nodes ss es [] expr) :
    Calm env s (runDefer parts scope expr) fun _ _ => True := by
  refine calm_then (same_scopeAt scope) (.refl s) fun t x _ => ?_
  refine calm_bind calm_openScope ?_
  rintro _ _ - ⟨ht, hlt, rfl, rfl⟩
  exact calm_bind (hp.expr he (.openBody hlt ht)) fun _ _ _ _ => calm_pure trivial

include hp in
/-- The run along the deferred expressions that are passed. -/
theorem calm_runDefersIn {path : ExitPath} {defers : List (ScopeId × DeferKind)}
    (hd : ∀ d ∈ defers, d.1.index < s.scopes.scopes.size ∧
      ∀ e, s.deferred.lookup d.1 = some e → Roomy nodes ss es [] e) :
    Calm env s (runDefersIn parts path defers) fun _ _ => True := by
  induction defers generalizing s with
  | nil => exact calm_pure trivial
  | cons d rest ih =>
    have later : ∀ t, Remembers s t → Calm env t (runDefersIn parts path rest) fun _ _ => True := by
      intro t r
      refine ih fun d hd' => ?_
      obtain ⟨hlt, he⟩ := hd d (List.mem_cons_of_mem _ hd')
      rw [r.deferred d.1 hlt]
      exact ⟨Nat.lt_of_lt_of_le hlt r.scopes.size_le, he⟩
    obtain ⟨hlt, he⟩ := hd d List.mem_cons_self
    obtain ⟨id, kind⟩ := d
    rw [runDefersIn]
    refine calm_get_bind ?_
    dsimp only
    split
    · exact later s (.refl s)
    next expr hexpr =>
      have hexpr : s.deferred.lookup id = some expr := by
        split at hexpr
        · exact hexpr
        · cases hexpr
      refine calm_bind (calm_runDefer hp (he expr hexpr)) fun t _ r _ => ?_
      refine calm_then same_isTerminated r fun u terminated r => ?_
      split
      · exact calm_pure trivial
      · exact later u r

include hp in
/-- An exit is calm if there is room for what is pending where it stands. -/
theorem calm_runDefers {path : ExitPath} (hroom : Room nodes ss es p)
    (hw : WayOut p s scope target) :
    Calm env s (runDefers parts scope target path) fun _ _ => True := by
  refine calm_bind calm_scopesFrom ?_
  rintro _ _ - ⟨rfl, rfl, -⟩
  refine calm_runDefersIn hp fun d hd => ⟨?_, fun e he => ?_⟩
  · obtain ⟨x, hx, hxd⟩ := ScopeTree.mem_of_mem_defersIn hd
    exact hxd ▸ hw.links _ (List.mem_map_of_mem hx)
  · exact hroom.pending fun i => Nat.le_trans (count_le_pendingOn hw.clear hd he i) (hw.room i)

include hp in
/-- An exit comes next. -/
theorem calm_leave {path : ExitPath} {f : PUnit → LowerM β} {Q : State → β → Prop}
    (hroom : Room nodes ss es p) (hw : WayOut p s₀ scope target) (r : Remembers s₀ s)
    (hf : ∀ t, Remembers s₀ t → Calm env t (f ⟨⟩) Q) :
    Calm env s (runDefers parts scope target path >>= f) Q :=
  calm_bind (calm_runDefers hp hroom (hw.after r)) fun t _ r' _ => hf t (r.trans r')

/-! ### Blocks -/

/-- A block is opened, and left to its end. -/
theorem calm_openBlock {kind : ScopeKind} (hs : Within p s scope) :
    Calm env s (openScope scope kind) fun t block => WayOut p t block (some block) := by
  refine calm_openScope.imp ?_
  rintro _ _ - ⟨ht, hlt, rfl, rfl⟩
  refine ⟨hs.openUnder ht kind, ?_⟩
  dsimp only
  rw [ScopeTree.links_openUnder hlt]
  exact .inl rfl

include hp in
theorem calm_statements {statements : List Node} {failed : Bool}
    (h : Room nodes ss es (idsOfList statements ++ p)) (hw : WayOut p s scope target) :
    Calm env s (lowerStatements parts scope failed statements) fun t last =>
      WayOut (idsOfList statements ++ p) t last target := by
  -- What is pending and what is left make up no more than there was.
  refine (calm_lowerStatements (I := fun rest t current => ∃ q,
    (∀ i, (idsOfList rest ++ q).count i ≤ (idsOfList statements ++ p).count i) ∧
      WayOut q t current target) ?_ ?_ ?_ ?_ statements failed
    ⟨p, fun _ => Nat.le_refl _, hw⟩).imp ?_
  · rintro rest t u current r ⟨q, hq, hw⟩
    exact ⟨q, hq, hw.after r⟩
  · rintro statement rest t current ⟨q, hq, hw⟩
    have hq' : ∀ i, (statement.ids ++ q).count i + (idsOfList rest).count i ≤
        (idsOfList statements ++ p).count i := fun i => by
      have := hq i
      simp only [idsOfList, List.count_append] at this ⊢
      omega
    refine (hp.statement (h.weaken fun i => ?_) hw.toWithin).imp fun u next r hn => ?_
    · exact Nat.le_trans (Nat.le_add_right _ _) (hq' i)
    · refine ⟨statement.ids ++ q, fun i => ?_, hn.1, hn.2 _ (hw.after r).clear⟩
      rw [List.count_append, Nat.add_comm]
      exact hq' i
  · rintro statement rest t current ⟨q, hq, hw⟩
    refine ⟨q, fun i => Nat.le_trans ?_ (hq i), hw⟩
    rw [idsOfList, List.append_assoc, @List.count_append _ _ _ statement.ids]
    exact Nat.le_add_left _ _
  · rintro rest t current ⟨q, hq, hw⟩
    refine ⟨q, fun i => Nat.le_trans ?_ (hq i), hw⟩
    rw [idsOfList, List.nil_append, List.count_append]
    exact Nat.le_add_left _ _
  · rintro t last - ⟨q, hq, hw⟩
    exact ⟨hw.weaken fun i => by simpa [idsOfList] using hq i, hw.clear⟩

include hp in
theorem calm_lowerPlainBlock {statements : List Node}
    (h : Room nodes ss es (idsOfList statements ++ p)) (hs : Within p s scope) :
    Calm env s (lowerPlainBlock parts node statements scope loc) fun _ _ => True := by
  refine calm_bind (calm_openBlock hs) fun t block _ hb => ?_
  refine calm_bind (calm_statements hp h hb) fun u last _ hw => ?_
  refine calm_then same_isTerminated (.refl u) fun v terminated r => ?_
  cases terminated with
  | true => exact calm_same (same_blockValue _ _ _)
  | false => exact calm_leave hp h hw r fun _ _ => calm_same (same_blockValue _ _ _)

include hp in
theorem calm_lowerLabelledBlock {label : String} {statements : List Node}
    (h : Room nodes ss es (idsOfList statements ++ p)) (hs : Within p s scope) :
    Calm env s (lowerLabelledBlock parts node label statements scope loc) fun _ _ => True := by
  refine calm_then (same_settle _ _ _) (.refl s) fun s loc r => ?_
  refine calm_then (same_newBlock _) r fun s stop r => ?_
  refine calm_bind (calm_openBlock (hs.mono r)) fun t block _ hb => ?_
  refine calm_then ((calms env).rel_step (innerStep_openSink _ _)) (.refl t) fun u _ r => ?_
  refine calm_bind (calm_statements hp h (hb.after r)) fun u last _ hw => ?_
  have join : (calms env).Same (do joinAt stop (← closeSink block) scope node) :=
    (calms env).rel_bind ((calms env).rel_step (innerStep_closeSink _)) fun _ => same_joinAt _ _ _ _
  refine calm_then same_isTerminated (.refl u) fun v terminated r => ?_
  cases terminated with
  | true => exact calm_same join
  | false =>
    refine calm_leave hp h hw r fun v r => calm_then same_isTerminated r fun v done r => ?_
    cases done with
    | true => exact calm_same join
    | false =>
      exact calm_same <| (calms env).rel_bind same_emitVoid fun _ =>
        rel_unit_bind ((calms env).rel_step (innerStep_flowInto _ _)) <|
          rel_unit_bind (same_emitGen rfl) join

include hp in
theorem calm_lowerBlock {label : Option String} {statements : List Node}
    (h : Room nodes ss es ((Kind.block label statements).ids ++ p)) (hs : Within p s scope) :
    Calm env s (lowerBlock parts node label statements scope loc) fun _ _ => True := by
  rw [Kind.ids] at h
  cases label with
  | none => exact calm_lowerPlainBlock hp h hs
  | some label => exact calm_lowerLabelledBlock hp h hs

/-! ### Branches -/

include hp in
theorem calm_lowerElse {branch : Option Node}
    (hn : ∀ node ∈ branch, Roomy nodes ss es p node) (hs : Within p s scope) :
    Calm env s (lowerElse parts node branch scope loc) fun _ _ => True := by
  cases branch with
  | some branch => exact hp.expr (hn branch rfl) hs
  | none => exact calm_same same_emitVoid

theorem calm_enterBranch {payload : Option String} {cond : InstId} (hs : Within p s scope) :
    Calm env s (enterBranch node payload cond scope) (Within p) :=
  Logic.holds_enterBranch (L := rooms env [] [] [] p) trivial hs

theorem calm_bindPayload {name : String} {value : InstId} (hs : Within p s scope) :
    Calm env s (bindPayload scope name value node) (Within p) :=
  Logic.holds_bindPayload (L := rooms env [] [] [] p) trivial hs

/-- The part of a construct that may be absent. -/
theorem Room.part? {ids : List Nat} {branch : Option Node} (h : Room nodes ss es (ids ++ p))
    (hle : ∀ i, (idsOfOption branch).count i ≤ ids.count i) :
    ∀ node ∈ branch, Roomy nodes ss es p node := by
  rintro node rfl
  exact h.part hle

include hp in
theorem calm_lowerIf {condition thenBranch : Node} {payload : Option String}
    {elseBranch : Option Node}
    (h : Room nodes ss es ((Kind.ifThen condition payload thenBranch elseBranch).ids ++ p))
    (hs : Within p s scope) :
    Calm env s (lowerIf parts node condition payload thenBranch elseBranch scope loc)
      fun _ _ => True := by
  rw [Kind.ids] at h
  have hcond : Roomy nodes ss es p condition := h.part fun i => by
    simp only [List.count_append]; omega
  have hthen : Roomy nodes ss es p thenBranch := h.part fun i => by
    simp only [List.count_append]; omega
  have helse : ∀ node ∈ elseBranch, Roomy nodes ss es p node := h.part? fun i => by
    simp only [List.count_append]; omega
  refine calm_then (same_settle _ _ _) (.refl s) fun t loc r => ?_
  refine calm_part hp hcond hs r fun t cond r => ?_
  refine calm_then (same_newBlock _) r fun t thenBlock r => ?_
  refine calm_then (same_newBlock _) r fun t elseBlock r => ?_
  refine calm_then (same_newBlock _) r fun t stop r => ?_
  refine calm_then (same_emitTest _ _ _ _) r fun t test r => ?_
  refine calm_then (same_emit rfl) r fun t _ r => calm_then (same_goto _) r fun t _ r => ?_
  refine calm_inner hs r calm_enterBranch fun s inner hs hi => ?_
  refine calm_part hp hthen hi (.refl s) fun t value r => ?_
  refine calm_then (same_branchInto _ _ _ _ _) r fun t incoming r => ?_
  refine calm_then (same_goto _) r fun t _ r => ?_
  refine calm_bind (calm_lowerElse hp helse (hs.mono r)) fun t value _ _ => calm_same ?_
  exact (calms env).rel_bind (same_branchInto _ _ _ _ _) fun _ => same_joinAt _ _ _ _

include hp in
theorem calm_lowerCatch {lhs rhs : Node} {payload : Option String}
    (h : Room nodes ss es ((Kind.catchExpr lhs payload rhs).ids ++ p)) (hs : Within p s scope) :
    Calm env s (lowerCatch parts node lhs payload rhs scope loc) fun _ _ => True := by
  rw [Kind.ids] at h
  have hlhs : Roomy nodes ss es p lhs := h.part fun i => by simp only [List.count_append]; omega
  have hrhs : Roomy nodes ss es p rhs := h.part fun i => by simp only [List.count_append]; omega
  refine calm_then (same_settle _ _ _) (.refl s) fun t loc r => ?_
  refine calm_part hp hlhs hs r fun t value r => calm_then (same_emit rfl) r fun t isErr r => ?_
  refine calm_then (same_newBlock _) r fun t errBlock r => ?_
  refine calm_then (same_newBlock _) r fun t okBlock r => ?_
  refine calm_then (same_newBlock _) r fun t stop r => ?_
  refine calm_then (same_emitGen rfl) r fun t _ r => calm_then (same_goto _) r fun t _ r => ?_
  have handled : ∀ u handler, Within p u handler → Calm env u (do
      let handled ← parts.expr rhs handler loc
      let incoming ← branchInto stop [] handled scope false
      goto okBlock
      let payload ← emitGen (.unwrapErrPayload value false) scope node.location
      let payload ← deliver payload loc scope node.location
      let incoming ← branchInto stop incoming payload scope false
      joinAt stop incoming scope node) fun _ _ => True := fun u handler hi =>
    calm_part hp hrhs hi (.refl u) fun t handled r => calm_same <|
      (calms env).rel_bind (same_branchInto _ _ _ _ _) fun _ => rel_unit_bind (same_goto _) <|
        (calms env).rel_bind (same_emitGen rfl) fun _ => (calms env).rel_bind (same_deliver _ _ _ _)
          fun _ => (calms env).rel_bind (same_branchInto _ _ _ _ _) fun _ => same_joinAt _ _ _ _
  refine calm_inner hs r (fun hs => (calm_openBlock hs).imp fun _ _ _ h => h.toWithin)
    fun t handler _ hi => ?_
  cases payload with
  | some name =>
    refine calm_then (same_emitGen rfl) (.refl t) fun u code r => ?_
    exact calm_bind (calm_bindPayload (hi.mono r)) fun u handler _ hi => handled u handler hi
  | none =>
    exact calm_bind (calm_pure (Q := Within p) hi) fun u handler _ hi => handled u handler hi

include hp in
theorem calm_lowerOrElse {lhs rhs : Node} (hlhs : Roomy nodes ss es p lhs)
    (hrhs : Roomy nodes ss es p rhs) (hs : Within p s scope) :
    Calm env s (lowerOrElse parts node lhs rhs scope loc) fun _ _ => True := by
  refine calm_then (same_settle _ _ _) (.refl s) fun t loc r => ?_
  refine calm_part hp hlhs hs r fun t value r => calm_then (same_emit rfl) r fun t nonNull r => ?_
  refine calm_then (same_newBlock _) r fun t okBlock r => ?_
  refine calm_then (same_newBlock _) r fun t nullBlock r => ?_
  refine calm_then (same_newBlock _) r fun t stop r => ?_
  refine calm_then (same_emitGen rfl) r fun t _ r => calm_then (same_goto _) r fun t _ r => ?_
  refine calm_part hp hrhs hs r fun t fallback r => calm_same ?_
  refine (calms env).rel_bind (same_branchInto _ _ _ _ _) fun _ => ?_
  refine rel_unit_bind (same_goto _) <| (calms env).rel_bind (same_emitGen rfl) fun _ => ?_
  exact (calms env).rel_bind (same_deliver _ _ _ _) fun _ =>
    (calms env).rel_bind (same_branchInto _ _ _ _ _) fun _ => same_joinAt _ _ _ _

include hp in
theorem calm_lowerShortCircuit {op : BinaryOperator} {lhs rhs : Node}
    (hlhs : Roomy nodes ss es p lhs) (hrhs : Roomy nodes ss es p rhs) (hs : Within p s scope) :
    Calm env s (lowerShortCircuit parts node op lhs rhs scope loc) fun _ _ => True := by
  refine calm_part hp hlhs hs (.refl s) fun t left r => ?_
  refine calm_then (same_newBlock _) r fun t rhsBlock r => ?_
  refine calm_then (same_newBlock _) r fun t stop r => ?_
  refine calm_then same_currentBlock r fun t source r => ?_
  have right : ∀ u, Remembers s u → Calm env u (do
      goto rhsBlock
      let right ← parts.value rhs scope
      let incoming ← branchInto stop [(source, left)] right scope false
      let value ← joinAt stop incoming scope node
      deliver value loc scope node.location) fun _ _ => True := fun u r =>
    calm_then (same_goto _) r fun t _ r => calm_part hp hrhs hs r fun t right r => calm_same <|
      (calms env).rel_bind (same_branchInto _ _ _ _ _) fun _ =>
        (calms env).rel_bind (same_joinAt _ _ _ _) fun _ => same_deliver _ _ _ _
  dsimp only
  split <;> exact calm_then (same_emitGen rfl) r fun u _ r => right u r

include hp in
/-- The operators that decide where control goes. -/
theorem calm_lowerBinary {op : BinaryOperator} {lhs rhs : Node} (hop : op.isLogical = true)
    (h : Room nodes ss es ((Kind.binaryOp op lhs rhs).ids ++ p)) (hs : Within p s scope) :
    Calm env s (lowerBinary parts node op lhs rhs scope loc) fun _ _ => True := by
  rw [Kind.ids] at h
  have hlhs : Roomy nodes ss es p lhs := h.part fun i => by simp only [List.count_append]; omega
  have hrhs : Roomy nodes ss es p rhs := h.part fun i => by simp only [List.count_append]; omega
  cases op
  case boolAnd | boolOr => exact calm_lowerShortCircuit hp hlhs hrhs hs
  case orElse => exact calm_lowerOrElse hp hlhs hrhs hs
  all_goals cases hop

/-! ### Loops -/

theorem calm_enterLoop {label : Option String} {blocks : LoopBlocks} (hs : Within p s scope) :
    Calm env s (enterLoop scope label blocks loc) (Within p) :=
  calm_bind (calm_openBlock hs) fun t _ _ hb =>
    calm_then ((calms env).rel_step (innerStep_openSink _ _)) (.refl t) fun _ _ r =>
      calm_pure (hb.mono r)

include hp in
theorem calm_finishLoop {loopScope : ScopeId} {elseBranch : Option Node} {blocks : LoopBlocks}
    {force : Bool} (helse : ∀ node ∈ elseBranch, Roomy nodes ss es p node)
    (hs : Within p s scope) :
    Calm env s (finishLoop parts node loopScope elseBranch blocks scope loc force)
      fun _ _ => True :=
  calm_then (same_goto _) (.refl s) fun _ _ r =>
    calm_bind (calm_lowerElse hp helse (hs.mono r)) fun _ _ _ _ => calm_same <|
      (calms env).rel_bind ((calms env).rel_step (innerStep_closeSink _)) fun _ =>
        (calms env).rel_bind (same_branchInto _ _ _ _ _) fun _ => same_joinAt _ _ _ _

include hp in
theorem calm_lowerWhile {label payload : Option String} {condition body : Node}
    {continueExpr elseBranch : Option Node} {isInline : Bool}
    (h : Room nodes ss es
      ((Kind.whileLoop label condition payload continueExpr body elseBranch isInline).ids ++ p))
    (hs : Within p s scope) :
    Calm env s (lowerWhile parts node label condition payload continueExpr body elseBranch isInline
      scope loc) fun _ _ => True := by
  rw [Kind.ids] at h
  have hcond : Roomy nodes ss es p condition := h.part fun i => by
    simp only [List.count_append]; omega
  have hbody : Roomy nodes ss es p body := h.part fun i => by simp only [List.count_append]; omega
  have hstep : ∀ node ∈ continueExpr, Roomy nodes ss es p node := h.part? fun i => by
    simp only [List.count_append]; omega
  have helse : ∀ node ∈ elseBranch, Roomy nodes ss es p node := h.part? fun i => by
    simp only [List.count_append]; omega
  refine calm_then (same_settle _ _ _) (.refl s) fun t loc r => ?_
  refine calm_then (same_newLoop _) r fun t blocks r => ?_
  refine calm_then (same_emitWith rfl) r fun t _ r => ?_
  refine calm_then (same_goto _) r fun t _ r => calm_part hp hcond hs r fun t cond r => ?_
  refine calm_then (same_emitTest _ _ _ _) r fun t test r => ?_
  refine calm_then (same_emitWith rfl) r fun t _ r => calm_then (same_goto _) r fun t _ r => ?_
  refine calm_inner hs r calm_enterLoop fun t loopScope hs hl => ?_
  refine calm_bind (calm_enterBranch hl) fun t bodyScope r hb => ?_
  replace hs := hs.mono r
  refine calm_part hp hbody hb (.refl t) fun u _ r => ?_
  refine calm_then (same_jumpUnlessTerminated _ _ _ _) r fun u _ r => ?_
  refine calm_then (same_goto _) r fun u _ r => ?_
  have finish : ∀ v, Remembers t v → Calm env v (do
      jumpUnlessTerminated blocks.test node scope isInline
      finishLoop parts node loopScope elseBranch blocks scope loc isInline) fun _ _ => True :=
    fun v r => calm_then (same_jumpUnlessTerminated _ _ _ _) r fun w _ r =>
      calm_finishLoop hp helse (hs.mono r)
  cases continueExpr with
  | some expr => exact calm_part hp (hstep expr rfl) hb r fun v _ r => finish v r
  | none => exact finish u r

include hp in
theorem calm_lowerFor {label index : Option String} {item : String} {iterable body : Node}
    {elseBranch : Option Node} {isInline : Bool}
    (h : Room nodes ss es
      ((Kind.forLoop label iterable item index body elseBranch isInline).ids ++ p))
    (hs : Within p s scope) :
    Calm env s (lowerFor parts node label iterable item index body elseBranch isInline scope loc)
      fun _ _ => True := by
  rw [Kind.ids] at h
  have hiter : Roomy nodes ss es p iterable := h.part fun i => by
    simp only [List.count_append]; omega
  have hbody : Roomy nodes ss es p body := h.part fun i => by simp only [List.count_append]; omega
  have helse : ∀ node ∈ elseBranch, Roomy nodes ss es p node := h.part? fun i => by
    simp only [List.count_append]; omega
  refine calm_then (same_settle _ _ _) (.refl s) fun t loc r => ?_
  refine calm_part hp hiter hs r fun t array r => ?_
  refine calm_then (same_emitGen rfl) r fun t lengthPtr r => ?_
  refine calm_then (same_emitGen rfl) r fun t length r => ?_
  refine calm_then (same_emitWith rfl) r fun t indexPtr r => ?_
  refine calm_then (same_emitGen rfl) r fun t zero r => ?_
  refine calm_then (same_emitGen rfl) r fun t _ r => ?_
  refine calm_then (same_newLoop _) r fun t blocks r => ?_
  refine calm_then (same_emitWith rfl) r fun t _ r => ?_
  refine calm_then (same_goto _) r fun t _ r => ?_
  refine calm_then (same_emitGen rfl) r fun t position r => ?_
  refine calm_then (same_emitGen rfl) r fun t inBounds r => ?_
  refine calm_then (same_emitWith rfl) r fun t _ r => ?_
  refine calm_then (same_goto _) r fun t _ r => ?_
  refine calm_inner hs r calm_enterLoop fun s loopScope hs hl => ?_
  refine calm_then (same_emitGen rfl) (.refl s) fun t elementPtr r => ?_
  refine calm_then (same_emitGen rfl) r fun t element r => ?_
  refine calm_bind (calm_bindPayload (hl.mono r)) fun u bodyScope r' hb => ?_
  replace hs := hs.mono (r.trans r')
  refine calm_then ((calms env).rel_declare _ _ trivial) (.refl u) fun t indexVar r => ?_
  refine calm_then (same_emitGen rfl) r fun t _ r => calm_part hp hbody hb r fun t _ r => ?_
  refine calm_then (same_jumpUnlessTerminated _ _ _ _) r fun t _ r => ?_
  refine calm_then (same_goto _) r fun t _ r => calm_then (same_stepIndex _ _ _) r fun t _ r => ?_
  exact calm_then (same_emitWith rfl) r fun t _ r => calm_finishLoop hp helse (hs.mono r)

/-! ### Jumps -/

theorem calm_breakScope {label : Option String} (hs : Within p s scope) :
    Calm env s (breakScope node label scope) fun t target => WayOut p t scope (some target) := by
  refine calm_bind calm_scopesFrom ?_
  rintro _ _ - ⟨rfl, rfl, -⟩
  split
  next hfound => exact calm_pure ⟨hs, clearTo_of_found hfound⟩
  all_goals exact calm_fail

theorem calm_continueScope {label : Option String} (hs : Within p s scope) :
    Calm env s (continueScope node label scope)
      fun t target => WayOut p t scope (some target) := by
  refine calm_bind calm_scopesFrom ?_
  rintro _ _ - ⟨rfl, rfl, -⟩
  split
  next hfound => exact calm_pure ⟨hs, clearTo_of_found hfound⟩
  all_goals exact calm_fail

include hp in
/-- An exit that ends with an instruction, unless control does not get that far. -/
theorem calm_exit {path : ExitPath} {last : LowerM InstId} (hroom : Room nodes ss es p)
    (hw : WayOut p s₀ scope target) (r : Remembers s₀ s) (hlast : (calms env).Same last) :
    Calm env s (do
      runDefers parts scope target path
      if ← isTerminated then lastInst else last) fun _ _ => True :=
  calm_leave hp hroom hw r fun _ _ => calm_same <|
    (calms env).rel_bind same_isTerminated fun _ => rel_ite same_lastInst hlast

/-- What is pending has room next to what is below a construct. -/
theorem Room.around {ids : List Nat} (h : Room nodes ss es (ids ++ p)) : Room nodes ss es p :=
  h.weaken fun i => by
    rw [List.count_append]
    exact Nat.le_add_left _ _

include hp in
theorem calm_lowerBreak {label : Option String} {value : Option Node}
    (h : Room nodes ss es ((Kind.breakTo label value).ids ++ p)) (hs : Within p s scope) :
    Calm env s (lowerBreak parts node label value scope) fun _ _ => True := by
  rw [Kind.ids] at h
  have hvalue := h.part? fun _ => Nat.le_refl _
  refine calm_bind (calm_breakScope hs) fun t target _ hw => ?_
  refine calm_then (same_leavesStream _ _) (.refl t) fun u _ r => ?_
  split
  · exact calm_same (same_failLeaving _ trivial)
  refine calm_then (same_scopeAt _) r fun u x r => ?_
  split
  · exact calm_same (same_failMismatch _ trivial _)
  next stop _ =>
    refine calm_then (same_sink? _) r fun u sink r => ?_
    have jump : ∀ v u, Remembers t u → Calm env u (do
        runDefers parts scope (some target) .normal
        if ← isTerminated then lastInst
        else
          flowInto target v
          emit (.br stop) scope node.location) fun _ _ => True := fun v u r =>
      calm_exit hp h.around hw r
        (rel_unit_bind ((calms env).rel_step (innerStep_flowInto _ _)) (same_emit rfl))
    cases value with
    | some value => exact calm_part hp (hvalue value rfl) hw.toWithin r fun u v r => jump v u r
    | none => exact calm_then same_emitVoid r fun u v r => jump v u r

include hp in
theorem calm_lowerContinue {label : Option String} (hroom : Room nodes ss es p)
    (hs : Within p s scope) :
    Calm env s (lowerContinue parts node label scope) fun _ _ => True := by
  refine calm_bind (calm_continueScope hs) fun t target _ hw => ?_
  refine calm_then (same_leavesStream _ _) (.refl t) fun u _ r => ?_
  split
  · exact calm_same (same_failLeaving _ trivial)
  refine calm_then (same_scopeAt _) r fun u x r => ?_
  split
  · exact calm_same (same_failMismatch _ trivial _)
  · exact calm_exit hp hroom hw r (same_emit rfl)

/-- A function is not left from inside of a deferred expression. -/
theorem calm_checkFnExit {exit : FnExit} (hs : Within p s scope) :
    Calm env s (checkFnExit node scope exit) fun t _ => WayOut p t scope none := by
  refine calm_bind calm_scopesFrom ?_
  rintro t _ - ⟨rfl, rfl, -⟩
  split
  · exact calm_fail
  split
  · exact calm_fail
  next hbody =>
    have hw : WayOut p t scope none := ⟨hs, clearTo_none (Bool.eq_false_iff.2 hbody)⟩
    refine calm_then (same_leavesStream _ _) (.refl t) fun u leaves r => ?_
    split
    · exact calm_fail
    · exact calm_pure (hw.after r)

include hp in
theorem calm_emitErrReturn {value : InstId} (hroom : Room nodes ss es p)
    (hw : WayOut p s scope none) :
    Calm env s (emitErrReturn parts node value scope) fun _ _ => True := by
  refine calm_then (same_emitGen rfl) (.refl s) fun t isErr r => ?_
  refine calm_then (same_newBlock _) r fun t errBlock r => ?_
  refine calm_then (same_newBlock _) r fun t okBlock r => ?_
  refine calm_then (same_emitGen rfl) r fun t _ r => calm_then (same_goto _) r fun t _ r => ?_
  exact calm_leave hp hroom hw r fun _ _ =>
    calm_same (same_returnUnlessTerminated _ _ (same_goto _) rfl)

include hp in
/-- The ways out of the function for an operand: the errors are taken care of first. -/
theorem calm_returnOperand {operand : Option InstId} {location : Option Location}
    (h : Room nodes ss es p) (hw : WayOut p s₀ scope none) (r : Remembers s₀ s) : Calm env s (do
      match if passesErrDefer (← scopesFrom scope) scope then operand else none with
      | some value => emitErrReturn parts node value scope
      | none => pure ⟨⟩
      runDefers parts scope none .normal
      if ← isTerminated then lastInst else emit (.ret operand) scope location)
      fun _ _ => True := by
  refine calm_then (same_scopesFrom _) r fun t scopes r => ?_
  dsimp only
  split
  next value _ =>
    exact calm_bind (calm_emitErrReturn hp h (hw.after r)) fun u _ r' _ =>
      calm_exit hp h hw (r.trans r') (same_emit rfl)
  next => exact calm_exit hp h hw r (same_emit rfl)

include hp in
theorem calm_lowerReturn {value : Option Node}
    (h : Room nodes ss es ((Kind.returnFrom value).ids ++ p)) (hs : Within p s scope) :
    Calm env s (lowerReturn parts node value scope) fun _ _ => True := by
  rw [Kind.ids] at h
  have hvalue := h.part? fun _ => Nat.le_refl _
  refine calm_bind (calm_checkFnExit hs) fun s ⟨⟩ _ hw => ?_
  cases value with
  | some value =>
    have hoperand : Calm env s (some <$> parts.expr value scope .ret) fun _ _ => True := by
      rw [map_eq_pure_bind]
      exact calm_part hp (hvalue value rfl) hw.toWithin (.refl s) fun _ _ _ => calm_pure trivial
    exact calm_bind hoperand fun t operand r _ => calm_returnOperand hp h.around hw r
  | none => exact calm_returnOperand hp h.around hw (.refl s)

include hp in
theorem calm_lowerTry {expr : Node} (h : Room nodes ss es ((Kind.tryExpr expr).ids ++ p))
    (hs : Within p s scope) :
    Calm env s (lowerTry parts node expr scope loc) fun _ _ => True := by
  rw [Kind.ids] at h
  have hexpr : Roomy nodes ss es p expr := h.part fun _ => Nat.le_refl _
  refine calm_bind (calm_checkFnExit hs) fun s _ _ hw => ?_
  refine calm_part hp hexpr hw.toWithin (.refl s) fun t value r => ?_
  refine calm_then (same_emit rfl) r fun t isErr r => ?_
  refine calm_then (same_newBlock _) r fun t errBlock r => ?_
  refine calm_then (same_newBlock _) r fun t okBlock r => ?_
  refine calm_then (same_emitGen rfl) r fun t _ r => calm_then (same_goto _) r fun t _ r => ?_
  refine calm_then (same_emitGen rfl) r fun t code r => calm_leave hp h.around hw r fun _ _ => ?_
  exact calm_same <|
    same_returnUnlessTerminated _ _ (rel_unit_bind (same_goto _) (same_emitTo _ _ _ rfl)) rfl

/-! ### Compile-time blocks -/

include hp in
theorem calm_lowerComptime {expr : Node} (h : Room nodes ss es ((Kind.comptime expr).ids ++ p))
    (hs : Within p s scope) :
    Calm env s (lowerComptime parts node expr scope loc) fun _ _ => True := by
  rw [Kind.ids] at h
  have hexpr : Roomy nodes ss es p expr := h.part fun _ => Nat.le_refl _
  refine calm_inner hs (.refl s) (fun hs => (calm_openBlock hs).imp fun _ _ _ h => h.toWithin)
    fun s inner hs hi => ?_
  refine calm_then (same_isComptimeAt _) (.refl s) fun t _ r => ?_
  split
  · exact hp.expr hexpr (hi.mono r)
  have body : ∀ u, Remembers t u → Calm env u (lowerComptimeBody parts node expr inner)
      fun _ _ => True := fun u r' =>
    calm_part hp hexpr hi (r.trans r') fun _ _ _ =>
      calm_same (same_returnUnlessTerminated _ _ ((calms env).rel_pure _) rfl)
  have child : ∀ name, Calm env t (inChildStream name inner
      (withFrame node.location "comptime block" (lowerComptimeBody parts node expr inner)))
      fun _ _ => True := fun name =>
    calm_inChildStream fun u r' => calm_withFrame (fun v r'' => body v (r'.trans r''))
      fun _ _ _ _ _ => trivial
  refine calm_get_bind (calm_bind (child _) fun u result _ _ => ?_)
  obtain ⟨unit, _ | a⟩ := result
  · exact fun _ => .refl u
  · exact calm_same (NestedComparison.same_evaluate _ _ _ _)

/-! ### Expressions and statements -/

include hp in
theorem calm_lowerExpr (h : Room nodes ss es (node.kind.ids ++ p)) (hs : Within p s scope) :
    Calm env s (lowerExpr parts node scope loc) fun _ _ => True := by
  by_cases hk : node.kind.branches = true
  · rw [lowerExpr]
    cases hkind : node.kind <;> rw [hkind] at hk h
    case block => exact calm_lowerBlock hp h hs
    case comptime => exact calm_lowerComptime hp h hs
    case ifThen => exact calm_lowerIf hp h hs
    case whileLoop => exact calm_lowerWhile hp h hs
    case forLoop => exact calm_lowerFor hp h hs
    case breakTo => exact calm_lowerBreak hp h hs
    case continueTo => exact calm_lowerContinue hp h.around hs
    case returnFrom => exact calm_lowerReturn hp h hs
    case unreachable => exact calm_same (same_emit rfl)
    case tryExpr => exact calm_lowerTry hp h hs
    case catchExpr => exact calm_lowerCatch hp h hs
    case binaryOp => exact calm_lowerBinary hp hk h hs
    all_goals cases hk
  · have hf : ∀ part ∈ node.kind.used, Roomy nodes ss es p part := fun part hpart =>
      h.part (Kind.count_used_le hpart)
    exact (Logic.holds_lowerExpr (L := rooms env nodes ss es p) hp.holdsParts
      (Bool.eq_false_iff.2 hk) (fun _ => rfl) hf hs fun _ _ => trivial).imp fun _ _ _ _ => trivial

include hp in
theorem calm_lowerExprStatement (h : Roomy nodes ss es p node) (hs : Within p s scope) :
    Calm env s (lowerExprStatement parts node scope) fun _ _ => True :=
  calm_get_bind (calm_part hp h hs (.refl s) fun _ _ _ => calm_same (same_checkStatement _ _ _ _))

include hp in
/-- The parts of a statement that is no expression, which come with the statement itself. -/
theorem calm_lowerStatement (h : Room nodes ss es (node.kind.ids ++ p))
    (hself : Roomy nodes ss es p node) (hs : Within p s scope) :
    Calm env s (lowerStatement parts node scope) fun t after =>
      Within (node.ids ++ p) t after ∧
        ∀ target, ClearTo target (t.scopes.links scope) →
          ClearTo target (t.scopes.links after) := by
  have hf : ∀ part ∈ node.kind.used, Roomy nodes ss es p part := fun part hpart =>
    h.part (Kind.count_used_le hpart)
  have stay : ∀ {x : LowerM PUnit}, Calm env s x (fun _ _ => True) →
      Calm env s (do x; return scope) fun t after => Within (node.ids ++ p) t after ∧
        ∀ target, ClearTo target (t.scopes.links scope) → ClearTo target (t.scopes.links after) :=
    fun hx => calm_bind hx fun t _ r _ => calm_pure
      ⟨(hs.mono r).weaken fun i => by
        rw [List.count_append]
        exact Nat.le_add_left _ _, fun _ h => h⟩
  have hp' := @RoomyParts.holdsParts env nodes ss es p _ hp
  rw [lowerStatement]
  split
  next hk => exact stay (Logic.holds_lowerLocalVar hp' rfl (hk ▸ hf) hs)
  next kind expr hk =>
    refine calm_defer.imp ?_
    rintro _ _ r ⟨ht, hlt, rfl, rfl⟩
    refine ⟨(hs.deferring ht).weaken fun i => ?_, fun target hc => ?_⟩
    · have hids : node.ids = node.id :: expr.ids := by rw [node.ids_eq, hk, Kind.ids]
      rw [hids, List.cons_append, List.count_cons]
      exact Nat.le_add_right _ _
    · rw [links_deferring hlt]
      exact .inr (.inr ⟨by simp, by rwa [r.scopes.links_eq hlt] at hc⟩)
  next target value hk =>
    rw [hk] at hf
    exact stay (Logic.holds_lowerAssign hp' (hf target (by simp [Kind.used]))
      (hf value (by simp [Kind.used])) hs)
  next op target value hk =>
    rw [hk] at hf
    exact stay (Logic.holds_lowerAssignOp hp' (hf target (by simp [Kind.used]))
      (hf value (by simp [Kind.used])) hs)
  next =>
    split
    · exact stay (calm_lowerExprStatement hp hself hs)
    · exact calm_bind (hp.expr hself hs) fun t _ r _ => calm_pure
        ⟨(hs.mono r).weaken fun i => by
          rw [List.count_append]
          exact Nat.le_add_left _ _, fun _ h => h⟩

/-! ### Levels of nesting -/

theorem length_le_of_count_le {l m : List Nat} (h : ∀ i, l.count i ≤ m.count i) :
    l.length ≤ m.length :=
  (List.subperm_ext_iff.2 fun i _ => h i).length_le

/-- Where there is room for a node, more levels of nesting are left than for what is being
lowered. -/
theorem Roomy.length_lt (h : Roomy nodes ss es p node) :
    ss.length + es.length < 2 * nodes.length := by
  have hss := length_le_of_count_le fun i => Nat.le_trans (Nat.le_add_right _ _) (h.statements i)
  have hes : (es ++ node.ids).length ≤ nodes.length := length_le_of_count_le fun i => by
    have := h.exprs i
    simp only [List.count_append] at this ⊢
    omega
  rw [List.length_append, node.ids_eq, List.length_cons] at hes
  omega

/-- The levels of nesting that are left are enough for what may still be entered. -/
theorem roomyParts_watched {levels : Nat}
    (hlevels : 2 * nodes.length ≤ levels + ss.length + es.length) :
    RoomyParts env nodes ss es (watched raise nodes levels ss es) := by
  induction levels generalizing ss es with
  | zero =>
    have none : ∀ {p node}, ¬ Roomy nodes ss es p node := fun h => by
      have := h.length_lt
      omega
    exact ⟨fun hn _ => (none hn).elim, fun hn _ => (none hn.roomy).elim⟩
  | succ levels ih =>
    constructor
    · intro p node scope loc s hn hs
      have hlt : es.count node.id < nodes.count node.id := by
        have := hn.exprs node.id
        rw [node.ids_eq, List.cons_append, List.count_cons_self] at this
        omega
      rw [watched]
      dsimp only
      rw [if_pos hlt]
      exact calm_lowerExpr (ih (by simp only [List.length_cons]; omega)) hn.enter hs
    · intro p node scope s hn hs
      have hlt : ss.count node.id < nodes.count node.id := by
        have := hn.statements node.id
        rw [node.ids_eq, List.cons_append, List.count_cons_self] at this
        omega
      rw [watched]
      dsimp only
      rw [if_pos hlt]
      exact calm_lowerStatement (ih (by simp only [List.length_cons]; omega)) hn.enter
        hn.enterSelf hs

end SourceIr.Lower
