import SourceIr.Proofs.Jump
import SourceIr.Proofs.Trim.Basic

/-!
# Branches and jumps without a rest

The routines that branch, jump or change the stream keep blocks without a rest, if the routines for
their parts do.

* `TrimParts`, what is relied on for parts;
* `Unfilled`, the blocks of a construct that are still to be filled;
* deferred expressions, statements and blocks;
* branches, loops, jumps and the streams of compile-time blocks;
* `trimParts_nested`, the routines for parts at every level of nesting.
-/

namespace SourceIr.Lower

open SourceIr.Stream Logic

/-- What is relied on for the parts of a construct. -/
structure TrimParts (env : Env) (parts : Parts) : Prop where
  expr : ∀ {on : Bool} {s : State} {node : Node} {scope : ScopeId} {loc : ResultLoc},
    node.Orderly on → s.GoesOn →
    Trims env s (parts.expr node scope loc) fun s' _ => Code on s s'
  statement : ∀ {on : Bool} {s : State} {node : Node} {scope : ScopeId},
    node.Orderly on → s.GoesOn →
    Trims env s (parts.statement node scope) fun s' _ => Code on s s'

variable {env : Env} {parts : Parts} {s s' s₀ : State} {node : Node} {scope : ScopeId}
  {location : Option Location} {loc : ResultLoc} {α β : Type} {v : InstId} {on : Bool}
  {b c : BlockId} {bs : List BlockId} {Q : State → α → Prop}

theorem trims_of_trimmed {x : LowerM α} (h : Trimmed s → Trims env s x Q) : Trims env s x Q :=
  fun hs => h hs hs

/-! ### What the logic gives -/

theorem trims_of_holds {x : LowerM α} (h : (trim env).Holds s x Q) (hs : s.GoesOn) :
    Trims env s x fun s' _ => Code true s s' :=
  trims_mono (h hs) fun _ _ h => h.1

theorem TrimParts.holds (hp : TrimParts env parts) : (trim env).HoldsParts parts :=
  fun _ _ _ _ hf _ _ hs => trims_mono (hp.expr hf hs) fun _ _ h => ⟨h, trivial⟩

theorem trims_settle (hs : s.GoesOn) :
    Trims env s (settle loc scope location) fun s' _ => Code true s s' :=
  trims_of_holds (holds_settle (L := trim env) trivial fun _ _ => trivial) hs

theorem trims_deliver (hs : s.GoesOn) :
    Trims env s (deliver v loc scope location) fun s' _ => Code true s s' :=
  trims_of_holds (holds_deliver (L := trim env) trivial trivial fun _ _ => trivial) hs

theorem trims_emitPlain {kind : InstKind} {force gen : Bool} (hk : kind.isPlain = true)
    (hs : s.GoesOn) :
    Trims env s (emitWith kind scope location force gen) fun s' _ => Code true s s' :=
  trims_mono (trims_emitWith hs) fun _ _ h =>
    ⟨h.adds, fun _ => h.goesOn (InstKind.goesOn_of_isPlain hk)⟩

theorem trims_emitVoid (hs : s.GoesOn) :
    Trims env s (emitVoid scope location) fun s' _ => Code true s s' :=
  trims_emitPlain rfl hs

theorem trims_emitTo {kind : InstKind} (hk : kind.isPlain = true) (hs : s.GoesOn) :
    Trims env s (emitTo kind scope location loc) fun s' _ => Code true s s' := by
  refine trims_bind (trims_emitPlain hk hs) fun s₁ v c₁ => ?_
  exact trims_mono (trims_deliver c₁.end_goesOn) fun _ _ c₂ => c₁.adds.code c₂

theorem trims_emitTest {payload : Option String} (hs : s.GoesOn) :
    Trims env s (emitTest node payload v scope) fun s' _ => Code true s s' :=
  trims_of_holds (holds_emitTest (L := trim env) trivial trivial) hs

theorem trims_enterBranch {payload : Option String} (hs : s.GoesOn) :
    Trims env s (enterBranch node payload v scope) fun s' _ => Code true s s' :=
  trims_of_holds (holds_enterBranch (L := trim env) trivial trivial) hs

theorem trims_bindPayload {name : String} (hs : s.GoesOn) :
    Trims env s (bindPayload scope name v node) fun s' _ => Code true s s' :=
  trims_of_holds (holds_bindPayload (L := trim env) trivial trivial) hs

theorem trims_declare {r : BindingRequest} (hs : s.GoesOn) :
    Trims env s (declare scope r) fun s' _ => Code true s s' := by
  refine trims_bind trims_declare? fun s₁ result h => ?_
  cases result with
  | ok id => exact trims_pure (h.code fun _ => hs)
  | error m => exact trims_of_fails fun _ _ => not_returns_fail

/-! ### The blocks of a construct -/

/-- The blocks that were made since the state `s₀` and that are still to be filled. -/
structure Unfilled (s₀ s : State) (bs : List BlockId) : Prop where
  adds : Adds s₀ s
  nodup : bs.Nodup
  waiting : ∀ b ∈ bs, Waiting s b
  new : ∀ b ∈ bs, s₀.stream.blocks.size ≤ b.index

namespace Unfilled

theorem of_adds (h : Adds s₀ s) : Unfilled s₀ s [] := ⟨h, .nil, nofun, nofun⟩

theorem after (u : Unfilled s₀ s bs) (h : Adds s s') : Unfilled s₀ s' bs :=
  ⟨u.adds.trans h, u.nodup, fun b hb => h.waiting (u.waiting b hb), u.new⟩

theorem swap (u : Unfilled s₀ s (b :: c :: bs)) : Unfilled s₀ s (c :: b :: bs) := by
  have hmem : ∀ d ∈ c :: b :: bs, d ∈ b :: c :: bs := fun d hd =>
    (List.Perm.swap b c bs).mem_iff.1 hd
  exact ⟨u.adds, (List.Perm.swap b c bs).nodup_iff.2 u.nodup, fun d hd => u.waiting d (hmem d hd),
    fun d hd => u.new d (hmem d hd)⟩

/-- One more block is made. -/
theorem newBlock (u : Unfilled s₀ s bs) (hs : Fine s) (name : String) :
    Unfilled s₀ { s with stream := (s.stream.newBlock name).2 }
      (bs ++ [⟨s.stream.blocks.size⟩]) := by
  have hadds : Adds s { s with stream := (s.stream.newBlock name).2 } :=
    ⟨by simp [Stream.newBlock], fun _ _ _ => rfl, .inl rfl⟩
  refine ⟨u.adds.trans hadds, ?_, fun c hc => ?_, fun c hc => ?_⟩
  · refine List.nodup_append.2 ⟨u.nodup, by simp, fun c hc d hd => ?_⟩
    obtain rfl := List.mem_singleton.1 hd
    rintro rfl
    exact absurd (u.waiting _ hc).lt (Nat.lt_irrefl _)
  · rcases List.mem_append.1 hc with hc | hc
    · exact hadds.waiting (u.waiting c hc)
    · rw [List.mem_singleton.1 hc]
      exact waiting_newBlock hs
  · rcases List.mem_append.1 hc with hc | hc
    · exact u.new c hc
    · exact List.mem_singleton.1 hc ▸ u.adds.blocks

/-- One of the blocks is gone to. -/
theorem goto (u : Unfilled s₀ s (b :: bs)) :
    Unfilled s₀ { s with stream := s.stream.goto b } bs := by
  obtain ⟨hnot, hnodup⟩ := List.nodup_cons.1 u.nodup
  refine ⟨⟨u.adds.blocks, u.adds.others, .inr (u.new b (by simp))⟩, hnodup, fun c hc => ?_,
    fun c hc => u.new c (by simp [hc])⟩
  exact (u.waiting c (by simp [hc])).goto fun e => hnot (e ▸ hc)

end Unfilled

theorem trims_newBlock {name : String} (u : Unfilled s₀ s bs) (hs : s.GoesOn) :
    Trims env s (newBlock name) fun s' b => Unfilled s₀ s' (bs ++ [b]) ∧ s'.GoesOn := by
  intro ht b s' hr
  rw [newBlock, returns_get_bind] at hr
  obtain ⟨_, t, h₁, hr⟩ := returns_bind.1 hr
  obtain rfl := returns_set.1 h₁
  obtain ⟨rfl, rfl⟩ := returns_pure.1 hr
  have hcoh := ht.stream.newBlock name
  have hgo : (s.stream.newBlock name).2.isTerminated = false := by
    rw [← Bool.not_eq_true, hcoh.isTerminated_iff]
    exact fun he => Bool.false_ne_true (hs.symm.trans (ht.stream.isTerminated_iff.2 he))
  exact ⟨⟨⟨hcoh, ht.scopes⟩, ht.trim, ht.children, ht.deferred⟩, u.newBlock ht.toFine name, hgo⟩

/-- Control goes on in a block that is still to be filled. -/
theorem trims_goto (u : Unfilled s₀ s (b :: bs)) :
    Trims env s (goto b) fun s' _ => Unfilled s₀ s' bs ∧ s'.GoesOn := by
  intro ht _ s' hr
  obtain rfl := returns_modify.1 hr
  have hb : Waiting s b := u.waiting b (by simp)
  have hcoh := ht.stream.goto hb.lt
  refine ⟨⟨⟨hcoh, ht.scopes⟩, ht.trim, ht.children, ht.deferred⟩, u.goto, ?_⟩
  rw [State.GoesOn, ← Bool.not_eq_true, hcoh.isTerminated_iff]
  rintro ⟨x, hx, -⟩
  rw [show (s.stream.goto b).instsIn (s.stream.goto b).currentBlock = [] from hb.empty] at hx
  cases hx

/-- A jump, or what ends a block otherwise. -/
theorem trims_endWith {kind : InstKind} {force gen : Bool} (hs : s.GoesOn) :
    Trims env s (emitWith kind scope location force gen) fun s' _ => Code false s s' :=
  trims_mono (trims_emitWith hs) fun _ _ h => ⟨h.adds, nofun⟩

/-- Control goes on at a join if a value arrives there. -/
theorem trims_joinAt {incoming : List (BlockId × InstId)} (u : Unfilled s₀ s [b])
    (hi : on = true → incoming ≠ []) :
    Trims env s (joinAt b incoming scope node) fun s' _ => Code on s₀ s' := by
  refine trims_bind (trims_goto u) fun s₁ _ ⟨u, hs₁⟩ => ?_
  cases incoming with
  | nil =>
    refine trims_mono (trims_endWith hs₁) fun s' _ h => ⟨u.adds.trans h.adds, fun ho => ?_⟩
    exact absurd rfl (hi ho)
  | cons f rest =>
    exact trims_mono (trims_emitWith hs₁) fun s' _ h => u.adds.code (h.weaken on)

/-- A value arrives at the end of a construct if control gets to the end of a branch. -/
theorem trims_branchInto {incoming : List (BlockId × InstId)} {force : Bool} :
    Trims env s (branchInto b incoming v scope force) fun s' r =>
      Adds s s' ∧ (s.GoesOn ∨ incoming ≠ [] → r ≠ []) := by
  refine trims_isTerminated_bind ?_
  cases ht : s.stream.isTerminated with
  | true =>
    refine trims_pure ⟨.refl s, fun h => h.resolve_left fun hs => ?_⟩
    exact Bool.false_ne_true (hs.symm.trans ht)
  | false =>
    refine trims_currentBlock_bind fun source => ?_
    refine trims_bind (trims_endWith ht) fun s₁ _ h => trims_pure ⟨h.adds, fun _ => by simp⟩

/-! ### Deferred expressions -/

variable (hp : TrimParts env parts)

include hp in
theorem trims_runDefer {expr : Node} (he : expr.Orderly true) (hs : s.GoesOn) :
    Trims env s (runDefer parts scope expr) fun s' _ => Code true s s' := by
  refine trims_scopeAt_bind fun x => ?_
  refine trims_bind trims_openScope fun s₁ body h₁ => ?_
  refine trims_bind (hp.expr he (h₁.goesOn hs)) fun s₂ _ c₂ => ?_
  exact trims_pure (h₁.adds.code c₂)

include hp in
theorem trims_runDefersIn {path : ExitPath} {defers : List (ScopeId × DeferKind)} (hs : s.GoesOn) :
    Trims env s (runDefersIn parts path defers) fun s' _ => Code true s s' := by
  induction defers generalizing s with
  | nil => exact trims_pure (.refl fun _ => hs)
  | cons d rest ih =>
    refine trims_of_trimmed fun ht => trims_get_bind ?_
    dsimp only
    split
    · exact ih hs
    next expr hexpr =>
      have hlookup : s.deferred.lookup d.1 = some expr := by
        split at hexpr
        · exact hexpr
        · cases hexpr
      obtain ⟨before, after, hd, -⟩ := List.lookup_eq_some_iff.1 hlookup
      have he : expr.Orderly true := ht.deferred (d.1, expr) (by simp [hd])
      refine trims_bind (trims_runDefer hp he hs) fun s₁ _ c₁ => ?_
      refine trims_goesOn_bind c₁.end_goesOn ?_
      exact trims_mono (ih c₁.end_goesOn) fun _ _ c₂ => c₁.adds.code c₂

include hp in
theorem trims_runDefers {target : Option ScopeId} {path : ExitPath} (hs : s.GoesOn) :
    Trims env s (runDefers parts scope target path) fun s' _ => Code true s s' :=
  trims_scopesFrom_bind (trims_runDefersIn hp hs)

/-! ### Statements and blocks -/

include hp in
theorem trims_lowerStatements {statements : List Node} (hall : ∀ n ∈ statements, n.Orderly on)
    (hs : on = true → s.GoesOn) :
    Trims env s (lowerStatements parts scope false statements) fun s' _ => Code on s s' := by
  induction statements generalizing s scope with
  | nil => exact trims_pure (.refl hs)
  | cons statement rest ih =>
    refine trims_isTerminated_bind ?_
    cases ht : s.stream.isTerminated with
    | true => exact trims_bind trims_warnAt fun s₁ _ h => trims_pure (h.code hs)
    | false =>
      refine trims_attempt_bind (hp.statement (hall statement (by simp)) ht) ?_ fun t last s' => ?_
      · intro s₁ next c₁
        refine trims_mono (ih (fun n hn => hall n (by simp [hn])) c₁.goesOn) fun _ _ c₂ => ?_
        exact c₁.adds.code c₂
      · refine not_returns_bind fun _ _ => ?_
        split
        · exact not_returns_throw
        · exact not_returns_lowerStatements

/-- The value of a block, once its scope is left. -/
theorem trims_blockValue (hs : on = true → s.GoesOn) :
    Trims env s (do
      let terminated ← isTerminated
      let stream := (← get).stream
      match if terminated then stream.last? else none with
      | some stop => return stop
      | none =>
        let void ← emitVoid scope node.location
        deliver void loc scope node.location) fun s' _ => Code on s s' := by
  refine trims_of_trimmed fun hs' => trims_isTerminated_bind (trims_get_bind ?_)
  dsimp only
  split
  · exact trims_pure (.refl hs)
  next h =>
    have hgo : s.GoesOn := by
      cases ht : s.stream.isTerminated with
      | false => exact ht
      | true =>
        obtain ⟨i, hi⟩ := hs'.stream.last?_of_isTerminated ht
        simp [ht, hi] at h
    refine trims_bind (trims_emitVoid hgo) fun s₁ void c₁ => ?_
    exact trims_mono (trims_deliver c₁.end_goesOn) fun _ _ c₂ => c₁.adds.code (c₂.weaken on)

include hp in
theorem trims_lowerPlainBlock {statements : List Node} (hall : ∀ n ∈ statements, n.Orderly on)
    (hs : s.GoesOn) :
    Trims env s (lowerPlainBlock parts node statements scope loc) fun s' _ => Code on s s' := by
  refine trims_bind trims_openScope fun s₁ block h₁ => ?_
  refine trims_bind (trims_lowerStatements hp hall fun _ => h₁.goesOn hs) fun s₂ last c₂ => ?_
  have a₂ : Adds s s₂ := h₁.adds.trans c₂.adds
  refine trims_isTerminated_bind ?_
  cases ht : s₂.stream.isTerminated with
  | true => exact trims_mono (trims_blockValue c₂.goesOn) fun _ _ c₃ => a₂.code c₃
  | false =>
    refine trims_bind (trims_runDefers hp ht) fun s₃ _ c₃ => ?_
    exact trims_mono (trims_blockValue fun _ => c₃.end_goesOn) fun _ _ c₄ =>
      (a₂.trans c₃.adds).code c₄

theorem trims_openSink : Trims env s (openSink scope loc) fun s' _ => Still s s' :=
  trims_mono (trims_still (Q := fun _ _ => True) fun _ _ hr =>
    ⟨returns_modify.1 hr ▸ ⟨id, rfl, rfl, rfl, rfl, rfl⟩, trivial⟩) fun _ _ h => h.1

theorem trims_flowInto : Trims env s (flowInto scope v) fun s' _ => Still s s' :=
  trims_mono (trims_still (Q := fun _ _ => True) fun _ _ hr =>
    ⟨returns_modify.1 hr ▸ ⟨id, rfl, rfl, rfl, rfl, rfl⟩, trivial⟩) fun _ _ h => h.1

theorem trims_closeSink : Trims env s (closeSink scope) fun s' _ => Still s s' := by
  refine trims_get_bind (trims_bind (R := fun s' _ => Still s s') (fun ht _ s' hr => ?_)
    fun _ _ h => trims_pure h)
  have h : Still s s' := returns_set.1 hr ▸ ⟨id, rfl, rfl, rfl, rfl, rfl⟩
  exact ⟨h.trimmed ht, h⟩

include hp in
/-- Nothing is known of whether control gets to the end of a labelled block. -/
theorem trims_lowerLabelledBlock {label : String} {statements : List Node}
    (hall : ∀ n ∈ statements, n.Orderly false) (hs : s.GoesOn) :
    Trims env s (lowerLabelledBlock parts node label statements scope loc) fun s' _ =>
      Code false s s' := by
  refine trims_bind (trims_settle hs) fun s₁ loc c₁ => ?_
  refine trims_bind (trims_newBlock (.of_adds c₁.adds) c₁.end_goesOn) fun s₂ stop ⟨u, h₂⟩ => ?_
  refine trims_bind trims_openScope fun s₃ block h₃ => ?_
  refine trims_bind trims_openSink fun s₄ _ h₄ => ?_
  have u := (u.after h₃.adds).after h₄.adds
  refine trims_bind (trims_lowerStatements hp hall fun _ => h₄.goesOn (h₃.goesOn h₂))
    fun s₅ last c₅ => ?_
  have u := u.after c₅.adds
  have join : ∀ s', Adds s₅ s' → Trims env s' (do
      joinAt stop (← closeSink block) scope node) fun s' _ => Code false s s' := by
    intro s₆ a₆
    refine trims_bind trims_closeSink fun s₇ incoming h₇ => ?_
    exact trims_joinAt ((u.after a₆).after h₇.adds) nofun
  refine trims_isTerminated_bind ?_
  cases ht : s₅.stream.isTerminated with
  | true => exact join s₅ (.refl s₅)
  | false =>
    refine trims_bind (trims_runDefers hp ht) fun s₆ _ c₆ => ?_
    refine trims_goesOn_bind c₆.end_goesOn ?_
    refine trims_bind (trims_emitVoid c₆.end_goesOn) fun s₇ void c₇ => ?_
    refine trims_bind trims_flowInto fun s₈ _ h₈ => ?_
    refine trims_bind (trims_endWith (h₈.goesOn c₇.end_goesOn)) fun s₉ _ c₉ => ?_
    exact join s₉ (((c₆.adds.trans c₇.adds).trans h₈.adds).trans c₉.adds)

include hp in
theorem trims_lowerBlock {label : Option String} {statements : List Node}
    (hl : on = true → label = none) (hall : ∀ n ∈ statements, n.Orderly on) (hs : s.GoesOn) :
    Trims env s (lowerBlock parts node label statements scope loc) fun s' _ => Code on s s' := by
  cases label with
  | none => exact trims_lowerPlainBlock hp hall hs
  | some label =>
    cases on with
    | true => cases hl rfl
    | false => exact trims_lowerLabelledBlock hp hall hs

include hp in
theorem trims_lowerExprStatement (hn : node.Orderly on) (hs : s.GoesOn) :
    Trims env s (lowerExprStatement parts node scope) fun s' _ => Code on s s' := by
  refine trims_get_bind ?_
  refine trims_bind (hp.expr hn hs) fun s₁ value c₁ => ?_
  have check : ∀ s', Still s₁ s' → s'.GoesOn → Trims env s' (do
      let _ ← emitGen (.checkStatementIsVoid value) scope node.location) fun s' _ =>
        Code on s s' := by
    intro s₂ h₂ hs₂
    refine trims_bind (trims_emitPlain rfl hs₂) fun s₃ _ c₃ => ?_
    exact trims_pure ((c₁.adds.trans h₂.adds).code (c₃.weaken on))
  refine trims_isTerminated_bind ?_
  cases ht : s₁.stream.isTerminated with
  | true => exact trims_pure c₁
  | false =>
    refine trims_hasEffectSince_bind fun effectful => trims_read_bind ?_
    dsimp only
    split
    · exact trims_bind trims_warnAt fun s₂ _ h₂ => check s₂ h₂ (h₂.goesOn ht)
    · exact check s₁ (.refl s₁) ht

theorem trims_remember {expr : Node} (he : expr.Orderly true) (hs : s.GoesOn) :
    Trims env s (remember scope expr) fun s' _ => Code true s s' := by
  intro ht _ s' hr
  obtain rfl := returns_modify.1 hr
  refine ⟨⟨⟨ht.stream, ht.scopes⟩, ht.trim, ht.children, fun d hd => ?_⟩,
    ⟨Nat.le_refl _, fun _ _ _ => rfl, .inl rfl⟩, fun _ => hs⟩
  rcases List.mem_cons.1 hd with rfl | hd
  · exact he
  · exact ht.deferred d hd

include hp in
theorem trims_lowerStatement (hn : node.Orderly on) (hs : s.GoesOn) :
    Trims env s (lowerStatement parts node scope) fun s' _ => Code on s s' := by
  have after : ∀ {x : LowerM PUnit}, Trims env s x (fun s' _ => Code on s s') →
      Trims env s (do x; return scope) fun s' _ => Code on s s' := fun hx =>
    trims_bind hx fun _ _ h => trims_pure h
  have keeps : ∀ {x : LowerM PUnit}, (trim env).Keeps s x →
      Trims env s x fun s' _ => Code on s s' := fun hx =>
    trims_mono (trims_of_holds hx hs) fun _ _ h => h.weaken on
  rw [lowerStatement]
  split
  next hk =>
    have hparts := (hn.plain_parts (by rw [hk]; rfl)).2
    rw [hk] at hparts
    exact after (keeps (holds_lowerLocalVar hp.holds rfl hparts trivial))
  next kind expr hk =>
    have hdeferred := (hn.plain_parts (by rw [hk]; rfl)).1
    rw [hk] at hdeferred
    refine trims_bind trims_openScope fun s₁ after h₁ => ?_
    refine trims_bind (trims_remember (hdeferred expr rfl) (h₁.goesOn hs)) fun s₂ _ c₂ => ?_
    exact trims_pure (h₁.adds.code (c₂.weaken on))
  next target value hk =>
    have hparts := (hn.plain_parts (by rw [hk]; rfl)).2
    rw [hk] at hparts
    exact after (keeps (holds_lowerAssign hp.holds (hparts target (by simp [Kind.used]))
      (hparts value (by simp [Kind.used])) trivial))
  next op target value hk =>
    have hparts := (hn.plain_parts (by rw [hk]; rfl)).2
    rw [hk] at hparts
    exact after (keeps (holds_lowerAssignOp hp.holds (hparts target (by simp [Kind.used]))
      (hparts value (by simp [Kind.used])) trivial))
  next =>
    split
    · exact after (trims_lowerExprStatement hp hn hs)
    · exact trims_bind (hp.expr hn hs) fun s₁ _ c₁ => trims_pure c₁

/-! ### Branches -/

include hp in
theorem trims_lowerElse {branch : Option Node} (hb : ∀ e ∈ branch, e.Orderly on) (hs : s.GoesOn) :
    Trims env s (lowerElse parts node branch scope loc) fun s' _ => Code on s s' := by
  cases branch with
  | some branch => exact hp.expr (hb branch rfl) hs
  | none => exact trims_mono (trims_emitVoid hs) fun _ _ h => h.weaken on

include hp in
theorem trims_lowerIf {o o' : Bool} {condition thenBranch : Node} {payload : Option String}
    {elseBranch : Option Node} (hc : condition.Orderly true) (ht : thenBranch.Orderly o)
    (he : ∀ e ∈ elseBranch, e.Orderly o') (ho : on = true → o = true ∨ o' = true) (hs : s.GoesOn) :
    Trims env s (lowerIf parts node condition payload thenBranch elseBranch scope loc) fun s' _ =>
      Code on s s' := by
  refine trims_bind (trims_settle hs) fun s₁ loc c₁ => ?_
  refine trims_bind (hp.expr hc c₁.end_goesOn) fun s₂ cond c₂ => ?_
  have u := Unfilled.of_adds (c₁.adds.trans c₂.adds)
  refine trims_bind (trims_newBlock u c₂.end_goesOn) fun s₃ thenBlock ⟨u, h₃⟩ => ?_
  refine trims_bind (trims_newBlock u h₃) fun s₄ elseBlock ⟨u, h₄⟩ => ?_
  refine trims_bind (trims_newBlock u h₄) fun s₅ stop ⟨u, h₅⟩ => ?_
  refine trims_bind (trims_emitTest h₅) fun s₆ test c₆ => ?_
  refine trims_bind (trims_endWith c₆.end_goesOn) fun s₇ _ c₇ => ?_
  refine trims_bind (trims_goto ((u.after c₆.adds).after c₇.adds)) fun s₈ _ ⟨u, h₈⟩ => ?_
  refine trims_bind (trims_enterBranch h₈) fun s₉ thenScope c₉ => ?_
  refine trims_bind (hp.expr ht c₉.end_goesOn) fun s₁₀ value c₁₀ => ?_
  refine trims_bind trims_branchInto fun s₁₁ incoming ⟨a₁₁, hi⟩ => ?_
  have u := ((u.after c₉.adds).after c₁₀.adds).after a₁₁
  refine trims_bind (trims_goto u) fun s₁₂ _ ⟨u, h₁₂⟩ => ?_
  refine trims_bind (trims_lowerElse hp he h₁₂) fun s₁₃ value c₁₃ => ?_
  refine trims_bind trims_branchInto fun s₁₄ incoming' ⟨a₁₄, hi'⟩ => ?_
  refine trims_joinAt ((u.after c₁₃.adds).after a₁₄) fun h => hi' ?_
  rcases ho h with rfl | rfl
  · exact .inr (hi (.inl c₁₀.end_goesOn))
  · exact .inl c₁₃.end_goesOn

include hp in
theorem trims_lowerCatch {lhs rhs : Node} {payload : Option String} (hl : lhs.Orderly true)
    (hr : rhs.Orderly false) (hs : s.GoesOn) :
    Trims env s (lowerCatch parts node lhs payload rhs scope loc) fun s' _ => Code on s s' := by
  refine trims_bind (trims_settle hs) fun s₁ loc c₁ => ?_
  refine trims_bind (hp.expr hl c₁.end_goesOn) fun s₂ value c₂ => ?_
  refine trims_bind (trims_emitPlain rfl c₂.end_goesOn) fun s₃ isErr c₃ => ?_
  have u := Unfilled.of_adds ((c₁.adds.trans c₂.adds).trans c₃.adds)
  refine trims_bind (trims_newBlock u c₃.end_goesOn) fun s₄ errBlock ⟨u, h₄⟩ => ?_
  refine trims_bind (trims_newBlock u h₄) fun s₅ okBlock ⟨u, h₅⟩ => ?_
  refine trims_bind (trims_newBlock u h₅) fun s₆ stop ⟨u, h₆⟩ => ?_
  refine trims_bind (trims_endWith h₆) fun s₇ _ c₇ => ?_
  refine trims_bind (trims_goto (u.after c₇.adds)) fun s₈ _ ⟨u, h₈⟩ => ?_
  refine trims_bind trims_openScope fun s₉ handler h₉ => ?_
  -- What is left once the scope of the handler is known.
  have rest : ∀ s₁₀ handler, Adds s₉ s₁₀ → s₁₀.GoesOn → Trims env s₁₀ (do
      let handled ← parts.expr rhs handler loc
      let incoming ← branchInto stop [] handled scope false
      goto okBlock
      let payload ← emitGen (.unwrapErrPayload value false) scope node.location
      let payload ← deliver payload loc scope node.location
      let incoming ← branchInto stop incoming payload scope false
      joinAt stop incoming scope node) fun s' _ => Code on s s' := by
    intro s₁₀ handler a₁₀ h₁₀
    refine trims_bind (hp.expr hr h₁₀) fun s₁₁ handled c₁₁ => ?_
    refine trims_bind trims_branchInto fun s₁₂ incoming ⟨a₁₂, _⟩ => ?_
    have u := (((u.after h₉.adds).after a₁₀).after c₁₁.adds).after a₁₂
    refine trims_bind (trims_goto u) fun s₁₃ _ ⟨u, h₁₃⟩ => ?_
    refine trims_bind (trims_emitPlain rfl h₁₃) fun s₁₄ payload c₁₄ => ?_
    refine trims_bind (trims_deliver c₁₄.end_goesOn) fun s₁₅ payload c₁₅ => ?_
    refine trims_bind trims_branchInto fun s₁₆ incoming ⟨a₁₆, hi⟩ => ?_
    exact trims_joinAt (((u.after c₁₄.adds).after c₁₅.adds).after a₁₆)
      fun _ => hi (.inl c₁₅.end_goesOn)
  cases payload with
  | none => exact rest s₉ handler (.refl s₉) (h₉.goesOn h₈)
  | some name =>
    refine trims_bind (trims_emitPlain rfl (h₉.goesOn h₈)) fun s₁₀ code c₁₀ => ?_
    refine trims_bind (trims_bindPayload c₁₀.end_goesOn) fun s₁₁ inner c₁₁ => ?_
    exact rest s₁₁ inner (c₁₀.adds.trans c₁₁.adds) c₁₁.end_goesOn

include hp in
theorem trims_lowerOrElse {lhs rhs : Node} (hl : lhs.Orderly true) (hr : rhs.Orderly false)
    (hs : s.GoesOn) :
    Trims env s (lowerOrElse parts node lhs rhs scope loc) fun s' _ => Code on s s' := by
  refine trims_bind (trims_settle hs) fun s₁ loc c₁ => ?_
  refine trims_bind (hp.expr hl c₁.end_goesOn) fun s₂ value c₂ => ?_
  refine trims_bind (trims_emitPlain rfl c₂.end_goesOn) fun s₃ nonNull c₃ => ?_
  have u := Unfilled.of_adds ((c₁.adds.trans c₂.adds).trans c₃.adds)
  refine trims_bind (trims_newBlock u c₃.end_goesOn) fun s₄ okBlock ⟨u, h₄⟩ => ?_
  refine trims_bind (trims_newBlock u h₄) fun s₅ nullBlock ⟨u, h₅⟩ => ?_
  refine trims_bind (trims_newBlock u h₅) fun s₆ stop ⟨u, h₆⟩ => ?_
  refine trims_bind (trims_endWith h₆) fun s₇ _ c₇ => ?_
  refine trims_bind (trims_goto (u.after c₇.adds).swap) fun s₈ _ ⟨u, h₈⟩ => ?_
  refine trims_bind (hp.expr hr h₈) fun s₉ fallback c₉ => ?_
  refine trims_bind trims_branchInto fun s₁₀ incoming ⟨a₁₀, _⟩ => ?_
  refine trims_bind (trims_goto ((u.after c₉.adds).after a₁₀)) fun s₁₁ _ ⟨u, h₁₁⟩ => ?_
  refine trims_bind (trims_emitPlain rfl h₁₁) fun s₁₂ inner c₁₂ => ?_
  refine trims_bind (trims_deliver c₁₂.end_goesOn) fun s₁₃ inner c₁₃ => ?_
  refine trims_bind trims_branchInto fun s₁₄ incoming ⟨a₁₄, hi⟩ => ?_
  exact trims_joinAt (((u.after c₁₂.adds).after c₁₃.adds).after a₁₄)
    fun _ => hi (.inl c₁₃.end_goesOn)

include hp in
theorem trims_lowerShortCircuit {op : BinaryOperator} {lhs rhs : Node} (hl : lhs.Orderly true)
    (hr : rhs.Orderly false) (hs : s.GoesOn) :
    Trims env s (lowerShortCircuit parts node op lhs rhs scope loc) fun s' _ => Code on s s' := by
  refine trims_bind (hp.expr hl hs) fun s₁ left c₁ => ?_
  refine trims_bind (trims_newBlock (.of_adds c₁.adds) c₁.end_goesOn) fun s₂ rhsBlock ⟨u, h₂⟩ => ?_
  refine trims_bind (trims_newBlock u h₂) fun s₃ stop ⟨u, h₃⟩ => ?_
  refine trims_currentBlock_bind fun source => ?_
  -- What is left once the branch is there.
  have rest : ∀ s₄, Adds s₃ s₄ → Trims env s₄ (do
      goto rhsBlock
      let right ← parts.value rhs scope
      let incoming ← branchInto stop [(source, left)] right scope false
      let value ← joinAt stop incoming scope node
      deliver value loc scope node.location) fun s' _ => Code on s s' := by
    intro s₄ a₄
    refine trims_bind (trims_goto (u.after a₄)) fun s₅ _ ⟨u, h₅⟩ => ?_
    refine trims_bind (hp.expr hr h₅) fun s₆ right c₆ => ?_
    refine trims_bind trims_branchInto fun s₇ incoming ⟨a₇, hi⟩ => ?_
    have hjoin : Trims env s₇ (joinAt stop incoming scope node) fun s' _ => Code true s s' :=
      trims_joinAt ((u.after c₆.adds).after a₇) fun _ => hi (.inr (by simp))
    refine trims_bind hjoin fun s₈ value c₈ => ?_
    exact trims_mono (trims_deliver c₈.end_goesOn) fun _ _ c₉ => c₈.adds.code (c₉.weaken on)
  split
  · exact trims_bind (trims_endWith h₃) fun s₄ _ c₄ => rest s₄ c₄.adds
  · exact trims_bind (trims_endWith h₃) fun s₄ _ c₄ => rest s₄ c₄.adds

/-! ### Loops -/

theorem trims_newLoop {word : String} (u : Unfilled s₀ s []) (hs : s.GoesOn) :
    Trims env s (newLoop word) fun s' blocks =>
      Unfilled s₀ s' [blocks.test, blocks.body, blocks.step, blocks.orElse, blocks.stop] ∧
        s'.GoesOn := by
  refine trims_bind (trims_newBlock u hs) fun s₁ test ⟨u, h₁⟩ => ?_
  refine trims_bind (trims_newBlock u h₁) fun s₂ body ⟨u, h₂⟩ => ?_
  refine trims_bind (trims_newBlock u h₂) fun s₃ step ⟨u, h₃⟩ => ?_
  refine trims_bind (trims_newBlock u h₃) fun s₄ orElse ⟨u, h₄⟩ => ?_
  refine trims_bind (trims_newBlock u h₄) fun s₅ stop ⟨u, h₅⟩ => ?_
  exact trims_pure ⟨u, h₅⟩

theorem trims_enterLoop {label : Option String} {blocks : LoopBlocks} (hs : s.GoesOn) :
    Trims env s (enterLoop scope label blocks loc) fun s' _ => Code true s s' := by
  refine trims_bind trims_openScope fun s₁ loopScope h₁ => ?_
  refine trims_bind trims_openSink fun s₂ _ h₂ => trims_pure ?_
  exact h₁.adds.code (h₂.code fun _ => h₁.goesOn hs)

theorem trims_jumpUnlessTerminated {force : Bool} :
    Trims env s (jumpUnlessTerminated b node scope force) fun s' _ => Adds s s' := by
  refine trims_isTerminated_bind ?_
  cases ht : s.stream.isTerminated with
  | true => exact trims_pure (.refl s)
  | false => exact trims_bind (trims_endWith ht) fun _ _ c => trims_pure c.adds

include hp in
/-- Control goes on after a loop if it does after the branch for when the test fails. -/
theorem trims_finishLoop {loopScope : ScopeId} {elseBranch : Option Node} {blocks : LoopBlocks}
    {force : Bool} (he : ∀ e ∈ elseBranch, e.Orderly on)
    (u : Unfilled s₀ s [blocks.orElse, blocks.stop]) :
    Trims env s (finishLoop parts node loopScope elseBranch blocks scope loc force) fun s' _ =>
      Code on s₀ s' := by
  refine trims_bind (trims_goto u) fun s₁ _ ⟨u, h₁⟩ => ?_
  refine trims_bind (trims_lowerElse hp he h₁) fun s₂ value c₂ => ?_
  refine trims_bind trims_closeSink fun s₃ incoming h₃ => ?_
  refine trims_bind trims_branchInto fun s₄ incoming' ⟨a₄, hi⟩ => ?_
  exact trims_joinAt (((u.after c₂.adds).after h₃.adds).after a₄)
    fun ho => hi (.inl (h₃.goesOn (c₂.goesOn ho)))

include hp in
theorem trims_lowerWhile {label payload : Option String} {condition body : Node}
    {step elseBranch : Option Node} {isInline : Bool} (hc : condition.Orderly true)
    (hstep : ∀ e ∈ step, e.Orderly false) (hb : body.Orderly false)
    (he : ∀ e ∈ elseBranch, e.Orderly on) (hs : s.GoesOn) :
    Trims env s (lowerWhile parts node label condition payload step body elseBranch isInline scope
      loc) fun s' _ => Code on s s' := by
  refine trims_bind (trims_settle hs) fun s₁ loc c₁ => ?_
  refine trims_bind (trims_newLoop (.of_adds c₁.adds) c₁.end_goesOn) fun s₂ blocks ⟨u, h₂⟩ => ?_
  refine trims_bind (trims_endWith h₂) fun s₃ _ c₃ => ?_
  refine trims_bind (trims_goto (u.after c₃.adds)) fun s₄ _ ⟨u, h₄⟩ => ?_
  refine trims_bind (hp.expr hc h₄) fun s₅ cond c₅ => ?_
  refine trims_bind (trims_emitTest c₅.end_goesOn) fun s₆ test c₆ => ?_
  refine trims_bind (trims_endWith c₆.end_goesOn) fun s₇ _ c₇ => ?_
  have u := ((u.after c₅.adds).after c₆.adds).after c₇.adds
  refine trims_bind (trims_goto u) fun s₈ _ ⟨u, h₈⟩ => ?_
  refine trims_bind (trims_enterLoop h₈) fun s₉ loopScope c₉ => ?_
  refine trims_bind (trims_enterBranch c₉.end_goesOn) fun s₁₀ bodyScope c₁₀ => ?_
  refine trims_bind (hp.expr hb c₁₀.end_goesOn) fun s₁₁ _ c₁₁ => ?_
  refine trims_bind trims_jumpUnlessTerminated fun s₁₂ _ a₁₂ => ?_
  have u := (((u.after c₉.adds).after c₁₀.adds).after c₁₁.adds).after a₁₂
  refine trims_bind (trims_goto u) fun s₁₃ _ ⟨u, h₁₃⟩ => ?_
  -- What is left after the step.
  have rest : ∀ s', Adds s₁₃ s' → Trims env s' (do
      jumpUnlessTerminated blocks.test node scope isInline
      finishLoop parts node loopScope elseBranch blocks scope loc isInline) fun s' _ =>
        Code on s s' := by
    intro s₁₄ a₁₄
    refine trims_bind trims_jumpUnlessTerminated fun s₁₅ _ a₁₅ => ?_
    exact trims_finishLoop hp he ((u.after a₁₄).after a₁₅)
  cases step with
  | none => exact rest s₁₃ (.refl s₁₃)
  | some step => exact trims_bind (hp.expr (hstep step rfl) h₁₃) fun s₁₄ _ c₁₄ => rest s₁₄ c₁₄.adds

include hp in
theorem trims_lowerFor {label index : Option String} {iterable body : Node} {item : String}
    {elseBranch : Option Node} {isInline : Bool} (hi : iterable.Orderly true)
    (hb : body.Orderly false) (he : ∀ e ∈ elseBranch, e.Orderly on) (hs : s.GoesOn) :
    Trims env s (lowerFor parts node label iterable item index body elseBranch isInline scope loc)
      fun s' _ => Code on s s' := by
  refine trims_bind (trims_settle hs) fun s₁ loc c₁ => ?_
  refine trims_bind (hp.expr hi c₁.end_goesOn) fun s₂ array c₂ => ?_
  refine trims_bind (trims_emitPlain rfl c₂.end_goesOn) fun s₃ lengthPtr c₃ => ?_
  refine trims_bind (trims_emitPlain rfl c₃.end_goesOn) fun s₄ length c₄ => ?_
  refine trims_bind (trims_emitPlain rfl c₄.end_goesOn) fun s₅ indexPtr c₅ => ?_
  refine trims_bind (trims_emitPlain rfl c₅.end_goesOn) fun s₆ zero c₆ => ?_
  refine trims_bind (trims_emitPlain rfl c₆.end_goesOn) fun s₇ _ c₇ => ?_
  have a₇ : Adds s s₇ := (((((c₁.adds.trans c₂.adds).trans c₃.adds).trans c₄.adds).trans
    c₅.adds).trans c₆.adds).trans c₇.adds
  refine trims_bind (trims_newLoop (.of_adds a₇) c₇.end_goesOn) fun s₈ blocks ⟨u, h₈⟩ => ?_
  refine trims_bind (trims_endWith h₈) fun s₉ _ c₉ => ?_
  refine trims_bind (trims_goto (u.after c₉.adds)) fun s₁₀ _ ⟨u, h₁₀⟩ => ?_
  refine trims_bind (trims_emitPlain rfl h₁₀) fun s₁₁ position c₁₁ => ?_
  refine trims_bind (trims_emitPlain rfl c₁₁.end_goesOn) fun s₁₂ inBounds c₁₂ => ?_
  refine trims_bind (trims_endWith c₁₂.end_goesOn) fun s₁₃ _ c₁₃ => ?_
  have u := ((u.after c₁₁.adds).after c₁₂.adds).after c₁₃.adds
  refine trims_bind (trims_goto u) fun s₁₄ _ ⟨u, h₁₄⟩ => ?_
  refine trims_bind (trims_enterLoop h₁₄) fun s₁₅ loopScope c₁₅ => ?_
  refine trims_bind (trims_emitPlain rfl c₁₅.end_goesOn) fun s₁₆ elementPtr c₁₆ => ?_
  refine trims_bind (trims_emitPlain rfl c₁₆.end_goesOn) fun s₁₇ element c₁₇ => ?_
  refine trims_bind (trims_bindPayload c₁₇.end_goesOn) fun s₁₈ bodyScope c₁₈ => ?_
  refine trims_bind (trims_declare c₁₈.end_goesOn) fun s₁₉ indexVar c₁₉ => ?_
  refine trims_bind (trims_emitPlain rfl c₁₉.end_goesOn) fun s₂₀ _ c₂₀ => ?_
  refine trims_bind (hp.expr hb c₂₀.end_goesOn) fun s₂₁ _ c₂₁ => ?_
  refine trims_bind trims_jumpUnlessTerminated fun s₂₂ _ a₂₂ => ?_
  have a₂₂ : Adds s₁₄ s₂₂ := ((((((c₁₅.adds.trans c₁₆.adds).trans c₁₇.adds).trans
    c₁₈.adds).trans c₁₉.adds).trans c₂₀.adds).trans c₂₁.adds).trans a₂₂
  refine trims_bind (trims_goto (u.after a₂₂)) fun s₂₃ _ ⟨u, h₂₃⟩ => ?_
  refine trims_bind (trims_of_holds (holds_stepIndex (L := trim env) trivial trivial) h₂₃)
    fun s₂₄ _ c₂₄ => ?_
  refine trims_bind (trims_endWith c₂₄.end_goesOn) fun s₂₅ _ c₂₅ => ?_
  exact trims_finishLoop hp he ((u.after c₂₄.adds).after c₂₅.adds)

/-! ### Jumps -/

include hp in
theorem trims_lowerBreak {label : Option String} {value : Option Node}
    (hv : ∀ v ∈ value, v.Orderly true) (hs : s.GoesOn) :
    Trims env s (lowerBreak parts node label value scope) fun s' _ => Code false s s' := by
  intro ht v s' hr
  obtain ⟨target, z, stop, -, -, hr⟩ := returns_lowerBreak hr
  -- What is left once the value is there.
  have rest : ∀ s₁ v, Code true s s₁ → Trims env s₁ (do
      runDefers parts scope (some target) .normal
      if ← isTerminated then lastInst
      else
        flowInto target v
        emit (.br stop) scope node.location) fun s' _ => Code false s s' := by
    intro s₁ v c₁
    refine trims_bind (trims_runDefers hp c₁.end_goesOn) fun s₂ _ c₂ => ?_
    refine trims_goesOn_bind c₂.end_goesOn ?_
    refine trims_bind trims_flowInto fun s₃ _ h₃ => ?_
    refine trims_mono (trims_endWith (h₃.goesOn c₂.end_goesOn)) fun _ _ c₄ => ?_
    exact ((c₁.adds.trans c₂.adds).trans h₃.adds).code c₄
  cases value with
  | some value =>
    exact trims_bind (hp.expr (hv value rfl) hs) (fun s₁ v c₁ => rest s₁ v c₁) ht v s' hr
  | none => exact trims_bind (trims_emitVoid hs) (fun s₁ v c₁ => rest s₁ v c₁) ht v s' hr

include hp in
theorem trims_lowerContinue {label : Option String} (hs : s.GoesOn) :
    Trims env s (lowerContinue parts node label scope) fun s' _ => Code false s s' := by
  intro ht v s' hr
  obtain ⟨target, z, step, -, -, hr⟩ := returns_lowerContinue hr
  refine trims_bind (Q := fun s' _ => Code false s s') (trims_runDefers hp hs)
    (fun s₁ _ c₁ => ?_) ht v s' hr
  refine trims_goesOn_bind c₁.end_goesOn ?_
  exact trims_mono (trims_endWith c₁.end_goesOn) fun _ _ c₂ => c₁.adds.code c₂

theorem trims_checkFnExit_bind {exit : FnExit} {f : PUnit → LowerM α}
    (h : Trims env s (f ⟨⟩) Q) : Trims env s (checkFnExit node scope exit >>= f) Q := by
  intro hs a s' hr
  obtain ⟨_, t, h₁, hr⟩ := returns_bind.1 hr
  obtain ⟨rfl, -⟩ := returns_checkFnExit h₁
  exact h hs a s' hr

/-- A return, where control gets to it. -/
theorem trims_retUnlessTerminated {x : LowerM α} {gen : Bool} (hs : s.GoesOn)
    (hx : ∀ s', Adds s s' → Trims env s' x Q) :
    Trims env s (do
      if !(← isTerminated) then
        let _ ← emitWith (.ret (some v)) scope location false gen
      x) Q := by
  refine trims_goesOn_bind hs ?_
  exact trims_bind (trims_endWith hs) fun s₁ _ c₁ => hx s₁ c₁.adds

include hp in
theorem trims_emitErrReturn (hs : s.GoesOn) :
    Trims env s (emitErrReturn parts node v scope) fun s' _ => Code true s s' := by
  refine trims_bind (trims_emitPlain rfl hs) fun s₁ isErr c₁ => ?_
  refine trims_bind (trims_newBlock (.of_adds c₁.adds) c₁.end_goesOn) fun s₂ errBlock ⟨u, h₂⟩ => ?_
  refine trims_bind (trims_newBlock u h₂) fun s₃ okBlock ⟨u, h₃⟩ => ?_
  refine trims_bind (trims_endWith h₃) fun s₄ _ c₄ => ?_
  refine trims_bind (trims_goto (u.after c₄.adds)) fun s₅ _ ⟨u, h₅⟩ => ?_
  refine trims_bind (trims_runDefers hp h₅) fun s₆ _ c₆ => ?_
  refine trims_retUnlessTerminated c₆.end_goesOn fun s₇ a₇ => ?_
  exact trims_mono (trims_goto ((u.after c₆.adds).after a₇)) fun _ _ h => ⟨h.1.adds, fun _ => h.2⟩

include hp in
/-- The way out of the function for an operand that is no error. -/
theorem trims_leaveWith {operand : Option InstId} (hs : s.GoesOn) :
    Trims env s (do
      runDefers parts scope none .normal
      if ← isTerminated then lastInst else emit (.ret operand) scope location) fun s' _ =>
        Code false s s' := by
  refine trims_bind (trims_runDefers hp hs) fun s₁ _ c₁ => ?_
  refine trims_goesOn_bind c₁.end_goesOn ?_
  exact trims_mono (trims_endWith c₁.end_goesOn) fun _ _ c₂ => c₁.adds.code c₂

include hp in
/-- The ways out of the function for an operand: the errors are taken care of first. -/
theorem trims_returnOperand {operand : Option InstId} (hs : s.GoesOn) :
    Trims env s (do
      match if passesErrDefer (← scopesFrom scope) scope then operand else none with
      | some value => emitErrReturn parts node value scope
      | none => pure ⟨⟩
      runDefers parts scope none .normal
      if ← isTerminated then lastInst else emit (.ret operand) scope location) fun s' _ =>
        Code false s s' := by
  refine trims_scopesFrom_bind ?_
  split
  · refine trims_bind (trims_emitErrReturn hp hs) fun s₁ _ c₁ => ?_
    exact trims_mono (trims_leaveWith hp c₁.end_goesOn) fun _ _ c₂ => c₁.adds.code c₂
  · exact trims_leaveWith hp hs

include hp in
theorem trims_lowerReturn {value : Option Node} (hv : ∀ v ∈ value, v.Orderly true)
    (hs : s.GoesOn) :
    Trims env s (lowerReturn parts node value scope) fun s' _ => Code false s s' := by
  refine trims_checkFnExit_bind ?_
  cases value with
  | none => exact trims_returnOperand hp hs
  | some value =>
    have hvalue : Trims env s (some <$> parts.expr value scope .ret) fun s' _ =>
      Code true s s' := by
      rw [map_eq_pure_bind]
      exact trims_bind (hp.expr (hv value rfl) hs) fun s₁ v c₁ => trims_pure c₁
    refine trims_bind hvalue fun s₁ operand c₁ => ?_
    exact trims_mono (trims_returnOperand hp c₁.end_goesOn) fun _ _ c₂ => c₁.adds.code c₂

include hp in
theorem trims_lowerTry {expr : Node} (he : expr.Orderly true) (hs : s.GoesOn) :
    Trims env s (lowerTry parts node expr scope loc) fun s' _ => Code true s s' := by
  refine trims_checkFnExit_bind ?_
  refine trims_bind (hp.expr he hs) fun s₁ value c₁ => ?_
  refine trims_bind (trims_emitPlain rfl c₁.end_goesOn) fun s₂ isErr c₂ => ?_
  have u := Unfilled.of_adds (c₁.adds.trans c₂.adds)
  refine trims_bind (trims_newBlock u c₂.end_goesOn) fun s₃ errBlock ⟨u, h₃⟩ => ?_
  refine trims_bind (trims_newBlock u h₃) fun s₄ okBlock ⟨u, h₄⟩ => ?_
  refine trims_bind (trims_endWith h₄) fun s₅ _ c₅ => ?_
  refine trims_bind (trims_goto (u.after c₅.adds)) fun s₆ _ ⟨u, h₆⟩ => ?_
  refine trims_bind (trims_emitPlain rfl h₆) fun s₇ code c₇ => ?_
  refine trims_bind (trims_runDefers hp c₇.end_goesOn) fun s₈ _ c₈ => ?_
  refine trims_retUnlessTerminated c₈.end_goesOn fun s₉ a₉ => ?_
  have u := ((u.after c₇.adds).after c₈.adds).after a₉
  refine trims_bind (trims_goto u) fun s₁₀ _ ⟨u, h₁₀⟩ => ?_
  exact trims_mono (trims_emitTo rfl h₁₀) fun _ _ c₁₁ => u.adds.code c₁₁

/-! ### Streams inside streams -/

/-- A routine over a fresh stream, whose blocks have no rest either. -/
theorem trims_inChildStream_bind {name : String} {root : ScopeId} {x : LowerM β}
    {f : Nat × Option β → LowerM α} {R : State → β → Prop} (hs : s.GoesOn)
    (hx : ∀ s', s'.GoesOn → Trims env s' x R)
    (hf : ∀ s' index b, Code true s s' → Trims env s' (f (index, some b)) Q)
    (hnone : ∀ t index b s', ¬ Returns (f (index, none)) env t b s') :
    Trims env s (inChildStream name root x >>= f) Q := by
  intro ht a s'' hr
  obtain ⟨b, t, hb, hr⟩ := returns_inChildStream_bind hr fun t index => hnone t index a s''
  have hstart : Trimmed (s.inChild name root) := ⟨⟨coherent_new name true, ht.scopes⟩,
    trim_of_insts_eq rfl, fun c hc => absurd hc List.not_mem_nil, ht.deferred⟩
  obtain ⟨ht₁, -⟩ := hx (s.inChild name root) rfl hstart b t hb
  obtain ⟨ht₂, c₂⟩ := ht.withChild ht₁ hs
  exact hf _ _ b c₂ ht₂ a s'' hr

/-- The body of a compile-time block. -/
theorem trims_lowerComptimeBody (hp : TrimParts env parts) {expr : Node} (he : expr.Orderly on)
    (hs : s.GoesOn) :
    Trims env s (lowerComptimeBody parts node expr scope) fun s' _ => Adds s s' := by
  refine trims_bind (hp.expr he hs) fun s₁ value c₁ => ?_
  refine trims_isTerminated_bind ?_
  cases ht : s₁.stream.isTerminated with
  | true => exact trims_pure c₁.adds
  | false =>
    refine trims_bind (trims_endWith ht) fun s₂ _ c₂ => trims_pure (c₁.adds.trans c₂.adds)

include hp in
theorem trims_lowerComptime {expr : Node} (he : expr.Orderly on) (hs : s.GoesOn) :
    Trims env s (lowerComptime parts node expr scope loc) fun s' _ => Code on s s' := by
  refine trims_bind trims_openScope fun s₁ inner h₁ => ?_
  refine trims_bind (R := fun s' _ => s' = s₁)
    (trims_scopesFrom_bind (trims_get_bind (trims_pure rfl))) ?_
  rintro s₁' atComptime rfl
  split
  · exact trims_mono (hp.expr he (h₁.goesOn hs)) fun _ _ c₂ => h₁.adds.code c₂
  refine trims_get_bind ?_
  dsimp only
  refine trims_inChildStream_bind (R := fun _ _ => True) (h₁.goesOn hs) (fun s' hs' => ?_)
    (fun s₂ index u c₂ => ?_) fun t index v s' => not_returns_throw
  · refine trims_withFrame (Q := fun _ _ => True) (fun s'' h => ?_) fun _ _ _ _ h => h
    exact trims_mono (trims_lowerComptimeBody hp he (h.goesOn hs')) fun _ _ _ => trivial
  · refine trims_mono (trims_emitTo rfl c₂.end_goesOn) fun _ _ c₃ => ?_
    exact (h₁.adds.trans c₂.adds).code (c₃.weaken on)

/-! ### Every level of nesting -/

theorem trims_unreachable (hs : s.GoesOn) :
    Trims env s (emit .unreachable scope location) fun s' _ => Code false s s' :=
  trims_endWith hs

include hp in
theorem trims_lowerExpr (hn : node.Orderly on) (hs : s.GoesOn) :
    Trims env s (lowerExpr parts node scope loc) fun s' _ => Code on s s' := by
  cases hn with
  | plain hb _ hparts =>
    exact trims_mono (trims_of_holds (holds_lowerExpr (L := trim env) hp.holds hb (fun _ => rfl)
      hparts trivial fun _ _ => trivial) hs) fun _ _ h => h.weaken on
  | block hk hl hall =>
    simp only [lowerExpr, hk]
    exact trims_lowerBlock hp hl hall hs
  | comptime hk he =>
    simp only [lowerExpr, hk]
    exact trims_lowerComptime hp he hs
  | ifThen hk hc ht he ho =>
    simp only [lowerExpr, hk]
    exact trims_lowerIf hp hc ht he ho hs
  | whileLoop hk hc hstep hb he =>
    simp only [lowerExpr, hk]
    exact trims_lowerWhile hp hc hstep hb he hs
  | forLoop hk hi hb he =>
    simp only [lowerExpr, hk]
    exact trims_lowerFor hp hi hb he hs
  | breakTo hk hv =>
    simp only [lowerExpr, hk]
    exact trims_lowerBreak hp hv hs
  | continueTo hk =>
    simp only [lowerExpr, hk]
    exact trims_lowerContinue hp hs
  | returnFrom hk hv =>
    simp only [lowerExpr, hk]
    exact trims_lowerReturn hp hv hs
  | unreachable hk =>
    simp only [lowerExpr, hk]
    exact trims_unreachable hs
  | tryExpr hk he =>
    simp only [lowerExpr, hk]
    exact trims_mono (trims_lowerTry hp he hs) fun _ _ h => h.weaken on
  | catchExpr hk hl hr =>
    simp only [lowerExpr, hk]
    exact trims_lowerCatch hp hl hr hs
  | @logical _ _ _ _ op hk hop hl hr =>
    simp only [lowerExpr, hk]
    cases op
    case boolAnd | boolOr => exact trims_lowerShortCircuit hp hl hr hs
    case orElse => exact trims_lowerOrElse hp hl hr hs
    all_goals cases hop

/-- The routines for parts keep blocks without a rest, however many levels of nesting are left. -/
theorem trimParts_nested (levels : Nat) : TrimParts env (nested levels) := by
  have deep : ∀ {s : State} {node : Node} {α : Type} {Q : State → α → Prop},
      Trims env s (failDepth node) Q :=
    trims_read_bind (trims_of_fails fun _ _ => not_returns_fail)
  induction levels with
  | zero => exact ⟨fun _ _ => deep, fun _ _ => deep⟩
  | succ levels ih =>
    exact ⟨fun hn hs => trims_lowerExpr ih hn hs, fun hn hs => trims_lowerStatement ih hn hs⟩

end SourceIr.Lower
