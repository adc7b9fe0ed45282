import SourceIr.Proofs.Logic.Routines
import SourceIr.Proofs.Safety.Basic
import SourceIr.Proofs.Scope.Jump

/-!
# Safety of branches and jumps

The routines that branch, jump or change the stream keep to the rules, if the routines for their
parts do.  Blocks are gone to after they were made; a value that is brought to a join, or through
the sink of a scope, is an instruction of the same stream.

* `SecureParts`, what is relied on for parts;
* deferred expressions, statements and blocks;
* branches, loops and jumps;
* `secure_inChildStream`, the streams of compile-time blocks;
* `secureParts_nested`, the routines for parts at every level of nesting.
-/

namespace SourceIr.Lower

open Logic

/-- A result location whose pointer, if there is one, is an instruction of the stream. -/
@[grind]
def IsLoc (s : State) (loc : ResultLoc) : Prop := ∀ p ∈ loc.ptr?, IsInst s p

/-- What is relied on for the parts of a construct. -/
structure SecureParts (env : Env) (parts : Parts) : Prop where
  expr : ∀ {s node scope loc}, IsScope s scope → IsLoc s loc →
    Secure env s (parts.expr node scope loc) IsInst
  statement : ∀ {s node scope}, IsScope s scope →
    Secure env s (parts.statement node scope) IsScope

variable {env : Env} {s : State} {parts : Parts} {node : Node} {scope : ScopeId}
  {location : Option Location} {loc : ResultLoc} {α : Type}

theorem IsLoc.mono {s' : State} (h : IsLoc s loc) (k : Kept s s') : IsLoc s' loc :=
  fun p hp => (h p hp).mono k

/-! ### What the logic gives

The rules that all logics share, for this one. -/

theorem SecureParts.holds (hp : SecureParts env parts) : (safety env).HoldsParts parts :=
  fun _ _ _ _ _ hs hl => hp.expr hs hl

theorem SecureParts.value (hp : SecureParts env parts) (hs : IsScope s scope) :
    Secure env s (parts.value node scope) IsInst :=
  hp.expr hs nofun

theorem secure_get_bind {f : State → LowerM α} {Q : State → α → Prop}
    (h : Secure env s (f s) Q) : Secure env s (get >>= f) Q :=
  holds_get_bind (L := safety env) h

/-- A routine that walks outward from a scope goes on with the scopes as they are. -/
theorem secure_scopesFrom_bind {f : ScopeTree → LowerM α} {Q : State → α → Prop}
    (hs : IsScope s scope) (h : s.scopes.WellFormed → Secure env s (f s.scopes) Q) :
    Secure env s (scopesFrom scope >>= f) Q :=
  holds_scopesFrom_bind (L := safety env) hs h

theorem secure_settle (hs : IsScope s scope) (hl : IsLoc s loc) :
    Secure env s (settle loc scope location) IsLoc :=
  holds_settle (L := safety env) hs hl

theorem secure_deliver {value : InstId} (hs : IsScope s scope) (hv : IsInst s value)
    (hl : IsLoc s loc) : Secure env s (deliver value loc scope location) IsInst :=
  holds_deliver (L := safety env) hs hv hl

theorem secure_emitVoid (hs : IsScope s scope) :
    Secure env s (emitVoid scope location) IsInst :=
  holds_emitVoid (L := safety env) hs

theorem secure_declare {r : BindingRequest} (hs : IsScope s scope) :
    Secure env s (declare scope r) fun _ _ => True := by
  refine secure_bind (secure_declare? hs) fun t result _ _ => ?_
  cases result with
  | ok id => exact secure_pure trivial
  | error m => exact secure_fail

theorem secure_stepIndex {ptr : InstId} (hs : IsScope s scope) (hptr : IsInst s ptr) :
    Secure env s (stepIndex ptr node scope) fun _ _ => True :=
  holds_stepIndex (L := safety env) hs hptr

/-- An instruction with one operand. -/
theorem secure_emit_one {kind : InstKind} {v : InstId} {force gen : Bool} (hs : IsScope s scope)
    (ho : kind.operands = [v]) (hv : IsInst s v) :
    Secure env s (emitWith kind scope location force gen) IsInst :=
  secure_append hs (by simpa [ho] using hv)

/-- An instruction with two operands. -/
theorem secure_emit_two {kind : InstKind} {u v : InstId} {force gen : Bool}
    (hs : IsScope s scope) (ho : kind.operands = [u, v]) (hu : IsInst s u) (hv : IsInst s v) :
    Secure env s (emitWith kind scope location force gen) IsInst :=
  secure_append hs (by simpa [ho] using ⟨hu, hv⟩)

theorem secure_emitTest {payload : Option String} {cond : InstId} (hs : IsScope s scope)
    (hv : IsInst s cond) : Secure env s (emitTest node payload cond scope) IsInst :=
  holds_emitTest (L := safety env) hs hv

theorem secure_enterBranch {payload : Option String} {cond : InstId} (hv : IsInst s cond)
    (hs : IsScope s scope) : Secure env s (enterBranch node payload cond scope) IsScope :=
  holds_enterBranch (L := safety env) hv hs

theorem secure_bindPayload {name : String} {value : InstId} (hv : IsInst s value)
    (hs : IsScope s scope) : Secure env s (bindPayload scope name value node) IsScope :=
  holds_bindPayload (L := safety env) hv hs

/-! ### Blocks of the stream -/

theorem secure_newBlock {name : String} : Secure env s (newBlock name) IsBlock := fun hs =>
  ⟨⟨hs.stream.newBlock name, hs.recorded, hs.scopes, hs.sinks⟩,
    ⟨Nat.le_refl _, by simp, .refl _, id, id, .inl⟩, by simp [IsBlock]⟩

theorem secure_goto {b : BlockId} (hb : IsBlock s b) :
    Secure env s (goto b) fun _ _ => True := fun hs =>
  ⟨⟨hs.stream.goto hb, hs.recorded, hs.scopes, hs.sinks⟩,
    ⟨Nat.le_refl _, Nat.le_refl _, .refl _, id, id, .inl⟩, trivial⟩

theorem secure_currentBlock : Secure env s currentBlock fun _ _ => True :=
  secure_get_bind (secure_pure trivial)

theorem secure_isTerminated :
    Secure env s isTerminated fun s' b => s' = s ∧ b = s.stream.isTerminated := fun hs => by
  rw [outcome_isTerminated hs.stream.endFault?_eq_none]
  exact ⟨hs, .refl s, rfl, rfl⟩

/-- A test of whether control goes on leaves the state as it is. -/
theorem secure_isTerminated_bind {f : Bool → LowerM α} {Q : State → α → Prop}
    (h : Secure env s (f s.stream.isTerminated) Q) : Secure env s (isTerminated >>= f) Q := by
  refine secure_bind secure_isTerminated ?_
  rintro s' b - ⟨rfl, rfl⟩
  exact h

/-- The last instruction, where control does not go on. -/
theorem secure_lastInst (h : s.stream.isTerminated) : Secure env s lastInst IsInst := by
  intro hs
  obtain ⟨i, hi⟩ := hs.stream.last?_of_isTerminated h
  have := hs.stream.last?_eq hi
  refine ⟨hs, .refl s, ?_⟩
  simp only [hi, Option.getD_some, IsInst]
  omega

/-! ### Sinks -/

/-- The sinks may be changed as long as they name instructions of the stream. -/
theorem secure_sinks {x : LowerM α} {a : α} {sinks : List (ScopeId × BreakSink)}
    {Q : State → α → Prop} (hx : outcome x env s = (.ok a, { s with sinks }))
    (hsinks : Safe s → ∀ entry ∈ sinks, ∀ v ∈ entry.2.values, IsInst s v)
    (hQ : Safe s → Q { s with sinks } a) : Secure env s x Q := by
  intro hs
  rw [hx]
  exact ⟨⟨hs.stream, hs.recorded, hs.scopes, hsinks hs⟩, .of_eq rfl rfl rfl, hQ hs⟩

theorem secure_openSink (hl : IsLoc s loc) :
    Secure env s (openSink scope loc) fun _ _ => True := by
  refine secure_sinks (outcome_modify _) (fun hs entry he v hv => ?_) fun _ => trivial
  rcases List.mem_cons.1 he with rfl | he
  · exact hl v (by simpa [BreakSink.values] using hv)
  · exact hs.sinks entry he v hv

/-- What flows into a sink is an instruction of the stream, and so is the storage behind it. -/
theorem Safe.lookup (hs : Safe s) {sink : BreakSink} (h : s.sinks.lookup scope = some sink) :
    ∀ v ∈ sink.values, IsInst s v := by
  obtain ⟨l₁, l₂, hl, -⟩ := List.lookup_eq_some_iff.1 h
  exact hs.sinks (scope, sink) (by simp [hl])

theorem secure_flowInto {value : InstId} (hv : IsInst s value) :
    Secure env s (flowInto scope value) fun _ _ => True := by
  refine secure_sinks (outcome_modify _) (fun hs entry he v hv' => ?_) fun _ => trivial
  obtain ⟨old, hold, rfl⟩ := List.mem_map.1 he
  split at hv'
  · simp only [BreakSink.values, BreakSink.push, List.map_append, List.mem_append] at hv'
    rcases hv' with h | h | h
    · exact hs.sinks old hold v (List.mem_append_left _ h)
    · exact hs.sinks old hold v (List.mem_append_right _ h)
    · simp at h
      exact h ▸ hv
  · exact hs.sinks old hold v hv'

theorem secure_closeSink :
    Secure env s (closeSink scope) fun s' r => ∀ f ∈ r, IsInst s' f.2 := by
  refine secure_sinks rfl (fun hs entry he => hs.sinks entry (List.mem_filter.1 he).1) ?_
  intro hs f hf
  cases h : s.sinks.lookup scope with
  | none => simp [h] at hf
  | some sink =>
    simp only [h, Option.map_some, Option.getD_some] at hf
    exact hs.lookup h _ (List.mem_append_right _ (List.mem_map_of_mem hf))

theorem secure_sink? :
    Secure env s (sink? scope) fun s' r => s' = s ∧ r = s.sinks.lookup scope :=
  secure_get_bind (secure_pure ⟨rfl, rfl⟩)

/-! ### Deferred expressions -/

variable (hp : SecureParts env parts)

include hp in
theorem secure_runDefer {expr : Node} (hs : IsScope s scope) :
    Secure env s (runDefer parts scope expr) fun _ _ => True := by
  refine secure_scopeAt_bind hs fun x hx hsafe => ?_
  have hparent : IsScope s (x.parent.getD scope) := by
    cases hp : x.parent with
    | none => exact hs
    | some p => exact Nat.lt_trans (hsafe.scopes.parent _ x hx p hp) hs
  refine secure_bind (secure_openScope hparent) (fun s₁ body _ hb => ?_) hsafe
  refine secure_bind (hp.expr hb nofun) fun _ _ _ _ => ?_
  exact secure_pure trivial

include hp in
theorem secure_runDefersIn {path : ExitPath} {defers : List (ScopeId × DeferKind)}
    (hs : ∀ d ∈ defers, IsScope s d.1) :
    Secure env s (runDefersIn parts path defers) fun _ _ => True := by
  induction defers generalizing s with
  | nil => exact secure_pure trivial
  | cons d rest ih =>
    obtain ⟨scope, kind⟩ := d
    have hrest : ∀ s', Kept s s' → ∀ d ∈ rest, IsScope s' d.1 := fun s' k d hd =>
      (hs d (List.mem_cons_of_mem _ hd)).mono k
    rw [runDefersIn]
    refine secure_get_bind ?_
    dsimp only
    split
    · exact ih (hrest s (.refl s))
    · refine secure_bind (secure_runDefer hp (hs (scope, kind) (by simp)))
        fun s₁ _ k₁ _ => secure_isTerminated_bind ?_
      split
      · exact secure_pure trivial
      · exact ih (hrest s₁ k₁)

/-- The scopes of deferred expressions that a jump passes are on its way. -/
theorem isScope_of_mem_defersUntil (hsafe : Safe s) {target : Option ScopeId}
    {d : ScopeId × DeferKind} (hd : d ∈ s.scopes.defersUntil scope target) : IsScope s d.1 := by
  obtain ⟨x, hx, hxd⟩ := ScopeTree.mem_of_mem_defersIn hd
  have := hsafe.scopes.scope?_of_mem hx
  rw [hxd] at this
  exact (Array.getElem?_eq_some_iff.1 this).1

include hp in
theorem secure_runDefers {target : Option ScopeId} {path : ExitPath} (hs : IsScope s scope) :
    Secure env s (runDefers parts scope target path) fun _ _ => True :=
  secure_scopesFrom_bind hs fun _ hsafe =>
    secure_runDefersIn hp (fun _ hd => isScope_of_mem_defersUntil hsafe hd) hsafe

/-! ### Statements and blocks -/

/-- The end of a list of statements: it fails if one of them has. -/
theorem secure_endStatements {failed : Bool} (hs : IsScope s scope)
    (hf : failed = true → Failing s) :
    Secure env s (if failed then throw .poisoned else return scope) IsScope := by
  split
  next h => exact secure_throw (hf h)
  next => exact secure_pure hs

include hp in
theorem secure_lowerStatements {failed : Bool} {statements : List Node} (hs : IsScope s scope)
    (hf : failed = true → Failing s) :
    Secure env s (lowerStatements parts scope failed statements) IsScope := by
  induction statements generalizing s scope failed with
  | nil => exact secure_endStatements hs hf
  | cons statement rest ih =>
    rw [lowerStatements]
    refine secure_isTerminated_bind ?_
    split
    · exact secure_bind secure_warnAt fun s₁ _ k₁ _ =>
        secure_endStatements (hs.mono k₁) fun h => (hf h).mono k₁
    refine secure_bind (secure_attempt (hp.statement hs)) fun s₁ r k₁ hr => ?_
    cases r with
    | some next => exact ih hr fun h => (hf h).mono k₁
    | none =>
      refine holds_read_bind (L := safety env) ?_
      split
      · exact secure_throw hr
      · exact ih (hs.mono k₁) fun _ => hr

include hp in
/-- The deferred expressions at the end of a block, unless control does not get there. -/
theorem secure_leaveBlock {last : ScopeId} {target : Option ScopeId} {x : LowerM α}
    {Q : State → α → Prop} (hs : IsScope s last) (h : ∀ s', Kept s s' → Secure env s' x Q) :
    Secure env s (do
      if !(← isTerminated) then runDefers parts last target .normal
      x) Q := by
  refine secure_isTerminated_bind ?_
  split
  · exact secure_bind (secure_runDefers hp hs) fun s' _ k _ => h s' k
  · exact h s (.refl s)

include hp in
theorem secure_lowerPlainBlock {statements : List Node} (hs : IsScope s scope)
    (hl : IsLoc s loc) :
    Secure env s (lowerPlainBlock parts node statements scope loc) IsInst := by
  refine secure_bind (secure_openScope hs) fun s₁ block k₁ hb => ?_
  refine secure_bind (secure_lowerStatements hp hb nofun) fun s₂ last k₂ hlast => ?_
  refine secure_leaveBlock hp hlast fun s₃ k₃ => ?_
  have k : Kept s s₃ := k₁.trans (Kept.trans k₂ k₃)
  refine secure_isTerminated_bind (secure_get_bind fun hsafe => ?_)
  dsimp only
  split
  next stop h =>
    split at h
    · have := hsafe.stream.last?_eq h
      refine secure_pure (Q := IsInst) ?_ hsafe
      simp only [IsInst]
      omega
    · cases h
  next =>
    refine secure_bind (secure_emitVoid (hs.mono k)) (fun s₄ void k₄ hv => ?_) hsafe
    exact secure_deliver (hs.mono (k.trans k₄)) hv (hl.mono (k.trans k₄))

/-- The values that arrive at a join. -/
@[grind]
def AreInsts (s : State) (incoming : List (BlockId × InstId)) : Prop :=
  ∀ f ∈ incoming, IsInst s f.2

theorem AreInsts.mono {s' : State} {incoming : List (BlockId × InstId)}
    (h : AreInsts s incoming) (k : Kept s s') : AreInsts s' incoming :=
  fun f hf => (h f hf).mono k

theorem secure_joinAt {stop : BlockId} {incoming : List (BlockId × InstId)}
    (hs : IsScope s scope) (hb : IsBlock s stop) (hi : AreInsts s incoming) :
    Secure env s (joinAt stop incoming scope node) IsInst := by
  refine secure_bind (secure_goto hb) fun s₁ _ k₁ _ => ?_
  split
  · exact secure_append (hs.mono k₁) nofun
  · refine secure_append (hs.mono k₁) fun v hv => ?_
    obtain ⟨f, hf, rfl⟩ := List.mem_map.1 hv
    exact (hi f hf).mono k₁

/-- A jump, whatever its target. -/
theorem secure_jump {target : BlockId} {force gen : Bool} (hs : IsScope s scope) :
    Secure env s (emitWith (.br target) scope location force gen) IsInst :=
  secure_append hs nofun

/-- A branch on a value of the stream, whatever its targets. -/
theorem secure_condBr {cond : InstId} {yes no : BlockId} {force gen : Bool}
    (hs : IsScope s scope) (h : IsInst s cond) :
    Secure env s (emitWith (.condBr cond yes no) scope location force gen) IsInst :=
  secure_append hs (by simpa [InstKind.operands] using h)

include hp in
theorem secure_lowerLabelledBlock {label : String} {statements : List Node}
    (hs : IsScope s scope) (hl : IsLoc s loc) :
    Secure env s (lowerLabelledBlock parts node label statements scope loc) IsInst := by
  refine secure_bind (secure_settle hs hl) fun s₁ loc k₁ hl => ?_
  refine secure_bind secure_newBlock fun s₂ stop k₂ hstop => ?_
  refine secure_bind (secure_openScope (hs.mono (Kept.trans k₁ k₂))) fun s₃ block k₃ hb => ?_
  refine secure_bind (secure_openSink (hl.mono (k₂.trans k₃))) fun s₄ _ k₄ _ => ?_
  refine secure_bind (secure_lowerStatements hp (hb.mono k₄) nofun)
    fun s₅ last k₅ hlast => ?_
  have hs₅ : IsScope s₅ scope := by grind
  have join : ∀ s', Kept s₅ s' → Secure env s' (do
      joinAt stop (← closeSink block) scope node) IsInst := by
    intro s' k'
    refine secure_bind secure_closeSink fun s₆ incoming k₆ hi => ?_
    exact secure_joinAt (hs₅.mono (k'.trans k₆)) (by grind) hi
  refine secure_isTerminated_bind ?_
  split
  · refine secure_bind (secure_runDefers hp hlast) fun s₆ _ k₆ _ => ?_
    refine secure_isTerminated_bind ?_
    split
    · refine secure_bind (secure_emitVoid (hs₅.mono k₆)) fun s₇ void k₇ hv => ?_
      refine secure_bind (secure_flowInto hv) fun s₈ _ k₈ _ => ?_
      refine secure_bind (secure_jump (by grind)) fun s₉ _ k₉ _ => ?_
      exact join s₉ (Kept.trans k₆ (Kept.trans k₇ (k₈.trans k₉)))
    · exact join s₆ k₆
  · exact join s₅ (.refl s₅)

include hp in
theorem secure_lowerBlock {label : Option String} {statements : List Node}
    (hs : IsScope s scope) (hl : IsLoc s loc) :
    Secure env s (lowerBlock parts node label statements scope loc) IsInst := by
  cases label with
  | none => exact secure_lowerPlainBlock hp hs hl
  | some label => exact secure_lowerLabelledBlock hp hs hl

/-- Looking for effects from a position on that has been passed. -/
theorem secure_hasEffectSince {start : Nat} (h : start ≤ s.stream.insts.size) :
    Secure env s (hasEffectSince start) fun s' _ => s' = s := by
  refine secure_get_bind ?_
  dsimp only
  rw [if_pos h]
  refine secure_bind (secure_stopAt fun _ => rfl) ?_
  rintro s' - - rfl
  exact secure_pure rfl

include hp in
theorem secure_lowerExprStatement (hs : IsScope s scope) :
    Secure env s (lowerExprStatement parts node scope) fun _ _ => True := by
  refine secure_get_bind ?_
  refine secure_bind (hp.expr hs nofun) fun s₁ value k₁ hv => ?_
  have check : ∀ s', Kept s₁ s' → Secure env s' (do
      let _ ← emitGen (.checkStatementIsVoid value) scope node.location) fun _ _ => True :=
    fun s' k' => secure_bind (secure_emit_one (hs.mono (k₁.trans k')) rfl (hv.mono k'))
      fun _ _ _ _ => secure_pure trivial
  refine secure_isTerminated_bind ?_
  split
  · refine secure_bind (secure_hasEffectSince k₁.insts) ?_
    rintro s₁ effectful - rfl
    refine holds_read_bind (L := safety env) ?_
    split
    · exact secure_bind secure_warnAt fun s₂ _ k₂ _ => check s₂ k₂
    · exact check s₁ (.refl s₁)
  · exact secure_pure trivial

theorem secure_remember {expr : Node} : Secure env s (remember scope expr) fun _ _ => True :=
  secure_set (outcome_modify _) (fun hs => ⟨hs.stream, hs.recorded, hs.scopes, hs.sinks⟩)
    (.of_eq rfl rfl rfl) trivial

include hp in
theorem secure_lowerStatement (hs : IsScope s scope) :
    Secure env s (lowerStatement parts node scope) IsScope := by
  have after : ∀ {x : LowerM PUnit}, Secure env s x (fun _ _ => True) →
      Secure env s (do x; return scope) IsScope := fun hx =>
    secure_bind hx fun _ _ k _ => secure_pure (hs.mono k)
  rw [lowerStatement]
  split
  · exact after (holds_lowerLocalVar (L := safety env) hp.holds rfl (fun _ _ => trivial) hs)
  · refine secure_bind (secure_openScope hs) fun s₁ inner k₁ hi => ?_
    exact secure_bind secure_remember fun s₂ _ k₂ _ => secure_pure (hi.mono k₂)
  · exact after (holds_lowerAssign (L := safety env) hp.holds trivial trivial hs)
  · exact after (holds_lowerAssignOp (L := safety env) hp.holds trivial trivial hs)
  · split
    · exact after (secure_lowerExprStatement hp hs)
    · refine secure_bind (hp.expr hs nofun) fun _ _ k _ => ?_
      exact secure_pure (hs.mono k)

/-! ### Branches -/

theorem secure_branchInto {stop : BlockId} {incoming : List (BlockId × InstId)} {value : InstId}
    {force : Bool} (hs : IsScope s scope) (hi : AreInsts s incoming) (hv : IsInst s value) :
    Secure env s (branchInto stop incoming value scope force) AreInsts := by
  refine secure_isTerminated_bind ?_
  split
  · exact secure_pure hi
  · refine secure_bind secure_currentBlock fun s₁ source k₁ _ => ?_
    refine secure_bind (secure_jump (hs.mono k₁)) fun s₂ _ k₂ _ => secure_pure ?_
    intro f hf
    rcases List.mem_append.1 hf with hf | hf
    · exact (hi f hf).mono (k₁.trans k₂)
    · rw [List.mem_singleton.1 hf]
      exact hv.mono (k₁.trans k₂)

include hp in
theorem secure_lowerElse {branch : Option Node} (hs : IsScope s scope)
    (hl : IsLoc s loc) :
    Secure env s (lowerElse parts node branch scope loc) IsInst := by
  cases branch with
  | some branch => exact hp.expr hs hl
  | none => exact secure_emitVoid hs

theorem areInsts_nil : AreInsts s [] := nofun

include hp in
theorem secure_lowerIf {condition thenBranch : Node} {payload : Option String}
    {elseBranch : Option Node} (hs : IsScope s scope) (hl : IsLoc s loc) :
    Secure env s (lowerIf parts node condition payload thenBranch elseBranch scope loc)
      IsInst := by
  refine secure_bind (secure_settle hs hl) fun s₁ loc k₁ hl => ?_
  refine secure_bind (hp.value (by grind)) fun s₂ cond k₂ hc => ?_
  refine secure_bind secure_newBlock fun s₃ thenBlock k₃ hthen => ?_
  refine secure_bind secure_newBlock fun s₄ elseBlock k₄ helse => ?_
  refine secure_bind secure_newBlock fun s₅ stop k₅ hstop => ?_
  refine secure_bind (secure_emitTest (by grind) (by grind)) fun s₆ test k₆ ht => ?_
  refine secure_bind (secure_condBr (by grind) ht) fun s₇ _ k₇ _ => ?_
  refine secure_bind (secure_goto (by grind)) fun s₈ _ k₈ _ => ?_
  refine secure_bind (secure_enterBranch (by grind) (by grind)) fun s₉ thenScope k₉ hs₉ => ?_
  refine secure_bind (hp.expr (by grind) (by grind)) fun s₁₀ value k₁₀ hv => ?_
  refine secure_bind (secure_branchInto (by grind) areInsts_nil hv) fun s₁₁ incoming k₁₁ hi => ?_
  refine secure_bind (secure_goto (by grind)) fun s₁₂ _ k₁₂ _ => ?_
  refine secure_bind (secure_lowerElse hp (by grind) (by grind)) fun s₁₃ value k₁₃ hv => ?_
  refine secure_bind (secure_branchInto (by grind) (by grind) hv)
    fun s₁₄ incoming k₁₄ hi => ?_
  exact secure_joinAt (by grind) (by grind) hi

include hp in
theorem secure_lowerCatch {lhs rhs : Node} {payload : Option String} (hs : IsScope s scope)
    (hl : IsLoc s loc) :
    Secure env s (lowerCatch parts node lhs payload rhs scope loc) IsInst := by
  refine secure_bind (secure_settle hs hl) fun s₁ loc k₁ hl => ?_
  refine secure_bind (hp.value (by grind)) fun s₂ value k₂ hv => ?_
  refine secure_bind (secure_emit_one (by grind) rfl hv) fun s₃ isErr k₃ he => ?_
  refine secure_bind secure_newBlock fun s₄ errBlock k₄ herr => ?_
  refine secure_bind secure_newBlock fun s₅ okBlock k₅ hok => ?_
  refine secure_bind secure_newBlock fun s₆ stop k₆ hstop => ?_
  refine secure_bind (secure_condBr (by grind) (by grind)) fun s₇ _ k₇ _ => ?_
  refine secure_bind (secure_goto (by grind)) fun s₈ _ k₈ _ => ?_
  refine secure_bind (secure_openScope (by grind)) fun s₉ handler k₉ hh => ?_
  -- What is left once the scope of the handler is known.
  have rest : ∀ s₁₀ handler, Kept s₉ s₁₀ → IsScope s₁₀ handler → Secure env s₁₀ (do
      let handled ← parts.expr rhs handler loc
      let incoming ← branchInto stop [] handled scope false
      goto okBlock
      let payload ← emitGen (.unwrapErrPayload value false) scope node.location
      let payload ← deliver payload loc scope node.location
      let incoming ← branchInto stop incoming payload scope false
      joinAt stop incoming scope node) IsInst := by
    intro s₁₀ handler k₁₀ hh
    refine secure_bind (hp.expr hh (by grind)) fun s₁₁ handled k₁₁ hv₁₁ => ?_
    refine secure_bind (secure_branchInto (by grind) areInsts_nil hv₁₁)
      fun s₁₂ incoming k₁₂ hi => ?_
    refine secure_bind (secure_goto (by grind)) fun s₁₃ _ k₁₃ _ => ?_
    refine secure_bind (secure_emit_one (by grind) rfl (by grind)) fun s₁₄ payload k₁₄ hv₁₄ => ?_
    refine secure_bind (secure_deliver (by grind) hv₁₄ (by grind)) fun s₁₅ payload k₁₅ hv₁₅ => ?_
    refine secure_bind (secure_branchInto (by grind) (by grind) hv₁₅) fun s₁₆ incoming k₁₆ hi => ?_
    exact secure_joinAt (by grind) (by grind) hi
  cases payload with
  | some name =>
    refine secure_bind (secure_emit_one (by grind) rfl (by grind)) fun s₁₀ code k₁₀ hcode => ?_
    refine secure_bind (secure_bindPayload hcode (by grind)) fun s₁₁ handler k₁₁ hh => ?_
    exact rest s₁₁ handler (k₁₀.trans k₁₁) hh
  | none => exact rest s₉ handler (.refl s₉) hh

include hp in
theorem secure_lowerOrElse {lhs rhs : Node} (hs : IsScope s scope) (hl : IsLoc s loc) :
    Secure env s (lowerOrElse parts node lhs rhs scope loc) IsInst := by
  refine secure_bind (secure_settle hs hl) fun s₁ loc k₁ hl => ?_
  refine secure_bind (hp.value (by grind)) fun s₂ value k₂ hv => ?_
  refine secure_bind (secure_emit_one (by grind) rfl hv) fun s₃ nonNull k₃ hn => ?_
  refine secure_bind secure_newBlock fun s₄ okBlock k₄ hok => ?_
  refine secure_bind secure_newBlock fun s₅ nullBlock k₅ hnull => ?_
  refine secure_bind secure_newBlock fun s₆ stop k₆ hstop => ?_
  refine secure_bind (secure_condBr (by grind) (by grind)) fun s₇ _ k₇ _ => ?_
  refine secure_bind (secure_goto (by grind)) fun s₈ _ k₈ _ => ?_
  refine secure_bind (hp.expr (by grind) (by grind)) fun s₉ fallback k₉ hv₉ => ?_
  refine secure_bind (secure_branchInto (by grind) areInsts_nil hv₉) fun s₁₀ incoming k₁₀ hi => ?_
  refine secure_bind (secure_goto (by grind)) fun s₁₁ _ k₁₁ _ => ?_
  refine secure_bind (secure_emit_one (by grind) rfl (by grind)) fun s₁₂ inner k₁₂ hv₁₂ => ?_
  refine secure_bind (secure_deliver (by grind) hv₁₂ (by grind)) fun s₁₃ inner k₁₃ hv₁₃ => ?_
  refine secure_bind (secure_branchInto (by grind) (by grind) hv₁₃) fun s₁₄ incoming k₁₄ hi => ?_
  exact secure_joinAt (by grind) (by grind) hi

include hp in
theorem secure_lowerShortCircuit {op : BinaryOperator} {lhs rhs : Node} (hs : IsScope s scope)
    (hl : IsLoc s loc) :
    Secure env s (lowerShortCircuit parts node op lhs rhs scope loc) IsInst := by
  refine secure_bind (hp.value hs) fun s₁ left k₁ hleft => ?_
  refine secure_bind secure_newBlock fun s₂ rhsBlock k₂ hrhs => ?_
  refine secure_bind secure_newBlock fun s₃ stop k₃ hstop => ?_
  refine secure_bind secure_currentBlock fun s₄ source k₄ _ => ?_
  -- What is left once the branch is there.
  have rest : ∀ s₅, Kept s₄ s₅ → Secure env s₅ (do
      goto rhsBlock
      let right ← parts.value rhs scope
      let incoming ← branchInto stop [(source, left)] right scope false
      let value ← joinAt stop incoming scope node
      deliver value loc scope node.location) IsInst := by
    intro s₅ k₅
    refine secure_bind (secure_goto (by grind)) fun s₆ _ k₆ _ => ?_
    refine secure_bind (hp.value (by grind)) fun s₇ right k₇ hright => ?_
    refine secure_bind (secure_branchInto (by grind) (by grind) hright) fun s₈ incoming k₈ hi => ?_
    refine secure_bind (secure_joinAt (by grind) (by grind) hi) fun s₉ value k₉ hv => ?_
    exact secure_deliver (by grind) hv (by grind)
  split
  · exact secure_bind (secure_condBr (by grind) (by grind)) fun s₅ _ k₅ _ => rest s₅ k₅
  · exact secure_bind (secure_condBr (by grind) (by grind)) fun s₅ _ k₅ _ => rest s₅ k₅

/-! ### Loops -/

theorem secure_newLoop {word : String} :
    Secure env s (newLoop word) fun s' blocks => IsBlock s' blocks.test ∧ IsBlock s' blocks.body ∧
      IsBlock s' blocks.step ∧ IsBlock s' blocks.orElse ∧ IsBlock s' blocks.stop := by
  refine secure_bind secure_newBlock fun s₁ test k₁ h₁ => ?_
  refine secure_bind secure_newBlock fun s₂ body k₂ h₂ => ?_
  refine secure_bind secure_newBlock fun s₃ step k₃ h₃ => ?_
  refine secure_bind secure_newBlock fun s₄ orElse k₄ h₄ => ?_
  refine secure_bind secure_newBlock fun s₅ stop k₅ h₅ => ?_
  exact secure_pure (by grind)

theorem secure_enterLoop {label : Option String} {blocks : LoopBlocks} (hs : IsScope s scope)
    (hl : IsLoc s loc) : Secure env s (enterLoop scope label blocks loc) IsScope := by
  refine secure_bind (secure_openScope hs) fun s₁ loopScope k₁ hs₁ => ?_
  refine secure_bind (secure_openSink (hl.mono k₁)) fun s₂ _ k₂ _ => ?_
  exact secure_pure (hs₁.mono k₂)

theorem secure_jumpUnlessTerminated {target : BlockId} {force : Bool} (hs : IsScope s scope) :
    Secure env s (jumpUnlessTerminated target node scope force) fun _ _ => True := by
  refine secure_isTerminated_bind ?_
  split
  · exact secure_bind (secure_jump hs) fun _ _ _ _ => secure_pure trivial
  · exact secure_pure trivial

include hp in
theorem secure_finishLoop {loopScope : ScopeId} {elseBranch : Option Node} {blocks : LoopBlocks}
    {force : Bool} (horElse : IsBlock s blocks.orElse) (hstop : IsBlock s blocks.stop)
    (hs : IsScope s scope) (hl : IsLoc s loc) :
    Secure env s (finishLoop parts node loopScope elseBranch blocks scope loc force) IsInst := by
  refine secure_bind (secure_goto horElse) fun s₁ _ k₁ _ => ?_
  refine secure_bind (secure_lowerElse hp (by grind) (by grind)) fun s₂ value k₂ hv => ?_
  refine secure_bind secure_closeSink fun s₃ incoming k₃ hi => ?_
  refine secure_bind (secure_branchInto (by grind) hi (by grind)) fun s₄ incoming k₄ hi => ?_
  exact secure_joinAt (by grind) (by grind) hi

include hp in
theorem secure_lowerWhile {label : Option String} {condition body : Node}
    {payload : Option String} {continueExpr elseBranch : Option Node} {isInline : Bool}
    (hs : IsScope s scope) (hl : IsLoc s loc) :
    Secure env s (lowerWhile parts node label condition payload continueExpr body elseBranch
      isInline scope loc) IsInst := by
  refine secure_bind (secure_settle hs hl) fun s₁ loc k₁ hl => ?_
  refine secure_bind secure_newLoop fun s₂ blocks k₂ hb => ?_
  refine secure_bind (secure_jump (by grind)) fun s₃ _ k₃ _ => ?_
  refine secure_bind (secure_goto (by grind)) fun s₄ _ k₄ _ => ?_
  refine secure_bind (hp.value (by grind)) fun s₅ cond k₅ hc => ?_
  refine secure_bind (secure_emitTest (by grind) hc) fun s₆ test k₆ ht => ?_
  refine secure_bind (secure_condBr (by grind) ht) fun s₇ _ k₇ _ => ?_
  refine secure_bind (secure_goto (by grind)) fun s₈ _ k₈ _ => ?_
  refine secure_bind (secure_enterLoop (by grind) (by grind)) fun s₉ loopScope k₉ hs₉ => ?_
  refine secure_bind (secure_enterBranch (by grind) hs₉) fun s₁₀ bodyScope k₁₀ hs₁₀ => ?_
  refine secure_bind (hp.expr hs₁₀ nofun) fun s₁₁ _ k₁₁ _ => ?_
  refine secure_bind (secure_jumpUnlessTerminated (by grind)) fun s₁₂ _ k₁₂ _ => ?_
  refine secure_bind (secure_goto (by grind)) fun s₁₃ _ k₁₃ _ => ?_
  have rest : ∀ s', Kept s₁₃ s' → Secure env s' (do
      jumpUnlessTerminated blocks.test node scope isInline
      finishLoop parts node loopScope elseBranch blocks scope loc isInline) IsInst := by
    intro s' k'
    refine secure_bind (secure_jumpUnlessTerminated (by grind)) fun s₁₄ _ k₁₄ _ => ?_
    exact secure_finishLoop hp (by grind) (by grind) (by grind) (by grind)
  cases continueExpr with
  | some expr => exact secure_bind (hp.expr (by grind) nofun) fun s' _ k' _ => rest s' k'
  | none => exact rest s₁₃ (.refl s₁₃)

include hp in
theorem secure_lowerFor {label : Option String} {iterable body : Node} {item : String}
    {index : Option String} {elseBranch : Option Node} {isInline : Bool}
    (hs : IsScope s scope) (hl : IsLoc s loc) :
    Secure env s (lowerFor parts node label iterable item index body elseBranch isInline scope
      loc) IsInst := by
  refine secure_bind (secure_settle hs hl) fun s₁ loc k₁ hl => ?_
  refine secure_bind (hp.value (by grind)) fun s₂ array k₂ harray => ?_
  refine secure_bind (secure_emit_one (by grind) rfl harray) fun s₃ lengthPtr k₃ hlp => ?_
  refine secure_bind (secure_emit_one (by grind) rfl hlp) fun s₄ length k₄ hlen => ?_
  refine secure_bind (secure_append (by grind) nofun) fun s₅ indexPtr k₅ hip => ?_
  refine secure_bind (secure_append (by grind) nofun) fun s₆ zero k₆ hz => ?_
  refine secure_bind (secure_emit_two (by grind) rfl (by grind) hz) fun s₇ _ k₇ _ => ?_
  refine secure_bind secure_newLoop fun s₈ blocks k₈ hb => ?_
  refine secure_bind (secure_jump (by grind)) fun s₉ _ k₉ _ => ?_
  refine secure_bind (secure_goto (by grind)) fun s₁₀ _ k₁₀ _ => ?_
  refine secure_bind (secure_emit_one (by grind) rfl (by grind)) fun s₁₁ position k₁₁ hpos => ?_
  refine secure_bind (secure_emit_two (by grind) rfl hpos (by grind)) fun s₁₂ inBounds k₁₂ hin => ?_
  refine secure_bind (secure_condBr (by grind) hin) fun s₁₃ _ k₁₃ _ => ?_
  refine secure_bind (secure_goto (by grind)) fun s₁₄ _ k₁₄ _ => ?_
  refine secure_bind (secure_enterLoop (by grind) (by grind)) fun s₁₅ loopScope k₁₅ hs₁₅ => ?_
  refine secure_bind (secure_emit_two (by grind) rfl (by grind) (by grind))
    fun s₁₆ elementPtr k₁₆ hep => ?_
  refine secure_bind (secure_emit_one (by grind) rfl hep) fun s₁₇ element k₁₇ hel => ?_
  refine secure_bind (secure_bindPayload hel (by grind)) fun s₁₈ bodyScope k₁₈ hs₁₈ => ?_
  refine secure_bind (secure_declare (by grind)) fun s₁₉ indexVar k₁₉ _ => ?_
  refine secure_bind (secure_emit_one (by grind) rfl (by grind)) fun s₂₀ _ k₂₀ _ => ?_
  refine secure_bind (hp.expr (by grind) nofun) fun s₂₁ _ k₂₁ _ => ?_
  refine secure_bind (secure_jumpUnlessTerminated (by grind)) fun s₂₂ _ k₂₂ _ => ?_
  refine secure_bind (secure_goto (by grind)) fun s₂₃ _ k₂₃ _ => ?_
  refine secure_bind (secure_stepIndex (by grind) (by grind)) fun s₂₄ _ k₂₄ _ => ?_
  refine secure_bind (secure_jump (by grind)) fun s₂₅ _ k₂₅ _ => ?_
  exact secure_finishLoop hp (by grind) (by grind) (by grind) (by grind)

/-! ### Jumps -/

theorem secure_failAt {kind : DiagnosticKind} {message issuer : String} {Q : State → α → Prop} :
    Secure env s (failAt kind message issuer node) Q :=
  secure_fail

/-- A jump lands at a scope that is there. -/
theorem isScope_of_found {jump : JumpKind} {label : Option String} {target : ScopeId}
    (hwf : s.scopes.WellFormed)
    (h : ScopeTree.jumpTargetIn jump label (s.scopes.chain scope) = .found target) :
    IsScope s target := by
  obtain ⟨x, hx, rfl⟩ := ScopeTree.mem_of_found h
  exact (Array.getElem?_eq_some_iff.1 (hwf.scope?_of_mem hx)).1

theorem secure_breakScope {label : Option String} (hs : IsScope s scope) :
    Secure env s (breakScope node label scope) IsScope := by
  refine secure_scopesFrom_bind hs fun hwf => ?_
  split
  next target h => exact secure_pure (isScope_of_found hwf h)
  all_goals exact secure_failAt

theorem secure_continueScope {label : Option String} (hs : IsScope s scope) :
    Secure env s (continueScope node label scope) IsScope := by
  refine secure_scopesFrom_bind hs fun hwf => ?_
  split
  next target h => exact secure_pure (isScope_of_found hwf h)
  all_goals exact secure_failAt

theorem secure_leavesStream {target : Option ScopeId} (hs : IsScope s scope) :
    Secure env s (leavesStream scope target) fun _ _ => True :=
  secure_scopesFrom_bind hs fun _ => secure_get_bind (secure_pure trivial)

/-- A way out that is taken unless the deferred expressions end the block. -/
theorem secure_unlessTerminated {x : LowerM InstId} (hx : Secure env s x IsInst) :
    Secure env s (do if ← isTerminated then lastInst else x) IsInst := by
  refine secure_isTerminated_bind ?_
  split
  next h => exact secure_lastInst h
  next => exact hx

include hp in
theorem secure_lowerBreak {label : Option String} {value : Option Node} (hs : IsScope s scope) :
    Secure env s (lowerBreak parts node label value scope) IsInst := by
  refine secure_bind (secure_breakScope hs) fun s₁ target k₁ ht => ?_
  refine secure_bind (secure_leavesStream (hs.mono k₁)) fun s₂ leaves k₂ _ => ?_
  split
  · exact secure_failAt
  refine secure_scopeAt_bind (ht.mono k₂) fun x _ => ?_
  split
  · exact secure_failAt
  next stop _ =>
    refine secure_bind secure_sink? ?_
    rintro s₄ sink k₄ ⟨rfl, rfl⟩ hsafe
    have hl : IsLoc s₄ (((s₄.sinks.lookup target).map (·.resultLoc)).getD .none) := by
      cases h : s₄.sinks.lookup target with
      | none => exact nofun
      | some sink =>
        exact fun p hp => hsafe.lookup h p (List.mem_append_left _ (by simpa using hp))
    -- What is left once the value is there.
    have rest : ∀ s₅ v, Kept s₄ s₅ → IsInst s₅ v → Secure env s₅ (do
        runDefers parts scope (some target) .normal
        if ← isTerminated then lastInst
        else
          flowInto target v
          emit (.br stop) scope node.location) IsInst := by
      intro s₅ v k₅ hv
      refine secure_bind (secure_runDefers hp (by grind)) fun s₆ _ k₆ _ =>
        secure_unlessTerminated ?_
      exact secure_bind (secure_flowInto (by grind)) fun s₇ _ k₇ _ => secure_jump (by grind)
    cases value with
    | some value =>
      exact secure_bind (hp.expr (by grind) hl) (fun s₅ v k₅ hv => rest s₅ v k₅ hv) hsafe
    | none =>
      exact secure_bind (secure_emitVoid (by grind)) (fun s₅ v k₅ hv => rest s₅ v k₅ hv) hsafe

include hp in
theorem secure_lowerContinue {label : Option String} (hs : IsScope s scope) :
    Secure env s (lowerContinue parts node label scope) IsInst := by
  refine secure_bind (secure_continueScope hs) fun s₁ target k₁ ht => ?_
  refine secure_bind (secure_leavesStream (hs.mono k₁)) fun s₂ leaves k₂ _ => ?_
  split
  · exact secure_failAt
  refine secure_scopeAt_bind (ht.mono k₂) fun x _ => ?_
  split
  · exact secure_failAt
  · exact secure_bind (secure_runDefers hp (by grind)) fun s₃ _ k₃ _ =>
      secure_unlessTerminated (secure_jump (by grind))

theorem secure_checkFnExit {exit : FnExit} (hs : IsScope s scope) :
    Secure env s (checkFnExit node scope exit) fun _ _ => True := by
  refine secure_scopesFrom_bind hs fun _ => ?_
  split
  · exact secure_failAt
  split
  · exact secure_failAt
  refine secure_bind (secure_leavesStream hs) fun s₁ leaves k₁ _ => ?_
  split
  · exact secure_failAt
  · exact secure_pure trivial

/-- A return, unless the deferred expressions end the block. -/
theorem secure_retUnlessTerminated {value : InstId} {gen : Bool} {x : LowerM α}
    {Q : State → α → Prop} (hs : IsScope s scope) (hv : IsInst s value)
    (hx : ∀ s', Kept s s' → Secure env s' x Q) :
    Secure env s (do
      if !(← isTerminated) then
        let _ ← emitWith (.ret (some value)) scope location false gen
      x) Q := by
  refine secure_isTerminated_bind ?_
  split
  · exact secure_bind (secure_emit_one hs rfl hv) fun s₁ _ k₁ _ => hx s₁ k₁
  · exact hx s (.refl s)

include hp in
theorem secure_emitErrReturn {value : InstId} (hs : IsScope s scope) (hv : IsInst s value) :
    Secure env s (emitErrReturn parts node value scope) fun _ _ => True := by
  refine secure_bind (secure_emit_one (by grind) rfl hv) fun s₁ isErr k₁ he => ?_
  refine secure_bind secure_newBlock fun s₂ errBlock k₂ herr => ?_
  refine secure_bind secure_newBlock fun s₃ okBlock k₃ hok => ?_
  refine secure_bind (secure_condBr (by grind) (by grind)) fun s₄ _ k₄ _ => ?_
  refine secure_bind (secure_goto (by grind)) fun s₅ _ k₅ _ => ?_
  refine secure_bind (secure_runDefers hp (by grind)) fun s₆ _ k₆ _ => ?_
  exact secure_retUnlessTerminated (by grind) (by grind) fun s₇ k₇ => secure_goto (by grind)

include hp in
/-- The way out of the function for an operand that is no error. -/
theorem secure_leaveWith {operand : Option InstId} (hs : IsScope s scope)
    (ho : ∀ v ∈ operand, IsInst s v) :
    Secure env s (do
      runDefers parts scope none .normal
      if ← isTerminated then lastInst else emit (.ret operand) scope location) IsInst := by
  refine secure_bind (secure_runDefers hp hs) fun s₁ _ k₁ _ => secure_unlessTerminated ?_
  exact secure_append (hs.mono k₁) fun v hv =>
    (ho v (by simpa [InstKind.operands] using hv)).mono k₁

include hp in
/-- The ways out of the function for an operand: the errors are taken care of first. -/
theorem secure_returnOperand {operand : Option InstId} (hs : IsScope s scope)
    (ho : ∀ v ∈ operand, IsInst s v) :
    Secure env s (do
      match if passesErrDefer (← scopesFrom scope) scope then operand else none with
      | some value => emitErrReturn parts node value scope
      | none => pure ⟨⟩
      runDefers parts scope none .normal
      if ← isTerminated then lastInst else emit (.ret operand) scope location) IsInst := by
  refine secure_scopesFrom_bind hs fun _ => ?_
  split
  next value h =>
    have hv : value ∈ operand := by
      split at h
      · exact h
      · cases h
    refine secure_bind (secure_emitErrReturn hp hs (ho value hv)) fun s₁ _ k₁ _ => ?_
    exact secure_leaveWith hp (hs.mono k₁) fun v hv => (ho v hv).mono k₁
  next => exact secure_leaveWith hp hs ho

include hp in
theorem secure_lowerReturn {value : Option Node} (hs : IsScope s scope) :
    Secure env s (lowerReturn parts node value scope) IsInst := by
  refine secure_bind (secure_checkFnExit hs) fun s₁ _ k₁ _ => ?_
  cases value with
  | some value =>
    refine secure_bind ?_ fun s₂ operand k₂ ho => secure_returnOperand hp (by grind) ho
    rw [map_eq_pure_bind]
    refine secure_bind (hp.expr (hs.mono k₁) nofun) fun s₂ v k₂ hv => secure_pure ?_
    simpa using hv
  | none => exact secure_returnOperand hp (hs.mono k₁) (by simp)

include hp in
theorem secure_lowerTry {expr : Node} (hs : IsScope s scope) (hl : IsLoc s loc) :
    Secure env s (lowerTry parts node expr scope loc) IsInst := by
  refine secure_bind (secure_checkFnExit hs) fun s₁ _ k₁ _ => ?_
  refine secure_bind (hp.value (by grind)) fun s₂ value k₂ hv => ?_
  refine secure_bind (secure_emit_one (by grind) rfl hv) fun s₃ isErr k₃ he => ?_
  refine secure_bind secure_newBlock fun s₄ errBlock k₄ herr => ?_
  refine secure_bind secure_newBlock fun s₅ okBlock k₅ hok => ?_
  refine secure_bind (secure_condBr (by grind) (by grind)) fun s₆ _ k₆ _ => ?_
  refine secure_bind (secure_goto (by grind)) fun s₇ _ k₇ _ => ?_
  refine secure_bind (secure_emit_one (by grind) rfl (by grind)) fun s₈ code k₈ hcode => ?_
  refine secure_bind (secure_runDefers hp (by grind)) fun s₉ _ k₉ _ => ?_
  refine secure_retUnlessTerminated (by grind) (by grind) fun s₁₀ k₁₀ => ?_
  refine secure_bind (secure_goto (by grind)) fun s₁₁ _ k₁₁ _ => ?_
  refine secure_bind (secure_emit_one (by grind) rfl (by grind)) fun s₁₂ payload k₁₂ hp₁₂ => ?_
  exact secure_deliver (by grind) hp₁₂ (by grind)

/-! ### Streams inside streams -/

/-- The stream around a child stream takes it in when the child is done. -/
theorem leaves_childStream (start : State) {inner : State} {log : Array Event} {index : Nat}
    {r : Option α} (hs : Safe s) (hscopes : start.scopes = s.scopes)
    (hfailed : start.failedVars = s.failedVars) (hi : Safe inner) (k : Kept start inner)
    (hr : r = none → Failing inner) :
    Leaves s (fun s' r => r.2 = none → Failing s') (.ok (index, r),
      { inner with
        stream := (s.stream.addChild inner.stream).2
        streamRoot := s.streamRoot
        sinks := s.sinks
        log }) := by
  have poison : inner.stream.isPoisoned → (s.stream.addChild inner.stream).2.isPoisoned := by
    intro h
    simp [Stream.addChild_eq, h, hi.recorded h]
  refine ⟨⟨hs.stream.addChild _, ?_, hi.scopes, ?_⟩, ⟨?_, ?_, ?_, ?_, ?_, ?_⟩, ?_⟩
  · intro h
    simp only [Stream.addChild_eq, Bool.or_eq_true, Bool.and_eq_true] at h ⊢
    rcases h with h | ⟨h, h'⟩
    · simpa using fun e => absurd e (by simpa using hs.recorded h)
    · simpa [h] using fun _ => by simpa using h'
  · intro entry he v hv
    simpa only [IsInst, Stream.addChild_eq] using hs.sinks entry he v hv
  · simp [Stream.addChild_eq]
  · simp [Stream.addChild_eq]
  · exact hscopes ▸ k.scopes
  · intro h
    simp [Stream.addChild_eq, h]
  · exact hfailed ▸ k.remembered
  · intro h
    exact (hfailed ▸ k.failed h).imp id poison
  · intro h
    exact (hr h).imp poison id

/-- A routine over a fresh stream.  If it fails, the stream around it is poisoned. -/
theorem secure_inChildStream {name : String} {root : ScopeId} {x : LowerM α}
    (hx : ∀ t, t.scopes = s.scopes → Secure env t x fun _ _ => True) :
    Secure env s (inChildStream name root x) fun s' r => r.2 = none → Failing s' := by
  intro hs
  let start : State :=
    { s with stream := Stream.new name true, streamRoot := root, sinks := [] }
  have hstart : Safe start := ⟨Stream.coherent_new name true, nofun, hs.scopes, nofun⟩
  have h := hx start rfl hstart
  simp only [inChildStream, outcome_bind, outcome_get, outcome_set, outcome_pure,
    outcome_attempt]
  rcases hr : outcome x env start with ⟨(_ | e) | a, inner⟩ <;> rw [hr] at h
  · exact leaves_childStream start hs rfl rfl h.1 h.2.1 fun _ => h.2.2
  · exact h
  · exact leaves_childStream start hs rfl rfl h.1 h.2.1 fun hnone => by cases hnone

/-- The body of a compile-time block ends with its value. -/
theorem secure_lowerComptimeBody {parts : Parts} (hp : SecureParts env parts) {expr : Node}
    (hs : IsScope s scope) :
    Secure env s (lowerComptimeBody parts node expr scope) fun _ _ => True := by
  refine secure_bind (hp.value hs) fun s₁ value k₁ hv => ?_
  refine secure_isTerminated_bind ?_
  split
  · exact secure_bind (secure_emit_one (by grind) rfl hv) fun _ _ _ _ => secure_pure trivial
  · exact secure_pure trivial

include hp in
theorem secure_lowerComptime {expr : Node} (hs : IsScope s scope) (hl : IsLoc s loc) :
    Secure env s (lowerComptime parts node expr scope loc) IsInst := by
  refine secure_bind (secure_openScope hs) fun s₁ inner k₁ hi => ?_
  have hcomptime : Secure env s₁ (isComptimeAt scope) fun _ _ => True :=
    secure_scopesFrom_bind (hs.mono k₁) fun _ => secure_get_bind (secure_pure trivial)
  refine secure_bind hcomptime fun s₂ atComptime k₂ _ => ?_
  split
  · exact hp.expr (by grind) (by grind)
  refine secure_get_bind ?_
  refine secure_bind (secure_inChildStream fun t ht => ?_) fun s₃ r k₃ hr => ?_
  · refine secure_withFrame (fun t' k' => secure_lowerComptimeBody hp ?_) fun _ _ _ _ _ => trivial
    have : IsScope t inner := by simpa only [IsScope, ht] using hi.mono k₂
    exact this.mono k'
  · obtain ⟨index, result⟩ := r
    cases result with
    | none => exact secure_throw (hr rfl)
    | some u =>
      refine secure_bind (secure_append (by grind) nofun) fun s₄ v k₄ hv => ?_
      exact secure_deliver (by grind) hv (by grind)

/-! ### Every level of nesting -/

theorem secure_unreachable (hs : IsScope s scope) :
    Secure env s (emit .unreachable scope location) IsInst :=
  secure_append hs nofun

include hp in
theorem secure_lowerExpr (hs : IsScope s scope) (hl : IsLoc s loc) :
    Secure env s (lowerExpr parts node scope loc) IsInst := by
  cases hk : node.kind.branches with
  | false =>
    exact holds_lowerExpr (L := safety env) hp.holds hk (fun _ => rfl) (fun _ _ => trivial) hs hl
  | true =>
    rw [lowerExpr]
    cases h : node.kind <;> rw [h] at hk
    case root | fnDecl | param | varDecl | testDecl | containerDecl | containerField |
        errorSetDecl | deferred | suspend | asm | assign | assignOp | unaryOp | call |
        builtinCall | fieldAccess | arrayAccess | structInit | arrayInit | symbol | intLiteral |
        floatLiteral | stringLiteral | boolLiteral | nullLiteral | undefinedLiteral |
        errorValue => cases hk
    case block => exact secure_lowerBlock hp hs hl
    case comptime => exact secure_lowerComptime hp hs hl
    case ifThen => exact secure_lowerIf hp hs hl
    case whileLoop => exact secure_lowerWhile hp hs hl
    case forLoop => exact secure_lowerFor hp hs hl
    case breakTo => exact secure_lowerBreak hp hs
    case continueTo => exact secure_lowerContinue hp hs
    case returnFrom => exact secure_lowerReturn hp hs
    case unreachable => exact secure_unreachable hs
    case tryExpr => exact secure_lowerTry hp hs hl
    case catchExpr => exact secure_lowerCatch hp hs hl
    case binaryOp op lhs rhs =>
      cases op
      case boolAnd | boolOr => exact secure_lowerShortCircuit hp hs hl
      case orElse => exact secure_lowerOrElse hp hs hl
      all_goals cases hk

theorem secure_failDepth {Q : State → α → Prop} : Secure env s (failDepth node) Q :=
  holds_read_bind (L := safety env) secure_failAt

/-- The routines for parts keep to the rules, however many levels of nesting are left. -/
theorem secureParts_nested (levels : Nat) : SecureParts env (nested levels) := by
  induction levels with
  | zero => exact ⟨fun _ _ => secure_failDepth, fun _ => secure_failDepth⟩
  | succ levels ih => exact ⟨fun hs hl => secure_lowerExpr ih hs hl, secure_lowerStatement ih⟩

end SourceIr.Lower
