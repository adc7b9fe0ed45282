import SourceIr.Proofs.Lexical.Routines

/-!
# Blocks, branches and jumps

The routines that open scopes, branch or jump keep to every discipline, if the routines for their
parts do.

* blocks, `ends_lowerStatements`, the run along the statements of one;
* branches and loops;
* jumps, which run deferred expressions on their way out;
* `keeps_inChildStream`, the streams of compile-time blocks;
* `keeps_lowerExpr` and `endsIn_lowerStatement`, every construct.
-/

namespace SourceIr

theorem ScopeTree.Under.index_le {t : ScopeTree} {root scope inner : ScopeId}
    (h : t.Under root scope inner) (ht : t.WellFormed) (hs : scope.index < t.scopes.size) :
    scope.index ≤ inner.index := by
  obtain ⟨new, hl, -⟩ := h
  obtain ⟨x, hx⟩ : ∃ x, t.scope? scope = some x := ⟨_, Array.getElem?_eq_getElem hs⟩
  have hmem : (x.id, x.kind) ∈ t.links inner := by
    rw [hl, links, ht.chain_eq hx]
    simp
  obtain ⟨y, hy, he⟩ := List.mem_map.1 hmem
  have hle := ht.index_le_of_mem hy
  rw [(Prod.mk.inj he).1, ht.id _ x hx] at hle
  exact hle

namespace Lower

open Mode

variable {env : Env} {d : Discipline env} {k : Ctx d} {parts : Parts} {node : Node}
  {scope block current : ScopeId} {location : Option Location} {loc : ResultLoc} {s s' : State}
  {α β : Type} (hp : KeepsParts d parts) (hc : k.In scope)

/-! ### Blocks -/

/-- Where the statements of a block have got to. -/
structure Upto (d : Discipline env) (block current : ScopeId) (s : State) : Prop where
  at_current : d.At s current
  notSealed : ¬ s.scopes.Sealed current
  under : s.scopes.Under s.streamRoot block current
  lt : block.index < s.scopes.scopes.size

namespace Upto

theorem index_le (h : Upto d block current s) (hi : d.Inv s) : block.index ≤ current.index :=
  h.under.index_le (d.wellFormed hi) h.lt

theorem under_frame (h : Upto d block current s) {n : Nat} (hf : Frame n s s') :
    s'.scopes.Under s'.streamRoot block current := by
  rw [hf.root]
  exact h.under.grows h.lt (d.index_lt h.at_current) hf.grows

/-- What is added to the current scope changes nothing about that. -/
theorem filling (h : Upto d block current s) (hf : (Mode.filling d current []).Le s s') :
    Upto d block current s' where
  at_current := hf.2.1 h.at_current
  notSealed := hf.2.2 h.notSealed
  under := h.under_frame hf.1
  lt := Nat.lt_of_lt_of_le h.lt hf.1.size_le

end Upto

include hp in
/-- The statements of a block add to the block and to what is opened from there on. -/
theorem ends_lowerStatements {failed : Bool} {statements : List Node} (hi : d.Inv s)
    (h : Upto d block current s) :
    d.Ends (Frame block.index) s (fun s' last => Upto d block last s')
      (outcome (lowerStatements parts current failed statements) env s) := by
  have done : ∀ {s : State} {current} (failed : Bool), d.Inv s → Upto d block current s →
      d.Ends (Frame block.index) s (fun s' last => Upto d block last s')
        (outcome (if failed then throw .poisoned else return current) env s) := by
    intro s current failed hi h
    cases failed with
    | true => exact ⟨hi, .refl _ s⟩
    | false => exact ⟨hi, .refl _ s, h⟩
  induction statements generalizing s current failed with
  | nil => exact done failed hi h
  | cons statement rest ih =>
    rw [lowerStatements]
    refine ends_isTerminated_bind hi fun terminated => ?_
    have hle := h.index_le hi
    cases terminated with
    | true =>
      -- What is not reached is left out.
      have hwarn : (Mode.filling d current []).Keeps
          (warnAt .unreachableCode "unreachable code" statement) := keeps_warnAt
      have hwarn := hwarn s hi ⟨h.at_current, fun _ h => absurd h List.not_mem_nil⟩
      refine Discipline.ends_bind (hwarn.imp (Q := fun s' _ => Upto d block current s')
        (fun _ hf => hf.1.mono hle) fun _ _ _ hf _ => h.filling hf) fun s' _ hi' hf hup => ?_
      exact (done failed hi' hup).after fun _ => hf.trans
    | false =>
      have hstatement := hp.statement statement current hi h.at_current h.notSealed
      have hattempt : d.Ends (Frame block.index) s
          (fun s' next => Upto d block (next.getD current) s')
          (outcome (attempt (parts.statement statement current)) env s) := by
        rw [outcome_attempt]
        rcases ho : outcome (parts.statement statement current) env s with ⟨(_ | e) | next, s'⟩ <;>
          rw [ho] at hstatement
        · exact ⟨hstatement.1, hstatement.2.1.mono hle, h.filling hstatement.2⟩
        · exact hstatement
        · obtain ⟨hi', hf, hat, hsealed, hunder⟩ := hstatement
          refine ⟨hi', hf.mono hle, hat, hsealed, (h.under_frame hf).trans hunder, ?_⟩
          exact Nat.lt_of_lt_of_le h.lt hf.size_le
      refine Discipline.ends_bind hattempt fun s' next hi' hf hup => ?_
      cases next with
      | some next => exact (ih hi' hup).after fun _ => hf.trans
      | none =>
        refine Discipline.Ends.after (?_ : d.Ends (Frame block.index) s' _ _) fun _ => hf.trans
        rw [outcome_bind, outcome_read]
        dsimp only
        split
        · exact ⟨hi', .refl _ s'⟩
        · exact ih hi' hup

/-- The way from the end of a block to the block itself does not leave the stream. -/
theorem lasting_wayOut (last block : ScopeId) : d.Lasting fun s => d.At s last ∧
    s.scopes.leaves s.streamRoot last (some block) = false :=
  lasting_chain fun root l => ScopeTree.leavesIn root (some block) l = false

include hp in
/-- One goes on after the statements of a block that has just been opened. -/
theorem ends_lowerStatements_bind {t : State} {statements : List Node} {f : ScopeId → LowerM β}
    {Q : State → β → Prop} (hi : d.Inv s) (hk : k.Know s)
    (hblock : block.index = s.scopes.scopes.size) (hf : Frame block.index s t) (hi' : d.Inv t)
    (hat : d.At t block) (hsealed : ¬ t.scopes.Sealed block)
    (h : ∀ last, (k.and _ (lasting_wayOut last block)).still.Runs (f last) Q) :
    d.Ends k.still.Le s Q
      (outcome (lowerStatements parts block false statements >>= f) env t) := by
  have hlt := d.index_lt hat
  have hrun : d.Ends (Frame block.index) t Q
      (outcome (lowerStatements parts block false statements >>= f) env t) := by
    refine Discipline.ends_bind (ends_lowerStatements hp hi' ⟨hat, hsealed, .refl _ _ _, hlt⟩)
      fun u last hi'' hf' hup => ?_
    have hknow : (k.and _ (lasting_wayOut last block)).Know u :=
      ⟨k.lasting s u hi hk (hblock ▸ hf.trans hf'), hup.at_current,
        hup.under.leaves_eq_false (d.wellFormed hi'') hup.lt⟩
    exact (h last u hi'' hknow).after fun _ hf'' => hf'.trans (hf''.mono (Nat.le_of_lt hup.lt))
  refine hrun.after fun u hf' => ?_
  change Frame s.scopes.scopes.size s u
  exact hblock ▸ hf.trans hf'

include hc in
/-- The value of a block: the last instruction if control never gets to the end, else void. -/
theorem keeps_blockEnd : k.Keeps (do
    let terminated ← isTerminated
    let stream := (← get).stream
    match if terminated then stream.last? else none with
    | some stop => return stop
    | none =>
      let void ← emitVoid scope node.location
      deliver void loc scope node.location) := by
  refine runs_then keeps_isTerminated fun terminated => runs_get_then fun u => ?_
  dsimp only
  split
  · exact keeps_pure
  · exact runs_then (keeps_emitVoid hc) fun _ => keeps_deliver hc

include hp hc in
theorem keeps_lowerPlainBlock {statements : List Node} :
    k.Keeps (lowerPlainBlock parts node statements scope loc) := fun s hi hk => by
  have hat := hc s hi hk
  refine ends_openScope hi fun _ hi' => ?_
  refine ends_lowerStatements_bind hp hi hk rfl (frame_opening_plain rfl) hi'
    (d.at_open hi hat rfl) (ScopeTree.not_sealed_last (d.wellFormed hi') ?_) fun last => ?_
  · simp [State.opening, State.top]
  have hc' : (k.and _ (lasting_wayOut last s.top)).In scope := hc.and
  refine runs_then keeps_isTerminated fun terminated => ?_
  refine runs_ite (runs_then (keeps_runDefers hp ?_ ?_) fun _ => keeps_blockEnd hc')
    (keeps_blockEnd hc')
  · exact fun _ _ hk => hk.2.1
  · exact fun _ _ hk => hk.2.2

include hc in
theorem keeps_joinAt {stop : BlockId} {incoming : List (BlockId × InstId)} :
    k.Keeps (joinAt stop incoming scope node) :=
  runs_then keeps_goto fun _ =>
    runs_ite (keeps_emit hc fun _ => trivial) (keeps_emit hc fun _ => trivial)

include hp hc in
theorem keeps_lowerLabelledBlock {label : String} {statements : List Node} :
    k.Keeps (lowerLabelledBlock parts node label statements scope loc) := by
  refine runs_then (keeps_settle hc) fun loc => runs_then keeps_newBlock fun stop => ?_
  intro s hi hk
  have hat := hc s hi hk
  refine ends_openScope hi fun _ hi' => ?_
  have hf : Frame s.scopes.scopes.size s (s.opening scope (.block (some label) (some stop))) :=
    frame_opening_plain rfl
  rw [openSink, outcome_bind, outcome_modify]
  have halike : Alike (s.opening scope (.block (some label) (some stop)))
      { s.opening scope (.block (some label) (some stop)) with
        sinks := (s.top, ⟨loc, []⟩) :: s.sinks } := ⟨rfl, rfl, rfl, rfl, rfl⟩
  have hblock : d.At (s.opening scope (.block (some label) (some stop))) s.top :=
    d.at_open hi hat rfl
  refine ends_lowerStatements_bind hp hi hk rfl (hf.trans halike.frame) (d.inv_alike hi' halike)
    (d.at_frame hi' hblock halike.frame (d.index_lt hblock))
    (ScopeTree.not_sealed_last (d.wellFormed (d.inv_alike hi' halike)) ?_) fun last => ?_
  · simp [State.opening, State.top]
  have hc' : (k.and _ (lasting_wayOut last s.top)).In scope := hc.and
  have hend : (k.and _ (lasting_wayOut last s.top)).Keeps (do
      joinAt stop (← closeSink s.top) scope node) :=
    runs_then keeps_closeSink fun _ => keeps_joinAt hc'
  refine runs_then keeps_isTerminated fun terminated => runs_ite ?_ hend
  refine runs_then (keeps_runDefers hp ?_ ?_) fun _ => runs_then keeps_isTerminated fun _ =>
    runs_ite ?_ hend
  · exact fun _ _ hk => hk.2.1
  · exact fun _ _ hk => hk.2.2
  · exact runs_then (keeps_emitVoid hc') fun _ => runs_then keeps_flowInto fun _ =>
      runs_then (keeps_emit hc' fun _ => trivial) fun _ => hend

include hp hc in
theorem keeps_lowerBlock {label : Option String} {statements : List Node} :
    k.Keeps (lowerBlock parts node label statements scope loc) := by
  cases label with
  | none => exact keeps_lowerPlainBlock hp hc
  | some label => exact keeps_lowerLabelledBlock hp hc

/-! ### Statements -/

include hp in
theorem fills_lowerLocalVar {name : String} {isConst isComptime : Bool}
    {typeExpr init : Option Node} :
    (Mode.filling d scope []).Keeps
      (lowerLocalVar parts node name isConst isComptime typeExpr init scope) := by
  have hc : (Ctx.scopes d [scope]).In scope := Ctx.in_scopes List.mem_cons_self
  refine runs_scopesFrom_then fun t => ?_
  refine runs_then (keeps_orDeclareFailed (hp.comptimeValue? hc).filling) fun typeInst => ?_
  cases init with
  | none => exact keeps_orDeclareFailed runs_failAt
  | some init =>
    refine runs_then (keeps_emit in_filling fun _ => trivial) fun ptr => ?_
    refine runs_then keeps_setNameHint fun _ => ?_
    have rest (value : InstId) : (Mode.filling d scope []).Keeps (do
        let status : ComptimeStatus :=
          if isComptime || t.isForcedComptime scope then .known true else .pending value
        let var ← declare scope
          (((BindingRequest.named name node.location).constness isConst
            (isConst || (isComptime || t.isForcedComptime scope))).withComptime status)
        let _ ← emit (.declVar var ptr) scope node.location) :=
      runs_then (keeps_declare (.inr ⟨rfl, rfl⟩)) fun _ =>
        runs_then (keeps_emit in_filling fun _ => trivial) fun _ => keeps_pure
    refine runs_ite (fun s hi hk => ends_openScope hi fun _ hi' => ?_) ?_
    · have hf : Frame s.scopes.scopes.size s (s.opening scope .comptime) :=
        frame_opening_plain rfl
      have hle := (Mode.filling d scope []).of_frame hi hk hf
      have hk' := (Mode.filling d scope []).stable hi hk hle
      have hvalue := (hp.expr init s.top (.existing ptr) hi' (d.at_open hi hk.1 rfl)).imp
        (fun _ => (Mode.filling d scope []).of_frame hi' hk') fun _ _ _ _ => id
      exact (ends_then hi' hk' (ends_orDeclareFailed hi' hk' hvalue) rest).after fun _ =>
        (Mode.filling d scope []).trans hle
    · exact runs_pure_bind (runs_then (keeps_orDeclareFailed (hp.keeps hc).filling) rest)

theorem keeps_hasEffectSince {start : Nat} : k.Keeps (hasEffectSince start) := by
  refine runs_get_then fun s => runs_then (keeps_stopAt ?_) fun _ => keeps_pure
  intro f hf
  split at hf
  · cases hf
  next h =>
    obtain rfl := Option.some.inj hf
    intro halarm
    obtain ⟨-, rfl⟩ := Fault.startOutOfRange.inj halarm
    exact h (Nat.zero_le _)

include hp hc in
theorem keeps_lowerExprStatement : k.Keeps (lowerExprStatement parts node scope) := by
  refine runs_get_then fun s => runs_then (hp.keeps hc) fun value => ?_
  refine runs_then keeps_isTerminated fun terminated => runs_ite ?_ keeps_pure
  refine runs_then keeps_hasEffectSince fun effectful => runs_read_bind ?_
  have check : k.Keeps (do
      let _ ← emitGen (.checkStatementIsVoid value) scope node.location) :=
    runs_then (keeps_emit hc fun _ => trivial) fun _ => keeps_pure
  exact runs_ite (runs_then keeps_warnAt fun _ => check) check

/-- A statement after which one goes on in its scope. -/
theorem endsIn_stay {x : LowerM α} (hx : (Mode.filling d scope []).Keeps x) (hi : d.Inv s)
    (hat : d.At s scope) (hsealed : ¬ s.scopes.Sealed scope) :
    d.EndsIn s scope (outcome (do let _ ← x; return scope) env s) := by
  have h := hx s hi ⟨hat, nofun⟩
  rw [outcome_bind]
  rcases ho : outcome x env s with ⟨(_ | _) | a, s'⟩ <;> rw [ho] at h
  · exact h
  · exact h
  · exact ⟨h.1, h.2.1.1, h.2.1.2.1 hat, h.2.1.2.2 hsealed, .refl _ _ _⟩

include hp in
/-- A statement adds to its scope only, and one goes on there, or below it after a `defer`. -/
theorem endsIn_lowerStatement (hi : d.Inv s) (hat : d.At s scope)
    (hsealed : ¬ s.scopes.Sealed scope)
    (hdefer : ∀ kind expr, node.kind = .deferred kind expr → d.MayDefer s scope) :
    d.EndsIn s scope (outcome (lowerStatement parts node scope) env s) := by
  have hc : (Ctx.scopes d [scope]).In scope := Ctx.in_scopes List.mem_cons_self
  unfold lowerStatement
  split
  · exact endsIn_stay (fills_lowerLocalVar hp) hi hat hsealed
  next kind expr hk =>
    rw [outcome_bind]
    obtain ⟨e, he, ho⟩ | ⟨hlt, ho⟩ := outcome_openScope_cases (s := s) scope (.deferred kind) <;>
      rw [ho]
    · exact ⟨hi, fun h => absurd h he⟩
    have hopen := d.at_defer kind hi hat hsealed (hdefer kind expr hk)
    have hi' := d.inv_open (.deferred kind) hi hlt
    have halike : Alike (s.opening scope (.deferred kind))
        { s.opening scope (.deferred kind) with deferred := (s.top, expr) :: s.deferred } :=
      ⟨rfl, rfl, rfl, rfl, rfl⟩
    refine ⟨d.inv_alike hi' halike, (frame_opening fun _ => Nat.le_refl _).trans halike.frame,
      d.at_frame hi' hopen halike.frame (d.index_lt hopen),
      ScopeTree.not_sealed_last (d.wellFormed (d.inv_alike hi' halike)) ?_,
      ScopeTree.under_openUnder hlt (d.root_lt hi) _⟩
    simp
  · exact endsIn_stay (keeps_lowerAssign hp hc).filling hi hat hsealed
  · exact endsIn_stay (keeps_lowerAssignOp hp hc).filling hi hat hsealed
  · split
    · exact endsIn_stay (keeps_lowerExprStatement hp hc).filling hi hat hsealed
    · exact endsIn_stay (hp.keeps hc).filling hi hat hsealed

/-! ### Branches -/

/-- The capture of a branch is bound in a scope of its own, which may be filled further. -/
theorem runs_bindPayload_bind {parent : ScopeId} {outer : List ScopeId} {name : String}
    {value : InstId} {f : ScopeId → LowerM β} {Q : State → β → Prop} (hc : k.In parent)
    (ho : ∀ o ∈ outer, k.In o) (h : ∀ own, (Mode.filling d own outer).Runs (f own) Q) :
    k.still.Runs (bindPayload parent name value node >>= f) Q := by
  rw [bindPayload, bind_assoc]
  refine runs_enter hc rfl ho fun own => ?_
  split
  · exact runs_pure_bind (h own)
  simp only [bind_assoc]
  refine runs_then (keeps_emit in_filling fun _ => trivial) fun _ => ?_
  refine runs_then (keeps_emit in_filling fun _ => trivial) fun _ => ?_
  refine runs_then (keeps_declare (.inr ⟨rfl, rfl⟩)) fun _ => ?_
  exact runs_then (keeps_emit in_filling fun _ => trivial) fun _ => runs_pure_bind (h own)

theorem runs_bindPayload {parent : ScopeId} {name : String} {value : InstId} (hc : k.In parent) :
    k.still.Runs (bindPayload parent name value node) d.At := by
  rw [← bind_pure (bindPayload parent name value node)]
  have houter : ∀ o ∈ ([] : List ScopeId), k.In o := nofun
  exact runs_bindPayload_bind hc houter fun own => runs_pure fun s hi hk => in_filling s hi hk

include hc in
theorem keeps_branchInto {stop : BlockId} {incoming : List (BlockId × InstId)} {value : InstId}
    {force : Bool} : k.Keeps (branchInto stop incoming value scope force) :=
  runs_then keeps_isTerminated fun _ => runs_ite keeps_pure <|
    runs_then keeps_currentBlock fun _ => runs_then (keeps_emit hc fun _ => trivial) fun _ =>
      keeps_pure

include hp hc in
theorem keeps_lowerElse {branch : Option Node} :
    k.Keeps (lowerElse parts node branch scope loc) := by
  cases branch with
  | some branch => exact hp.keeps hc
  | none => exact keeps_emitVoid hc

include hc in
theorem keeps_emitTest {payload : Option String} {cond : InstId} :
    k.Keeps (emitTest node payload cond scope) := by
  cases payload with
  | some name => exact keeps_emit hc fun _ => trivial
  | none => exact keeps_pure

include hc in
theorem runs_enterBranch {payload : Option String} {cond : InstId} :
    k.still.Runs (enterBranch node payload cond scope) d.At := by
  cases payload with
  | some name =>
    exact runs_then (keeps_emit hc fun _ => trivial) fun _ => runs_bindPayload hc
  | none => exact runs_pure fun s hi hk => hc s hi hk

include hp hc in
theorem keeps_lowerIf {condition thenBranch : Node} {payload : Option String}
    {elseBranch : Option Node} :
    k.Keeps (lowerIf parts node condition payload thenBranch elseBranch scope loc) := by
  refine runs_then (keeps_settle hc) fun loc => runs_then (hp.value hc) fun cond => ?_
  refine runs_then keeps_newBlock fun thenBlock => runs_then keeps_newBlock fun elseBlock => ?_
  refine runs_then keeps_newBlock fun stop => runs_then (keeps_emitTest hc) fun test => ?_
  refine runs_then (keeps_emit hc fun _ => trivial) fun _ => runs_then keeps_goto fun _ => ?_
  refine runs_bind_in (runs_enterBranch hc) fun thenScope => ?_
  refine runs_then (hp.keeps Ctx.in_plus) fun value => ?_
  refine runs_then (keeps_branchInto hc.plus) fun incoming => runs_then keeps_goto fun _ => ?_
  exact runs_then (keeps_lowerElse hp hc.plus) fun value =>
    runs_then (keeps_branchInto hc.plus) fun incoming => keeps_joinAt hc.plus

include hp hc in
theorem keeps_lowerCatch {lhs rhs : Node} {payload : Option String} :
    k.Keeps (lowerCatch parts node lhs payload rhs scope loc) := by
  refine runs_then (keeps_settle hc) fun loc => runs_then (hp.value hc) fun value => ?_
  refine runs_then (keeps_emit hc fun _ => trivial) fun isErr => ?_
  refine runs_then keeps_newBlock fun errBlock => runs_then keeps_newBlock fun okBlock => ?_
  refine runs_then keeps_newBlock fun stop => ?_
  refine runs_then (keeps_emit hc fun _ => trivial) fun _ => runs_then keeps_goto fun _ => ?_
  refine runs_open hc rfl fun outer => ?_
  have rest (handler : ScopeId) : ((k.plus outer).plus handler).Keeps (do
      let handled ← parts.expr rhs handler loc
      let incoming ← branchInto stop [] handled scope false
      goto okBlock
      let payload ← emitGen (.unwrapErrPayload value false) scope node.location
      let payload ← deliver payload loc scope node.location
      let incoming ← branchInto stop incoming payload scope false
      joinAt stop incoming scope node) := by
    have hc : ((k.plus outer).plus handler).In scope := hc.plus.plus
    exact runs_then (hp.keeps Ctx.in_plus) fun _ => runs_then (keeps_branchInto hc) fun _ =>
      runs_then keeps_goto fun _ => runs_then (keeps_emit hc fun _ => trivial) fun _ =>
        runs_then (keeps_deliver hc) fun _ => runs_then (keeps_branchInto hc) fun _ =>
          keeps_joinAt hc
  cases payload with
  | some name =>
    exact runs_then (keeps_emit Ctx.in_plus fun _ => trivial) fun _ =>
      runs_bind_in (runs_bindPayload Ctx.in_plus) rest
  | none =>
    exact runs_bind_in (runs_pure fun s hi hk => Ctx.in_plus s hi hk) rest

include hp hc in
theorem keeps_lowerOrElse {lhs rhs : Node} :
    k.Keeps (lowerOrElse parts node lhs rhs scope loc) := by
  refine runs_then (keeps_settle hc) fun loc => runs_then (hp.value hc) fun value => ?_
  refine runs_then (keeps_emit hc fun _ => trivial) fun nonNull => ?_
  refine runs_then keeps_newBlock fun okBlock => runs_then keeps_newBlock fun nullBlock => ?_
  refine runs_then keeps_newBlock fun stop => ?_
  refine runs_then (keeps_emit hc fun _ => trivial) fun _ => runs_then keeps_goto fun _ => ?_
  refine runs_then (hp.keeps hc) fun fallback => ?_
  refine runs_then (keeps_branchInto hc) fun incoming => runs_then keeps_goto fun _ => ?_
  exact runs_then (keeps_emit hc fun _ => trivial) fun inner => runs_then (keeps_deliver hc)
    fun inner => runs_then (keeps_branchInto hc) fun incoming => keeps_joinAt hc

include hp hc in
theorem keeps_lowerShortCircuit {op : BinaryOperator} {lhs rhs : Node} :
    k.Keeps (lowerShortCircuit parts node op lhs rhs scope loc) := by
  refine runs_then (hp.value hc) fun left => runs_then keeps_newBlock fun rhsBlock => ?_
  refine runs_then keeps_newBlock fun stop => runs_then keeps_currentBlock fun source => ?_
  have rest : k.Keeps (do
      goto rhsBlock
      let right ← parts.value rhs scope
      let incoming ← branchInto stop [(source, left)] right scope false
      let value ← joinAt stop incoming scope node
      deliver value loc scope node.location) :=
    runs_then keeps_goto fun _ => runs_then (hp.value hc) fun _ =>
      runs_then (keeps_branchInto hc) fun _ => runs_then (keeps_joinAt hc) fun _ =>
        keeps_deliver hc
  cases op <;> exact runs_then (keeps_emit hc fun _ => trivial) fun _ => rest

include hp hc in
theorem keeps_lowerBinary {op : BinaryOperator} {lhs rhs : Node} :
    k.Keeps (lowerBinary parts node op lhs rhs scope loc) := by
  unfold lowerBinary
  split
  · exact keeps_lowerShortCircuit hp hc
  · exact keeps_lowerShortCircuit hp hc
  · exact keeps_lowerOrElse hp hc
  · exact runs_then (hp.value hc) fun _ => runs_then (hp.value hc) fun _ =>
      keeps_emitTo hc fun _ => trivial

/-! ### Loops -/

theorem keeps_newLoop {word : String} : k.Keeps (newLoop word) :=
  runs_then keeps_newBlock fun _ => runs_then keeps_newBlock fun _ =>
    runs_then keeps_newBlock fun _ => runs_then keeps_newBlock fun _ =>
      runs_then keeps_newBlock fun _ => keeps_pure

include hc in
theorem runs_enterLoop {label : Option String} {blocks : LoopBlocks} :
    k.still.Runs (enterLoop scope label blocks loc) d.At :=
  runs_open hc rfl fun _ => runs_then keeps_openSink fun _ =>
    runs_pure fun s hi hk => Ctx.in_plus s hi hk

include hc in
theorem keeps_jumpUnlessTerminated {target : BlockId} {force : Bool} :
    k.Keeps (jumpUnlessTerminated target node scope force) :=
  runs_then keeps_isTerminated fun _ =>
    runs_ite (runs_then (keeps_emit hc fun _ => trivial) fun _ => keeps_pure) keeps_pure

include hp hc in
theorem keeps_finishLoop {loopScope : ScopeId} {elseBranch : Option Node} {blocks : LoopBlocks}
    {force : Bool} :
    k.Keeps (finishLoop parts node loopScope elseBranch blocks scope loc force) :=
  runs_then keeps_goto fun _ => runs_then (keeps_lowerElse hp hc) fun _ =>
    runs_then keeps_closeSink fun _ => runs_then (keeps_branchInto hc) fun _ => keeps_joinAt hc

include hp hc in
/-- What runs after the body of a loop sees what the body has seen. -/
theorem keeps_lowerWhile {label payload : Option String} {condition body : Node}
    {continueExpr elseBranch : Option Node} {isInline : Bool} :
    k.Keeps (lowerWhile parts node label condition payload continueExpr body elseBranch isInline
      scope loc) := by
  refine runs_then (keeps_settle hc) fun loc => runs_then keeps_newLoop fun blocks => ?_
  refine runs_then (keeps_emit hc fun _ => trivial) fun _ => runs_then keeps_goto fun _ => ?_
  refine runs_then (hp.value hc) fun cond => runs_then (keeps_emitTest hc) fun test => ?_
  refine runs_then (keeps_emit hc fun _ => trivial) fun _ => runs_then keeps_goto fun _ => ?_
  refine runs_bind_in (runs_enterLoop hc) fun loopScope => ?_
  refine runs_bind_in (runs_enterBranch Ctx.in_plus) fun bodyScope => ?_
  replace hc : ((k.plus loopScope).plus bodyScope).In scope := hc.plus.plus
  refine runs_then (hp.keeps Ctx.in_plus) fun _ => ?_
  refine runs_then (keeps_jumpUnlessTerminated hc) fun _ => runs_then keeps_goto fun _ => ?_
  have rest : ((k.plus loopScope).plus bodyScope).Keeps (do
      jumpUnlessTerminated blocks.test node scope isInline
      finishLoop parts node loopScope elseBranch blocks scope loc isInline) :=
    runs_then (keeps_jumpUnlessTerminated hc) fun _ => keeps_finishLoop hp hc
  cases continueExpr with
  | some expr => exact runs_then (hp.keeps Ctx.in_plus) fun _ => rest
  | none => exact rest

include hc in
theorem keeps_stepIndex {ptr : InstId} : k.Keeps (stepIndex ptr node scope) :=
  runs_then (keeps_emit hc fun _ => trivial) fun _ =>
    runs_then (keeps_emit hc fun _ => trivial) fun _ =>
      runs_then (keeps_emit hc fun _ => trivial) fun _ =>
        runs_then (keeps_emit hc fun _ => trivial) fun _ => keeps_pure

theorem checked_indexRequest {index : Option String} {value : InstId} :
    (indexRequest index location value).Checked := by
  cases index with
  | some name => exact .inr ⟨rfl, rfl⟩
  | none => exact .inl rfl

include hp hc in
theorem keeps_lowerFor {label index : Option String} {iterable body : Node} {item : String}
    {elseBranch : Option Node} {isInline : Bool} :
    k.Keeps (lowerFor parts node label iterable item index body elseBranch isInline scope loc) := by
  refine runs_then (keeps_settle hc) fun loc => runs_then (hp.value hc) fun array => ?_
  refine runs_then (keeps_emit hc fun _ => trivial) fun lengthPtr => ?_
  refine runs_then (keeps_emit hc fun _ => trivial) fun length => ?_
  refine runs_then (keeps_emit hc fun _ => trivial) fun indexPtr => ?_
  refine runs_then (keeps_emit hc fun _ => trivial) fun zero => ?_
  refine runs_then (keeps_emit hc fun _ => trivial) fun _ => ?_
  refine runs_then keeps_newLoop fun blocks => ?_
  refine runs_then (keeps_emit hc fun _ => trivial) fun _ => runs_then keeps_goto fun _ => ?_
  refine runs_then (keeps_emit hc fun _ => trivial) fun position => ?_
  refine runs_then (keeps_emit hc fun _ => trivial) fun inBounds => ?_
  refine runs_then (keeps_emit hc fun _ => trivial) fun _ => runs_then keeps_goto fun _ => ?_
  refine runs_bind_in (runs_enterLoop hc) fun loopScope => ?_
  refine runs_then (keeps_emit Ctx.in_plus fun _ => trivial) fun elementPtr => ?_
  refine runs_then (keeps_emit Ctx.in_plus fun _ => trivial) fun element => ?_
  have houter : ∀ o ∈ [scope, loopScope], (k.plus loopScope).In o := by
    intro o ho
    rcases List.mem_cons.1 ho with rfl | ho
    · exact hc.plus
    · exact List.mem_singleton.1 ho ▸ Ctx.in_plus
  refine runs_bindPayload_bind Ctx.in_plus houter fun bodyScope => ?_
  refine runs_then (keeps_declare checked_indexRequest) fun indexVar => ?_
  refine runs_then (keeps_emit in_filling fun _ => trivial) fun _ => Ctx.Keeps.filling ?_
  replace hc : (Ctx.scopes d [bodyScope, scope, loopScope]).In scope := Ctx.in_scopes (by simp)
  refine runs_then (hp.keeps (Ctx.in_scopes List.mem_cons_self)) fun _ => ?_
  refine runs_then (keeps_jumpUnlessTerminated hc) fun _ => runs_then keeps_goto fun _ => ?_
  refine runs_then (keeps_stepIndex hc) fun _ => ?_
  exact runs_then (keeps_emit hc fun _ => trivial) fun _ => keeps_finishLoop hp hc

/-! ### Jumps -/

theorem lasting_stays (scope : ScopeId) (target : Option ScopeId) : d.Lasting fun s =>
    d.At s scope ∧ s.scopes.leaves s.streamRoot scope target = false :=
  lasting_chain fun root l => ScopeTree.leavesIn root target l = false

include hc in
/-- A jump that is lowered does not leave its stream. -/
theorem runs_leavesStream {target : Option ScopeId} {x : LowerM α} {Q : State → α → Prop}
    (h : (k.and _ (lasting_stays scope target)).still.Runs x Q) :
    k.still.Runs (do if ← leavesStream scope target then failLeaving node else x) Q := by
  refine runs_bind (R := fun s leaves =>
    leaves = s.scopes.leaves s.streamRoot scope target) ?_ fun s leaves hi hk hl => ?_
  · exact runs_scopesFrom_bind fun s hi hk => ⟨hi, le_refl hi hk, rfl⟩
  · cases leaves with
    | true => exact runs_failAt s hi hk
    | false => exact h s hi ⟨hk, hc s hi hk, hl.symm⟩

theorem keeps_breakScope {label : Option String} : k.Keeps (breakScope node label scope) := by
  refine runs_scopesFrom_then fun t => ?_
  split
  · exact keeps_pure
  all_goals exact runs_failAt

theorem keeps_continueScope {label : Option String} :
    k.Keeps (continueScope node label scope) := by
  refine runs_scopesFrom_then fun t => ?_
  split
  · exact keeps_pure
  all_goals exact runs_failAt

theorem keeps_lastInst : k.Keeps lastInst := runs_get_then fun _ => keeps_pure

include hp hc in
theorem keeps_lowerBreak {label : Option String} {value : Option Node} :
    k.Keeps (lowerBreak parts node label value scope) := by
  refine runs_then keeps_breakScope fun target => runs_leavesStream hc ?_
  let known := k.and _ (lasting_stays scope (some target))
  have hc : known.In scope := hc.and
  refine runs_scopeAt_bind fun s y hi hk _ => ?_
  cases breakBlock? y.kind with
  | none => exact runs_failAt s hi hk
  | some stop =>
    have rest (v : InstId) : known.Keeps (do
        runDefers parts scope (some target) .normal
        if ← isTerminated then lastInst
        else
          flowInto target v
          emit (.br stop) scope node.location) :=
      runs_then (keeps_runDefers hp hc fun _ _ hk => hk.2.2) fun _ =>
        runs_then keeps_isTerminated fun _ => runs_ite keeps_lastInst <|
          runs_then keeps_flowInto fun _ => keeps_emit hc fun _ => trivial
    dsimp only
    refine (?_ : known.Keeps _) s hi hk
    refine runs_then keeps_sink? fun sink => ?_
    cases value with
    | some value => exact runs_then (hp.keeps hc) rest
    | none => exact runs_then (keeps_emitVoid hc) rest

include hp hc in
theorem keeps_lowerContinue {label : Option String} :
    k.Keeps (lowerContinue parts node label scope) := by
  refine runs_then keeps_continueScope fun target => runs_leavesStream hc ?_
  let known := k.and _ (lasting_stays scope (some target))
  have hc : known.In scope := hc.and
  refine runs_scopeAt_bind fun s y hi hk _ => ?_
  cases continueBlock? y.kind with
  | none => exact runs_failAt s hi hk
  | some step =>
    have rest : known.Keeps (do
        runDefers parts scope (some target) .normal
        if ← isTerminated then lastInst else emit (.br step) scope node.location) :=
      runs_then (keeps_runDefers hp hc fun _ _ hk => hk.2.2) fun _ =>
        runs_then keeps_isTerminated fun _ => runs_ite keeps_lastInst <|
          keeps_emit hc fun _ => trivial
    exact rest s hi hk

include hc in
/-- A way out of the function does not leave the stream. -/
theorem runs_checkFnExit_bind {exit : FnExit} {f : PUnit → LowerM β} {Q : State → β → Prop}
    (h : (k.and _ (lasting_stays scope none)).still.Runs (f ⟨⟩) Q) :
    k.still.Runs (checkFnExit node scope exit >>= f) Q := by
  refine runs_bind (R := fun s _ => d.At s scope ∧
    s.scopes.leaves s.streamRoot scope none = false) ?_ fun s _ hi hk hs => h s hi ⟨hk, hs⟩
  unfold checkFnExit
  refine runs_scopesFrom_then fun t => runs_ite runs_failAt (runs_ite runs_failAt ?_)
  exact runs_leavesStream hc (runs_pure fun s hi hk => hk.2)

include hp hc in
/-- The way out of the function for an error. -/
theorem keeps_emitErrReturn {value : InstId}
    (hout : ∀ s, d.Inv s → k.Know s → s.scopes.leaves s.streamRoot scope none = false) :
    k.Keeps (emitErrReturn parts node value scope) := by
  refine runs_then (keeps_emit hc fun _ => trivial) fun isErr => ?_
  refine runs_then keeps_newBlock fun errBlock => runs_then keeps_newBlock fun okBlock => ?_
  refine runs_then (keeps_emit hc fun _ => trivial) fun _ => runs_then keeps_goto fun _ => ?_
  refine runs_then (keeps_runDefers hp hc hout) fun _ => ?_
  exact runs_then keeps_isTerminated fun _ =>
    runs_ite (runs_then (keeps_emit hc fun _ => trivial) fun _ => keeps_goto) keeps_goto

include hp hc in
/-- The way out of the function with a value that is there: the error that it may be goes its own
way. -/
theorem keeps_returning {operand : Option InstId}
    (hout : ∀ s, d.Inv s → k.Know s → s.scopes.leaves s.streamRoot scope none = false) :
    k.Keeps (do
      match if passesErrDefer (← scopesFrom scope) scope then operand else none with
      | some value => emitErrReturn parts node value scope
      | none => pure ⟨⟩
      runDefers parts scope none .normal
      if ← isTerminated then lastInst else emit (.ret operand) scope node.location) := by
  have last : k.Keeps (do
      runDefers parts scope none .normal
      if ← isTerminated then lastInst else emit (.ret operand) scope node.location) :=
    runs_then (keeps_runDefers hp hc hout) fun _ => runs_then keeps_isTerminated fun _ =>
      runs_ite keeps_lastInst (keeps_emit hc fun _ => trivial)
  refine runs_scopesFrom_then fun t => ?_
  dsimp only
  split
  · exact runs_then (keeps_emitErrReturn hp hc hout) fun _ => last
  · exact last

include hp hc in
theorem keeps_lowerReturn {value : Option Node} :
    k.Keeps (lowerReturn parts node value scope) := by
  refine runs_checkFnExit_bind hc ?_
  let known := k.and _ (lasting_stays scope none)
  have hc : known.In scope := hc.and
  have hout : ∀ s, d.Inv s → known.Know s → s.scopes.leaves s.streamRoot scope none = false :=
    fun _ _ hk => hk.2.2
  cases value with
  | some value =>
    exact runs_then (keeps_map (hp.keeps hc)) fun _ => keeps_returning hp hc hout
  | none => exact keeps_returning hp hc hout

include hp hc in
theorem keeps_lowerTry {expr : Node} : k.Keeps (lowerTry parts node expr scope loc) := by
  refine runs_checkFnExit_bind hc ?_
  have hc : (k.and _ (lasting_stays scope none)).In scope := hc.and
  refine runs_then (hp.value hc) fun value => runs_then (keeps_emit hc fun _ => trivial) fun _ => ?_
  refine runs_then keeps_newBlock fun errBlock => runs_then keeps_newBlock fun okBlock => ?_
  refine runs_then (keeps_emit hc fun _ => trivial) fun _ => runs_then keeps_goto fun _ => ?_
  refine runs_then (keeps_emit hc fun _ => trivial) fun code => ?_
  refine runs_then (keeps_runDefers hp hc fun _ _ hk => hk.2.2) fun _ => ?_
  have rest : (k.and _ (lasting_stays scope none)).Keeps (do
      goto okBlock
      emitTo (.unwrapErrPayload value false) scope node.location loc) :=
    runs_then keeps_goto fun _ => keeps_emitTo hc fun _ => trivial
  exact runs_then keeps_isTerminated fun _ =>
    runs_ite (runs_then (keeps_emit hc fun _ => trivial) fun _ => rest) rest

/-! ### Compile-time blocks and suspension -/

theorem isForcedComptime_eq_links (t : ScopeTree) (scope : ScopeId) :
    t.isForcedComptime scope = (t.links scope).any (·.2 == .comptime) := by
  rw [ScopeTree.isForcedComptime, ScopeTree.links, List.any_map]
  rfl

/-- Everything in a compile-time block is evaluated at compile time. -/
theorem isForcedComptime_opening (h : scope.index < s.scopes.scopes.size) :
    (s.opening scope .comptime).scopes.isForcedComptime s.top = true := by
  rw [isForcedComptime_eq_links, State.opening, State.top, ScopeTree.links_openUnder h]
  rfl

/-- What is left of a state by a routine over a stream of its own. -/
theorem frame_around {t : State} {name : String} {n : Nat} (h : Frame n (s.inChild name scope) t) :
    Frame n s (s.around t) where
  grows := h.grows
  record := h.record
  var := h.var
  root := rfl
  isInline := by
    have hfold : ∀ (l : List Message) (stream : Stream),
        (l.foldl Stream.invalidate stream).isInline = stream.isInline := by
      intro l
      induction l with
      | nil => exact fun _ => rfl
      | cons msg rest ih => exact fun stream => ih (stream.invalidate msg)
    simp only [State.around, Stream.addChild]
    split
    · rw [← Array.foldl_toList, hfold]
    · rfl
  defers := h.defers

/-- A routine over a stream of its own knows the scope that it starts in, and nothing else. -/
theorem keeps_inChildStream {name : String} {x : LowerM α}
    (hroot : ∀ s, d.Inv s → k.Know s →
      d.At s scope ∧ s.scopes.isForcedComptime scope = true)
    (hx : (Ctx.scopes d [scope]).Keeps x) : k.Keeps (inChildStream name scope x) := by
  intro s hi hk
  obtain ⟨hat, hforced⟩ := hroot s hi hk
  obtain ⟨hi', hat'⟩ := d.child name hi hat hforced
  have h := hx (s.inChild name scope) hi' fun c hc => List.mem_singleton.1 hc ▸ hat'
  rw [outcome_inChildStream]
  rcases ho : outcome x env (s.inChild name scope) with ⟨(_ | _) | a, t⟩ <;> rw [ho] at h
  · exact ⟨d.around hi h.1 h.2, frame_around h.2, trivial⟩
  · exact h
  · exact ⟨d.around hi h.1 h.2.1, frame_around h.2.1, trivial⟩

include hp hc in
theorem keeps_returnBody {expr : Node} : k.Keeps (lowerComptimeBody parts node expr scope) :=
  runs_then (hp.value hc) fun _ => runs_then keeps_isTerminated fun _ =>
    runs_ite (runs_then (keeps_emit hc fun _ => trivial) fun _ => keeps_pure) keeps_pure

include hp hc in
theorem keeps_lowerComptime {expr : Node} :
    k.Keeps (lowerComptime parts node expr scope loc) := by
  refine runs_open_and (F := fun inner s => d.At s inner ∧ s.scopes.isForcedComptime inner = true)
    hc rfl (fun inner => lasting_forced inner true)
    (fun s hi hat h => ⟨h, isForcedComptime_opening (d.index_lt hat)⟩) fun inner => ?_
  let known := k.and _ (lasting_forced inner true)
  have hinner : known.In inner := fun _ _ hk => hk.2.1
  have hc : known.In scope := hc.and
  refine runs_then keeps_isComptimeAt fun comptime => runs_ite (hp.keeps hinner) ?_
  refine runs_get_then fun s => ?_
  refine runs_then (keeps_inChildStream (fun _ _ hk => hk.2) (keeps_withFrame ?_)) fun r => ?_
  · exact keeps_returnBody hp (Ctx.in_scopes List.mem_cons_self)
  · obtain ⟨unit, _ | _⟩ := r
    · exact runs_poisoned
    · exact keeps_emitTo hc fun _ => trivial

include hc in
/-- A `suspend` is lowered only where it need not be evaluated at compile time. -/
theorem runs_checkSuspend_bind {f : PUnit → LowerM β} {Q : State → β → Prop}
    (h : (k.and _ (lasting_forced scope false)).still.Runs (f ⟨⟩) Q) :
    k.still.Runs (checkSuspend node scope >>= f) Q := by
  refine runs_bind (R := fun s _ => s.scopes.isForcedComptime scope = false) ?_
    fun s _ hi hk hs => h s hi ⟨hk, hc s hi hk, hs⟩
  unfold checkSuspend
  refine runs_scopesFrom_then fun t => runs_ite runs_failAt (runs_ite runs_failAt ?_)
  refine runs_bind runs_isComptimeAt fun s comptime hi hk hs => ?_
  cases comptime with
  | true => exact runs_failAt s hi hk
  | false =>
    exact ⟨hi, le_refl hi hk, (Bool.or_eq_false_iff.1 hs.symm).2⟩

include hp hc in
theorem keeps_lowerSuspend {body : Option Node} :
    k.Keeps (lowerSuspend parts node body scope) := by
  refine runs_checkSuspend_bind hc ?_
  have hc : (k.and _ (lasting_forced scope false)).In scope := hc.and
  refine runs_then (keeps_emitWith hc fun _ _ hk => hk.2.2) fun start => ?_
  cases body with
  | some body =>
    exact runs_open hc rfl fun inner => runs_then (hp.keeps Ctx.in_plus) fun _ =>
      keeps_emit hc.plus fun _ => trivial
  | none => exact keeps_emit hc fun _ => trivial

/-! ### Expressions -/

seal Builtin.find? in
include hp hc in
/-- Every expression leaves what is there as it is. -/
theorem keeps_lowerExpr : k.Keeps (lowerExpr parts node scope loc) := by
  have hload : k.Keeps (lowerLoad parts node scope loc) := keeps_lowerLoad hp hc
  rw [lowerExpr]
  cases node.kind
  case varDecl | deferred | root | fnDecl | param | testDecl | containerField =>
    exact runs_failAt
  case fieldAccess | arrayAccess => exact hload
  case intLiteral | floatLiteral | stringLiteral | boolLiteral | nullLiteral | undefinedLiteral |
      errorValue => exact keeps_emitTo hc fun _ => trivial
  case symbol => exact runs_then (keeps_lowerSymbol hc) fun _ => keeps_deliver hc
  case unaryOp => exact keeps_lowerUnary hp hc
  case binaryOp => exact keeps_lowerBinary hp hc
  case call => exact keeps_lowerCall hp hc
  case builtinCall => exact keeps_lowerBuiltinCall hp hc
  case containerDecl => exact keeps_lowerContainer hp hc
  case errorSetDecl => exact keeps_lowerErrorSet hc
  case structInit => exact keeps_lowerStructInit hp hc
  case arrayInit => exact keeps_lowerArrayInit hp hc
  case block => exact keeps_lowerBlock hp hc
  case assign => exact runs_then (keeps_lowerAssign hp hc) fun _ => keeps_emitVoid hc
  case assignOp => exact runs_then (keeps_lowerAssignOp hp hc) fun _ => keeps_emitVoid hc
  case ifThen => exact keeps_lowerIf hp hc
  case whileLoop => exact keeps_lowerWhile hp hc
  case forLoop => exact keeps_lowerFor hp hc
  case breakTo => exact keeps_lowerBreak hp hc
  case continueTo => exact keeps_lowerContinue hp hc
  case returnFrom => exact keeps_lowerReturn hp hc
  case tryExpr => exact keeps_lowerTry hp hc
  case catchExpr => exact keeps_lowerCatch hp hc
  case comptime => exact keeps_lowerComptime hp hc
  case suspend => exact keeps_lowerSuspend hp hc
  case unreachable => exact keeps_emit hc fun _ => trivial
  case asm => exact keeps_lowerAsm hc

end Lower

end SourceIr
