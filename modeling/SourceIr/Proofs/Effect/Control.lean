import SourceIr.Proofs.Effect.Routines
import SourceIr.Proofs.Scope.Jump

/-!
# Effects of blocks and branches

A construct that branches shows an effect in any case, for its branch is one.  A block without a
label shows what its statements show, and what is deferred in it when it is left at its end.

* `Owes`, what is deferred on the way to the end of a block, and `shows_runDefers`;
* `StatementsEnd`, how the statements of a block end;
* `displays_lowerPlainBlock` and those after it, one construct after the other;
* `displayParts_nested`, the routines for parts at every level of nesting.
-/

namespace SourceIr.Lower

open Outline Comparison

variable {env : Env} {s s' : State} {α : Type} {x : LowerM α} {p : Prop} {scope block : ScopeId}
  {loc : ResultLoc} {node expr : Node} {value : InstId} {parts : Parts}

/-! ### What is deferred -/

/-- An expression is deferred on the way from a scope to the end of a block around it. -/
def Owes (s : State) (block scope : ScopeId) (expr : Node) : Prop :=
  ∃ d, (d, .normal) ∈ s.scopes.defersUntil scope (some block) ∧
    d.index < s.scopes.scopes.size ∧ s.deferred.lookup d = some expr

namespace Owes

theorem gains (h : Owes s block scope expr) (hs : scope.index < s.scopes.scopes.size)
    (g : Gains s s') : Owes s' block scope expr := by
  obtain ⟨d, hd, hlt, he⟩ := h
  refine ⟨d, ?_, Nat.lt_of_lt_of_le hlt g.scopes.size_le, ?_⟩
  · rwa [g.scopes.defersUntil_eq hs]
  · rwa [g.deferred d hlt]

theorem deferring {kind : DeferKind} {e : Node} (h : Owes s block scope expr)
    (hs : scope.index < s.scopes.scopes.size) (hb : block.index < s.scopes.scopes.size) :
    Owes (s.deferring scope kind e) block ⟨s.scopes.scopes.size⟩ expr := by
  obtain ⟨d, hd, hlt, he⟩ := h
  refine ⟨d, ?_, Nat.lt_of_lt_of_le hlt (Gains.deferring hs kind e).scopes.size_le, ?_⟩
  · have hne : some (⟨s.scopes.scopes.size⟩ : ScopeId) ≠ some block := by
      rintro ⟨⟩
      exact Nat.lt_irrefl _ hb
    rw [State.deferring, ScopeTree.defersUntil_openUnder hs hne]
    exact List.mem_cons_of_mem _ hd
  · rwa [lookup_deferring (by rintro rfl; exact Nat.lt_irrefl _ hlt)]

end Owes

/-- What has just been deferred is owed. -/
theorem owes_deferring (hs : scope.index < s.scopes.scopes.size)
    (hb : block.index < s.scopes.scopes.size) :
    Owes (s.deferring scope .normal expr) block ⟨s.scopes.scopes.size⟩ expr := by
  have hne : some (⟨s.scopes.scopes.size⟩ : ScopeId) ≠ some block := by
    rintro ⟨⟩
    exact Nat.lt_irrefl _ hb
  refine ⟨⟨s.scopes.scopes.size⟩, ?_, by simp [State.deferring], List.lookup_cons_self⟩
  rw [State.deferring, ScopeTree.defersUntil_openUnder hs hne]
  exact List.mem_cons_self

variable (hp : DisplayParts env parts)

include hp in
theorem displays_runDefer : Displays env expr.Acts (runDefer parts scope expr) :=
  displays_then displays_scopeAt fun _ => displays_then displays_openScope fun _ =>
    displays_before hp.expr fun _ => displays_pure

include hp in
/-- One of the expressions that run on a path has an effect. -/
theorem shows_runDefersIn {path : ExitPath} {defers : List (ScopeId × DeferKind)} {u : PUnit}
    (hr : Returns (runDefersIn parts path defers) env s u s') :
    Shows (∃ d ∈ defers, path.runs d.2 = true ∧ d.1.index < s.scopes.scopes.size ∧
      ∃ expr, s.deferred.lookup d.1 = some expr ∧ expr.Acts) s s' := by
  induction defers generalizing s with
  | nil =>
    obtain ⟨-, rfl⟩ := returns_pure.1 hr
    exact (Shows.refl _).imp fun ⟨d, hd, _⟩ => absurd hd List.not_mem_nil
  | cons d rest ih =>
    obtain ⟨id, kind⟩ := d
    rw [runDefersIn, returns_get_bind] at hr
    dsimp only at hr
    split at hr
    next hnone =>
      refine (ih hr).imp ?_
      rintro ⟨d, hd, hruns, hlt, expr, he, hacts⟩
      obtain rfl | hd := List.mem_cons.1 hd
      · rw [if_pos hruns, he] at hnone
        cases hnone
      · exact ⟨d, hd, hruns, hlt, expr, he, hacts⟩
    next expr hsome =>
      obtain ⟨_, t, hrun, hr⟩ := returns_bind.1 hr
      have hshown := displays_runDefer hp s _ t hrun
      replace hr := returns_isTerminated_bind hr
      cases hterm : t.stream.isTerminated with
      | true =>
        rw [hterm] at hr
        obtain ⟨-, rfl⟩ := returns_pure.1 hr
        refine ⟨hshown.gains, fun hs => .inl ((hshown.acted hs).resolve_right fun h => ?_)⟩
        exact Bool.false_ne_true (h.2.symm.trans hterm)
      | false =>
        rw [hterm] at hr
        refine (hshown.trans (ih hr)).imp ?_
        rintro ⟨d, hd, hruns, hlt, e, he, hacts⟩
        obtain rfl | hd := List.mem_cons.1 hd
        · rw [if_pos hruns, he] at hsome
          obtain rfl := Option.some.inj hsome
          exact .inl hacts
        · refine .inr ⟨d, hd, hruns, Nat.lt_of_lt_of_le hlt hshown.gains.scopes.size_le, e, ?_,
            hacts⟩
          rwa [hshown.gains.deferred d.1 hlt]

include hp in
theorem displays_runDefers {target : Option ScopeId} {path : ExitPath} :
    Displays env False (runDefers parts scope target path) := by
  refine displays_then displays_scopesFrom fun scopes s u s' hr => ?_
  exact (shows_runDefersIn hp hr).none

include hp in
/-- What is owed at the end of a block shows there. -/
theorem shows_runDefers {u : PUnit}
    (hr : Returns (runDefers parts scope (some block) .normal) env s u s') :
    Shows (∃ expr, Owes s block scope expr ∧ expr.Acts) s s' := by
  refine (shows_runDefersIn hp (returns_scopesFrom_bind hr)).imp ?_
  rintro ⟨expr, ⟨d, hd, hlt, he⟩, hacts⟩
  exact ⟨(d, .normal), hd, rfl, hlt, expr, he, hacts⟩

/-! ### Statements -/

/-- How the statements of a block end: they show what they do, or it is still owed. -/
structure StatementsEnd (statements : List Node) (block scope last : ScopeId) (s s' : State) :
    Prop where
  gains : Gains s s'
  acted : s.GoesOn → Acted s s' ∨ s'.GoesOn ∧
    (scope.index < s.scopes.scopes.size → block.index < s.scopes.scopes.size →
      last.index < s'.scopes.scopes.size ∧
      (∀ expr, Owes s block scope expr → Owes s' block last expr) ∧
      (AnyActs statements → ∃ expr, Owes s' block last expr ∧ expr.Acts))

namespace StatementsEnd

variable {rest : List Node} {last : ScopeId} {t : State}

/-- The first statement has deferred an expression. -/
theorem deferring {kind : DeferKind} (hk : node.kind = .deferred kind expr)
    (hlt : scope.index < s.scopes.scopes.size)
    (h : StatementsEnd rest block ⟨s.scopes.scopes.size⟩ last (s.deferring scope kind expr) s') :
    StatementsEnd (node :: rest) block scope last s s' where
  gains := (Gains.deferring hlt kind expr).trans h.gains
  acted hs := by
    have hgains := Gains.deferring hlt kind expr
    refine (h.acted hs).imp (hgains.acted h.gains) fun ⟨hs', hrest⟩ => ⟨hs', fun _ hb => ?_⟩
    obtain ⟨hlast, howed, hacts⟩ :=
      hrest (by simp [State.deferring]) (Nat.lt_of_lt_of_le hb hgains.scopes.size_le)
    refine ⟨hlast, fun e he => howed e (he.deferring hlt hb), fun hany => ?_⟩
    obtain hnode | hany := anyActs_cons.1 hany
    · have hexpr := anyActs_of_acts hnode (by rw [hk]; rfl)
      rw [hk] at hexpr
      cases kind with
      | normal => exact ⟨expr, howed expr (owes_deferring hlt hb), anyActs_one.1 hexpr⟩
      | error => exact absurd hexpr anyActs_nil
    · exact hacts hany

/-- The first statement has shown its effects. -/
theorem after (hshown : Shows node.Acts s t) (h : StatementsEnd rest block scope last t s') :
    StatementsEnd (node :: rest) block scope last s s' where
  gains := hshown.gains.trans h.gains
  acted hs := by
    obtain ha | ⟨hno, ht⟩ := hshown.acted hs
    · exact .inl (ha.gains hshown.gains h.gains)
    refine (h.acted ht).imp (hshown.gains.acted h.gains) fun ⟨hs', hrest⟩ => ⟨hs', ?_⟩
    intro hlt hb
    have hsize := hshown.gains.scopes.size_le
    obtain ⟨hlast, howed, hacts⟩ :=
      hrest (Nat.lt_of_lt_of_le hlt hsize) (Nat.lt_of_lt_of_le hb hsize)
    exact ⟨hlast, fun e he => howed e (he.gains hlt hshown.gains),
      fun hany => hacts ((anyActs_cons.1 hany).resolve_left hno)⟩

end StatementsEnd

theorem displays_warnAt {kind : DiagnosticKind} {message : String} :
    Displays env False (warnAt kind message node) := by
  intro s u s' hr
  rw [warnAt, returns_get_bind] at hr
  obtain ⟨_, t, hnote, hr⟩ := returns_bind.1 hr
  obtain rfl := returns_modify.1 hnote
  obtain rfl := returns_modify.1 hr
  exact ⟨⟨.of_eq rfl rfl, List.prefix_rfl⟩, fun hs => .inr ⟨id, hs⟩⟩

include hp in
theorem statementsEnd_lowerStatements {statements : List Node} {last : ScopeId}
    (hr : Returns (lowerStatements parts scope false statements) env s last s') :
    StatementsEnd statements block scope last s s' := by
  induction statements generalizing s scope with
  | nil =>
    obtain ⟨rfl, rfl⟩ := returns_pure.1 hr
    exact ⟨.refl _, fun hs => .inr ⟨hs, fun hlt _ => ⟨hlt, fun _ => id, (absurd · anyActs_nil)⟩⟩⟩
  | cons statement rest ih =>
    rw [lowerStatements] at hr
    replace hr := returns_isTerminated_bind hr
    split at hr
    next hterm =>
      obtain ⟨_, t, hwarn, hr⟩ := returns_bind.1 hr
      obtain ⟨-, rfl⟩ := returns_pure.1 hr
      have hw := displays_warnAt s _ _ hwarn
      exact ⟨hw.gains, fun hs => absurd (hs.symm.trans hterm) Bool.false_ne_true⟩
    next =>
      obtain ⟨r, t, hst, hr⟩ := returns_bind.1 hr
      cases r with
      | none =>
        obtain ⟨_, _, -, hr⟩ := returns_bind.1 hr
        split at hr
        · exact absurd hr not_returns_throw
        · exact absurd hr not_returns_lowerStatements
      | some next =>
        cases hp.statement (returns_attempt_some.1 hst) with
        | deferred hk hlt => exact (ih hr).deferring hk hlt
        | done hshown => exact (ih hr).after hshown

include hp in
theorem displays_lowerStatements {statements : List Node} :
    Displays env False (lowerStatements parts scope false statements) := by
  intro s last s' hr
  have h : StatementsEnd statements scope scope last s s' := statementsEnd_lowerStatements hp hr
  exact ⟨h.gains, fun hs => (h.acted hs).imp id fun h => ⟨id, h.1⟩⟩

/-! ### Blocks -/

theorem displays_isTerminated : Displays env False isTerminated := by
  refine displays_of_eq fun s a s' hr => ?_
  rw [isTerminated, returns_get_bind] at hr
  exact (returns_pure.1 (returns_stopAt_bind hr).2).2

theorem displays_blockValue : Displays env False (do
    let terminated ← isTerminated
    let stream := (← get).stream
    match if terminated then stream.last? else none with
    | some stop => return stop
    | none =>
      let void ← emitVoid scope node.location
      deliver void loc scope node.location) := by
  refine displays_then displays_isTerminated fun _ => displays_get_bind fun s => ?_
  dsimp only
  split
  · exact displays_pure
  · exact displays_then displays_emitVoid fun _ => displays_deliver

theorem lt_of_openScope {kind : ScopeKind}
    (hr : Returns (openScope scope kind) env s block s') :
    block.index < s'.scopes.scopes.size := by
  obtain ⟨f, -, ho⟩ | ⟨hlt, ho⟩ := outcome_openScope_cases (s := s) scope kind <;>
    rw [Returns, ho] at hr
  · cases hr
  · cases hr
    simp

include hp in
theorem displays_lowerPlainBlock {statements : List Node} :
    Displays env (AnyActs statements) (lowerPlainBlock parts node statements scope loc) := by
  intro s v s' hr
  obtain ⟨block, s₁, hopen, hr⟩ := returns_bind.1 hr
  obtain ⟨last, s₂, hst, hr⟩ := returns_bind.1 hr
  have hin := lt_of_openScope hopen
  have hend : StatementsEnd statements block block last s₁ s₂ :=
    statementsEnd_lowerStatements hp hst
  replace hr := returns_isTerminated_bind hr
  -- What the block owes is run only where control gets to its end.
  have hexit : Shows (s₂.GoesOn ∧ ∃ expr, Owes s₂ block last expr ∧ expr.Acts) s₂ s' := by
    cases hterm : s₂.stream.isTerminated with
    | true =>
      rw [hterm] at hr
      refine (displays_blockValue s₂ v s' hr).imp fun h => ?_
      exact Bool.false_ne_true (h.1.symm.trans hterm)
    | false =>
      rw [hterm] at hr
      obtain ⟨_, s₃, hdefers, hr⟩ := returns_bind.1 hr
      refine ((shows_runDefers hp hdefers).trans (displays_blockValue s₃ v s' hr)).imp ?_
      exact fun h => .inl h.2
  refine ((displays_openScope s block s₁ hopen).trans (?_ : Shows (AnyActs statements) s₁ s')).imp
    .inr
  refine ⟨hend.gains.trans hexit.gains, fun hs₁ => ?_⟩
  obtain ha | ⟨hs₂, hrest⟩ := hend.acted hs₁
  · exact .inl (ha.gains hend.gains hexit.gains)
  · obtain ⟨-, -, hacts⟩ := hrest hin hin
    refine (hexit.acted hs₂).imp (hend.gains.acted hexit.gains) fun ⟨hno, hs'⟩ => ⟨fun h => ?_, hs'⟩
    exact hno ⟨hs₂, hacts h⟩

theorem displays_openSink : Displays env False (openSink scope loc) :=
  displays_of_stream ((gaining env).comparison.rel_step (innerStep_openSink _ _))
    fun _ _ _ hr => by rw [returns_modify.1 hr]

theorem displays_flowInto : Displays env False (flowInto scope value) :=
  displays_of_stream ((gaining env).comparison.rel_step (innerStep_flowInto _ _))
    fun _ _ _ hr => by rw [returns_modify.1 hr]

include hp in
/-- A block with a label is left through a branch. -/
theorem displays_lowerLabelledBlock {label : String} {statements : List Node} :
    Displays env True (lowerLabelledBlock parts node label statements scope loc) := by
  refine displays_then displays_settle fun loc => displays_then displays_newBlock fun stop => ?_
  refine displays_then displays_openScope fun block => displays_then displays_openSink fun _ => ?_
  refine displays_then (displays_lowerStatements hp) fun last => ?_
  have join : (gaining env).comparison.Same (do joinAt stop (← closeSink block) scope node) :=
    (gaining env).comparison.rel_bind
      ((gaining env).comparison.rel_step (innerStep_closeSink _)) fun _ => same_joinAt _ _ _ _
  refine displays_unlessTerminated join <| displays_then (displays_runDefers hp) fun _ => ?_
  refine displays_unlessTerminated join <| displays_then displays_emitVoid fun _ => ?_
  refine displays_then displays_flowInto fun _ => ?_
  exact displays_acted (displays_emitActing rfl) fun _ => join

/-! ### Branches -/

theorem displays_emitTest {payload : Option String} :
    Displays env False (emitTest node payload value scope) := by
  cases payload with
  | some _ => exact displays_emitGen
  | none => exact displays_pure

include hp in
theorem displays_lowerIf {condition thenBranch : Node} {payload : Option String}
    {elseBranch : Option Node} : Displays env True
      (lowerIf parts node condition payload thenBranch elseBranch scope loc) := by
  refine displays_then displays_settle fun loc => displays_then hp.expr.none fun cond => ?_
  refine displays_then displays_newBlock fun _ => displays_then displays_newBlock fun _ => ?_
  refine displays_then displays_newBlock fun stop => displays_then displays_emitTest fun _ => ?_
  let C := (gaining env).comparison
  have hsame : C.RelParts parts parts := hp.same
  refine displays_acted (displays_emitActing rfl) fun _ => rel_unit_bind (same_goto _) ?_
  refine C.rel_bind (same_enterBranch _ _ trivial _ _) fun _ => ?_
  refine C.rel_bind (hsame.expr _ _ _) fun _ => C.rel_bind (same_branchInto _ _ _ _ _) fun _ => ?_
  refine rel_unit_bind (same_goto _) <| C.rel_bind (rel_lowerElse _ _ _ hsame _) fun _ => ?_
  exact C.rel_bind (same_branchInto _ _ _ _ _) fun _ => same_joinAt _ _ _ _

include hp in
theorem displays_lowerCatch {lhs rhs : Node} {payload : Option String} :
    Displays env True (lowerCatch parts node lhs payload rhs scope loc) := by
  refine displays_then displays_settle fun loc => displays_then hp.expr.none fun value => ?_
  refine displays_then displays_emit fun _ => displays_then displays_newBlock fun _ => ?_
  refine displays_then displays_newBlock fun okBlock =>
    displays_then displays_newBlock fun stop => ?_
  let C := (gaining env).comparison
  have hsame : C.RelParts parts parts := hp.same
  refine displays_acted (displays_emitActing rfl) fun _ => rel_unit_bind (same_goto _) ?_
  refine C.rel_bind (same_openScope _ _) fun handler => ?_
  have handled := fun handler => C.rel_bind (hsame.expr rhs handler loc)
    (same_unwrapInto scope node loc (.unwrapErrPayload value false) rfl okBlock stop)
  cases payload with
  | some name =>
    exact C.rel_bind (same_emitGen rfl) fun _ =>
      C.rel_bind (same_bindPayload _ _ trivial _ _) handled
  | none => exact C.rel_bind (C.rel_pure _) handled

include hp in
theorem displays_lowerOrElse {lhs rhs : Node} :
    Displays env True (lowerOrElse parts node lhs rhs scope loc) := by
  refine displays_then displays_settle fun loc => displays_then hp.expr.none fun value => ?_
  refine displays_then displays_emit fun _ => displays_then displays_newBlock fun _ => ?_
  refine displays_then displays_newBlock fun _ => displays_then displays_newBlock fun stop => ?_
  let C := (gaining env).comparison
  have hsame : C.RelParts parts parts := hp.same
  refine displays_acted (displays_emitActing rfl) fun _ => rel_unit_bind (same_goto _) ?_
  exact C.rel_bind (hsame.expr _ _ _) (same_unwrapInto _ _ _ _ rfl _ _)

include hp in
theorem displays_lowerShortCircuit {op : BinaryOperator} {lhs rhs : Node} :
    Displays env True (lowerShortCircuit parts node op lhs rhs scope loc) := by
  refine displays_then hp.expr.none fun left => displays_then displays_newBlock fun rhsBlock => ?_
  refine displays_then displays_newBlock fun stop => ?_
  refine displays_then (displays_get_bind fun _ => displays_pure) fun source => ?_
  let C := (gaining env).comparison
  have hsame : C.RelParts parts parts := hp.same
  have right : C.Same (do
      goto rhsBlock
      let right ← parts.value rhs scope
      let incoming ← branchInto stop [(source, left)] right scope false
      let value ← joinAt stop incoming scope node
      deliver value loc scope node.location) :=
    rel_unit_bind (same_goto _) <| C.rel_bind (hsame.value _ _) fun _ =>
      C.rel_bind (same_branchInto _ _ _ _ _) fun _ => C.rel_bind (same_joinAt _ _ _ _) fun _ =>
        same_deliver _ _ _ _
  dsimp only
  split <;> exact displays_acted (displays_emitActing rfl) fun _ => right

include hp in
theorem displays_lowerBinary {op : BinaryOperator} {lhs rhs : Node} :
    Displays env (op.isLogical = true ∨ lhs.Acts ∨ rhs.Acts)
      (lowerBinary parts node op lhs rhs scope loc) := by
  have logical : ∀ {p x}, Displays env True x → Displays env p (x : LowerM InstId) :=
    fun h => h.imp fun _ => trivial
  cases op
  case boolAnd | boolOr => exact logical (displays_lowerShortCircuit hp)
  case orElse => exact logical (displays_lowerOrElse hp)
  all_goals
    refine Displays.imp (p := lhs.Acts ∨ rhs.Acts) ?_ fun h => h.resolve_left nofun
    exact displays_bind hp.expr fun _ => displays_before hp.expr fun _ => displays_emitTo.none

/-! ### Loops -/

theorem displays_newLoop {word : String} : Displays env False (newLoop word) :=
  displays_then displays_newBlock fun _ => displays_then displays_newBlock fun _ =>
    displays_then displays_newBlock fun _ => displays_then displays_newBlock fun _ =>
      displays_then displays_newBlock fun _ => displays_pure

include hp in
theorem displays_lowerWhile {label payload : Option String} {condition body : Node}
    {continueExpr elseBranch : Option Node} {isInline : Bool} : Displays env True
      (lowerWhile parts node label condition payload continueExpr body elseBranch isInline scope
        loc) := by
  refine displays_then displays_settle fun loc => displays_then displays_newLoop fun blocks => ?_
  let C := (gaining env).comparison
  have hsame : C.RelParts parts parts := hp.same
  refine displays_acted (displays_emitActing rfl) fun _ => rel_unit_bind (same_goto _) ?_
  refine C.rel_bind (hsame.value _ _) fun _ => ?_
  refine C.rel_bind (same_emitTest _ _ _ _) fun _ => rel_unit_bind (same_emitWith rfl) ?_
  refine rel_unit_bind (same_goto _) <| C.rel_bind (same_enterLoop _ _ _ _) fun loopScope => ?_
  refine C.rel_bind (same_enterBranch _ _ trivial _ _) fun bodyScope => ?_
  refine rel_unit_bind (hsame.expr _ _ _) <| rel_unit_bind (same_jumpUnlessTerminated _ _ _ _) ?_
  refine rel_unit_bind (same_goto _) ?_
  have finish : C.Same (do
      jumpUnlessTerminated blocks.test node scope isInline
      finishLoop parts node loopScope elseBranch blocks scope loc isInline) :=
    rel_unit_bind (same_jumpUnlessTerminated _ _ _ _) (rel_finishLoop _ _ _ hsame _ _ _ _)
  cases continueExpr with
  | some expr => exact rel_unit_bind (hsame.expr _ _ _) finish
  | none => exact finish

include hp in
theorem displays_lowerFor {label index : Option String} {iterable body : Node} {item : String}
    {elseBranch : Option Node} {isInline : Bool} : Displays env True
      (lowerFor parts node label iterable item index body elseBranch isInline scope loc) := by
  refine displays_then displays_settle fun loc => displays_then hp.expr.none fun array => ?_
  refine displays_then displays_emitGen fun _ => displays_then displays_emitGen fun _ => ?_
  refine displays_then displays_emitWith.none fun _ => displays_then displays_emitGen fun _ => ?_
  let C := (gaining env).comparison
  have hsame : C.RelParts parts parts := hp.same
  refine displays_acted (displays_emitActing rfl) fun _ => ?_
  refine C.rel_bind (same_newLoop _) fun blocks => ?_
  refine rel_unit_bind (same_emitWith rfl) <| rel_unit_bind (same_goto _) ?_
  refine C.rel_bind (same_emitGen rfl) fun _ => C.rel_bind (same_emitGen rfl) fun _ => ?_
  refine rel_unit_bind (same_emitWith rfl) <| rel_unit_bind (same_goto _) ?_
  refine C.rel_bind (same_enterLoop _ _ _ _) fun loopScope => ?_
  refine C.rel_bind (same_emitGen rfl) fun _ => C.rel_bind (same_emitGen rfl) fun _ => ?_
  refine C.rel_bind (same_bindPayload _ _ trivial _ _) fun bodyScope => ?_
  refine C.rel_bind (C.rel_declare _ _ trivial) fun _ => rel_unit_bind (same_emitGen rfl) ?_
  refine rel_unit_bind (hsame.expr _ _ _) <| rel_unit_bind (same_jumpUnlessTerminated _ _ _ _) ?_
  refine rel_unit_bind (same_goto _) <| rel_unit_bind (same_stepIndex _ _ _) ?_
  exact rel_unit_bind (same_emitWith rfl) (rel_finishLoop _ _ _ hsame _ _ _ _)

/-! ### Jumps -/

theorem displays_leavesStream {target : Option ScopeId} :
    Displays env False (leavesStream scope target) :=
  displays_then displays_scopesFrom fun _ => displays_get_bind fun _ => displays_pure

theorem displays_breakScope {label : Option String} :
    Displays env False (breakScope node label scope) := by
  refine displays_then displays_scopesFrom fun scopes => ?_
  split
  · exact displays_pure
  all_goals exact displays_failAt

theorem displays_continueScope {label : Option String} :
    Displays env False (continueScope node label scope) := by
  refine displays_then displays_scopesFrom fun scopes => ?_
  split
  · exact displays_pure
  all_goals exact displays_failAt

theorem displays_checkFnExit {exit : FnExit} :
    Displays env False (checkFnExit node scope exit) := by
  refine displays_then displays_scopesFrom fun scopes => displays_ite displays_failAt ?_
  refine displays_ite displays_failAt <| displays_then displays_leavesStream fun _ => ?_
  exact displays_ite displays_failAt displays_pure

include hp in
theorem displays_lowerBreak {label : Option String} {value : Option Node} :
    Displays env True (lowerBreak parts node label value scope) := by
  refine displays_then displays_breakScope fun target => ?_
  refine displays_then displays_leavesStream fun _ => displays_ite displays_failAt ?_
  refine displays_then displays_scopeAt fun x => ?_
  split
  · exact displays_failAt
  next stop _ =>
    refine displays_then (displays_get_bind fun _ => displays_pure) fun sink => ?_
    have jump : ∀ v, Displays env True (do
        runDefers parts scope (some target) .normal
        if ← isTerminated then lastInst
        else
          flowInto target v
          emit (.br stop) scope node.location) := fun v =>
      displays_then (displays_runDefers hp) fun _ => displays_unlessTerminated same_lastInst <|
        displays_then displays_flowInto fun _ => displays_emitActing rfl
    cases value with
    | some value => exact displays_then hp.expr.none jump
    | none => exact displays_then displays_emitVoid jump

include hp in
theorem displays_lowerContinue {label : Option String} :
    Displays env True (lowerContinue parts node label scope) := by
  refine displays_then displays_continueScope fun target => ?_
  refine displays_then displays_leavesStream fun _ => displays_ite displays_failAt ?_
  refine displays_then displays_scopeAt fun x => ?_
  split
  · exact displays_failAt
  · exact displays_then (displays_runDefers hp) fun _ =>
      displays_unlessTerminated same_lastInst (displays_emitActing rfl)

include hp in
theorem displays_emitErrReturn : Displays env True (emitErrReturn parts node value scope) := by
  refine displays_then displays_emitGen fun _ => displays_then displays_newBlock fun _ => ?_
  refine displays_then displays_newBlock fun _ =>
    displays_acted (displays_emitActing rfl) fun _ => ?_
  refine rel_unit_bind (same_goto _) <| rel_unit_bind (rel_runDefers _ hp.same _ _) ?_
  exact same_returnUnlessTerminated _ _ (same_goto _) rfl

include hp in
theorem displays_lowerReturn {value : Option Node} :
    Displays env True (lowerReturn parts node value scope) := by
  refine displays_then displays_checkFnExit fun _ => ?_
  have leave : ∀ operand : Option InstId, Displays env True (do
      match if passesErrDefer (← scopesFrom scope) scope then operand else none with
      | some value => emitErrReturn parts node value scope
      | none => pure ⟨⟩
      runDefers parts scope none .normal
      if ← isTerminated then lastInst else emit (.ret operand) scope node.location) := by
    intro operand
    have run : Displays env True (do
        runDefers parts scope none .normal
        if ← isTerminated then lastInst else emit (.ret operand) scope node.location) :=
      displays_then (displays_runDefers hp) fun _ =>
        displays_unlessTerminated same_lastInst (displays_emitActing rfl)
    refine displays_then displays_scopesFrom fun scopes => ?_
    split
    · exact displays_then (displays_emitErrReturn hp).none fun _ => run
    · exact run
  cases value with
  | some value => exact displays_then (displays_map hp.expr.none) leave
  | none => exact displays_then displays_pure leave

include hp in
theorem displays_lowerTry {expr : Node} :
    Displays env True (lowerTry parts node expr scope loc) := by
  refine displays_then displays_checkFnExit fun _ => displays_then hp.expr.none fun value => ?_
  refine displays_then displays_emit fun _ => displays_then displays_newBlock fun _ => ?_
  refine displays_then displays_newBlock fun _ =>
    displays_acted (displays_emitActing rfl) fun _ => ?_
  refine rel_unit_bind (same_goto _) <|
    (gaining env).comparison.rel_bind (same_emitGen rfl) fun code => ?_
  refine rel_unit_bind (rel_runDefers _ hp.same _ _) ?_
  exact same_returnUnlessTerminated _ _ (rel_unit_bind (same_goto _) (same_emitTo _ _ _ rfl)) rfl

/-! ### Compile-time blocks and suspension -/

include hp in
/-- A compile-time block with a stream of its own is an effect, and it shows the effects of its
expression where that is lowered in place. -/
theorem displays_lowerComptime {expr : Node} :
    Displays env expr.Acts (lowerComptime parts node expr scope loc) := by
  intro s v s' hr
  have hend := comptimeEnd_lowerComptime parts node expr scope loc env s
  rw [Returns] at hr
  generalize outcome (lowerComptime parts node expr scope loc) env s = o at hend hr
  cases hend with
  | fault | failed => cases hr
  | inPlace hs =>
    have hopen : Small s (s.opening scope .comptime) := .of_scopes (.opened .comptime hs)
    exact ((Shows.of_stream hopen.gains rfl).trans (hp.expr _ v s' hr)).imp .inr
  | @evaluated t _ hs _ hx =>
    have hbody : (gaining env).Holds (s.inBlock node scope) (framedBody parts node expr s.top) :=
      Upkeep.holds_framedBody hp.same
    rw [Upkeep.Holds, hx] at hbody
    have hin := Gains.around hs hbody
    let around := (s.opening scope .comptime).around t
    have hout : Gains around (around.withNext (.comptimeBlock s.stream.children.length) scope
        node.location false false) := (small_withNext ..).gains
    have hacted : Acted around (around.withNext (.comptimeBlock s.stream.children.length) scope
        node.location false false) := by
      simp [Acted, State.withNext, Stream.withNext, InstKind.hasSideEffects]
    have hdeliver := displays_deliver _ v s' hr
    refine ⟨(hin.trans hout).trans hdeliver.gains, fun _ => .inl ?_⟩
    exact (hin.acted hout hacted).gains (hin.trans hout) hdeliver.gains

include hp in
theorem displays_lowerSuspend {body : Option Node} :
    Displays env True (lowerSuspend parts node body scope) := by
  refine displays_then displays_checkSuspend fun _ => displays_acted (displays_emitActing rfl) ?_
  intro start
  cases body with
  | some body =>
    exact (gaining env).comparison.rel_bind (same_openScope _ _) fun _ =>
      rel_unit_bind (hp.same.expr _ _ _) (same_emit rfl)
  | none => exact same_emit rfl

/-! ### Statements and expressions -/

theorem displays_hasEffectSince {start : Nat} : Displays env False (hasEffectSince start) := by
  refine displays_of_eq fun s a s' hr => ?_
  rw [hasEffectSince, returns_get_bind] at hr
  exact (returns_pure.1 (returns_stopAt_bind hr).2).2

theorem displays_checkStatement {start : Nat} : Displays env False (do
    if !(← isTerminated) then
      let effectful ← hasEffectSince start
      if (← read).options.warnNoEffect && !effectful then
        warnAt .noEffect "statement has no effect" node
      let _ ← emitGen (.checkStatementIsVoid value) scope node.location) := by
  refine displays_then displays_isTerminated fun terminated => displays_ite ?_ displays_pure
  refine displays_then displays_hasEffectSince fun effectful => displays_read_bind ?_
  have check : Displays env False (do
      let _ ← emitGen (.checkStatementIsVoid value) scope node.location) :=
    displays_then displays_emitGen fun _ => displays_pure
  exact displays_ite (displays_then displays_warnAt fun _ => check) check

include hp in
theorem statementEnd_lowerStatement {next : ScopeId}
    (hr : Returns (lowerStatement parts node scope) env s next s') :
    StatementEnd node scope s next s' := by
  have done : ∀ {β : Type} {p : Prop} {x : LowerM β}, (node.Acts → p) → Displays env p x →
      Returns (do let _ ← x; return scope) env s next s' → StatementEnd node scope s next s' := by
    intro β p x himp hx hr
    obtain ⟨u, t, h, hr⟩ := returns_bind.1 hr
    obtain ⟨rfl, rfl⟩ := returns_pure.1 hr
    exact .done ((hx s u _ h).imp himp)
  have acting : ∀ {β : Type} {x : LowerM β}, Displays env True x →
      Returns (do let _ ← x; return scope) env s next s' → StatementEnd node scope s next s' :=
    done fun _ => trivial
  rw [lowerStatement] at hr
  split at hr
  next => exact acting (displays_lowerLocalVar hp) hr
  next kind expr hk =>
    obtain ⟨after, t, hopen, hr⟩ := returns_bind.1 hr
    obtain ⟨_, u, hremember, hr⟩ := returns_bind.1 hr
    obtain rfl := returns_modify.1 hremember
    obtain ⟨rfl, rfl⟩ := returns_pure.1 hr
    obtain ⟨f, -, ho⟩ | ⟨hlt, ho⟩ := outcome_openScope_cases (s := s) scope (.deferred kind) <;>
      rw [Returns, ho] at hopen
    · cases hopen
    · cases hopen
      exact .deferred hk hlt
  next target value hk =>
    refine done (fun h => ?_) (displays_lowerAssign hp) hr
    have hany := anyActs_of_acts h (by rw [hk]; rfl)
    rw [hk] at hany
    exact anyActs_two.1 hany
  next => exact acting (displays_lowerAssignOp hp) hr
  next =>
    split at hr
    · exact done id (displays_get_bind fun _ => displays_before hp.expr fun _ =>
        displays_checkStatement) hr
    · exact done id hp.expr hr

theorem evaluated_block (label : Option String) (statements : List Node) :
    (Kind.block label statements).evaluated = statements := by
  cases label <;>
    simp [Kind.evaluated, Kind.branches, Kind.trees, Kind.values, FieldValue.trees,
      FieldValue.ofOption]

include hp in
/-- Every expression. -/
theorem displays_lowerExpr : Displays env node.Acts (lowerExpr parts node scope loc) := by
  have hload : Displays env node.Acts (lowerLoad parts node scope loc) := displays_lowerLoad hp
  have hacts : node.Acts → node.kind.acts = true ∨ AnyActs node.kind.evaluated :=
    Node.acts_iff.1
  have acting : ∀ {x : LowerM InstId}, Displays env True x → Displays env node.Acts x :=
    fun hx => hx.imp fun _ => trivial
  rw [lowerExpr]
  generalize node.kind = kind at hacts ⊢
  cases kind
  case varDecl | deferred | root | fnDecl | param | testDecl | containerField =>
    exact displays_failAt
  case intLiteral | floatLiteral | stringLiteral | boolLiteral | nullLiteral | undefinedLiteral |
      errorValue =>
    exact displays_emitTo.imp fun h => (hacts h).resolve_right anyActs_nil
  case symbol =>
    refine (displays_then displays_lowerSymbol fun _ => displays_deliver).imp fun h => ?_
    exact (hacts h).elim Bool.false_ne_true anyActs_nil
  case fieldAccess | arrayAccess => exact hload
  case unaryOp op operand =>
    refine (displays_lowerUnary hp).imp fun h => (hacts h).imp (fun h => ?_) anyActs_one.1
    simpa [Kind.acts] using h
  case binaryOp op lhs rhs =>
    cases hop : op.isLogical with
    | true => exact (displays_lowerBinary hp).imp fun _ => .inl hop
    | false =>
      refine (displays_lowerBinary hp).imp fun h => (hacts h).imp id fun h => ?_
      simpa [Kind.evaluated, Kind.branches, Kind.used, hop, anyActs_two] using h
  case call => exact acting (displays_lowerCall hp)
  case builtinCall => exact (displays_lowerBuiltinCall hp).imp hacts
  case containerDecl =>
    exact (displays_lowerContainer hp).imp fun h => (hacts h).resolve_left Bool.false_ne_true
  case errorSetDecl =>
    exact displays_lowerErrorSet.imp fun h => (hacts h).elim Bool.false_ne_true anyActs_nil
  case structInit =>
    exact (displays_lowerStructInit hp).imp fun h => (hacts h).resolve_left Bool.false_ne_true
  case arrayInit =>
    exact (displays_lowerArrayInit hp).imp fun h => (hacts h).resolve_left Bool.false_ne_true
  case block label statements =>
    cases label with
    | none =>
      refine (displays_lowerPlainBlock hp).imp fun h => ?_
      have hany := (hacts h).resolve_left Bool.false_ne_true
      rwa [evaluated_block] at hany
    | some label => exact acting (displays_lowerLabelledBlock hp)
  case assign target value =>
    refine (displays_before (displays_lowerAssign hp) fun _ => displays_emitVoid).imp fun h => ?_
    exact anyActs_two.1 ((hacts h).resolve_left Bool.false_ne_true)
  case assignOp =>
    exact acting (displays_before (displays_lowerAssignOp hp) fun _ => displays_emitVoid)
  case ifThen => exact acting (displays_lowerIf hp)
  case whileLoop => exact acting (displays_lowerWhile hp)
  case forLoop => exact acting (displays_lowerFor hp)
  case breakTo => exact acting (displays_lowerBreak hp)
  case continueTo => exact acting (displays_lowerContinue hp)
  case returnFrom => exact acting (displays_lowerReturn hp)
  case tryExpr => exact acting (displays_lowerTry hp)
  case catchExpr => exact acting (displays_lowerCatch hp)
  case comptime expr =>
    refine (displays_lowerComptime hp).imp fun h => ?_
    exact anyActs_one.1 ((hacts h).resolve_left Bool.false_ne_true)
  case suspend => exact acting (displays_lowerSuspend hp)
  case unreachable => exact acting (displays_emitActing rfl)
  case asm => exact displays_lowerAsm.imp fun h => (hacts h).resolve_right anyActs_nil

/-- The routines for parts at every level of nesting. -/
theorem displayParts_nested (levels : Nat) : DisplayParts env (nested levels) := by
  induction levels with
  | zero =>
    refine ⟨(gaining env).relParts_nested 0, displays_of_not_returns ?_, fun hr => ?_⟩
    · exact fun _ _ _ hr => not_returns_fail (returns_read_bind.1 hr)
    · exact absurd (returns_read_bind.1 hr) not_returns_fail
  | succ levels ih =>
    exact ⟨(gaining env).relParts_nested _, displays_lowerExpr ih, statementEnd_lowerStatement ih⟩

end SourceIr.Lower
