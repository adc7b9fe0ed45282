import SourceIr.Proofs.Nesting.Pending
import SourceIr.Proofs.Pass.Basic

/-!
# Getting past blocks and branches

Where control gets past the source of a construct, it gets past what the construct is lowered to, if
that holds of the parts.

* `DefersPass`, the scopes from which a block may be left at its end;
* `PassParts`, what is relied on for parts;
* statements and blocks, branches and loops;
* `passParts_nested`, the routines for parts at every level of nesting.
-/

namespace SourceIr.Lower

open SourceIr.Stream Logic Site

variable {env : Env} {s s' : State} {w w₀ b : Site} {parts : Parts} {node : Node}
  {scope block next : ScopeId} {location : Option Location} {loc : ResultLoc} {α β : Type}
  {v : InstId} {Q : Site → α → Prop}

/-! ### What is deferred in a block -/

/-- Control gets past what is deferred between a scope and the end of a block around it. -/
def DefersPass (s : State) (block scope : ScopeId) : Prop :=
  ∀ d ∈ s.scopes.defersUntil scope (some block), d.2 = .normal →
    ∀ expr, s.deferred.lookup d.1 = some expr → expr.Passes

/-- At the start of a block nothing is deferred in it. -/
theorem defersPass_self (ht : s.scopes.WellFormed) (hb : block.index < s.scopes.scopes.size) :
    DefersPass s block block := by
  rw [DefersPass, ScopeTree.defersUntil_self ht hb]
  nofun

/-- What is deferred on the way out of a scope is deferred in scopes that are there. -/
theorem index_lt_of_mem_defersUntil (ht : s.scopes.WellFormed)
    (hs : scope.index < s.scopes.scopes.size) {target : Option ScopeId}
    {d : ScopeId × DeferKind} (hd : d ∈ s.scopes.defersUntil scope target) :
    d.1.index < s.scopes.scopes.size := by
  obtain ⟨x, hx, hxd⟩ := ScopeTree.mem_of_mem_defersIn hd
  rw [← hxd]
  exact Nat.lt_of_le_of_lt (ht.index_le_of_mem hx) hs

namespace DefersPass

theorem remembers (h : DefersPass s block scope) (ht : s.scopes.WellFormed)
    (hs : scope.index < s.scopes.scopes.size) (r : Remembers s s') : DefersPass s' block scope := by
  intro d hd hk expr he
  rw [r.scopes.defersUntil_eq hs] at hd
  rw [r.deferred d.1 (index_lt_of_mem_defersUntil ht hs hd)] at he
  exact h d hd hk expr he

/-- One more expression is deferred. -/
theorem deferring (h : DefersPass s block scope) (ht : s.scopes.WellFormed)
    (hs : scope.index < s.scopes.scopes.size) (hb : block.index < s.scopes.scopes.size)
    {kind : DeferKind} {expr : Node} (he : kind = .normal → expr.Passes) :
    DefersPass (s.deferring scope kind expr) block ⟨s.scopes.scopes.size⟩ := by
  intro d hd hk e hlookup
  have hne : some ⟨s.scopes.scopes.size⟩ ≠ some block := by
    rintro ⟨⟩
    exact Nat.lt_irrefl _ hb
  rw [State.deferring, ScopeTree.defersUntil_openUnder hs hne] at hd
  rcases List.mem_cons.1 hd with rfl | hd
  · rw [State.deferring, List.lookup_cons_self] at hlookup
    cases hlookup
    exact he hk
  · have hlt := index_lt_of_mem_defersUntil ht hs hd
    rw [lookup_deferring (by rintro h; exact Nat.lt_irrefl _ (h ▸ hlt))] at hlookup
    exact h d hd hk e hlookup

end DefersPass

/-- A statement leaves every block that it is in one whose end control gets past, if it gets past
what the statement defers. -/
def KeepsDefers (node : Node) (s : State) (scope : ScopeId) (s' : State) (inner : ScopeId) : Prop :=
  (∀ expr, node.kind = .deferred .normal expr → expr.Passes) →
    ∀ block : ScopeId, block.index < s.scopes.scopes.size → DefersPass s block scope →
      DefersPass s' block inner

/-! ### Parts -/

/-- What is relied on for the parts of a construct. -/
structure PassParts (env : Env) (parts : Parts) : Prop extends LayParts env parts where
  /-- Scopes keep what was deferred in them. -/
  remembers : (remembering.comparison env).RelParts parts parts
  exprOn : ∀ {w node scope loc}, node.Passes → w.In w.current scope → w.Loc w.current loc →
    LaysOn env w (parts.expr node scope loc) fun w' v => w.Le w' ∧ w'.Avail w'.current v
  statementOn : ∀ {w node scope}, node.Passes → w.In w.current scope →
    LaysOn env w (parts.statement node scope) fun w' inner =>
      (w.LeFrom scope.index w' ∧ w'.In w'.current inner ∧ w'.Under scope inner) ∧
        KeepsDefers node w.state scope w'.state inner

theorem PassParts.holds (hp : PassParts env parts) (n : Nat) : (passing env n).HoldsParts parts :=
  fun _ _ _ _ hf hs hl hn => laysOn_mono (hp.exprOn hf hs hl) fun _ _ _ ⟨le, hv⟩ =>
    ⟨le.from hn, hv⟩

variable (hp : PassParts env parts)

/-- A scope without jumps of its own. -/
theorem laysOn_inner {kind : ScopeKind} (hs : w.In w.current scope) (hk : exits kind = []) :
    LaysOn env w (openScope scope kind) fun w' inner =>
      w.Le w' ∧ w'.In w'.current inner ∧ w'.Under scope inner ∧ w.Opens w' scope kind inner :=
  laysOn_of_stream (lays_inner hs hk) fun _ _ hr => by
    rw [Returns, outcome_openScope hs.index] at hr
    rw [← (Prod.mk.inj hr).2]

/-! ### Deferred expressions -/

include hp in
theorem laysOn_runDefer {expr : Node} {d : ScopeId × DeferKind} (he : expr.Passes)
    (hs : w.In w.current scope) (hd : w.Reach scope d) :
    LaysOn env w (runDefer parts d.1 expr) fun w' _ => w.Le w' := by
  refine fun hgo => lays_runDefer_of hs hd fun outer hin => ?_
  refine laysOn_bind (laysOn_inner hin rfl) (fun w₁ body _ ⟨le₁, hb, _⟩ => ?_) hgo
  refine laysOn_bind (hp.exprOn he hb nofun) fun w₂ _ _ ⟨le₂, _⟩ => ?_
  exact laysOn_pure (le₁.trans le₂)

/-- What a routine for a part leaves behind, scopes remember. -/
theorem remembers_of_rel {x : LowerM α} (h : (remembering.comparison env).Same x) {a : α}
    (hr : Returns x env s a s') : Remembers s s' := by
  have := h s
  rwa [Drift.Holds, hr] at this

include hp in
theorem laysOn_runDefersIn {defers : List (ScopeId × DeferKind)} (hs : w.In w.current scope)
    (hd : ∀ d ∈ defers, w.Reach scope d ∧ d.1.index < w.state.scopes.scopes.size)
    (hpass : ∀ d ∈ defers, d.2 = .normal → ∀ expr, w.state.deferred.lookup d.1 = some expr →
      expr.Passes) :
    LaysOn env w (runDefersIn parts .normal defers) fun w' _ => w.Le w' := by
  induction defers generalizing w with
  | nil => exact laysOn_pure (.refl w)
  | cons d rest ih =>
    obtain ⟨id, kind⟩ := d
    have hrest : ∀ d ∈ rest, w.Reach scope d ∧ d.1.index < w.state.scopes.scopes.size := fun d h =>
      hd d (List.mem_cons_of_mem _ h)
    rw [runDefersIn]
    refine fun hgo => lays_get_bind ?_
    dsimp only
    split
    · exact ih hs hrest (fun d h => hpass d (List.mem_cons_of_mem _ h)) hgo
    next expr he =>
      have he : kind = .normal ∧ w.state.deferred.lookup id = some expr := by
        cases kind with
        | normal => exact ⟨rfl, he⟩
        | error => cases he
      have hexpr := hpass _ List.mem_cons_self he.1 expr he.2
      have hrel : (remembering.comparison env).Same (runDefer parts id expr) :=
        Comparison.rel_runDefer id hp.remembers expr
      have hrun := laysOn_runDefer hp hexpr hs (hd _ List.mem_cons_self).1 hgo
      refine lays_bind (lays_and (P := fun s' _ => Remembers w.state s') hrun
        fun _ _ _ hr => remembers_of_rel hrel hr) fun w₁ _ e h => ?_
      obtain ⟨⟨le₁, hgo₁⟩, r⟩ := h
      refine lays_isTerminated_bind ?_
      rw [hgo₁]
      have hrest₁ : ∀ d ∈ rest, w₁.Reach scope d ∧ d.1.index < w₁.state.scopes.scopes.size :=
        fun d h => ⟨(hrest d h).1.ext hs e,
          Nat.lt_of_lt_of_le (hrest d h).2 e.scopes.size_le⟩
      have hpass₁ : ∀ d ∈ rest, d.2 = .normal → ∀ expr,
          w₁.state.deferred.lookup d.1 = some expr → expr.Passes := fun d h => by
        rw [r.deferred d.1 (hrest d h).2]
        exact hpass d (List.mem_cons_of_mem _ h)
      exact lays_mono (ih (hs.to le₁.toBelow) hrest₁ hpass₁ hgo₁)
        fun _ _ _ h => ⟨le₁.trans h.1, h.2⟩

include hp in
/-- The deferred expressions at the end of a block. -/
theorem laysOn_runDefers (hs : w.In w.current scope)
    (h : w.state.scopes.leaves w.state.streamRoot scope (some block) = false)
    (hd : DefersPass w.state block scope) :
    LaysOn env w (runDefers parts scope (some block) .normal) fun w' _ => w.Le w' := by
  refine fun hgo => lays_of_good fun hw => lays_scopesFrom_bind ?_
  refine laysOn_runDefersIn hp hs (fun d hmem => ⟨?_, ?_⟩) hd hgo
  · obtain ⟨y, hy, hyd⟩ := ScopeTree.reaches_of_mem_defersIn h hmem
    exact ⟨_, hy.mem_inside, hyd⟩
  · exact index_lt_of_mem_defersUntil hw.scopes hs.index hmem

/-! ### Statements and blocks -/

include hp in
theorem laysOn_lowerStatements {statements : List Node} (hall : ∀ n ∈ statements, n.Passes)
    (hdef : ∀ n ∈ statements, ∀ expr, n.kind = .deferred .normal expr → expr.Passes)
    (hs : w.In w.current scope) (hb : block.index < w.state.scopes.scopes.size)
    (hd : DefersPass w.state block scope) :
    LaysOn env w (lowerStatements parts scope false statements) fun w' last =>
      (w.LeFrom scope.index w' ∧ w'.In w'.current last ∧ w'.Under scope last) ∧
        DefersPass w'.state block last := by
  induction statements generalizing w scope with
  | nil => exact laysOn_pure ⟨⟨.refl _ w, hs, .refl _ _ _⟩, hd⟩
  | cons statement rest ih =>
    intro hgo
    rw [lowerStatements]
    refine lays_isTerminated_bind ?_
    rw [hgo]
    refine lays_attempt_bind (hp.statementOn (hall _ List.mem_cons_self) hs hgo) ?_
      fun t last s' => ?_
    · rintro w₁ next - ⟨⟨⟨le₁, hn, hu⟩, hkeeps⟩, hgo⟩
      have hd := hkeeps (hdef _ List.mem_cons_self) block hb hd
      have hs₁ := hs.along le₁
      have hb₁ := Nat.lt_of_lt_of_le hb le₁.scopes.size_le
      refine lays_of_good fun hw₁ => lays_mono (ih (fun n h => hall n (List.mem_cons_of_mem _ h))
        (fun n h => hdef n (List.mem_cons_of_mem _ h)) hn hb₁ hd hgo) ?_
      rintro w₂ last e ⟨⟨⟨le₂, hl, hu'⟩, hd⟩, hgo⟩
      have hnext := (ScopeTree.Under.around hw₁.scopes hu hs₁.index).1
      exact ⟨⟨⟨le₁.trans (le₂.mono hnext), hl, (hu.ext hs₁.index hn.index e).trans hu'⟩, hd⟩, hgo⟩
    · refine not_returns_bind fun _ _ => ?_
      split
      · exact not_returns_throw
      · exact not_returns_lowerStatements

/-- The value of a block, once its scope is left. -/
theorem completes_blockValue (hgo : s.GoesOn) :
    Completes env s (do
      let terminated ← isTerminated
      let stream := (← get).stream
      match if terminated then stream.last? else none with
      | some stop => return stop
      | none =>
        let void ← emitVoid scope node.location
        deliver void loc scope node.location) := by
  exact completes_goesOn_bind hgo <| completes_get_bind <|
    completes_bind (completes_emitPlain rfl) fun _ _ => completes_deliver

include hp in
theorem laysOn_lowerPlainBlock {statements : List Node} (hall : ∀ n ∈ statements, n.Passes)
    (hdef : ∀ n ∈ statements, ∀ expr, n.kind = .deferred .normal expr → expr.Passes)
    (hs : w.In w.current scope) (hl : w.Loc w.current loc) :
    LaysOn env w (lowerPlainBlock parts node statements scope loc) fun w' v =>
      w.Le w' ∧ w'.Avail w'.current v := by
  refine laysOn_bind (laysOn_inner hs rfl) fun w₁ block _ ⟨le₁, hb, _, ho⟩ hgo => ?_
  refine lays_of_good fun hw => lays_bind (laysOn_lowerStatements hp hall hdef hb hb.index
    (defersPass_self hw.scopes hb.index) hgo) fun w₂ last _ ⟨⟨⟨le₂, hlast, hu⟩, hd⟩, hgo⟩ => ?_
  refine lays_of_good fun hw => lays_isTerminated_bind ?_
  have hleaves := ScopeTree.Under.leaves_eq_false hw.scopes hu (hb.along le₂).index
  rw [hgo]
  refine laysOn_bind (laysOn_runDefers hp hlast hleaves hd) (fun w₃ _ _ le₃ => ?_) hgo
  have le : w.Le w₃ := (le₁.trans_from le₂ (Nat.le_of_eq ho.index.symm)).trans le₃
  refine laysOn_of_completes ?_ fun _ => completes_blockValue
  refine lays_mono (lays_blockValue (hs.to le.toBelow) (hl.to le.toBelow)) ?_
  exact fun w' v _ ⟨le', hv⟩ => ⟨le.trans le', hv⟩

include hp in
/-- A compile-time block goes on where its expression is lowered in place; otherwise its stream is
an instruction like others. -/
theorem laysOn_lowerComptime {expr : Node} (he : expr.Passes) (hs : w.In w.current scope)
    (hl : w.Loc w.current loc) :
    LaysOn env w (lowerComptime parts node expr scope loc) fun w' v =>
      w.Le w' ∧ w'.Avail w'.current v := by
  refine laysOn_of_completes (lays_lowerComptime hp.toLayParts hs hl) fun hw hgo => ?_
  refine (laysOn_inner hs rfl).completes_bind hw hgo fun w₁ inner hw₁ hgo₁ _ ⟨le₁, hi, _⟩ => ?_
  have hat : LaysOn env w₁ (isComptimeAt scope) fun w' _ => w' = w₁ := fun hgo =>
    lays_scopesFrom_bind (lays_get_bind (lays_pure ⟨rfl, hgo⟩))
  refine hat.completes_bind hw₁ hgo₁ ?_
  rintro _ atComptime - - - rfl
  split
  · exact (hp.exprOn he hi (hl.to le₁.toBelow)).completes hw₁ hgo₁
  · refine completes_last fun _ _ => completes_last fun ⟨unit, result⟩ _ => ?_
    cases result with
    | none => exact fun _ _ hr => absurd hr not_returns_throw
    | some _ => exact completes_emitTo rfl

/-! ### Branches -/

/-- Control goes on in a block that nothing was appended to. -/
theorem lays_gotoOn {t : BlockId} {blocks : List (BlockId × Option BlockId)}
    (run : Run w₀ b ((t, some b.current) :: blocks) w) (ends : w.state.stream.Ends w.current) :
    Lays env w (goto t) fun w' _ => Run w₀ b blocks w' ∧ w'.state.GoesOn := by
  refine lays_and (P := fun s' _ => s'.GoesOn) (lays_goto [] run ends) fun hw _ s' hr => ?_
  obtain rfl := returns_modify.1 hr
  obtain ⟨-, -, hlt, hnil⟩ := hw.pending t ((run.pending t).2 (.inr (by simp)))
  have hempty : (w.state.stream.goto t).instsIn (w.state.stream.goto t).currentBlock = [] := hnil
  rw [State.GoesOn, ← Bool.not_eq_true, (hw.laid.coherent.goto hlt).isTerminated_iff]
  rintro ⟨x, hx, -⟩
  rw [hempty] at hx
  cases hx

/-- The passing of a part that may be got past. -/
theorem PassParts.lays_expr (hp : PassParts env parts) (hs : w.In w.current scope)
    (hl : w.Loc w.current loc) (hgo : w.state.GoesOn) :
    Lays env w (parts.expr node scope loc) fun w' v =>
      (w.Le w' ∧ w'.Avail w'.current v) ∧ (node.Passes → w'.state.GoesOn) := by
  by_cases hn : node.Passes
  · exact lays_mono (hp.exprOn hn hs hl hgo) fun _ _ _ h => ⟨h.1, fun _ => h.2⟩
  · exact lays_mono (hp.expr hs hl) fun _ _ _ h => ⟨h, fun hn' => absurd hn' hn⟩

include hp in
theorem lays_elseOn {branch : Option Node} (hs : w.In w.current scope) (hl : w.Loc w.current loc)
    (hgo : w.state.GoesOn) :
    Lays env w (lowerElse parts node branch scope loc) fun w' v =>
      (w.Le w' ∧ w'.Avail w'.current v) ∧ ((∀ e ∈ branch, e.Passes) → w'.state.GoesOn) := by
  cases branch with
  | some branch =>
    exact lays_mono (hp.lays_expr hs hl hgo) fun _ _ _ h => ⟨h.1, fun he => h.2 (he branch rfl)⟩
  | none =>
    exact lays_mono (laysOn_of_completes lays_emitVoid (fun _ _ => completes_emitPlain rfl) hgo)
      fun _ _ _ h => ⟨h.1, fun _ => h.2⟩

/-- Something arrives at the end of a construct if control gets to the end of a branch. -/
theorem lays_arrive {t : BlockId} {incoming : List (BlockId × InstId)} {force : Bool}
    (ht : w.Target w.current t) (hi : w.Arrive incoming) (hv : w.Avail w.current v) :
    Lays env w (branchInto t incoming v scope force) fun w' r =>
      (w.Le w' ∧ w'.state.stream.Ends w'.current ∧ w'.Arrive r) ∧
        (w.state.GoesOn ∨ incoming ≠ [] → r ≠ []) :=
  lays_and (P := fun _ r => w.state.GoesOn ∨ incoming ≠ [] → r ≠ []) (lays_branchInto ht hi hv)
    fun _ _ _ hr h => ne_nil_of_branchInto h hr

include hp in
/-- Control gets past an `if` if it gets past one of its branches. -/
theorem laysOn_lowerIf {condition thenBranch : Node} {payload : Option String}
    {elseBranch : Option Node} (hn : thenBranch.Passes ∨ ∀ e ∈ elseBranch, e.Passes)
    (hs : w.In w.current scope) (hl : w.Loc w.current loc) :
    LaysOn env w (lowerIf parts node condition payload thenBranch elseBranch scope loc) fun w' v =>
      w.Le w' ∧ w'.Avail w'.current v := by
  refine fun _ => lays_lowerIf_of hp.toLayParts hs hl
    fun b w₁ loc cond thenBlock elseBlock stop run hs hl hc ends => ?_
  refine lays_bind (lays_gotoOn run ends) fun w₂ _ _ ⟨run, hgo⟩ => ?_
  refine lays_bind (laysOn_of_holds (holds_enterBranch (hc.to run.below) (hs.to run.below)) hgo)
    fun w₃ thenScope _ ⟨⟨le₃, hthen⟩, hgo⟩ => ?_
  have run := run.le le₃
  refine lays_bind (hp.lays_expr hthen (hl.to run.below) hgo)
    fun w₄ value _ ⟨⟨le₄, hv⟩, hthenOn⟩ => ?_
  have run := run.le le₄
  refine lays_bind (lays_arrive (run.target (by simp)) arrive_nil hv)
    fun w₅ incoming _ ⟨⟨le₅, ends, hi⟩, hne⟩ => ?_
  refine lays_bind (lays_gotoOn (run.le le₅) ends) fun w₆ _ e₆ ⟨run, hgo⟩ => ?_
  refine lays_bind (lays_elseOn hp (hs.to run.below) (hl.to run.below) hgo)
    fun w₇ value e₇ ⟨⟨le₇, hv⟩, helseOn⟩ => ?_
  have run := run.le le₇
  refine lays_bind (lays_arrive (run.target (by simp)) (hi.ext (e₆.trans e₇)) hv)
    fun w₈ incoming _ ⟨⟨le₈, ends, hi⟩, hne'⟩ => ?_
  refine lays_and (P := fun s' _ => s'.GoesOn) (lays_joinAt (run.le le₈) ends hi)
    fun _ => completes_joinAt (hne' ?_)
  rcases hn with hn | hn
  · exact .inr (hne (.inl (hthenOn hn)))
  · exact .inl (helseOn hn)

/-- Control gets past a construct whose last branch is the value of an instruction. -/
theorem completes_delivered {kind : InstKind} {gen : Bool} {stop : BlockId}
    {incoming : List (BlockId × InstId)} (hk : kind.isPlain = true) : Completes env s (do
      let value ← emitWith kind scope location false gen
      let value ← deliver value loc scope node.location
      let incoming ← branchInto stop incoming value scope false
      joinAt stop incoming scope node) := by
  refine completes_bind (completes_emitPlain hk) fun _ _ hgo => ?_
  refine completes_bind (completes_deliver hgo) fun _ _ hgo => ?_
  exact completes_branchInto_bind (.inl hgo) fun _ _ => completes_joinAt

include hp in
theorem laysOn_lowerCatch {lhs rhs : Node} {payload : Option String} (hs : w.In w.current scope)
    (hl : w.Loc w.current loc) :
    LaysOn env w (lowerCatch parts node lhs payload rhs scope loc) fun w' v =>
      w.Le w' ∧ w'.Avail w'.current v := by
  refine laysOn_of_completes (lays_lowerCatch hp.toLayParts hs hl) fun _ _ => ?_
  -- The payload arrives at the end, whatever becomes of the handler.
  have rest : ∀ {loc : ResultLoc} {value : InstId} {okBlock stop : BlockId} (handler : ScopeId) t,
      Completes env t (do
        let handled ← parts.expr rhs handler loc
        let incoming ← branchInto stop [] handled scope false
        goto okBlock
        let payload ← emitGen (.unwrapErrPayload value false) scope node.location
        let payload ← deliver payload loc scope node.location
        let incoming ← branchInto stop incoming payload scope false
        joinAt stop incoming scope node) := fun handler t => by
    iterate 3 refine completes_last fun _ _ => ?_
    exact completes_delivered rfl
  -- Only the last branch decides whether control goes on: what comes before is passed over.
  iterate 9 refine completes_last fun _ _ => ?_
  cases payload with
  | some name => exact completes_last fun _ _ => completes_last rest
  | none => exact completes_last rest

include hp in
theorem laysOn_lowerOrElse {lhs rhs : Node} (hs : w.In w.current scope)
    (hl : w.Loc w.current loc) :
    LaysOn env w (lowerOrElse parts node lhs rhs scope loc) fun w' v =>
      w.Le w' ∧ w'.Avail w'.current v := by
  refine laysOn_of_completes (lays_lowerOrElse hp.toLayParts hs hl) fun _ _ => ?_
  iterate 11 refine completes_last fun _ _ => ?_
  exact completes_delivered rfl

include hp in
theorem laysOn_lowerTry {expr : Node} (hs : w.In w.current scope) (hl : w.Loc w.current loc) :
    LaysOn env w (lowerTry parts node expr scope loc) fun w' v =>
      w.Le w' ∧ w'.Avail w'.current v := by
  refine laysOn_of_completes (lays_lowerTry hp.toLayParts hs hl) fun _ _ => ?_
  iterate 10 refine completes_last fun _ _ => ?_
  split
  · exact completes_last fun _ _ => completes_last fun _ _ => completes_emitTo rfl
  · exact completes_last fun _ _ => completes_emitTo rfl

include hp in
theorem laysOn_lowerShortCircuit {op : BinaryOperator} {lhs rhs : Node}
    (hs : w.In w.current scope) (hl : w.Loc w.current loc) :
    LaysOn env w (lowerShortCircuit parts node op lhs rhs scope loc) fun w' v =>
      w.Le w' ∧ w'.Avail w'.current v := by
  refine laysOn_of_completes (lays_lowerShortCircuit hp.toLayParts hs hl) fun _ _ => ?_
  iterate 4 refine completes_last fun _ _ => ?_
  have rest : ∀ {source rhsBlock stop : BlockId} {left : InstId} t, Completes env t (do
      goto rhsBlock
      let right ← parts.value rhs scope
      let incoming ← branchInto stop [(source, left)] right scope false
      let value ← joinAt stop incoming scope node
      deliver value loc scope node.location) := fun t => by
    iterate 2 refine completes_last fun _ _ => ?_
    exact completes_branchInto_bind (.inr (by simp)) fun _ _ hne =>
      completes_bind (completes_joinAt hne) fun _ _ => completes_deliver
  split
  · exact completes_last fun _ => rest
  · exact completes_last fun _ => rest

/-! ### Loops -/

include hp in
/-- Control gets past a loop if it gets past the branch for when the test fails. -/
theorem lays_finishLoopOn {loopScope : ScopeId} {elseBranch : Option Node} {blocks : LoopBlocks}
    {force : Bool} (he : ∀ e ∈ elseBranch, e.Passes) (hs : b.In b.current scope)
    (hl : b.Loc b.current loc)
    (run : Run w₀ b [(blocks.orElse, some b.current), (blocks.stop, some b.current)] w)
    (ends : w.state.stream.Ends w.current) :
    Lays env w (finishLoop parts node loopScope elseBranch blocks scope loc force) fun w' v =>
      (w₀.Le w' ∧ w'.Avail w'.current v) ∧ w'.state.GoesOn := by
  refine lays_bind (lays_gotoOn run ends) fun w₁ _ _ ⟨run, hgo⟩ => ?_
  refine lays_bind (lays_elseOn hp (hs.to run.below) (hl.to run.below) hgo)
    fun w₂ value _ ⟨⟨le₂, hv⟩, helse⟩ => ?_
  refine lays_bind lays_closeSink fun w₃ incoming _ ⟨le₃, hstream, hi⟩ => ?_
  have run := (run.le le₂).le le₃
  have hgo : w₃.state.GoesOn := by
    rw [State.GoesOn, hstream]
    exact helse he
  refine lays_bind (lays_arrive (run.target (by simp)) hi (hv.to le₃.toBelow))
    fun w₄ incoming _ ⟨⟨le₄, ends, hi⟩, hne⟩ => ?_
  exact lays_and (P := fun s' _ => s'.GoesOn) (lays_joinAt (run.le le₄) ends hi)
    fun _ => completes_joinAt (hne (.inl hgo))

include hp in
theorem laysOn_lowerWhile {label : Option String} {condition : Node} {payload : Option String}
    {continueExpr : Option Node} {body : Node} {elseBranch : Option Node} {isInline : Bool}
    (he : ∀ e ∈ elseBranch, e.Passes) (hs : w.In w.current scope) (hl : w.Loc w.current loc) :
    LaysOn env w (lowerWhile parts node label condition payload continueExpr body elseBranch
      isInline scope loc) fun w' v => w.Le w' ∧ w'.Avail w'.current v :=
  fun _ => lays_lowerWhile_of hp.toLayParts hs hl fun _ _ _ _ _ run hs hl ends =>
    lays_finishLoopOn hp he hs hl run ends

include hp in
theorem laysOn_lowerFor {label : Option String} {iterable : Node} {item : String}
    {index : Option String} {body : Node} {elseBranch : Option Node} {isInline : Bool}
    (he : ∀ e ∈ elseBranch, e.Passes) (hs : w.In w.current scope) (hl : w.Loc w.current loc) :
    LaysOn env w (lowerFor parts node label iterable item index body elseBranch isInline scope loc)
      fun w' v => w.Le w' ∧ w'.Avail w'.current v :=
  fun _ => lays_lowerFor_of hp.toLayParts hs hl fun _ _ _ _ _ run hs hl ends =>
    lays_finishLoopOn hp he hs hl run ends

/-! ### Every level of nesting -/

/-- A statement is followed by others in its own scope, unless it defers an expression. -/
theorem next_lowerStatement (hs : scope.index < s.scopes.scopes.size)
    (h : Returns (lowerStatement parts node scope) env s next s') :
    next = scope ∨ ∃ kind expr, node.kind = .deferred kind expr ∧
      next = ⟨s.scopes.scopes.size⟩ ∧ s' = s.deferring scope kind expr := by
  have same : ∀ {α : Type} {x : LowerM α},
      Returns (do let _ ← x; return scope) env s next s' → next = scope := fun h => by
    obtain ⟨_, t, -, h⟩ := returns_bind.1 h
    exact (returns_pure.1 h).1
  rw [lowerStatement] at h
  split at h
  · exact .inl (same h)
  next kind expr hk =>
    rw [Returns, outcome_bind, outcome_openScope hs] at h
    cases h
    exact .inr ⟨kind, expr, hk, rfl, rfl⟩
  · exact .inl (same h)
  · exact .inl (same h)
  · split at h
    · exact .inl (same h)
    · exact .inl (same h)

theorem PassParts.completes_lowerExprStatement (hp : PassParts env parts) (hn : node.Passes)
    (hs : w.In w.current scope) (hw : w.Good) (hgo : w.state.GoesOn) :
    Completes env w.state (lowerExprStatement parts node scope) := by
  refine completes_get_bind ?_
  refine LaysOn.completes_bind (hp.exprOn hn hs Site.loc_discard) hw hgo
    fun w₁ value _ hgo _ _ => ?_
  have check : ∀ t, Completes env t (do
      let _ ← emitGen (.checkStatementIsVoid value) scope node.location) := fun t =>
    completes_bind (completes_emitPlain rfl) fun _ _ => completes_pure
  refine completes_goesOn_bind hgo <| completes_last fun effectful _ => completes_last fun e t => ?_
  split
  · exact completes_last fun _ => check
  · exact check t

theorem PassParts.completes_lowerStatement (hp : PassParts env parts) (hn : node.Passes)
    (hs : w.In w.current scope) (hw : w.Good) (hgo : w.state.GoesOn) :
    Completes env w.state (lowerStatement parts node scope) := by
  have after : ∀ {x : LowerM PUnit}, (passing env scope.index).Keeps w x →
      Completes env w.state (do x; return scope) := fun hx =>
    LaysOn.completes_bind (hx (Nat.le_of_lt hs.index)) hw hgo fun _ _ _ hgo _ _ =>
      completes_pure hgo
  rw [lowerStatement]
  split
  next hk =>
    have hparts := hn.used
    rw [hk] at hparts
    exact after (holds_lowerLocalVar (hp.holds _) rfl hparts ⟨hs, Nat.le_refl _⟩)
  · refine (laysOn_inner hs rfl).completes_bind hw hgo fun w₁ inner _ hgo _ _ => ?_
    refine completes_bind (fun _ s' hr => ?_) fun _ _ => completes_pure
    rw [returns_modify.1 hr]
    exact hgo
  next target value hk =>
    have hparts := hn.used
    rw [hk] at hparts
    exact after (holds_lowerAssign (hp.holds _) (hparts target (by simp [Kind.used]))
      (hparts value (by simp [Kind.used])) hs)
  next op target value hk =>
    have hparts := hn.used
    rw [hk] at hparts
    exact after (holds_lowerAssignOp (hp.holds _) (hparts target (by simp [Kind.used]))
      (hparts value (by simp [Kind.used])) hs)
  · split
    · refine completes_bind (hp.completes_lowerExprStatement hn hs hw hgo) fun _ _ => completes_pure
    · exact LaysOn.completes_bind (hp.exprOn hn hs Site.loc_discard) hw hgo fun _ _ _ hgo _ _ =>
        completes_pure hgo

include hp in
theorem laysOn_lowerStatement (hn : node.Passes) (hs : w.In w.current scope) :
    LaysOn env w (lowerStatement parts node scope) fun w' inner =>
      (w.LeFrom scope.index w' ∧ w'.In w'.current inner ∧ w'.Under scope inner) ∧
        KeepsDefers node w.state scope w'.state inner := by
  refine laysOn_of_completes ?_ (hp.completes_lowerStatement hn hs)
  refine lays_and (P := KeepsDefers node w.state scope) (lays_lowerStatement hp.toLayParts hs)
    fun hw next s' hr hdef block hb hd => ?_
  rcases next_lowerStatement hs.index hr with rfl | ⟨kind, expr, hk, rfl, rfl⟩
  · exact hd.remembers hw.scopes hs.index
      (remembers_of_rel (Comparison.rel_lowerStatement next node hp.remembers) hr)
  · refine hd.deferring hw.scopes hs.index hb fun h => hdef expr ?_
    rw [hk, h]

include hp in
theorem laysOn_lowerExpr (hn : node.Passes) (hs : w.In w.current scope)
    (hl : w.Loc w.current loc) :
    LaysOn env w (lowerExpr parts node scope loc) fun w' v =>
      w.Le w' ∧ w'.Avail w'.current v := by
  cases hn with
  | plain hb parts =>
    exact laysOn_of_holds (holds_lowerExpr (hp.holds _) hb (fun _ => rfl) parts hs hl)
  | block hk hall hdef =>
    rw [lowerExpr, hk]
    exact laysOn_lowerPlainBlock hp hall hdef hs hl
  | comptime hk he =>
    rw [lowerExpr, hk]
    exact laysOn_lowerComptime hp he hs hl
  | ifThen hk ht =>
    rw [lowerExpr, hk]
    exact laysOn_lowerIf hp (.inl ht) hs hl
  | ifElse hk he =>
    rw [lowerExpr, hk]
    exact laysOn_lowerIf hp (.inr he) hs hl
  | whileLoop hk he =>
    rw [lowerExpr, hk]
    exact laysOn_lowerWhile hp he hs hl
  | forLoop hk he =>
    rw [lowerExpr, hk]
    exact laysOn_lowerFor hp he hs hl
  | tryExpr hk =>
    rw [lowerExpr, hk]
    exact laysOn_lowerTry hp hs hl
  | catchExpr hk =>
    rw [lowerExpr, hk]
    exact laysOn_lowerCatch hp hs hl
  | @logical _ _ _ op hk hop =>
    rw [lowerExpr, hk]
    cases op
    case boolAnd | boolOr => exact laysOn_lowerShortCircuit hp hs hl
    case orElse => exact laysOn_lowerOrElse hp hs hl
    all_goals cases hop

/-- Control gets past what it gets past in the source, however many levels of nesting are left. -/
theorem passParts_nested (levels : Nat) : PassParts env (nested levels) := by
  induction levels with
  | zero =>
    exact ⟨layParts_nested 0, relParts_remembering 0, fun _ _ _ _ => lays_failDepth,
      fun _ _ _ => lays_failDepth⟩
  | succ levels ih =>
    exact ⟨layParts_nested (levels + 1), relParts_remembering (levels + 1), laysOn_lowerExpr ih,
      laysOn_lowerStatement ih⟩

end SourceIr.Lower
