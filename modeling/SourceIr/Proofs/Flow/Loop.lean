import SourceIr.Proofs.Flow.Jump

/-!
# Code that follows bodies

The code of a branch goes on at the end of its construct, unless the branch is left otherwise.  The
code of a loop does round after round what the loop does.  So the routines for all levels of nesting
add code that does what statements over calls do.

* `Reaches`, where the machine is when a branch has been run;
* `Follower.runs_lowerElse`, the branch that may be absent, and `Follower.runs_lowerIf`;
* `follows_rounds`, rounds that are followed one by one are followed together;
* `returns_newLoop`, `returns_enterLoop`, `returns_jumpUnlessTerminated`: the parts of a loop;
* `Follower.runs_lowerWhile`;
* `Follower.calls_lowerExpr`, `Follower.runs_lowerExpr` and `Follower.runs_lowerStatement`;
* `follower_nested`, the routines for all levels of nesting, by induction on the levels.
-/

namespace SourceIr.Lower

open SourceIr.Stream

/-! ### Branches -/

section Branches

variable {F : Stream} {tests : Nat → Bool} {env : Env} {cs : List String} {parts : Parts}
  {s s' t u : State} {scope : ScopeId} {node : Node} {v : InstId} {b : BlockId}
  {ls : List Layer} {arrived : Prop} {o : Outcome} {p : Pos}

/-- Where the machine is when a branch has been run: on the way to a block, where `arrived` holds
of what goes on there, or on the way out. -/
def Reaches (F : Stream) (tests : Nat → Bool) (s : State) (ls : List Layer) (b : BlockId)
    (arrived : Prop) (o : Outcome) (p : Pos) : Prop :=
  if o = .done then arrived ∧ Silent F tests p (.start b)
  else Exits F tests (Fed s) (fun _ => False) ls o p

/-- The end of a branch leads on to a block. -/
theorem Ends.reaches (h : Ends F tests s ls o p) (hfed : ∀ x, Fed s x → Fed s' x)
    (hgo : s.stream.isTerminated = false → arrived ∧ Silent F tests s.here (.start b)) :
    Reaches F tests s' ls b arrived o p := by
  unfold Ends at h
  unfold Reaches
  split
  next ho =>
    rw [if_pos ho] at h
    obtain ⟨ht, rfl⟩ := h
    exact hgo ht
  next ho =>
    rw [if_neg ho] at h
    exact h.mono hfed fun e => absurd e ho

/-- A run that reaches the block at which the code goes on has ended. -/
theorem Reaches.follows {m : Nat} {w : Track} (h : Reaches F tests s ls b arrived o p)
    (ho : o ≠ .stopped) (hfed : ∀ x, Fed s x → Fed s' x)
    (hjoin : arrived → s'.stream.isTerminated = false ∧ Silent F tests (.start b) s'.here) :
    Follows F tests m (p, w) (o, w) (Ends F tests s' ls) := by
  unfold Reaches at h
  split at h
  next hdone =>
    subst hdone
    obtain ⟨hgoesOn, hsilent⟩ := hjoin h.1
    exact follows_done hgoesOn (h.2.trans hsilent) m w
  next hdone =>
    refine .of_arrives ho (.refl _) ?_
    rw [Ends, if_neg hdone]
    exact h.mono hfed fun e => absurd e hdone

/-- The branch that may be absent. -/
theorem Follower.runs_lowerElse (hp : Follower F tests env cs parts) (hF : F.Coherent)
    {branch : Option Node} {S : Stmt} (hS : Node.orSkip? branch = some S)
    (hc : ∀ c ∈ S.callees, c ∈ cs) (hs : Ready env cs s scope)
    (ht : s.stream.isTerminated = false)
    (h : Returns (lowerElse parts node branch scope .discard) env s v s') :
    Runs F tests s s' scope S := by
  cases branch with
  | some branch => exact hp.expr (by simpa [Node.orSkip?] using hS) hc hs ht h
  | none =>
    obtain rfl : Stmt.skip = S := by simpa [Node.orSkip?] using hS
    obtain ⟨-, ha⟩ := returns_emitWith h
    exact ⟨ha.later, fun hg m w => follows_done (ha.isTerminated hs.fine) (ha.silent hF hg rfl) m w⟩

theorem Follower.runs_lowerIf (hp : Follower F tests env cs parts) (hF : F.Coherent)
    {condition thenBranch : Node} {elseBranch : Option Node} {c : String} {S E : Stmt}
    (hcalled : condition.called? = some c) (hS : thenBranch.stmt? = some S)
    (hE : Node.orSkip? elseBranch = some E) (hc : ∀ d ∈ (Stmt.ite c S E).callees, d ∈ cs)
    (hs : Ready env cs s scope)
    (h : Returns (lowerIf parts node condition none thenBranch elseBranch scope .discard)
      env s v s') :
    Runs F tests s s' scope (.ite c S E) := by
  rw [lowerIf] at h
  obtain ⟨loc, t, h₀, h⟩ := returns_bind.1 h
  obtain ⟨rfl, hst⟩ := returns_settle (by decide) h₀
  obtain rfl : s = t := hst.symm
  obtain ⟨cond, s₁, h₁, h⟩ := returns_bind.1 h
  have hcall := hp.call hcalled (hc c (by simp [Stmt.callees])) hs rfl (by decide) h₁
  have hs₁ := hs.later hcall.later
  obtain ⟨thenBlock, s₂, h₂, h⟩ := returns_bind.1 h
  obtain ⟨hpending, hthen⟩ := ((Pending.start hs.fine).trans hcall.later).newBlock h₂
  obtain ⟨elseBlock, s₃, h₃, h⟩ := returns_bind.1 h
  obtain ⟨hpending, helse⟩ := hpending.newBlock h₃
  obtain ⟨stop, s₄, h₄, h⟩ := returns_bind.1 h
  obtain ⟨hpending, hstop⟩ := hpending.newBlock h₄
  rw [emitTest, pure_bind] at h
  obtain ⟨j, s₅, h₅, h⟩ := returns_bind.1 h
  obtain ⟨-, hbr⟩ := returns_emitWith h₅
  have hpending : Pending s s₅ [thenBlock, elseBlock, stop] := hpending.trans hbr.later
  rw [goto, returns_modify_bind, enterBranch, pure_bind] at h
  obtain ⟨hentersThen, hpendingThen⟩ := hpending.enters
  obtain ⟨value, s₇, h₇, h⟩ := returns_bind.1 h
  have hsThen := hs.later hentersThen.later
  have hrunThen := hp.expr hS (fun d hd => hc d (by simp [Stmt.callees, hd])) hsThen
    hentersThen.goesOn h₇
  obtain ⟨incoming, s₈, h₈, h⟩ := returns_bind.1 h
  obtain ⟨hlater₈, -, hinto₈⟩ := returns_branchInto tests hF h₈
  rw [goto, returns_modify_bind] at h
  obtain ⟨hentersElse, hpendingElse⟩ := (hpendingThen.trans (hrunThen.later.trans hlater₈)).enters
  obtain ⟨value', s₁₀, h₁₀, h⟩ := returns_bind.1 h
  have hsElse := hs.later hentersElse.later
  have hrunElse := hp.runs_lowerElse hF hE (fun d hd => hc d (by simp [Stmt.callees, hd])) hsElse
    hentersElse.goesOn h₁₀
  obtain ⟨incoming', s₁₁, h₁₁, h⟩ := returns_bind.1 h
  obtain ⟨hlater₁₁, hkeeps, hinto₁₁⟩ := returns_branchInto tests hF h₁₁
  obtain ⟨hlater, hgrows, hfed, hjoin⟩ := returns_joinAt tests hF
    (hpendingElse.trans (hrunElse.later.trans hlater₁₁)) h
  refine ⟨hlater, fun hg m w => ?_⟩
  have hg₁₁ := hgrows.trans hg
  have hg₁₀ := hlater₁₁.stream.trans hg₁₁
  have hg₈ := hentersElse.stream.trans (hrunElse.later.stream.trans hg₁₀)
  have hg₇ := hlater₈.stream.trans hg₈
  have hg₅ := hentersThen.stream.trans (hrunThen.later.stream.trans hg₇)
  have hg₁ := (((hthen.later.trans helse.later).trans hstop.later).trans hbr.later).stream.trans hg₅
  have hasks : Walk F tests (s₁.here, w.call c)
      (.start (if tests (w.call c).asked then thenBlock else elseBlock), (w.call c).ask) := by
    rw [← hthen.here, ← helse.here, ← hstop.here]
    exact hbr.asks hF hg₅
  refine .of_walk ((hcall.calls hg₁ w).trans hasks) ?_
  rw [Stmt.exec]
  -- What arrives at the end of the first branch is still there at the end of the second.
  have hfed₁₁ : ∀ x, Fed s₈ x → Fed s₁₁ x := fun x hx =>
    hlater₁₁.fed x (hrunElse.later.fed x (hentersElse.fed x hx))
  have hjoins : ∀ {r : Outcome × Track} {q : Pos},
      Reaches F tests s₁₁ (s.layers scope) stop (incoming' ≠ []) r.1 q → r.1 ≠ .stopped →
      Follows F tests m (q, r.2) r (Ends F tests s' (s.layers scope)) :=
    fun h ho => h.follows ho hfed fun hne => ⟨(hjoin hne).1, (hjoin hne).2 hg⟩
  split
  · have hrun := hrunThen.follows hg₇ m (w.call c).ask
    rw [hentersThen.here, hs.layers_eq hentersThen.later] at hrun
    refine hrun.andThen (fun _ => rfl) fun ho q hq => hjoins (hq.reaches ?_ fun ht => ?_) ho
    · exact fun x hx => hfed₁₁ x (hlater₈.fed x hx)
    · exact ⟨hkeeps (hinto₈ ht).1, (hinto₈ ht).2 hg₈⟩
  · have hrun := hrunElse.follows hg₁₀ m (w.call c).ask
    rw [hentersElse.here, hs.layers_eq hentersElse.later] at hrun
    refine hrun.andThen (fun _ => rfl) fun ho q hq =>
      hjoins (hq.reaches hlater₁₁.fed fun ht => ?_) ho
    exact ⟨(hinto₁₁ ht).1, (hinto₁₁ ht).2 hg₁₁⟩

end Branches

/-! ### Loops -/

section Loops

variable {F : Stream} {tests : Nat → Bool} {env : Env} {cs : List String} {parts : Parts}
  {s₀ s s' t u : State} {scope : ScopeId} {node : Node} {v : InstId} {b : BlockId}

/-- The rounds of a loop are followed if one round is.  Each round asks a test, so that as many
steps are taken as there are rounds. -/
theorem follows_rounds {label : Option String} {test : String} {step : Option String}
    {body elseBranch : Track → Outcome × Track} {m : Nat} {top bodyStart elseStart : Pos}
    {K Kbody : Outcome → Pos → Prop}
    (htest : ∀ w, Walk F tests (top, w)
      (if tests (w.call test).asked then bodyStart else elseStart, (w.call test).ask))
    (hbody : ∀ w, Follows F tests m (bodyStart, w) (body w) Kbody)
    (hgoesOn : ∀ o p, o.goesOn label = true → Kbody o p → ∀ w,
      Walk F tests (p, w) (top, step.elim w w.call))
    (hleaves : ∀ o p, o.leavesLoop label = true → Kbody o p → ∀ k w,
      Follows F tests k (p, w) (.done, w) K)
    (hpasses : ∀ o p, o.goesOn label = false → o.leavesLoop label = false → Kbody o p → K o p)
    (helse : ∀ w, Follows F tests m (elseStart, w) (elseBranch w) K) {k : Nat} (hk : k ≤ m)
    (w : Track) :
    Follows F tests k (top, w)
      (Stmt.rounds tests label test step body elseBranch k w) K := by
  induction k generalizing w with
  | zero => exact .stopped
  | succ k ih =>
    have hne : (top, w) ≠
        (if tests (w.call test).asked then bodyStart else elseStart, (w.call test).ask) := by
      intro e
      have : w.asked = w.asked + 1 := congrArg (·.2.asked) e
      omega
    refine .of_walk_ne (htest w) hne ?_
    rw [Stmt.rounds_succ]
    dsimp only
    split
    · refine ((hbody _).of_le (Nat.le_of_succ_le hk)).andThen ?_ fun ho p hp => ?_
      · intro ho
        rw [ho]
        rfl
      split
      next hgo => exact .of_walk (hgoesOn _ p hgo hp _) (ih (Nat.le_of_succ_le hk) _)
      next hgo =>
        split
        next hleave => exact hleaves _ p hleave hp _ _
        next hleave =>
          exact .of_arrives ho (.refl _)
            (hpasses _ p (Bool.eq_false_iff.2 hgo) (Bool.eq_false_iff.2 hleave) hp)
    · exact (helse _).of_le (Nat.le_of_succ_le hk)

/-! ### The parts of a loop -/

theorem returns_newLoop {word : String} {blocks : LoopBlocks} (hpending : Pending s₀ s [])
    (h : Returns (newLoop word) env s blocks s') :
    Pending s₀ s' [blocks.test, blocks.body, blocks.step, blocks.orElse, blocks.stop] ∧
      s'.here = s.here := by
  rw [newLoop] at h
  obtain ⟨test, s₁, h₁, h⟩ := returns_bind.1 h
  obtain ⟨hpending, htest⟩ := hpending.newBlock h₁
  obtain ⟨body, s₂, h₂, h⟩ := returns_bind.1 h
  obtain ⟨hpending, hbody⟩ := hpending.newBlock h₂
  obtain ⟨step, s₃, h₃, h⟩ := returns_bind.1 h
  obtain ⟨hpending, hstep⟩ := hpending.newBlock h₃
  obtain ⟨orElse, s₄, h₄, h⟩ := returns_bind.1 h
  obtain ⟨hpending, helse⟩ := hpending.newBlock h₄
  obtain ⟨stop, s₅, h₅, h⟩ := returns_bind.1 h
  obtain ⟨hpending, hstop⟩ := hpending.newBlock h₅
  obtain ⟨rfl, rfl⟩ := returns_pure.1 h
  refine ⟨hpending, ?_⟩
  rw [hstop.here, helse.here, hstep.here, hbody.here, htest.here]

theorem returns_enterLoop {label : Option String} {blocks : LoopBlocks} {loc : ResultLoc}
    {loopScope : ScopeId} (hs : scope.index < s.scopes.scopes.size)
    (h : Returns (enterLoop scope label blocks loc) env s loopScope s') :
    loopScope = ⟨s.scopes.scopes.size⟩ ∧
      Opens s s' scope (.loop label blocks.stop blocks.step) ∧
      (s'.sinks.lookup loopScope).isSome := by
  rw [enterLoop] at h
  obtain ⟨x, s₁, h₁, h⟩ := returns_bind.1 h
  obtain ⟨rfl, hopens⟩ := returns_openScope hs h₁
  rw [openSink, returns_modify_bind] at h
  obtain ⟨rfl, rfl⟩ := returns_pure.1 h
  exact ⟨rfl, hopens.openSink loc, by simp⟩

variable (tests) in
/-- Where control gets to the end of a part of a loop, it goes on in another part. -/
theorem returns_jumpUnlessTerminated (hF : F.Coherent) {force : Bool} {x : PUnit}
    (h : Returns (jumpUnlessTerminated b node scope force) env s x s') :
    Later s s' ∧ (s.stream.isTerminated = false → s'.stream.Grows F →
      Silent F tests s.here (.start b)) := by
  rw [jumpUnlessTerminated] at h
  replace h := returns_isTerminated_bind h
  split at h
  next =>
    obtain ⟨j, s₁, h₁, h⟩ := returns_bind.1 h
    obtain ⟨-, ha⟩ := returns_emitWith h₁
    obtain ⟨rfl, rfl⟩ := returns_pure.1 h
    exact ⟨ha.later, fun _ hg => ha.jumps hF hg⟩
  next ht =>
    obtain ⟨rfl, rfl⟩ := returns_pure.1 h
    exact ⟨.refl _, fun hf => absurd hf (by simpa using ht)⟩

/-- How the run of the body of a loop goes on: with the next round, after the loop, or on the way
out. -/
theorem Reaches.loop_cases {l : Layer} {ls : List Layer} {label : Option String}
    {stop step : BlockId} {arrived : Prop} {o : Outcome} {p : Pos}
    (hl : l.kind = .loop label stop step) (h : Reaches F tests s (l :: ls) step arrived o p) :
    (o.goesOn label = true → Silent F tests p (.start step)) ∧
      (o.leavesLoop label = true → Silent F tests p (.start stop) ∧ Fed s l.id) ∧
      (o.goesOn label = false → o.leavesLoop label = false →
        o ≠ .done ∧ Exits F tests (Fed s) (fun _ => False) ls o p) := by
  obtain ⟨id, kind, d⟩ := l
  obtain rfl : kind = .loop label stop step := hl
  unfold Reaches at h
  split at h
  next ho =>
    subst ho
    exact ⟨fun _ => h.2, nofun, nofun⟩
  next ho =>
    have htakes : (⟨id, .loop label stop step, d⟩ : Layer).takes o =
        (o.goesOn label || o.leavesLoop label) := takes_loop ho
    refine ⟨fun hgo => ?_, fun hleave => ?_, fun hgo hleave => ⟨ho, ?_⟩⟩
    · rw [exits_cons_of_takes (by rw [htakes, hgo, Bool.true_or])] at h
      cases o with
      | done => exact absurd rfl ho
      | continued l =>
        obtain ⟨step', hstep, hp⟩ := h
        cases hstep
        exact hp
      | _ => cases hgo
    · rw [exits_cons_of_takes (by rw [htakes, hleave, Bool.or_true])] at h
      cases o with
      | broke l =>
        obtain ⟨stop', hstop, hp, hfed⟩ := h
        cases hstop
        exact ⟨hp, hfed⟩
      | _ => cases hleave
    · exact (exits_cons_of_passes (by rw [htakes, hgo, hleave, Bool.or_false]) rfl).1 h

/-- The branch for when the test fails, and the end of the loop, which `break` gets to as well. -/
theorem Follower.follows_finishLoop (hp : Follower F tests env cs parts) (hF : F.Coherent)
    {blocks : LoopBlocks} {elseBranch : Option Node} {loopScope : ScopeId} {force : Bool} {E : Stmt}
    (hE : Node.orSkip? elseBranch = some E) (hc : ∀ d ∈ E.callees, d ∈ cs)
    (hs : Ready env cs s₀ scope) (hpending : Pending s₀ s [blocks.orElse, blocks.stop])
    (hnew : s₀.scopes.scopes.size ≤ loopScope.index)
    (hlt : loopScope.index < s.scopes.scopes.size) (hsink : (s.sinks.lookup loopScope).isSome)
    (h : Returns (finishLoop parts node loopScope elseBranch blocks scope .discard force)
      env s v s') :
    Later s₀ s' ∧ s.stream.Grows s'.stream ∧ (∀ x, Fed s x → Fed s' x) ∧ (s'.stream.Grows F →
      (Fed s loopScope → s'.stream.isTerminated = false ∧
        Silent F tests (.start blocks.stop) s'.here) ∧
      ∀ m w, Follows F tests m (.start blocks.orElse, w)
        (E.exec tests m (armed (s₀.layers scope)) w) (Ends F tests s' (s₀.layers scope))) := by
  rw [finishLoop, goto, returns_modify_bind] at h
  obtain ⟨henters, hpending⟩ := hpending.enters
  obtain ⟨value, s₁, h₁, h⟩ := returns_bind.1 h
  have hrun := hp.runs_lowerElse hF hE hc (hs.later henters.later) henters.goesOn h₁
  obtain ⟨broken, s₂, h₂, h⟩ := returns_bind.1 h
  have hsink₁ := hrun.later.sinks loopScope hlt hsink
  obtain ⟨hlater₂, hstream, hfed₂, hbroken⟩ :=
    returns_closeSink (henters.later.trans hrun.later) hnew hsink₁ h₂
  obtain ⟨incoming, s₃, h₃, h⟩ := returns_bind.1 h
  obtain ⟨hlater₃, hkeeps, hinto⟩ := returns_branchInto tests hF h₃
  have hpending₂ : Pending s₀ s₂ [blocks.stop] := by
    refine ⟨hpending.fine, hlater₂, hpending.nodup, fun b hb => ?_, hpending.new⟩
    have hw := (hpending.trans hrun.later).waiting b hb
    exact ⟨hstream ▸ hw.lt, hstream ▸ hw.ne, hstream ▸ hw.empty⟩
  obtain ⟨hlater, hgrows, hfed, hjoin⟩ := returns_joinAt tests hF
    (hpending₂.trans hlater₃) h
  have hgrows₂ : s₂.stream.Grows s'.stream := hlater₃.stream.trans hgrows
  have hhere : s₂.here = s₁.here := by rw [State.here, hstream, State.here]
  refine ⟨hlater, ?_, fun x hx => ?_, fun hg => ⟨fun hx => ?_, fun m w => ?_⟩⟩
  · exact henters.stream.trans (hrun.later.stream.trans (hstream ▸ hgrows₂))
  · exact hfed x (hlater₃.fed x (hfed₂ x (hrun.later.fed x (henters.fed x hx))))
  · have hne := hkeeps (hbroken (hrun.later.fed _ (henters.fed _ hx)))
    exact ⟨(hjoin hne).1, (hjoin hne).2 hg⟩
  · have hg₁ : s₁.stream.Grows F := (hstream ▸ hgrows₂).trans hg
    have hf := hrun.follows hg₁ m w
    rw [henters.here, hs.layers_eq henters.later] at hf
    refine hf.andThen (fun _ => rfl) fun ho p hends => ?_
    have hreaches : Reaches F tests s₃ (s₀.layers scope) blocks.stop (incoming ≠ []) _ p :=
      hends.reaches (fun x hx => hlater₃.fed x (hfed₂ x hx)) fun ht => ?_
    · exact hreaches.follows ho hfed fun hne => ⟨(hjoin hne).1, (hjoin hne).2 hg⟩
    obtain ⟨hne, hsilent⟩ := hinto (hstream ▸ ht)
    exact ⟨hne, hhere ▸ hsilent (hgrows.trans hg)⟩

/-- The call that a loop makes before its next round. -/
theorem Follower.walk_continueExpr (hp : Follower F tests env cs parts) {continueExpr : Option Node}
    {step : Option String} {α : Type} {rest : LowerM α} {a : α}
    (hstep : continueExpr.map Node.called? = step.map some) (hc : ∀ c ∈ step.toList, c ∈ cs)
    (hs : Ready env cs s scope) (ht : s.stream.isTerminated = false)
    (h : Returns (match continueExpr with
      | some expr => do
        let _ ← parts.expr expr scope .discard
        rest
      | none => rest) env s a s') :
    ∃ u, Later s u ∧ u.stream.isTerminated = false ∧
      (u.stream.Grows F → ∀ w, Walk F tests (s.here, w) (u.here, step.elim w w.call)) ∧
      Returns rest env u a s' := by
  cases continueExpr with
  | none =>
    obtain rfl : step = none := by simpa using hstep.symm
    exact ⟨s, .refl s, ht, fun _ w => .refl _, h⟩
  | some expr =>
    obtain ⟨c, rfl, hcalled⟩ : ∃ c, step = some c ∧ expr.called? = some c := by
      cases step with
      | none => cases hstep
      | some c => exact ⟨c, rfl, Option.some.inj hstep⟩
    obtain ⟨v, u, h₁, h⟩ := returns_bind.1 h
    have hcall := hp.call hcalled (hc c (by simp)) hs rfl (by decide) h₁
    exact ⟨u, hcall.later, hcall.goesOn, fun hg w => hcall.calls hg w, h⟩

theorem Follower.runs_lowerWhile (hp : Follower F tests env cs parts) (hF : F.Coherent)
    {label : Option String} {condition body : Node} {continueExpr elseBranch : Option Node}
    {c : String} {step : Option String} {S E : Stmt}
    (hcalled : condition.called? = some c)
    (hstep : continueExpr.map Node.called? = step.map some) (hS : body.stmt? = some S)
    (hE : Node.orSkip? elseBranch = some E)
    (hc : ∀ d ∈ (Stmt.loop label c step S E).callees, d ∈ cs) (hs : Ready env cs s scope)
    (h : Returns (lowerWhile parts node label condition none continueExpr body elseBranch false
      scope .discard) env s v s') :
    Runs F tests s s' scope (.loop label c step S E) := by
  rw [lowerWhile] at h
  obtain ⟨loc, t, h₀, h⟩ := returns_bind.1 h
  obtain ⟨rfl, hst⟩ := returns_settle (by decide) h₀
  obtain rfl : s = t := hst.symm
  obtain ⟨blocks, s₁, h₁, h⟩ := returns_bind.1 h
  obtain ⟨hpending, hhere⟩ := returns_newLoop (.start hs.fine) h₁
  obtain ⟨j, s₂, h₂, h⟩ := returns_bind.1 h
  obtain ⟨-, hfirst⟩ := returns_emitWith h₂
  rw [goto, returns_modify_bind] at h
  obtain ⟨htest, hpending⟩ := (hpending.trans hfirst.later).enters
  obtain ⟨cond, s₃, h₃, h⟩ := returns_bind.1 h
  have hcond := hp.call hcalled (hc c (by simp [Stmt.callees])) (hs.later htest.later) rfl
    (by decide) h₃
  rw [emitTest, pure_bind] at h
  obtain ⟨j, s₄, h₄, h⟩ := returns_bind.1 h
  obtain ⟨-, hbr⟩ := returns_emitWith h₄
  rw [goto, returns_modify_bind] at h
  obtain ⟨hbody, hpending⟩ := (hpending.trans (hcond.later.trans hbr.later)).enters
  obtain ⟨loopScope, s₅, h₅, h⟩ := returns_bind.1 h
  have hs₄ := hs.later hbody.later
  obtain ⟨hloop, hopens, hsink⟩ := returns_enterLoop hs₄.body.lt h₅
  have hs₅ : Ready env cs s₅ loopScope :=
    hloop ▸ ⟨hopens.later.fine hs₄.fine, hopens.inBody hs₄.fine hs₄.body rfl (by simp)⟩
  obtain ⟨d, hlayers⟩ := hopens.layers hs₄.fine hs₄.body
  rw [← hloop, hs.layers_eq hbody.later] at hlayers
  rw [enterBranch, pure_bind] at h
  obtain ⟨value, s₆, h₆, h⟩ := returns_bind.1 h
  have hrun := hp.expr hS (fun d hd => hc d (by simp [Stmt.callees, hd])) hs₅
    (hopens.stream ▸ hbody.goesOn) h₆
  obtain ⟨x, s₇, h₇, h⟩ := returns_bind.1 h
  obtain ⟨hlater₇, hjump₇⟩ := returns_jumpUnlessTerminated tests hF h₇
  rw [goto, returns_modify_bind] at h
  have hbodyLater : Later s₅ s₇ := hrun.later.trans hlater₇
  obtain ⟨hnext, hpending⟩ := (hpending.trans (hopens.later.trans hbodyLater)).enters
  dsimp only at h
  have hs₇ : Ready env cs { s₇ with stream := s₇.stream.goto blocks.step } loopScope :=
    ⟨hnext.later.fine hs.fine, (hs₅.later hbodyLater).body.goto blocks.step⟩
  obtain ⟨s₈, hlater₈, hgoesOn₈, hstepCall, h⟩ := hp.walk_continueExpr hstep
    (fun d hd => hc d (by simp [Stmt.callees, hd])) hs₇ hnext.goesOn h
  obtain ⟨y, s₉, h₉, h⟩ := returns_bind.1 h
  obtain ⟨hlater₉, hjump₉⟩ := returns_jumpUnlessTerminated tests hF h₉
  have hlt₇ := hbodyLater.lt_scopes hs₅.body.lt
  have hlater₇₉ := hlater₈.trans hlater₉
  have hsink₉ := hlater₇₉.sinks loopScope hlt₇ (hbodyLater.sinks loopScope hs₅.body.lt hsink)
  obtain ⟨hlater, hgrows, hfed, hfinish⟩ := hp.follows_finishLoop hF hE
    (fun d hd => hc d (by simp [Stmt.callees, hd])) hs (hpending.trans hlater₇₉)
    (hloop ▸ hbody.later.size_scopes) (hlater₇₉.lt_scopes hlt₇) hsink₉ h
  have hfed₇ : ∀ x, Fed s₇ x → Fed s₉ x := fun x hx => hlater₇₉.fed x (hnext.fed x hx)
  refine ⟨hlater, fun hg m w => ?_⟩
  obtain ⟨hbreak, helse⟩ := hfinish hg
  have hg₉ := hgrows.trans hg
  have hg₈ := hlater₉.stream.trans hg₉
  have hg₇ := hnext.stream.trans (hlater₈.stream.trans hg₈)
  have hg₆ := hlater₇.stream.trans hg₇
  have hg₄ := hbody.stream.trans (hopens.later.stream.trans (hrun.later.stream.trans hg₆))
  have hg₃ := hbr.later.stream.trans hg₄
  have hg₂ := htest.stream.trans (hcond.later.stream.trans hg₃)
  have hround : ∀ w, Walk F tests (.start blocks.test, w)
      (if tests (w.call c).asked then .start blocks.body else .start blocks.orElse,
        (w.call c).ask) := by
    intro w
    rw [← htest.here, ← apply_ite Pos.start]
    exact (hcond.calls hg₃ w).trans (hbr.asks hF hg₄)
  have hbodyRun : ∀ w, Follows F tests m (.start blocks.body, w)
      (S.exec tests m (armed (s.layers scope)) w)
      (Reaches F tests s₇ (⟨loopScope, .loop label blocks.stop blocks.step, d⟩ :: s.layers scope)
        blocks.step True) := by
    intro w
    have hf := hrun.follows hg₆ m w
    rw [hopens.here, hbody.here, hlayers] at hf
    exact hf.mono fun p hp => hp.reaches hlater₇.fed fun ht => ⟨trivial, hjump₇ ht hg₇⟩
  rw [Stmt.exec, ← hhere]
  refine .of_walk (hfirst.jumps hF hg₂ w) (follows_rounds hround hbodyRun ?_ ?_ ?_ (helse m)
    (Nat.le_refl m) w)
  · intro o p hgo hp w
    have hstep := hstepCall hg₈ w
    rw [hnext.here] at hstep
    exact ((hp.loop_cases rfl).1 hgo w).trans (hstep.trans (hjump₉ hgoesOn₈ hg₉ _))
  · intro o p hleave hp k w
    obtain ⟨hstop, hx⟩ := (hp.loop_cases rfl).2.1 hleave
    obtain ⟨hgoesOn, hsilent⟩ := hbreak (hfed₇ _ hx)
    exact follows_done hgoesOn (hstop.trans hsilent) k w
  · intro o p hgo hleave hp
    obtain ⟨hdone, hexits⟩ := (hp.loop_cases rfl).2.2 hgo hleave
    rw [Ends, if_neg hdone]
    exact hexits.mono (fun x hx => hfed x (hfed₇ x hx)) fun e => absurd e hdone

end Loops

/-! ### Expressions -/

variable {F : Stream} {tests : Nat → Bool} {env : Env} {cs : List String} {parts : Parts}
  {s s' t u : State} {scope next : ScopeId} {node : Node} {v : InstId} {c : String} {S : Stmt}

theorem appends_lowerExpr_symbol (hkind : node.kind = .symbol c) (hc : c ∈ cs)
    (hs : Ready env cs s scope) (h : Returns (lowerExpr parts node scope .none) env s v s') :
    v = s.stream.next ∧ ∃ d, Appends (.declRef d c false) s s' := by
  rw [lowerExpr, hkind] at h
  obtain ⟨value, t, h₁, h⟩ := returns_bind.1 h
  obtain ⟨rfl, rfl⟩ := returns_deliver rfl (by decide) h
  exact hs.appends_lowerSymbol hc h₁

theorem Follower.calls_lowerExpr (hp : Follower F tests env cs parts) (hF : F.Coherent)
    {loc : ResultLoc} (hcalled : node.called? = some c) (hc : c ∈ cs) (hs : Ready env cs s scope)
    (hptr : loc.ptr? = none) (hloc : loc ≠ .alloc)
    (h : Returns (lowerExpr parts node scope loc) env s v s') : Calls F tests s s' c := by
  obtain ⟨callee, hkind, hcallee⟩ := Node.called?_eq_some hcalled
  rw [lowerExpr, hkind] at h
  exact hp.calls_lowerCall hF hcallee hc hs hptr hloc h

/-- A call goes on with the next statement. -/
theorem Calls.runs (h : Calls F tests s s' c) : Runs F tests s s' scope (.call c) :=
  ⟨h.later, fun hg m w => (follows_done h.goesOn (.refl _) m _).of_walk (h.calls hg w)⟩

theorem Follower.runs_lowerExpr (hp : Follower F tests env cs parts) (hF : F.Coherent)
    (hS : node.stmt? = some S) (hc : ∀ c ∈ S.callees, c ∈ cs) (hs : Ready env cs s scope)
    (ht : s.stream.isTerminated = false)
    (h : Returns (lowerExpr parts node scope .discard) env s v s') : Runs F tests s s' scope S := by
  rw [lowerExpr] at h
  rw [Node.stmt?.eq_def] at hS
  split at hS
  case h_1 name _ _ _ _ =>
    cases hS
    exact (hp.calls_lowerCall hF rfl (hc name (by simp [Stmt.callees])) hs rfl (by decide) h).runs
  case h_2 expr _ _ =>
    obtain ⟨c, hcalled, rfl⟩ := Option.map_eq_some_iff.1 hS
    exact hp.runs_lowerTry hF hcalled (hc c (by simp [Stmt.callees])) hs h
  case h_3 label statements _ _ =>
    obtain ⟨R, hR, rfl⟩ := Option.map_eq_some_iff.1 hS
    exact hp.runs_lowerBlock hF hR (fun c hm => hc c (by simpa [Stmt.callees] using hm)) hs ht h
  case h_4 condition thenBranch elseBranch _ _ =>
    simp only [Option.bind_eq_bind, Option.bind_eq_some_iff, Option.pure_def,
      Option.some.injEq] at hS
    obtain ⟨c, hcalled, T, hT, E, hE, rfl⟩ := hS
    exact hp.runs_lowerIf hF hcalled hT hE hc hs h
  case h_5 label condition body elseBranch _ _ =>
    simp only [Option.bind_eq_bind, Option.bind_eq_some_iff, Option.pure_def,
      Option.some.injEq] at hS
    obtain ⟨c, hcalled, B, hB, E, hE, rfl⟩ := hS
    refine hp.runs_lowerWhile hF hcalled ?_ hB hE hc hs h
    rfl
  case h_6 label condition step body elseBranch _ _ =>
    simp only [Option.bind_eq_bind, Option.bind_eq_some_iff, Option.pure_def,
      Option.some.injEq] at hS
    obtain ⟨c, hcalled, d, hstep, B, hB, E, hE, rfl⟩ := hS
    refine hp.runs_lowerWhile hF hcalled ?_ hB hE hc hs h
    simp [hstep]
  case h_7 label _ _ =>
    cases hS
    exact hp.runs_lowerBreak hF hs h
  case h_8 label _ _ =>
    cases hS
    exact hp.runs_lowerContinue hF hs ht h
  case h_9 =>
    cases hS
    exact hp.runs_lowerReturn hF hs ht h
  case h_10 value _ _ =>
    obtain ⟨c, hcalled, rfl⟩ := Option.map_eq_some_iff.1 hS
    exact hp.runs_lowerReturn_call hF hcalled (hc c (by simp [Stmt.callees])) hs h
  case h_11 => cases hS

/-! ### Statements -/

theorem returns_lowerExprStatement {x : PUnit}
    (h : Returns (lowerExprStatement parts node scope) env s x s') :
    ∃ v t, Returns (parts.expr node scope .discard) env s v t ∧
      (t.stream.isTerminated = true ∧ s' = t ∨ t.stream.isTerminated = false ∧
        ∃ u, Later t u ∧ u.here = t.here ∧ Appends (.checkStatementIsVoid v) u s') := by
  rw [lowerExprStatement, returns_get_bind] at h
  obtain ⟨v, t, h₁, h⟩ := returns_bind.1 h
  refine ⟨v, t, h₁, ?_⟩
  replace h := returns_isTerminated_bind h
  dsimp only at h
  split at h
  next ht =>
    refine .inr ⟨by simpa using ht, ?_⟩
    obtain ⟨effectful, h⟩ := returns_hasEffectSince_bind h
    rw [returns_read_bind] at h
    split at h
    · obtain ⟨x, u, h₂, h⟩ := returns_bind.1 h
      obtain ⟨hlater, hhere, -⟩ := returns_warnAt h₂
      obtain ⟨j, u', h₃, h⟩ := returns_bind.1 h
      obtain ⟨rfl, rfl⟩ := returns_pure.1 h
      exact ⟨u, hlater, hhere, (returns_emitWith h₃).2⟩
    · obtain ⟨j, u', h₃, h⟩ := returns_bind.1 h
      obtain ⟨rfl, rfl⟩ := returns_pure.1 h
      exact ⟨t, .refl t, rfl, (returns_emitWith h₃).2⟩
  next ht =>
    obtain ⟨rfl, rfl⟩ := returns_pure.1 h
    exact .inl ⟨by simpa using ht, rfl⟩

/-- A statement over calls is lowered as an expression whose value is not used. -/
theorem returns_lowerStatement (hS : node.stmt? = some S)
    (h : Returns (lowerStatement parts node scope) env s next s') :
    next = scope ∧ ((∃ v, Returns (parts.expr node scope .discard) env s v s') ∨
      ∃ x, Returns (lowerExprStatement parts node scope) env s x s') := by
  obtain ⟨id, kind, location, span⟩ := node
  rw [lowerStatement.eq_def] at h
  dsimp only at h
  split at h
  case h_5 =>
    split at h
    · obtain ⟨x, t, h₁, h⟩ := returns_bind.1 h
      obtain ⟨rfl, rfl⟩ := returns_pure.1 h
      exact ⟨rfl, .inr ⟨x, h₁⟩⟩
    · obtain ⟨v, t, h₁, h⟩ := returns_bind.1 h
      obtain ⟨rfl, rfl⟩ := returns_pure.1 h
      exact ⟨rfl, .inl ⟨v, h₁⟩⟩
  all_goals simp [Node.stmt?] at hS

theorem Follower.runs_lowerStatement (hp : Follower F tests env cs parts) (hF : F.Coherent)
    (hS : node.stmt? = some S) (hc : ∀ c ∈ S.callees, c ∈ cs) (hs : Ready env cs s scope)
    (ht : s.stream.isTerminated = false)
    (h : Returns (lowerStatement parts node scope) env s next s') :
    next = scope ∧ Runs F tests s s' scope S := by
  obtain ⟨hnext, ⟨v, h⟩ | ⟨x, h⟩⟩ := returns_lowerStatement hS h
  · exact ⟨hnext, hp.expr hS hc hs ht h⟩
  obtain ⟨v, t, h₁, h⟩ := returns_lowerExprStatement h
  have hrun := hp.expr hS hc hs ht h₁
  rcases h with ⟨-, rfl⟩ | ⟨-, u, hlater, hhere, ha⟩
  · exact ⟨hnext, hrun⟩
  have hlater' := hlater.trans ha.later
  refine ⟨hnext, hrun.later.trans hlater', fun hg m w => ?_⟩
  refine (hrun.follows (hlater'.stream.trans hg) m w).andThen (fun _ => rfl) fun ho p hends => ?_
  generalize S.exec tests m (armed (s.layers scope)) w = r at ho hends ⊢
  obtain ⟨o, w'⟩ := r
  unfold Ends at hends
  split at hends
  next hdone =>
    obtain rfl : o = .done := hdone
    obtain ⟨-, rfl⟩ := hends
    rw [← hhere]
    have hfine := hlater.fine (hrun.later.fine hs.fine)
    exact follows_done (ha.isTerminated hfine) (ha.silent hF hg rfl) m w'
  next hdone =>
    refine .of_arrives ho (.refl _) ?_
    rw [Ends, if_neg hdone]
    exact hends.mono hlater'.fed fun e => absurd e hdone

theorem opens_deferred {kind : DeferKind} {expr : Node} (hkind : node.kind = .deferred kind expr)
    (hs : Ready env cs s scope) (h : Returns (lowerStatement parts node scope) env s next s') :
    next = ⟨s.scopes.scopes.size⟩ ∧ Opens s s' scope (.deferred kind) ∧
      s'.deferred.lookup next = some expr := by
  rw [lowerStatement, hkind] at h
  obtain ⟨after, t, h₁, h⟩ := returns_bind.1 h
  obtain ⟨rfl, hopens⟩ := returns_openScope hs.body.lt h₁
  rw [remember, returns_modify_bind] at h
  obtain ⟨rfl, rfl⟩ := returns_pure.1 h
  exact ⟨rfl, ⟨hopens.later.remember (Nat.le_refl _) expr, hopens.scope, hopens.stream⟩, by simp⟩

/-- The routines for parts follow statements, however many levels of nesting are left. -/
theorem follower_nested (hF : F.Coherent) (levels : Nat) :
    Follower F tests env cs (nested levels) := by
  induction levels with
  | zero =>
    have fails : ∀ {α : Type} {node : Node} {s s' : State} {a : α},
        ¬ Returns (failDepth node) env s a s' := by
      intro α node s s' a h
      rw [failDepth, returns_read_bind] at h
      exact not_returns_fail h
    exact ⟨fun _ _ _ h => absurd h fails, fun _ _ _ _ _ h => absurd h fails,
      fun _ _ _ _ h => absurd h fails, fun _ _ _ _ h => absurd h fails,
      fun _ _ h => absurd h fails⟩
  | succ levels ih =>
    refine ⟨fun hkind hc hs h => ?_, fun hcalled hc hs hptr hloc h => ?_,
      fun hS hc hs ht h => ?_, fun hS hc hs ht h => ?_, fun hkind hs h => ?_⟩
    · exact appends_lowerExpr_symbol hkind hc hs h
    · exact ih.calls_lowerExpr hF hcalled hc hs hptr hloc h
    · exact ih.runs_lowerExpr hF hS hc hs ht h
    · exact ih.runs_lowerStatement hF hS hc hs ht h
    · exact opens_deferred hkind hs h

end SourceIr.Lower
