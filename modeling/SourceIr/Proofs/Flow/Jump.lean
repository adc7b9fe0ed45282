import SourceIr.Proofs.Flow.Block
import SourceIr.Proofs.Jump

/-!
# Code that follows jumps

The code of a jump runs the deferred statements that are owed on its way out, and then gets to the
layer that takes it.

* `Follower.exits_runDefers`, what is owed on the way out;
* `Follower.runs_lowerBreak`, `Follower.runs_lowerContinue`;
* `Follower.runs_lowerReturn`, `Follower.runs_lowerTry`.
-/

namespace SourceIr.Lower

open SourceIr.Stream

variable {F : Stream} {tests : Nat → Bool} {env : Env} {cs : List String} {parts : Parts}
  {s₀ s s' t u : State} {scope target : ScopeId} {node : Node} {v : InstId} {b : BlockId}
  {label : Option String}

/-- The deferred statements on a way out are run, and what comes after them gets to the layer that
takes it. -/
theorem Follower.exits_runDefers (hp : Follower F tests env cs parts) {o : Outcome}
    {path : ExitPath} (hpath : ∀ kind, path.runs kind = o.runs kind) {target : Option ScopeId}
    {l : Layer} (hs : Ready env cs s scope) (ha : Aims o target (s.layers scope) l)
    (ht : s.stream.isTerminated = false) {x : PUnit}
    (h : Returns (runDefers parts scope target path) env s x s') :
    Later s s' ∧ (s'.stream.Grows F → ∀ fed G,
      (s'.stream.isTerminated = false → l.Lands F tests fed G o s'.here) →
      Exits F tests fed G (s.layers scope) o s.here) := by
  rw [runDefers] at h
  replace h := returns_scopesFrom_bind h
  exact hp.exits_runDefersIn hpath ha hs rfl ht h

/-! ### Break and continue -/

/-- The end of a jump: it is left out where control does not get that far. -/
theorem returns_unlessTerminated {x : LowerM InstId}
    (h : Returns (do if ← isTerminated then lastInst else x) env s v s') :
    s.stream.isTerminated = true ∧ s = s' ∨
      s.stream.isTerminated = false ∧ Returns x env s v s' := by
  replace h := returns_isTerminated_bind h
  split at h
  next ht => exact .inl ⟨ht, returns_lastInst h⟩
  next ht => exact .inr ⟨by simpa using ht, h⟩

/-- The code of a statement that does nothing but leave. -/
theorem Runs.of_exits {S : Stmt} {o : Outcome} (hS : ∀ m armed w, S.exec tests m armed w = (o, w))
    (hdone : o ≠ .done) (hstopped : o ≠ .stopped) (hlater : Later s s')
    (h : s'.stream.Grows F → ∃ p, Silent F tests s.here p ∧
      Exits F tests (Fed s') (fun _ => False) (s.layers scope) o p) :
    Runs F tests s s' scope S := by
  refine ⟨hlater, fun hg m w => ?_⟩
  obtain ⟨p, hp, hexits⟩ := h hg
  rw [hS]
  refine .of_arrives hstopped (hp w) ?_
  rw [Ends, if_neg hdone]
  exact hexits

theorem Follower.runs_lowerBreak (hp : Follower F tests env cs parts) (hF : F.Coherent)
    (hs : Ready env cs s scope)
    (h : Returns (lowerBreak parts node label none scope) env s v s') :
    Runs F tests s s' scope (.breakTo label) := by
  obtain ⟨target, z, stop, hleads, hstop, h⟩ := returns_lowerBreak h
  obtain ⟨l, x, haims, hid, hx, hkind⟩ := hs.body.aims_of_found hs.fine hleads.found
  obtain rfl := Option.some.inj (hx.symm.trans hleads.scope?)
  obtain ⟨void, s₁, h₃, h⟩ := returns_bind.1 h
  obtain ⟨-, ha⟩ := returns_emitWith h₃
  obtain ⟨y, s₂, h₄, h⟩ := returns_bind.1 h
  have hlayers := hs.layers_eq ha.later
  obtain ⟨hlater, hexits⟩ := hp.exits_runDefers (o := .broke label)
    (by rintro (_ | _) <;> rfl) (hs.later ha.later) (hlayers.symm ▸ haims)
    (ha.isTerminated hs.fine) h₄
  have hlater₂ := ha.later.trans hlater
  rw [hlayers] at hexits
  rcases returns_unlessTerminated h with ⟨hterm, rfl⟩ | ⟨-, h⟩
  · refine .of_exits (fun _ _ _ => rfl) nofun nofun hlater₂ fun hg => ?_
    refine ⟨s₁.here, ha.silent hF (hlater.stream.trans hg) rfl, hexits hg _ _ fun hf => ?_⟩
    exact absurd (hterm.symm.trans hf) nofun
  · rw [flowInto, returns_modify_bind] at h
    obtain ⟨-, hbr⟩ := returns_emitWith h
    have hflow := later_flowInto (s := s₂) target s₂.stream.currentBlock void
    refine .of_exits (fun _ _ _ => rfl) nofun nofun
      ((hlater₂.trans hflow).trans hbr.later) fun hg => ?_
    have hg₂ : s₂.stream.Grows F := hbr.later.stream.trans hg
    refine ⟨s₁.here, ha.silent hF (hlater.stream.trans hg₂) rfl, hexits hg₂ _ _ fun _ => ?_⟩
    have hlt := hlater₂.lt_scopes (Array.getElem?_eq_some_iff.1 hx).1
    exact ⟨stop, hkind ▸ hstop, hbr.jumps hF hg, hid ▸ hbr.later.fed _ (fed_flowInto hlt _ _)⟩

theorem Follower.runs_lowerContinue (hp : Follower F tests env cs parts) (hF : F.Coherent)
    (hs : Ready env cs s scope) (ht : s.stream.isTerminated = false)
    (h : Returns (lowerContinue parts node label scope) env s v s') :
    Runs F tests s s' scope (.continueTo label) := by
  obtain ⟨target, z, step, hleads, hstep, h⟩ := returns_lowerContinue h
  obtain ⟨l, x, haims, hid, hx, hkind⟩ := hs.body.aims_of_found hs.fine hleads.found
  obtain rfl := Option.some.inj (hx.symm.trans hleads.scope?)
  obtain ⟨y, s₂, h₂, h⟩ := returns_bind.1 h
  obtain ⟨hlater, hexits⟩ := hp.exits_runDefers (o := .continued label)
    (by rintro (_ | _) <;> rfl) hs haims ht h₂
  rcases returns_unlessTerminated h with ⟨hterm, rfl⟩ | ⟨-, h⟩
  · refine .of_exits (fun _ _ _ => rfl) nofun nofun hlater fun hg => ?_
    exact ⟨s.here, .refl _, hexits hg _ _ fun hf => absurd (hterm.symm.trans hf) nofun⟩
  · obtain ⟨-, hbr⟩ := returns_emitWith h
    refine .of_exits (fun _ _ _ => rfl) nofun nofun (hlater.trans hbr.later) fun hg => ?_
    refine ⟨s.here, .refl _, hexits (hbr.later.stream.trans hg) _ _ fun _ => ?_⟩
    exact ⟨step, hkind ▸ hstep, hbr.jumps hF hg⟩

/-! ### Return and try -/

/-- A `return` is added unless control does not get that far. -/
def LeavesFn (s s' : State) : Prop :=
  s.stream.isTerminated = true ∧ s = s' ∨
    s.stream.isTerminated = false ∧ ∃ operand, Appends (.ret operand) s s'

theorem returns_retUnlessTerminated {α : Type} {operand : Option InstId}
    {location : Option Location} {gen : Bool} {rest : LowerM α} {a : α}
    (h : Returns (do
      if !(← isTerminated) then
        let _ ← emitWith (.ret operand) scope location false gen
      rest) env s a s') : ∃ u, LeavesFn s u ∧ Returns rest env u a s' := by
  replace h := returns_isTerminated_bind h
  dsimp only at h
  split at h
  next ht =>
    obtain ⟨v, u, h₁, h⟩ := returns_bind.1 h
    exact ⟨u, .inr ⟨by simpa using ht, operand, (returns_emitWith h₁).2⟩, h⟩
  next ht => exact ⟨s, .inl ⟨by simpa using ht, rfl⟩, h⟩

/-- The code that leaves the function: the deferred statements that are owed, then a `return`. -/
theorem Follower.exits_leaves (hp : Follower F tests env cs parts) (hF : F.Coherent)
    {o : Outcome} (ho : o = .returned ∨ o = .failed) {path : ExitPath}
    (hpath : ∀ kind, path.runs kind = o.runs kind) (hs : Ready env cs s scope)
    (hd : s.scopes.inDeferredBody scope = false) (ht : s.stream.isTerminated = false) {x : PUnit}
    (h₁ : Returns (runDefers parts scope none path) env s x u) (h₂ : LeavesFn u s') :
    Later s s' ∧
      (s'.stream.Grows F → ∀ fed G, Exits F tests fed G (s.layers scope) o s.here) := by
  obtain ⟨l, haims, hfn⟩ := hs.body.aims_of_return hs.fine hd ho
  obtain ⟨hlater, hexits⟩ := hp.exits_runDefers hpath hs haims ht h₁
  rcases h₂ with ⟨hterm, rfl⟩ | ⟨-, operand, hret⟩
  · exact ⟨hlater, fun hg fed G => hexits hg fed G fun hf => absurd (hterm.symm.trans hf) nofun⟩
  · refine ⟨hlater.trans hret.later, fun hg fed G => ?_⟩
    refine hexits (hret.later.stream.trans hg) fed G fun _ => ?_
    rcases ho with rfl | rfl <;> exact ⟨hfn, hret.halts hF hg⟩

/-- The code goes on in one of two blocks. -/
structure Branches (F : Stream) (tests : Nat → Bool) (s s' : State) (yes no : BlockId) : Prop where
  pending : Pending s s' [yes, no]
  walk : s'.stream.Grows F → ∀ w,
    Walk F tests (s.here, w) (.start (if tests w.asked then yes else no), w.ask)

variable (tests) in
/-- A value is tested for being an error. -/
theorem branches_isErr (hF : F.Coherent) (hs : Fine s) {a₁ a₂ a₃ : State} {yes no : BlockId}
    {kind : InstKind} {cond : InstId} {name name' : String} (h₁ : Appends kind s a₁)
    (hk : kind.isSilent = true) (h₂ : Returns (newBlock name) env a₁ yes a₂)
    (h₃ : Returns (newBlock name') env a₂ no a₃) (h₄ : Appends (.condBr cond yes no) a₃ s') :
    Branches F tests s s' yes no := by
  obtain ⟨hyes, hadds⟩ := ((Pending.start hs).trans h₁.later).newBlock h₂
  obtain ⟨hno, hadds'⟩ := hyes.newBlock h₃
  refine ⟨hno.trans h₄.later, fun hg w => ?_⟩
  have hg₁ := ((hadds.later.trans hadds'.later).trans h₄.later).stream.trans hg
  refine (h₁.silent hF hg₁ hk w).trans ?_
  rw [← hadds.here, ← hadds'.here]
  exact h₄.asks hF hg

/-- The code for an error: the function is left, and the code goes on where there is none. -/
theorem Follower.exits_onError (hp : Follower F tests env cs parts) (hF : F.Coherent)
    {yes no : BlockId} {a₁ a₂ a₃ a₄ : State} (hs : Ready env cs s scope)
    (hd : s.scopes.inDeferredBody scope = false) (hbr : Branches F tests s a₁ yes no)
    (hcode : Later { a₁ with stream := a₁.stream.goto yes } a₂)
    (hgoesOn : a₂.stream.isTerminated = false)
    (hsilent : a₂.stream.Grows F → Silent F tests (.start yes) a₂.here) {x : PUnit}
    (h₁ : Returns (runDefers parts scope none .error) env a₂ x a₃) (h₂ : LeavesFn a₃ a₄) :
    Enters s a₄ { a₄ with stream := a₄.stream.goto no } no ∧
      (a₄.stream.Grows F → ∀ w,
        (tests w.asked = true → ∃ p, Walk F tests (s.here, w) (p, w.ask) ∧
          ∀ fed G, Exits F tests fed G (s.layers scope) .failed p) ∧
        (tests w.asked = false → Walk F tests (s.here, w) (.start no, w.ask))) := by
  obtain ⟨hyes, hpending⟩ := hbr.pending.enters
  have hlater₂ := hyes.later.trans hcode
  have hd₂ := (hlater₂.inDeferredBody_eq hs.fine hs.body.lt).trans hd
  obtain ⟨hlater, hexits⟩ := hp.exits_leaves hF (o := .failed) (.inr rfl)
    (by rintro (_ | _) <;> rfl) (hs.later hlater₂) hd₂ hgoesOn h₁ h₂
  obtain ⟨hno, -⟩ := (hpending.trans (hcode.trans hlater)).enters
  refine ⟨hno, fun hg w => ?_⟩
  have hg₂ := hlater.stream.trans hg
  have hwalk := hbr.walk (hyes.stream.trans (hcode.stream.trans hg₂)) w
  refine ⟨fun htest => ⟨a₂.here, ?_, fun fed G => ?_⟩, fun htest => ?_⟩
  · rw [if_pos htest] at hwalk
    exact hwalk.trans (hsilent hg₂ _)
  · rw [← hs.layers_eq hlater₂]
    exact hexits hg fed G
  · rwa [if_neg (by simp [htest])] at hwalk

theorem Follower.runs_lowerTry (hp : Follower F tests env cs parts) (hF : F.Coherent) {expr : Node}
    {c : String} (hcalled : expr.called? = some c) (hc : c ∈ cs) (hs : Ready env cs s scope)
    (h : Returns (lowerTry parts node expr scope .discard) env s v s') :
    Runs F tests s s' scope (.tryCall c) := by
  rw [lowerTry] at h
  obtain ⟨x, t, h₁, h⟩ := returns_bind.1 h
  obtain ⟨rfl, hd, -⟩ := returns_checkFnExit h₁
  obtain ⟨value, s₁, h₂, h⟩ := returns_bind.1 h
  have hcall := hp.call hcalled hc hs rfl (by decide) h₂
  have hs₁ := hs.later hcall.later
  obtain ⟨isErr, s₂, h₃, h⟩ := returns_bind.1 h
  obtain ⟨-, hisErr⟩ := returns_emitWith h₃
  obtain ⟨errBlock, s₃, h₄, h⟩ := returns_bind.1 h
  obtain ⟨okBlock, s₄, h₅, h⟩ := returns_bind.1 h
  obtain ⟨j, s₅, h₆, h⟩ := returns_bind.1 h
  obtain ⟨-, hcondBr⟩ := returns_emitWith h₆
  have hbr := branches_isErr tests hF hs₁.fine hisErr rfl h₄ h₅ hcondBr
  rw [goto, returns_modify_bind] at h
  obtain ⟨code, s₆, h₇, h⟩ := returns_bind.1 h
  obtain ⟨-, hcode⟩ := returns_emitWith h₇
  obtain ⟨y, s₇, h₈, h⟩ := returns_bind.1 h
  obtain ⟨s₈, hleaves, h⟩ := returns_retUnlessTerminated h
  rw [goto, returns_modify_bind, emitTo] at h
  obtain ⟨payload, s₉, h₉, h⟩ := returns_bind.1 h
  obtain ⟨-, hpayload⟩ := returns_emitWith h₉
  obtain rfl := (returns_deliver rfl (by decide) h).2
  have hd₁ := (hcall.later.inDeferredBody_eq hs.fine hs.body.lt).trans hd
  obtain ⟨herrPath, -⟩ := hbr.pending.enters
  obtain ⟨hno, hexits⟩ := hp.exits_onError hF hs₁ hd₁ hbr hcode.later
    (hcode.isTerminated (herrPath.later.fine hs₁.fine))
    (fun hg => herrPath.here ▸ hcode.silent hF hg rfl) h₈ hleaves
  have hgoesOn := hpayload.isTerminated (hno.later.fine hs₁.fine)
  refine ⟨hcall.later.trans (hno.later.trans hpayload.later), fun hg m w => ?_⟩
  have hg₈ := hno.stream.trans (hpayload.later.stream.trans hg)
  have hcalls := hcall.calls ((hno.later.trans hpayload.later).stream.trans hg) w
  obtain ⟨hfails, hgoes⟩ := hexits hg₈ (w.call c)
  refine .of_walk hcalls ?_
  rw [Stmt.exec]
  cases htest : tests (w.call c).asked with
  | true =>
    obtain ⟨p, hwalk, hp⟩ := hfails htest
    refine .of_arrives (by simp) hwalk ?_
    rw [hs.layers_eq hcall.later] at hp
    exact hp _ _
  | false =>
    exact (follows_done hgoesOn (hno.here ▸ hpayload.silent hF hg rfl) m _).of_walk (hgoes htest)

/-- A value that turns out to be an error leaves the function, and the code goes on otherwise. -/
theorem Follower.exits_emitErrReturn (hp : Follower F tests env cs parts) (hF : F.Coherent)
    {value : InstId} {x : PUnit} (hs : Ready env cs s scope)
    (hd : s.scopes.inDeferredBody scope = false)
    (h : Returns (emitErrReturn parts node value scope) env s x s') :
    Later s s' ∧ s'.stream.isTerminated = false ∧ (s'.stream.Grows F → ∀ w,
      (tests w.asked = true → ∃ p, Walk F tests (s.here, w) (p, w.ask) ∧
        ∀ fed G, Exits F tests fed G (s.layers scope) .failed p) ∧
      (tests w.asked = false → Walk F tests (s.here, w) (s'.here, w.ask))) := by
  rw [emitErrReturn] at h
  obtain ⟨isErr, s₂, h₃, h⟩ := returns_bind.1 h
  obtain ⟨-, hisErr⟩ := returns_emitWith h₃
  obtain ⟨errBlock, s₃, h₄, h⟩ := returns_bind.1 h
  obtain ⟨okBlock, s₄, h₅, h⟩ := returns_bind.1 h
  obtain ⟨j, s₅, h₆, h⟩ := returns_bind.1 h
  obtain ⟨-, hcondBr⟩ := returns_emitWith h₆
  have hbr := branches_isErr tests hF hs.fine hisErr rfl h₄ h₅ hcondBr
  rw [goto, returns_modify_bind] at h
  obtain ⟨y, s₇, h₈, h⟩ := returns_bind.1 h
  obtain ⟨s₈, hleaves, h⟩ := returns_retUnlessTerminated h
  obtain rfl := returns_modify.1 h
  obtain ⟨herrPath, -⟩ := hbr.pending.enters
  obtain ⟨hno, hexits⟩ := hp.exits_onError hF hs hd hbr (.refl _) herrPath.goesOn
    (fun _ => herrPath.here ▸ .refl _) h₈ hleaves
  refine ⟨hno.later, hno.goesOn, fun hg w => ?_⟩
  rw [hno.here]
  exact hexits (hno.stream.trans hg) w

/-- The end of a `return`. -/
theorem Follower.exits_lowerReturn (hp : Follower F tests env cs parts) (hF : F.Coherent)
    {operand : Option InstId} (hs : Ready env cs s scope)
    (hd : s.scopes.inDeferredBody scope = false) (ht : s.stream.isTerminated = false)
    (h : Returns (do
      runDefers parts scope none .normal
      if ← isTerminated then lastInst else emit (.ret operand) scope node.location) env s v s') :
    Later s s' ∧
      (s'.stream.Grows F → ∀ fed G, Exits F tests fed G (s.layers scope) .returned s.here) := by
  obtain ⟨x, u, h₁, h⟩ := returns_bind.1 h
  refine hp.exits_leaves hF (.inl rfl) (by rintro (_ | _) <;> rfl) hs hd ht h₁ ?_
  exact (returns_unlessTerminated h).imp_right fun ⟨hterm, hr⟩ =>
    ⟨hterm, operand, (returns_emitWith hr).2⟩

theorem Follower.runs_lowerReturn (hp : Follower F tests env cs parts) (hF : F.Coherent)
    (hs : Ready env cs s scope) (ht : s.stream.isTerminated = false)
    (h : Returns (lowerReturn parts node none scope) env s v s') :
    Runs F tests s s' scope .ret := by
  rw [lowerReturn] at h
  obtain ⟨x, t, h₁, h⟩ := returns_bind.1 h
  obtain ⟨rfl, hd, -⟩ := returns_checkFnExit h₁
  dsimp only at h
  rw [pure_bind] at h
  replace h := returns_scopesFrom_bind h
  simp only [ite_self] at h
  obtain ⟨hlater, hexits⟩ := hp.exits_lowerReturn hF hs hd ht h
  exact .of_exits (fun _ _ _ => rfl) nofun nofun hlater fun hg => ⟨s.here, .refl _, hexits hg _ _⟩

theorem Follower.runs_lowerReturn_call (hp : Follower F tests env cs parts) (hF : F.Coherent)
    {value : Node} {c : String} (hcalled : value.called? = some c) (hc : c ∈ cs)
    (hs : Ready env cs s scope)
    (h : Returns (lowerReturn parts node (some value) scope) env s v s') :
    Runs F tests s s' scope (.retCall c) := by
  rw [lowerReturn] at h
  obtain ⟨x, t, h₁, h⟩ := returns_bind.1 h
  obtain ⟨rfl, hd, -⟩ := returns_checkFnExit h₁
  dsimp only at h
  obtain ⟨operand, s₁, h₂, h⟩ := returns_bind.1 h
  obtain ⟨i, rfl, hvalue⟩ := returns_map.1 h₂
  have hcall := hp.call hcalled hc hs rfl (by decide) hvalue
  have hs₁ := hs.later hcall.later
  have hd₁ := (hcall.later.inDeferredBody_eq hs.fine hs.body.lt).trans hd
  replace h := returns_scopesFrom_bind h
  rw [hs₁.body.passesErrDefer_eq hs₁.fine, hs.layers_eq hcall.later] at h
  cases harmed : armed (s.layers scope) with
  | false =>
    rw [harmed, if_neg Bool.false_ne_true] at h
    obtain ⟨hlater, hexits⟩ := hp.exits_lowerReturn hF hs₁ hd₁ hcall.goesOn h
    refine ⟨hcall.later.trans hlater, fun hg m w => ?_⟩
    rw [harmed, Stmt.exec, if_neg Bool.false_ne_true, ← hs.layers_eq hcall.later]
    exact .of_arrives (by simp) (hcall.calls (hlater.stream.trans hg) w) (hexits hg _ _)
  | true =>
    -- The value is tested, for an error owes more than a return.
    rw [harmed, if_pos rfl] at h
    obtain ⟨y, s₂, h₃, h⟩ := returns_bind.1 h
    obtain ⟨htest, hgoesOn, hfails⟩ := hp.exits_emitErrReturn hF hs₁ hd₁ h₃
    have hd₂ := (htest.inDeferredBody_eq hs₁.fine hs₁.body.lt).trans hd₁
    obtain ⟨hlater, hexits⟩ := hp.exits_lowerReturn hF (hs₁.later htest) hd₂ hgoesOn h
    refine ⟨(hcall.later.trans htest).trans hlater, fun hg m w => ?_⟩
    have hg₂ := hlater.stream.trans hg
    refine .of_walk (hcall.calls (htest.stream.trans hg₂) w) ?_
    rw [harmed, Stmt.exec, if_pos rfl, ← hs.layers_eq hcall.later]
    obtain ⟨herr, hok⟩ := hfails hg₂ (w.call c)
    cases hanswer : tests (w.call c).asked with
    | true =>
      obtain ⟨p, hwalk, hp⟩ := herr hanswer
      exact .of_arrives (by simp) hwalk (hp _ _)
    | false =>
      refine .of_arrives (by simp) (hok hanswer) ?_
      rw [← hs₁.layers_eq htest]
      exact hexits hg _ _

end SourceIr.Lower
