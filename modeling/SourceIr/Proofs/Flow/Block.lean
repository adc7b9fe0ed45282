import SourceIr.Proofs.Flow.Follow

/-!
# Code that follows blocks

The code of a block does what the block does when it runs, if the code of its parts does.

* `Enters`, `AddsBlock`, `returns_branchInto`, `returns_joinAt`: how the blocks of a construct are
  made, gone to and joined;
* `Follower.follows_blockBody`, the statements of a block with the deferred ones among them;
* `Follower.runs_lowerBlock`.
-/

namespace SourceIr.Lower

open SourceIr.Stream

variable {F : Stream} {tests : Nat → Bool} {env : Env} {cs : List String} {parts : Parts}
  {s₀ s s' t u : State} {scope : ScopeId} {node : Node} {v : InstId} {b : BlockId}

/-! ### Blocks of the stream -/

/-- A block is added to the stream. -/
structure AddsBlock (s s' : State) (b : BlockId) : Prop where
  later : Later s s'
  waiting : Waiting s' b
  new : s.stream.blocks.size ≤ b.index
  here : s'.here = s.here
  isTerminated : s'.stream.isTerminated = s.stream.isTerminated

theorem returns_newBlock {name : String} (hs : Fine s)
    (h : Returns (newBlock name) env s b s') : AddsBlock s s' b := by
  rw [newBlock, returns_get_bind] at h
  obtain ⟨_, t, h₁, h⟩ := returns_bind.1 h
  obtain rfl := returns_set.1 h₁
  obtain ⟨rfl, rfl⟩ := returns_pure.1 h
  refine ⟨later_newBlock, waiting_newBlock hs, Nat.le_refl _, rfl, ?_⟩
  rw [Bool.eq_iff_iff, hs.stream.isTerminated_iff]
  exact (hs.stream.newBlock name).isTerminated_iff

/-- The blocks that were made since the state `s₀` and that are still to be filled. -/
structure Pending (s₀ s : State) (bs : List BlockId) : Prop where
  fine : Fine s₀
  later : Later s₀ s
  nodup : bs.Nodup
  waiting : ∀ b ∈ bs, Waiting s b
  new : ∀ b ∈ bs, s₀.stream.blocks.size ≤ b.index

/-- A block is gone to that was not there in the state `s₀`. -/
structure Enters (s₀ s s' : State) (b : BlockId) : Prop where
  later : Later s₀ s'
  stream : s.stream.Grows s'.stream
  here : s'.here = .start b
  goesOn : s'.stream.isTerminated = false
  fed : ∀ x, Fed s x → Fed s' x

namespace Pending

variable {bs : List BlockId}

theorem start (hs : Fine s) : Pending s s [] := ⟨hs, .refl s, .nil, nofun, nofun⟩

theorem trans (h : Pending s₀ s bs) (hl : Later s s') : Pending s₀ s' bs :=
  ⟨h.fine, h.later.trans hl, h.nodup, fun b hb => hl.waiting (h.waiting b hb), h.new⟩

theorem newBlock {name : String} (h : Pending s₀ s bs)
    (hr : Returns (newBlock name) env s b s') :
    Pending s₀ s' (bs ++ [b]) ∧ AddsBlock s s' b := by
  have ha := returns_newBlock (h.later.fine h.fine) hr
  refine ⟨⟨h.fine, h.later.trans ha.later, ?_, fun c hc => ?_, fun c hc => ?_⟩, ha⟩
  · refine List.nodup_append.2 ⟨h.nodup, by simp, fun c hc d hd => ?_⟩
    obtain rfl := List.mem_singleton.1 hd
    rintro rfl
    exact absurd (h.waiting c hc).lt (Nat.not_lt.2 ha.new)
  · rcases List.mem_append.1 hc with hc | hc
    · exact ha.later.waiting (h.waiting c hc)
    · exact List.mem_singleton.1 hc ▸ ha.waiting
  · rcases List.mem_append.1 hc with hc | hc
    · exact h.new c hc
    · exact List.mem_singleton.1 hc ▸ Nat.le_trans h.later.stream.blocks ha.new

/-- The first of the blocks is gone to. -/
theorem enters (h : Pending s₀ s (b :: bs)) :
    Enters s₀ s { s with stream := s.stream.goto b } b ∧
      Pending s₀ { s with stream := s.stream.goto b } bs := by
  obtain ⟨hnot, hnodup⟩ := List.nodup_cons.1 h.nodup
  have hb : Waiting s b := h.waiting b (by simp)
  have hlater := h.later.goto (h.new b (by simp)) hb.lt
  refine ⟨⟨hlater, ⟨fun _ _ => id, Nat.le_refl _⟩, hb.here_goto, ?_, fun x hx => ⟨hx.lt, hx.sink⟩⟩,
    h.fine, hlater, hnodup, fun c hc => ?_, fun c hc => h.new c (by simp [hc])⟩
  · rw [Bool.eq_false_iff]
    intro ht
    obtain ⟨x, hx, -⟩ := (hlater.fine h.fine).stream.isTerminated_iff.1 ht
    rw [show (s.stream.goto b).instsIn (s.stream.goto b).currentBlock = [] from hb.empty] at hx
    cases hx
  · exact (h.waiting c (by simp [hc])).goto fun e => hnot (e ▸ hc)

end Pending

/-! ### Ends of branches -/

variable (tests) in
/-- Control goes on at a join if a value arrives there. -/
theorem returns_joinAt (hF : F.Coherent) {incoming : List (BlockId × InstId)}
    (hpending : Pending s₀ s [b])
    (h : Returns (joinAt b incoming scope node) env s v s') :
    Later s₀ s' ∧ s.stream.Grows s'.stream ∧ (∀ x, Fed s x → Fed s' x) ∧ (incoming ≠ [] →
      s'.stream.isTerminated = false ∧
        (s'.stream.Grows F → Silent F tests (.start b) s'.here)) := by
  rw [joinAt, goto, returns_modify_bind] at h
  obtain ⟨hgoto, -⟩ := hpending.enters
  cases incoming with
  | nil =>
    obtain ⟨-, ha⟩ := returns_emitWith h
    exact ⟨hgoto.later.trans ha.later, hgoto.stream.trans ha.later.stream,
      fun x hx => ha.later.fed x (hgoto.fed x hx), fun hne => absurd rfl hne⟩
  | cons f rest =>
    obtain ⟨-, ha⟩ := returns_emitWith h
    refine ⟨hgoto.later.trans ha.later, hgoto.stream.trans ha.later.stream,
      fun x hx => ha.later.fed x (hgoto.fed x hx), fun _ => ⟨?_, ?_⟩⟩
    · exact ha.isTerminated (hgoto.later.fine hpending.fine)
    · intro hg
      rw [← hgoto.here]
      exact ha.silent hF hg rfl

variable (tests) in
/-- A branch goes on at the end of the construct, unless control does not get that far. -/
theorem returns_branchInto (hF : F.Coherent) {incoming r : List (BlockId × InstId)}
    {value : InstId} {force : Bool}
    (h : Returns (branchInto b incoming value scope force) env s r s') :
    Later s s' ∧ (incoming ≠ [] → r ≠ []) ∧ (s.stream.isTerminated = false →
      r ≠ [] ∧ (s'.stream.Grows F → Silent F tests s.here (.start b))) := by
  rw [branchInto] at h
  replace h := returns_isTerminated_bind h
  split at h
  next ht =>
    obtain ⟨rfl, rfl⟩ := returns_pure.1 h
    exact ⟨.refl _, id, fun hf => absurd (ht.symm.trans hf) nofun⟩
  next =>
    obtain ⟨source, s₁, h₁, h⟩ := returns_bind.1 h
    obtain rfl : s = s₁ := by
      rw [currentBlock, returns_get_bind] at h₁
      exact (returns_pure.1 h₁).2.symm
    obtain ⟨j, s₂, h₂, h⟩ := returns_bind.1 h
    obtain ⟨-, ha⟩ := returns_emitWith h₂
    obtain ⟨rfl, rfl⟩ := returns_pure.1 h
    exact ⟨ha.later, fun _ => by simp, fun _ => ⟨by simp, fun hg => ha.jumps hF hg⟩⟩

/-! ### Sinks -/

theorem Opens.openSink {parent : ScopeId} {kind : ScopeKind} (h : Opens s t parent kind)
    (loc : ResultLoc) :
    Opens s { t with sinks := (⟨s.scopes.scopes.size⟩, ⟨loc, []⟩) :: t.sinks } parent kind :=
  ⟨h.later.openSink (Nat.le_refl _) loc, h.scope, h.stream⟩

/-- A sink that something has flowed into gives a value to the join. -/
theorem returns_closeSink {block : ScopeId} {r : List (BlockId × InstId)} (h₀ : Later s₀ s)
    (hnew : s₀.scopes.scopes.size ≤ block.index) (ho : (s.sinks.lookup block).isSome)
    (h : Returns (closeSink block) env s r s') :
    Later s₀ s' ∧ s'.stream = s.stream ∧ (∀ x, Fed s x → Fed s' x) ∧
      (Fed s block → r ≠ []) := by
  rw [closeSink, returns_get_bind] at h
  obtain ⟨_, t, h₁, h⟩ := returns_bind.1 h
  obtain rfl := returns_set.1 h₁
  obtain ⟨rfl, rfl⟩ := returns_pure.1 h
  refine ⟨h₀.closeSink hnew, rfl, fun x hx => ⟨hx.lt, fun sink hsink => ?_⟩, fun hfed => ?_⟩
  · rw [lookup_closeSink] at hsink
    split at hsink
    · cases hsink
    · exact hx.sink sink hsink
  · obtain ⟨sink, hsink⟩ := Option.isSome_iff_exists.1 ho
    rw [hsink]
    exact hfed.sink sink hsink

/-! ### Blocks -/

/-- What the code of a block does: its statements, and at its end the deferred ones among them. -/
theorem Follower.follows_blockBody (hp : Follower F tests env cs parts) {label : Option String}
    {stop : Option BlockId} {statements : List Node} {R : Stmt} {last block : ScopeId}
    {x : PUnit} (hR : Node.stmts? statements = some R) (hc : ∀ c ∈ R.callees, c ∈ cs)
    (hs : Ready env cs s scope) (ht : s.stream.isTerminated = false)
    (hopens : Opens s t scope (.block label stop)) (hblock : block = ⟨s.scopes.scopes.size⟩)
    (h₁ : Returns (lowerStatements parts block false statements) env t last u)
    (h₂ : u.stream.isTerminated = true ∧ s' = u ∨ u.stream.isTerminated = false ∧
      Returns (runDefers parts last (some block) .normal) env u x s') :
    Later t s' ∧ ∃ d, (s'.stream.Grows F → ∀ fed G, (∀ x, Fed s' x → fed x) →
      (s'.stream.isTerminated = false → G s'.here) → ∀ m w,
      Follows F tests m (s.here, w) (R.exec tests m (armed (s.layers scope)) w)
        (Exits F tests fed G (⟨block, .block label stop, d⟩ :: s.layers scope))) := by
  subst hblock
  obtain ⟨d, hlayers⟩ := hopens.layers hs.fine hs.body
  have hready : Ready env cs t ⟨s.scopes.scopes.size⟩ :=
    ⟨hopens.later.fine hs.fine, hopens.inBody hs.fine hs.body rfl nofun⟩
  let layer : Layer := ⟨⟨s.scopes.scopes.size⟩, .block label stop, d⟩
  have haims : Aims .done (some layer.id) (t.layers ⟨s.scopes.scopes.size⟩) layer := by
    rw [hlayers]
    exact .here (by cases label <;> rfl) (.inl rfl)
  obtain ⟨hlater, hlast, haims, hf⟩ := hp.follows_lowerStatements hR hc hready (hopens.stream ▸ ht)
    hready.body.lt haims h₁
  rw [hopens.here, hlayers] at hf
  rcases h₂ with ⟨hterm, rfl⟩ | ⟨hterm, h₂⟩
  · refine ⟨hlater, d, fun hg fed G hfed _ m w => ?_⟩
    exact hf hg fed G hfed (fun h => absurd (hterm.symm.trans h) nofun) m w
  · rw [runDefers] at h₂
    replace h₂ := returns_scopesFrom_bind h₂
    obtain ⟨hlater₂, hexits⟩ := hp.exits_runDefersIn (o := .done)
      (by rintro (_ | _) <;> rfl) haims hlast rfl hterm h₂
    refine ⟨hlater.trans hlater₂, d, fun hg fed G hfed hG m w => ?_⟩
    refine hf (hlater₂.stream.trans hg) fed G (fun y hy => hfed y (hlater₂.fed y hy))
      (fun _ => ?_) m w
    exact hexits hg fed G hG

/-- A run that has ended otherwise than by going on passes a layer. -/
theorem Exits.ends {l : Layer} {ls : List Layer} {o : Outcome} {p : Pos} {fed : ScopeId → Prop}
    {G : Pos → Prop} (h : Exits F tests fed G (l :: ls) o p) (ho : o ≠ .done)
    (ht : l.takes o = false) (hpassing : l.passing? o = none) (hfed : ∀ x, fed x → Fed s x) :
    Ends F tests s ls o p := by
  rw [Ends, if_neg ho]
  exact ((exits_cons_of_passes ht hpassing).1 h).mono hfed fun e => absurd e ho

/-- Where the end of the code is reached, its run is done. -/
theorem follows_done {ls : List Layer} {p : Pos} (ht : s.stream.isTerminated = false)
    (h : Silent F tests p s.here) (m : Nat) (w : Track) :
    Follows F tests m (p, w) (.done, w) (Ends F tests s ls) := by
  refine .of_arrives nofun (h w) ?_
  rw [Ends, if_pos rfl]
  exact ⟨ht, rfl⟩

/-- The value of a block without a label is added where its end is reached. -/
theorem returns_blockValue (hF : F.Coherent) (hs : Fine s)
    (h : Returns (do
      let terminated ← isTerminated
      let stream := (← get).stream
      match if terminated then stream.last? else none with
      | some stop => return stop
      | none =>
        let void ← emitVoid scope node.location
        deliver void .discard scope node.location) env s v s') :
    Later s s' ∧ (s.stream.isTerminated = false → s'.stream.isTerminated = false ∧
      (s'.stream.Grows F → Silent F tests s.here s'.here)) := by
  replace h := returns_isTerminated_bind h
  rw [returns_get_bind] at h
  dsimp only at h
  split at h
  next heq =>
    obtain ⟨rfl, rfl⟩ := returns_pure.1 h
    refine ⟨.refl _, fun ht => ?_⟩
    simp [ht] at heq
  next =>
    obtain ⟨void, s₁, h₁, h⟩ := returns_bind.1 h
    obtain ⟨-, ha⟩ := returns_emitWith h₁
    obtain ⟨rfl, rfl⟩ := returns_deliver rfl (by decide) h
    exact ⟨ha.later, fun _ => ⟨ha.isTerminated hs, fun hg => ha.silent hF hg rfl⟩⟩

theorem Follower.runs_lowerPlainBlock (hp : Follower F tests env cs parts) (hF : F.Coherent)
    {statements : List Node} {R : Stmt} (hR : Node.stmts? statements = some R)
    (hc : ∀ c ∈ R.callees, c ∈ cs) (hs : Ready env cs s scope)
    (ht : s.stream.isTerminated = false)
    (h : Returns (lowerPlainBlock parts node statements scope .discard) env s v s') :
    Runs F tests s s' scope (.block none R) := by
  rw [lowerPlainBlock] at h
  obtain ⟨block, s₁, h₁, h⟩ := returns_bind.1 h
  obtain ⟨hblock, hopens⟩ := returns_openScope hs.body.lt h₁
  obtain ⟨last, s₂, h₂, h⟩ := returns_bind.1 h
  replace h := returns_isTerminated_bind h
  dsimp only at h
  obtain ⟨x, u, hend, hvalue⟩ : ∃ x u, (s₂.stream.isTerminated = true ∧ u = s₂ ∨
      s₂.stream.isTerminated = false ∧
        Returns (runDefers parts last (some block) .normal) env s₂ x u) ∧
      Returns (do
        let terminated ← isTerminated
        let stream := (← get).stream
        match if terminated then stream.last? else none with
        | some stop => return stop
        | none =>
          let void ← emitVoid scope node.location
          deliver void .discard scope node.location) env u v s' := by
    split at h
    next hterm =>
      obtain ⟨x, u, h₃, h⟩ := returns_bind.1 h
      exact ⟨x, u, .inr ⟨by simpa using hterm, h₃⟩, h⟩
    next hterm => exact ⟨⟨⟩, s₂, .inl ⟨by simpa using hterm, rfl⟩, h⟩
  obtain ⟨hlater, d, hf⟩ := hp.follows_blockBody hR hc hs ht hopens hblock h₂ hend
  have hlater' := hopens.later.trans hlater
  obtain ⟨hvlater, hsilent⟩ := returns_blockValue hF (hlater'.fine hs.fine) hvalue
  refine ⟨hlater'.trans hvlater, fun hg m w => ?_⟩
  have hbody := hf (hvlater.stream.trans hg) (Fed s')
    (fun p => s'.stream.isTerminated = false ∧ Silent F tests p s'.here) hvlater.fed
    (fun ht => ⟨(hsilent ht).1, (hsilent ht).2 hg⟩) m w
  rw [Stmt.exec_block]
  dsimp only
  generalize R.exec tests m (armed (s.layers scope)) w = r at hbody ⊢
  simp only [Outcome.leavesBlock_none, Bool.false_eq_true, if_false]
  refine hbody.andThen (fun _ => rfl) fun ho p hexits => ?_
  by_cases hdone : r.1 = .done
  · rw [hdone, exits_cons_of_takes rfl] at hexits
    rw [hdone]
    exact follows_done hexits.1 hexits.2 m r.2
  · refine .of_arrives ho (.refl _) (hexits.ends hdone ?_ rfl fun _ => id)
    rw [takes_block hdone, Outcome.leavesBlock_none]

/-- The end of a block with a label is reached as by a `break`. -/
theorem returns_flowOut (hF : F.Coherent) {block : ScopeId}
    (hb : block.index < s.scopes.scopes.size) {x : PUnit}
    (h : Returns (do
      let void ← emitVoid scope node.location
      flowInto block void
      let _ ← emitGen (.br b) scope node.location) env s x s') :
    Later s s' ∧ Fed s' block ∧ (s'.stream.Grows F → Silent F tests s.here (.start b)) := by
  obtain ⟨void, s₁, h₁, h⟩ := returns_bind.1 h
  obtain ⟨-, ha⟩ := returns_emitWith h₁
  rw [flowInto, returns_modify_bind] at h
  obtain ⟨j, s₂, h₂, h⟩ := returns_bind.1 h
  obtain ⟨-, hbr⟩ := returns_emitWith h₂
  obtain ⟨rfl, rfl⟩ := returns_pure.1 h
  have hflow := later_flowInto (s := s₁) block s₁.stream.currentBlock void
  refine ⟨(ha.later.trans hflow).trans hbr.later, ?_, fun hg => ?_⟩
  · exact hbr.later.fed block (fed_flowInto (ha.later.lt_scopes hb) _ _)
  · have hg₁ := hbr.later.stream.trans hg
    exact (ha.silent hF hg₁ rfl).trans (hbr.jumps hF hg)

theorem Follower.runs_lowerLabelledBlock (hp : Follower F tests env cs parts) (hF : F.Coherent)
    {label : String} {statements : List Node} {R : Stmt} (hR : Node.stmts? statements = some R)
    (hc : ∀ c ∈ R.callees, c ∈ cs) (hs : Ready env cs s scope)
    (ht : s.stream.isTerminated = false)
    (h : Returns (lowerLabelledBlock parts node label statements scope .discard) env s v s') :
    Runs F tests s s' scope (.block (some label) R) := by
  rw [lowerLabelledBlock] at h
  obtain ⟨loc, t, h₀, h⟩ := returns_bind.1 h
  obtain ⟨rfl, hst⟩ := returns_settle (by decide) h₀
  obtain rfl : s = t := hst.symm
  obtain ⟨stop, s₁, h₁, h⟩ := returns_bind.1 h
  obtain ⟨hpending, hadds⟩ := (Pending.start hs.fine).newBlock h₁
  have hs₁ := hs.later hadds.later
  obtain ⟨block, s₂, h₂, h⟩ := returns_bind.1 h
  obtain ⟨hblock, hopens⟩ := returns_openScope hs₁.body.lt h₂
  rw [openSink, returns_modify_bind] at h
  subst hblock
  have hopens' := hopens.openSink .discard
  obtain ⟨last, s₃, h₃, h⟩ := returns_bind.1 h
  replace h := returns_isTerminated_bind h
  dsimp only at h
  -- What has been lowered when the sink is closed, however the statements end.
  obtain ⟨x, u, z, hend, hout, hjoin⟩ : ∃ x u z, (s₃.stream.isTerminated = true ∧ u = s₃ ∨
      s₃.stream.isTerminated = false ∧
        Returns (runDefers parts last (some ⟨s₁.scopes.scopes.size⟩) .normal) env s₃ x u) ∧
      (u.stream.isTerminated = true ∧ z = u ∨ u.stream.isTerminated = false ∧
        Returns (do
          let void ← emitVoid scope node.location
          flowInto ⟨s₁.scopes.scopes.size⟩ void
          let _ ← emitGen (.br stop) scope node.location) env u ⟨⟩ z) ∧
      Returns (do joinAt stop (← closeSink ⟨s₁.scopes.scopes.size⟩) scope node) env z v s' := by
    split at h
    next hterm =>
      obtain ⟨x, u, h₄, h⟩ := returns_bind.1 h
      replace h := returns_isTerminated_bind h
      have hterm : s₃.stream.isTerminated = false := by simpa using hterm
      split at h
      next hu =>
        obtain ⟨void, t₁, h₅, h⟩ := returns_bind.1 h
        obtain ⟨y, t₂, h₆, h⟩ := returns_bind.1 h
        obtain ⟨j, t₃, h₇, h⟩ := returns_bind.1 h
        refine ⟨x, u, t₃, .inr ⟨hterm, h₄⟩, .inr ⟨by simpa using hu, ?_⟩, h⟩
        exact returns_bind.2 ⟨void, t₁, h₅, returns_bind.2 ⟨y, t₂, h₆,
          returns_bind.2 ⟨j, t₃, h₇, returns_pure.2 ⟨rfl, rfl⟩⟩⟩⟩
      next hu => exact ⟨x, u, u, .inr ⟨hterm, h₄⟩, .inl ⟨by simpa using hu, rfl⟩, h⟩
    next hterm =>
      have hterm : s₃.stream.isTerminated = true := by simpa using hterm
      exact ⟨⟨⟩, s₃, s₃, .inl ⟨hterm, rfl⟩, .inl ⟨hterm, rfl⟩, h⟩
  obtain ⟨hlater, d, hf⟩ := hp.follows_blockBody hR hc hs₁
    (hadds.isTerminated ▸ ht) hopens' rfl h₃ hend
  -- Where the end of the block is reached, something has flowed into its sink.
  have hflow : Later u z ∧ (u.stream.isTerminated = false → Fed z ⟨s₁.scopes.scopes.size⟩ ∧
      (z.stream.Grows F → Silent F tests u.here (.start stop))) := by
    rcases hout with ⟨hterm, rfl⟩ | ⟨-, hout⟩
    · exact ⟨.refl _, fun hf => absurd (hterm.symm.trans hf) nofun⟩
    · have hlt := hlater.lt_scopes (Array.getElem?_eq_some_iff.1 hopens'.scope).1
      obtain ⟨hz, hfed, hsilent⟩ := returns_flowOut hF hlt hout
      exact ⟨hz, fun _ => ⟨hfed, hsilent⟩⟩
  obtain ⟨incoming, z', h₄, h⟩ := returns_bind.1 hjoin
  have hz : Later s₁ z := (hopens'.later.trans hlater).trans hflow.1
  have hopen : (z.sinks.lookup ⟨s₁.scopes.scopes.size⟩).isSome :=
    (hlater.trans hflow.1).sinks _ (Array.getElem?_eq_some_iff.1 hopens'.scope).1 (by simp)
  obtain ⟨hz', hstream, hfed, hincoming⟩ := returns_closeSink hz (Nat.le_refl _) hopen h₄
  obtain ⟨hlater', hgrows, hfed', hjoin⟩ := returns_joinAt tests hF
    (hpending.trans hz') h
  refine ⟨hlater', fun hg m w => ?_⟩
  have hgz : z.stream.Grows F := (hstream ▸ hgrows).trans hg
  have hfollows := hf (hflow.1.stream.trans hgz) (Fed z)
    (fun p => Silent F tests p (.start stop) ∧ Fed z ⟨s₁.scopes.scopes.size⟩) hflow.1.fed
    (fun ht => ⟨(hflow.2 ht).2 hgz, (hflow.2 ht).1⟩) m w
  have hdone : ∀ (p : Pos) (w : Track), Silent F tests p (.start stop) →
      Fed z ⟨s₁.scopes.scopes.size⟩ →
      Follows F tests m (p, w) (.done, w) (Ends F tests s' (s.layers scope)) := by
    intro p w hp hz
    obtain ⟨hterm, hsilent⟩ := hjoin (hincoming hz)
    exact follows_done hterm (hp.trans (hsilent hg)) m w
  rw [hadds.here, hs.layers_eq hadds.later] at hfollows
  rw [Stmt.exec_block]
  dsimp only
  generalize R.exec tests m (armed (s.layers scope)) w = r at hfollows ⊢
  obtain ⟨o, w'⟩ := r
  refine hfollows.andThen (fun ho => by rw [show o = .stopped from ho]; rfl) fun ho p hexits => ?_
  by_cases hd : o = .done
  · subst hd
    obtain ⟨hp, hz⟩ := (exits_cons_of_takes rfl).1 hexits
    exact hdone p w' hp hz
  cases hl : o.leavesBlock (some label) with
  | true =>
    rw [exits_cons_of_takes ((takes_block hd).trans hl)] at hexits
    cases o with
    | broke l =>
      obtain ⟨stop', hstop, hp, hz⟩ := hexits
      obtain rfl : stop = stop' := Option.some.inj hstop
      exact hdone p w' hp hz
    | _ => cases hl
  | false =>
    exact .of_arrives ho (.refl _)
      (hexits.ends hd ((takes_block hd).trans hl) rfl fun x hx => hfed' x (hfed x hx))

theorem Follower.runs_lowerBlock (hp : Follower F tests env cs parts) (hF : F.Coherent)
    {label : Option String} {statements : List Node} {R : Stmt}
    (hR : Node.stmts? statements = some R) (hc : ∀ c ∈ R.callees, c ∈ cs)
    (hs : Ready env cs s scope) (ht : s.stream.isTerminated = false)
    (h : Returns (lowerBlock parts node label statements scope .discard) env s v s') :
    Runs F tests s s' scope (.block label R) := by
  cases label with
  | none => exact hp.runs_lowerPlainBlock hF hR hc hs ht h
  | some label => exact hp.runs_lowerLabelledBlock hF hR hc hs ht h

end SourceIr.Lower
