import SourceIr.Proofs.Destination.Rules
import SourceIr.Proofs.Jump

/-!
# Branches and jumps that keep to the counts

The routines that branch, jump or change the stream lead every way of control to a block with the
counts that it brings, if the routines for their parts do.

* `TallyParts`, what is relied on for parts;
* deferred expressions, statements and blocks;
* branches, loops, jumps and the streams of compile-time blocks;
* `tallies_lowerLocalVar`, where storage is made that is watched, and `tallies_fillInPlace`, the
  constructs that use their result location themselves;
* `tallyParts_nested`, the routines for parts at every level of nesting.
-/

namespace SourceIr.Lower

open SourceIr.Stream Logic Tally

/-- What is known once an expression has been lowered. -/
structure Tally.Done (k : Probe) (w : Tally) (node : Node) (w' : Tally) (v : InstId) : Prop where
  le : Le w w'
  val : Val k w' v
  ends : node.kind.isJump = true → w'.state.stream.isTerminated = true

/-- What is relied on for the parts of a construct, whatever is watched. -/
structure TallyParts (env : Env) (parts : Parts) : Prop where
  expr : ∀ {k c D w node scope loc}, In k c D w scope → Suits k D node → Dest k c w node loc →
    Tallies k env c (k.after c loc) w (parts.expr node scope loc) (Done k w node)
  statement : ∀ {k c D w node scope}, In k c D w scope → Suits k D node →
    Tallies k env c c w (parts.statement node scope) fun w' inner =>
      Le w w' ∧ In k c D w' inner ∧
        (node.kind.isJump = true → w'.state.stream.isTerminated = true)

variable {env : Env} {k : Probe} {c c' : Set Nat} {D : Option String → Prop}
  {w₀ w w' : Tally} {parts : Parts} {node : Node} {scope : ScopeId}
  {location : Option Location} {loc : ResultLoc} {α β : Type} {v : InstId} {b : BlockId}
  {S : Set Nat} {bs : List (BlockId × Set Nat)} {Q : Tally → α → Prop}

namespace TallyParts

variable (hp : TallyParts env parts)

include hp

/-- A part whose value is brought to what is not watched. -/
theorem elsewhere (hin : In k c D w scope) (hn : Suits k D node)
    (hl : ∀ p ∈ loc.ptr?, Val k w p) :
    Tallies k env c c w (parts.expr node scope loc) (Done k w node) := by
  refine tallies_subset (hp.expr hin hn (dest_of_ptr? hl)) fun w' _ h hlive => ?_
  rw [Probe.after_of_ne]
  rintro rfl
  exact (hl k.ptr rfl).2 (h.le.live hlive) rfl

theorem value (hin : In k c D w scope) (hn : Suits k D node) :
    Tallies k env c c w (parts.value node scope) (Done k w node) :=
  hp.elsewhere hin hn nofun

theorem discard (hin : In k c D w scope) (hn : Suits k D node) :
    Tallies k env c c w (parts.expr node scope .discard) (Done k w node) :=
  hp.elsewhere hin hn nofun

theorem holds : (tallying env k c D).HoldsParts parts :=
  fun _ _ _ _ hn hin hl => tallies_mono (hp.elsewhere hin hn hl) fun _ _ h => ⟨h.le, h.val⟩

end TallyParts

/-! ### What the logic gives -/

theorem tallies_emitTest {payload : Option String} (hin : In k c D w scope) (hv : Val k w v) :
    Tallies k env c c w (emitTest node payload v scope) fun w' v => Le w w' ∧ Val k w' v :=
  holds_emitTest (L := tallying env k c D) hin hv

theorem tallies_enterBranch {payload : Option String} (hin : In k c D w scope) (hv : Val k w v) :
    Tallies k env c c w (enterBranch node payload v scope) fun w' inner =>
      Le w w' ∧ In k c D w' inner :=
  holds_enterBranch (L := tallying env k c D) hv hin

theorem tallies_bindPayload {name : String} (hin : In k c D w scope) (hv : Val k w v) :
    Tallies k env c c w (bindPayload scope name v node) fun w' inner =>
      Le w w' ∧ In k c D w' inner :=
  holds_bindPayload (L := tallying env k c D) hv hin

/-! ### Deferred expressions -/

variable (hp : TallyParts env parts)

include hp in
theorem tallies_runDefer {expr : Node} (he : expr ∈ k.root.nodes)
    (hstart : w.state.stream.insts.size ≤ k.ptr.index → c = {0}) :
    Tallies k env c c w (runDefer parts scope expr) fun w' _ => Le w w' := by
  refine tallies_scopeAt_bind fun x _ => ?_
  refine tallies_bind (tallies_openDeferred (D := fun _ => False) hstart)
    fun w₁ body ⟨le₁, hbody⟩ => ?_
  refine tallies_bind (hp.discard hbody (.of_mem he)) fun w₂ _ d₂ => ?_
  exact tallies_pure (le₁.trans d₂.le)

include hp in
theorem tallies_runDefersIn {path : ExitPath} {defers : List (ScopeId × DeferKind)}
    (hstart : w.state.stream.insts.size ≤ k.ptr.index → c = {0}) :
    Tallies k env c c w (runDefersIn parts path defers) fun w' _ => Le w w' := by
  induction defers generalizing w with
  | nil => exact tallies_pure (.refl w)
  | cons d rest ih =>
    refine tallies_of_sound fun hs => tallies_get_bind ?_
    dsimp only
    split
    · exact ih hstart
    next expr hexpr =>
      have hlookup : w.state.deferred.lookup d.1 = some expr := by
        split at hexpr
        · exact hexpr
        · cases hexpr
      obtain ⟨before, after, hd, -⟩ := List.lookup_eq_some_iff.1 hlookup
      have he : expr ∈ k.root.nodes := hs.deferred (d.1, expr) (by simp [hd])
      refine tallies_bind (tallies_runDefer hp he hstart) fun w₁ _ le₁ => ?_
      refine tallies_isTerminated_bind (fun _ => tallies_pure le₁) fun _ => ?_
      refine tallies_mono (ih fun hle => ?_) fun _ _ le₂ => le₁.trans le₂
      exact hstart (Nat.le_trans le₁.size_le hle)

include hp in
theorem tallies_runDefers {target : Option ScopeId} {path : ExitPath}
    (hstart : w.state.stream.insts.size ≤ k.ptr.index → c = {0}) :
    Tallies k env c c w (runDefers parts scope target path) fun w' _ => Le w w' :=
  tallies_scopesFrom_bind (tallies_runDefersIn hp hstart)

/-! ### Statements and blocks -/

include hp in
/-- Control does not get to the end of statements with a jump among them. -/
theorem tallies_lowerStatements {statements : List Node} (hall : ∀ n ∈ statements, Suits k D n)
    (hin : In k c D w scope) :
    Tallies k env c c w (lowerStatements parts scope false statements) fun w' last =>
      Le w w' ∧ In k c D w' last ∧
        ((w.state.stream.isTerminated = true ∨ ∃ n ∈ statements, n.kind.isJump = true) →
          w'.state.stream.isTerminated = true) := by
  induction statements generalizing w scope with
  | nil => exact tallies_pure ⟨.refl w, hin, by simp⟩
  | cons statement rest ih =>
    refine tallies_isTerminated_bind (fun ht => ?_) fun ht => ?_
    · refine tallies_bind tallies_warnAt fun w₁ _ ⟨le₁, e⟩ => ?_
      exact tallies_pure ⟨le₁, hin.since le₁.toSince, fun _ => e.trans ht⟩
    refine tallies_attempt_bind (hp.statement hin (hall statement (by simp))) ?_ fun t last s' => ?_
    · intro w₁ next ⟨le₁, hnext, hjump⟩
      refine tallies_mono (ih (fun n hn => hall n (by simp [hn])) hnext) ?_
      intro w₂ last ⟨le₂, hlast, hends⟩
      refine ⟨le₁.trans le₂, hlast, fun h => hends ?_⟩
      rcases h with h | ⟨n, hn, hj⟩
      · exact absurd (h.symm.trans ht) (by decide)
      · rcases List.mem_cons.1 hn with rfl | hn
        · exact .inl (hjump hj)
        · exact .inr ⟨n, hn, hj⟩
    · refine not_returns_bind fun _ _ => ?_
      split
      · exact not_returns_throw
      · exact not_returns_lowerStatements

/-- The value of a block, once its scope is left. -/
theorem tallies_blockValue (ha : Dest k c w node loc) :
    Tallies k env c (k.after c loc) w (do
      let terminated ← isTerminated
      let stream := (← get).stream
      match if terminated then stream.last? else none with
      | some stop => return stop
      | none =>
        let void ← emitVoid scope node.location
        deliver void loc scope node.location) fun w' v => Le w w' ∧ Val k w' v := by
  refine tallies_of_sound fun hs => ?_
  refine tallies_isTerminated_bind (fun ht => tallies_get_bind ?_) fun _ => tallies_get_bind ?_
  · obtain ⟨v, hv⟩ := hs.stream.last?_of_isTerminated ht
    simp only [hv, if_true]
    exact tallies_of_empty (tallies_pure_of_isTerminated ht ⟨.refl w, hs.val_of_last? ht hv⟩)
  · refine tallies_bind tallies_emitVoid fun w₁ void ⟨le₁, hv⟩ => ?_
    exact tallies_of_le le₁ (tallies_deliver hv (ha.since le₁.toSince))

include hp in
theorem tallies_lowerPlainBlock {statements : List Node} (hin : In k c D w scope)
    (hk : node.kind = .block none statements) (hn : Suits k D node) (ha : Dest k c w node loc) :
    Tallies k env c (k.after c loc) w (lowerPlainBlock parts node statements scope loc)
      fun w' v => Le w w' ∧ Val k w' v := by
  have hcarried : carried k D node loc = D := carried_eq_of_unlabelled hk
  have hall : ∀ n ∈ statements, Suits k D n := fun n h => by
    rw [← hcarried]
    exact hn.inner (by rw [hk]; exact h)
  refine tallies_bind (tallies_openScope hin rfl) fun w₁ block ⟨le₁, hblock, _⟩ => ?_
  refine tallies_bind (tallies_lowerStatements hp hall hblock) fun w₂ last ⟨le₂, hlast, _⟩ => ?_
  have le : Le w w₂ := le₁.trans le₂
  refine tallies_isTerminated_bind
    (fun _ => tallies_of_le le (tallies_blockValue (ha.since le.toSince))) fun _ => ?_
  refine tallies_bind (tallies_runDefers hp hlast.start) fun w₃ _ le₃ => ?_
  have le := le.trans le₃
  exact tallies_of_le le (tallies_blockValue (ha.since le.toSince))

include hp in
theorem tallies_lowerLabelledBlock {label : String} {statements : List Node}
    (hin : In k c D w scope) (hk : node.kind = .block (some label) statements)
    (hn : Suits k D node) (ha : Dest k c w node loc) :
    Tallies k env c (k.after c loc) w (lowerLabelledBlock parts node label statements scope loc)
      fun w' v => Le w w' ∧ Val k w' v := by
  refine tallies_settle_bind ha fun w₁ loc le₁ ha => ?_
  have hall : ∀ n ∈ statements, Suits k (carried k D node loc) n := fun n h =>
    hn.inner (by rw [hk]; exact h)
  refine tallies_bind (tallies_newBlock (k.after c loc) (.nil (.refl w₁))) fun w₂ stop ⟨_, p⟩ => ?_
  refine tallies_openTarget_bind (hin.since (le₁.toSince.trans p.since)) p (ha.since p.since) rfl
    (fun l => by rw [hk]; rfl) rfl (List.mem_singleton_self _) nofun
    fun w₃ block _ p hfresh hblock => ?_
  refine tallies_bind (tallies_lowerStatements hp hall hblock) fun w₄ last ⟨le₄, hlast, hends⟩ => ?_
  have p := p.after le₄
  have join : ∀ w' c', Reserved w₁ w' [(stop, k.after c loc)] →
      Tallies k env c' (k.after c loc) w' (do
        joinAt stop (← closeSink block) scope node) fun w' v => Le w₁ w' ∧ Val k w' v := by
    intro w₅ c' p
    exact tallies_bind (tallies_closeSink p hfresh) fun w₆ incoming p => tallies_joinAt p
  refine tallies_isTerminated_bind (fun _ => join w₄ c p) fun ht => ?_
  refine tallies_bind (tallies_runDefers hp hlast.start) fun w₅ _ le₅ => ?_
  have p := p.after le₅
  refine tallies_isTerminated_bind (fun _ => join w₅ c p) fun _ => ?_
  refine tallies_bind tallies_emitVoid fun w₆ void ⟨le₆, _⟩ => ?_
  refine tallies_bind tallies_flowInto fun w₇ _ le₇ => ?_
  have p := p.after (le₆.trans le₇)
  -- The end is reached, so the block is not one that has a value on every path.
  have hempty : ¬ node.Fills := fun hf =>
    Bool.false_ne_true (ht.symm.trans (hends (.inr (hf.needs hk))))
  have hstop : Admits k (k.after c loc) w₇ stop := p.admits (List.mem_singleton_self _)
  have hstop : Admits k c w₇ stop :=
    ⟨hstop.lt, fun hl => (ha.subset (p.since.live hl) hempty).trans (hstop.counts hl)⟩
  exact tallies_bind (tallies_br hstop) fun w₈ _ ⟨le₈, _⟩ => join w₈ ∅ (p.after le₈)

include hp in
theorem tallies_lowerBlock {label : Option String} {statements : List Node}
    (hin : In k c D w scope) (hk : node.kind = .block label statements) (hn : Suits k D node)
    (ha : Dest k c w node loc) :
    Tallies k env c (k.after c loc) w (lowerBlock parts node label statements scope loc)
      fun w' v => Le w w' ∧ Val k w' v := by
  cases label with
  | none => exact tallies_lowerPlainBlock hp hin hk hn ha
  | some label => exact tallies_lowerLabelledBlock hp hin hk hn ha

/-! ### Local variables -/

/-- The storage of a variable is made: the initializer may be brought there. -/
theorem tallies_storage {name : String} {isConst isComptime : Bool} {typeExpr : Option Node}
    {init : Node} {type : Option InstId} {evaluated : Bool} (hin : In k c D w scope)
    (hk : node.kind = .varDecl name isConst isComptime typeExpr (some init))
    (hn : node ∈ k.root.nodes) :
    Tallies k env c c w (emit (.alloca (some name) type evaluated) scope node.location)
      fun w' ptr => Le w w' ∧ Dest k c w' init (.existing ptr) := by
  intro hs v s' hr
  obtain ⟨rfl, hd, rfl⟩ := returns_emitWith_eq hr
  -- There is nothing that could have been written to before the storage is there.
  have hzero : w.state.stream.next = k.ptr → c = {0} := fun e =>
    hin.start (by rw [← e]; exact Nat.le_refl _)
  obtain ⟨hs', le⟩ := hs.withNext c scope node.location false false hd
    (fun _ h => absurd h List.not_mem_nil) nofun fun x hid hkind _ _ _ _ n ⟨_, _, hm⟩ => by
      rcases hm with ⟨hp, rfl⟩ | ⟨m, hm, rfl⟩
      · rw [hzero (hid.symm.trans hp)]
        rfl
      · rw [hkind, InstKind.writesTo_eq_zero (by nofun)]
        exact hm
  refine ⟨_, rfl, hs', le, fun p hp => ?_, fun hl hptr => ?_⟩
  · obtain rfl := Option.some.inj hp
    simp [State.withNext, Stream.next]
  · have hptr : w.state.stream.next = k.ptr := by simpa using hptr
    refine ⟨(hzero hptr).subset, fun hstrict => ?_⟩
    refine (hl ⟨w.state.stream.next, .alloca (some name) type evaluated,
      w.state.stream.currentBlock, scope, node.location,
      false || isComptimeIn w.state.stream w.state.scopes scope, false⟩ ?_).2 hstrict node hn init
      ⟨⟨name, isConst, isComptime, typeExpr, hk, type, evaluated, rfl⟩, rfl⟩
    rw [State.withNext, inst?_withNext]
    exact if_pos (congrArg InstId.index hptr.symm)

/-- The variable is declared: no way goes on from there. -/
theorem tallies_declVar {var : VarId} {ptr : InstId} :
    Tallies k env (k.after c (.existing ptr)) c w (emit (.declVar var ptr) scope location)
      fun w' _ => Le w w' := by
  intro hs v s' hr
  obtain ⟨rfl, hd, rfl⟩ := returns_emitWith_eq hr
  have hok : (InstKind.declVar var ptr).storage? = some k.ptr →
      k.after c (.existing ptr) ⊆ k.ok := by
    intro hst
    obtain rfl : ptr = k.ptr := Option.some.inj hst
    rw [Probe.after_existing]
  obtain ⟨hs', le⟩ := hs.withNext c scope location false false hd
    (fun _ h => absurd h List.not_mem_nil) (fun hst _ => hok hst)
    fun x _ hkind _ _ hlive hx n ⟨_, hst, hm⟩ => by
      rw [hkind] at hst
      have hne : ptr ≠ k.ptr := fun e => hst (congrArg some e)
      rw [Probe.after_of_ne (by simpa using hne)] at hm
      rcases hm with ⟨hp, -⟩ | ⟨m, hm, rfl⟩
      · exact absurd hp (hlive.ne hx fun hlocal => by
          have halloca := hlocal.1
          rw [hkind] at halloca
          cases halloca)
      · rw [hkind, InstKind.writesTo_eq_zero (by nofun)]
        exact hm
  exact ⟨_, rfl, hs', le⟩

theorem tallies_orDeclareFailed {x : LowerM α} {name : String} (h : Tallies k env c c' w x Q) :
    Tallies k env c c' w (orDeclareFailed x node name scope) Q :=
  fun hs a s' hr => h hs a s' hr.of_orDeclareFailed

include hp in
theorem tallies_lowerLocalVar {name : String} {isConst isComptime : Bool}
    {typeExpr init : Option Node} (hin : In k c D w scope)
    (hk : node.kind = .varDecl name isConst isComptime typeExpr init) (hn : Suits k D node) :
    Tallies k env c c w (lowerLocalVar parts node name isConst isComptime typeExpr init scope)
      fun w' _ => Le w w' := by
  have hused : ∀ part ∈ (Kind.varDecl name isConst isComptime typeExpr init).used,
      Suits k D part := fun part h => hn.used (hk ▸ h)
  refine tallies_scopesFrom_bind ?_
  dsimp only
  have htype : Tallies k env c c w (parts.comptimeValue? typeExpr scope) fun w' _ => Le w w' :=
    tallies_mono ((hp.holds (D := D)).comptimeValue?
      (fun part h => hused part (List.mem_append_left _ h)) hin) fun _ _ h => h.1
  refine tallies_bind (tallies_orDeclareFailed htype) fun w₁ type le₁ => ?_
  cases init with
  | none => exact tallies_orDeclareFailed tallies_fail
  | some init =>
    refine tallies_bind (tallies_storage (hin.since le₁.toSince) hk hn.mem)
      fun w₂ ptr ⟨le₂, ha⟩ => ?_
    refine tallies_bind (tallies_modify ⟨rfl, rfl, rfl, rfl, rfl, rfl⟩) fun w₃ _ le₃ => ?_
    have le : Le w w₃ := (le₁.trans le₂).trans le₃
    -- The scope of the initializer is that of the statement, or one inside it.
    have rest : ∀ w' inner (request : InstId → BindingRequest), Le w₃ w' → In k c D w' inner →
        Tallies k env c c w' (do
          let value ← orDeclareFailed (parts.expr init inner (.existing ptr)) node name scope
          let var ← declare scope (request value)
          let _ ← emit (.declVar var ptr) scope node.location) fun w' _ => Le w w' := by
      intro w₄ inner request le₄ hinner
      have ha := ha.since (le₃.trans le₄).toSince
      refine tallies_bind (tallies_orDeclareFailed (hp.expr hinner
        (hused init (List.mem_append_right _ (Option.mem_toList.2 rfl))) ha)) fun w₅ value d₅ => ?_
      refine tallies_bind tallies_declare fun w₆ var le₆ => ?_
      refine tallies_bind tallies_declVar fun w₇ _ le₇ => ?_
      exact tallies_pure ((((le.trans le₄).trans d₅.le).trans le₆).trans le₇)
    split
    · exact tallies_bind (tallies_openScope (hin.since le.toSince) rfl)
        fun w₄ inner ⟨le₄, hinner, _⟩ => rest w₄ inner _ le₄ hinner
    · exact rest w₃ scope _ (.refl w₃) (hin.since le.toSince)

/-! ### Statements -/

include hp in
theorem tallies_lowerExprStatement (hin : In k c D w scope) (hn : Suits k D node) :
    Tallies k env c c w (lowerExprStatement parts node scope) fun w' _ =>
      Le w w' ∧ (node.kind.isJump = true → w'.state.stream.isTerminated = true) := by
  refine tallies_get_bind ?_
  refine tallies_bind (hp.discard hin hn) fun w₁ value d₁ => ?_
  refine tallies_isTerminated_bind (fun ht => tallies_pure ⟨d₁.le, fun _ => ht⟩) fun ht => ?_
  have hj : node.kind.isJump = true → False := fun hj =>
    Bool.false_ne_true (ht.symm.trans (d₁.ends hj))
  have check : ∀ w', Le w₁ w' → Tallies k env c c w' (do
      let _ ← emitGen (.checkStatementIsVoid value) scope node.location) fun w' _ =>
        Le w w' ∧ (node.kind.isJump = true → w'.state.stream.isTerminated = true) := by
    intro w₂ le₂
    refine tallies_bind (tallies_emitPlain rfl nofun nofun nofun) fun w₃ _ ⟨le₃, _⟩ => ?_
    exact tallies_pure ⟨(d₁.le.trans le₂).trans le₃, fun h => (hj h).elim⟩
  refine tallies_hasEffectSince_bind fun effectful => tallies_read_bind ?_
  dsimp only
  split
  · exact tallies_bind tallies_warnAt fun w₂ _ ⟨le₂, _⟩ => check w₂ le₂
  · exact check w₁ (.refl w₁)

include hp in
theorem tallies_lowerStatement (hin : In k c D w scope) (hn : Suits k D node) :
    Tallies k env c c w (lowerStatement parts node scope) fun w' inner =>
      Le w w' ∧ In k c D w' inner ∧
        (node.kind.isJump = true → w'.state.stream.isTerminated = true) := by
  have after : ∀ {x : LowerM PUnit}, Tallies k env c c w x (fun w' _ =>
      Le w w' ∧ (node.kind.isJump = true → w'.state.stream.isTerminated = true)) →
      Tallies k env c c w (do x; return scope) fun w' inner => Le w w' ∧ In k c D w' inner ∧
        (node.kind.isJump = true → w'.state.stream.isTerminated = true) := fun hx =>
    tallies_bind hx fun w₁ _ ⟨le₁, hj⟩ => tallies_pure ⟨le₁, hin.since le₁.toSince, hj⟩
  rw [lowerStatement]
  split
  next hk =>
    exact after (tallies_mono (tallies_lowerLocalVar hp hin hk hn) fun _ _ le =>
      ⟨le, by simp [hk, Kind.isJump]⟩)
  next kind expr hk =>
    refine tallies_bind (tallies_openScope hin rfl) fun w₁ inner h₁ => ?_
    obtain ⟨le₁, hinner, -⟩ := h₁
    have he : expr ∈ k.root.nodes := (hn.outer (by simp [hk])).mem
    refine tallies_bind (tallies_remember he) fun w₂ _ h₂ => ?_
    have le₂ := h₂.1
    exact tallies_pure ⟨le₁.trans le₂, hinner.since le₂.toSince, by simp [hk, Kind.isJump]⟩
  next target value hk =>
    exact after (tallies_mono (holds_lowerAssign (L := tallying env k c D) hp.holds
      (hn.used (by simp [hk, Kind.used])) (hn.used (by simp [hk, Kind.used])) hin)
      fun _ _ h => ⟨h.1, by simp [hk, Kind.isJump]⟩)
  next op target value hk =>
    exact after (tallies_mono (holds_lowerAssignOp (L := tallying env k c D) hp.holds
      (hn.used (by simp [hk, Kind.used])) (hn.used (by simp [hk, Kind.used])) hin)
      fun _ _ h => ⟨h.1, by simp [hk, Kind.isJump]⟩)
  next =>
    split
    · exact after (tallies_lowerExprStatement hp hin hn)
    · refine tallies_bind (hp.discard hin hn) fun w₁ _ d₁ => ?_
      exact tallies_pure ⟨d₁.le, hin.since d₁.le.toSince, d₁.ends⟩

/-! ### Branches -/

include hp in
/-- A branch that may be missing: then the construct is none that has a value on every path. -/
theorem tallies_lowerElse {branch : Option Node} (hin : In k c D w scope)
    (hb : ∀ e ∈ branch, Suits k D e) (ha : Dest k c w node loc)
    (hf : node.Fills → ∃ e, branch = some e ∧ e.Fills) :
    Tallies k env c (k.after c loc) w (lowerElse parts node branch scope loc) fun w' v =>
      Le w w' ∧ Val k w' v := by
  cases branch with
  | some branch =>
    have ha : Dest k c w branch loc := ha.imp fun h => by
      obtain ⟨e, hsome, he⟩ := hf h
      rwa [Option.some.inj hsome]
    exact tallies_mono (hp.expr hin (hb branch rfl) ha) fun _ _ d => ⟨d.le, d.val⟩
  | none =>
    have hempty : ¬ node.Fills := fun h => by
      obtain ⟨_, h, -⟩ := hf h
      cases h
    exact tallies_subset tallies_emitVoid fun w' _ h hl => ha.subset (h.1.live hl) hempty

include hp in
theorem tallies_lowerIf {condition thenBranch : Node} {payload : Option String}
    {elseBranch : Option Node} (hin : In k c D w scope)
    (hk : node.kind = .ifThen condition payload thenBranch elseBranch) (hn : Suits k D node)
    (ha : Dest k c w node loc) :
    Tallies k env c (k.after c loc) w
      (lowerIf parts node condition payload thenBranch elseBranch scope loc) fun w' v =>
        Le w w' ∧ Val k w' v := by
  have hparts : ∀ part ∈ condition :: thenBranch :: elseBranch.toList, Suits k D part :=
    fun part h => hn.outer (by simpa [hk] using h)
  refine tallies_settle_bind ha fun w₁ loc le₁ ha => ?_
  have hin := hin.since le₁.toSince
  refine tallies_bind (hp.value hin (hparts condition (by simp))) fun w₂ cond d₂ => ?_
  have p : Reserved w₁ w₂ [] := .nil d₂.le
  refine tallies_bind (tallies_newBlock c p) fun w₃ thenBlock ⟨e₃, p⟩ => ?_
  refine tallies_bind (tallies_newBlock c p) fun w₄ elseBlock ⟨e₄, p⟩ => ?_
  refine tallies_bind (tallies_newBlock (k.after c loc) p) fun w₅ stop ⟨e₅, p⟩ => ?_
  have hcond := d₂.val.since (e₃.trans (e₄.trans e₅))
  refine tallies_bind (tallies_emitTest (hin.since p.since) hcond) fun w₆ test ⟨le₆, _⟩ => ?_
  have p := p.after le₆
  refine tallies_bind (tallies_condBr (p.admits (by simp)) (p.admits (by simp))) fun w₇ _ le₇ => ?_
  refine tallies_bind (tallies_goto (p.after le₇)) fun w₈ _ ⟨e₈, p⟩ => ?_
  have hcond := hcond.since (le₆.toSince.trans (le₇.toSince.trans e₈))
  refine tallies_bind (tallies_enterBranch (hin.since p.since) hcond)
    fun w₉ thenScope ⟨le₉, hthen⟩ => ?_
  have p := p.after le₉
  refine tallies_bind (hp.expr hthen (hparts thenBranch (by simp))
    ((ha.since p.since).imp fun h => (h.needs hk).1)) fun w₁₀ value d₁₀ => ?_
  have p := p.after d₁₀.le
  refine tallies_bind (tallies_branchInto (p.admits (by simp))) fun w₁₁ incoming le₁₁ => ?_
  refine tallies_bind (tallies_goto (p.after le₁₁)) fun w₁₂ _ ⟨_, p⟩ => ?_
  refine tallies_bind (tallies_lowerElse hp (hin.since p.since)
    (fun e he => hparts e (by simp [Option.mem_def.1 he])) (ha.since p.since)
    fun h => (h.needs hk).2) fun w₁₃ value ⟨le₁₃, _⟩ => ?_
  have p := p.after le₁₃
  refine tallies_bind (tallies_branchInto (p.admits (by simp))) fun w₁₄ incoming le₁₄ => ?_
  exact tallies_joinAt (p.after le₁₄)

include hp in
theorem tallies_lowerCatch {lhs rhs : Node} {payload : Option String} (hin : In k c D w scope)
    (hk : node.kind = .catchExpr lhs payload rhs) (hn : Suits k D node)
    (ha : Dest k c w node loc) :
    Tallies k env c (k.after c loc) w (lowerCatch parts node lhs payload rhs scope loc)
      fun w' v => Le w w' ∧ Val k w' v := by
  refine tallies_settle_bind ha fun w₁ loc le₁ ha => ?_
  have hin := hin.since le₁.toSince
  refine tallies_bind (hp.value hin (hn.outer (by simp [hk]))) fun w₂ value d₂ => ?_
  refine tallies_bind (tallies_emitPlain rfl nofun nofun nofun) fun w₃ isErr ⟨le₃, _⟩ => ?_
  have p : Reserved w₁ w₃ [] := .nil (d₂.le.trans le₃)
  refine tallies_bind (tallies_newBlock c p) fun w₄ errBlock ⟨e₄, p⟩ => ?_
  refine tallies_bind (tallies_newBlock c p) fun w₅ okBlock ⟨e₅, p⟩ => ?_
  refine tallies_bind (tallies_newBlock (k.after c loc) p) fun w₆ stop ⟨e₆, p⟩ => ?_
  refine tallies_bind (tallies_condBr (p.admits (by simp)) (p.admits (by simp))) fun w₇ _ le₇ => ?_
  refine tallies_bind (tallies_goto (p.after le₇)) fun w₈ _ ⟨e₈, p⟩ => ?_
  have hvalue : Val k w₈ value :=
    d₂.val.since (le₃.toSince.trans (e₄.trans (e₅.trans (e₆.trans (le₇.toSince.trans e₈)))))
  refine tallies_bind (tallies_openScope (hin.since p.since) rfl)
    fun w₉ handler ⟨le₉, hhandler, _⟩ => ?_
  -- What is left once the scope of the handler is known.
  have rest : ∀ w' handler, Le w₉ w' → In k c D w' handler →
      Tallies k env c (k.after c loc) w' (do
        let handled ← parts.expr rhs handler loc
        let incoming ← branchInto stop [] handled scope false
        goto okBlock
        let payload ← emitGen (.unwrapErrPayload value false) scope node.location
        let payload ← deliver payload loc scope node.location
        let incoming ← branchInto stop incoming payload scope false
        joinAt stop incoming scope node) fun w' v => Le w₁ w' ∧ Val k w' v := by
    intro w₁₀ handler le₁₀ hhandler
    have p := p.after (le₉.trans le₁₀)
    refine tallies_bind (hp.expr hhandler (hn.outer (by simp [hk]))
      ((ha.since p.since).imp fun h => h.needs hk)) fun w₁₁ handled d₁₁ => ?_
    have p := p.after d₁₁.le
    refine tallies_bind (tallies_branchInto (p.admits (by simp))) fun w₁₂ incoming le₁₂ => ?_
    refine tallies_bind (tallies_goto (p.after le₁₂)) fun w₁₃ _ ⟨_, p⟩ => ?_
    refine tallies_bind (tallies_emitPlain rfl nofun nofun nofun) fun w₁₄ payload ⟨le₁₄, hv⟩ => ?_
    have p := p.after le₁₄
    refine tallies_bind (tallies_deliver hv (ha.since p.since)) fun w₁₅ payload ⟨le₁₅, _⟩ => ?_
    have p := p.after le₁₅
    refine tallies_bind (tallies_branchInto (p.admits (by simp))) fun w₁₆ incoming le₁₆ => ?_
    exact tallies_joinAt (p.after le₁₆)
  cases payload with
  | none => exact rest w₉ handler (.refl w₉) hhandler
  | some name =>
    refine tallies_bind (tallies_emitPlain rfl nofun nofun nofun) fun w₁₀ code ⟨le₁₀, hcode⟩ => ?_
    refine tallies_bind (tallies_bindPayload (hhandler.since le₁₀.toSince) hcode)
      fun w₁₁ inner ⟨le₁₁, hinner⟩ => ?_
    exact rest w₁₁ inner (le₁₀.trans le₁₁) hinner

include hp in
theorem tallies_lowerOrElse {lhs rhs : Node} (hin : In k c D w scope)
    (hk : node.kind = .binaryOp .orElse lhs rhs) (hn : Suits k D node)
    (ha : Dest k c w node loc) :
    Tallies k env c (k.after c loc) w (lowerOrElse parts node lhs rhs scope loc) fun w' v =>
      Le w w' ∧ Val k w' v := by
  refine tallies_settle_bind ha fun w₁ loc le₁ ha => ?_
  have hin := hin.since le₁.toSince
  refine tallies_bind (hp.value hin (hn.outer (by simp [hk]))) fun w₂ value d₂ => ?_
  refine tallies_bind (tallies_emitPlain rfl nofun nofun nofun) fun w₃ nonNull ⟨le₃, _⟩ => ?_
  have p : Reserved w₁ w₃ [] := .nil (d₂.le.trans le₃)
  refine tallies_bind (tallies_newBlock c p) fun w₄ okBlock ⟨_, p⟩ => ?_
  refine tallies_bind (tallies_newBlock c p) fun w₅ nullBlock ⟨_, p⟩ => ?_
  refine tallies_bind (tallies_newBlock (k.after c loc) p) fun w₆ stop ⟨_, p⟩ => ?_
  refine tallies_bind (tallies_condBr (p.admits (by simp)) (p.admits (by simp))) fun w₇ _ le₇ => ?_
  refine tallies_bind (tallies_goto (p.after le₇).swap) fun w₈ _ ⟨_, p⟩ => ?_
  refine tallies_bind (hp.expr (hin.since p.since) (hn.outer (by simp [hk]))
    ((ha.since p.since).imp fun h => h.needs hk)) fun w₉ fallback d₉ => ?_
  have p := p.after d₉.le
  refine tallies_bind (tallies_branchInto (p.admits (by simp))) fun w₁₀ incoming le₁₀ => ?_
  refine tallies_bind (tallies_goto (p.after le₁₀)) fun w₁₁ _ ⟨_, p⟩ => ?_
  refine tallies_bind (tallies_emitPlain rfl nofun nofun nofun) fun w₁₂ inner ⟨le₁₂, hv⟩ => ?_
  have p := p.after le₁₂
  refine tallies_bind (tallies_deliver hv (ha.since p.since)) fun w₁₃ inner ⟨le₁₃, _⟩ => ?_
  have p := p.after le₁₃
  refine tallies_bind (tallies_branchInto (p.admits (by simp))) fun w₁₄ incoming le₁₄ => ?_
  exact tallies_joinAt (p.after le₁₄)

include hp in
/-- Nothing is brought to the location before control has come together again. -/
theorem tallies_lowerShortCircuit {op : BinaryOperator} {lhs rhs : Node} (hin : In k c D w scope)
    (hk : node.kind = .binaryOp op lhs rhs) (hn : Suits k D node) (ha : Dest k c w node loc) :
    Tallies k env c (k.after c loc) w (lowerShortCircuit parts node op lhs rhs scope loc)
      fun w' v => Le w w' ∧ Val k w' v := by
  refine tallies_bind (hp.value hin (hn.outer (by simp [hk]))) fun w₁ left d₁ => ?_
  have p : Reserved w w₁ [] := .nil d₁.le
  refine tallies_bind (tallies_newBlock c p) fun w₂ rhsBlock ⟨_, p⟩ => ?_
  refine tallies_bind (tallies_newBlock c p) fun w₃ stop ⟨_, p⟩ => ?_
  refine tallies_currentBlock_bind ?_
  -- What is left once the branch is there.
  have rest : ∀ w' (source : BlockId), Le w₃ w' → Tallies k env ∅ (k.after c loc) w' (do
      goto rhsBlock
      let right ← parts.value rhs scope
      let incoming ← branchInto stop [(source, left)] right scope false
      let value ← joinAt stop incoming scope node
      deliver value loc scope node.location) fun w' v => Le w w' ∧ Val k w' v := by
    intro w₄ source le₄
    refine tallies_bind (tallies_goto (p.after le₄)) fun w₅ _ ⟨_, p⟩ => ?_
    refine tallies_bind (hp.value (hin.since p.since) (hn.outer (by simp [hk])))
      fun w₆ right d₆ => ?_
    have p := p.after d₆.le
    refine tallies_bind (tallies_branchInto (p.admits (by simp))) fun w₇ incoming le₇ => ?_
    refine tallies_bind (tallies_joinAt (p.after le₇)) fun w₈ value ⟨le₈, hv⟩ => ?_
    exact tallies_of_le le₈ (tallies_deliver hv (ha.since le₈.toSince))
  have hrhs : Admits k c w₃ rhsBlock := p.admits (by simp)
  have hstop : Admits k c w₃ stop := p.admits (by simp)
  split
  · exact tallies_bind (tallies_condBr hstop hrhs) fun w₄ _ le₄ => rest w₄ _ le₄
  · exact tallies_bind (tallies_condBr hrhs hstop) fun w₄ _ le₄ => rest w₄ _ le₄

/-! ### Loops -/

theorem tallies_newLoop {word : String} (S : Set Nat) (p : Reserved w₀ w []) :
    Tallies k env c c w (newLoop word) fun w' blocks => Since w w' ∧
      Reserved w₀ w' [(blocks.test, c), (blocks.body, c), (blocks.step, c), (blocks.orElse, c),
        (blocks.stop, S)] := by
  refine tallies_bind (tallies_newBlock c p) fun w₁ test ⟨e₁, p⟩ => ?_
  refine tallies_bind (tallies_newBlock c p) fun w₂ body ⟨e₂, p⟩ => ?_
  refine tallies_bind (tallies_newBlock c p) fun w₃ step ⟨e₃, p⟩ => ?_
  refine tallies_bind (tallies_newBlock c p) fun w₄ orElse ⟨e₄, p⟩ => ?_
  refine tallies_bind (tallies_newBlock S p) fun w₅ stop ⟨e₅, p⟩ => ?_
  exact tallies_pure ⟨e₁.trans (e₂.trans (e₃.trans (e₄.trans e₅))), p⟩

/-- The scope of a loop, with a sink for what is brought to its location. -/
theorem tallies_enterLoop {label : Option String} {blocks : LoopBlocks} (hin : In k c D w scope)
    (p : Reserved w₀ w bs) (ha : Dest k c w node loc)
    (htakes : ∀ l, (ScopeKind.loop label blocks.stop blocks.step).takesJump l =
      node.kind.takesBreak l)
    (hstop : (blocks.stop, k.after c loc) ∈ bs) (hstep : (blocks.step, c) ∈ bs) :
    Tallies k env c c w (enterLoop scope label blocks loc) fun w' inner => Since w w' ∧
      Reserved w₀ w' bs ∧ w₀.state.sinks.lookup inner = none ∧
        In k c (carried k D node loc) w' inner := by
  refine tallies_openTarget_bind hin p ha rfl htakes rfl hstop ?_ fun w' inner e p hfresh hinner =>
    tallies_pure ⟨e, p, hfresh, hinner⟩
  intro step h
  exact Option.some.inj h ▸ hstep

theorem tallies_jumpUnlessTerminated {force : Bool} (hb : Admits k c w b) :
    Tallies k env c ∅ w (jumpUnlessTerminated b node scope force) fun w' _ => Le w w' :=
  tallies_isTerminated_bind (fun ht => tallies_pure_of_isTerminated ht (.refl w)) fun _ =>
    tallies_bind (tallies_br hb) fun _ _ h => tallies_pure h.1

include hp in
theorem tallies_finishLoop {loopScope : ScopeId} {elseBranch : Option Node} {blocks : LoopBlocks}
    {force : Bool} (hin : In k c D w₀ scope) (he : ∀ e ∈ elseBranch, Suits k D e)
    (ha : Dest k c w₀ node loc) (hf : node.Fills → ∃ e, elseBranch = some e ∧ e.Fills)
    (p : Reserved w₀ w [(blocks.orElse, c), (blocks.stop, k.after c loc)])
    (hfresh : w₀.state.sinks.lookup loopScope = none) :
    Tallies k env c' (k.after c loc) w
      (finishLoop parts node loopScope elseBranch blocks scope loc force) fun w' v =>
        Le w₀ w' ∧ Val k w' v := by
  refine tallies_bind (tallies_goto p) fun w₁ _ ⟨_, p⟩ => ?_
  refine tallies_bind (tallies_lowerElse hp (hin.since p.since) he (ha.since p.since) hf)
    fun w₂ value ⟨le₂, _⟩ => ?_
  refine tallies_bind (tallies_closeSink (p.after le₂) hfresh) fun w₃ incoming p => ?_
  refine tallies_bind (tallies_branchInto (p.admits (by simp))) fun w₄ incoming le₄ => ?_
  exact tallies_joinAt (p.after le₄)

include hp in
theorem tallies_lowerWhile {label payload : Option String} {condition body : Node}
    {step elseBranch : Option Node} {isInline : Bool} (hin : In k c D w scope)
    (hk : node.kind = .whileLoop label condition payload step body elseBranch isInline)
    (hn : Suits k D node) (ha : Dest k c w node loc) :
    Tallies k env c (k.after c loc) w
      (lowerWhile parts node label condition payload step body elseBranch isInline scope loc)
      fun w' v => Le w w' ∧ Val k w' v := by
  refine tallies_settle_bind ha fun w₁ loc le₁ ha => ?_
  have hin := hin.since le₁.toSince
  have hinner : ∀ part ∈ body :: step.toList, Suits k (carried k D node loc) part :=
    fun part h => hn.inner (by rw [hk]; exact h)
  have houter : ∀ part ∈ condition :: elseBranch.toList, Suits k D part :=
    fun part h => hn.outer (by rw [hk]; exact h)
  refine tallies_bind (tallies_newLoop (k.after c loc) (.nil (.refl w₁))) fun w₂ blocks ⟨_, p⟩ => ?_
  have htest : Admits k c w₂ blocks.test := p.admits (by simp)
  refine tallies_bind (tallies_br htest) fun w₃ _ ⟨le₃, _⟩ => ?_
  refine tallies_bind (tallies_goto (p.after le₃)) fun w₄ _ ⟨e₄, p⟩ => ?_
  refine tallies_bind (hp.value (hin.since p.since) (houter condition (by simp)))
    fun w₅ cond d₅ => ?_
  have p := p.after d₅.le
  refine tallies_bind (tallies_emitTest (hin.since p.since) d₅.val) fun w₆ test ⟨le₆, _⟩ => ?_
  have p := p.after le₆
  refine tallies_bind (tallies_condBr (p.admits (by simp)) (p.admits (by simp))) fun w₇ _ le₇ => ?_
  refine tallies_bind (tallies_goto (p.after le₇)) fun w₈ _ ⟨e₈, p⟩ => ?_
  refine tallies_bind (tallies_enterLoop (hin.since p.since) p (ha.since p.since)
    (fun l => by rw [hk]; rfl) (by simp) (by simp)) fun w₉ loopScope ⟨e₉, p, hfresh, hloop⟩ => ?_
  have e : Since w₅ w₉ := le₆.toSince.trans (le₇.toSince.trans (e₈.trans e₉))
  refine tallies_bind (tallies_enterBranch hloop (d₅.val.since e))
    fun w₁₀ bodyScope ⟨le₁₀, hbody⟩ => ?_
  refine tallies_bind (hp.discard hbody (hinner body (by simp))) fun w₁₁ _ d₁₁ => ?_
  have p := (p.after le₁₀).after d₁₁.le
  refine tallies_bind (tallies_jumpUnlessTerminated (p.admits (by simp))) fun w₁₂ _ le₁₂ => ?_
  refine tallies_bind (tallies_goto (p.after le₁₂)) fun w₁₃ _ ⟨e₁₃, p⟩ => ?_
  have hbody := hbody.since (d₁₁.le.toSince.trans (le₁₂.toSince.trans e₁₃))
  have htest := htest.since ((le₃.toSince.trans (e₄.trans d₅.le.toSince)).trans
    ((e.trans (le₁₀.trans d₁₁.le).toSince).trans (le₁₂.toSince.trans e₁₃)))
  -- What is left after the step.
  have rest : ∀ w', Le w₁₃ w' → Tallies k env c (k.after c loc) w' (do
      jumpUnlessTerminated blocks.test node scope isInline
      finishLoop parts node loopScope elseBranch blocks scope loc isInline) fun w' v =>
        Le w₁ w' ∧ Val k w' v := by
    intro w₁₄ le₁₄
    refine tallies_bind (tallies_jumpUnlessTerminated (htest.since le₁₄.toSince))
      fun w₁₅ _ le₁₅ => ?_
    exact tallies_finishLoop hp hin (fun e he => houter e (by simp [Option.mem_def.1 he])) ha
      (fun hf => hf.needs hk) ((p.after le₁₄).after le₁₅) hfresh
  cases step with
  | none => exact rest w₁₃ (.refl w₁₃)
  | some step =>
    exact tallies_bind (hp.discard hbody (hinner step (by simp))) fun w₁₄ _ d₁₄ => rest w₁₄ d₁₄.le

include hp in
theorem tallies_lowerFor {label index : Option String} {iterable body : Node} {item : String}
    {elseBranch : Option Node} {isInline : Bool} (hin : In k c D w scope)
    (hk : node.kind = .forLoop label iterable item index body elseBranch isInline)
    (hn : Suits k D node) (ha : Dest k c w node loc) :
    Tallies k env c (k.after c loc) w
      (lowerFor parts node label iterable item index body elseBranch isInline scope loc)
      fun w' v => Le w w' ∧ Val k w' v := by
  refine tallies_settle_bind ha fun w₁ loc le₁ ha => ?_
  have hin := hin.since le₁.toSince
  have houter : ∀ part ∈ iterable :: elseBranch.toList, Suits k D part :=
    fun part h => hn.outer (by rw [hk]; exact h)
  refine tallies_bind (hp.value hin (houter iterable (by simp))) fun w₂ array d₂ => ?_
  refine tallies_bind (tallies_emitPlain rfl nofun nofun nofun) fun w₃ lengthPtr ⟨le₃, _⟩ => ?_
  refine tallies_bind (tallies_emitPlain rfl nofun nofun nofun) fun w₄ length ⟨le₄, _⟩ => ?_
  refine tallies_bind (tallies_emitPlain rfl (fun _ => rfl) nofun nofun)
    fun w₅ indexPtr ⟨le₅, hindex⟩ => ?_
  refine tallies_bind (tallies_emitPlain rfl nofun nofun nofun) fun w₆ zero ⟨le₆, _⟩ => ?_
  have hindex := hindex.since le₆.toSince
  refine tallies_bind (tallies_emitPlain rfl nofun
    (fun hl h => hindex.2 hl (Option.some.inj h)) nofun) fun w₇ _ ⟨le₇, _⟩ => ?_
  have hindex := hindex.since le₇.toSince
  have le : Le w₁ w₇ := ((((d₂.le.trans le₃).trans le₄).trans le₅).trans le₆).trans le₇
  have hin := hin.since le.toSince
  have ha := ha.since le.toSince
  refine tallies_bind (tallies_newLoop (k.after c loc) (.nil (.refl w₇))) fun w₈ blocks ⟨_, p⟩ => ?_
  have htest : Admits k c w₈ blocks.test := p.admits (by simp)
  refine tallies_bind (tallies_br htest) fun w₉ _ ⟨le₉, _⟩ => ?_
  refine tallies_bind (tallies_goto (p.after le₉)) fun w₁₀ _ ⟨e₁₀, p⟩ => ?_
  refine tallies_bind (tallies_emitPlain rfl nofun nofun nofun) fun w₁₁ position ⟨le₁₁, _⟩ => ?_
  refine tallies_bind (tallies_emitPlain rfl nofun nofun nofun) fun w₁₂ inBounds ⟨le₁₂, _⟩ => ?_
  have p := p.after (le₁₁.trans le₁₂)
  refine tallies_bind (tallies_condBr (p.admits (by simp)) (p.admits (by simp)))
    fun w₁₃ _ le₁₃ => ?_
  refine tallies_bind (tallies_goto (p.after le₁₃)) fun w₁₄ _ ⟨e₁₄, p⟩ => ?_
  refine tallies_bind (tallies_enterLoop (hin.since p.since) p (ha.since p.since)
    (fun l => by rw [hk]; rfl) (by simp) (by simp)) fun w₁₅ loopScope ⟨e₁₅, p, hfresh, hloop⟩ => ?_
  have htest := htest.since (le₉.toSince.trans (e₁₀.trans ((le₁₁.trans le₁₂).toSince.trans
    (le₁₃.toSince.trans (e₁₄.trans e₁₅)))))
  refine tallies_bind (tallies_emitPlain rfl nofun nofun nofun) fun w₁₆ elementPtr ⟨le₁₆, _⟩ => ?_
  refine tallies_bind (tallies_emitPlain rfl nofun nofun nofun) fun w₁₇ element ⟨le₁₇, hv⟩ => ?_
  refine tallies_bind (tallies_bindPayload (hloop.since (le₁₆.trans le₁₇).toSince) hv)
    fun w₁₈ bodyScope ⟨le₁₈, hbody⟩ => ?_
  refine tallies_bind tallies_declare fun w₁₉ indexVar le₁₉ => ?_
  have le₁₅ : Le w₁₅ w₁₉ := ((le₁₆.trans le₁₇).trans le₁₈).trans le₁₉
  have p := p.after le₁₅
  refine tallies_bind (tallies_emitOf rfl nofun fun v hv =>
    List.mem_singleton.1 hv ▸ hindex.since p.since) fun w₂₀ _ ⟨le₂₀, _⟩ => ?_
  refine tallies_bind (hp.discard (hbody.since (le₁₉.trans le₂₀).toSince)
    (hn.inner (hk ▸ List.mem_singleton_self body))) fun w₂₁ _ d₂₁ => ?_
  have p := p.after (le₂₀.trans d₂₁.le)
  refine tallies_bind (tallies_jumpUnlessTerminated (p.admits (by simp))) fun w₂₂ _ le₂₂ => ?_
  refine tallies_bind (tallies_goto (p.after le₂₂)) fun w₂₃ _ ⟨e₂₃, p⟩ => ?_
  have hstep : Tallies k env c c w₂₃ (stepIndex indexPtr node scope) fun w' _ => Le w₂₃ w' :=
    tallies_mono (holds_stepIndex (L := tallying env k c D) (hin.since p.since)
      (hindex.since p.since)) fun _ _ h => h.1
  refine tallies_bind hstep fun w₂₄ _ le₂₄ => ?_
  have htest := htest.since ((((le₁₅.trans le₂₀).trans d₂₁.le).trans le₂₂).toSince.trans
    (e₂₃.trans le₂₄.toSince))
  refine tallies_bind (tallies_br htest) fun w₂₅ _ ⟨le₂₅, _⟩ => ?_
  exact tallies_mono (tallies_finishLoop hp hin
    (fun e he => houter e (by simp [Option.mem_def.1 he])) ha (fun hf => hf.needs hk)
    (p.after (le₂₄.trans le₂₅)) hfresh) fun _ _ h => ⟨le.trans h.1, h.2⟩

/-! ### Jumps -/

/-- As long as there is no storage, nothing is brought to it. -/
theorem Tally.In.start_after (hin : In k c D w scope)
    (hptr : ∀ p ∈ loc.ptr?, p.index < w.state.stream.insts.size)
    (hle : w.state.stream.insts.size ≤ k.ptr.index) : k.after c loc = {0} := by
  rw [Probe.after_of_ne, hin.start hle]
  rintro rfl
  exact Nat.lt_irrefl _ (Nat.lt_of_lt_of_le (hptr k.ptr rfl) hle)

/-- A way out that is taken unless the deferred expressions end the block. -/
theorem tallies_unlessTerminated {x : LowerM InstId} (h : Tallies k env c ∅ w x fun w' v =>
      Le w w' ∧ Val k w' v ∧ w'.state.stream.isTerminated = true) :
    Tallies k env c ∅ w (do if ← isTerminated then lastInst else x) fun w' v =>
      Le w w' ∧ Val k w' v ∧ w'.state.stream.isTerminated = true :=
  tallies_isTerminated_bind (fun ht => tallies_lastInst ht) fun _ => h

/-- The deferred expressions on the way to a target, and the way out. -/
theorem tallies_leaveFor (hp : TallyParts env parts) {target : Option ScopeId} {x : LowerM InstId}
    (hstart : w.state.stream.insts.size ≤ k.ptr.index → c = {0})
    (h : ∀ w', Le w w' → Tallies k env c ∅ w' x fun w'' v =>
      Le w' w'' ∧ Val k w'' v ∧ w''.state.stream.isTerminated = true) :
    Tallies k env c ∅ w (do
      runDefers parts scope target .normal
      if ← isTerminated then lastInst else x) fun w' v =>
        Le w w' ∧ Val k w' v ∧ w'.state.stream.isTerminated = true :=
  tallies_bind (tallies_runDefers hp hstart) fun w₁ _ le₁ =>
    tallies_of_le le₁ (tallies_unlessTerminated (h w₁ le₁))

include hp in
theorem tallies_lowerBreak {label : Option String} {value : Option Node} (hin : In k c D w scope)
    (hk : node.kind = .breakTo label value) (hn : Suits k D node) :
    Tallies k env c ∅ w (lowerBreak parts node label value scope) fun w' v =>
      Le w w' ∧ Val k w' v ∧ w'.state.stream.isTerminated = true := by
  intro hs v s' hr
  obtain ⟨target, z, stop, hleads, hstop, hr⟩ := returns_lowerBreak hr
  obtain ⟨y, hy, htarget⟩ := hs.scopes.target?_of_found (.inl hleads.found) hleads.stays
    (ne_root_of_exits hs.root hleads.scope? (mem_exits_of_breakBlock? hstop))
  obtain rfl := Option.some.inj (hy.symm.trans hleads.scope?)
  obtain ⟨⟨loc, incoming⟩, hsink, hcatch⟩ := hin.stop label target y.kind stop htarget hstop
  rw [hsink, Option.map_some, Option.getD_some] at hr
  dsimp only at hr hcatch
  -- What is left once the value is there.
  have rest : ∀ w₁ v, Le w w₁ → Tallies k env (k.after c loc) ∅ w₁ (do
      runDefers parts scope (some target) .normal
      if ← isTerminated then lastInst
      else
        flowInto target v
        emit (.br stop) scope node.location) fun w' v =>
          Le w w' ∧ Val k w' v ∧ w'.state.stream.isTerminated = true := by
    intro w₁ v le₁
    have hstart : w₁.state.stream.insts.size ≤ k.ptr.index → k.after c loc = {0} := fun hle =>
      hin.start_after hcatch.ptr (Nat.le_trans le₁.size_le hle)
    refine tallies_of_le le₁ (tallies_leaveFor hp hstart fun w₂ le₂ => ?_)
    refine tallies_bind tallies_flowInto fun w₃ _ le₃ => ?_
    have hstop := hcatch.toAdmits.since ((le₁.trans le₂).trans le₃).toSince
    exact tallies_of_le le₃ (tallies_br hstop)
  cases value with
  | some value =>
    have ha : Dest k c w value loc := ⟨hcatch.ptr, fun hl hloc =>
      (hcatch.target hl hloc).imp_right fun hD hst => hn.values hst label value hD (.here hk)⟩
    have hvalue := hp.expr hin (hn.outer (by simp [hk])) ha
    exact tallies_bind hvalue (fun w₁ v d₁ => rest w₁ v d₁.le) hs v s' hr
  | none =>
    have hvalue : Tallies k env c (k.after c loc) w (emitVoid scope node.location) fun w' _ =>
        Le w w' := by
      refine tallies_subset (tallies_mono tallies_emitVoid fun _ _ h => h.1) fun w' _ le hl => ?_
      refine Probe.subset_after fun hloc => ?_
      obtain ⟨hc, hD⟩ := hcatch.target (le.live hl) hloc
      exact ⟨hc, fun hst => hn.carries hst label hD (.here hk)⟩
    exact tallies_bind hvalue (fun w₁ v le₁ => rest w₁ v le₁) hs v s' hr

include hp in
theorem tallies_lowerContinue {label : Option String} (hin : In k c D w scope) :
    Tallies k env c ∅ w (lowerContinue parts node label scope) fun w' v =>
      Le w w' ∧ Val k w' v ∧ w'.state.stream.isTerminated = true := by
  intro hs v s' hr
  obtain ⟨target, z, step, hleads, hstep, hr⟩ := returns_lowerContinue hr
  obtain ⟨y, hy, htarget⟩ := hs.scopes.target?_of_found (.inr hleads.found) hleads.stays
    (ne_root_of_exits hs.root hleads.scope? (mem_exits_of_continueBlock? hstep))
  obtain rfl := Option.some.inj (hy.symm.trans hleads.scope?)
  have hadmits := hin.step label target y.kind step htarget hstep
  exact tallies_leaveFor hp hin.start (fun w₁ le₁ => tallies_br (hadmits.since le₁.toSince))
    hs v s' hr

theorem tallies_checkFnExit_bind {exit : FnExit} {f : PUnit → LowerM α}
    (h : Tallies k env c c' w (f ⟨⟩) Q) :
    Tallies k env c c' w (checkFnExit node scope exit >>= f) Q :=
  tallies_of_imp h fun a s' hr => by
    obtain ⟨_, t, h₁, hr⟩ := returns_bind.1 hr
    obtain ⟨rfl, -⟩ := returns_checkFnExit h₁
    exact hr

theorem tallies_ret {operand : Option InstId} {force gen : Bool} :
    Tallies k env c ∅ w (emitWith (.ret operand) scope location force gen) fun w' v =>
      Le w w' ∧ Val k w' v ∧ w'.state.stream.isTerminated = true :=
  tallies_endWith rfl fun _ h => absurd h List.not_mem_nil

/-- A return, unless the deferred expressions end the block, and what comes in the next block. -/
theorem tallies_retUnlessTerminated {x : LowerM α} {gen : Bool}
    (hx : ∀ w', Le w w' → Tallies k env ∅ c' w' x Q) :
    Tallies k env c c' w (do
      if !(← isTerminated) then
        let _ ← emitWith (.ret (some v)) scope location false gen
      x) Q := by
  refine tallies_isTerminated_bind (fun ht => ?_) fun _ => ?_
  · exact fun hs => hx w (.refl w) (hs.of_isTerminated ht)
  · exact tallies_bind tallies_ret fun w₁ _ h => hx w₁ h.1

include hp in
theorem tallies_emitErrReturn (hin : In k c D w scope) :
    Tallies k env c c w (emitErrReturn parts node v scope) fun w' _ => Le w w' := by
  refine tallies_bind (tallies_emitPlain rfl nofun nofun nofun) fun w₁ isErr ⟨le₁, _⟩ => ?_
  refine tallies_bind (tallies_newBlock c (.nil le₁)) fun w₂ errBlock ⟨_, p⟩ => ?_
  refine tallies_bind (tallies_newBlock c p) fun w₃ okBlock ⟨_, p⟩ => ?_
  refine tallies_bind (tallies_condBr (p.admits (by simp)) (p.admits (by simp))) fun w₄ _ le₄ => ?_
  refine tallies_bind (tallies_goto (p.after le₄)) fun w₅ _ ⟨_, p⟩ => ?_
  refine tallies_bind (tallies_runDefers hp (hin.since p.since).start) fun w₆ _ le₆ => ?_
  refine tallies_retUnlessTerminated fun w₇ le₇ => ?_
  exact tallies_mono (tallies_goto (p.after (le₆.trans le₇))) fun _ _ h => h.2.le

include hp in
/-- The ways out of the function for an operand: the errors are taken care of first. -/
theorem tallies_returnOperand {operand : Option InstId} (hin : In k c D w scope) :
    Tallies k env c ∅ w (do
      match if passesErrDefer (← scopesFrom scope) scope then operand else none with
      | some value => emitErrReturn parts node value scope
      | none => pure ⟨⟩
      runDefers parts scope none .normal
      if ← isTerminated then lastInst else emit (.ret operand) scope location) fun w' v =>
        Le w w' ∧ Val k w' v ∧ w'.state.stream.isTerminated = true := by
  refine tallies_scopesFrom_bind ?_
  split
  · refine tallies_bind (tallies_emitErrReturn hp hin) fun w₁ _ le₁ => ?_
    exact tallies_of_le le₁
      (tallies_leaveFor hp (hin.since le₁.toSince).start fun _ _ => tallies_ret)
  · exact tallies_leaveFor hp hin.start fun _ _ => tallies_ret

include hp in
theorem tallies_lowerReturn {value : Option Node} (hin : In k c D w scope)
    (hk : node.kind = .returnFrom value) (hn : Suits k D node) :
    Tallies k env c ∅ w (lowerReturn parts node value scope) fun w' v =>
      Le w w' ∧ Val k w' v ∧ w'.state.stream.isTerminated = true := by
  refine tallies_checkFnExit_bind ?_
  cases value with
  | none => exact tallies_returnOperand hp hin
  | some value =>
    have hvalue : Tallies k env c c w (some <$> parts.expr value scope .ret) fun w' _ =>
        Le w w' := by
      rw [map_eq_pure_bind]
      exact tallies_bind (hp.elsewhere hin (hn.outer (by simp [hk])) nofun) fun _ _ d =>
        tallies_pure d.le
    refine tallies_bind hvalue fun w₁ operand le₁ => ?_
    exact tallies_of_le le₁ (tallies_returnOperand hp (hin.since le₁.toSince))

include hp in
theorem tallies_lowerTry {expr : Node} (hin : In k c D w scope) (hk : node.kind = .tryExpr expr)
    (hn : Suits k D node) (ha : Dest k c w node loc) :
    Tallies k env c (k.after c loc) w (lowerTry parts node expr scope loc) fun w' v =>
      Le w w' ∧ Val k w' v := by
  refine tallies_checkFnExit_bind ?_
  refine tallies_bind (hp.value hin (hn.outer (by simp [hk]))) fun w₁ value d₁ => ?_
  refine tallies_bind (tallies_emitPlain rfl nofun nofun nofun) fun w₂ isErr ⟨le₂, _⟩ => ?_
  have p : Reserved w w₂ [] := .nil (d₁.le.trans le₂)
  refine tallies_bind (tallies_newBlock c p) fun w₃ errBlock ⟨_, p⟩ => ?_
  refine tallies_bind (tallies_newBlock c p) fun w₄ okBlock ⟨_, p⟩ => ?_
  refine tallies_bind (tallies_condBr (p.admits (by simp)) (p.admits (by simp))) fun w₅ _ le₅ => ?_
  refine tallies_bind (tallies_goto (p.after le₅)) fun w₆ _ ⟨_, p⟩ => ?_
  refine tallies_bind (tallies_emitPlain rfl nofun nofun nofun) fun w₇ code ⟨le₇, _⟩ => ?_
  have p := p.after le₇
  refine tallies_bind (tallies_runDefers hp (hin.since p.since).start) fun w₈ _ le₈ => ?_
  refine tallies_retUnlessTerminated fun w₉ le₉ => ?_
  refine tallies_bind (tallies_goto (p.after (le₈.trans le₉))) fun w₁₀ _ ⟨_, p⟩ => ?_
  refine tallies_bind (tallies_emitPlain rfl nofun nofun nofun) fun w₁₁ payload ⟨le₁₁, hv⟩ => ?_
  have le := p.le.trans le₁₁
  exact tallies_of_le le (tallies_deliver hv (ha.since le.toSince))

/-! ### Streams inside streams -/

/-- A routine over a fresh stream, in which every variable is treated as it should be. -/
theorem tallies_inChildStream_bind {name : String} {root : ScopeId} {x : LowerM β}
    {f : Nat × Option β → LowerM α}
    (hroot : ∃ y, w.state.scopes.scope? root = some y ∧ exits y.kind = [])
    (hx : ∀ ptr strict w', In ⟨k.root, ptr, strict⟩ {0} (fun _ => False) w' root →
      Tallies ⟨k.root, ptr, strict⟩ env {0} ∅ w' x fun w'' _ => Le w' w'')
    (hf : ∀ w' index b, Le w w' → Tallies k env c c' w' (f (index, some b)) Q)
    (hnone : ∀ t index b s', ¬ Returns (f (index, none)) env t b s') :
    Tallies k env c c' w (inChildStream name root x >>= f) Q := by
  intro hs a s'' hr
  obtain ⟨b, t, hb, hr⟩ := returns_inChildStream_bind hr fun t index => hnone t index a s''
  let start : Tally := ⟨w.state.inChild name root, fun _ => {0}⟩
  have hlt : root.index < w.state.scopes.scopes.size := by
    obtain ⟨y, hy, -⟩ := hroot
    exact (Array.getElem?_eq_some_iff.1 hy).1
  have hin : ∀ ptr strict, In ⟨k.root, ptr, strict⟩ {0} (fun _ => False) start root :=
    fun ptr strict => in_of_target?_eq_none hlt (fun _ => rfl) fun _ =>
      ScopeTree.target?_self hs.scopes hlt
  -- The body is lowered once, whatever is watched.
  have hrun : ∀ ptr strict, ∃ w', w'.state = t ∧ Sound ⟨k.root, ptr, strict⟩ ∅ w' ∧
      Le start w' := fun ptr strict =>
    hx ptr strict start (hin ptr strict) (.start rfl rfl hs.scopes hroot hs.deferred) b t hb
  have hchild := Sound.writesOnce (s := t) fun ptr strict => by
    obtain ⟨w', rfl, hs', -⟩ := hrun ptr strict
    exact ⟨∅, w'.counts, hs'⟩
  obtain ⟨w₁, rfl, hs₁, le₁⟩ := hrun k.ptr k.strict
  obtain ⟨hs₂, le₂⟩ := hs.withChild le₁.scopes hs₁.scopes hs₁.deferred hchild
  exact hf _ _ b le₂ hs₂ a s'' hr

/-- The body of a compile-time block. -/
theorem tallies_lowerComptimeBody (hp : TallyParts env parts) {expr : Node}
    (hin : In k c D w scope) (hn : Suits k D expr) :
    Tallies k env c ∅ w (lowerComptimeBody parts node expr scope) fun w' _ => Le w w' := by
  refine tallies_bind (hp.value hin hn) fun w₁ value d₁ => ?_
  refine tallies_isTerminated_bind (fun ht => tallies_pure_of_isTerminated ht d₁.le) fun _ => ?_
  exact tallies_bind tallies_ret fun w₂ _ h => tallies_pure (d₁.le.trans h.1)

include hp in
theorem tallies_lowerComptime {expr : Node} (hin : In k c D w scope)
    (hk : node.kind = .comptime expr) (hn : Suits k D node) (ha : Dest k c w node loc) :
    Tallies k env c (k.after c loc) w (lowerComptime parts node expr scope loc) fun w' v =>
      Le w w' ∧ Val k w' v := by
  have he : Suits k D expr := hn.outer (by simp [hk])
  refine tallies_bind (tallies_openScope hin rfl) fun w₁ inner ⟨le₁, hinner, x, hx, hkind⟩ => ?_
  refine tallies_bind (R := fun w' _ => w' = w₁)
    (tallies_scopesFrom_bind (tallies_get_bind (tallies_pure rfl))) ?_
  rintro w₁' atComptime rfl
  have ha := ha.since le₁.toSince
  split
  · exact tallies_mono (hp.expr hinner he (ha.imp fun h => h.needs hk)) fun _ _ d =>
      ⟨le₁.trans d.le, d.val⟩
  refine tallies_get_bind ?_
  dsimp only
  refine tallies_inChildStream_bind ⟨x, hx, by rw [hkind]; rfl⟩ (fun ptr strict w' hroot => ?_)
    (fun w₂ index u le₂ => ?_) fun t index v s' => not_returns_throw
  · refine tallies_mono (tallies_withFrame (Q := fun _ _ => True) (fun w'' le => ?_)
      fun _ _ _ _ h => h) fun _ _ h => h.1
    refine tallies_mono (tallies_lowerComptimeBody hp (hroot.since le.toSince) (.of_mem ?_))
      fun _ _ le' => ⟨le', trivial⟩
    exact he.mem
  · refine tallies_bind (tallies_emitPlain rfl nofun nofun nofun) fun w₃ v ⟨le₃, hv⟩ => ?_
    have le := le₂.trans le₃
    exact tallies_of_le (le₁.trans le) (tallies_deliver hv (ha.since le.toSince))

/-! ### Constructs that use their location themselves -/

/-- Storage that is there already is used. -/
theorem tallies_resultPtr_bind {ptr : InstId} {f : Option InstId → LowerM α}
    (h : Tallies k env c c' w (f (some ptr)) Q) :
    Tallies k env c c' w (resultPtr (.existing ptr) scope location >>= f) Q := by
  rw [resultPtr, pure_bind]
  exact h

section InPlace

variable (hin : In k c D w scope) (hc : k.Live w.state.stream → c ⊆ {0})

include hp hin hc

theorem tallies_fillCall {callee : Node} {args : List Node} {modifier : CallModifier}
    (hf : ∀ part ∈ (Kind.call callee args modifier).used, Suits k D part) :
    Tallies k env c k.ok w (lowerCall parts node callee args modifier scope (.existing k.ptr))
      fun w' v => Le w w' ∧ Val k w' v := by
  rw [lowerCall_eq]
  refine tallies_bind (holds_callOperands (L := tallying env k c D) hp.holds hf hin)
    fun w₁ operands ⟨le₁, _⟩ => tallies_resultPtr_bind ?_
  exact tallies_of_le le₁ (tallies_write rfl fun hl => hc (le₁.live hl))

/-- A struct is written once its fields are: those are written to pointers of their own. -/
theorem tallies_fillStruct {typeExpr : Option Node} {fields : List FieldInit}
    (hf : ∀ part ∈ (Kind.structInit typeExpr fields).used, Suits k D part) :
    Tallies k env c k.ok w (lowerStructInit parts node typeExpr fields scope (.existing k.ptr))
      fun w' v => Le w w' ∧ Val k w' v := by
  have hfields : ∀ field ∈ fields, Suits k D field.value := fun field h =>
    hf _ (List.mem_append_right _ (List.mem_map_of_mem h))
  have hloc : ∀ (w' : Tally) (field : FieldInit), Tallies k env c c w'
      (fieldLoc (some k.ptr) field scope) fun w'' loc => Le w' w'' ∧ ∀ p ∈ loc.ptr?, Val k w'' p :=
    fun w' field => tallies_bind (tallies_emitPlain rfl nofun nofun nofun) fun _ _ ⟨le, hv⟩ =>
      tallies_pure ⟨le, fun p hp => Option.some.inj hp ▸ hv⟩
  refine tallies_bind ((hp.holds (D := D)).comptimeValue?
    (fun part h => hf part (List.mem_append_left _ h)) hin)
    fun w₁ typeInst ⟨le₁, _⟩ => tallies_resultPtr_bind ?_
  refine tallies_bind (holds_lowerFieldInits (L := tallying env k c D) hp.holds hfields
    (hin.since le₁.toSince) fun w' field _ => hloc w' field) fun w₂ values ⟨le₂, _⟩ => ?_
  have le := le₁.trans le₂
  exact tallies_of_le le (tallies_write rfl fun hl => hc (le.live hl))

/-- An array is written once its elements are. -/
theorem tallies_fillArray {typeExpr : Option Node} {elements : List Node}
    (hf : ∀ part ∈ (Kind.arrayInit typeExpr elements).used, Suits k D part) :
    Tallies k env c k.ok w (lowerArrayInit parts node typeExpr elements scope (.existing k.ptr))
      fun w' v => Le w w' ∧ Val k w' v := by
  have helements : ∀ element ∈ elements, Suits k D element := fun element h =>
    hf _ (List.mem_append_right _ h)
  have hloc : ∀ (w' : Tally) (index : Nat) (element : Node), Tallies k env c c w'
      (elementLoc (some k.ptr) index element scope) fun w'' loc =>
        Le w' w'' ∧ ∀ p ∈ loc.ptr?, Val k w'' p := fun w' index element =>
    tallies_bind (tallies_emitPlain rfl nofun nofun nofun) fun _ _ ⟨le, _⟩ =>
      tallies_bind (tallies_emitPlain rfl nofun nofun nofun) fun _ _ ⟨le', hv⟩ =>
        tallies_pure ⟨le.trans le', fun p hp => Option.some.inj hp ▸ hv⟩
  refine tallies_bind ((hp.holds (D := D)).comptimeValue?
    (fun part h => hf part (List.mem_append_left _ h)) hin)
    fun w₁ typeInst ⟨le₁, _⟩ => tallies_resultPtr_bind ?_
  refine tallies_bind (holds_lowerElements (L := tallying env k c D) hp.holds helements
    (hin.since le₁.toSince) fun w' index element _ => hloc w' index element)
    fun w₂ values ⟨le₂, _⟩ => ?_
  have le := le₁.trans le₂
  exact tallies_of_le le (tallies_write rfl fun hl => hc (le.live hl))

end InPlace

/-! ### Every level of nesting -/

include hp in
/-- An expression that does not branch, brought to what is not watched. -/
theorem tallies_lowerPlain (hin : In k c D w scope) (hb : node.kind.branches = false)
    (hn : Suits k D node) (hl : ∀ p ∈ loc.ptr?, Val k w p) :
    Tallies k env c c w (lowerExpr parts node scope loc) fun w' v => Le w w' ∧ Val k w' v :=
  holds_lowerExpr (L := tallying env k c D) hp.holds hb (fun _ => rfl) (fun _ h => hn.used h) hin hl

include hp in
/-- An expression that does not branch, brought to the storage that is watched: the last instruction
writes to it, if the expression has a value. -/
theorem tallies_fill (hin : In k c D w scope) (hb : node.kind.branches = false)
    (hn : Suits k D node) (ha : Dest k c w node (.existing k.ptr)) :
    Tallies k env c k.ok w (lowerExpr parts node scope (.existing k.ptr)) fun w' v =>
      Le w w' ∧ Val k w' v := by
  have hc : k.Live w.state.stream → c ⊆ {0} := fun hl => (ha.target hl rfl).1
  have hused : ∀ part ∈ node.kind.used, Suits k D part := fun _ h => hn.used h
  have hplain : Tallies k env c c w (lowerExpr parts node scope .none) fun w' v =>
      Le w w' ∧ Val k w' v := tallies_lowerPlain hp hin hb hn nofun
  rw [← Probe.after_existing (c := c)]
  cases hd : node.kind.delivers with
  | false =>
    have hempty : ¬ node.Fills := fun h => Bool.false_ne_true (hd.symm.trans h.delivers)
    rw [lowerExpr_eq_of_delivers hd]
    exact tallies_subset hplain fun w' _ h hl => ha.subset (h.1.live hl) hempty
  | true =>
    cases hp' : node.kind.fillsInPlace with
    | false =>
      rw [lowerExpr_eq_bind_deliver hb hd hp']
      refine tallies_bind hplain fun w₁ v ⟨le₁, hv⟩ => ?_
      exact tallies_of_le le₁ (tallies_deliver hv (ha.since le₁.toSince))
    | true =>
      rw [lowerExpr, Probe.after_existing]
      cases h : node.kind <;> rw [h] at hp' hused
      case call => exact tallies_fillCall hp hin hc hused
      case structInit => exact tallies_fillStruct hp hin hc hused
      case arrayInit => exact tallies_fillArray hp hin hc hused
      all_goals cases hp'

include hp in
theorem tallies_lowerExpr (hin : In k c D w scope) (hn : Suits k D node)
    (ha : Dest k c w node loc) :
    Tallies k env c (k.after c loc) w (lowerExpr parts node scope loc) (Done k w node) := by
  have branch : ∀ {x : LowerM InstId}, node.kind.isJump = false →
      (Tallies k env c (k.after c loc) w x fun w' v => Le w w' ∧ Val k w' v) →
      Tallies k env c (k.after c loc) w x (Done k w node) := fun hj h =>
    tallies_mono h fun _ _ h => ⟨h.1, h.2, fun e => absurd (hj.symm.trans e) (by decide)⟩
  have jump : ∀ {x : LowerM InstId}, (Tallies k env c ∅ w x fun w' v =>
        Le w w' ∧ Val k w' v ∧ w'.state.stream.isTerminated = true) →
      Tallies k env c (k.after c loc) w x (Done k w node) := fun h =>
    tallies_of_empty (tallies_mono h fun _ _ h => ⟨h.1, h.2.1, fun _ => h.2.2⟩)
  cases hb : node.kind.branches with
  | false =>
    have hj : node.kind.isJump = false := by
      cases hk : node.kind <;> simp_all [Kind.branches, Kind.isJump]
    refine branch hj ?_
    by_cases hloc : loc = .existing k.ptr
    · subst hloc
      rw [Probe.after_existing]
      exact tallies_fill hp hin hb hn ha
    · rw [Probe.after_of_ne hloc]
      refine tallies_lowerPlain hp hin hb hn fun p hp => ⟨ha.ptr p hp, fun _ => ?_⟩
      rintro rfl
      cases loc <;> first | exact hloc (congrArg _ (Option.some.inj hp)) | cases hp
  | true =>
    rw [lowerExpr]
    cases hk : node.kind <;> rw [hk] at hb branch
    case root | fnDecl | param | varDecl | testDecl | containerDecl | containerField |
        errorSetDecl | deferred | suspend | asm | assign | assignOp | unaryOp | call |
        builtinCall | fieldAccess | arrayAccess | structInit | arrayInit | symbol | intLiteral |
        floatLiteral | stringLiteral | boolLiteral | nullLiteral | undefinedLiteral |
        errorValue => cases hb
    case block => exact branch rfl (tallies_lowerBlock hp hin hk hn ha)
    case comptime => exact branch rfl (tallies_lowerComptime hp hin hk hn ha)
    case ifThen => exact branch rfl (tallies_lowerIf hp hin hk hn ha)
    case whileLoop => exact branch rfl (tallies_lowerWhile hp hin hk hn ha)
    case forLoop => exact branch rfl (tallies_lowerFor hp hin hk hn ha)
    case tryExpr => exact branch rfl (tallies_lowerTry hp hin hk hn ha)
    case catchExpr => exact branch rfl (tallies_lowerCatch hp hin hk hn ha)
    case breakTo => exact jump (tallies_lowerBreak hp hin hk hn)
    case continueTo => exact jump (tallies_lowerContinue hp hin)
    case returnFrom => exact jump (tallies_lowerReturn hp hin hk hn)
    case unreachable => exact jump (tallies_endWith rfl fun _ h => absurd h List.not_mem_nil)
    case binaryOp op lhs rhs =>
      cases op
      case boolAnd | boolOr => exact branch rfl (tallies_lowerShortCircuit hp hin hk hn ha)
      case orElse => exact branch rfl (tallies_lowerOrElse hp hin hk hn ha)
      all_goals cases hb

/-- The routines for parts keep to the counts, however many levels of nesting are left. -/
theorem tallyParts_nested (levels : Nat) : TallyParts env (nested levels) := by
  have deep : ∀ {k : Probe} {c c' : Set Nat} {w : Tally} {node : Node} {α : Type}
      {Q : Tally → α → Prop}, Tallies k env c c' w (failDepth node) Q :=
    tallies_read_bind tallies_fail
  induction levels with
  | zero => exact ⟨fun _ _ _ => deep, fun _ _ => deep⟩
  | succ levels ih =>
    exact ⟨fun hin hn ha => tallies_lowerExpr ih hin hn ha,
      fun hin hn => tallies_lowerStatement ih hin hn⟩

end SourceIr.Lower
