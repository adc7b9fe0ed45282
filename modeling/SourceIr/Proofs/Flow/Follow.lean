import SourceIr.Lower.Expr
import SourceIr.Proofs.Flow.Exit

/-!
# Code that follows statements

What is to be shown of the routines: the machine does in the code that they add what a statement
does when it runs.  The stream `F` is the finished one, of which the code is a part.

* `Ends`, where the machine is when the run of a statement has ended;
* `Follower`, routines for parts whose code follows the statements that the parts are;
* `Follower.calls_lowerCall`, `Follower.exits_runDefersIn`,
  `Follower.follows_lowerStatements`: calls, deferred statements on a way out, the statements of a
  block.
-/

namespace SourceIr.Lower

open SourceIr.Stream

/-- Code may be added in a scope of a body. -/
structure Ready (env : Env) (cs : List String) (s : State) (scope : ScopeId) : Prop where
  fine : Fine s
  body : InBody env cs s scope

section Def

variable (F : Stream) (tests : Nat → Bool) (env : Env) (cs : List String)

/-- Where the machine is when the run of a statement has ended, after whose code the state is `s`:
at the end of the code, or on the way out. -/
def Ends (s : State) (ls : List Layer) (o : Outcome) (p : Pos) : Prop :=
  if o = .done then s.stream.isTerminated = false ∧ p = s.here
  else Exits F tests (Fed s) (fun _ => False) ls o p

/-- The code between two states does what a statement does. -/
structure Runs (s s' : State) (scope : ScopeId) (S : Stmt) : Prop where
  later : Later s s'
  follows : s'.stream.Grows F → ∀ m w,
    Follows F tests m (s.here, w) (S.exec tests m (armed (s.layers scope)) w)
      (Ends F tests s' (s.layers scope))

/-- The code between two states makes one call. -/
structure Calls (s s' : State) (c : String) : Prop where
  later : Later s s'
  goesOn : s'.stream.isTerminated = false
  calls : s'.stream.Grows F → ∀ w, Walk F tests (s.here, w) (s'.here, w.call c)

/-- The routines for parts add code that does what the parts do. -/
structure Follower (parts : Parts) : Prop where
  symbol : ∀ {node : Node} {c : String} {scope : ScopeId} {s s' : State} {v : InstId},
    node.kind = .symbol c → c ∈ cs → Ready env cs s scope →
    Returns (parts.expr node scope .none) env s v s' →
    v = s.stream.next ∧ ∃ d, Appends (.declRef d c false) s s'
  call : ∀ {node : Node} {c : String} {scope : ScopeId} {loc : ResultLoc} {s s' : State}
    {v : InstId}, node.called? = some c → c ∈ cs → Ready env cs s scope → loc.ptr? = none →
    loc ≠ .alloc → Returns (parts.expr node scope loc) env s v s' → Calls F tests s s' c
  expr : ∀ {node : Node} {S : Stmt} {scope : ScopeId} {s s' : State} {v : InstId},
    node.stmt? = some S → (∀ c ∈ S.callees, c ∈ cs) → Ready env cs s scope →
    s.stream.isTerminated = false → Returns (parts.expr node scope .discard) env s v s' →
    Runs F tests s s' scope S
  statement : ∀ {node : Node} {S : Stmt} {scope next : ScopeId} {s s' : State},
    node.stmt? = some S → (∀ c ∈ S.callees, c ∈ cs) → Ready env cs s scope →
    s.stream.isTerminated = false → Returns (parts.statement node scope) env s next s' →
    next = scope ∧ Runs F tests s s' scope S
  deferred : ∀ {node expr : Node} {kind : DeferKind} {scope next : ScopeId} {s s' : State},
    node.kind = .deferred kind expr → Ready env cs s scope →
    Returns (parts.statement node scope) env s next s' →
    next = ⟨s.scopes.scopes.size⟩ ∧ Opens s s' scope (.deferred kind) ∧
      s'.deferred.lookup next = some expr

end Def

variable {F : Stream} {tests : Nat → Bool} {env : Env} {cs : List String} {parts : Parts}
  {s s' t : State} {scope : ScopeId} {node : Node} {v : InstId} {loc : ResultLoc} {c : String}

theorem Ready.later (h : Ready env cs s scope) (hl : Later s s') : Ready env cs s' scope :=
  ⟨hl.fine h.fine, h.body.later h.fine hl⟩

theorem Ready.layers_eq (h : Ready env cs s scope) (hl : Later s s') :
    s'.layers scope = s.layers scope :=
  h.body.layers_eq h.fine hl

/-! ### Result locations -/

theorem returns_settle (hloc : loc ≠ .alloc) {location : Option Location} {loc' : ResultLoc}
    (h : Returns (settle loc scope location) env s loc' s') : loc' = loc ∧ s' = s := by
  cases loc with
  | alloc => exact absurd rfl hloc
  | _ => exact returns_pure.1 h

theorem returns_deliver (hptr : loc.ptr? = none) (hloc : loc ≠ .alloc) {value : InstId}
    {location : Option Location} (h : Returns (deliver value loc scope location) env s v s') :
    v = value ∧ s' = s := by
  cases loc with
  | existing ptr => cases hptr
  | alloc => exact absurd rfl hloc
  | _ => exact returns_pure.1 h

/-- Without storage the pointer is at most that of the function's result. -/
theorem returns_resultPtr (hptr : loc.ptr? = none) (hloc : loc ≠ .alloc)
    {location : Option Location} {ptr : Option InstId}
    (h : Returns (resultPtr loc scope location) env s ptr s') :
    s' = s ∨ Appends .returnPtr s s' := by
  cases loc with
  | existing ptr => cases hptr
  | alloc => exact absurd rfl hloc
  | ret =>
    obtain ⟨v, -, h⟩ := returns_map.1 h
    exact .inr (returns_emitWith h).2
  | _ => exact .inl (returns_pure.1 h).2

/-! ### Calls -/

theorem Ready.appends_lowerSymbol (h : Ready env cs s scope) (hc : c ∈ cs)
    (hr : Returns (lowerSymbol node c scope false) env s v s') :
    v = s.stream.next ∧ ∃ d, Appends (.declRef d c false) s s' := by
  obtain ⟨hprim, d, hd⟩ := h.body.lookup h.fine hc
  rw [lowerSymbol] at hr
  split at hr
  · exact absurd hr not_returns_fail
  rw [if_neg (by simp [hprim])] at hr
  replace hr := returns_scopesFrom_bind hr
  rw [returns_read_bind] at hr
  simp only [hd] at hr
  obtain ⟨rfl, ha⟩ := returns_emitWith hr
  exact ⟨rfl, d, ha⟩

theorem Follower.calls_lowerCall (hp : Follower F tests env cs parts) (hF : F.Coherent)
    {callee : Node} (hcallee : callee.kind = .symbol c) (hc : c ∈ cs) (hs : Ready env cs s scope)
    (hptr : loc.ptr? = none) (hloc : loc ≠ .alloc)
    (h : Returns (lowerCall parts node callee [] .auto scope loc) env s v s') :
    Calls F tests s s' c := by
  rw [lowerCall] at h
  replace h := returns_scopesFrom_bind h
  obtain ⟨_, t, h₁, h⟩ := returns_bind.1 h
  obtain rfl : s = t := by
    cases hforced : s.scopes.isForcedComptime scope <;> rw [hforced] at h₁ <;>
      exact (returns_pure.1 h₁).2.symm
  obtain ⟨target, s₁, h₂, h⟩ := returns_bind.1 h
  obtain ⟨rfl, d, ha⟩ := hp.symbol hcallee hc hs h₂
  dsimp only at h
  -- There are no arguments to lower, whether or not an evaluation is open meanwhile.
  have rest : ∀ (u : State) (values : List InstId) (force : Bool),
      Returns (do
        let ptr ← resultPtr loc scope node.location
        emitWith (.call s.stream.next values .auto ptr) scope node.location force false)
          env u v s' →
      u.stream = s₁.stream → Later s₁ u → Calls F tests s s' c := by
    intro u values force h hstream hu
    obtain ⟨ptr, s₂, h₃, h⟩ := returns_bind.1 h
    obtain ⟨-, hcall⟩ := returns_emitWith h
    have hs₁ : Fine s₁ := ha.later.fine hs.fine
    have hptr : Later u s₂ ∧ (s₂.stream.Grows F → Silent F tests u.here s₂.here) := by
      rcases returns_resultPtr hptr hloc h₃ with rfl | hptr
      · exact ⟨.refl _, fun _ => .refl _⟩
      · exact ⟨hptr.later, fun hg => hptr.silent hF hg rfl⟩
    have hu₂ : Later s₁ s₂ := hu.trans hptr.1
    refine ⟨(ha.later.trans hu₂).trans hcall.later, hcall.isTerminated (hu₂.fine hs₁), ?_⟩
    intro hg w
    have hg₂ := hcall.later.stream.trans hg
    have hg₁ := hu₂.stream.trans hg₂
    have hname : F.calleeName s.stream.next = c := by
      rw [Stream.calleeName, ha.inst? hg₁]
    have hhere : u.here = s₁.here := by rw [State.here, hstream, State.here]
    have hwalk : Walk F tests (s₂.here, w) (s'.here, w.call c) := hname ▸ hcall.calls hF hg
    exact (ha.silent hF hg₁ rfl w).trans ((hhere ▸ hptr.2 hg₂ w).trans hwalk)
  have hargs : ∀ (u u' : State) (values : List InstId),
      Returns (pure scope >>= fun argScope => lowerArgs parts argScope []) env u values u' →
      u = u' := by
    intro u u' values h
    exact (returns_pure.1 h).2.symm
  obtain ⟨comptime, u, h₃, h⟩ := returns_bind.1 h
  obtain rfl : s₁ = u := by
    rw [isComptimeAt] at h₃
    replace h₃ := returns_scopesFrom_bind h₃
    rw [returns_get_bind] at h₃
    exact (returns_pure.1 h₃).2.symm
  split at h
  · obtain ⟨values, u', h₄, h⟩ := returns_bind.1 h
    obtain ⟨t', ht', rfl⟩ := returns_withFrame h₄
    obtain rfl := hargs _ _ _ ht'
    exact rest _ values _ h rfl (later_of_eq rfl rfl rfl rfl)
  · obtain ⟨values, u', h₄, h⟩ := returns_bind.1 h
    obtain rfl := hargs _ _ _ h₄
    exact rest _ values _ h rfl (.refl _)

/-! ### Deferred statements on a way out -/

theorem returns_openScope {parent b : ScopeId} {kind : ScopeKind}
    (hp : parent.index < s.scopes.scopes.size) (h : Returns (openScope parent kind) env s b s') :
    b = ⟨s.scopes.scopes.size⟩ ∧ Opens s s' parent kind := by
  rw [openScope] at h
  obtain ⟨x, -, h⟩ := returns_scopeAt_bind h
  rw [returns_get_bind] at h
  obtain ⟨_, t, h₁, h⟩ := returns_bind.1 h
  obtain rfl := returns_set.1 h₁
  obtain ⟨rfl, rfl⟩ := returns_pure.1 h
  exact ⟨rfl, later_openScope hp, ScopeTree.scope?_openUnder parent kind, rfl⟩

/-- Nothing leaves a deferred statement. -/
theorem not_exits_deferredBody {fed : ScopeId → Prop} {G : Pos → Prop} {l : Layer}
    {ls : List Layer} {o : Outcome} {p : Pos} (hl : l.kind = .deferredBody) (ho : o ≠ .done) :
    ¬ Exits F tests fed G (l :: ls) o p := by
  rw [exits_cons_of_takes (by simp [Layer.takes, hl])]
  cases o with
  | done => exact absurd rfl ho
  | stopped => exact id
  | broke => simp [Layer.Lands, hl, breakBlock?]
  | continued => simp [Layer.Lands, hl, continueBlock?]
  | returned | failed => simp [Layer.Lands, hl, ScopeKind.isFn]

/-- A deferred statement that is lowered next to its scope is run to its end. -/
theorem Follower.follows_runDefer (hp : Follower F tests env cs parts) {x : Scope} {p : ScopeId}
    {expr : Node} {d : Stmt} {u : PUnit} (hx : s.scopes.scope? scope = some x)
    (hparent : x.parent = some p) (hd : expr.stmt? = some d) (hc : ∀ c ∈ d.callees, c ∈ cs)
    (hs : Ready env cs s p) (ht : s.stream.isTerminated = false)
    (h : Returns (runDefer parts scope expr) env s u s') :
    Later s s' ∧ (s'.stream.Grows F → ∀ m w,
      Follows F tests m (s.here, w) (d.exec tests m (armed (s.layers p)) w)
        fun o q => o = .done ∧ s'.stream.isTerminated = false ∧ q = s'.here) := by
  rw [runDefer] at h
  obtain ⟨y, hy, h⟩ := returns_scopeAt_bind h
  obtain rfl := Option.some.inj (hx.symm.trans hy)
  simp only [hparent, Option.getD_some] at h
  obtain ⟨b, s₁, h₁, h⟩ := returns_bind.1 h
  obtain ⟨rfl, hopens⟩ := returns_openScope hs.body.lt h₁
  obtain ⟨v, s₂, h₂, h⟩ := returns_bind.1 h
  obtain rfl : s₂ = s' := (returns_pure.1 h).2.symm
  have hready : Ready env cs s₁ ⟨s.scopes.scopes.size⟩ :=
    ⟨hopens.later.fine hs.fine, hopens.inBody hs.fine hs.body rfl nofun⟩
  have hrun := hp.expr hd hc hready (hopens.stream ▸ ht) h₂
  obtain ⟨d', hlayers⟩ := hopens.layers hs.fine hs.body
  refine ⟨hopens.later.trans hrun.later, fun hg m w => ?_⟩
  have hf := hrun.follows hg m w
  rw [hlayers, hopens.here] at hf
  refine Follows.mono hf fun q hq => ?_
  rw [Ends] at hq
  split at hq
  next ho => exact ⟨ho, hq⟩
  next ho => exact absurd hq (not_exits_deferredBody rfl ho)

/-- The deferred statements on a way out are run, up to the layer that takes it. -/
theorem Follower.exits_runDefersIn (hp : Follower F tests env cs parts) {o : Outcome}
    {path : ExitPath} (hpath : ∀ kind, path.runs kind = o.runs kind) {target : Option ScopeId}
    {ls : List Layer} {l : Layer} (ha : Aims o target ls l) {u : PUnit}
    (hs : Ready env cs s scope) (hls : s.layers scope = ls) (ht : s.stream.isTerminated = false)
    (h : Returns (runDefersIn parts path (ScopeTree.defersIn target (s.scopes.chain scope)))
      env s u s') :
    Later s s' ∧ (s'.stream.Grows F → ∀ fed G,
      (s'.stream.isTerminated = false → l.Lands F tests fed G o s'.here) →
      Exits F tests fed G ls o s.here) := by
  induction ha generalizing s scope with
  | @here l rest htakes htarget =>
    obtain ⟨x, hx⟩ : ∃ x, s.scopes.scope? scope = some x :=
      ⟨_, Array.getElem?_eq_getElem hs.body.lt⟩
    obtain ⟨rest', hl⟩ := layers_eq_cons hs.fine hx
    rw [hls] at hl
    obtain ⟨rfl, -⟩ := List.cons.inj hl
    have hnil : ScopeTree.defersIn target (s.scopes.chain scope) = [] := by
      rw [hs.fine.scopes.chain_eq hx, ScopeTree.defersIn]
      split
      · rfl
      next hne =>
        have hk := htarget.resolve_left hne
        cases hkind : x.kind <;> simp [State.layer, hkind, ScopeKind.endsJumps] at hk <;> rfl
    rw [hnil] at h
    obtain rfl : s = s' := (returns_pure.1 h).2.symm
    exact ⟨.refl s, fun _ fed G hl => (exits_cons_of_takes htakes).2 (hl ht)⟩
  | @outward l goal rest htakes htarget _ ih =>
    rcases hs.body with ⟨hx, hk, -⟩ | @⟨_, p, x, hx, hparent, -, hk, hd, hin⟩
    · -- The function takes every way out.
      obtain ⟨rest', hl⟩ := layers_eq_cons hs.fine hx
      rw [hls] at hl
      obtain ⟨rfl, -⟩ := List.cons.inj hl
      rename_i x
      cases hkind : x.kind <;> simp [hkind, ScopeKind.isFn] at hk
      simp [Layer.takes, State.layer, hkind] at htakes
    rw [layers_inner hs.fine hx hparent] at hls
    obtain ⟨rfl, hrest⟩ := List.cons.inj hls
    have hready : Ready env cs s p := ⟨hs.fine, hin⟩
    have hid : x.id = scope := hs.fine.scopes.id _ x hx
    have htarget : some x.id ≠ target := htarget
    rw [hs.fine.scopes.chain_eq hx, hparent, ScopeTree.defersIn, if_neg htarget] at h
    simp only [Option.map_some, Option.getD_some] at h
    cases hkind : x.kind with
    | deferred kind =>
      obtain ⟨expr, d, hexpr, hstmt, hcs⟩ := hd kind hkind
      simp only [hkind, runDefersIn, returns_get_bind, hid, hexpr, hpath] at h
      cases hruns : o.runs kind with
      | false =>
        simp only [hruns, Bool.false_eq_true, if_false] at h
        obtain ⟨hlater, hexits⟩ := ih hready hrest ht h
        refine ⟨hlater, fun hg fed G hl => ?_⟩
        rw [exits_cons_of_passes htakes (by simp [Layer.passing?, State.layer, hkind, hruns])]
        exact hexits hg fed G hl
      | true =>
        simp only [hruns, if_true] at h
        obtain ⟨u', s₁, h₁, h⟩ := returns_bind.1 h
        obtain ⟨hlater₁, hrun⟩ := hp.follows_runDefer hx hparent hstmt hcs hready ht h₁
        replace h := returns_isTerminated_bind h
        have hstmt? : (s.layer x).passing? o = some d := by
          simp [Layer.passing?, State.layer, hkind, hruns, hid, hexpr, hstmt]
        cases hterm : s₁.stream.isTerminated with
        | true =>
          -- Control does not get past the statement.
          rw [hterm, if_pos rfl] at h
          obtain rfl : s₁ = s' := (returns_pure.1 h).2.symm
          refine ⟨hlater₁, fun hg fed G _ => (exits_cons_of_runs htakes hstmt?).2 fun m w => ?_⟩
          exact (hrest ▸ hrun hg m w).mono fun q hq =>
            absurd (hq.2.1.symm.trans hterm) Bool.false_ne_true
        | false =>
          rw [hterm, if_neg Bool.false_ne_true, ← hlater₁.chain_eq hs.fine hin.lt] at h
          obtain ⟨hlater, hexits⟩ :=
            ih (hready.later hlater₁) ((hready.layers_eq hlater₁).trans hrest) hterm h
          refine ⟨hlater₁.trans hlater, fun hg fed G hl => ?_⟩
          refine (exits_cons_of_runs htakes hstmt?).2 fun m w => ?_
          refine (hrest ▸ hrun (hlater.stream.trans hg) m w).mono ?_
          rintro q ⟨ho, -, rfl⟩
          exact ⟨ho, hexits hg fed G hl⟩
    | fnDef _ | topLevel _ | container _ => simp [hkind, ScopeKind.endsJumps] at hk
    | _ =>
      simp only [hkind] at h
      obtain ⟨hlater, hexits⟩ := ih hready hrest ht h
      refine ⟨hlater, fun hg fed G hl => ?_⟩
      rw [exits_cons_of_passes htakes (by simp [Layer.passing?, State.layer, hkind])]
      exact hexits hg fed G hl

/-! ### The statements of a block -/

theorem later_addWarning (m : Message) : Later s { s with stream := s.stream.addWarning m } :=
  later_of_stream (·.addWarning m) ⟨fun _ _ => id, Nat.le_refl _⟩ (fun _ _ _ => rfl) rfl

theorem returns_warnAt {kind : DiagnosticKind} {message : String} {u : PUnit}
    (h : Returns (warnAt kind message node) env s u s') :
    Later s s' ∧ s'.here = s.here ∧ s'.stream.isTerminated = s.stream.isTerminated := by
  rw [warnAt, returns_get_bind] at h
  obtain ⟨_, t, h₁, h⟩ := returns_bind.1 h
  obtain rfl := returns_modify.1 h₁
  obtain rfl := returns_modify.1 h
  exact ⟨(later_addWarning _).trans (later_of_eq rfl rfl rfl rfl), rfl, rfl⟩

/-- Statements that control does not get to are left out. -/
theorem returns_lowerStatements_terminated {statements : List Node} {last : ScopeId}
    (ht : s.stream.isTerminated = true)
    (h : Returns (lowerStatements parts scope false statements) env s last s') :
    last = scope ∧ Later s s' ∧ s'.stream.isTerminated = true := by
  cases statements with
  | nil =>
    obtain ⟨rfl, rfl⟩ := returns_pure.1 h
    exact ⟨rfl, .refl _, ht⟩
  | cons statement rest =>
    rw [lowerStatements] at h
    replace h := returns_isTerminated_bind h
    rw [ht, if_pos rfl] at h
    obtain ⟨u, t, h₁, h⟩ := returns_bind.1 h
    obtain ⟨rfl, rfl⟩ := returns_pure.1 h
    obtain ⟨hlater, -, hterm⟩ := returns_warnAt h₁
    exact ⟨rfl, hlater, hterm.trans ht⟩

theorem returns_lowerStatements_cons {statement : Node} {rest : List Node} {last : ScopeId}
    (ht : s.stream.isTerminated = false)
    (h : Returns (lowerStatements parts scope false (statement :: rest)) env s last s') :
    ∃ next t, Returns (parts.statement statement scope) env s next t ∧
      Returns (lowerStatements parts next false rest) env t last s' := by
  rw [lowerStatements] at h
  replace h := returns_isTerminated_bind h
  rw [ht, if_neg Bool.false_ne_true] at h
  obtain ⟨r, t, h₁, h⟩ := returns_bind.1 h
  cases r with
  | some next => exact ⟨next, t, returns_attempt_some.1 h₁, h⟩
  | none =>
    rw [returns_read_bind] at h
    split at h
    · exact absurd h not_returns_throw
    · exact absurd h not_returns_lowerStatements

/-- A run that has ended otherwise than by going on leaves a list of statements. -/
theorem Ends.exits {ls : List Layer} {o : Outcome} {p : Pos} {fed : ScopeId → Prop}
    {G : Pos → Prop} (h : Ends F tests s ls o p) (ho : o ≠ .done) (hfed : ∀ t, Fed s t → fed t) :
    Exits F tests fed G ls o p := by
  rw [Ends, if_neg ho] at h
  exact h.mono hfed fun e => absurd e ho

theorem armed_deferred (id : ScopeId) (kind : DeferKind) (d : Option Stmt) (ls : List Layer) :
    armed (⟨id, .deferred kind, d⟩ :: ls) = (armed ls || kind == .error) := by
  cases kind <;> simp [armed]

/-- What the code of the statements of a block does, up to the deferred ones that run at its end. -/
theorem Follower.follows_lowerStatements (hp : Follower F tests env cs parts)
    {target last : ScopeId} {l : Layer} {statements : List Node} {R : Stmt}
    (hR : Node.stmts? statements = some R)
    (hc : ∀ c ∈ R.callees, c ∈ cs) (hs : Ready env cs s scope)
    (ht : s.stream.isTerminated = false) (htarget : target.index < s.scopes.scopes.size)
    (ha : Aims .done (some target) (s.layers scope) l)
    (h : Returns (lowerStatements parts scope false statements) env s last s') :
    Later s s' ∧ Ready env cs s' last ∧ Aims .done (some target) (s'.layers last) l ∧
      (s'.stream.Grows F → ∀ fed G, (∀ t, Fed s' t → fed t) →
        (s'.stream.isTerminated = false →
          Exits F tests fed G (s'.layers last) .done s'.here) →
        ∀ m w, Follows F tests m (s.here, w) (R.exec tests m (armed (s.layers scope)) w)
          (Exits F tests fed G (s.layers scope))) := by
  induction statements generalizing s scope R with
  | nil =>
    obtain rfl : Stmt.skip = R := Option.some.inj hR
    obtain ⟨rfl, rfl⟩ := returns_pure.1 h
    refine ⟨.refl _, hs, ha, fun _ fed G _ hG m w => ?_⟩
    exact .of_arrives (by simp [Stmt.exec]) (.refl _) (hG ht)
  | cons statement rest ih =>
    obtain ⟨next, s₁, h₁, h⟩ := returns_lowerStatements_cons ht h
    rcases Node.stmts?_cons hR with ⟨kind, expr, d, r, hkind, hd, hr, rfl⟩ | ⟨S, r, hS, hr, rfl⟩
    · -- The statements after a deferred one are run before it.
      obtain ⟨rfl, hopens, hlook⟩ := hp.deferred hkind hs h₁
      have hs₁ : Ready env cs s₁ ⟨s.scopes.scopes.size⟩ := by
        refine ⟨hopens.later.fine hs.fine, .inner hopens.scope rfl rfl rfl ?_
          (hs.later hopens.later).body⟩
        exact fun _ _ => ⟨expr, d, hlook, hd, fun c hm => hc c (by simp [Stmt.callees, hm])⟩
      have hlayers : s₁.layers ⟨s.scopes.scopes.size⟩ =
          ⟨⟨s.scopes.scopes.size⟩, .deferred kind, some d⟩ :: s.layers scope := by
        rw [layers_inner hs₁.fine hopens.scope rfl, hs.layers_eq hopens.later, State.layer, hlook,
          Option.bind_some, hd]
      have hne : some (⟨s.scopes.scopes.size⟩ : ScopeId) ≠ some target := by
        intro e
        have := congrArg ScopeId.index (Option.some.inj e)
        exact absurd htarget (by simp at this; omega)
      obtain ⟨hlater, hlast, haims, hf⟩ := ih hr (fun c hm => hc c (by simp [Stmt.callees, hm]))
        hs₁ (hopens.stream ▸ ht) (hopens.later.lt_scopes htarget)
        (hlayers ▸ .outward rfl hne ha) h
      refine ⟨hopens.later.trans hlater, hlast, haims, fun hg fed G hfed hG m w => ?_⟩
      have hrest := hf hg fed G hfed hG m w
      rw [hopens.here, hlayers, armed_deferred] at hrest
      rw [Stmt.exec_defer]
      refine hrest.andThen (fun ho => if_pos (.inl ho)) fun ho p hexits => ?_
      generalize r.exec tests m _ w = run at ho hexits ⊢
      let layer : Layer := ⟨⟨s.scopes.scopes.size⟩, .deferred kind, some d⟩
      have htakes : layer.takes run.1 = false := rfl
      have hpassing : layer.passing? run.1 = if run.1.runs kind then some d else none := rfl
      cases hruns : run.1.runs kind with
      | false =>
        rw [if_pos (.inr hruns)]
        exact .of_arrives ho (.refl _)
          ((exits_cons_of_passes htakes (hpassing.trans (if_neg (by simp [hruns])))).1 hexits)
      | true =>
        rw [if_neg (by simp [ho, hruns])]
        have hd := (exits_cons_of_runs htakes (hpassing.trans (if_pos hruns))).1 hexits m run.2
        refine hd.andThen (fun ho' => if_neg (by simp [ho'])) fun _ q hq => ?_
        rw [if_pos hq.1]
        exact .of_arrives ho (.refl _) hq.2
    · obtain ⟨hnext, hrun⟩ :=
        hp.statement hS (fun c hm => hc c (by simp [Stmt.callees, hm])) hs ht h₁
      obtain rfl : scope = next := hnext.symm
      cases hterm : s₁.stream.isTerminated with
      | true =>
        obtain ⟨hlast, hlater, hterm'⟩ := returns_lowerStatements_terminated hterm h
        obtain rfl : scope = last := hlast.symm
        have hlater' := hrun.later.trans hlater
        refine ⟨hlater', hs.later hlater', (hs.layers_eq hlater').symm ▸ ha, ?_⟩
        intro hg fed G hfed _ m w
        rw [Stmt.exec_seq]
        -- The first statement does not go on, for its code ends without.
        have hne : ∀ {r : Outcome × Track} {p : Pos},
            Ends F tests s₁ (s.layers scope) r.1 p → r.1 ≠ .done := by
          intro r p hend ho
          rw [Ends, if_pos ho] at hend
          exact absurd (hend.1.symm.trans hterm) Bool.false_ne_true
        refine (hrun.follows (hlater.stream.trans hg) m w).andThen
          (fun ho => if_neg (by simp [ho])) fun ho p hend => ?_
        rw [if_neg (hne hend)]
        exact .of_arrives ho (.refl _)
          (hend.exits (hne hend) fun t ht => hfed t (hlater.fed t ht))
      | false =>
        obtain ⟨hlater, hlast, haims, hf⟩ := ih hr (fun c hm => hc c (by simp [Stmt.callees, hm]))
          (hs.later hrun.later) hterm (hrun.later.lt_scopes htarget)
          ((hs.layers_eq hrun.later).symm ▸ ha) h
        refine ⟨hrun.later.trans hlater, hlast, haims, fun hg fed G hfed hG m w => ?_⟩
        rw [Stmt.exec_seq]
        refine (hrun.follows (hlater.stream.trans hg) m w).andThen
          (fun ho => if_neg (by simp [ho])) fun ho p hend => ?_
        by_cases hdone : (S.exec tests m (armed (s.layers scope)) w).1 = .done
        · rw [Ends, if_pos hdone] at hend
          rw [if_pos hdone, hend.2, ← hs.layers_eq hrun.later]
          exact hf hg fed G hfed hG m _
        · rw [if_neg hdone]
          exact .of_arrives ho (.refl _)
            (hend.exits hdone fun t ht => hfed t (hlater.fed t ht))

end SourceIr.Lower
