import SourceIr.Proofs.Flow.Follow
import SourceIr.Proofs.Layout.Control
import SourceIr.Proofs.Trim.Basic

/-!
# Nodes that control gets past

Whether a statement is reached is read off the last instruction of the current block.  After a
construct that joins its branches this is what joins them, whatever the branches do, as long as one
of them gets to its end.

* `Node.Passes`, the nodes that control gets past;
* `Completes`, the routines after which control goes on, with the rules for how they end;
* `LaysOn`, those that are laid out at a site, too;
* `passing`, the logic of the routines that do not branch.
-/

namespace SourceIr

/-- Control gets past a node, on some way through it that takes the branches of its tests as it
likes.  A jump is nowhere on that way, and nothing is asked of the others.  What comes after a block
with a label depends on the jumps to its end, so it is not relied on. -/
inductive Node.Passes : Node → Prop
  | plain {node : Node} (hb : node.kind.branches = false)
      (parts : ∀ part ∈ node.kind.used, Passes part) : Passes node
  | block {node : Node} {statements : List Node} (hk : node.kind = .block none statements)
      (hs : ∀ s ∈ statements, Passes s)
      (hd : ∀ s ∈ statements, ∀ expr, s.kind = .deferred .normal expr → Passes expr) : Passes node
  | comptime {node expr : Node} (hk : node.kind = .comptime expr) (he : Passes expr) : Passes node
  | ifThen {node condition thenBranch : Node} {payload : Option String} {elseBranch : Option Node}
      (hk : node.kind = .ifThen condition payload thenBranch elseBranch)
      (ht : Passes thenBranch) : Passes node
  | ifElse {node condition thenBranch : Node} {payload : Option String} {elseBranch : Option Node}
      (hk : node.kind = .ifThen condition payload thenBranch elseBranch)
      (he : ∀ e ∈ elseBranch, Passes e) : Passes node
  | whileLoop {node condition body : Node} {label payload : Option String}
      {step elseBranch : Option Node} {isInline : Bool}
      (hk : node.kind = .whileLoop label condition payload step body elseBranch isInline)
      (he : ∀ e ∈ elseBranch, Passes e) : Passes node
  | forLoop {node iterable body : Node} {label index : Option String} {item : String}
      {elseBranch : Option Node} {isInline : Bool}
      (hk : node.kind = .forLoop label iterable item index body elseBranch isInline)
      (he : ∀ e ∈ elseBranch, Passes e) : Passes node
  | tryExpr {node expr : Node} (hk : node.kind = .tryExpr expr) : Passes node
  | catchExpr {node lhs rhs : Node} {payload : Option String}
      (hk : node.kind = .catchExpr lhs payload rhs) : Passes node
  | logical {node lhs rhs : Node} {op : BinaryOperator} (hk : node.kind = .binaryOp op lhs rhs)
      (hop : op.isLogical = true) : Passes node

/-- Control gets past the parts whose values a node goes on to use. -/
theorem Node.Passes.used {node : Node} (h : node.Passes) :
    ∀ part ∈ node.kind.used, part.Passes := by
  cases h with
  | plain _ parts => exact parts
  | block hk | comptime hk | ifThen hk | ifElse hk | whileLoop hk | forLoop hk | tryExpr hk
  | catchExpr hk => simp [hk, Kind.used]
  | logical hk hop => simp [hk, Kind.used, hop]

/-- Whether a node is an `if` or a loop that may be gone past without entering it. -/
def Kind.lacksElse : Kind → Bool
  | .ifThen _ _ _ none | .whileLoop _ _ _ _ _ none _ | .forLoop _ _ _ _ _ none _ => true
  | _ => false

/-- Control gets past an `if` without `else`, and past a loop without one, whatever is in them. -/
theorem Node.passes_of_lacksElse {node : Node} (h : node.kind.lacksElse = true) :
    node.Passes := by
  unfold Kind.lacksElse at h
  split at h
  next hk => exact .ifElse hk nofun
  next hk => exact .whileLoop hk nofun
  next hk => exact .forLoop hk nofun
  next => cases h

namespace Lower

variable {env : Env} {s s' : State} {w : Site} {α β : Type} {x : LowerM α} {f : α → LowerM β}
  {kind : InstKind} {scope : ScopeId} {location : Option Location} {loc : ResultLoc}
  {force gen : Bool} {stop : BlockId} {incoming : List (BlockId × InstId)} {node : Node}
  {v : InstId} {Q : Site → α → Prop}

/-! ### Ends of routines -/

/-- Control goes on after a routine, if it returns. -/
def Completes (env : Env) (s : State) (x : LowerM α) : Prop :=
  ∀ a s', Returns x env s a s' → s'.GoesOn

/-- How a sequence ends depends on its last part. -/
theorem completes_last (h : ∀ a t, Completes env t (f a)) : Completes env s (x >>= f) := by
  intro b s' hr
  obtain ⟨a, t, -, hf⟩ := returns_bind.1 hr
  exact h a t b s' hf

theorem completes_bind (hx : Completes env s x) (h : ∀ a t, t.GoesOn → Completes env t (f a)) :
    Completes env s (x >>= f) := by
  intro b s' hr
  obtain ⟨a, t, ha, hf⟩ := returns_bind.1 hr
  exact h a t (hx a t ha) b s' hf

theorem completes_get_bind {f : State → LowerM α} (h : Completes env s (f s)) :
    Completes env s (get >>= f) :=
  fun a s' hr => h a s' (returns_get_bind.1 hr)

/-- A test of whether control goes on says so where it does. -/
theorem completes_goesOn_bind {f : Bool → LowerM α} (hs : s.GoesOn)
    (h : Completes env s (f false)) : Completes env s (isTerminated >>= f) := by
  intro a s' hr
  replace hr := returns_isTerminated_bind hr
  rw [hs] at hr
  exact h a s' hr

theorem completes_pure {a : α} (hs : s.GoesOn) : Completes env s (pure a) := by
  intro b s' hr
  obtain ⟨-, rfl⟩ := returns_pure.1 hr
  exact hs

/-- The instruction that is appended decides whether control goes on. -/
theorem completes_emitWith (hk : kind.isNoreturn = false) :
    Completes env s (emitWith kind scope location force gen) := by
  intro v s' hr
  rw [emitWith] at hr
  replace hr := returns_get_bind.1 (returns_scopesFrom_bind hr)
  split at hr
  next id stream happ =>
    obtain ⟨-, hcurrent, he⟩ := Stream.append_eq_ok.1 happ
    obtain ⟨rfl, rfl⟩ := Prod.mk.inj he
    obtain ⟨_, t, ht, hr⟩ := returns_bind.1 hr
    obtain rfl := returns_set.1 ht
    obtain ⟨-, rfl⟩ := returns_pure.1 hr
    exact (Stream.isTerminated_withNext hcurrent).trans hk
  next => exact absurd hr not_returns_throw

theorem completes_emitPlain (hk : kind.isPlain = true) :
    Completes env s (emitWith kind scope location force gen) :=
  completes_emitWith (by simpa using InstKind.goesOn_of_isPlain hk)

theorem completes_deliver (hs : s.GoesOn) : Completes env s (deliver v loc scope location) := by
  have store : ∀ t ptr, Completes env t (do
      let _ ← emitGen (.storePtr ptr v) scope location
      return v) := fun t ptr => completes_bind (completes_emitPlain rfl) fun _ _ => completes_pure
  cases loc with
  | existing ptr => exact store s ptr
  | alloc =>
    refine completes_bind (completes_bind (completes_emitPlain rfl) fun _ _ => completes_pure) ?_
    intro ptr t ht
    cases ptr with
    | some ptr => exact store t ptr
    | none => exact completes_pure ht
  | none | discard | ret => exact completes_pure hs

theorem completes_emitTo (hk : kind.isPlain = true) :
    Completes env s (emitTo kind scope location loc) :=
  completes_bind (completes_emitPlain hk) fun _ _ => completes_deliver

/-- Control goes on at the end of a construct if a value arrives there. -/
theorem completes_joinAt (h : incoming ≠ []) :
    Completes env s (joinAt stop incoming scope node) := by
  refine completes_last fun _ t => ?_
  cases incoming with
  | nil => exact absurd rfl h
  | cons => exact completes_emitWith rfl

/-- A value arrives at the end of a construct if control gets to the end of a branch. -/
theorem ne_nil_of_branchInto {r : List (BlockId × InstId)} (h : s.GoesOn ∨ incoming ≠ [])
    (hr : Returns (branchInto stop incoming v scope force) env s r s') : r ≠ [] := by
  replace hr := returns_isTerminated_bind hr
  cases ht : s.stream.isTerminated with
  | true =>
    rw [ht] at hr
    obtain ⟨rfl, -⟩ := returns_pure.1 hr
    exact h.resolve_left fun hs => Bool.false_ne_true (hs.symm.trans ht)
  | false =>
    rw [ht] at hr
    obtain ⟨source, t, -, hr⟩ := returns_bind.1 hr
    obtain ⟨_, u, -, hr⟩ := returns_bind.1 hr
    obtain ⟨rfl, -⟩ := returns_pure.1 hr
    simp

theorem completes_branchInto_bind {f : List (BlockId × InstId) → LowerM α}
    (h : s.GoesOn ∨ incoming ≠ []) (hf : ∀ r t, r ≠ [] → Completes env t (f r)) :
    Completes env s (branchInto stop incoming v scope force >>= f) := by
  intro a s' hr
  obtain ⟨r, t, hb, hr⟩ := returns_bind.1 hr
  exact hf r t (ne_nil_of_branchInto h hb) a s' hr

/-! ### Routines at a site -/

/-- A routine that is laid out, and after which control goes on if it did before. -/
def LaysOn (env : Env) (w : Site) (x : LowerM α) (Q : Site → α → Prop) : Prop :=
  w.state.GoesOn → Lays env w x fun w' a => Q w' a ∧ w'.state.GoesOn

/-- What can be said of the state at the end may be said of the site. -/
theorem lays_and {P : State → α → Prop} (hx : Lays env w x Q)
    (h : w.Good → ∀ a s', Returns x env w.state a s' → P s' a) :
    Lays env w x fun w' a => Q w' a ∧ P w'.state a := by
  intro hw a s' hr
  obtain ⟨w', rfl, hw', e, hQ⟩ := hx hw a s' hr
  exact ⟨w', rfl, hw', e, hQ, h hw a _ hr⟩

theorem laysOn_of_completes (hx : Lays env w x Q)
    (h : w.Good → w.state.GoesOn → Completes env w.state x) : LaysOn env w x Q :=
  fun hs => lays_and hx fun hw => h hw hs

theorem LaysOn.completes (h : LaysOn env w x Q) (hw : w.Good) (hs : w.state.GoesOn) :
    Completes env w.state x := by
  intro a s' hr
  obtain ⟨w', rfl, -, -, -, hgo⟩ := h hs hw a s' hr
  exact hgo

theorem LaysOn.completes_bind {f : α → LowerM β} (hx : LaysOn env w x Q) (hw : w.Good)
    (hs : w.state.GoesOn) (hf : ∀ w' a, w'.Good → w'.state.GoesOn → Site.Ext w w' → Q w' a →
      Completes env w'.state (f a)) : Completes env w.state (x >>= f) := by
  intro b s' hr
  obtain ⟨a, t, ha, hr⟩ := returns_bind.1 hr
  obtain ⟨w', rfl, hw', e, hQ, hgo⟩ := hx hs hw a t ha
  exact hf w' a hw' hgo e hQ b s' hr

/-- A routine that leaves the blocks alone. -/
theorem laysOn_of_stream (hx : Lays env w x Q)
    (h : ∀ a s', Returns x env w.state a s' → s'.stream = w.state.stream) : LaysOn env w x Q :=
  laysOn_of_completes hx fun _ hs a s' hr => by rwa [State.GoesOn, h a s' hr]

theorem laysOn_pure {a : α} (h : Q w a) : LaysOn env w (pure a) Q := fun hs => lays_pure ⟨h, hs⟩

theorem laysOn_bind {R : Site → α → Prop} {Q : Site → β → Prop} (hx : LaysOn env w x R)
    (hf : ∀ w' a, Site.Ext w w' → R w' a → LaysOn env w' (f a) Q) : LaysOn env w (x >>= f) Q :=
  fun hs => lays_bind (hx hs) fun w' a e h => hf w' a e h.1 h.2

theorem laysOn_mono {R : Site → α → Prop} (hx : LaysOn env w x R)
    (hQ : ∀ w' a, Site.Ext w w' → R w' a → Q w' a) : LaysOn env w x Q :=
  fun hs => lays_mono (hx hs) fun w' a e h => ⟨hQ w' a e h.1, h.2⟩

/-! ### The logic of the routines that do not branch -/

/-- The logic of the routines that leave no block behind and that control gets past, where variables
are declared in scopes from the position `n` on. -/
def passing (env : Env) (n : Nat) : Logic env :=
  { layout env n with
    Fit := Node.Passes
    Holds := fun w x Q => n ≤ w.state.scopes.scopes.size →
      LaysOn env w x fun w' a => w.LeFrom n w' ∧ Q w' a
    fit_used := Node.Passes.used
    holds_pure := fun h hn => laysOn_of_completes ((layout env n).holds_pure h hn)
      fun _ => completes_pure
    holds_bind := fun hx hf hn => laysOn_bind (hx hn) fun w' a e ⟨le, ha⟩ =>
      laysOn_mono (hf w' a le ha (Nat.le_trans hn e.scopes.size_le)) fun _ _ _ ⟨le', hb⟩ =>
        ⟨le.trans le', hb⟩
    holds_get := fun hn => laysOn_of_stream ((layout env n).holds_get hn) fun _ _ hr => by
      rw [(returns_get.1 hr).2]
    holds_read := fun hn => laysOn_of_stream ((layout env n).holds_read hn) fun _ _ hr => by
      rw [(returns_read.1 hr).2]
    holds_set := fun h hn => laysOn_of_stream ((layout env n).holds_set h hn) fun _ _ hr =>
      (congrArg State.stream (returns_set.1 hr)).trans h.stream
    holds_scopesFrom := fun hs hn => laysOn_of_stream ((layout env n).holds_scopesFrom hs hn)
      fun _ _ hr => by rw [(returns_scopesFrom hr).2]
    holds_fail := fun _ _ => lays_fail
    holds_throw := fun _ _ _ => lays_throw
    holds_warnAt := fun hn => laysOn_of_completes ((layout env n).holds_warnAt hn)
      fun _ hs _ _ hr => (returns_warnAt hr).2.2.trans hs
    holds_emitWith := fun hs hv hk h hn => laysOn_of_completes
      ((layout env n).holds_emitWith hs hv hk h hn) fun _ _ =>
        completes_emitPlain (Bool.and_eq_true_iff.1 hk).1
    holds_varPtr := fun hs h hn => laysOn_of_completes ((layout env n).holds_varPtr hs h hn)
      fun _ _ => completes_emitPlain rfl
    holds_openScope := fun {w parent kind} hs hk hn =>
      laysOn_of_stream ((layout env n).holds_openScope hs hk hn) fun _ _ hr => by
        have hs : w.In w.current parent := hs
        rw [Returns, outcome_openScope hs.index] at hr
        rw [← (Prod.mk.inj hr).2]
    holds_declareVar := fun ho hr hv hptr hn => laysOn_of_completes
      ((layout env n).holds_declareVar ho hr hv hptr hn) fun _ _ =>
        completes_last fun _ _ => completes_emitPlain rfl
    holds_orDeclareFailed := fun hl h hn hs => lays_orDeclareFailed (h hn hs)
    holds_withFrame := fun {_ w x Q _ _} hx hQ hn hs => by
      refine lays_mono (lays_withFrame n (Q := fun w' a => Q w' a ∧ w'.state.GoesOn)
        (fun w' le q => ?_) fun w' a state hw q h => ?_) fun _ _ _ ⟨le, h, go⟩ => ⟨⟨le, h⟩, go⟩
      · have hs : w'.state.GoesOn := by rwa [State.GoesOn, q.stream]
        exact lays_mono (hx w' le (Nat.le_trans hn le.scopes.size_le) hs)
          fun _ _ _ ⟨⟨le, h⟩, go⟩ => ⟨le, h, go⟩
      · exact ⟨hQ w' _ a (hw.leFrom_quiet q) h.1, by rw [State.GoesOn, q.stream]; exact h.2⟩ }

/-- What the logic says of a routine that declares variables in new scopes only. -/
theorem laysOn_of_holds (h : (passing env w.state.scopes.scopes.size).Holds w x Q) :
    LaysOn env w x fun w' a => w.Le w' ∧ Q w' a :=
  laysOn_mono (h (Nat.le_refl _)) fun _ _ _ ⟨le, ha⟩ => ⟨le.le (Nat.le_refl _), ha⟩

end Lower

end SourceIr
