import SourceIr.Proofs.Logic.Routines
import SourceIr.Proofs.Nesting.Pending
import SourceIr.Proofs.Nesting.Watched

/-!
# Runs without an alarm

A routine is calm if it raises no alarm.  Scopes that it opens and expressions that it defers do not
change what was pending before.

* `Calm`, the judgement, with the rules for what routines are made of;
* `calms`, the routines that are calm from every state;
* `Roomy`, the room that is left for a part, and `rooms`, the logic of routines whose parts have
  room;
* `calm_lowerStatements`, the run along the statements of a block.
-/

namespace SourceIr.Lower

/-- How a run ends that raises no alarm. -/
def CalmEnd {α : Type} (s : State) (Q : State → α → Prop) : Except Stop α × State → Prop
  | (.ok a, s') => Remembers s s' ∧ Q s' a
  | (.error .poisoned, s') => Remembers s s'
  | (.error (.fault f), _) => f ≠ alarmFault

/-- From a state, a routine raises no alarm; if it returns, then with this property. -/
def Calm (env : Env) (s : State) {α : Type} (x : LowerM α) (Q : State → α → Prop) : Prop :=
  Tidy s → CalmEnd s Q (outcome x env s)

variable {env : Env} {s s' : State} {α β : Type} {x : LowerM α} {f : α → LowerM β}
  {Q R : State → α → Prop} {scope : ScopeId}

/-! ### Rules -/

theorem calm_pure {a : α} (h : Q s a) : Calm env s (pure a) Q := fun _ => ⟨.refl s, h⟩

theorem calm_bind {Q : State → β → Prop} (hx : Calm env s x R)
    (hf : ∀ s' a, Remembers s s' → R s' a → Calm env s' (f a) Q) :
    Calm env s (x >>= f) Q := by
  intro ht
  have h := hx ht
  rw [outcome_bind]
  rcases ho : outcome x env s with ⟨(_ | _) | a, t⟩ <;> rw [ho] at h
  · exact h
  · exact h
  have hf := hf t a h.1 h.2 (h.1.tidy ht)
  dsimp only
  rcases ho' : outcome (f a) env t with ⟨(_ | _) | b, u⟩ <;> rw [ho'] at hf
  · exact h.1.trans hf
  · exact hf
  · exact ⟨h.1.trans hf.1, hf.2⟩

/-- A routine that reads the state goes on with what it finds. -/
theorem calm_get_bind {f : State → LowerM β} {Q : State → β → Prop} (h : Calm env s (f s) Q) :
    Calm env s (get >>= f) Q := h

theorem Calm.imp (hx : Calm env s x R) (h : ∀ s' a, Remembers s s' → R s' a → Q s' a) :
    Calm env s x Q := by
  intro ht
  have hx := hx ht
  rcases ho : outcome x env s with ⟨(_ | _) | a, t⟩ <;> rw [ho] at hx
  · exact hx
  · exact hx
  · exact ⟨hx.1, h t a hx.1 hx.2⟩

/-- A routine that leaves scopes and deferred expressions alone, and returns. -/
theorem calm_of_ok {a : α} (h : outcome x env s = (.ok a, s')) (hr : Remembers s s')
    (hQ : Q s' a) : Calm env s x Q := fun _ => by
  rw [h]
  exact ⟨hr, hQ⟩

theorem calm_step (hx : Step x) : Calm env s x fun _ _ => True := by
  intro _
  have h := hx.ends env s
  rcases ho : outcome x env s with ⟨(_ | _) | a, t⟩ <;> rw [ho] at h
  · exact h.elim
  · exact h.1
  · exact ⟨h.remembers, trivial⟩

theorem calm_fail {m : Message} : Calm env s (fail m) Q := by
  intro _
  obtain ⟨log, h⟩ := @outcome_fail α env s m
  rw [h]
  exact .of_eq rfl rfl

theorem calm_attempt (hx : Calm env s x R) :
    Calm env s (attempt x) fun s' r => ∀ a ∈ r, R s' a := by
  intro ht
  have h := hx ht
  rw [outcome_attempt]
  rcases ho : outcome x env s with ⟨(_ | _) | a, t⟩ <;> rw [ho] at h
  · exact ⟨h, nofun⟩
  · exact h
  · exact ⟨h.1, fun _ ha => Option.some.inj ha ▸ h.2⟩

/-- The walk outward from a scope leaves the state as it is. -/
theorem calm_scopesFrom : Calm env s (scopesFrom scope) fun s' t =>
    s' = s ∧ t = s.scopes ∧ t.WellFormed := by
  intro ht
  obtain ⟨f, hf, h⟩ | h := outcome_scopesFrom_cases (s := s) scope <;> rw [h]
  · exact hf
  · exact ⟨.refl s, rfl, rfl, ht.scopes⟩

/-- A scope is opened under one that is there. -/
theorem calm_openScope {kind : ScopeKind} : Calm env s (openScope scope kind) fun s' inner =>
    Tidy s ∧ scope.index < s.scopes.scopes.size ∧ inner = ⟨s.scopes.scopes.size⟩ ∧
      s' = { s with scopes := (s.scopes.openUnder scope kind).2 } := by
  intro ht
  have h := (step_openScope scope kind).ends env s
  obtain ⟨f, hf, ho⟩ | ⟨hlt, ho⟩ := outcome_openScope_cases (s := s) scope kind <;>
    rw [ho] at h ⊢
  · exact hf
  · exact ⟨h.remembers, ht, hlt, rfl, rfl⟩

theorem calm_defer {kind : DeferKind} {expr : Node} : Calm env s (do
      let after ← openScope scope (.deferred kind)
      remember after expr
      return after) fun s' after =>
    Tidy s ∧ scope.index < s.scopes.scopes.size ∧ after = ⟨s.scopes.scopes.size⟩ ∧
      s' = s.deferring scope kind expr := by
  intro ht
  rw [outcome_bind]
  obtain ⟨f, hf, ho⟩ | ⟨hlt, ho⟩ := outcome_openScope_cases (s := s) scope (.deferred kind) <;>
    rw [ho]
  · exact hf
  · exact ⟨remembers_deferring hlt, ht, hlt, rfl, rfl⟩

theorem calm_declare? (r : BindingRequest) :
    Calm env s (declare? scope r) fun _ _ => True := by
  intro _
  have h := outcome_declare? env s scope r
  generalize outcome (declare? scope r) env s = o at h
  cases h with
  | fault hf => exact hf
  | declared h => exact ⟨h.remembers, trivial⟩
  | refused => exact ⟨.refl s, trivial⟩

theorem calm_declare (r : BindingRequest) : Calm env s (declare scope r) fun _ _ => True :=
  calm_bind (calm_declare? r) fun s' result _ _ => by
    cases result with
    | ok var => exact calm_pure trivial
    | error m => exact calm_fail

theorem calm_orDeclareFailed (node : Node) (name : String) (hx : Calm env s x Q) :
    Calm env s (orDeclareFailed x node name scope) Q := by
  refine calm_bind (calm_attempt hx) fun s' r _ hr => ?_
  cases r with
  | some a => exact calm_pure (hr a rfl)
  | none =>
    refine calm_bind (calm_declare? _) fun t r _ _ => ?_
    have stop : ∀ u, Calm env u (throw .poisoned : LowerM α) Q := fun u _ => .refl u
    cases r with
    | ok var =>
      have hset : Calm env t (modify fun s => { s with failedVars := var :: s.failedVars } :
          LowerM PUnit) fun _ _ => True := calm_of_ok rfl (.of_eq rfl rfl) trivial
      exact calm_bind hset fun u _ _ _ => stop u
    | error m => exact stop t

theorem calm_withFrame {location : Option Location} {description : String}
    (hx : ∀ s', Remembers s s' → Calm env s' x Q)
    (hQ : ∀ s' s'' a, Remembers s' s'' → Q s' a → Q s'' a) :
    Calm env s (withFrame location description x) Q := by
  have set : ∀ (g : CallStack → CallStack) t, Calm env t
      (modify fun s => { s with calls := g s.calls } : LowerM PUnit)
      fun t' _ => Remembers t t' :=
    fun g t => calm_of_ok rfl (.of_eq rfl rfl) (.of_eq rfl rfl)
  refine calm_bind (set (·.push ⟨location, description⟩) s) fun t _ h _ => ?_
  refine calm_bind (calm_attempt (hx t h)) fun u r _ hr => ?_
  refine calm_bind (set (·.pop.2) u) fun v _ _ h => ?_
  cases r with
  | some a => exact calm_pure (hQ u v a h (hr a rfl))
  | none => exact fun _ => .refl v

/-- The stream of a routine may be one of its own. -/
theorem calm_inChildStream {name : String} {root : ScopeId}
    (hx : ∀ s', Remembers s s' → Calm env s' x R) :
    Calm env s (inChildStream name root x) fun _ _ => True := by
  intro ht
  have hstart : Remembers s (s.inChild name root) := .of_eq rfl rfl
  have h := hx _ hstart (hstart.tidy ht)
  have close : ∀ t, Remembers t (s.around t) := fun t => .of_eq rfl rfl
  rw [outcome_inChildStream]
  rcases ho : outcome x env (s.inChild name root) with ⟨(_ | _) | a, t⟩ <;> rw [ho] at h
  · exact ⟨hstart.trans (h.trans (close t)), trivial⟩
  · exact h
  · exact ⟨hstart.trans (h.1.trans (close t)), trivial⟩

theorem calm_isTerminated : Calm env s isTerminated fun _ _ => True := by
  intro _
  rw [isTerminated, outcome_bind, outcome_get]
  dsimp only
  cases h : s.stream.endFault? with
  | some f => exact endFault?_ne_alarm s.stream f h
  | none => exact ⟨.refl s, trivial⟩

theorem calm_warnAt {kind : DiagnosticKind} {message : String} {node : Node} :
    Calm env s (warnAt kind message node) fun _ _ => True :=
  calm_of_ok rfl (.of_eq rfl rfl) trivial

/-- The run along the statements of a block.  What is needed for the statements that are left, and
for the scope that they stand in, is kept by each one that completes, and lets one be left out. -/
theorem calm_lowerStatements {parts : Parts} {I : List Node → State → ScopeId → Prop}
    (mono : ∀ rest s s' scope, Remembers s s' → I rest s scope → I rest s' scope)
    (step : ∀ statement rest s scope, I (statement :: rest) s scope →
      Calm env s (parts.statement statement scope) fun s' next => I rest s' next)
    (skip : ∀ statement rest s scope, I (statement :: rest) s scope → I rest s scope)
    (done : ∀ rest s scope, I rest s scope → I [] s scope) (statements : List Node)
    (failed : Bool) (h : I statements s scope) :
    Calm env s (lowerStatements parts scope failed statements) fun s' last => I [] s' last := by
  have stop : ∀ (rest : List Node) (t : State) (scope : ScopeId) (failed : Bool), I rest t scope →
      Calm env t (if failed then throw .poisoned else return scope)
        fun s' last => I [] s' last := by
    intro rest t scope failed h
    cases failed with
    | true => exact fun _ => .refl t
    | false => exact calm_pure (done rest t scope h)
  induction statements generalizing s scope failed with
  | nil => exact stop [] s scope failed h
  | cons statement rest ih =>
    refine calm_bind calm_isTerminated fun t terminated hr _ => ?_
    have h := mono _ _ _ _ hr h
    split
    · exact calm_bind calm_warnAt fun u _ hr _ => stop _ u scope failed (mono _ _ _ _ hr h)
    refine calm_bind (calm_attempt (step statement rest t scope h)) fun u next hr hn => ?_
    cases next with
    | some next => exact ih failed (hn next rfl)
    | none =>
      refine calm_bind (x := read) (R := fun t _ => t = u) (calm_of_ok rfl (.refl u) rfl) ?_
      rintro _ e - rfl
      split
      · exact fun _ => .refl _
      · exact ih true (skip _ _ _ _ (mono _ _ _ _ hr h))

/-- The routines that are calm from every state. -/
def calms (env : Env) : NestedComparison where
  Rel x _ := ∀ s, Calm env s x fun _ _ => True
  rel_pure _ _ := calm_pure trivial
  rel_bind hx hf s := calm_bind (hx s) fun t a _ _ => hf a t
  rel_get _ h s := calm_get_bind (h s s)
  rel_lookup _ _ _ _ _ hx hy s := by
    refine calm_bind (x := read) (R := fun _ _ => True) (calm_of_ok rfl (.refl s) trivial)
      fun t e _ _ => ?_
    split
    · exact hx _ t
    · exact calm_step (step_emitWith _ _ _ _ _)
    · exact hy t
  rel_warnIdle _ _ h s := by
    refine calm_bind (x := read) (R := fun _ _ => True) (calm_of_ok rfl (.refl s) trivial)
      fun t e _ _ => ?_
    split
    · exact calm_bind calm_warnAt fun u _ _ _ => h u
    · exact h t
  rel_fault hf _ _ := hf
  rel_fail _ _ _ := calm_fail
  rel_unlessFailed _ h s := by
    refine calm_get_bind ?_
    split
    · exact fun _ => .refl s
    · exact h s
  rel_plain hx _ := calm_step hx.toStep
  rel_declare _ r _ _ := calm_declare r
  rel_defer _ _ _ _ := calm_defer.imp fun _ _ _ _ => trivial
  rel_orDeclareFailed node name _ h s := calm_orDeclareFailed node name (h s)
  rel_withFrame _ _ h _ := calm_withFrame (fun t _ => h t) fun _ _ _ _ _ => trivial
  rel_inChildStream _ _ hx hf _ h _ :=
    calm_bind (calm_inChildStream fun t _ => hx t) fun t r _ _ => by
      obtain ⟨unit, _ | a⟩ := r
      · rw [hf]
        exact fun _ => .refl t
      · exact h unit a t
  rel_lowerStatements h statements _ _ :=
    (calm_lowerStatements (I := fun _ _ _ => True) (fun _ _ _ _ _ _ => trivial)
      (fun statement _ s scope _ => h statement scope s) (fun _ _ _ _ _ => trivial)
      (fun _ _ _ _ => trivial) statements false trivial).imp fun _ _ _ _ => trivial

/-! ### Room for the parts -/

/-- Of the numbers of a unit's nodes there are enough left for some more nodes, next to those that
are being lowered as statements and as expressions. -/
structure Room (nodes ss es ids : List Nat) : Prop where
  statements : ∀ i, ss.count i + ids.count i ≤ nodes.count i
  exprs : ∀ i, es.count i + ids.count i ≤ nodes.count i

/-- There is room for an expression, next to what is pending where it stands.  It may be under way
as a statement already. -/
structure Roomy (nodes ss es p : List Nat) (node : Node) : Prop where
  statements : ∀ i, ss.count i + (node.kind.ids ++ p).count i ≤ nodes.count i
  exprs : ∀ i, es.count i + (node.ids ++ p).count i ≤ nodes.count i

variable {nodes ss es p q ids : List Nat} {node : Node}

theorem Room.weaken (h : Room nodes ss es ids) (hle : ∀ i, p.count i ≤ ids.count i) :
    Room nodes ss es p :=
  ⟨fun i => Nat.le_trans (Nat.add_le_add_left (hle i) _) (h.statements i),
    fun i => Nat.le_trans (Nat.add_le_add_left (hle i) _) (h.exprs i)⟩

theorem count_kind_ids_le (node : Node) (i : Nat) : node.kind.ids.count i ≤ node.ids.count i := by
  rw [node.ids_eq, List.count_cons]
  exact Nat.le_add_right _ _

/-- Where there is room for a node, there is for it as an expression. -/
theorem Room.roomy (h : Room nodes ss es (node.ids ++ p)) : Roomy nodes ss es p node := by
  refine ⟨fun i => ?_, h.exprs⟩
  have hs := h.statements i
  have hk := count_kind_ids_le node i
  rw [List.count_append] at hs ⊢
  omega

/-- Where there is room for what is below a construct, there is for each part of it. -/
theorem Room.part (h : Room nodes ss es (ids ++ p))
    (hle : ∀ i, node.ids.count i ≤ ids.count i) : Roomy nodes ss es p node := by
  refine (h.weaken fun i => ?_).roomy
  rw [List.count_append, List.count_append]
  exact Nat.add_le_add_right (hle i) _

/-- Where there is room for what is pending, there is for each part of it. -/
theorem Room.pending (h : Room nodes ss es p) (hle : ∀ i, node.ids.count i ≤ p.count i) :
    Roomy nodes ss es [] node :=
  (h.weaken fun i => by simpa using hle i).roomy

/-- An expression that is entered leaves room for what is below it. -/
theorem Roomy.enter (h : Roomy nodes ss es p node) :
    Room nodes ss (node.id :: es) (node.kind.ids ++ p) := by
  refine ⟨h.statements, fun i => ?_⟩
  have := h.exprs i
  simp only [node.ids_eq, List.cons_append, List.count_cons] at this ⊢
  omega

/-- A statement that is entered leaves room for what is below it. -/
theorem Room.enter (h : Room nodes ss es (node.ids ++ p)) :
    Room nodes (node.id :: ss) es (node.kind.ids ++ p) := by
  refine ⟨fun i => ?_, fun i => ?_⟩
  · have := h.statements i
    simp only [node.ids_eq, List.cons_append, List.count_cons] at this ⊢
    omega
  · have := h.exprs i
    simp only [node.ids_eq, List.cons_append, List.count_cons] at this ⊢
    omega

/-- A statement that is entered leaves room for itself as an expression. -/
theorem Room.enterSelf (h : Room nodes ss es (node.ids ++ p)) :
    Roomy nodes (node.id :: ss) es p node :=
  ⟨h.enter.statements, h.exprs⟩

/-- What a construct may rely on for its parts: those that there is room for raise no alarm.  A
statement leaves no more pending than is below it. -/
structure RoomyParts (env : Env) (nodes ss es : List Nat) (parts : Parts) : Prop where
  expr : ∀ {p node scope loc s}, Roomy nodes ss es p node → Within p s scope →
    Calm env s (parts.expr node scope loc) fun _ _ => True
  statement : ∀ {p node scope s}, Room nodes ss es (node.ids ++ p) → Within p s scope →
    Calm env s (parts.statement node scope) fun s' after =>
      Within (node.ids ++ p) s' after ∧
        ∀ target, ClearTo target (s'.scopes.links scope) → ClearTo target (s'.scopes.links after)

/-- The routines whose parts there is room for. -/
def rooms (env : Env) (nodes ss es p : List Nat) : Logic env := FreeLogic.toLogic {
  Point := State
  state := id
  Le := Remembers
  Val _ _ := True
  In := Within p
  Fit := Roomy nodes ss es p
  mayCall := true
  mayStore := true
  Holds w x Q := Calm env w x Q
  le_refl := .refl
  le_trans := .trans
  val_mono _ _ := trivial
  in_mono hr h := h.mono hr
  fit_used := fun {node} h part hpart => by
    refine ⟨fun i => ?_, fun i => ?_⟩
    · have := h.statements i
      have hk := Nat.le_trans (count_kind_ids_le part i) (Kind.count_used_le hpart i)
      rw [List.count_append] at this ⊢
      omega
    · have := h.exprs i
      have hk := Nat.le_trans (Kind.count_used_le hpart i) (count_kind_ids_le node i)
      rw [List.count_append] at this ⊢
      omega
  holds_pure := calm_pure
  holds_bind := calm_bind
  holds_get := fun {s} => calm_of_ok rfl (.refl s) ⟨rfl, rfl⟩
  holds_read := fun {s} => calm_of_ok rfl (.refl s) ⟨rfl, rfl⟩
  holds_set h := calm_of_ok rfl (.of_eq h.scopes h.deferred) trivial
  holds_scopesFrom _ := calm_scopesFrom
  holds_fail := calm_fail
  holds_throw := fun {α s} _ _ _ _ => .refl s
  holds_warnAt := calm_warnAt
  holds_emitWith _ _ _ := (calm_step (step_emitWith _ _ _ _ _)).imp fun _ _ _ _ => trivial
  holds_openScope h _ := calm_openScope.imp fun _ _ _ ⟨ht, _, hi, hs⟩ =>
    hi ▸ hs ▸ h.openUnder ht _
  holds_declare? _ _ := calm_declare? _
  holds_orDeclareFailed _ h := calm_orDeclareFailed _ _ h
  holds_withFrame := calm_withFrame }

theorem RoomyParts.holdsParts {parts : Parts} (hp : RoomyParts env nodes ss es parts) :
    (rooms env nodes ss es p).HoldsParts parts :=
  fun _ _ _ _ hf hs _ => (@hp.expr p _ _ _ _ hf hs).imp fun _ _ _ _ => trivial

end SourceIr.Lower
