import SourceIr.Lower.Expr
import SourceIr.Proofs.Flow.Later
import SourceIr.Proofs.Logic.Routines

/-!
# Blocks without a rest

Once an instruction has ended a block, nothing more is appended to it, as long as no operand ends
the code that its value is used in.

* `Stream.Trim`, a stream without instructions after those that end their blocks;
* `Node.Orderly`, the nodes without operands that end the code they stand in;
* `Adds`, `Code`, how states change; `Trims`, the routines that keep blocks without a rest;
* `trim`, the logic of the routines that do not branch;
* `Unfilled`, the blocks that are still to be filled.
-/

namespace SourceIr

/-- Nothing in a block comes after an instruction that ends it. -/
def Stream.Trim (s : Stream) : Prop :=
  ∀ b before x after, s.instsIn b = before ++ x :: after → x.kind.isNoreturn = true → after = []

/-- The expression that a statement defers. -/
def Kind.deferred? : Kind → Option Node
  | .deferred _ expr => some expr
  | _ => none

/-- No operand in a node ends the code in which its value is used.  With `on`, the node does not end
the code that it stands in either.  What a labelled block does depends on the jumps to its end, so
it is not relied on. -/
inductive Node.Orderly : Bool → Node → Prop
  | plain {on : Bool} {node : Node} (hb : node.kind.branches = false)
      (deferred : ∀ expr ∈ node.kind.deferred?, Orderly true expr)
      (parts : ∀ part ∈ node.kind.used, Orderly true part) : Orderly on node
  | block {on : Bool} {node : Node} {label : Option String} {statements : List Node}
      (hk : node.kind = .block label statements) (hl : on = true → label = none)
      (hs : ∀ s ∈ statements, Orderly on s) : Orderly on node
  | comptime {on : Bool} {node expr : Node} (hk : node.kind = .comptime expr)
      (he : Orderly on expr) : Orderly on node
  | ifThen {on o o' : Bool} {node condition thenBranch : Node} {payload : Option String}
      {elseBranch : Option Node} (hk : node.kind = .ifThen condition payload thenBranch elseBranch)
      (hc : Orderly true condition) (ht : Orderly o thenBranch)
      (he : ∀ e ∈ elseBranch, Orderly o' e) (ho : on = true → o = true ∨ o' = true) :
      Orderly on node
  | whileLoop {on : Bool} {node condition body : Node} {label payload : Option String}
      {step elseBranch : Option Node} {isInline : Bool}
      (hk : node.kind = .whileLoop label condition payload step body elseBranch isInline)
      (hc : Orderly true condition) (hs : ∀ e ∈ step, Orderly false e) (hb : Orderly false body)
      (he : ∀ e ∈ elseBranch, Orderly on e) : Orderly on node
  | forLoop {on : Bool} {node iterable body : Node} {label index : Option String} {item : String}
      {elseBranch : Option Node} {isInline : Bool}
      (hk : node.kind = .forLoop label iterable item index body elseBranch isInline)
      (hi : Orderly true iterable) (hb : Orderly false body)
      (he : ∀ e ∈ elseBranch, Orderly on e) : Orderly on node
  | breakTo {node : Node} {label : Option String} {value : Option Node}
      (hk : node.kind = .breakTo label value) (hv : ∀ v ∈ value, Orderly true v) :
      Orderly false node
  | continueTo {node : Node} {label : Option String} (hk : node.kind = .continueTo label) :
      Orderly false node
  | returnFrom {node : Node} {value : Option Node} (hk : node.kind = .returnFrom value)
      (hv : ∀ v ∈ value, Orderly true v) : Orderly false node
  | unreachable {node : Node} (hk : node.kind = .unreachable) : Orderly false node
  | tryExpr {on : Bool} {node expr : Node} (hk : node.kind = .tryExpr expr)
      (he : Orderly true expr) : Orderly on node
  | catchExpr {on : Bool} {node lhs rhs : Node} {payload : Option String}
      (hk : node.kind = .catchExpr lhs payload rhs) (hl : Orderly true lhs)
      (hr : Orderly false rhs) : Orderly on node
  | logical {on : Bool} {node lhs rhs : Node} {op : BinaryOperator}
      (hk : node.kind = .binaryOp op lhs rhs) (hop : op.isLogical = true)
      (hl : Orderly true lhs) (hr : Orderly false rhs) : Orderly on node

namespace Node.Orderly

variable {on : Bool} {node : Node}

/-- The parts of a node that does not branch. -/
theorem plain_parts (h : node.Orderly on) (hb : node.kind.branches = false) :
    (∀ expr ∈ node.kind.deferred?, Orderly true expr) ∧
      ∀ part ∈ node.kind.used, Orderly true part := by
  cases h with
  | plain _ deferred parts => exact ⟨deferred, parts⟩
  | logical hk hop => simp [hk, Kind.branches, hop] at hb
  | block hk | comptime hk | ifThen hk | whileLoop hk | forLoop hk | breakTo hk | continueTo hk
  | returnFrom hk | unreachable hk | tryExpr hk | catchExpr hk =>
    rw [hk] at hb
    cases hb

/-- The parts of what is itself a part are parts that go on. -/
theorem used (h : node.Orderly true) : ∀ part ∈ node.kind.used, Orderly true part := by
  intro part hpart
  cases hb : node.kind.branches with
  | false => exact (h.plain_parts hb).2 part hpart
  | true =>
    -- What branches has no parts whose values it goes on to use.
    cases hk : node.kind <;> rw [hk] at hb hpart <;> simp_all [Kind.branches, Kind.used]

end Node.Orderly

namespace Stream

variable {s : Stream}

/-- A stream without instructions has no rest. -/
theorem trim_of_insts_eq (h : s.insts = #[]) : s.Trim := by
  intro b before x after hb
  simp [instsIn, h] at hb

/-- Only the last instruction of a block ends it. -/
theorem Trim.isNoreturn_eq_false (hs : s.Trim) {b : BlockId} {x : Inst}
    (hx : x ∈ (s.instsIn b).dropLast) : x.kind.isNoreturn = false := by
  rcases List.eq_nil_or_concat (s.instsIn b) with hb | ⟨init, last, hb⟩
  · simp [hb] at hx
  · rw [hb, List.concat_eq_append, List.dropLast_concat] at hx
    obtain ⟨before, after, rfl⟩ := List.append_of_mem hx
    rw [← Bool.not_eq_true]
    intro hend
    have := hs b before x (after ++ [last]) (by simp [hb]) hend
    simp at this

/-- An instruction is appended to a block that has no end. -/
theorem Trim.withNext {kind : InstKind} {scope : ScopeId} {location : Option Location}
    {isComptime isGen : Bool} (hs : s.Trim) (hends : ¬ s.Ends s.currentBlock) :
    (s.withNext kind scope location isComptime isGen).Trim := by
  intro b before x after hb hx
  rw [instsIn_withNext] at hb
  split at hb
  next hcur =>
    subst hcur
    rcases List.eq_nil_or_concat after with rfl | ⟨init, last, rfl⟩
    · rfl
    -- The instruction would have ended the block before.
    · have hinit : s.instsIn s.currentBlock = before ++ x :: init := by
        rw [List.concat_eq_append, ← List.cons_append, ← List.append_assoc] at hb
        exact (List.append_inj' hb rfl).1
      obtain rfl := hs _ _ _ _ hinit hx
      exact absurd ⟨x, by rw [hinit]; simp, hx⟩ hends
  next => exact hs b before x after hb hx

end Stream

namespace Lower

open SourceIr.Stream

variable {env : Env} {s s' s'' s₀ : State} {α β : Type} {on : Bool} {b : BlockId}

/-- Control gets to where code is added. -/
def State.GoesOn (s : State) : Prop := s.stream.isTerminated = false

/-- The blocks have no rest, and what is deferred does not end the code that it is run in. -/
structure Trimmed (s : State) : Prop extends Fine s where
  trim : s.stream.Trim
  children : ∀ c ∈ s.stream.children, ∀ t : Stream, t.PartOf c → t.Trim
  deferred : ∀ d ∈ s.deferred, d.2.Orderly true

/-- Between two states the blocks that were there are left alone, except the one that code is added
to. -/
structure Adds (s s' : State) : Prop where
  blocks : s.stream.blocks.size ≤ s'.stream.blocks.size
  others : ∀ b, b.index < s.stream.blocks.size → b ≠ s.stream.currentBlock →
    s'.stream.instsIn b = s.stream.instsIn b
  current : s'.stream.currentBlock = s.stream.currentBlock ∨
    s.stream.blocks.size ≤ s'.stream.currentBlock.index

/-- Code is added between two states, and with `on`, control gets to its end. -/
structure Code (on : Bool) (s s' : State) : Prop where
  adds : Adds s s'
  goesOn : on = true → s'.GoesOn

/-- Two states with the same code. -/
structure Still (s s' : State) : Prop where
  scopes : s.scopes.WellFormed → s'.scopes.WellFormed
  insts : s'.stream.insts = s.stream.insts
  blocks : s'.stream.blocks = s.stream.blocks
  current : s'.stream.currentBlock = s.stream.currentBlock
  children : s'.stream.children = s.stream.children
  deferred : s'.deferred = s.deferred

theorem Adds.refl (s : State) : Adds s s := ⟨Nat.le_refl _, fun _ _ _ => rfl, .inl rfl⟩

theorem Adds.trans (h : Adds s s') (h' : Adds s' s'') : Adds s s'' where
  blocks := Nat.le_trans h.blocks h'.blocks
  others b hb hne := by
    have hblocks := h.blocks
    rw [h'.others b (Nat.lt_of_lt_of_le hb hblocks), h.others b hb hne]
    rintro rfl
    exact h.current.elim hne fun hle => absurd hb (by omega)
  current := by
    rcases h'.current with e | hle
    · rw [e]
      exact h.current
    · exact .inr (Nat.le_trans h.blocks hle)

/-- A block that is waiting is left alone. -/
theorem Adds.waiting (h : Adds s s') (hb : Waiting s b) : Waiting s' b where
  lt := Nat.lt_of_lt_of_le hb.lt h.blocks
  ne := by
    rintro rfl
    exact h.current.elim hb.ne fun hle => absurd hb.lt (by omega)
  empty := by rw [h.others b hb.lt hb.ne, hb.empty]

theorem Code.refl (hs : on = true → s.GoesOn) : Code on s s := ⟨.refl s, hs⟩

theorem Adds.code (h : Adds s s') (h' : Code on s' s'') : Code on s s'' :=
  ⟨h.trans h'.adds, h'.goesOn⟩

theorem Code.end_goesOn (h : Code true s s') : s'.GoesOn := h.goesOn rfl

/-- Code whose end control gets to may be used where that does not matter. -/
theorem Code.weaken (h : Code true s s') (on : Bool) : Code on s s' :=
    ⟨h.adds, fun _ => h.end_goesOn⟩

namespace Still

theorem instsIn (h : Still s s') (b : BlockId) : s'.stream.instsIn b = s.stream.instsIn b := by
  rw [Stream.instsIn, h.insts, Stream.instsIn]

theorem isTerminated (h : Still s s') : s'.stream.isTerminated = s.stream.isTerminated := by
  simp only [Stream.isTerminated, Stream.lastInBlock?, Stream.block?, Stream.inst?, h.insts,
    h.blocks, h.current]

theorem fine (h : Still s s') (hs : Fine s) : Fine s' where
  stream := by
    refine ⟨?_, ?_, ?_⟩
    · rw [h.insts, h.blocks]
      exact hs.stream.inst
    · intro b k hk
      rw [h.blocks] at hk
      rw [h.instsIn]
      exact hs.stream.block b k hk
    · rw [h.current, h.blocks]
      exact hs.stream.current
  scopes := h.scopes hs.scopes

theorem trimmed (h : Still s s') (hs : Trimmed s) : Trimmed s' where
  toFine := h.fine hs.toFine
  trim b before x after hb := hs.trim b before x after (h.instsIn b ▸ hb)
  children := h.children ▸ hs.children
  deferred := h.deferred ▸ hs.deferred

theorem adds (h : Still s s') : Adds s s' where
  blocks := Nat.le_of_eq (by rw [h.blocks])
  others b _ _ := h.instsIn b
  current := .inl h.current

theorem goesOn (h : Still s s') (hs : s.GoesOn) : s'.GoesOn := h.isTerminated.trans hs

theorem code (h : Still s s') (hs : on = true → s.GoesOn) : Code on s s' :=
  ⟨h.adds, fun e => h.goesOn (hs e)⟩

end Still

/-- The instruction that is appended decides whether control gets to the end. -/
theorem Appends.code {kind : InstKind} (h : Appends kind s s') (hs : Trimmed s) (hgo : s.GoesOn) :
    Trimmed s' ∧ Code (!kind.isNoreturn) s s' := by
  have hfine := h.later.fine hs.toFine
  have hterm := h.isTerminated hs.toFine
  have hadds : Adds s s' := ⟨h.later.stream.blocks, h.later.others, h.later.current⟩
  have hends : ¬ s.stream.Ends s.stream.currentBlock := fun he =>
    Bool.false_ne_true (hgo.symm.trans (hs.stream.isTerminated_iff.2 he))
  refine ⟨?_, hadds, fun hk => ?_⟩
  · obtain ⟨-, scope, location, force, gen, rfl⟩ := h
    exact ⟨hfine, hs.trim.withNext hends, hs.children, hs.deferred⟩
  · exact hterm.trans (by simpa using hk)

/-- No block of a trimmed state has a rest, in whatever part of its stream it is. -/
theorem Trimmed.partOf (hs : Trimmed s) {t : Stream} (ht : t.PartOf s.stream) : t.Trim := by
  cases ht with
  | self => exact hs.trim
  | child hc ht => exact hs.children _ hc t ht

/-- A stream without a rest becomes a child. -/
theorem Trimmed.withChild {inner : State} (hs : Trimmed s) (hi : Trimmed inner)
    (hgo : s.GoesOn) : Trimmed (s.around inner) ∧ Code true s (s.around inner) := by
  have hstream := hs.stream.addChild inner.stream
  rw [State.around]
  rw [addChild_eq] at hstream ⊢
  refine ⟨⟨⟨hstream, hi.scopes⟩, hs.trim, fun c hc t ht => ?_, hi.deferred⟩,
    ⟨⟨Nat.le_refl _, fun _ _ _ => rfl, .inl rfl⟩, fun _ => hgo⟩⟩
  rcases List.mem_append.1 hc with hc | hc
  · exact hs.children c hc t ht
  · rw [List.mem_singleton.1 hc] at ht
    exact hi.partOf ht

/-! ### Routines -/

/-- A routine that keeps blocks without a rest, if it returns. -/
def Trims (env : Env) (s : State) (x : LowerM α) (Q : State → α → Prop) : Prop :=
  Trimmed s → ∀ a s', Returns x env s a s' → Trimmed s' ∧ Q s' a

variable {x : LowerM α} {Q R : State → α → Prop}

theorem trims_pure {a : α} (h : Q s a) : Trims env s (pure a) Q := by
  intro hs b s' hr
  obtain ⟨rfl, rfl⟩ := returns_pure.1 hr
  exact ⟨hs, h⟩

theorem trims_bind {f : α → LowerM β} {Q : State → β → Prop} (hx : Trims env s x R)
    (hf : ∀ s' a, R s' a → Trims env s' (f a) Q) : Trims env s (x >>= f) Q := by
  intro hs b s'' hr
  obtain ⟨a, s', hra, hrb⟩ := returns_bind.1 hr
  obtain ⟨hs', hR⟩ := hx hs a s' hra
  exact hf s' a hR hs' b s'' hrb

theorem trims_mono (h : Trims env s x R) (hQ : ∀ s' a, R s' a → Q s' a) : Trims env s x Q := by
  intro hs a s' hr
  obtain ⟨hs', hR⟩ := h hs a s' hr
  exact ⟨hs', hQ s' a hR⟩

theorem trims_of_fails (h : ∀ a s', ¬ Returns x env s a s') : Trims env s x Q :=
  fun _ a s' hr => absurd hr (h a s')

/-- A routine that leaves the code as it is. -/
theorem trims_still (h : ∀ a s', Returns x env s a s' → Still s s' ∧ Q s' a) :
    Trims env s x fun s' a => Still s s' ∧ Q s' a :=
  fun hs a s' hr => ⟨(h a s' hr).1.trimmed hs, h a s' hr⟩

theorem Still.of_quiet (h : Quiet s s') : Still s s' :=
  ⟨fun hs => h.scopes ▸ hs, by rw [h.stream], by rw [h.stream], by rw [h.stream], by rw [h.stream],
    h.deferred⟩

theorem Still.refl (s : State) : Still s s := ⟨id, rfl, rfl, rfl, rfl, rfl⟩

theorem trims_get_bind {f : State → LowerM α} (h : Trims env s (f s) Q) :
    Trims env s (get >>= f) Q :=
  fun hs a s' hr => h hs a s' (returns_get_bind.1 hr)

theorem trims_read_bind {f : Env → LowerM α} (h : Trims env s (f env) Q) :
    Trims env s (read >>= f) Q :=
  fun hs a s' hr => h hs a s' (returns_read_bind.1 hr)

theorem trims_scopesFrom_bind {scope : ScopeId} {f : ScopeTree → LowerM α}
    (h : Trims env s (f s.scopes) Q) : Trims env s (scopesFrom scope >>= f) Q :=
  fun hs a s' hr => h hs a s' (returns_scopesFrom_bind hr)

theorem trims_scopeAt_bind {scope : ScopeId} {f : Scope → LowerM α}
    (h : ∀ y, Trims env s (f y) Q) : Trims env s (scopeAt scope >>= f) Q := by
  intro hs a s' hr
  obtain ⟨y, -, hr⟩ := returns_scopeAt_bind hr
  exact h y hs a s' hr

theorem trims_isTerminated_bind {f : Bool → LowerM α}
    (h : Trims env s (f s.stream.isTerminated) Q) :
    Trims env s (isTerminated >>= f) Q :=
  fun hs a s' hr => h hs a s' (returns_isTerminated_bind hr)

/-- Where control goes on, a test of it says so. -/
theorem trims_goesOn_bind {f : Bool → LowerM α} (hs : s.GoesOn) (h : Trims env s (f false) Q) :
    Trims env s (isTerminated >>= f) Q :=
  trims_isTerminated_bind (by rwa [hs])

theorem trims_hasEffectSince_bind {start : Nat} {f : Bool → LowerM α}
    (h : ∀ effectful, Trims env s (f effectful) Q) :
    Trims env s (hasEffectSince start >>= f) Q := by
  intro hs a s' hr
  obtain ⟨effectful, hr⟩ := returns_hasEffectSince_bind hr
  exact h effectful hs a s' hr

theorem trims_currentBlock_bind {f : BlockId → LowerM α}
    (h : ∀ source, Trims env s (f source) Q) : Trims env s (currentBlock >>= f) Q := by
  intro hs a s' hr
  obtain ⟨source, t, h₁, hr⟩ := returns_bind.1 hr
  rw [currentBlock, returns_get_bind] at h₁
  obtain ⟨rfl, rfl⟩ := returns_pure.1 h₁
  exact h _ hs a s' hr

theorem trims_emitWith {kind : InstKind} {scope : ScopeId} {location : Option Location}
    {force gen : Bool} (hgo : s.GoesOn) :
    Trims env s (emitWith kind scope location force gen) fun s' _ =>
      Code (!kind.isNoreturn) s s' :=
  fun hs _ _ hr => (returns_emitWith hr).2.code hs hgo

theorem trims_warnAt {kind : DiagnosticKind} {message : String} {node : Node} :
    Trims env s (warnAt kind message node) fun s' _ => Still s s' := by
  refine trims_mono (trims_still (Q := fun _ _ => True) fun _ s' hr => ?_) fun _ _ h => h.1
  rw [warnAt, returns_get_bind, note, returns_modify_bind] at hr
  obtain rfl := returns_modify.1 hr
  exact ⟨⟨id, rfl, rfl, rfl, rfl, rfl⟩, trivial⟩

theorem trims_openScope {parent : ScopeId} {kind : ScopeKind} :
    Trims env s (openScope parent kind) fun s' _ => Still s s' := by
  refine trims_mono (trims_still (Q := fun _ _ => True) fun scope s' hr => ?_) fun _ _ h => h.1
  obtain ⟨x, hx, -⟩ := returns_scopeAt_bind hr
  have hlt : parent.index < s.scopes.scopes.size := (Array.getElem?_eq_some_iff.1 hx).1
  rw [Returns, outcome_openScope hlt] at hr
  obtain ⟨-, rfl⟩ := Prod.mk.inj hr
  exact ⟨⟨fun h => h.openUnder hlt, rfl, rfl, rfl, rfl, rfl⟩, trivial⟩

theorem trims_declare? {scope : ScopeId} {r : BindingRequest} :
    Trims env s (declare? scope r) fun s' _ => Still s s' := by
  refine trims_mono (trims_still (Q := fun _ _ => True) fun result s' hr => ?_) fun _ _ h => h.1
  rw [declare?, returns_read_bind, returns_get_bind] at hr
  replace hr := (returns_stopAt_bind hr).2
  split at hr
  next id scopes hd =>
    obtain ⟨_, s₁, h₁, hr⟩ := returns_bind.1 hr
    obtain rfl := returns_set.1 h₁
    obtain ⟨rfl, rfl⟩ := returns_pure.1 hr
    obtain ⟨rfl, rfl⟩ := Prod.mk.inj (ScopeTree.declare_eq_ok hd)
    exact ⟨⟨fun h => h.addVar r, rfl, rfl, rfl, rfl, rfl⟩, trivial⟩
  next =>
    obtain ⟨rfl, rfl⟩ := returns_pure.1 hr
    exact ⟨.refl _, trivial⟩

theorem trims_withFrame {location : Option Location} {description : String}
    (hx : ∀ s', Still s s' → Trims env s' x Q) (hQ : ∀ s' s'' a, Still s' s'' → Q s' a → Q s'' a) :
    Trims env s (withFrame location description x) Q := by
  intro hs a s' hr
  obtain ⟨t, ht, rfl⟩ := returns_withFrame hr
  have h₁ : Still s { s with calls := s.calls.push ⟨location, description⟩ } :=
    ⟨id, rfl, rfl, rfl, rfl, rfl⟩
  have h₃ : Still t { t with calls := t.calls.pop.2 } := ⟨id, rfl, rfl, rfl, rfl, rfl⟩
  obtain ⟨ht, ha⟩ := hx _ h₁ (h₁.trimmed hs) a t ht
  exact ⟨h₃.trimmed ht, hQ t _ a h₃ ha⟩

/-- An attempt to run a statement, after whose failure the rest does not return. -/
theorem trims_attempt_bind {f : Option α → LowerM β} {Q : State → β → Prop} (hx : Trims env s x R)
    (hf : ∀ s' a, R s' a → Trims env s' (f (some a)) Q)
    (hnone : ∀ t b s', ¬ Returns (f none) env t b s') : Trims env s (attempt x >>= f) Q := by
  intro hs b s'' hr
  obtain ⟨r, s', h₁, hr⟩ := returns_bind.1 hr
  cases r with
  | none => exact absurd hr (hnone s' b s'')
  | some a =>
    obtain ⟨hs', hR⟩ := hx hs a s' (returns_attempt_some.1 h₁)
    exact hf s' a hR hs' b s'' hr

/-! ### The routines that do not branch -/

/-- The logic of the routines that do not branch: where control goes on, it goes on after them. -/
def trim (env : Env) : Logic env := FreeLogic.toLogic {
  Point := State
  state := id
  Le := Adds
  Val _ _ := True
  In _ _ := True
  Fit := Node.Orderly true
  mayCall := true
  mayStore := true
  Holds s x Q := s.GoesOn → Trims env s x fun s' a => Code true s s' ∧ Q s' a
  le_refl := .refl
  le_trans := .trans
  val_mono _ _ := trivial
  in_mono _ _ := trivial
  fit_used := Node.Orderly.used
  holds_pure h hgo := trims_pure ⟨.refl fun _ => hgo, h⟩
  holds_bind hx hf hgo := by
    refine trims_bind (hx hgo) fun s' a h => ?_
    refine trims_mono (hf s' a h.1.adds h.2 h.1.end_goesOn) fun s'' b h' => ?_
    exact ⟨h.1.adds.code h'.1, h'.2⟩
  holds_get hgo := trims_get_bind (f := pure) (trims_pure ⟨.refl fun _ => hgo, rfl, rfl⟩)
  holds_read hgo := trims_read_bind (f := pure) (trims_pure ⟨.refl fun _ => hgo, rfl, rfl⟩)
  holds_set h hgo := by
    refine trims_mono (trims_still fun _ s' hr => ?_) fun s' _ h' => ⟨h'.1.code fun _ => hgo, h'.2⟩
    exact ⟨returns_set.1 hr ▸ .of_quiet h, trivial⟩
  holds_scopesFrom _ hgo hs t s' hr := by
    obtain ⟨rfl, rfl⟩ := returns_scopesFrom hr
    exact ⟨hs, .refl fun _ => hgo, rfl, rfl, hs.scopes⟩
  holds_fail _ := trims_of_fails fun _ _ => not_returns_fail
  holds_throw _ _ := trims_of_fails fun _ _ => not_returns_throw
  holds_warnAt hgo := trims_mono trims_warnAt fun _ _ h => ⟨h.code fun _ => hgo, trivial⟩
  holds_emitWith _ hk _ hgo := by
    refine trims_mono (trims_emitWith hgo) fun s' _ h => ⟨⟨h.adds, fun _ => h.goesOn ?_⟩, trivial⟩
    exact InstKind.goesOn_of_isPlain (Bool.and_eq_true_iff.1 hk).1
  holds_openScope _ _ hgo :=
    trims_mono trims_openScope fun _ _ h => ⟨h.code fun _ => hgo, trivial⟩
  holds_declare? _ _ hgo := trims_mono trims_declare? fun _ _ h => ⟨h.code fun _ => hgo, trivial⟩
  holds_orDeclareFailed _ h hgo hs a s' hr := h hgo hs a s' hr.of_orDeclareFailed
  holds_withFrame hx hQ hgo := by
    refine trims_withFrame (fun s' h => ?_) fun s' s'' a h hc => ?_
    · refine trims_mono (hx s' h.adds (h.goesOn hgo)) fun s'' a h' => ?_
      exact ⟨h.adds.code h'.1, h'.2⟩
    · exact ⟨⟨hc.1.adds.trans h.adds, fun _ => h.goesOn hc.1.end_goesOn⟩, hQ s' s'' a h.adds hc.2⟩ }

end Lower

end SourceIr
