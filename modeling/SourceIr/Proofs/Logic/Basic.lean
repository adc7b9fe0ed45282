import SourceIr.Lower.Statement
import SourceIr.Proofs.Scope.Growth

/-!
# Logics of routines

Most routines only put others together and append instructions that have no say in where control
goes.  What holds of those holds of them, whatever is to be shown: a logic names the rules that are
needed for it.  The routines that branch or jump are left to each logic.

* `Judgement`, judgements about routines with the rules that have nothing to do with variables;
* `Logic`, a judgement with rules for variables, and `FreeLogic`, one that takes no account of them;
* `Logic.Loc`, `Logic.HoldsParts`, what a routine may rely on;
* the derived rules, `Logic.holds_emit` and those like it.
-/

namespace SourceIr

/-- The parts of a construct whose values it goes on to use, for the constructs that do not
branch. -/
def Kind.used : Kind → List Node
  | .param _ typeExpr _ => typeExpr.toList
  | .varDecl _ _ _ typeExpr init => typeExpr.toList ++ init.toList
  | .containerDecl _ fields _ => fields.flatMap fun field =>
      match field.kind with
      | .containerField _ typeExpr defaultValue => typeExpr.toList ++ defaultValue.toList
      | _ => []
  | .suspend body => body.toList
  | .assign target value | .assignOp _ target value => [target, value]
  | .binaryOp op lhs rhs => if op.isLogical then [] else [lhs, rhs]
  | .unaryOp _ operand => [operand]
  | .call callee args _ => callee :: args
  | .builtinCall _ args => args
  | .fieldAccess container _ => [container]
  | .arrayAccess array index => [array, index]
  | .structInit typeExpr fields => typeExpr.toList ++ fields.map (·.value)
  | .arrayInit typeExpr elements => typeExpr.toList ++ elements
  | _ => []

/-- The constructs that decide where control goes, or in which stream code is lowered. -/
def Kind.branches : Kind → Bool
  | .block .. | .comptime _ | .ifThen .. | .whileLoop .. | .forLoop .. | .breakTo ..
  | .continueTo _ | .returnFrom _ | .unreachable | .tryExpr _ | .catchExpr .. => true
  | .binaryOp op _ _ => op.isLogical
  | _ => false

/-- Whether an instruction has no say in where control goes, and does not depend on where it came
from. -/
def InstKind.isPlain : InstKind → Bool
  | .phi _ => false
  | kind => !kind.isNoreturn

/-- A plain instruction does not end its block. -/
theorem InstKind.goesOn_of_isPlain {kind : InstKind} (h : kind.isPlain = true) :
    (!kind.isNoreturn) = true := by
  cases kind <;> first | rfl | cases h

/-- A plain instruction is no branch. -/
theorem InstKind.targets_of_isPlain {kind : InstKind} (h : kind.isPlain = true) :
    kind.targets = [] := by
  cases kind <;> first | rfl | cases h

/-- Whether an instruction declares a variable or refers to one, or evaluates a stream that may. -/
def InstKind.concernsVars : InstKind → Bool
  | .varPtr _ | .declVar .. | .comptimeBlock _ => true
  | _ => false

/-- Whether an instruction is a call. -/
def InstKind.isCall : InstKind → Bool
  | .call .. => true
  | _ => false

/-- Whether an instruction makes storage. -/
def InstKind.isAlloca : InstKind → Bool
  | .alloca .. => true
  | _ => false

/-- Whether a construct is a call. -/
def Kind.isCall : Kind → Bool
  | .call .. => true
  | _ => false

namespace Lower

/-- The block in which a scope may be left early, or continued. -/
def exits : ScopeKind → List BlockId
  | .loop _ stop step => [stop, step]
  | .block _ stop => stop.toList
  | _ => []

/-- The root of a stream is not left by a jump. -/
theorem ne_root_of_exits {t : ScopeTree} {root target : ScopeId} {z : Scope} {stop : BlockId}
    (hroot : ∃ y, t.scope? root = some y ∧ exits y.kind = []) (hz : t.scope? target = some z)
    (hstop : stop ∈ exits z.kind) : target ≠ root := by
  rintro rfl
  obtain ⟨y, hy, hky⟩ := hroot
  rw [hy] at hz
  cases hz
  rw [hky] at hstop
  cases hstop

/-- States that differ in what has no part in control flow: the open evaluations, the name hint,
the count of nodes and the log. -/
structure Quiet (s s' : State) : Prop where
  scopes : s'.scopes = s.scopes
  stream : s'.stream = s.stream
  streamRoot : s'.streamRoot = s.streamRoot
  deferred : s'.deferred = s.deferred
  sinks : s'.sinks = s.sinks
  failedVars : s'.failedVars = s.failedVars

/-- Judgements about the routines of a unit, with the rules that have nothing to do with variables.
A point is a state together with what is known there. -/
structure Judgement (env : Env) where
  Point : Type
  state : Point → State
  /-- One point comes after another. -/
  Le : Point → Point → Prop
  /-- An instruction may be read. -/
  Val : Point → InstId → Prop
  /-- Code may be lowered in a scope. -/
  In : Point → ScopeId → Prop
  /-- An expression may stand where its value is used. -/
  Fit : Node → Prop
  /-- Whether functions may be called. -/
  mayCall : Bool
  /-- Whether storage may be made that stands in the source. -/
  mayStore : Bool
  /-- A routine that starts at a point, and returns, leads to a later one with this property. -/
  Holds {α : Type} : Point → LowerM α → (Point → α → Prop) → Prop
  le_refl : ∀ w, Le w w
  le_trans : ∀ {w w' w''}, Le w w' → Le w' w'' → Le w w''
  val_mono : ∀ {w w' v}, Le w w' → Val w v → Val w' v
  in_mono : ∀ {w w' s}, Le w w' → In w s → In w' s
  fit_used : ∀ {node}, Fit node → ∀ part ∈ node.kind.used, Fit part
  holds_pure : ∀ {α : Type} {w} {a : α} {Q : Point → α → Prop}, Q w a → Holds w (pure a) Q
  holds_bind : ∀ {α β : Type} {w} {x : LowerM α} {f : α → LowerM β} {R : Point → α → Prop}
    {Q : Point → β → Prop}, Holds w x R → (∀ w' a, Le w w' → R w' a → Holds w' (f a) Q) →
    Holds w (x >>= f) Q
  holds_get : ∀ {w}, Holds w get fun w' s => w' = w ∧ s = state w
  holds_read : ∀ {w}, Holds w read fun w' e => w' = w ∧ e = env
  holds_set : ∀ {w s}, Quiet (state w) s → Holds w (set s : LowerM PUnit) fun _ _ => True
  /-- The walk outward from a scope in which code may be lowered meets only scopes that are
  there. -/
  holds_scopesFrom : ∀ {w scope}, In w scope → Holds w (scopesFrom scope) fun w' t =>
    w' = w ∧ t = (state w).scopes ∧ t.WellFormed
  holds_fail : ∀ {α : Type} {w m} {Q : Point → α → Prop}, Holds w (fail m) Q
  /-- A routine may fail for a variable whose declaration has failed. -/
  holds_throw : ∀ {α : Type} {w var} {Q : Point → α → Prop}, var ∈ (state w).failedVars →
    Holds w (throw .poisoned) Q
  holds_warnAt : ∀ {w kind message node}, Holds w (warnAt kind message node) fun _ _ => True
  holds_orDeclareFailed : ∀ {α : Type} {w} {x : LowerM α} {Q node name scope}, In w scope →
    Holds w x Q → Holds w (orDeclareFailed x node name scope) Q
  holds_withFrame : ∀ {α : Type} {w} {x : LowerM α} {Q location description},
    (∀ w', Le w w' → Holds w' x Q) → (∀ w' w'' a, Le w' w'' → Q w' a → Q w'' a) →
    Holds w (withFrame location description x) Q

/-- A judgement with rules for variables.  A variable is declared in a scope of one's own, together
with the instruction that binds it to its storage; it is referred to where its name leads to it. -/
structure Logic (env : Env) extends Judgement env where
  /-- Variables may be declared in a scope. -/
  Own : Point → ScopeId → Prop
  own_in : ∀ {w s}, Own w s → In w s
  own_mono : ∀ {w w' s}, Le w w' → Own w s → Own w' s
  holds_emitWith : ∀ {w kind scope location force gen}, In w scope → kind.concernsVars = false →
    (kind.isPlain && ((!kind.isCall || mayCall) && (!kind.isAlloca || gen || mayStore))) = true →
    (∀ v ∈ kind.operands, Val w v) → Holds w (emitWith kind scope location force gen) Val
  holds_varPtr : ∀ {w scope location name v}, In w scope →
    (state w).scopes.lookup scope name env.table = some (.var v) →
    Holds w (emit (.varPtr v) scope location) Val
  holds_openScope : ∀ {w parent kind}, In w parent → exits kind = [] →
    Holds w (openScope parent kind) Own
  holds_declareVar : ∀ {w scope r location ptr gen}, Own w scope → r.skipNameCheck = false →
    (∀ v, r.comptime = .pending v → Val w v) → Val w ptr →
    Holds w (do
      let var ← declare scope r
      emitWith (.declVar var ptr) scope location false gen) fun _ _ => True

/-- A judgement that takes no account of variables: they may be declared and referred to
anywhere. -/
structure FreeLogic (env : Env) extends Judgement env where
  holds_emitWith : ∀ {w kind scope location force gen}, In w scope →
    (kind.isPlain && ((!kind.isCall || mayCall) && (!kind.isAlloca || gen || mayStore))) = true →
    (∀ v ∈ kind.operands, Val w v) → Holds w (emitWith kind scope location force gen) Val
  holds_openScope : ∀ {w parent kind}, In w parent → exits kind = [] →
    Holds w (openScope parent kind) In
  holds_declare? : ∀ {w scope r}, In w scope → r.skipNameCheck = false →
    Holds w (declare? scope r) fun _ _ => True

/-- A judgement that takes no account of variables has rules for them. -/
def FreeLogic.toLogic {env : Env} (F : FreeLogic env) : Logic env where
  toJudgement := F.toJudgement
  Own := F.In
  own_in := id
  own_mono := F.in_mono
  holds_emitWith hs _ := F.holds_emitWith hs
  holds_varPtr hs _ := F.holds_emitWith hs rfl fun _ h => absurd h List.not_mem_nil
  holds_openScope := F.holds_openScope
  holds_declareVar := fun {w scope r location ptr gen} hs hr _ hptr => by
    have hd : F.Holds w (declare scope r) fun _ _ => True := by
      refine F.holds_bind (F.holds_declare? hs hr) fun w' result _ _ => ?_
      cases result with
      | ok id => exact F.holds_pure trivial
      | error m => exact F.holds_fail
    refine F.holds_bind hd fun w₁ var le₁ _ => ?_
    have he : F.Holds w₁ (emitWith (.declVar var ptr) scope location false gen) F.Val :=
      F.holds_emitWith (F.in_mono le₁ hs) rfl fun v hv => by
        rw [List.mem_singleton.1 hv]
        exact F.val_mono le₁ hptr
    rw [← bind_pure (emitWith _ _ _ _ _)]
    exact F.holds_bind he fun _ _ _ _ => F.holds_pure trivial

namespace Logic

variable {env : Env} (L : Logic env) {α β : Type} {w : L.Point}

/-- Whether an instruction may be appended by the routines that the logic is about. -/
def mayEmit (kind : InstKind) (gen : Bool) : Bool :=
  !kind.concernsVars && (kind.isPlain &&
    ((!kind.isCall || L.mayCall) && (!kind.isAlloca || gen || L.mayStore)))

/-- The pointer of a result location may be read. -/
def Loc (w : L.Point) (loc : ResultLoc) : Prop := ∀ p ∈ loc.ptr?, L.Val w p

/-- Every part that is there may be read. -/
def Vals (w : L.Point) (vs : List InstId) : Prop := ∀ v ∈ vs, L.Val w v

/-- A value that may be absent may be read if it is there. -/
def Val? (w : L.Point) (v : Option InstId) : Prop := L.Vals w v.toList

/-- What a construct may rely on for its parts. -/
def HoldsParts (parts : Parts) : Prop :=
  ∀ w node scope loc, L.Fit node → L.In w scope → L.Loc w loc →
    L.Holds w (parts.expr node scope loc) L.Val

/-- A routine that keeps to the rules, whatever it returns. -/
abbrev Keeps (w : L.Point) (x : LowerM α) : Prop := L.Holds w x fun _ _ => True

variable {L}

theorem loc_none : L.Loc w .none := nofun

theorem loc_discard : L.Loc w .discard := nofun

theorem loc_existing {p : InstId} : L.Loc w (.existing p) ↔ L.Val w p := by
  simp [Loc, ResultLoc.ptr?]

theorem vals_nil : L.Vals w [] := nofun

theorem vals_cons {v : InstId} {vs : List InstId} :
    L.Vals w (v :: vs) ↔ L.Val w v ∧ L.Vals w vs := by
  simp [Vals]

theorem val?_none : L.Val? w none := nofun

theorem val?_some {v : InstId} : L.Val? w (some v) ↔ L.Val w v := by
  simp [Val?, Vals]

theorem Loc.mono {w' : L.Point} {loc : ResultLoc} (h : L.Loc w loc) (le : L.Le w w') :
    L.Loc w' loc := fun p hp => L.val_mono le (h p hp)

theorem Vals.mono {w' : L.Point} {vs : List InstId} (h : L.Vals w vs) (le : L.Le w w') :
    L.Vals w' vs := fun v hv => L.val_mono le (h v hv)

theorem Val?.mono {w' : L.Point} {v : Option InstId} (h : L.Val? w v) (le : L.Le w w') :
    L.Val? w' v := Vals.mono h le

/-! ### Derived rules -/

section Rules

variable {x : LowerM α} {f : α → LowerM β} {Q R : L.Point → α → Prop}

theorem holds_map {g : α → β} {Q : L.Point → β → Prop} (h : L.Holds w x R)
    (hQ : ∀ w' a, L.Le w w' → R w' a → Q w' (g a)) : L.Holds w (g <$> x) Q := by
  rw [map_eq_pure_bind]
  exact L.holds_bind h fun w' a le hR => L.holds_pure (hQ w' a le hR)

/-- A routine that reads the state goes on with what it finds. -/
theorem holds_get_bind {f : State → LowerM β} {Q : L.Point → β → Prop}
    (h : L.Holds w (f (L.state w)) Q) : L.Holds w (get >>= f) Q := by
  refine L.holds_bind L.holds_get ?_
  rintro w' s - ⟨rfl, rfl⟩
  exact h

theorem holds_read_bind {f : Env → LowerM β} {Q : L.Point → β → Prop}
    (h : L.Holds w (f env) Q) : L.Holds w (read >>= f) Q := by
  refine L.holds_bind L.holds_read ?_
  rintro w' s - ⟨rfl, rfl⟩
  exact h

/-- A routine that walks outward from a scope goes on with the scopes as they are. -/
theorem holds_scopesFrom_bind {scope : ScopeId} {f : ScopeTree → LowerM β}
    {Q : L.Point → β → Prop} (hs : L.In w scope)
    (h : (L.state w).scopes.WellFormed → L.Holds w (f (L.state w).scopes) Q) :
    L.Holds w (scopesFrom scope >>= f) Q := by
  refine L.holds_bind (L.holds_scopesFrom hs) ?_
  rintro w' t - ⟨rfl, rfl, hwf⟩
  exact h hwf

/-- A scope that is there may be looked at. -/
theorem holds_scopeAt_bind {scope : ScopeId} {x : Scope} {f : Scope → LowerM β}
    {Q : L.Point → β → Prop} (hx : (L.state w).scopes.scope? scope = some x)
    (h : L.Holds w (f x) Q) : L.Holds w (scopeAt scope >>= f) Q := by
  have hpure : L.Holds w (scopeAt scope) fun w' y => w' = w ∧ y = x := by
    refine holds_get_bind ?_
    simp only [hx]
    exact L.holds_pure ⟨rfl, rfl⟩
  refine L.holds_bind hpure ?_
  rintro w' y - ⟨rfl, rfl⟩
  exact h

theorem holds_modify {g : State → State} (h : Quiet (L.state w) (g (L.state w))) :
    L.Keeps w (modify g : LowerM PUnit) :=
  holds_get_bind (f := fun s => set (g s)) (L.holds_set h)

end Rules

variable {scope : ScopeId} {location : Option Location} {kind : InstKind} {loc : ResultLoc}

theorem holds_emitOf {force gen : Bool} (hs : L.In w scope) (hk : L.mayEmit kind gen)
    (h : L.Vals w kind.operands) : L.Holds w (emitWith kind scope location force gen) L.Val := by
  obtain ⟨hv, hk⟩ := Bool.and_eq_true_iff.1 hk
  exact L.holds_emitWith hs (by simpa using hv) hk h

theorem holds_emit (hs : L.In w scope) (hk : L.mayEmit kind false) (h : L.Vals w kind.operands) :
    L.Holds w (emit kind scope location) L.Val :=
  holds_emitOf hs hk h

theorem holds_emitGen (hs : L.In w scope) (hk : L.mayEmit kind true) (h : L.Vals w kind.operands) :
    L.Holds w (emitGen kind scope location) L.Val :=
  holds_emitOf hs hk h

theorem holds_emitVoid (hs : L.In w scope) : L.Holds w (emitVoid scope location) L.Val :=
  holds_emitGen hs rfl nofun

theorem holds_failAt {d : DiagnosticKind} {message issuer : String} {node : Node}
    {Q : L.Point → α → Prop} : L.Holds w (failAt d message issuer node) Q :=
  L.holds_fail

theorem holds_failTaken {message issuer note : String} {node : Node} {previous : Option Location}
    {Q : L.Point → α → Prop} : L.Holds w (failTaken message issuer node previous note) Q :=
  L.holds_fail

/-- A scope without jumps of its own. -/
theorem holds_inner {parent : ScopeId} {kind : ScopeKind} (hs : L.In w parent)
    (hk : exits kind = []) : L.Holds w (openScope parent kind) L.In := by
  rw [← bind_pure (openScope parent kind)]
  exact L.holds_bind (L.holds_openScope hs hk) fun _ _ _ ho => L.holds_pure (L.own_in ho)

theorem holds_declareVar_bind {r : BindingRequest} {ptr : InstId} {gen : Bool}
    {f : InstId → LowerM α} {Q : L.Point → α → Prop} (ho : L.Own w scope)
    (hr : r.skipNameCheck = false) (hv : ∀ v, r.comptime = .pending v → L.Val w v)
    (hptr : L.Val w ptr) (h : ∀ w' i, L.Le w w' → L.Holds w' (f i) Q) :
    L.Holds w (do
      let var ← declare scope r
      let i ← emitWith (.declVar var ptr) scope location false gen
      f i) Q := by
  have hbind : L.Holds w (do
      let var ← declare scope r
      emitWith (.declVar var ptr) scope location false gen) fun _ _ => True :=
    L.holds_declareVar ho hr hv hptr
  simpa only [bind_assoc] using L.holds_bind hbind fun w' i le _ => h w' i le

theorem holds_setNameHint {init : Node} {name : String} : L.Keeps w (setNameHint init name) :=
  holds_modify ⟨rfl, rfl, rfl, rfl, rfl, rfl⟩

theorem holds_takeNameHint {node : Node} : L.Keeps w (takeNameHint node) := by
  refine holds_get_bind ?_
  split
  · split
    · exact L.holds_bind (L.holds_set ⟨rfl, rfl, rfl, rfl, rfl, rfl⟩)
        fun _ _ _ _ => L.holds_pure trivial
    · exact L.holds_pure trivial
  · exact L.holds_pure trivial

section Parts

variable {parts : Parts} {node : Node}

theorem HoldsParts.value (hp : L.HoldsParts parts) (hf : L.Fit node) (hs : L.In w scope) :
    L.Holds w (parts.value node scope) L.Val :=
  hp w node scope .none hf hs loc_none

theorem HoldsParts.comptimeValue (hp : L.HoldsParts parts) (hf : L.Fit node)
    (hs : L.In w scope) : L.Holds w (parts.comptimeValue node scope) L.Val :=
  L.holds_bind (holds_inner hs rfl) fun _ _ _ hs => hp.value hf hs

theorem HoldsParts.comptimeValue? (hp : L.HoldsParts parts) {node : Option Node}
    (hf : ∀ part ∈ node.toList, L.Fit part) (hs : L.In w scope) :
    L.Holds w (parts.comptimeValue? node scope) L.Val? := by
  cases node with
  | none => exact L.holds_pure val?_none
  | some node =>
    exact holds_map (hp.comptimeValue (hf node (by simp)) hs) fun _ _ _ hv => val?_some.2 hv

end Parts

end Logic

end Lower

end SourceIr
