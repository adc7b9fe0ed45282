import SourceIr.Proofs.Charge.Nodes
import SourceIr.Proofs.Comparison.Unit
import SourceIr.Proofs.Course.Task
import SourceIr.Proofs.Inspection.Aggregate
import SourceIr.Proofs.Syntax.Regular

/-!
# Inspecting a lowering

To say what holds wherever an expression is lowered, the routines for parts are replaced by some
that look at every expression they lower and raise an alarm where it is not in order.  If a unit
that is not poisoned is the same with any alarm, everything in it is in order.  What is looked at
may depend on what came before, on the node, and on what the stream looks like in the end.

* `Ways`, the blocks that the routines around may still lead to;
* `Admitted`, the instructions that may be appended, and `Aside`, the changes of no concern;
* `Inspection`, what is known of the state, of what is ahead, and of the nodes;
* `Inspection.Passes`, the routines that return the same under inspection, with the rules for it;
* `inspected`, the routines for parts under inspection, and `Inspection.PassesParts`.
-/

namespace SourceIr

/-- The trees of a construct without the initializer of a variable. -/
def Kind.unnamed : Kind → List Node
  | .varDecl _ _ _ typeExpr _ => typeExpr.toList
  | kind => kind.trees

theorem Kind.mem_trees_of_unnamed {kind : Kind} {part : Node} (h : part ∈ kind.unnamed) :
    part ∈ kind.trees := by
  cases kind
  case varDecl =>
    rw [unnamed, Option.mem_toList] at h
    simp [trees, values, h, FieldValue.ofOption, FieldValue.trees]
  all_goals exact h

theorem Kind.init_mem_trees {name : String} {isConst isComptime : Bool} {typeExpr : Option Node}
    {init : Node} : init ∈ (Kind.varDecl name isConst isComptime typeExpr (some init)).trees := by
  simp [trees, values, FieldValue.ofOption, FieldValue.trees]

/-- Whether an instruction neither leads anywhere nor lists anything. -/
def InstKind.isSimple (kind : InstKind) : Bool := kind.targets.isEmpty && !kind.isAggregate

namespace Lower

/-- The blocks that the routines around may still lead to, and whether they must do so at compile
time. -/
abbrev Ways := List (BlockId × Bool)

/-- An instruction may be appended: it leads where the routines around may lead, or it is a jump of
the user, and if it lists something, it lists what a known node lists. -/
structure Admitted (Known : Node → Prop) (ways : Ways) (kind : InstKind) (force gen : Bool) :
    Prop where
  leads : ∀ b ∈ kind.targets,
    (∃ inline, (b, inline) ∈ ways ∧ (inline = true → force = true)) ∨ gen = false ∧ kind = .br b
  lists : kind.isAggregate = true → ∃ node, Known node ∧ InstKind.Reflects node.kind kind

section Admitted

variable {Known : Node → Prop} {ways : Ways} {kind : InstKind} {force gen : Bool} {b : BlockId}

theorem admitted_simple (h : kind.isSimple = true) : Admitted Known ways kind force gen := by
  obtain ⟨htargets, hlists⟩ := Bool.and_eq_true_iff.1 h
  refine ⟨?_, fun h => ?_⟩
  · rw [List.isEmpty_iff.1 htargets]
    nofun
  · rw [h] at hlists
    cases hlists

/-- What lists something leads nowhere. -/
theorem admitted_lists {node : Node} (hn : Known node) (h : InstKind.Reflects node.kind kind) :
    Admitted Known ways kind force gen := by
  have hleads : ∀ {k : Kind}, InstKind.Reflects k kind → kind.targets = [] := by
    rintro _ (_ | _ | _ | _ | _) <;> rfl
  refine ⟨?_, fun _ => ⟨node, hn, h⟩⟩
  rw [hleads h]
  nofun

theorem admitted_br {inline : Bool} (hb : (b, inline) ∈ ways) (hf : inline = true → force = true) :
    Admitted Known ways (.br b) force gen :=
  ⟨fun _ hc => .inl ⟨inline, List.mem_singleton.1 hc ▸ hb, hf⟩, nofun⟩

/-- A jump that the user wrote. -/
theorem admitted_jump : Admitted Known ways (.br b) force false :=
  ⟨fun _ hc => .inr ⟨rfl, by rw [List.mem_singleton.1 hc]⟩, nofun⟩

theorem admitted_condBr {v : InstId} {b' : BlockId} (inline : Bool) (hb : (b, inline) ∈ ways)
    (hb' : (b', inline) ∈ ways) (hf : inline = true → force = true) :
    Admitted Known ways (.condBr v b b') force gen := by
  refine ⟨fun c hc => .inl ⟨inline, ?_, hf⟩, nofun⟩
  rcases List.mem_pair.1 hc with rfl | rfl
  · exact hb
  · exact hb'

end Admitted

/-- A change that concerns neither what is in the stream nor what is deferred.  A name for a type
may be used up. -/
structure Aside (s s' : State) : Prop where
  insts : s'.stream.insts = s.stream.insts
  blocks : s'.stream.blocks = s.stream.blocks
  children : s'.stream.children = s.stream.children
  deferred : s'.deferred = s.deferred
  hint : ∀ hint ∈ s'.nameHint, hint ∈ s.nameHint

theorem Aside.refl (s : State) : Aside s s := ⟨rfl, rfl, rfl, rfl, fun _ => id⟩

/-- What is known of a state, and what is to come of it, inside of so many compile-time blocks. -/
structure Outlook where
  Inv : Nat → Ways → State → Prop
  Ahead : Nat → Ways → State → Prop

/-- The knowledge is kept from one state to another, and what is to come of the one comes of the
other. -/
def Outlook.Leads (O : Outlook) (d : Nat) (ways : Ways) (s : State) (ways' : Ways) (s' : State) :
    Prop :=
  O.Inv d ways s → O.Inv d ways' s' ∧ (O.Ahead d ways' s' → O.Ahead d ways s)

theorem Outlook.Leads.trans {O : Outlook} {d : Nat} {ways ways' ways'' : Ways} {s s' s'' : State}
    (h : O.Leads d ways s ways' s') (h' : O.Leads d ways' s' ways'' s'') :
    O.Leads d ways s ways'' s'' := fun hi =>
  have ⟨hi', hback⟩ := h hi
  have ⟨hi'', hback'⟩ := h' hi'
  ⟨hi'', fun ha => hback (hback' ha)⟩

/-- What an inspection relies on, with what it has to show for the steps of a lowering. -/
structure Inspection extends Outlook where
  /-- A node that no declaration names may be lowered. -/
  Fit : Node → Prop
  /-- A node initializes a declaration of this name. -/
  Init : String → Node → Prop
  fit_unnamed : ∀ {node}, Fit node → ∀ part ∈ node.kind.unnamed, Fit part
  init_unnamed : ∀ {name node}, Init name node → ∀ part ∈ node.kind.unnamed, Fit part
  init_of_fit : ∀ {node name isConst isComptime typeExpr init}, Fit node →
    node.kind = .varDecl name isConst isComptime typeExpr (some init) → Init name init
  aside : ∀ {d ways s s'}, Aside s s' → toOutlook.Leads d ways s ways s'
  append : ∀ {d ways s kind scope location force gen},
    Admitted (fun node => Fit node ∨ ∃ name, Init name node) ways kind force gen →
    toOutlook.Leads d ways s ways (s.withNext kind scope location force gen)
  openWay : ∀ {d ways s name} (inline : Bool), toOutlook.Leads d ways s
    ((⟨s.stream.blocks.size⟩, inline) :: ways) { s with stream := (s.stream.newBlock name).2 }
  closeWay : ∀ {d way ways s}, toOutlook.Inv d (way :: ways) s →
    toOutlook.Inv d ways s ∧ (toOutlook.Ahead d ways s → toOutlook.Ahead d (way :: ways) s)
  naming : ∀ {d ways s name init}, Init name init →
    toOutlook.Leads d ways s ways { s with nameHint := some (init.id, name) }
  deferring : ∀ {d ways s scope expr}, Fit expr →
    toOutlook.Leads d ways s ways { s with deferred := (scope, expr) :: s.deferred }
  deferred_fit : ∀ {d ways s scope expr}, toOutlook.Inv d ways s →
    (scope, expr) ∈ s.deferred → Fit expr
  enter : ∀ {d ways s name root}, toOutlook.Inv d ways s →
    toOutlook.Inv (d + 1) [] (s.inChild name root)
  leave : ∀ {d ways s t}, toOutlook.Inv d ways s → toOutlook.Inv (d + 1) [] t →
    toOutlook.Inv d ways (s.around t) ∧ (toOutlook.Ahead d ways (s.around t) →
      toOutlook.Ahead (d + 1) [] t ∧ toOutlook.Ahead d ways s)

namespace Inspection

variable {I : Inspection} {env : Env} {d : Nat} {ways : Ways} {s s' t : State} {α β : Type}
  {x x' : LowerM α} {f f' : α → LowerM β} {scope : ScopeId} {location : Option Location}
  {kind : InstKind} {node : Node} {loc : ResultLoc}

/-- A node that may be lowered. -/
def Known (I : Inspection) (node : Node) : Prop := I.Fit node ∨ ∃ name, I.Init name node

theorem Known.unnamed (h : I.Known node) : ∀ part ∈ node.kind.unnamed, I.Fit part := by
  obtain h | ⟨name, h⟩ := h
  · exact I.fit_unnamed h
  · exact I.init_unnamed h

/-- If a routine returns from a state, so does the one under inspection, unless what is to come is
known not to come. -/
def Passes (I : Inspection) (env : Env) (d : Nat) (ways : Ways) (s : State) (x x' : LowerM α) :
    Prop :=
  I.Inv d ways s → ∀ a s', Returns x env s a s' →
    I.Inv d ways s' ∧ (I.Ahead d ways s' → I.Ahead d ways s ∧ Returns x' env s a s')

/-- A routine that lowers no parts passes. -/
abbrev Same (I : Inspection) (env : Env) (d : Nat) (ways : Ways) (s : State) (x : LowerM α) :
    Prop := I.Passes env d ways s x x

/-! ### Rules -/

theorem passes_of_leads (h : ∀ a s', Returns x env s a s' → I.Leads d ways s ways s') :
    I.Same env d ways s x := fun hi a s' hr =>
  (h a s' hr hi).imp_right fun hback ha => ⟨hback ha, hr⟩

theorem passes_of_aside (h : ∀ a s', Returns x env s a s' → Aside s s') : I.Same env d ways s x :=
  passes_of_leads fun a s' hr => I.aside (h a s' hr)

/-- A routine that only looks at the state. -/
theorem passes_of_eq (h : ∀ a s', Returns x env s a s' → s' = s) : I.Same env d ways s x :=
  passes_of_aside fun a s' hr => h a s' hr ▸ .refl s

theorem passes_of_not_returns (h : ∀ a s', ¬ Returns x env s a s') : I.Passes env d ways s x x' :=
  fun _ a s' hr => absurd hr (h a s')

theorem passes_pure {a : α} : I.Same env d ways s (pure a) :=
  passes_of_eq fun _ _ hr => (returns_pure.1 hr).2

/-- One routine after another; the second one may use what the first one returned. -/
theorem passes_bind_of (hx : I.Passes env d ways s x x')
    (hf : ∀ a t, Returns x env s a t → I.Passes env d ways t (f a) (f' a)) :
    I.Passes env d ways s (x >>= f) (x' >>= f') := by
  intro hi b s' hr
  obtain ⟨a, t, hra, hrb⟩ := returns_bind.1 hr
  -- What is known goes forward through the two routines, and what is ahead goes back.
  obtain ⟨ht, hback⟩ := hx hi a t hra
  obtain ⟨hs', hback'⟩ := hf a t hra ht b s' hrb
  refine ⟨hs', fun ha => ?_⟩
  obtain ⟨ha, hrb'⟩ := hback' ha
  obtain ⟨ha, hra'⟩ := hback ha
  exact ⟨ha, returns_bind.2 ⟨a, t, hra', hrb'⟩⟩

theorem passes_bind (hx : I.Passes env d ways s x x')
    (hf : ∀ a t, I.Passes env d ways t (f a) (f' a)) :
    I.Passes env d ways s (x >>= f) (x' >>= f') := passes_bind_of hx fun a t _ => hf a t

theorem passes_map {g : α → β} (hx : I.Passes env d ways s x x') :
    I.Passes env d ways s (g <$> x) (g <$> x') := by
  rw [map_eq_pure_bind, map_eq_pure_bind]
  exact passes_bind hx fun _ _ => passes_pure

theorem passes_ite {p : Prop} [Decidable p] {y y' : LowerM α} (hx : I.Passes env d ways s x x')
    (hy : I.Passes env d ways s y y') :
    I.Passes env d ways s (if p then x else y) (if p then x' else y') := by
  split
  · exact hx
  · exact hy

/-- A choice whose outcome is used afterwards. -/
theorem passes_ite_bind {p : Prop} [Decidable p] {y y' : LowerM α}
    (hx : I.Passes env d ways s x x') (hy : I.Passes env d ways s y y')
    (hf : ∀ a t, I.Passes env d ways t (f a) (f' a)) :
    I.Passes env d ways s (if p then x >>= f else y >>= f) (if p then x' >>= f' else y' >>= f') :=
  passes_ite (passes_bind hx hf) (passes_bind hy hf)

theorem passes_get_bind {f f' : State → LowerM β} (h : I.Passes env d ways s (f s) (f' s)) :
    I.Passes env d ways s (get >>= f) (get >>= f') := by
  intro hi b s' hr
  obtain ⟨hs', hback⟩ := h hi b s' (returns_get_bind.1 hr)
  exact ⟨hs', fun ha => (hback ha).imp_right returns_get_bind.2⟩

theorem passes_read_bind {f f' : Env → LowerM β} (h : I.Passes env d ways s (f env) (f' env)) :
    I.Passes env d ways s (read >>= f) (read >>= f') := by
  intro hi b s' hr
  obtain ⟨hs', hback⟩ := h hi b s' (returns_read_bind.1 hr)
  exact ⟨hs', fun ha => (hback ha).imp_right returns_read_bind.2⟩

/-- What is known of the state may be used. -/
theorem passes_of_inv (h : I.Inv d ways s → I.Passes env d ways s x x') :
    I.Passes env d ways s x x' := fun hi => h hi hi

theorem passes_throw {e : Stop} {x' : LowerM α} : I.Passes env d ways s (throw e) x' :=
  passes_of_not_returns fun _ _ => not_returns_throw

theorem passes_fail {m : Message} : I.Same env d ways s (fail m : LowerM α) :=
  passes_of_not_returns fun _ _ => not_returns_fail

theorem passes_modify {g : State → State} (h : Aside s (g s)) :
    I.Same env d ways s (modify g : LowerM PUnit) :=
  passes_of_aside fun _ _ hr => returns_modify.1 hr ▸ h

/-! ### Steps -/

/-- An instruction is appended that may be. -/
theorem passes_emitWith {force gen : Bool} (h : Admitted I.Known ways kind force gen) :
    I.Same env d ways s (emitWith kind scope location force gen) :=
  passes_of_leads fun _ _ hr => by
    rw [emitWith] at hr
    replace hr := returns_scopesFrom_bind hr
    rw [returns_get_bind] at hr
    split at hr
    next happ =>
      obtain ⟨-, -, he⟩ := Stream.append_eq_ok.1 happ
      obtain ⟨rfl, rfl⟩ := Prod.mk.inj he
      obtain ⟨_, t, hset, hr⟩ := returns_bind.1 hr
      obtain rfl := returns_set.1 hset
      obtain ⟨-, rfl⟩ := returns_pure.1 hr
      exact I.append h
    next => exact absurd hr not_returns_throw

theorem passes_emitSimple {force gen : Bool} (h : kind.isSimple = true) :
    I.Same env d ways s (emitWith kind scope location force gen) :=
  passes_emitWith (admitted_simple h)

theorem passes_emit (h : kind.isSimple = true) : I.Same env d ways s (emit kind scope location) :=
  passes_emitSimple h

theorem passes_emitGen (h : kind.isSimple = true) :
    I.Same env d ways s (emitGen kind scope location) := passes_emitSimple h

theorem passes_emitVoid : I.Same env d ways s (emitVoid scope location) := passes_emitSimple rfl

theorem returns_newBlock_bind {name : String} {f : BlockId → LowerM β} {b : β} :
    Returns (newBlock name >>= f) env s b s' ↔ Returns (f ⟨s.stream.blocks.size⟩) env
      { s with stream := (s.stream.newBlock name).2 } b s' := Iff.rfl

/-- A block is made, and the routines around may lead to it until they are done. -/
theorem passes_newBlock_bind {name : String} {f f' : BlockId → LowerM β} (inline : Bool)
    (hf : ∀ b t, I.Passes env d ((b, inline) :: ways) t (f b) (f' b)) :
    I.Passes env d ways s (newBlock name >>= f) (newBlock name >>= f') := by
  intro hi b s' hr
  -- The way is open while the rest runs, and closed again for the routines around.
  obtain ⟨hopen, hback⟩ := I.openWay inline hi
  obtain ⟨hs', hback'⟩ := hf _ _ hopen b s' (returns_newBlock_bind.1 hr)
  obtain ⟨hclosed, hclose⟩ := I.closeWay hs'
  refine ⟨hclosed, fun ha => ?_⟩
  obtain ⟨ha, hr'⟩ := hback' (hclose ha)
  exact ⟨hback ha, returns_newBlock_bind.2 hr'⟩

theorem passes_goto {b : BlockId} : I.Same env d ways s (goto b) :=
  passes_modify ⟨rfl, rfl, rfl, rfl, fun _ => id⟩

/-- The name of a declaration is set aside for the type that its initializer may make. -/
theorem passes_setNameHint {init : Node} {name : String} (h : I.Init name init) :
    I.Same env d ways s (setNameHint init name) :=
  passes_of_leads fun _ _ hr => returns_modify.1 hr ▸ I.naming h

theorem passes_remember {expr : Node} (h : I.Fit expr) :
    I.Same env d ways s (remember scope expr) :=
  passes_of_leads fun _ _ hr => returns_modify.1 hr ▸ I.deferring h

/-- A routine that runs while an evaluation is open. -/
theorem passes_withFrame {description : String} (h : ∀ t, I.Passes env d ways t x x') :
    I.Passes env d ways s (withFrame location description x)
      (withFrame location description x') := by
  intro hi a s' hr
  obtain ⟨t, hx, rfl⟩ := returns_withFrame hr
  have hopen : Aside s { s with calls := s.calls.push ⟨location, description⟩ } :=
    ⟨rfl, rfl, rfl, rfl, fun _ => id⟩
  have hclose : Aside t { t with calls := t.calls.pop.2 } := ⟨rfl, rfl, rfl, rfl, fun _ => id⟩
  obtain ⟨ht, hback⟩ := I.aside hopen hi
  obtain ⟨hinner, hback'⟩ := h _ ht a t hx
  obtain ⟨hs', hback''⟩ := I.aside hclose hinner
  refine ⟨hs', fun ha => ?_⟩
  obtain ⟨ha, hx'⟩ := hback' (hback'' ha)
  refine ⟨hback ha, ?_⟩
  rw [withFrame, returns_modify_bind]
  refine returns_bind.2 ⟨some a, t, returns_attempt_some.2 hx', ?_⟩
  rw [returns_modify_bind, returns_pure]
  exact ⟨rfl, rfl⟩

/-- What is done after a failure does not return. -/
theorem passes_attempt_bind {f f' : Option α → LowerM β} (hx : I.Passes env d ways s x x')
    (hf : ∀ a t, I.Passes env d ways t (f (some a)) (f' (some a)))
    (hfail : ∀ t b s', ¬ Returns (f none) env t b s') :
    I.Passes env d ways s (attempt x >>= f) (attempt x' >>= f') := by
  intro hi b s' hr
  obtain ⟨result, t, hattempt, hr⟩ := returns_bind.1 hr
  cases result with
  | none => exact absurd hr (hfail t b s')
  | some a =>
    obtain ⟨ht, hback⟩ := hx hi a t (returns_attempt_some.1 hattempt)
    obtain ⟨hs', hback'⟩ := hf a t ht b s' hr
    refine ⟨hs', fun ha => ?_⟩
    obtain ⟨ha, hr'⟩ := hback' ha
    obtain ⟨ha, hx'⟩ := hback ha
    exact ⟨ha, returns_bind.2 ⟨some a, t, returns_attempt_some.2 hx', hr'⟩⟩

/-- A part of a variable's declaration. -/
theorem passes_orDeclareFailed {name : String} (h : I.Passes env d ways s x x') :
    I.Passes env d ways s (orDeclareFailed x node name scope)
      (orDeclareFailed x' node name scope) := by
  intro hi a s' hr
  obtain ⟨hs', hback⟩ := h hi a s' hr.of_orDeclareFailed
  refine ⟨hs', fun ha => (hback ha).imp_right fun hx' => ?_⟩
  exact returns_bind.2 ⟨some a, s', returns_attempt_some.2 hx', returns_pure.2 ⟨rfl, rfl⟩⟩

/-- The stream of a compile-time block, after whose failure the block fails. -/
theorem passes_inChildStream_bind {name : String} {root : ScopeId}
    {f f' : Nat × Option α → LowerM β} (hx : ∀ t, I.Passes env (d + 1) [] t x x')
    (hf : ∀ unit a t, I.Passes env d ways t (f (unit, some a)) (f' (unit, some a)))
    (hfail : ∀ unit t b s', ¬ Returns (f (unit, none)) env t b s') :
    I.Passes env d ways s (inChildStream name root x >>= f)
      (inChildStream name root x' >>= f') := by
  intro hi b s' hr
  obtain ⟨a, u, hinner, hr⟩ := returns_inChildStream_bind hr fun t unit => hfail unit t b s'
  -- Nothing comes of the stream inside once it is over but what comes of the one around it.
  obtain ⟨hu, hback⟩ := hx (s.inChild name root) (I.enter hi) a u hinner
  obtain ⟨haround, hleave⟩ := I.leave hi hu
  obtain ⟨hs', hback'⟩ := hf _ a _ haround b s' hr
  refine ⟨hs', fun ha => ?_⟩
  obtain ⟨ha, hr'⟩ := hback' ha
  obtain ⟨hin, hout⟩ := hleave ha
  refine ⟨hout, returns_bind.2 ⟨_, _, ?_, hr'⟩⟩
  rw [Returns, outcome_inChildStream]
  simp only [show outcome x' env (s.inChild name root) = (.ok a, u) from (hback hin).2]

end Inspection

/-! ### Parts -/

/-- A check of how an expression was lowered: of the node, the scope, the state before, the value,
and the state after. -/
abbrev Check := Node → ScopeId → State → InstId → State → Prop

open Classical in
/-- The routines for parts, with an alarm after every expression that does not pass a check. -/
noncomputable def inspected (ok : Check) (alarm : ∀ {α : Type}, LowerM α) : (levels : Nat) → Parts
  | 0 => nested 0
  | levels + 1 =>
    { expr := fun node scope loc => do
        let before ← get
        let value ← lowerExpr (inspected ok alarm levels) node scope loc
        let after ← get
        if ok node scope before value after then return value else alarm
      statement := fun node scope => lowerStatement (inspected ok alarm levels) node scope }

/-- The routines for parts pass: for a node that no declaration names, and for the initializer of a
declaration while its name is set aside. -/
structure Inspection.PassesParts (I : Inspection) (env : Env) (parts parts' : Parts) : Prop where
  expr : ∀ {d ways s node scope loc}, I.Fit node →
    I.Passes env d ways s (parts.expr node scope loc) (parts'.expr node scope loc)
  init : ∀ {d ways s name node scope loc}, I.Init name node → s.nameHint = some (node.id, name) →
    I.Passes env d ways s (parts.expr node scope loc) (parts'.expr node scope loc)
  statement : ∀ {d ways s node scope}, I.Fit node →
    I.Passes env d ways s (parts.statement node scope) (parts'.statement node scope)

end Lower

end SourceIr
