import SourceIr.Proofs.Course.Framed
import SourceIr.Proofs.Scope.Known

/-!
# Failed declarations and the uses of their names

A variable whose declaration fails is declared all the same, unless its name is taken.  Either way
the name is known from then on, so what follows in the block may use it, at any nesting, without a
diagnostic of its own.

* `State.Exposes`, the deferred expressions that are lowered where a name is not known, and
  `Course.concealed`, the diagnostics on a name that is known;
* `Reveals`, the routines that fail only once a name is known, and `reveals_lowerLocalVar`;
* `failed_variable_does_not_cascade`, for the statements after the variable.
-/

namespace SourceIr

/-- What is known around a scope that is not opened for compile-time evaluation is known in it. -/
theorem ScopeTree.Inside.known {t : ScopeTree} {table : DeclTable} {name : String} {c p : ScopeId}
    (h : t.Inside c p) (ht : t.Recorded) (hk : t.Known table c name) : t.Known table p name := by
  rcases h with rfl | ⟨-, -, new, hl, -⟩
  · exact hk
  · exact hk.inside ht hl

namespace Lower

variable {env : Env} {ok : Bool} {l : Nat} {t : Task} {c p : ScopeId} {s s' : State}
  {name : String}

/-! ### Names that are known -/

/-- An expression is deferred, and where it is lowered then a name is not known. -/
def State.Exposes (s : State) (table : DeclTable) (name : String) (expr : Node) : Prop :=
  ∃ after y, (after, expr) ∈ s.deferred ∧ s.scopes.scope? after = some y ∧
    ¬ s.scopes.Known table (y.parent.getD after) name

/-- A node of some trees. -/
def OfTrees (trees : Node → Prop) (n : Node) : Prop := ∃ tree, trees tree ∧ n ∈ tree.nodes

theorem OfTrees.below {trees : Node → Prop} {n m : Node} (h : OfTrees trees n) (hm : m ∈ n.nodes) :
    OfTrees trees m := by
  obtain ⟨tree, ht, hn⟩ := h
  exact ⟨tree, ht, Node.nodes_trans hn hm⟩

/-- A diagnostic on a name that stands for nothing is about an identifier in some trees. -/
def Concerns (name : String) (trees : Node → Prop) (m : Message) : Prop :=
  m.kind = .unresolvedName → m.message = undeclared name →
    ∃ n, OfTrees trees n ∧ n.kind = .symbol name ∧ m.location = n.location

theorem eq_of_undeclared_eq {name name' : String} (h : undeclared name = undeclared name') :
    name = name' := by
  have hl := congrArg String.toList h
  rw [toList_undeclared, toList_undeclared, List.append_cancel_right_eq] at hl
  exact String.toList_inj.1 (List.append_cancel_left hl)

/-- What is exposed later in an earlier scope is exposed there. -/
theorem State.Exposes.of_framed {table : DeclTable} {expr : Node}
    (h : s'.Exposes table name expr) (hs : Settled s) (hi : s.scopes.Recorded)
    (hi' : s'.scopes.Recorded) (hf : Framed s s') (hd : s'.deferred = s.deferred) :
    s.Exposes table name expr := by
  obtain ⟨after, y', hmem, hy', hk⟩ := h
  rw [hd] at hmem
  have hlt := hs.deferred _ hmem
  have hy : s.scopes.scope? after = some s.scopes.scopes[after.index] :=
    Array.getElem?_eq_getElem hlt
  obtain ⟨z, hz, -, hparent, -⟩ := hf.scopes after.index _ hy
  obtain rfl := Option.some.inj (hz.symm.trans hy')
  refine ⟨after, _, hmem, hy, fun hknown => hk ?_⟩
  rw [hparent]
  refine hknown.grows hi hi' hf.scopes hf.vars ?_
  cases hp : s.scopes.scopes[after.index].parent with
  | none => exact hlt
  | some q => exact Nat.lt_trans (hs.scopes.parent _ _ hy q hp) hlt

/-- Whatever is exposed belongs to some trees. -/
def Sheltered (table : DeclTable) (name : String) (trees : Node → Prop) (s : State) : Prop :=
  ∀ expr, s.Exposes table name expr → OfTrees trees expr

/-- The scopes of a state are indexed, and a scope is among them. -/
structure Homed (s : State) (c : ScopeId) : Prop where
  settled : Settled s
  indexed : s.scopes.Indexed
  lt : c.index < s.scopes.scopes.size

namespace Homed

theorem of_eq (h : Homed s c) (hscopes : s'.scopes = s.scopes) (hsinks : s'.sinks = s.sinks)
    (hdeferred : s'.deferred = s.deferred) : Homed s' c :=
  ⟨h.settled.of_eq hscopes hsinks hdeferred, hscopes ▸ h.indexed, hscopes ▸ h.lt⟩

theorem of_course (h : Homed s c) (hs : Course env ok l t p s s') : Homed s' c where
  settled := hs.settled h.settled
  indexed := hs.keeps (fun _ _ ht hi => hi.change ht) h.indexed
  lt := Nat.lt_of_lt_of_le h.lt hs.grows.size_le

theorem known (h : Homed s c) (hs : Course env ok l t p s s')
    (hk : s.scopes.Known env.table c name) : s'.scopes.Known env.table c name :=
  hk.grows h.indexed.recorded (h.of_course hs).indexed.recorded hs.grows hs.frame.vars h.lt

theorem opening (h : Homed s c) (hp : p.index < s.scopes.scopes.size) (kind : ScopeKind) :
    Homed (s.opening p kind) s.top where
  settled := h.settled.opening hp kind
  indexed := h.indexed.openUnder hp
  lt := s.top_lt_opening p kind

theorem minor (h : Homed s c) (hm : Minor s s') : Homed s' c :=
  ⟨h.settled.minor hm, hm.scopes ▸ h.indexed, hm.scopes ▸ h.lt⟩

theorem change (h : Homed s c) (hs : Settled s') (ht : s.scopes.Change s'.scopes) : Homed s' c :=
  ⟨hs, h.indexed.change ht, Nat.lt_of_lt_of_le h.lt ht.grows.size_le⟩

theorem declaring (h : Homed s c) (hp : p.index < s.scopes.scopes.size) (r : BindingRequest) :
    Homed (s.declaring p r) c := h.change (h.settled.declaring p r) (.declared r hp)

theorem sheltered {table : DeclTable} {trees : Node → Prop} (h : Homed s c)
    (hd : Sheltered table name trees s) (hi : s'.scopes.Recorded) (hf : Framed s s')
    (hdef : s'.deferred = s.deferred) : Sheltered table name trees s' :=
  fun expr he => hd expr (he.of_framed h.settled h.indexed.recorded hi hf hdef)

theorem sheltered_opening {table : DeclTable} {trees : Node → Prop} (h : Homed s c)
    (hd : Sheltered table name trees s) (hp : p.index < s.scopes.scopes.size) (kind : ScopeKind) :
    Sheltered table name trees (s.opening p kind) :=
  h.sheltered hd (h.indexed.recorded.openUnder hp) (.opening s p kind) rfl

end Homed

/-- What a failure of a task reports on a name concerns the task, unless the name is known. -/
theorem Fails.concerns {m : Message} {trees : Node → Prop} (h : Fails env s t c m)
    (hi : s.scopes.Indexed)
    (hw : s.scopes.Known env.table c name ∨ OfTrees trees t.node) :
    Concerns name trees (s.recorded env.options.callStackLimit m) := by
  intro hkind htext
  have hrecorded : ∀ limit, (s.recorded limit m).kind = m.kind ∧
      (s.recorded limit m).message = m.message ∧ (s.recorded limit m).location = m.location := by
    intro limit
    rw [State.recorded]
    split <;> exact ⟨rfl, rfl, rfl⟩
  obtain ⟨hk, ht, hl⟩ := hrecorded env.options.callStackLimit
  rw [hk] at hkind
  rw [ht] at htext
  cases h with
  | undeclared hb hsymbol hne hprimitive hnone =>
    obtain rfl := eq_of_undeclared_eq htext
    rcases hw with hw | hw
    · exact absurd hnone (hw.lookup_ne_none hi hprimitive)
    · exact ⟨t.node, hw, hsymbol, hl⟩
  | other _ _ _ _ hname => exact absurd htext (hname hkind name)
  | taken _ h =>
    rw [ScopeTree.kind_of_bindingError? h] at hkind
    cases hkind

/-- While a task is lowered in a scope where a name is known, nothing is reported on the name, and
the expressions that are deferred on the way find it known, too: what is reported concerns trees
that were there before. -/
theorem Course.concealed {trees : Node → Prop} (h : Course env ok l t c s s') (hs : Homed s c)
    (hw : s.scopes.Known env.table c name ∨ OfTrees trees t.node)
    (hd : Sheltered env.table name trees s) :
    Sheltered env.table name trees s' ∧ Reports (Concerns name trees) s s' := by
  induction h with
  | refl | lost | marked => exact ⟨hd, .of_eq rfl⟩
  | trans h _ ih ih' | resume h _ ih ih' =>
    obtain ⟨hd', hr⟩ := ih hs hw hd
    obtain ⟨hd'', hr'⟩ := ih' (hs.of_course h) (hw.imp (hs.known h) id) hd'
    exact ⟨hd'', hr.trans hr'⟩
  | minor h =>
    have hi := h.scopes ▸ hs.indexed.recorded
    exact ⟨hs.sheltered hd hi (.minor h) h.deferred, .of_eq h.errors⟩
  | opened kind hp => exact ⟨hs.sheltered_opening hd hp kind, .of_eq rfl⟩
  | @declared _ _ _ p s r _ _ hp =>
    have hi := hs.indexed.recorded.addVar hp r
    have hd' : Sheltered env.table name trees (s.declaring p r) :=
      hs.sheltered hd hi (.declaring s p r) rfl
    exact ⟨hd', .of_eq rfl⟩
  | @deferred l c s node expr kind hk hc =>
    refine ⟨fun e he => ?_, .of_eq rfl⟩
    obtain ⟨after, y, hmem, hy, hnot⟩ := he
    rcases List.mem_cons.1 hmem with he | hmem
    · obtain ⟨rfl, rfl⟩ := Prod.mk.inj he
      obtain rfl := Option.some.inj (hy.symm.trans (ScopeTree.scope?_openUnder c _))
      rcases hw with hw | hw
      · exact absurd (hw.grows hs.indexed.recorded (hs.indexed.recorded.openUnder hc)
          (ScopeTree.grows_openUnder c _) List.prefix_rfl hc) hnot
      · refine hw.below (Node.mem_nodes_of_tree ?_ e.self_mem_nodes)
        simp [Task.node, hk, Kind.trees, Kind.values, FieldValue.trees]
    · exact hs.sheltered_opening hd hc (.deferred kind) e ⟨after, y, hmem, hy, hnot⟩
  | failed h => exact ⟨hd, .invalidated (h.concerns hs.indexed hw)⟩
  | tooDeep => exact ⟨hd, .invalidated fun hkind => by cases hkind⟩
  | part hp hin _ ih =>
    refine ih ⟨hs.settled, hs.indexed, hin.lt hs.lt⟩ ?_ hd
    exact hw.imp (hin.known hs.indexed.recorded) fun h => h.below (Task.mem_nodes_of_parts hp)
  | @comptimePart _ _ _ _ p _ _ _ he hin hlt _ ih =>
    refine ih (hs.opening hlt _) ?_ (hs.sheltered_opening hd hlt _)
    refine hw.imp (fun h => ?_) fun h => h.below (Task.mem_nodes_of_comptimeParts he)
    exact (hin.known hs.indexed.recorded h).opened hs.indexed.recorded hlt _
  | @exitPart _ _ _ after s _ _ expr y hmem hy hlt _ ih =>
    refine ih (hs.opening hlt _) ?_ (hs.sheltered_opening hd hlt _)
    by_cases hk : s.scopes.Known env.table (y.parent.getD after) name
    · exact .inl (hk.opened hs.indexed.recorded hlt _)
    · exact .inr (hd expr ⟨after, y, hmem, hy, hk⟩)
  | args _ _ _ _ ih => exact ih hs hw hd
  | framed _ _ _ _ ih => exact ih (hs.of_eq rfl rfl rfl) hw hd
  | framedComptime _ _ hlt _ ih =>
    refine ih ((hs.opening hlt .comptime).of_eq rfl rfl rfl) ?_ (hs.sheltered_opening hd hlt _)
    exact hw.imp (fun h => h.opened hs.indexed.recorded hlt _) id
  | inPlace hk _ hlt _ ih =>
    refine ih (hs.opening hlt _) ?_ (hs.sheltered_opening hd hlt _)
    refine hw.imp (fun h => h.opened hs.indexed.recorded hlt _) fun h => h.below ?_
    refine Node.mem_nodes_of_tree ?_ (Node.self_mem_nodes _)
    simp [Task.node, hk, Kind.trees, Kind.values, FieldValue.trees]
  | block _ _ hlt _ ih =>
    have ho := hs.opening hlt .comptime
    have hblock := ih ⟨hs.settled.inBlock hlt _ _, ho.indexed, ho.lt⟩
      (hw.imp (fun h => h.opened hs.indexed.recorded hlt _) id) (hs.sheltered_opening hd hlt _)
    exact ⟨hblock.1, hblock.2.around⟩
  | @sink _ _ _ p s _ kind _ hlt _ ih | @sinkLeft _ _ _ p s _ kind _ hlt _ ih =>
    have ho := hs.change (hs.settled.opening hlt kind) (.opened kind hlt)
    refine ih (hs.change (hs.settled.openSink hlt _ _) (.opened kind hlt)) ?_
      (hs.sheltered_opening hd hlt _)
    exact hw.imp (fun h => h.grows hs.indexed.recorded ho.indexed.recorded
      (ScopeTree.grows_openUnder p kind) List.prefix_rfl hs.lt) id

/-! ### Failed declarations -/

variable {α β : Type} {x : LowerM α} {f : α → LowerM β} {inner : α → List ScopeId} {parts : Parts}
  {node : Node} {scope : ScopeId}

/-- A routine that fails only once a name is known in a scope. -/
structure Reveals (env : Env) (scope : ScopeId) (name : String) (x : LowerM α) : Prop where
  ends : ∀ s, Homed s scope → match outcome x env s with
    | (.ok _, t) => Homed t scope
    | (.error .poisoned, t) => Homed t scope ∧ t.scopes.Known env.table scope name
    | (.error (.fault _), _) => True

theorem reveals_bind (hx : Reveals env scope name x) (hf : ∀ a, Reveals env scope name (f a)) :
    Reveals env scope name (x >>= f) := by
  refine ⟨fun s hs => ?_⟩
  have ho := hx.ends s hs
  rw [outcome_bind]
  rcases h : outcome x env s with ⟨(_ | _) | a, t⟩ <;> rw [h] at ho
  · exact ho
  · trivial
  · exact (hf a).ends t ho

theorem reveals_mild (hx : Mild x) : Reveals env scope name x := by
  refine ⟨fun s hs => ?_⟩
  have ho := hx.ends env s
  rcases h : outcome x env s with ⟨(_ | _) | a, t⟩ <;> rw [h] at ho
  · exact ho.elim
  · trivial
  · exact hs.minor ho

theorem reveals_openScope (p : ScopeId) (kind : ScopeKind) :
    Reveals env scope name (openScope p kind) := by
  refine ⟨fun s hs => ?_⟩
  obtain ⟨e, -, h⟩ | ⟨hlt, h⟩ := outcome_openScope_cases (s := s) p kind <;> rw [h]
  · trivial
  · exact hs.change (hs.settled.opening hlt kind) (.opened kind hlt)

/-- A declaration makes its name known, whether it is accepted or refused. -/
theorem reveals_declareFailed :
    Reveals env scope name (declareFailed node name scope : LowerM α) := by
  refine ⟨fun s hs => ?_⟩
  have h := bindingEnd_declare? env s scope (.named name node.location)
  rw [declareFailed, outcome_bind]
  generalize outcome (declare? scope (.named name node.location)) env s = o at h
  cases h with
  | fault => trivial
  | declared hlt =>
    exact ⟨(hs.declaring hlt _).of_eq rfl rfl rfl,
      ScopeTree.known_addVar hs.indexed.recorded hlt rfl⟩
  | refused h => exact ⟨hs, ScopeTree.known_of_bindingError? rfl h⟩

/-- What fails with a declaration leaves its name known. -/
theorem reveals_orDeclareFailed (hx : Steers env l t c [c] x inner) :
    Reveals env scope name (orDeclareFailed x node name scope) := by
  refine ⟨fun s hs => ?_⟩
  have ho := hx.ends s fun p hp => List.mem_singleton.1 hp ▸ .refl _ _
  rw [orDeclareFailed, outcome_bind, outcome_attempt]
  rcases h : outcome x env s with ⟨(_ | _) | a, t⟩ <;> rw [h] at ho
  · exact reveals_declareFailed.ends t (hs.of_course ho)
  · trivial
  · exact hs.of_course ho.1

theorem reveals_declare {r : BindingRequest} (hr : r.name = some name) :
    Reveals env scope name (declare scope r) := by
  refine ⟨fun s hs => ?_⟩
  have h := bindingEnd_declare? env s scope r
  rw [declare, outcome_bind]
  generalize outcome (declare? scope r) env s = o at h
  cases h with
  | fault => trivial
  | declared hlt => exact (hs.declaring hlt r).of_eq rfl rfl rfl
  | @refused m h =>
    obtain ⟨log, hf⟩ := @outcome_fail VarId env s m
    dsimp only
    rw [hf]
    exact ⟨hs.of_eq rfl rfl rfl, ScopeTree.known_of_bindingError? hr h⟩

/-- A variable that cannot be declared leaves its name known. -/
theorem reveals_lowerLocalVar (hp : TracksParts env l parts) {isConst isComptime : Bool}
    {typeExpr init : Option Node}
    (hk : node.kind = .varDecl name isConst isComptime typeExpr init) :
    Reveals env scope name
      (lowerLocalVar parts node name isConst isComptime typeExpr init scope) := by
  have htype : ∀ e ∈ typeExpr, e ∈ (Task.stmt node).comptimeParts := by
    simp +contextual [Task.comptimeParts, hk]
  refine reveals_bind (reveals_mild (mild_scopesFrom _)) fun scopes => ?_
  refine reveals_bind (reveals_orDeclareFailed (tracks_comptimeValue? hp htype (.head _)))
    fun typeInst => ?_
  cases init with
  | none =>
    have hfail : Tracks env (l + 1) (.stmt node) scope [scope]
        (failAt .invalidConstruct s!"variables must be initialized: '{name}'" "lower_local_var"
          node :
          LowerM PUnit) := tracks_failAt List.mem_cons_self rfl (by decide) (by decide)
    exact reveals_orDeclareFailed hfail
  | some init =>
    refine reveals_bind (reveals_mild (mild_emit ..)) fun ptr => ?_
    refine reveals_bind (reveals_mild (mild_setNameHint ..)) fun _ => ?_
    have declared : ∀ initScope, Reveals env scope name (do
        let value ← orDeclareFailed (parts.expr init initScope (.existing ptr)) node name scope
        let status : ComptimeStatus :=
          if isComptime || scopes.isForcedComptime scope then .known true else .pending value
        let var ← declare scope (((BindingRequest.named name node.location).constness isConst
          (isConst || (isComptime || scopes.isForcedComptime scope))).withComptime status)
        let _ ← emit (.declVar var ptr) scope node.location) := fun initScope =>
      reveals_bind (reveals_orDeclareFailed (hp.expr init initScope _)) fun value =>
        reveals_bind (reveals_declare rfl) fun var =>
          reveals_bind (reveals_mild (mild_emit ..)) fun _ => reveals_mild (mild_pure _)
    dsimp only
    split
    · exact reveals_bind (reveals_openScope scope .comptime) declared
    · exact declared scope

/-- After the declaration of a variable has failed, its name is known. -/
theorem known_of_failed {t : State} (hp : TracksParts env l parts) {isConst isComptime : Bool}
    {typeExpr init : Option Node} (hk : node.kind = .varDecl name isConst isComptime typeExpr init)
    (hs : Homed s scope)
    (hfail : outcome (lowerStatement parts node scope) env s = (.error .poisoned, t)) :
    Homed t scope ∧ t.scopes.Known env.table scope name := by
  have ho := (reveals_lowerLocalVar hp hk).ends s hs
  rw [lowerStatement, hk] at hfail
  dsimp only at hfail
  rw [outcome_bind] at hfail
  rcases h : outcome (lowerLocalVar parts node name isConst isComptime typeExpr init scope) env s
    with ⟨(_ | _) | a, t'⟩ <;> rw [h] at ho hfail
  · obtain ⟨-, rfl⟩ := Prod.mk.inj hfail
    exact ho
  · cases hfail
  · cases hfail

/-- A block in which a statement fails goes on with the statements after it. -/
theorem outcome_lowerStatements_failed {t : State} {statement : Node} {rest : List Node}
    (hpolicy : env.options.errorPolicy = .proceed) (hgo : s.stream.isTerminated = false)
    (hend : s.stream.endFault? = none)
    (hfail : outcome (parts.statement statement scope) env s = (.error .poisoned, t))
    (failed : Bool) :
    outcome (lowerStatements parts scope failed (statement :: rest)) env s =
      outcome (lowerStatements parts scope true rest) env t := by
  rw [lowerStatements, outcome_bind, outcome_isTerminated hend]
  simp only [hgo, Bool.false_eq_true, if_false]
  rw [outcome_bind, outcome_attempt, hfail]
  dsimp only
  rw [outcome_bind, outcome_read]
  simp only [hpolicy]

/-- When the declaration of a variable fails, for its type, its initializer or its name, the block
goes on and fails in the end, but nothing is reported on the name for an identifier of the
statements after it: if such a diagnostic is issued, then on an expression that was deferred before.
What these statements defer in turn will find the name known. -/
theorem failed_variable_does_not_cascade {levels : Nat} {t u : State}
    {isConst isComptime : Bool} {typeExpr init : Option Node} {rest : List Node} {failed : Bool}
    {r : Except Stop ScopeId} (hpolicy : env.options.errorPolicy = .proceed)
    (hk : node.kind = .varDecl name isConst isComptime typeExpr init) (hs : Homed s scope)
    (hgo : s.stream.isTerminated = false)
    (hfail : outcome ((nested (levels + 1)).statement node scope) env s = (.error .poisoned, t))
    (hrun : outcome (lowerStatements (nested (levels + 1)) scope failed (node :: rest)) env s =
      (r, u)) (hr : ∀ f, r ≠ .error (.fault f)) :
    r = .error .poisoned ∧
      Sheltered env.table name (t.Exposes env.table name) u ∧
        Reports (Concerns name (t.Exposes env.table name)) t u := by
  have hend : s.stream.endFault? = none := by
    cases he : s.stream.endFault? with
    | none => rfl
    | some f =>
      rw [lowerStatements, isTerminated] at hrun
      simp only [outcome_bind, outcome_get, he, stopAt, outcome_throw] at hrun
      exact absurd (Prod.mk.inj hrun).1.symm (hr f)
  rw [outcome_lowerStatements_failed hpolicy hgo hend hfail] at hrun
  obtain ⟨ht, hknown⟩ := known_of_failed (tracksParts_nested env levels) hk hs hfail
  -- The statements are those of a block without a label.
  have hwinds := (steers_lowerStatements (tracksParts_nested env (levels + 1))
    (t := .expr (.bare (.block none rest))) (c := scope)
    (fun st (hst : st ∈ rest) => by simpa [Task.parts, Node.bare] using hst)
    (List.mem_singleton_self scope)).2.ends
    t fun p hp => List.mem_singleton.1 hp ▸ .refl _ _
  rw [hrun] at hwinds
  obtain (_ | f) | next := r
  · obtain ⟨ok, hc⟩ := hwinds
    refine ⟨rfl, hc.concealed ht (.inl hknown) fun expr he => ⟨expr, he, expr.self_mem_nodes⟩⟩
  · exact absurd rfl (hr f)
  · exact hwinds.elim

/-- At the start of a unit. -/
theorem homed_start (g : Generator) (stream : Stream) (root : ScopeId) (containers : List String) :
    Homed (g.start stream (g.unitScopes containers).2 root) (g.unitScopes containers).1 where
  settled := settled_start g stream root (g.opened_unitScopes containers).scopes
  indexed := (g.bare_unitScopes containers).indexed (g.opened_unitScopes containers).scopes
  lt := (g.opened_unitScopes containers).index

/-- A variable whose initializer fails. -/
def unresolvedVar : Node :=
  .bare (.varDecl "x" false false none (some (.bare (.symbol "y"))))

/-- Statements that use the variable in a branch, in a deferred expression, as the target of an
assignment and in a compile-time block. -/
def usesAfter : List Node :=
  [.bare (.ifThen (.bare (.boolLiteral true)) none (.bare (.symbol "x")) none),
    .bare (.deferred .normal (.bare (.symbol "x"))),
    .bare (.assign (.bare (.symbol "x")) (.bare (.intLiteral 1))),
    .bare (.comptime (.bare (.symbol "x"))),
    .bare (.returnFrom none)]

/-- A lowering that goes on after failures, where no declaration is in sight. -/
def proceedingEnv : Env := ⟨.empty "", { errorPolicy := .proceed }⟩

/-- The state at the start of the body of a function. -/
def bodyStart : State := Generator.bareStart.opening ⟨0⟩ (.fnDef "f")

/-- The state after the declaration has failed. -/
def afterUnresolved : State :=
  (outcome ((nested 4).statement unresolvedVar ⟨1⟩) proceedingEnv bodyStart).2

/-- The state after the statements that use the variable. -/
def afterUses : State :=
  (outcome (lowerStatements (nested 4) ⟨1⟩ false (unresolvedVar :: usesAfter)) proceedingEnv
    bodyStart).2

theorem failed_variable_does_not_cascade_usesAfter :
    Reports (Concerns "x" (afterUnresolved.Exposes (.empty "") "x")) afterUnresolved afterUses ∧
      afterUnresolved.deferred = [] ∧
      afterUses.stream.errors.toList.map (·.message) = ["use of undeclared identifier 'y'"] := by
  have hs : Homed bodyStart ⟨1⟩ :=
    (homed_start .bare (.new "f" false) ⟨0⟩ []).opening (p := ⟨0⟩) (by decide) (.fnDef "f")
  have hfail : hasFailed (outcome ((nested 4).statement unresolvedVar ⟨1⟩) proceedingEnv
      bodyStart).1 = true := by decide +kernel
  have hrun : hasFailed (outcome (lowerStatements (nested 4) ⟨1⟩ false
      (unresolvedVar :: usesAfter)) proceedingEnv bodyStart).1 = true := by decide +kernel
  obtain ⟨-, -, hreports⟩ := failed_variable_does_not_cascade rfl rfl hs (by decide)
    (Prod.ext (eq_of_hasFailed hfail) rfl) (Prod.ext (eq_of_hasFailed hrun) rfl) nofun
  exact ⟨hreports, by decide +kernel, by decide +kernel⟩

end Lower

end SourceIr
