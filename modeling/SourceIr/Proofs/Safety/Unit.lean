import SourceIr.Proofs.Decl.Table
import SourceIr.Proofs.Lowering
import SourceIr.Proofs.Safety.Control

/-!
# Safety of units

A unit never breaks a rule towards its stream, and one whose stream is not poisoned was lowered to
its end.

* `secure_lowerFunction`, `secure_lowerGlobal`, the two kinds of units;
* `Lowering.outcome_cases`, `Lowering.outcome_eq_ok`;
* `Node.unitParts`, `UnitRoutine`, what a unit is lowered from and how;
* `lowering_breaks_no_rule`, whatever is lowered, and whichever way.
-/

namespace SourceIr

namespace Lower

open Logic

variable {env : Env} {s : State} {node : Node} {scope : ScopeId} {parts : Parts}

/-- The routines at the start of a unit keep to the rules. -/
theorem secure_outermost_bind {α : Type} {f : Parts → LowerM α} {Q : State → α → Prop}
    (h : ∀ parts, SecureParts env parts → Secure env s (f parts) Q) :
    Secure env s (outermost >>= f) Q :=
  holds_read_bind (L := safety env) (h _ (secureParts_nested env.options.maxDepth))

theorem secure_lowerFunction {fn : FnParts} {name : String} (hs : IsScope s scope) :
    Secure env s (lowerFunction node fn name scope) fun _ _ => True := by
  refine secure_outermost_bind fun parts hp => ?_
  refine secure_bind (secure_openScope hs) fun s₁ fnScope k₁ hfn => ?_
  refine secure_bind (holds_lowerParams (L := safety env) hp.holds (fun _ _ _ _ => trivial) hfn)
    fun s₂ _ (k₂ : Kept s₁ s₂) _ => ?_
  refine secure_bind (holds_lowerSignatureType (L := safety env) hp.holds (fun _ _ => trivial)
    (hfn.mono k₂)) fun s₃ _ (k₃ : Kept s₂ s₃) _ => ?_
  split
  · exact secure_pure trivial
  · refine secure_bind (hp.expr (by grind) nofun) fun s₄ value k₄ _ => ?_
    refine secure_isTerminated_bind ?_
    split
    · exact secure_bind (secure_append (by grind) nofun) fun _ _ _ _ => secure_pure trivial
    · exact secure_pure trivial

theorem secure_lowerBody (hs : IsScope s scope) :
    Secure env s (lowerBody node scope) fun _ _ => True := by
  refine secure_outermost_bind fun parts hp => ?_
  refine secure_bind (hp.value hs) fun s₁ value k₁ hv => ?_
  refine secure_isTerminated_bind ?_
  split
  · exact secure_bind (secure_emit_one (hs.mono k₁) rfl hv) fun _ _ _ _ => secure_pure trivial
  · exact secure_pure trivial

theorem secure_lowerGlobal {name : String} {type init : Option Node} (hs : IsScope s scope) :
    Secure env s (lowerGlobal node name type init scope) fun _ _ => True := by
  have htype : Secure env s (lowerGlobalType type scope) fun _ _ => True := by
    cases type with
    | none => exact secure_pure trivial
    | some type =>
      exact secure_outermost_bind fun parts hp =>
        secure_bind (hp.value hs) fun _ _ _ _ => secure_pure trivial
  refine secure_bind htype fun s₁ _ k₁ _ => ?_
  cases init with
  | none => exact secure_failAt
  | some init =>
    exact secure_bind (holds_setNameHint (L := safety env)) fun s₂ _ (k₂ : Kept s₁ s₂) _ =>
      secure_lowerBody (by grind)

end Lower

open Lower

/-- How a unit ends whose lowering is secure: it is poisoned, or it was lowered to its end. -/
theorem Generator.run_outcome {g : Generator} {name : String} {kind : UnitKind} {s : State}
    {x : LowerM PUnit} {Q : State → PUnit → Prop} (hs : Safe s) (hf : s.failedVars = [])
    (hx : Secure ⟨g.table, g.options⟩ s x Q) :
    (g.run name kind s x).outcome = .ok ⟨⟩ ∨
      (g.run name kind s x).outcome = .error .poisoned ∧
        (g.run name kind s x).unit.isPoisoned = true := by
  have h := hx hs
  change (outcome x ⟨g.table, g.options⟩ s).1 = _ ∨ (outcome x ⟨g.table, g.options⟩ s).1 = _ ∧
    (outcome x ⟨g.table, g.options⟩ s).2.stream.isPoisoned = true
  rcases ho : outcome x ⟨g.table, g.options⟩ s with ⟨(_ | e) | u, s'⟩ <;> rw [ho] at h
  · obtain ⟨-, k, hp | hv⟩ := h
    · exact .inr ⟨rfl, hp⟩
    · exact .inr ⟨rfl, (k.failed hv).resolve_left (fun h => h hf)⟩
  · exact h.elim
  · exact .inl rfl

/-- The state at the start of a unit is safe. -/
theorem Generator.safe_start {g : Generator} {name : String} {isInline : Bool}
    {scopes : ScopeTree} {root : ScopeId} (h : scopes.WellFormed) :
    Safe (g.start (Stream.new name isInline) scopes root) :=
  ⟨Stream.coherent_new name isInline, nofun, h, nofun⟩

theorem Generator.runFunction_outcome (g : Generator) (node : Node) (name : String)
    (kind : UnitKind) (containers : List String) :
    (g.runFunction node name kind containers).outcome = .ok ⟨⟩ ∨
      (g.runFunction node name kind containers).outcome = .error .poisoned ∧
        (g.runFunction node name kind containers).unit.isPoisoned = true := by
  have ho := g.opened_unitScopes containers
  rw [Generator.runFunction]
  refine Generator.run_outcome (g.safe_start ho.scopes) rfl (Q := fun _ _ => True) ?_
  split
  · exact secure_lowerFunction ho.index
  · exact secure_failAt

theorem Generator.runTopLevel_outcome (g : Generator) (node : Node) (name : String)
    (kind : UnitKind) (containers : List String) :
    (g.runTopLevel node name kind containers).outcome = .ok ⟨⟩ ∨
      (g.runTopLevel node name kind containers).outcome = .error .poisoned ∧
        (g.runTopLevel node name kind containers).unit.isPoisoned = true := by
  have ho := g.opened_unitScopes containers
  have hs : IsScope (g.start (Stream.new name true)
      ((g.unitScopes containers).2.openUnder (g.unitScopes containers).1 .comptime).2
      ⟨(g.unitScopes containers).2.scopes.size⟩) ⟨(g.unitScopes containers).2.scopes.size⟩ := by
    simp [IsScope, Generator.start]
  rw [Generator.runTopLevel]
  refine Generator.run_outcome (g.safe_start (ho.scopes.openUnder ho.index)) rfl
    (Q := fun _ _ => True) ?_
  split
  · exact secure_lowerGlobal hs
  · exact secure_lowerBody hs
  · exact secure_lowerBody hs

theorem Generator.outcome_runFunction_ne_fault (g : Generator) (node : Node) (name : String)
    (kind : UnitKind) (containers : List String) (f : Fault) :
    (g.runFunction node name kind containers).outcome ≠ .error (.fault f) := by
  rcases g.runFunction_outcome node name kind containers with h | ⟨h, -⟩ <;> simp [h]

theorem Generator.outcome_runTopLevel_ne_fault (g : Generator) (node : Node) (name : String)
    (kind : UnitKind) (containers : List String) (f : Fault) :
    (g.runTopLevel node name kind containers).outcome ≠ .error (.fault f) := by
  rcases g.runTopLevel_outcome node name kind containers with h | ⟨h, -⟩ <;> simp [h]

theorem Lowering.outcome_cases {node : Node} {run : UnitRun} (h : Lowering node run) :
    run.outcome = .ok ⟨⟩ ∨ run.outcome = .error .poisoned ∧ run.unit.isPoisoned = true := by
  obtain ⟨g, name, kind, containers, rfl | ⟨rfl, -⟩⟩ := h.cases
  · exact g.runFunction_outcome node name kind containers
  · exact g.runTopLevel_outcome node name kind containers

/-- A unit that is not poisoned was lowered to its end. -/
theorem Lowering.outcome_eq_ok {node : Node} {run : UnitRun} (h : Lowering node run)
    (hp : run.unit.isPoisoned = false) : run.outcome = .ok ⟨⟩ :=
  h.outcome_cases.resolve_right fun ⟨_, h⟩ => by simp [hp] at h

/-- What the unit of a node is lowered from, each part with whether more of the unit follows it. -/
def Node.unitParts (node : Node) : List (Bool × Node) :=
  match FnParts.ofNode? node with
  | some fn =>
    (fn.params.flatMap (·.kind.used) ++ fn.returnType.toList).map (true, ·) ++
      fn.body.toList.map (false, ·)
  | none =>
    match node.kind with
    | .varDecl _ _ _ typeExpr init =>
      typeExpr.toList.map (true, ·) ++ init.toList.map (false, ·)
    | .comptime expr => [(false, expr)]
    | _ => [(false, node)]

theorem Node.unitParts_of_ofNode? {node : Node} {fn : FnParts}
    (h : FnParts.ofNode? node = some fn) : node.unitParts =
      (fn.params.flatMap (·.kind.used) ++ fn.returnType.toList).map (true, ·) ++
        fn.body.toList.map (false, ·) := by
  simp only [unitParts, h]

/-- The routine of a unit: that of a function, or one that is evaluated at compile time as a
whole. -/
inductive Lower.UnitRoutine (node : Node) (scope : ScopeId) : LowerM PUnit → Prop
  | function {fn : FnParts} {name : String} (h : FnParts.ofNode? node = some fn) :
      UnitRoutine node scope (lowerFunction node fn name scope)
  | global {name : String} {type init : Option Node}
      (h : node.unitParts = type.toList.map (true, ·) ++ init.toList.map (false, ·)) :
      UnitRoutine node scope (lowerGlobal node name type init scope)
  | body {expr : Node} (h : node.unitParts = [(false, expr)]) :
      UnitRoutine node scope (lowerBody expr scope)

/-- The state at the start of a unit: its stream is fresh, no sink is open, no variable is declared,
and no jump leaves the scope that it starts in. -/
structure Lower.Starting (s : State) : Prop where
  stream : ∃ name isInline, s.stream = .new name isInline
  sinks : s.sinks = []
  deferred : s.deferred = []
  scopes : s.scopes.WellFormed
  bare : s.scopes.Bare
  root : ∃ y, s.scopes.scope? s.streamRoot = some y ∧ exits y.kind = []

theorem Lower.exits_of_endsJumps {kind : ScopeKind} (h : kind.endsJumps = true) :
    exits kind = [] := by
  cases kind <;> first | rfl | cases h

theorem Generator.returns_of_outcome {g : Generator} {name : String} {kind : UnitKind} {s : State}
    {x : LowerM PUnit} (h : (g.run name kind s x).outcome = .ok ⟨⟩) :
    Returns x ⟨g.table, g.options⟩ s ⟨⟩ (outcome x ⟨g.table, g.options⟩ s).2 :=
  Prod.ext h rfl

/-- The routine of a unit that is not poisoned returns. -/
theorem Lowering.exists_returns {node : Node} {run : UnitRun} (h : Lowering node run)
    (hp : run.unit.isPoisoned = false) :
    ∃ env s s' x, Starting s ∧ UnitRoutine node s.streamRoot x ∧ Returns x env s ⟨⟩ s' ∧
      s'.stream = run.unit.stream ∧ s'.scopes = run.unit.scopes := by
  have ho := h.outcome_eq_ok hp
  obtain ⟨g, name, kind, containers, rfl | ⟨rfl, hfn⟩⟩ := h.cases
  · have hopened := g.opened_unitScopes containers
    obtain ⟨y, hy, hk⟩ := hopened.kind
    have hr := Generator.returns_of_outcome ho
    refine ⟨_, _, _, _, ⟨⟨_, _, rfl⟩, rfl, rfl, hopened.scopes, g.bare_unitScopes containers, y, hy,
      exits_of_endsJumps hk⟩, ?_, hr, rfl, rfl⟩
    split
    next fn hfn => exact .function hfn
    next hfn =>
      simp only [hfn] at hr
      exact absurd hr not_returns_fail
  · have hopened := g.opened_unitScopes containers
    refine ⟨_, _, _, _, ⟨⟨_, _, rfl⟩, rfl, rfl, hopened.scopes.openUnder hopened.index,
      (g.bare_unitScopes containers).openUnder, _, ScopeTree.scope?_openUnder _ _, rfl⟩, ?_,
      Generator.returns_of_outcome ho, rfl, rfl⟩
    split
    next hk => exact .global (by simp only [Node.unitParts, hfn, hk])
    next hk => exact .body (by simp only [Node.unitParts, hfn, hk])
    next hk _ => exact .body (by simp only [Node.unitParts, hfn])

/-- The routine of a function that is not poisoned returns. -/
theorem Generator.returns_lowerFunction (g : Generator) {node : Node} {fn : FnParts} {name : String}
    {kind : UnitKind} {containers : List String} (hfn : FnParts.ofNode? node = some fn)
    (hp : (g.runFunction node name kind containers).unit.isPoisoned = false) :
    ∃ s', Returns (lowerFunction node fn name (g.unitScopes containers).1) ⟨g.table, g.options⟩
        (g.start (Stream.new name false) (g.unitScopes containers).2 (g.unitScopes containers).1)
        ⟨⟩ s' ∧
      s'.stream = (g.runFunction node name kind containers).unit.stream ∧ Safe s' := by
  have hopened := g.opened_unitScopes containers
  have ho := (g.runFunction_outcome node name kind containers).resolve_right
    fun ⟨_, h⟩ => by simp [hp] at h
  simp only [Generator.runFunction, hfn] at ho ⊢
  have hr := Generator.returns_of_outcome ho
  refine ⟨_, hr, rfl, ?_⟩
  have hsecure : Secure ⟨g.table, g.options⟩ (g.start (Stream.new name false)
      (g.unitScopes containers).2 (g.unitScopes containers).1)
      (lowerFunction node fn name (g.unitScopes containers).1) fun _ _ => True :=
    secure_lowerFunction hopened.index
  have hleaves := hsecure (g.safe_start hopened.scopes)
  rw [hr] at hleaves
  exact hleaves.1

theorem Lowering.fault?_eq_none {node : Node} {run : UnitRun} (h : Lowering node run) :
    run.fault? = none := by
  rcases h.outcome_cases with ho | ⟨ho, -⟩ <;> rw [UnitRun.fault?, ho]

theorem FileRun.fault?_eq_none (root : Node) (options : Options) :
    (FileRun.ofRoot root options).fault? = none := by
  have htable := DeclTable.wellFormed_ofRoot root
  simp only [FileRun.ofRoot, Option.or_eq_none_iff, List.findSome?_eq_none_iff, List.mem_map]
  constructor
  · intro d hd
    obtain ⟨i, hi⟩ := List.mem_iff_getElem?.1 hd
    have hi' : (DeclTable.ofRoot root).1.decls[i]? = some d := by simpa using hi
    refine htable.fault?_eq_none ?_
    rw [htable.id i d hi']
    exact (Array.getElem?_eq_some_iff.1 hi').1
  · rintro _ ⟨⟨decl, node⟩, hw, rfl⟩
    exact (Lowering.inFile hw).fault?_eq_none

theorem Generator.lowerIn_outcome (g : Generator) (node : Node) {scopes : ScopeTree}
    {scope : ScopeId} (name : String) (hscopes : scopes.WellFormed)
    (hs : scope.index < scopes.scopes.size) :
    (g.lowerIn node scopes scope name).outcome = .ok ⟨⟩ ∨
      (g.lowerIn node scopes scope name).outcome = .error .poisoned ∧
        (g.lowerIn node scopes scope name).unit.isPoisoned = true := by
  rw [Generator.lowerIn]
  exact Generator.run_outcome (g.safe_start hscopes) rfl (secure_lowerBody hs)

theorem Generator.fault?_lowerIn (g : Generator) (node : Node) {scopes : ScopeTree}
    {scope : ScopeId} (name : String) (hscopes : scopes.WellFormed)
    (hs : scope.index < scopes.scopes.size) :
    (g.lowerIn node scopes scope name).fault? = none := by
  rcases g.lowerIn_outcome node name hscopes hs with ho | ⟨ho, -⟩ <;> rw [UnitRun.fault?, ho]

/-- No rule towards a stream, a scope, a variable or a declaration is broken, whatever the tree and
the options: not when a file is lowered, nor a node by itself, nor a function by itself, nor a node
in well-formed scopes of the caller. -/
theorem lowering_breaks_no_rule :
    (∀ (root : Node) (options : Options), (DeclTable.ofRoot root).1.WellFormed ∧
      (FileRun.ofRoot root options).fault? = none) ∧
    (∀ (g : Generator) (node : Node),
      (g.lower node).fault? = none ∧ (g.lowerFnBody node).fault? = none) ∧
    ∀ (g : Generator) (node : Node) (scopes : ScopeTree) (scope : ScopeId) (name : String),
      scopes.WellFormed → scope.index < scopes.scopes.size →
        (g.lowerIn node scopes scope name).fault? = none :=
  ⟨fun root options => ⟨DeclTable.wellFormed_ofRoot root, FileRun.fault?_eq_none root options⟩,
    fun g node => ⟨(Lowering.alone g node).fault?_eq_none, (Lowering.asFn g node).fault?_eq_none⟩,
    fun g node _ _ name hscopes hs => g.fault?_lowerIn node name hscopes hs⟩

/-- A compile-time block in a container of the caller, which gets a stream of its own. -/
theorem lowering_breaks_no_rule_comptime :
    (Generator.bare.unitScopes ["S"]).2.WellFormed ∧
      1 < (Generator.bare.unitScopes ["S"]).2.scopes.size ∧
      (Generator.bare.lowerIn (.bare (.comptime (.bare (.boolLiteral true))))
        (Generator.bare.unitScopes ["S"]).2 ⟨1⟩ "e").fault? = none :=
  have hscopes := (Generator.opened_unitScopes .bare ["S"]).scopes
  have hs : 1 < (Generator.bare.unitScopes ["S"]).2.scopes.size := by decide
  ⟨hscopes, hs, lowering_breaks_no_rule.2.2 .bare _ _ ⟨1⟩ "e" hscopes hs⟩

end SourceIr
