import SourceIr.Proofs.Charge.Control
import SourceIr.Proofs.Verdict.Unit

/-!
# What the nodes of a unit are charged with

A unit starts with nothing on record, and its node answers for what it leaves.

* `LoweredUnit.Accounted`, every diagnostic of a unit is charged to a node;
* `LoweredUnit.Accounted.once`: outside of deferred expressions a node is the subject of one
  diagnostic of a kind;
* `Generator.FailsOnce`: where lowering stops at the first failure, there is no other;
* `complaints_accounted`, every unit, and `not_once_defersIdle`, one whose deferred statement is
  the subject of a warning at each exit.
-/

namespace SourceIr

namespace Lower

open Outline

variable {env : Env} {root : Node} {blamed : List Node} {parts : Parts} {scope : ScopeId}
  {node : Node} {name : String} (hp : ChargesParts env root parts)

include hp

theorem charges_lowerSignatureType (type : Option Node) :
    Charges env root blamed (directOfOption type) (lowerSignatureType parts type scope) :=
  charges_last (hp.comptimeValue? _ _) fun _ => charges_pure _

theorem charges_lowerParams (index : Nat) (params : List Node) :
    Charges env root blamed (directOfList params) (lowerParams parts scope index params) := by
  induction params generalizing index with
  | nil => exact charges_pure _
  | cons param rest ih =>
    rw [lowerParams, directOfList]
    split
    next param? typeExpr isComptime hk =>
      rw [← bind_assoc]
      refine charges_bind (Charges.whole ?_) fun _ => ih _
      rw [hk]
      exact charges_last (charges_lowerSignatureType hp _) fun _ =>
        same_declareParam (at_self ..) _ _ _ _
    · exact (ih _).mono (List.sublist_append_right _ _)

theorem charges_lowerFunctionBy (fn : FnParts) :
    Charges env root blamed
      (directOfList fn.params ++ (directOfOption fn.returnType ++ directOfOption fn.body))
      (lowerFunctionBy parts node fn name scope) := by
  refine charges_then (same_openScope _ _) fun fnScope => ?_
  refine charges_bind (charges_lowerParams hp _ _) fun _ => ?_
  refine charges_bind (charges_lowerSignatureType hp _) fun _ => ?_
  cases fn.body with
  | none => exact charges_pure _
  | some body =>
    exact charges_last (hp.part _ _ _) fun _ => same_returnUnlessTerminated _ _ (charges_pure _) rfl

theorem charges_globalInit (init : Option Node) :
    Charges env root [node] (directOfOption init) (do
      match init with
      | none =>
        failAt .invalidConstruct s!"variables must be initialized: '{name}'" "generate" node
      | some init =>
        setNameHint init name
        lowerComptimeBody parts init init scope) := by
  cases init with
  | none => exact charges_same (same_failAt (at_self ..) rfl)
  | some init =>
    exact charges_then (rel_step _ (innerStep_setNameHint _ _)) fun _ =>
      charges_lowerComptimeBody _ _ hp _

theorem charges_lowerGlobalBy (type init : Option Node) :
    Charges env root [node] (directOfOption type ++ directOfOption init)
      (lowerGlobalBy parts node name type init scope) := by
  cases type with
  | none => exact charges_globalInit hp init
  | some type => exact charges_bind (hp.value _ _) fun _ => charges_globalInit hp init

/-- Every unit that is lowered as a function. -/
theorem charges_lowerAsFunction :
    Charges env root blamed node.direct (lowerAsFunction parts node name scope) := by
  refine Charges.whole ?_
  rw [lowerAsFunction, FnParts.ofNode?]
  cases node.kind
  case fnDecl _ params returnType body _ _ =>
    rw [Kind.direct]
    exact charges_lowerFunctionBy hp ⟨params, returnType, body⟩
  case testDecl _ body =>
    have h : Charges env root [node] _
        (lowerFunctionBy parts node ⟨[], none, some body⟩ name scope) :=
      charges_lowerFunctionBy hp _
    simpa only [Kind.direct, directOfList, directOfOption, List.nil_append] using h
  all_goals exact charges_same (same_failAt (at_self ..) rfl)

/-- Every unit that is evaluated at compile time as a whole. -/
theorem charges_lowerAsTopLevel :
    Charges env root blamed node.direct (lowerAsTopLevel parts node name scope) := by
  rw [lowerAsTopLevel]
  split
  next hk =>
    refine Charges.whole ?_
    rw [hk]
    exact charges_lowerGlobalBy hp _ _
  next hk =>
    refine Charges.whole ?_
    rw [hk]
    exact charges_lowerComptimeBody _ _ hp _
  · exact charges_lowerComptimeBody _ _ hp _

end Lower

/-! ### What a unit leaves -/

/-- The nodes of a tree answer for the diagnostics of a unit: each of them for one of a kind, and
those of a deferred expression for one of a kind each time that the expression was lowered, for
which a scope was opened.  There were so many of these scopes before. -/
def LoweredUnit.Accounted (root : Node) (before : Nat) (u : LoweredUnit) : Prop :=
  ∃ lowered : List Node, (∀ expr ∈ lowered, root.Defers expr) ∧
    before + lowered.length ≤ u.scopes.deferredBodies ∧
    ∀ k location,
      u.stream.complaints k location ≤ nodesAt (root.direct ++ directOfList lowered) location

/-- If no two nodes of a tree stand at one place, those outside of deferred expressions are the
subject of one diagnostic of a kind each. -/
def LoweredUnit.ReportsOnce (root : Node) (u : LoweredUnit) : Prop :=
  (root.nodes.map (·.location)).Nodup →
    ∀ node ∈ root.direct, ∀ k, u.stream.complaints k node.location ≤ 1

theorem LoweredUnit.Accounted.once {root : Node} {before : Nat} {u : LoweredUnit}
    (h : u.Accounted root before) : u.ReportsOnce root := by
  intro hdistinct node hn k
  obtain ⟨lowered, hl, -, hc⟩ := h
  have hone : nodesAt root.nodes node.location ≤ 1 := nodesAt_le_one hdistinct
  have hself := nodesAt_pos hn
  -- The place is taken, so that nothing that is deferred stands there.
  have hnone : nodesAt (directOfList lowered) node.location = 0 := by
    refine nodesAt_directOfList_eq_zero fun expr he => ?_
    have hroom : _ ≤ nodesAt root.nodes node.location := (hl expr he).nodesAt_le
    have hinside : _ ≤ nodesAt expr.nodes node.location := expr.nodesAt_direct_le
    omega
  have hdirect : _ ≤ nodesAt root.nodes node.location := root.nodesAt_direct_le
  have := hc k node.location
  rw [nodesAt_append, hnone] at this
  omega

namespace Generator

open Lower

theorem deferredBodies_openContainers {containers : List String} {t : ScopeTree}
    {scope : ScopeId} :
    (openContainers t scope containers).2.deferredBodies = t.deferredBodies := by
  induction containers generalizing t scope with
  | nil => rfl
  | cons path rest ih => exact ih.trans (ScopeTree.deferredBodies_openUnder_of_ne nofun)

variable (g : Generator) {node : Node} {name : String} {kind : UnitKind}

theorem deferredBodies_unitScopes (containers : List String) :
    (g.unitScopes containers).2.deferredBodies = 0 := deferredBodies_openContainers

/-- The node of a unit answers for what the unit leaves. -/
theorem accounted_run {x : LowerM PUnit} {isInline : Bool} {scopes : ScopeTree} {scope : ScopeId}
    {before : Nat} (hbefore : scopes.deferredBodies = before)
    (hx : Charges ⟨g.table, g.options⟩ node [] node.direct x)
    (hf : (g.run name kind (g.start (.new name isInline) scopes scope) x).fault? = none) :
    (g.run name kind (g.start (.new name isInline) scopes scope) x).unit.Accounted node before := by
  subst hbefore
  have ht : (g.start (.new name isInline) scopes scope).Tame node := nofun
  have h := hx.ends (fun n hn expr he => .direct hn he) _ ht
  rw [run_eq] at hf ⊢
  have accounted : ∀ {t}, Charged node (g.start (.new name isInline) scopes scope) t node.direct →
      LoweredUnit.Accounted node scopes.deferredBodies ⟨name, kind, t.stream, t.scopes⟩ := by
    rintro t ⟨-, lowered, hl, hb, hc⟩
    refine ⟨lowered, hl, hb, fun k location => ?_⟩
    have := hc k location
    rwa [start, Stream.complaints_new, Nat.zero_add] at this
  generalize outcome x ⟨g.table, g.options⟩ (g.start (.new name isInline) scopes scope) = o at h hf
  obtain ⟨(_ | f) | _, t⟩ := o
  · exact accounted h
  · cases hf
  · exact accounted h

theorem accounted_runFunction (containers : List String)
    (hf : (g.runFunction node name kind containers).fault? = none) :
    (g.runFunction node name kind containers).unit.Accounted node 0 := by
  rw [runFunction_eq] at hf ⊢
  exact g.accounted_run (g.deferredBodies_unitScopes _)
    (charges_lowerAsFunction (chargesParts_nested _)) hf

theorem accounted_runTopLevel (containers : List String)
    (hf : (g.runTopLevel node name kind containers).fault? = none) :
    (g.runTopLevel node name kind containers).unit.Accounted node 0 := by
  rw [runTopLevel_eq] at hf ⊢
  have hscopes : ((g.unitScopes containers).2.openUnder (g.unitScopes containers).1
      .comptime).2.deferredBodies = 0 := by
    rw [ScopeTree.deferredBodies_openUnder_of_ne (by simp), deferredBodies_unitScopes]
  exact g.accounted_run hscopes (charges_lowerAsTopLevel (chargesParts_nested _)) hf

theorem accounted_lowerIn (scopes : ScopeTree) (scope : ScopeId)
    (hf : (g.lowerIn node scopes scope name).fault? = none) :
    (g.lowerIn node scopes scope name).unit.Accounted node scopes.deferredBodies := by
  have hx : Charges ⟨g.table, g.options⟩ node [] node.direct (lowerBody node scope) :=
    ⟨(charges_lowerComptimeBody _ _ (chargesParts_nested g.options.maxDepth) _).ends⟩
  exact g.accounted_run rfl hx hf

end Generator

theorem Lowering.accounted {node : Node} {run : UnitRun} (h : Lowering node run) :
    run.unit.Accounted node 0 := by
  have hf := h.fault?_eq_none
  obtain ⟨g, name, kind, containers, rfl | ⟨rfl, -⟩⟩ := h.cases
  · exact g.accounted_runFunction containers hf
  · exact g.accounted_runTopLevel containers hf

/-! ### The first failure -/

/-- No more than one failure is on record. -/
def LoweredUnit.FailsOnce (u : LoweredUnit) : Prop :=
  u.stream.diagnostics.countP (·.isFatal) ≤ 1

theorem UnitRun.outcome_ne_fault {r : UnitRun} (h : r.fault? = none) (f : Fault) :
    r.outcome ≠ .error (.fault f) := by
  intro ho
  rw [UnitRun.fault?, ho] at h
  cases h

theorem UnitRun.ExtendedBy.failsOnce {a c : UnitRun} (h : a.ExtendedBy c)
    (hr : a.unit.stream.Recorded) : a.unit.FailsOnce := by
  have hwarnings : a.unit.stream.allWarnings.countP (·.isFatal) = 0 :=
    List.countP_eq_zero.2 fun m hm => by simp [hr.isFatal_eq_false m hm]
  rw [LoweredUnit.FailsOnce, Stream.diagnostics, List.countP_append, hwarnings, Nat.add_zero]
  refine Nat.le_trans List.countP_le_length ?_
  cases hp : a.unit.isPoisoned with
  | false =>
    have hnone : a.unit.stream.errors = #[] := by
      by_contra hne
      exact Bool.noConfusion (hp.symm.trans (hr.isPoisoned_iff.2 hne))
    simp [hnone]
  | true =>
    obtain ⟨m, hm, -⟩ := h.errors hp
    simp [hm]

namespace Generator

open Lower

/-- No more than one failure is on record in the units of a node, in whichever way it is lowered. -/
structure FailsOnce (g : Generator) (node : Node) : Prop where
  alone : (g.lower node).unit.FailsOnce
  asFn : (g.lowerFnBody node).unit.FailsOnce
  asDecl : ∀ decl, (g.lowerDecl decl node).unit.FailsOnce
  within : ∀ {scopes : ScopeTree} {scope : ScopeId} (name : String), scopes.WellFormed →
    scope.index < scopes.scopes.size → (g.lowerIn node scopes scope name).unit.FailsOnce

variable (g : Generator) (node : Node)

theorem failsOnce_runNode (name : String) (containers : List String) :
    ((g.under .abort).runNode node name containers).unit.FailsOnce :=
  (g.extendedBy_runNode node name containers).failsOnce
    ((g.under .abort).agrees_runNode node name containers).recorded

theorem failsOnce_lowerIn {scopes : ScopeTree} {scope : ScopeId} (name : String)
    (hscopes : scopes.WellFormed) (hs : scope.index < scopes.scopes.size) :
    ((g.under .abort).lowerIn node scopes scope name).unit.FailsOnce := by
  have ha := UnitRun.outcome_ne_fault ((g.under .abort).fault?_lowerIn node name hscopes hs)
  have hc := UnitRun.outcome_ne_fault ((g.under .proceed).fault?_lowerIn node name hscopes hs)
  have hparts := @relParts_nested ⟨g.table, g.options⟩ g.options.maxDepth
  have hrecording := @relParts_recording ⟨g.table, (g.under .abort).options⟩ g.options.maxDepth
  refine UnitRun.ExtendedBy.failsOnce (extendedBy_of_meet name _
    ((Comparison.rel_lowerComptimeBody _ _ hparts _ _).meet ⟨rfl, rfl, rfl⟩) ha hc) ?_
  exact Comparison.rel_lowerComptimeBody _ _ hrecording _ _ (.new _ _)

theorem failsOnce_abort : (g.under .abort).FailsOnce node where
  alone := g.failsOnce_runNode ..
  asFn := (g.extendedBy_runFunction ..).failsOnce ((g.under .abort).recorded_runFunction ..)
  asDecl _ := g.failsOnce_runNode ..
  within name hscopes hs := g.failsOnce_lowerIn node name hscopes hs

end Generator

/-! ### Every unit -/

/-- In every unit the nodes answer for the diagnostics: a node outside of deferred expressions for
one of a kind, and one of a deferred expression for one of a kind each time that this expression was
lowered.  Where lowering stops at the first failure, there is no other. -/
theorem complaints_accounted :
    (∀ {node : Node} {run : UnitRun}, Lowering node run →
      run.unit.Accounted node 0 ∧ run.unit.ReportsOnce node) ∧
    (∀ (g : Generator) (node : Node) (scopes : ScopeTree) (scope : ScopeId) (name : String),
      (g.lowerIn node scopes scope name).fault? = none →
        (g.lowerIn node scopes scope name).unit.Accounted node scopes.deferredBodies ∧
          (g.lowerIn node scopes scope name).unit.ReportsOnce node) ∧
    ∀ (g : Generator) (node : Node), (g.under .abort).FailsOnce node := by
  refine ⟨fun h => ⟨h.accounted, h.accounted.once⟩, fun g node scopes scope name hf => ?_,
    fun g node => g.failsOnce_abort node⟩
  have h := g.accounted_lowerIn scopes scope hf
  exact ⟨h, h.once⟩

/-- A node on a line of its own. -/
def Node.onLine (line : Nat) (kind : Kind) : Node := ⟨0, kind, some ⟨"t", line, 1⟩, none⟩

/-- A function that returns from one place and goes to its end from another, and has deferred a
statement without effect before. -/
def Node.defersIdle : Node :=
  .onLine 1 (.fnDecl "f" [] none (some (.onLine 2 (.block none [
    .onLine 3 (.deferred .normal (.onLine 4 (.block none [.onLine 5 (.intLiteral 1)]))),
    .onLine 6 (.ifThen (.onLine 7 (.boolLiteral true)) none
      (.onLine 8 (.block none [.onLine 9 (.returnFrom none)])) none)]))) false false)

theorem nodup_defersIdle : (Node.defersIdle.nodes.map (·.location)).Nodup := by decide +kernel

theorem complaints_accounted_defersIdle :
    (Generator.bare.lower .defersIdle).unit.Accounted .defersIdle 0 ∧
      (∀ k, (Generator.bare.lower .defersIdle).unit.stream.complaints k
        Node.defersIdle.location ≤ 1) ∧
      (Generator.bare.lowerIn (.bare (.symbol "x")) (Generator.bare.unitScopes ["S"]).2 ⟨1⟩
        "e").unit.Accounted (.bare (.symbol "x")) 0 ∧
      ((Generator.bare.under .abort).lowerIn (.bare (.symbol "x"))
        (Generator.bare.unitScopes ["S"]).2 ⟨1⟩ "e").unit.FailsOnce := by
  have h := complaints_accounted.1 (.alone .bare .defersIdle)
  have hin : (Generator.bare.lowerIn (.bare (.symbol "x")) (Generator.bare.unitScopes ["S"]).2
      ⟨1⟩ "e").fault? = none := by decide +kernel
  have hroot : Node.defersIdle ∈ Node.defersIdle.direct := by
    rw [Node.direct_eq]
    exact List.mem_cons_self
  have hscopes := (Generator.opened_unitScopes .bare ["S"]).scopes
  exact ⟨h.1, h.2 nodup_defersIdle _ hroot, (complaints_accounted.2.1 .bare _ _ _ _ hin).1,
    (complaints_accounted.2.2 .bare _).within "e" hscopes (by decide +kernel)⟩

/-- What is deferred is reported at each exit from its block. -/
theorem not_once_defersIdle :
    ¬ ∀ {node : Node} {run : UnitRun}, Lowering node run →
      (node.nodes.map (·.location)).Nodup →
        ∀ n ∈ node.nodes, ∀ k, run.unit.stream.complaints k n.location ≤ 1 := by
  intro h
  have hmem : Node.onLine 5 (.intLiteral 1) ∈ Node.defersIdle.nodes := by
    simp [Node.defersIdle, Node.onLine, Node.nodes, Kind.nodes, nodesOfOption, nodesOfList]
  have hone := h (.alone .bare .defersIdle) nodup_defersIdle _ hmem .noEffect
  have htwo : (Generator.bare.lower .defersIdle).unit.stream.complaints .noEffect
      (some ⟨"t", 5, 1⟩) = 2 := by decide +kernel
  rw [Node.onLine, htwo] at hone
  omega

end SourceIr
