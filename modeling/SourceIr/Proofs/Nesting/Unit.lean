import SourceIr.Proofs.Lowering
import SourceIr.Proofs.Nesting.Control

/-!
# No node is entered again

The exits of a unit lower deferred expressions wherever they stand, and those may have exits of
their own.  Still no node is entered while it is being lowered, so the nesting of a lowering is
bounded by the nodes of the unit.

* `Generator.Contained`, a unit that does not change under watch, and has no diagnostic on nesting;
* `Generator.contained_lower`, every unit whose options allow two levels for each node.
-/

namespace SourceIr

namespace Lower

variable {env : Env} {s : State} {nodes p : List Nat} {parts : Parts} {node : Node}
  {scope : ScopeId} (name : String)

/-! ### The routines of a unit -/

theorem pendingOn_nil (links : List (ScopeId × ScopeKind)) : pendingOn [] links = [] := by
  induction links with
  | nil => rfl
  | cons x outer ih =>
    obtain ⟨scope, kind⟩ := x
    cases kind <;> simp [pendingOn, ih, idsOfOption]

/-- A unit has room for its nodes, since none of them is being lowered at its start. -/
theorem room_start (node : Node) : Room node.ids [] [] (node.kind.ids ++ []) :=
  ⟨fun i => by simpa using count_kind_ids_le node i, fun i => by
    simpa using count_kind_ids_le node i⟩

variable (hp : RoomyParts env nodes [] [] parts)

include hp in
theorem calm_lowerFunctionBy {fn : FnParts}
    (hparams : ∀ param ∈ fn.params, ∀ part ∈ param.kind.used, Roomy nodes [] [] p part)
    (hreturn : ∀ type ∈ fn.returnType.toList, Roomy nodes [] [] p type)
    (hbody : ∀ body ∈ fn.body, Roomy nodes [] [] p body) (hs : Within p s scope) :
    Calm env s (lowerFunctionBy parts node fn name scope) fun _ _ => True := by
  have hp' := @RoomyParts.holdsParts env nodes [] [] p _ hp
  refine calm_bind (calm_openBlock hs) fun t fnScope _ hw => ?_
  refine calm_bind (Logic.holds_lowerParams hp' hparams hw.toWithin) fun u _ r _ => ?_
  have hw := hw.after r
  refine calm_bind (Logic.holds_lowerSignatureType hp' hreturn hw.toWithin) fun v _ r _ => ?_
  split
  · exact calm_pure trivial
  next body hb =>
    exact calm_part hp (hbody body hb) hw.toWithin r fun _ _ _ => calm_same <|
      Outline.same_returnUnlessTerminated _ _ ((calms env).rel_pure _) rfl

include hp in
theorem calm_lowerBodyBy {expr : Node} (h : Roomy nodes [] [] p expr) (hs : Within p s scope) :
    Calm env s (lowerComptimeBody parts node expr scope) fun _ _ => True :=
  calm_part hp h hs (.refl s) fun _ _ _ => calm_same <|
    Outline.same_returnUnlessTerminated _ _ ((calms env).rel_pure _) rfl

include hp in
theorem calm_globalInit {init : Option Node} (hinit : ∀ node ∈ init, Roomy nodes [] [] p node)
    (hs : Within p s scope) :
    Calm env s (do
      match init with
      | none =>
        failAt .invalidConstruct s!"variables must be initialized: '{name}'" "generate" node
      | some init =>
        setNameHint init name
        lowerComptimeBody parts init init scope) fun _ _ => True := by
  cases init with
  | none => exact calm_fail
  | some init =>
    exact calm_then ((calms env).rel_step (innerStep_setNameHint _ _)) (.refl s) fun u _ r =>
      calm_lowerBodyBy hp (hinit init rfl) (hs.mono r)

include hp in
theorem calm_lowerGlobalBy {type init : Option Node}
    (htype : ∀ node ∈ type, Roomy nodes [] [] p node)
    (hinit : ∀ node ∈ init, Roomy nodes [] [] p node) (hs : Within p s scope) :
    Calm env s (lowerGlobalBy parts node name type init scope) fun _ _ => True := by
  cases type with
  | none => exact calm_globalInit name hp hinit hs
  | some type => exact calm_part hp (htype type rfl) hs (.refl s) fun t _ r =>
      calm_globalInit name hp hinit (hs.mono r)

/-- A unit that is lowered as a function raises no alarm. -/
theorem calm_lowerAsFunction (hp : RoomyParts env node.ids [] [] parts) (hs : Within [] s scope) :
    Calm env s (lowerAsFunction parts node name scope) fun _ _ => True := by
  have hroom := room_start node
  rw [lowerAsFunction]
  split
  next fn hfn =>
    rw [FnParts.ofNode?] at hfn
    split at hfn
    next hk =>
      obtain rfl := Option.some.inj hfn
      rw [hk, Kind.ids] at hroom
      refine calm_lowerFunctionBy name hp (fun param hparam part hpart => hroom.part fun i => ?_)
        (fun type htype => hroom.part fun i => ?_) (hroom.part? fun i => ?_) hs
      · have := Nat.le_trans (Kind.count_used_le hpart i) (count_kind_ids_le param i)
        have := Nat.le_trans this (count_ids_le_of_mem hparam i)
        dsimp only at this
        simp only [List.count_append]
        omega
      · have := count_ids_le_of_mem_option htype i
        dsimp only at this
        simp only [List.count_append]
        omega
      · simp only [List.count_append]
        omega
    next hk =>
      obtain rfl := Option.some.inj hfn
      rw [hk, Kind.ids] at hroom
      exact calm_lowerFunctionBy name hp (by simp) (by simp)
        (hroom.part? fun _ => Nat.le_refl _) hs
    next => cases hfn
  next => exact calm_fail

/-- A unit that is evaluated at compile time as a whole raises no alarm. -/
theorem calm_lowerAsTopLevel (hp : RoomyParts env node.ids [] [] parts) (hs : Within [] s scope) :
    Calm env s (lowerAsTopLevel parts node name scope) fun _ _ => True := by
  have hroom := room_start node
  rw [lowerAsTopLevel]
  split
  next hk =>
    rw [hk, Kind.ids] at hroom
    refine calm_lowerGlobalBy name hp (hroom.part? fun i => ?_) (hroom.part? fun i => ?_) hs <;>
      · simp only [List.count_append]
        omega
  next hk =>
    rw [hk, Kind.ids] at hroom
    exact calm_lowerBodyBy hp (hroom.part fun _ => Nat.le_refl _) hs
  next =>
    have hself : Roomy node.ids [] [] [] node :=
      ⟨fun i => by simpa using count_kind_ids_le node i, fun i => by simp⟩
    exact calm_lowerBodyBy hp hself hs

/-! ### Under watch -/

/-- A run is the same under every watch, and issues no diagnostic on nesting. -/
structure Watchable (nodes : List Nat) (x : Parts → LowerM PUnit) (env : Env) (s : State) :
    Prop where
  same : ∀ alarm : (∀ {α : Type}, LowerM α),
    outcome (x (watched alarm nodes env.options.maxDepth [] [])) env s =
      outcome (x (nested env.options.maxDepth)) env s
  shallow : Shallow (outcome (x (nested env.options.maxDepth)) env s).2

/-- A routine that raises no alarm does what it does under no watch. -/
theorem watchable_of_calm {x : Parts → LowerM PUnit}
    (hrel : ∀ {C : Comparison} {parts parts' : Parts}, C.RelParts parts parts' →
      C.Rel (x parts) (x parts'))
    (hx : Calm env s (x (watched raise nodes env.options.maxDepth [] [])) fun _ _ => True)
    (ht : Tidy s) (hs : Shallow s) : Watchable nodes x env s := by
  have quiet : ∀ t, outcome (x (watched raise nodes env.options.maxDepth [] [])) env s ≠
      (.error (.fault alarmFault), t) := by
    intro t h
    have := hx ht
    rw [h] at this
    exact this rfl
  have hplain := ((hrel (relParts_nested_of_watched nodes _ [] [])) s).resolve_left
    fun ⟨t, h⟩ => quiet t h
  refine ⟨fun alarm => ?_, ?_⟩
  · rw [← hplain]
    exact (((hrel (relParts_watched alarm nodes _ [] [])) s).resolve_left
      fun ⟨t, h⟩ => quiet t h).symm
  · rw [← hplain]
    exact hrel (relParts_shallow nodes _ [] []) s hs

end Lower

namespace Generator

open Lower

variable (g : Generator) (node : Node) (name : String) (kind : UnitKind) (containers : List String)

/-- A unit is the same under every watch on its nodes, and has no diagnostic on nesting.  `runBy` is
the unit with any routines for parts. -/
structure Contained (run : UnitRun) (runBy : Parts → UnitRun) : Prop where
  same : ∀ alarm : (∀ {α : Type}, LowerM α),
    runBy (watched alarm node.ids g.options.maxDepth [] []) = run
  shallow : ∀ m ∈ run.unit.stream.diagnostics, m.kind ≠ .recursionLimitExceeded

theorem within_start (stream : Stream) (t : ScopeTree) (scope : ScopeId) (ht : t.WellFormed)
    (hs : scope.index < t.scopes.size) : Tidy (g.start stream t scope) ∧
      Within [] (g.start stream t scope) scope :=
  ⟨⟨ht, fun _ _ => rfl⟩, .of_wellFormed ht hs fun i => by simp [start, pendingOn_nil]⟩

variable {node} (h : 2 * node.ids.length ≤ g.options.maxDepth)

include h in
theorem contained_runFunction : g.Contained node (g.runFunction node name kind containers)
    (g.runFunctionBy · node name kind containers) := by
  have ho := g.opened_unitScopes containers
  obtain ⟨ht, hw⟩ := g.within_start (.new name false) _ _ ho.scopes ho.index
  have hp : RoomyParts ⟨g.table, g.options⟩ node.ids [] [] (watched raise node.ids _ [] []) :=
    roomyParts_watched (by simpa using h)
  have hx := watchable_of_calm (fun h => Comparison.rel_lowerAsFunction h)
    (calm_lowerAsFunction name hp hw) ht nofun
  rw [runFunction_eq]
  exact ⟨fun alarm => g.run_congr _ _ (hx.same alarm), hx.shallow⟩

include h in
theorem contained_runTopLevel : g.Contained node (g.runTopLevel node name kind containers)
    (g.runTopLevelBy · node name kind containers) := by
  have ho := g.opened_unitScopes containers
  obtain ⟨ht, hw⟩ := g.within_start (.new name true)
    ((g.unitScopes containers).2.openUnder (g.unitScopes containers).1 .comptime).2
    ⟨(g.unitScopes containers).2.scopes.size⟩ (ho.scopes.openUnder ho.index) (by simp)
  have hp : RoomyParts ⟨g.table, g.options⟩ node.ids [] [] (watched raise node.ids _ [] []) :=
    roomyParts_watched (by simpa using h)
  have hx := watchable_of_calm (fun h => Comparison.rel_lowerAsTopLevel h)
    (calm_lowerAsTopLevel name hp hw) ht nofun
  rw [runTopLevel_eq]
  exact ⟨fun alarm => g.run_congr _ _ (hx.same alarm), hx.shallow⟩

include h in
theorem contained_runNode :
    g.Contained node (g.runNode node name containers) (g.runNodeBy · node name containers) := by
  unfold runNode runNodeBy
  cases UnitKind.ofNode node
  case function | test => exact g.contained_runFunction _ _ _ h
  case topLevel | comptime => exact g.contained_runTopLevel _ _ _ h

/-- A unit whose options allow two levels of nesting for each of its nodes, one as a statement and
one as an expression, needs no more, in whichever way it is lowered. -/
theorem contained_lower (g : Generator) (node : Node)
    (h : 2 * node.ids.length ≤ g.options.maxDepth) :
    g.Contained node (g.lower node) (g.runNodeBy · node (unitName node) []) ∧
      g.Contained node (g.lowerFnBody node)
        (g.runFunctionBy · node (node.declName?.getD "anonymous") .function []) ∧
      ∀ decl, g.Contained node (g.lowerDecl decl node)
        (g.runNodeBy · node decl.name (g.table.containersOf decl.id)) :=
  ⟨g.contained_runNode _ _ h, g.contained_runFunction _ _ _ h,
    fun _ => g.contained_runNode _ _ h⟩

end Generator

/-- A function that leaves a loop past a deferred loop, which is left past another deferred
expression. -/
def Node.leavesDeferring : Node :=
  let loop (id : Nat) (expr : Node) : Node :=
    ⟨id, .whileLoop none ⟨id + 1, .boolLiteral true, none, none⟩ none none ⟨id + 2, .block none
      [⟨id + 3, .deferred .normal expr, none, none⟩, ⟨id + 4, .breakTo none none, none, none⟩],
      none, none⟩ none false, none, none⟩
  ⟨0, .fnDecl "f" [] none (some (loop 1 (loop 6 ⟨11, .intLiteral 1, none, none⟩))) false false,
    none, none⟩

theorem contained_lower_leavesDeferring :
    Node.leavesDeferring.ids.Nodup ∧
      Generator.bare.Contained .leavesDeferring (Generator.bare.lower .leavesDeferring)
        (Generator.bare.runNodeBy · .leavesDeferring "f" []) :=
  ⟨by decide, (Generator.bare.contained_lower .leavesDeferring (by decide)).1⟩

end SourceIr
