import SourceIr.Proofs.Course.Nested
import SourceIr.Proofs.Safety.Unit

/-!
# Courses of units

A unit is lowered over a fresh stream, as a function or as an expression that is evaluated at
compile time as a whole.  Its lowering keeps to a course from its start to its end.

* `tracks_lowerParams`, the parameters of a function;
* `tracks_lowerAsFunction` and `tracks_lowerAsTopLevel`, the two kinds of units;
* `Lowering.exists_course`, the course of a unit.
-/

namespace SourceIr

namespace Lower

variable {env : Env} {l : Nat} {t : Task} {c p scope : ScopeId} {ins : List ScopeId} {parts : Parts}
  {node : Node} (hp : TracksParts env l parts)

include hp in
theorem tracks_lowerSignatureType {type : Option Node} (he : ∀ e ∈ type, e ∈ t.comptimeParts)
    (hin : p ∈ ins) : Tracks env (l + 1) t c ins (lowerSignatureType parts type p) :=
  steers_then (tracks_comptimeValue? hp he hin) fun _ => tracks_pure

theorem tracks_declareParam {param : Node} {name : Option String} {isComptime : Bool} {index : Nat}
    (hb : ∀ n ∈ name, n ≠ "_" → t.Binds n param.location) :
    Tracks env (l + 1) t c ins (declareParam param name isComptime index p) := by
  unfold declareParam
  split
  · exact tracks_pure
  · exact tracks_pure
  next name hname =>
    have hb := hb name rfl fun h => hname (h ▸ rfl)
    exact steers_mild (mild_emitGen ..) fun _ =>
      steers_then (tracks_declare (requests_named hb rfl rfl)) fun _ =>
        steers_mild (mild_emitGen ..) fun _ => tracks_pure

include hp in
theorem tracks_lowerParams {params : List Node}
    (htype : ∀ param ∈ params, param.kind.paramType ⊆ t.comptimeParts)
    (hb : ∀ param ∈ params, ∀ name typeExpr isComptime,
      param.kind = .param (some name) typeExpr isComptime → name ≠ "_" →
        t.Binds name param.location) (hin : p ∈ ins) (index : Nat) :
    Tracks env (l + 1) t c ins (lowerParams parts p index params) := by
  induction params generalizing index with
  | nil => exact tracks_pure
  | cons param rest ih =>
    obtain ⟨hparam, hrest⟩ := List.forall_mem_cons.1 htype
    obtain ⟨hbparam, hbrest⟩ := List.forall_mem_cons.1 hb
    have ih := ih hrest hbrest (index + 1)
    rw [lowerParams]
    split
    next name typeExpr isComptime hk =>
      have he : ∀ e ∈ typeExpr, e ∈ t.comptimeParts := fun e he =>
        hparam (by rw [hk]; exact Option.mem_toList.2 he)
      refine steers_then (tracks_lowerSignatureType hp he hin) fun _ => ?_
      refine steers_then (tracks_declareParam fun n hn hne => ?_) fun _ => ih
      exact hbparam n typeExpr isComptime (by rw [hk, hn]) hne
    · exact ih

include hp in
/-- Every unit that is lowered as a function. -/
theorem tracks_lowerAsFunction (node : Node) (name : String) (scope : ScopeId) :
    Tracks env (l + 1) (.unit node) scope [scope] (lowerAsFunction parts node name scope) := by
  rw [lowerAsFunction]
  split
  next fn hfn =>
    have htype : ∀ param ∈ fn.params, param.kind.paramType ⊆ (Task.unit node).comptimeParts := by
      intro param hparam e he
      rw [FnParts.ofNode?] at hfn
      split at hfn <;> cases hfn
      next hk => exact by simpa [Task.comptimeParts, hk] using .inl ⟨param, hparam, he⟩
      next => cases hparam
    have hreturn : ∀ e ∈ fn.returnType, e ∈ (Task.unit node).comptimeParts := by
      intro e he
      rw [FnParts.ofNode?] at hfn
      split at hfn <;> cases hfn
      next hk => exact by simpa [Task.comptimeParts, hk] using .inr he
      next => cases he
    have hbody : ∀ e ∈ fn.body, .expr e ∈ (Task.unit node).parts := by
      intro e he
      rw [FnParts.ofNode?] at hfn
      split at hfn <;> cases hfn
      next hk => exact by simpa [Task.parts, hk] using .inr he
      next hk => exact by simp [Task.parts, hk, Option.some.inj he]
    have hb : ∀ param ∈ fn.params, ∀ name typeExpr isComptime,
        param.kind = .param (some name) typeExpr isComptime → name ≠ "_" →
          (Task.unit node).Binds name param.location := by
      intro param hparam name typeExpr isComptime hname hne
      rw [FnParts.ofNode?] at hfn
      split at hfn <;> cases hfn
      next hk => exact .param hk hparam hname hne
      next => cases hparam
    refine steers_openScope_bind (.head _) (by simp) fun fnScope => ?_
    refine steers_then (tracks_lowerParams hp htype hb (.head _) 0) fun _ => ?_
    refine steers_then (tracks_lowerSignatureType hp hreturn (.head _)) fun _ => ?_
    split
    · exact tracks_pure
    next body hsome =>
      refine steers_then (tracks_expr hp _ (hbody body hsome) (.head _)) fun _ => ?_
      exact tracks_mild (mild_returnUnlessTerminated _ _ _ true (mild_pure _))
  · exact tracks_failAt List.mem_cons_self rfl (by decide) (by decide)

include hp in
/-- An expression whose value a unit returns. -/
theorem tracks_unitValue {e place : Node} (ht : .expr e ∈ t.parts) (hin : p ∈ ins) :
    Tracks env (l + 1) t c ins (lowerComptimeBody parts place e p) :=
  steers_then (tracks_value hp ht hin) fun _ =>
    tracks_mild (mild_returnUnlessTerminated _ _ _ true (mild_pure _))

include hp in
/-- The initializer of a variable at the top of a file. -/
theorem tracks_globalInit {node : Node} (name : String) {init : Option Node}
    (hinit : ∀ e ∈ init, .expr e ∈ (Task.unit node).parts) :
    Tracks env (l + 1) (.unit node) scope [scope] (do
      match init with
      | none =>
        failAt .invalidConstruct s!"variables must be initialized: '{name}'" "generate" node
      | some init =>
        setNameHint init name
        lowerComptimeBody parts init init scope) := by
  cases init with
  | none => exact tracks_failAt List.mem_cons_self rfl (by decide) (by decide)
  | some init =>
    exact steers_mild (mild_setNameHint ..) fun _ =>
      tracks_unitValue hp (hinit init rfl) (.head _)

include hp in
/-- Every unit that is evaluated at compile time as a whole. -/
theorem tracks_lowerAsTopLevel (node : Node) (name : String) (scope : ScopeId) :
    Tracks env (l + 1) (.unit node) scope [scope] (lowerAsTopLevel parts node name scope) := by
  rw [lowerAsTopLevel]
  split
  next typeExpr init hk =>
    have htype : ∀ e ∈ typeExpr, .expr e ∈ (Task.unit node).parts := by
      simp +contextual [Task.parts, hk]
    have hinit : ∀ e ∈ init, .expr e ∈ (Task.unit node).parts := by
      simp +contextual [Task.parts, hk]
    cases typeExpr with
    | none => exact tracks_globalInit hp name hinit
    | some type =>
      exact steers_then (tracks_value hp (htype type rfl) (.head _)) fun _ =>
        tracks_globalInit hp name hinit
  next e hk => exact tracks_unitValue hp (by simp [Task.parts, hk]) (.head _)
  · exact tracks_unitValue hp (by simp [Task.parts]) (.head _)

end Lower

open Lower

/-! ### Units -/

/-- What is left behind by a routine that keeps to a course and breaks no rule. -/
theorem Generator.course_run {g : Generator} {node : Node} {name : String} {kind : UnitKind}
    {s : State} {x : LowerM PUnit} {c : ScopeId}
    (hx : Tracks ⟨g.table, g.options⟩ (g.options.maxDepth + 1) (.unit node) c [c] x)
    (hf : (UnitRun.ofEnd name kind (outcome x ⟨g.table, g.options⟩ s)).fault? = none) :
    ∃ ok, Course ⟨g.table, g.options⟩ ok (g.options.maxDepth + 1) (.unit node) c s
      (outcome x ⟨g.table, g.options⟩ s).2 := by
  have ho := hx.ends s fun q hq => List.mem_singleton.1 hq ▸ .refl _ _
  rcases h : outcome x ⟨g.table, g.options⟩ s with ⟨(_ | _) | _, v⟩ <;> rw [h] at ho hf
  · exact ⟨_, ho⟩
  · cases hf
  · exact ⟨_, ho.1⟩

/-- A unit keeps to a course, from scopes without variables on. -/
theorem Lowering.exists_course {node : Node} {run : UnitRun} (h : Lowering node run) :
    ∃ env s v ok, Starting s ∧ v.stream = run.unit.stream ∧ v.scopes = run.unit.scopes ∧
      Course env ok (env.options.maxDepth + 1) (.unit node) s.streamRoot s v := by
  have hf := h.fault?_eq_none
  obtain ⟨g, name, kind, containers, rfl | ⟨rfl, -⟩⟩ := h.cases
  · have ho := g.opened_unitScopes containers
    obtain ⟨y, hy, hk⟩ := ho.kind
    rw [Generator.runFunction_eq] at hf ⊢
    obtain ⟨ok, hc⟩ := Generator.course_run
      (tracks_lowerAsFunction (tracksParts_nested ⟨g.table, g.options⟩ _) node name _) hf
    refine ⟨⟨g.table, g.options⟩, g.start (Stream.new name false) (g.unitScopes containers).2
      (g.unitScopes containers).1, _, ok, ?_, ?_, ?_, hc⟩
    · exact ⟨⟨_, _, rfl⟩, rfl, rfl, ho.scopes, g.bare_unitScopes containers, y, hy,
        exits_of_endsJumps hk⟩
    all_goals rfl
  · have ho := g.opened_unitScopes containers
    let scopes := (g.unitScopes containers).2.openUnder (g.unitScopes containers).1 .comptime
    rw [Generator.runTopLevel_eq] at hf ⊢
    obtain ⟨ok, hc⟩ := Generator.course_run
      (tracks_lowerAsTopLevel (tracksParts_nested ⟨g.table, g.options⟩ _) node name _) hf
    refine ⟨⟨g.table, g.options⟩, g.start (Stream.new name true) scopes.2 scopes.1, _, ok, ?_, ?_,
      ?_, hc⟩
    · exact ⟨⟨_, _, rfl⟩, rfl, rfl, ho.scopes.openUnder ho.index,
        (g.bare_unitScopes containers).openUnder, _, ScopeTree.scope?_openUnder _ _, rfl⟩
    all_goals rfl

end SourceIr
