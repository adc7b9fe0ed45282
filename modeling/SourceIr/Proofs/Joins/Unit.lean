import SourceIr.Proofs.Joins.Control
import SourceIr.Proofs.Layout.Unit

/-!
# Joins of units

At the end of a unit that is not poisoned, every join of its stream has been started with what
arrives there, and so has every join in the streams of the compile-time blocks inside.

* `joins_lowerFunction`, `joins_lowerGlobal`, `joins_lowerBody`, the routines of units;
* `Lowering.stream_joinsMatch`, the values at the start of a join are those of its branches.
-/

namespace SourceIr

namespace Lower

open Logic Join

variable {env : Env} {s : State} {node : Node} {scope : ScopeId}

/-- The routines at the start of a unit start the joins that they make. -/
theorem joins_outermost_bind {α : Type} {f : Parts → LowerM α} {Q : State → α → Prop}
    (h : ∀ parts, JoinParts env parts → Joins env s (f parts) Q) :
    Joins env s (outermost >>= f) Q :=
  joins_read_bind (h _ (joinParts_nested env.options.maxDepth))

theorem joins_lowerFunction {fn : FnParts} {name : String} (hs : In s scope) :
    Joins env s (lowerFunction node fn name scope) fun s' _ => Le s s' := by
  refine joins_outermost_bind fun parts hp => ?_
  refine joins_bind (joins_openScope hs rfl) fun s₁ fnScope ⟨le₁, hfn, _⟩ => ?_
  refine joins_bind (joins_of_keeps (holds_lowerParams hp.holds (fun _ _ _ _ => trivial) hfn))
    fun s₂ _ le₂ => ?_
  refine joins_bind (joins_of_keeps (holds_lowerSignatureType hp.holds (fun _ _ => trivial)
    (hfn.since le₂))) fun s₃ _ le₃ => ?_
  have le : Le s s₃ := (le₁.le le₂).le le₃
  split
  · exact joins_pure le
  · refine joins_bind (hp.expr (hfn.since (le₂.le le₃))) fun s₄ _ le₄ => ?_
    refine joins_isTerminated_bind fun terminated => ?_
    split
    · exact joins_bind joins_ret fun s₅ _ le₅ => joins_pure ((le.le le₄).le le₅)
    · exact joins_pure (le.le le₄)

theorem joins_lowerBody (hs : In s scope) :
    Joins env s (lowerBody node scope) fun s' _ => Le s s' := by
  refine joins_outermost_bind fun parts hp => ?_
  refine joins_bind (hp.expr hs) fun s₁ value le₁ => ?_
  refine joins_isTerminated_bind fun terminated => ?_
  split
  · exact joins_bind joins_ret fun s₂ _ le₂ => joins_pure (le₁.le le₂)
  · exact joins_pure le₁

theorem joins_lowerGlobal {name : String} {type init : Option Node} (hs : In s scope) :
    Joins env s (lowerGlobal node name type init scope) fun s' _ => Le s s' := by
  have htype : Joins env s (lowerGlobalType type scope) fun s' _ => Le s s' := by
    cases type with
    | none => exact joins_pure (.refl s)
    | some type =>
      exact joins_outermost_bind fun parts hp =>
        joins_bind (hp.expr hs) fun s₁ _ le₁ => joins_pure le₁
  refine joins_bind htype fun s₁ _ le₁ => ?_
  split
  · exact joins_fail
  · refine joins_bind (joins_of_keeps (holds_setNameHint (L := joining env))) fun s₂ _ le₂ => ?_
    have le := le₁.le le₂
    exact joins_mono (joins_lowerBody (hs.since le)) fun s' _ le' => le.le le'

end Lower

open Lower SourceIr.Stream

variable {node : Node} {run : UnitRun}

/-- Where control comes together in a stream of a unit that is not poisoned, the values at the start
of the block are those of the branches that lead there, one for each, and nothing comes before them;
a join that no branch leads to starts with what is never reached. -/
theorem Lowering.stream_joinsMatch (h : Lowering node run) (hp : run.unit.isPoisoned = false)
    {t : Stream} (ht : t.PartOf run.unit.stream) : t.JoinsMatch := by
  obtain ⟨env, s, s', x, hstart, hx, hr, hs', -⟩ := h.exists_returns hp
  obtain ⟨name, isInline, hstream⟩ := hstart.stream
  have hj : Joined s := joined_start hstream hstart.sinks hstart.scopes hstart.root
  have hin := Join.in_root hj.scopes hj.root_lt
  have hjoins : Joins env s x fun s' _ => Join.Le s s' := by
    cases hx with
    | function => exact joins_lowerFunction hin
    | global => exact joins_lowerGlobal hin
    | body => exact joins_lowerBody hin
  obtain ⟨hj', le⟩ := hjoins hj ⟨⟩ s' hr
  exact hj'.joinsMatch (fun b hb => le.started_of_new hstream hb) (hs' ▸ ht)

/-- A loop that is left by a `break`, whose end is reached in two ways. -/
theorem stream_joinsMatch_leavesLoop :
    (Generator.bare.lower .leavesLoop).unit.isPoisoned = false ∧
      (Generator.bare.lower .leavesLoop).unit.stream.JoinsMatch :=
  have hp : (Generator.bare.lower .leavesLoop).unit.isPoisoned = false := by decide +kernel
  ⟨hp, Lowering.stream_joinsMatch (.alone .bare .leavesLoop) hp (.self _)⟩

end SourceIr
