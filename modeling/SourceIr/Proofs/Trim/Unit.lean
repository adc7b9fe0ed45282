import SourceIr.Proofs.Layout.Unit
import SourceIr.Proofs.Trim.Control

/-!
# Units whose blocks have no rest

In a unit that is not poisoned nothing comes after what ends a block, as long as no operand ends the
code in which its value is used.

* `Node.OrderlyUnit`, the nodes whose units have no such operand;
* `trims_lowerFunction`, `trims_lowerGlobal`, `trims_lowerBody`, the routines of units;
* `Lowering.stream_trim`, the blocks of a unit have no rest;
* `stream_not_trim_addsReturn`, what an operand leaves behind it that ends the code.
-/

namespace SourceIr

/-- No operand ends the code of a unit in which its value is used. -/
def Node.OrderlyUnit (node : Node) : Prop := ∀ part ∈ node.unitParts, part.2.Orderly part.1

namespace Lower

open Logic

variable {env : Env} {s : State} {node : Node} {scope : ScopeId}

/-- The routines at the start of a unit keep blocks without a rest. -/
theorem trims_outermost_bind {α : Type} {f : Parts → LowerM α} {Q : State → α → Prop}
    (h : ∀ parts, TrimParts env parts → Trims env s (f parts) Q) :
    Trims env s (outermost >>= f) Q :=
  trims_read_bind (h _ (trimParts_nested env.options.maxDepth))

theorem trims_lowerFunction {fn : FnParts} {name : String}
    (hparams : ∀ param ∈ fn.params, ∀ part ∈ param.kind.used, part.Orderly true)
    (hresult : ∀ part ∈ fn.returnType.toList, part.Orderly true)
    (hbody : ∀ body ∈ fn.body, body.Orderly false) (hs : s.GoesOn) :
    Trims env s (lowerFunction node fn name scope) fun _ _ => True := by
  refine trims_outermost_bind fun parts hp => ?_
  refine trims_bind trims_openScope fun s₁ fnScope h₁ => ?_
  refine trims_bind (trims_of_holds (holds_lowerParams hp.holds hparams trivial) (h₁.goesOn hs))
    fun s₂ _ c₂ => ?_
  refine trims_bind (trims_of_holds (holds_lowerSignatureType hp.holds hresult trivial)
    c₂.end_goesOn) fun s₃ _ c₃ => ?_
  split
  · exact trims_pure trivial
  next body hb =>
    refine trims_bind (hp.expr (hbody body hb) c₃.end_goesOn) fun s₄ _ _ => ?_
    refine trims_isTerminated_bind ?_
    cases ht : s₄.stream.isTerminated with
    | true => exact trims_pure trivial
    | false => exact trims_bind (trims_endWith ht) fun _ _ _ => trims_pure trivial

theorem trims_lowerBody (hn : node.Orderly false) (hs : s.GoesOn) :
    Trims env s (lowerBody node scope) fun _ _ => True := by
  refine trims_outermost_bind fun parts hp => ?_
  refine trims_bind (hp.expr hn hs) fun s₁ value _ => ?_
  refine trims_isTerminated_bind ?_
  cases ht : s₁.stream.isTerminated with
  | true => exact trims_pure trivial
  | false => exact trims_bind (trims_endWith ht) fun _ _ _ => trims_pure trivial

theorem trims_lowerGlobal {name : String} {type init : Option Node}
    (htype : ∀ part ∈ type, part.Orderly true) (hinit : ∀ part ∈ init, part.Orderly false)
    (hs : s.GoesOn) :
    Trims env s (lowerGlobal node name type init scope) fun _ _ => True := by
  have first : Trims env s (lowerGlobalType type scope) fun s' _ => Code true s s' := by
    cases type with
    | none => exact trims_pure (.refl fun _ => hs)
    | some type =>
      exact trims_outermost_bind fun parts hp =>
        trims_bind (hp.expr (htype type rfl) hs) fun s₁ _ c₁ => trims_pure c₁
  refine trims_bind first fun s₁ _ c₁ => ?_
  cases init with
  | none => exact trims_of_fails fun _ _ => not_returns_fail
  | some init =>
    refine trims_bind (trims_of_holds (holds_setNameHint (L := trim env)) c₁.end_goesOn)
      fun s₂ _ c₂ => ?_
    exact trims_lowerBody (hinit init rfl) c₂.end_goesOn

end Lower

open Lower

variable {node : Node} {run : UnitRun}

/-- Nothing comes after what ends a block, in any stream of a unit that is not poisoned, as long as
no operand ends the code in which its value is used. -/
theorem Lowering.stream_trim (h : Lowering node run) (ho : node.OrderlyUnit)
    (hp : run.unit.isPoisoned = false) {t : Stream} (ht : t.PartOf run.unit.stream) : t.Trim := by
  obtain ⟨env, s, s', x, hstart, hx, hr, hs', -⟩ := h.exists_returns hp
  obtain ⟨name, isInline, hstream⟩ := hstart.stream
  have hgo : s.GoesOn := by
    rw [State.GoesOn, hstream]
    rfl
  have htrimmed : Trimmed s := by
    refine ⟨⟨?_, hstart.scopes⟩, ?_, ?_, ?_⟩
    · rw [hstream]
      exact Stream.coherent_new name isInline
    · rw [hstream]
      exact Stream.trim_of_insts_eq rfl
    · rw [hstream]
      exact fun c hc => absurd hc List.not_mem_nil
    · rw [hstart.deferred]
      exact fun d hd => absurd hd List.not_mem_nil
  have htrims : Trims env s x fun _ _ => True := by
    cases hx with
    | @function fn _ hfn =>
      rw [Node.OrderlyUnit, Node.unitParts_of_ofNode? hfn] at ho
      refine trims_lowerFunction (fun param hparam part hpart => ?_) (fun part hpart => ?_)
        (fun body hbody => ?_) hgo
      · exact ho (true, part) (by simp; exact .inl ⟨param, hparam, hpart⟩)
      · exact ho (true, part) (by simp_all)
      · exact ho (false, body) (by simp_all)
    | global hparts =>
      rw [Node.OrderlyUnit, hparts] at ho
      refine trims_lowerGlobal (fun part hpart => ?_) (fun part hpart => ?_) hgo
      · exact ho (true, part) (by simp_all)
      · exact ho (false, part) (by simp_all)
    | body hparts =>
      rw [Node.OrderlyUnit, hparts] at ho
      exact trims_lowerBody (ho (false, _) (by simp)) hgo
  exact (htrims htrimmed ⟨⟩ s' hr).1.partOf (hs' ▸ ht)

/-- A loop that is left where a test holds: the jump is a statement, so that nothing uses its
value. -/
theorem orderlyUnit_leavesLoop : Node.leavesLoop.OrderlyUnit := by
  have hlit : ∀ on, (Node.bare (.boolLiteral true)).Orderly on := fun on =>
    .plain rfl (by simp [Node.bare, Kind.deferred?]) (by simp [Node.bare, Kind.used])
  have htest : (Node.bare (.comptime (.bare (.boolLiteral true)))).Orderly true :=
    .comptime rfl (hlit true)
  have hjump : (Node.bare (.breakTo none none)).Orderly false := .breakTo rfl (by simp)
  have hloop : (Node.bare (.whileLoop none (.bare (.boolLiteral true)) none none
      (.bare (.ifThen (.bare (.comptime (.bare (.boolLiteral true)))) none
        (.bare (.breakTo none none)) none)) none false)).Orderly false :=
    .whileLoop rfl (hlit true) (by simp) (.ifThen rfl htest hjump (by simp) fun _ => .inr rfl)
      (by simp)
  simpa [Node.OrderlyUnit, Node.unitParts, Node.leavesLoop, Node.bare, FnParts.ofNode?] using hloop

theorem stream_trim_leavesLoop : (Generator.bare.lower .leavesLoop).unit.stream.Trim :=
  Lowering.stream_trim (.alone .bare .leavesLoop) orderlyUnit_leavesLoop (by decide +kernel)
    (.self _)

/-- A function that adds to a number what is never there, since it returns. -/
def Node.addsReturn : Node :=
  .bare (.fnDecl "f" [] none (some (.bare (.block none [.bare (.assign (.bare (.symbol "_"))
    (.bare (.binaryOp .add (.bare (.intLiteral 1)) (.bare (.returnFrom none)))))]))) false false)

/-- The sum is still added up after the return, in the block that the return ends. -/
theorem stream_not_trim_addsReturn :
    (Generator.bare.lower .addsReturn).unit.isPoisoned = false ∧
      ¬ (Generator.bare.lower .addsReturn).unit.stream.Trim := by
  have hlate : ¬ ∀ x ∈ ((Generator.bare.lower .addsReturn).unit.stream.instsIn ⟨0⟩).dropLast,
      x.kind.isNoreturn = false := by
    decide +kernel
  exact ⟨by decide +kernel, fun htrim => hlate fun _ hx => htrim.isNoreturn_eq_false hx⟩

end SourceIr
