import SourceIr.Proofs.Layout.Control
import SourceIr.Proofs.Safety.Unit

/-!
# Layout of units

The streams of a unit that is not poisoned are laid out along a tree, and so are those of the
compile-time blocks inside.

* `lays_lowerFunction`, `lays_lowerGlobal`, the two kinds of units;
* `Lowering.exists_site`, the site at the end of a unit;
* `Lowering.stream_closed`, no branch leads out of a stream and every block ends;
* `Lowering.stream_isSSA`, every operand is computed on every way to its use;
* `Lowering.stream_bindsAll`, every variable is declared once, on every way to its uses.
-/

namespace SourceIr

namespace Lower

open Logic Site

variable {env : Env} {w : Site} {node : Node} {scope : ScopeId}

/-- The routines at the start of a unit leave no block behind. -/
theorem lays_outermost_bind {α : Type} {f : Parts → LowerM α} {Q : Site → α → Prop}
    (h : ∀ parts, LayParts env parts → Lays env w (f parts) Q) :
    Lays env w (outermost >>= f) Q :=
  lays_read_bind (h _ (layParts_nested env.options.maxDepth))

/-- A function that has a body leaves its last block with an end. -/
theorem lays_lowerFunction {fn : FnParts} {name : String} (hs : w.In w.current scope) :
    Lays env w (lowerFunction node fn name scope) fun w' _ =>
      w.Le w' ∧ (fn.body.isSome → w'.state.stream.Ends w'.current) := by
  refine lays_outermost_bind fun parts hp => ?_
  refine lays_bind (lays_inner hs rfl) fun w₁ fnScope _ ⟨le₁, hfn, _, ho⟩ => ?_
  -- The parameters are declared in the scope of the function.
  refine lays_bind (holds_lowerParams (hp.holds fnScope.index) (fun _ _ _ _ => trivial)
    ⟨hfn, Nat.le_refl _⟩ (Nat.le_of_lt hfn.index)) fun w₂ _ _ ⟨le₂, _⟩ => ?_
  have hfn := hfn.along le₂
  refine lays_bind (lays_of_holds (holds_lowerSignatureType (hp.holds _) (fun _ _ => trivial) hfn))
    fun w₃ _ _ ⟨le₃, _⟩ => ?_
  have le : w.Le w₃ := (le₁.trans_from le₂ (Nat.le_of_eq ho.index.symm)).trans le₃
  split
  next h => exact lays_pure ⟨le, by simp [h]⟩
  next body _ =>
    refine lays_bind (hp.expr (hfn.to le₃.toBelow) nofun) fun w₄ _ _ ⟨le₄, _⟩ => ?_
    refine lays_of_good fun hw => lays_isTerminated_bind ?_
    split
    · refine lays_bind (lays_ret nofun) fun w₅ _ _ ⟨le₅, _, ends⟩ => ?_
      exact lays_pure ⟨(le.trans le₄).trans le₅, fun _ => ends⟩
    next h => exact lays_pure ⟨le.trans le₄, fun _ => hw.ends (by simpa using h)⟩

theorem lays_lowerBody (hs : w.In w.current scope) :
    Lays env w (lowerBody node scope) fun w' _ =>
      w.Le w' ∧ w'.state.stream.Ends w'.current := by
  refine lays_outermost_bind fun parts hp => ?_
  refine lays_bind (hp.value hs) fun w₁ value _ ⟨le₁, hv⟩ => ?_
  refine lays_of_good fun hw => lays_isTerminated_bind ?_
  split
  · refine lays_bind (lays_ret ?_) fun w₂ _ _ ⟨le₂, _, ends⟩ => lays_pure ⟨le₁.trans le₂, ends⟩
    rintro v ⟨⟩
    exact hv
  next h => exact lays_pure ⟨le₁, hw.ends (by simpa using h)⟩

theorem lays_lowerGlobal {name : String} {type init : Option Node} (hs : w.In w.current scope) :
    Lays env w (lowerGlobal node name type init scope) fun w' _ =>
      w.Le w' ∧ w'.state.stream.Ends w'.current := by
  have htype : Lays env w (lowerGlobalType type scope) fun w' _ => w.Le w' := by
    cases type with
    | none => exact lays_pure (.refl w)
    | some type =>
      exact lays_outermost_bind fun parts hp =>
        lays_bind (hp.value hs) fun w' _ _ ⟨le, _⟩ => lays_pure le
  refine lays_bind htype fun w₁ _ _ le₁ => ?_
  cases init with
  | none => exact lays_fail
  | some init =>
    refine lays_bind (lays_of_holds holds_setNameHint) fun w₂ _ _ ⟨le₂, _⟩ => ?_
    have le := le₁.trans le₂
    refine lays_mono (lays_lowerBody (hs.to le.toBelow)) fun w' _ _ ⟨le', ends⟩ => ?_
    exact ⟨le.trans le', ends⟩

end Lower

open Lower SourceIr.Stream

variable {node : Node} {run : UnitRun}

/-- At the end of a unit that is not poisoned, all blocks are laid out along a tree, and they have
ends unless the unit is a function without a body.  No variable belongs to a stream around. -/
theorem Lowering.exists_site (h : Lowering node run) (hp : run.unit.isPoisoned = false) :
    ∃ w : Site, w.state.stream = run.unit.stream ∧ w.state.scopes = run.unit.scopes ∧ w.Good ∧
      w.base = 0 ∧ (∀ b, ¬ w.pending b) ∧
        (node.lacksBody = false → w.state.stream.Ends w.current) := by
  obtain ⟨env, s, s', x, hstart, hx, hr, hs', hscopes⟩ := h.exists_returns hp
  obtain ⟨name, isInline, hstream⟩ := hstart.stream
  have hvars := hstart.bare.vars
  have hgood : (Site.start s).Good := by
    refine Site.good_start hstream hstart.sinks (hstart.bare.recorded hstart.scopes) hstart.root ?_
    intro v x hx
    simp [ScopeTree.var?, hvars] at hx
  have hin := Site.in_start hstream hstart.scopes hgood.root_lt
  have hlays : Lays env (Site.start s) x fun w' _ => (Site.start s).Le w' ∧
      (node.lacksBody = false → w'.state.stream.Ends w'.current) := by
    cases hx with
    | function hfn =>
      refine lays_mono (lays_lowerFunction hin) fun w' _ _ h => ⟨h.1, fun hbody => h.2 ?_⟩
      simpa [Node.lacksBody, hfn] using hbody
    | global => exact lays_mono (lays_lowerGlobal hin) fun _ _ _ h => ⟨h.1, fun _ => h.2⟩
    | body => exact lays_mono (lays_lowerBody hin) fun _ _ _ h => ⟨h.1, fun _ => h.2⟩
  obtain ⟨w, rfl, hg, e, le, hends⟩ := hlays hgood ⟨⟩ s' hr
  refine ⟨w, hs', hscopes, hg, ?_, fun b hb => by rwa [le.pending] at hb, hends⟩
  rw [e.base]
  exact congrArg Array.size hvars

/-- The graph of a unit that is not poisoned is closed, and so are those of the compile-time blocks
inside. -/
theorem Lowering.stream_closed (h : Lowering node run) (hbody : node.lacksBody = false)
    (hp : run.unit.isPoisoned = false) {t : Stream} (ht : t.PartOf run.unit.stream) : t.Closed := by
  obtain ⟨w, hw, -, hg, -, hpending, hends⟩ := h.exists_site hp
  exact (hg.parts (hg.closed hpending (hends hbody)) t (hw ▸ ht)).1

/-- A function that leaves a loop where a test holds that is evaluated at compile time. -/
def Node.leavesLoop : Node :=
  .bare (.fnDecl "f" [] none (some (.bare (.whileLoop none (.bare (.boolLiteral true)) none none
    (.bare (.ifThen (.bare (.comptime (.bare (.boolLiteral true)))) none
      (.bare (.breakTo none none)) none)) none false))) false false)

theorem stream_closed_leavesLoop : (Generator.bare.lower .leavesLoop).unit.stream.Closed :=
  Lowering.stream_closed (.alone .bare .leavesLoop) (by decide) (by decide +kernel) (.self _)

/-- The streams of a unit that is not poisoned are in static single assignment form. -/
theorem Lowering.stream_isSSA (h : Lowering node run) (hp : run.unit.isPoisoned = false)
    {t : Stream} (ht : t.PartOf run.unit.stream) : t.IsSSA := by
  obtain ⟨w, hw, -, hg, -⟩ := h.exists_site hp
  rw [← hw] at ht
  cases ht with
  | self => exact hg.laid.isSSA
  | child hc ht => exact (hg.children _ hc t ht).2

theorem stream_isSSA_leavesLoop : (Generator.bare.lower .leavesLoop).unit.stream.IsSSA :=
  Lowering.stream_isSSA (.alone .bare .leavesLoop) (by decide +kernel) (.self _)

/-- In a unit that is not poisoned every variable is declared once, before all its uses. -/
theorem Lowering.stream_bindsAll (h : Lowering node run) (hp : run.unit.isPoisoned = false) :
    run.unit.stream.BindsAll run.unit.scopes.vars := by
  obtain ⟨w, hw, hscopes, hg, hbase, -⟩ := h.exists_site hp
  rw [← hw, ← hscopes]
  have hdeclared : ∀ v, v ∈ w.state.stream.declared ↔ v.index < w.state.scopes.vars.size :=
    fun v => by simp [hg.mem_declared v, hbase]
  refine bindsAll_of_binds hg.binds_parts hg.nodup (fun x hx => ?_) (fun v hv => ?_) fun x hx => ?_
  · exact (hdeclared x.id).2 (Array.getElem?_eq_some_iff.1 (hg.recorded.var_of_mem hx).1).1
  · -- No stream is around that of the unit.
    exact (hg.ready_of_mentions hv).resolve_left fun hf => by simpa [hbase] using hf.1
  · exact (hg.recorded.var_of_mem hx).1

/-- A function with a loop over elements, and one that captures what its test yields, for its body
and what comes after that; in the body, a block that is evaluated at compile time refers to a
variable of the function. -/
def Node.declaresInLoops : Node :=
  .bare (.fnDecl "f" [] none (some (.bare (.block none [
    .bare (.varDecl "x" false false none (some (.bare (.boolLiteral true)))),
    .bare (.forLoop none (.bare (.symbol "x")) "a" (some "i") (.bare (.block none [])) none false),
    .bare (.whileLoop none (.bare (.symbol "x")) (some "y") (some (.bare (.symbol "y")))
      (.bare (.comptime (.bare (.symbol "x")))) none false)]))) false false)

theorem stream_bindsAll_declaresInLoops :
    (Generator.bare.lower .declaresInLoops).unit.stream.BindsAll
      (Generator.bare.lower .declaresInLoops).unit.scopes.vars :=
  Lowering.stream_bindsAll (.alone .bare .declaresInLoops) (by decide +kernel)

end SourceIr
