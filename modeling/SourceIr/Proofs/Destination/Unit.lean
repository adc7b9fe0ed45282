import SourceIr.Proofs.Destination.Control
import SourceIr.Proofs.Safety.Unit

/-!
# Writes to the storage of local variables

In a unit that is not poisoned, the storage of a local variable is written to at most once on every
way of control from where it is made to where the variable is declared, and once if the initializer
has a value on every path.

* `tallies_lowerFunction`, `tallies_lowerGlobal`, `tallies_lowerBody`, the routines of units;
* `Lowering.stream_writesOnce`, the writes in the streams of a unit;
* `bindsChoice_unwritten`, the storage that is not written to where a branch is missing.
-/

namespace SourceIr

/-- What is used of a node of a tree belongs to the tree. -/
theorem Node.used_mem_nodes {root node part : Node} (hn : node ∈ root.nodes)
    (hp : part ∈ node.kind.used) : part ∈ root.nodes := by
  rcases Kind.mem_outer_of_used hp with hp | ⟨field, hf, hp⟩
  · exact tree_mem_nodes hn (Kind.mem_trees_of_outer hp)
  · exact tree_mem_nodes (tree_mem_nodes hn (Kind.mem_trees_of_outer hf))
      (Kind.mem_trees_of_outer hp)

/-- What a unit is lowered from belongs to the tree of its node. -/
theorem Node.mem_nodes_of_unitParts {node : Node} {part : Bool × Node}
    (h : part ∈ node.unitParts) : part.2 ∈ node.nodes := by
  have below : ∀ tree ∈ node.kind.trees, tree ∈ node.nodes := fun _ h =>
    tree_mem_nodes node.self_mem_nodes h
  rw [unitParts] at h
  split at h
  next fn hfn =>
    rw [Lower.FnParts.trees_of_ofNode? hfn] at below
    simp only [List.mem_append, List.mem_map, List.mem_flatMap] at h below
    rcases h with ⟨n, ⟨param, hparam, hn⟩ | hn, rfl⟩ | ⟨n, hn, rfl⟩
    · exact used_mem_nodes (below param (.inl (.inl hparam))) hn
    · exact below n (.inl (.inr hn))
    · exact below n (.inr hn)
  next =>
    split at h
    next name isConst isComptime typeExpr init hk =>
      have hused : ∀ n ∈ typeExpr.toList ++ init.toList, n ∈ node.nodes := fun n hn =>
        used_mem_nodes node.self_mem_nodes (by rw [hk]; exact hn)
      simp only [List.mem_append, List.mem_map] at h hused
      rcases h with ⟨n, hn, rfl⟩ | ⟨n, hn, rfl⟩
      · exact hused n (.inl hn)
      · exact hused n (.inr hn)
    next expr hk =>
      obtain rfl := List.mem_singleton.1 h
      exact below expr (Kind.mem_trees_of_outer (by rw [hk]; simp))
    next =>
      obtain rfl := List.mem_singleton.1 h
      exact node.self_mem_nodes

namespace Lower

open Logic Tally

variable {env : Env} {k : Probe} {c : Set Nat} {D : Option String → Prop} {w : Tally}
  {node : Node} {scope : ScopeId}

/-- The routines at the start of a unit keep to the counts. -/
theorem tallies_outermost_bind {α : Type} {c' : Set Nat} {f : Parts → LowerM α}
    {Q : Tally → α → Prop} (h : ∀ parts, TallyParts env parts → Tallies k env c c' w (f parts) Q) :
    Tallies k env c c' w (outermost >>= f) Q :=
  tallies_read_bind (h _ (tallyParts_nested env.options.maxDepth))

/-- The end of a unit that control may get to is a return. -/
theorem tallies_retAtEnd {operand : Option InstId} {location : Option Location} :
    Tallies k env c ∅ w (do
      if !(← isTerminated) then
        let _ ← emitGen (.ret operand) scope location) fun _ _ => True :=
  tallies_isTerminated_bind (fun ht => tallies_pure_of_isTerminated ht trivial) fun _ =>
    tallies_bind tallies_ret fun _ _ _ => tallies_pure trivial

theorem tallies_lowerFunction {fn : FnParts} {name : String} (hin : In k c D w scope)
    (hparams : ∀ param ∈ fn.params, ∀ part ∈ param.kind.used, Suits k D part)
    (hresult : ∀ part ∈ fn.returnType.toList, Suits k D part)
    (hbody : ∀ body ∈ fn.body, Suits k D body) :
    Tallies k env c c w (lowerFunction node fn name scope) fun _ _ => True := by
  refine tallies_outermost_bind fun parts hp => ?_
  refine tallies_bind (tallies_openScope hin rfl) fun w₁ fnScope ⟨le₁, hfn, _⟩ => ?_
  refine tallies_bind (holds_lowerParams (L := tallying env k c D) hp.holds hparams hfn)
    fun w₂ _ ⟨le₂, _⟩ => ?_
  have hfn : In k c D w₂ fnScope := hfn.since le₂.toSince
  refine tallies_bind (holds_lowerSignatureType (L := tallying env k c D) hp.holds hresult hfn)
    fun w₃ _ ⟨le₃, _⟩ => ?_
  split
  · exact tallies_pure trivial
  next body hb =>
    refine tallies_bind (hp.discard (hfn.since le₃.toSince) (hbody body hb)) fun w₄ _ _ => ?_
    exact tallies_of_empty tallies_retAtEnd

theorem tallies_lowerBody (hin : In k c D w scope) (hn : Suits k D node) :
    Tallies k env c c w (lowerBody node scope) fun _ _ => True := by
  refine tallies_outermost_bind fun parts hp => ?_
  exact tallies_bind (hp.value hin hn) fun w₁ value _ => tallies_of_empty tallies_retAtEnd

theorem tallies_lowerGlobal {name : String} {type init : Option Node} (hin : In k c D w scope)
    (htype : ∀ part ∈ type, Suits k D part) (hinit : ∀ part ∈ init, Suits k D part) :
    Tallies k env c c w (lowerGlobal node name type init scope) fun _ _ => True := by
  have first : Tallies k env c c w (lowerGlobalType type scope) fun w' _ => Le w w' := by
    cases type with
    | none => exact tallies_pure (.refl w)
    | some type =>
      exact tallies_outermost_bind fun parts hp =>
        tallies_bind (hp.value hin (htype type rfl)) fun _ _ d => tallies_pure d.le
  refine tallies_bind first fun w₁ _ le₁ => ?_
  cases init with
  | none => exact tallies_fail
  | some init =>
    refine tallies_bind (tallies_modify ⟨rfl, rfl, rfl, rfl, rfl, rfl⟩) fun w₂ _ le₂ => ?_
    exact tallies_lowerBody (hin.since (le₁.trans le₂).toSince) (hinit init rfl)

/-- The routine of a unit keeps to the counts, whatever is watched. -/
theorem UnitRoutine.tallies {x : LowerM PUnit} (hx : UnitRoutine node scope x) (env : Env)
    (hroot : k.root = node) (hin : In k c (fun _ => False) w scope) :
    Tallies k env c c w x fun _ _ => True := by
  have suits : ∀ part ∈ node.unitParts, Suits k (fun _ => False) part.2 := fun part h =>
    .of_mem (hroot ▸ Node.mem_nodes_of_unitParts h)
  cases hx with
  | @function fn _ hfn =>
    rw [Node.unitParts_of_ofNode? hfn] at suits
    refine tallies_lowerFunction hin (fun param hparam part hpart => ?_) (fun part hpart => ?_)
      fun body hbody => ?_
    · exact suits (true, part) (by simp; exact .inl ⟨param, hparam, hpart⟩)
    · exact suits (true, part) (by simp_all)
    · exact suits (false, body) (by simp_all)
  | global hparts =>
    rw [hparts] at suits
    refine tallies_lowerGlobal hin (fun part hpart => ?_) fun part hpart => ?_
    · exact suits (true, part) (by simp_all)
    · exact suits (false, part) (by simp_all)
  | body hparts =>
    rw [hparts] at suits
    exact tallies_lowerBody hin (suits (false, _) (by simp))

end Lower

open Lower SourceIr.Stream

variable {node : Node} {run : UnitRun}

/-- In the streams of a unit that is not poisoned, no way from the storage of a local variable to
its declaration writes to the storage twice, and every such way writes to it if the initializer has
a value on every path. -/
theorem Lowering.stream_writesOnce (h : Lowering node run) (hp : run.unit.isPoisoned = false)
    {t : Stream} (ht : t.PartOf run.unit.stream) : t.WritesOnce node := by
  obtain ⟨env, s, s', x, hstart, hx, hr, hs', -⟩ := h.exists_returns hp
  obtain ⟨name, isInline, hstream⟩ := hstart.stream
  have hlt : s.streamRoot.index < s.scopes.scopes.size := by
    obtain ⟨y, hy, -⟩ := hstart.root
    exact (Array.getElem?_eq_some_iff.1 hy).1
  have hdeferred : ∀ d ∈ s.deferred, d.2 ∈ node.nodes := by
    rw [hstart.deferred]
    exact fun d hd => absurd hd List.not_mem_nil
  refine Tally.Sound.writesOnce (fun ptr strict => ?_) t (hs' ▸ ht)
  let k : Probe := ⟨node, ptr, strict⟩
  have hin : Tally.In k {0} (fun _ => False) ⟨s, fun _ => {0}⟩ s.streamRoot :=
    Tally.in_of_target?_eq_none hlt (fun _ => rfl) fun _ => ScopeTree.target?_self hstart.scopes hlt
  obtain ⟨w', rfl, hsound, -⟩ := hx.tallies env rfl hin
    (.start hstream hstart.sinks hstart.scopes hstart.root hdeferred) ⟨⟩ s' hr
  exact ⟨{0}, w'.counts, hsound⟩

/-- A test that holds, with a branch for when it does not or without one. -/
def Node.choice (elseBranch : Option Node) : Node :=
  .bare (.ifThen (.bare (.boolLiteral true)) none (.bare (.intLiteral 1)) elseBranch)

/-- A function that declares a variable whose value depends on a test. -/
def Node.bindsChoice (elseBranch : Option Node) : Node :=
  .bare (.fnDecl "f" [] none (some (.bare (.block none
    [.bare (.varDecl "x" false false none (some (.choice elseBranch)))]))) false false)

/-- Both branches bring their value to the storage. -/
theorem stream_writesOnce_bindsChoice :
    let node := Node.bindsChoice (some (.bare (.intLiteral 2)))
    let s := (Generator.bare.lower node).unit.stream
    (Generator.bare.lower node).unit.isPoisoned = false ∧
      ∀ q r x y var n, s.fetch? q = some x → x.isLocal → s.fetch? r = some y →
        y.kind = .declVar var x.id → s.Way x.id q r n → n = 1 := by
  intro node s
  have hp : (Generator.bare.lower node).unit.isPoisoned = false := by decide +kernel
  have honce : s.WritesOnce node := Lowering.stream_writesOnce (.alone .bare node) hp (.self _)
  have hlit : ∀ n, (Node.bare (.intLiteral n)).Fills := fun n => .plain rfl rfl
  have hinit : ∀ decl ∈ node.nodes, ∀ name isConst isComptime typeExpr init,
      decl.kind = .varDecl name isConst isComptime typeExpr (some init) →
        init = .choice (some (.bare (.intLiteral 2))) := by
    simp [node, Node.bindsChoice, Node.choice, Node.bare, Node.nodes_eq, Kind.nodes_eq_trees,
      Kind.trees, Kind.values, FieldValue.trees, FieldValue.ofOption]
  refine ⟨hp, fun q r x y var n hq hx hr hy hw => ?_⟩
  refine (honce q r x y var n hq hx hr hy hw).2 fun decl hd init hs => ?_
  obtain ⟨⟨name, isConst, isComptime, typeExpr, hk, -⟩, -⟩ := hs
  rw [hinit decl hd name isConst isComptime typeExpr init hk]
  exact .ifThen rfl (hlit 1) (hlit 2)

/-- Where the branch is missing nothing is written, and the variable is declared all the same. -/
theorem bindsChoice_unwritten :
    let s := (Generator.bare.lower (.bindsChoice none)).unit.stream
    (Generator.bare.lower (.bindsChoice none)).unit.isPoisoned = false ∧
      ∃ q r x y var, s.fetch? q = some x ∧ x.isLocal ∧ s.fetch? r = some y ∧
        y.kind = .declVar var x.id ∧ s.Way x.id q r 0 := by
  intro s
  have hx : (s.fetch? ⟨⟨0⟩, 0⟩).any fun x => x.id = ⟨0⟩ ∧ x.kind.isAlloca ∧ x.isGen = false := by
    decide +kernel
  have hy : (s.fetch? ⟨⟨3⟩, 1⟩).any fun y => y.kind.storage? = some ⟨0⟩ := by decide +kernel
  -- The test does not hold, and control goes on at the end of the missing branch.
  have hw : s.countAlong ⟨0⟩ ⟨⟨0⟩, 0⟩
      [⟨⟨0⟩, 1⟩, ⟨⟨0⟩, 2⟩, ⟨⟨2⟩, 0⟩, ⟨⟨2⟩, 1⟩, ⟨⟨3⟩, 0⟩, ⟨⟨3⟩, 1⟩] = some 0 := by
    decide +kernel
  obtain ⟨x, hx, hprops⟩ := (Option.any_eq_true _ _).1 hx
  obtain ⟨y, hy, hdecl⟩ := (Option.any_eq_true _ _).1 hy
  obtain ⟨hid, hlocal⟩ := of_decide_eq_true hprops
  obtain ⟨var, hvar⟩ := InstKind.exists_of_storage? (of_decide_eq_true hdecl)
  exact ⟨by decide +kernel, _, _, x, y, var, hx, hlocal, hy, hid ▸ hvar,
    hid ▸ Stream.way_of_countAlong hw⟩

end SourceIr
