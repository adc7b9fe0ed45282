import SourceIr.Proofs.Layout.Unit
import SourceIr.Proofs.Upkeep.Child

/-!
# Streams that are complete

A stream that is left unfinished has a failure on record.  It is so with the stream of every unit,
and with the streams inside while no declaration has failed.  Where the other statements of a block
are lowered after a failure, a compile-time block may use a variable whose declaration has failed:
its stream is left unfinished, and what is on record is in the stream around it.

* `Lower.complete_of_returns`, the stream of a compile-time block whose body returns;
* `Lower.completing`, the streams inside that a routine leaves behind;
* `failures_on_record`, routines and units;
* `unfinished_without_failure`, a stream inside that is neither complete nor poisoned.
-/

namespace SourceIr

namespace Lower

variable {env : Env} {s s' t : State} {scope : ScopeId} {node expr : Node}

/-- A compile-time block that returns has lowered its stream to the end. -/
theorem complete_of_returns {levels : Nat} (hs : scope.index < s.scopes.scopes.size)
    (hscopes : s.scopes.Recorded)
    (hr : Returns (framedBody (nested levels) node expr s.top) env (s.inBlock node scope) ⟨⟩ t) :
    t.stream.Closed := by
  have hrecorded : (s.scopes.openUnder scope .comptime).2.Recorded := hscopes.openUnder hs
  have hgood : (Site.start (s.inBlock node scope)).Good := by
    refine Site.good_start rfl rfl hrecorded ⟨_, ScopeTree.scope?_openUnder scope .comptime, rfl⟩ ?_
    -- The scope of the block was opened last.
    exact fun v x hx => (hscopes.var_of_mem (Array.mem_of_getElem? hx)).2
  have hin : (Site.start (s.inBlock node scope)).In _ s.top :=
    Site.in_start rfl hrecorded.scopes
      (by simp [State.inBlock, State.inChild, State.opening, State.top])
  obtain ⟨w, rfl, hw, -, le, ends⟩ := lays_framedBody (layParts_nested levels) hin hgood ⟨⟩ t hr
  exact hw.closed (fun b hb => by rwa [le.pending] at hb) ends

/-- The streams inside that a routine adds are complete or poisoned, unless there was a failure for
them to meet. -/
structure AddsInside (env : Env) (s s' : State) : Prop where
  scopes : s.scopes.Recorded → s'.scopes.Recorded
  children : s.scopes.Recorded → ∀ c ∈ s'.stream.children,
    c ∈ s.stream.children ∨ c.isPoisoned = true ∨ c.Closed ∨
      s.failedVars ≠ [] ∨ env.options.errorPolicy = .proceed ∧ s'.stream.Failed

namespace AddsInside

variable {s'' : State}

/-- What adds no stream. -/
theorem of_eq (hscopes : s.scopes.Recorded → s'.scopes.Recorded)
    (hchildren : s'.stream.children = s.stream.children) : AddsInside env s s' :=
  ⟨hscopes, fun _ _ hc => .inl (hchildren ▸ hc)⟩

theorem trans (h : AddsInside env s s') (h' : AddsInside env s' s'')
    (hv : s'.failedVars ≠ [] →
      s.failedVars ≠ [] ∨ env.options.errorPolicy = .proceed ∧ s''.stream.Failed)
    (hf : s'.stream.Failed → s''.stream.Failed) : AddsInside env s s'' := by
  refine ⟨fun hs => h'.scopes (h.scopes hs), fun hs c hc => ?_⟩
  rcases h'.children (h.scopes hs) c hc with hc | hc | hc | hc | hc
  · rcases h.children hs c hc with hc | hc | hc | hc | ⟨hp, hc⟩
    · exact .inl hc
    · exact .inr (.inl hc)
    · exact .inr (.inr (.inl hc))
    · exact .inr (.inr (.inr (.inl hc)))
    · exact .inr (.inr (.inr (.inr ⟨hp, hf hc⟩)))
  · exact .inr (.inl hc)
  · exact .inr (.inr (.inl hc))
  · exact .inr (.inr (.inr (hv hc)))
  · exact .inr (.inr (.inr (.inr hc)))

theorem small (h : Small s s') : AddsInside env s s' :=
  of_eq (fun hs => hs.change h.change) h.children

/-- A small step after a failure that is not met again. -/
theorem step (h : AddsInside env s s') (h' : Small s' s'') : AddsInside env s s'' := by
  refine ⟨fun hs => (h.scopes hs).change h'.change, fun hs c hc => ?_⟩
  exact (h.children hs c (h'.children ▸ hc)).imp id <| Or.imp id <| Or.imp id <| Or.imp id <|
    And.imp id h'.failed

/-- One more stream. -/
theorem around (hs : scope.index < s.scopes.scopes.size)
    (h : AddsInside env (s.inBlock node scope) t)
    (hc : s.scopes.Recorded → t.stream.isPoisoned = true ∨ t.stream.Closed ∨ s.failedVars ≠ []) :
    AddsInside env s ((s.opening scope .comptime).around t) := by
  refine ⟨fun hr => h.scopes (hr.openUnder hs), fun hr c hm => ?_⟩
  rw [State.around, Stream.children_addChild] at hm
  rcases List.mem_append.1 hm with hm | hm
  · exact .inl hm
  · rw [List.mem_singleton.1 hm]
    exact .inr ((hc hr).imp id (Or.imp id .inl))

end AddsInside

/-- A routine leaves the streams inside complete, unless a failure is on record for them, or there
was one for them to meet. -/
def completing (env : Env) : Upkeep env where
  Ok s s' := (failing env).Ok s s' ∧ AddsInside env s s'
  Bad s s' := (failing env).Bad s s' ∧ AddsInside env s s'
  refl s := ⟨(failing env).refl s, .of_eq id rfl⟩
  trans h h' := ⟨(failing env).trans h.1 h'.1, h.2.trans h'.2 (fun hv => .inl (h.1.1 ▸ hv)) h'.1.2⟩
  before h h' :=
    ⟨(failing env).before h.1 h'.1, h.2.trans h'.2 (fun hv => .inl (h.1.1 ▸ hv)) h'.1.2⟩
  small h he := ⟨(failing env).small h he, .small h⟩
  warn := ⟨(failing env).warn, .of_eq id rfl⟩
  defer hp := ⟨(failing env).defer hp, .of_eq (·.openUnder hp) rfl⟩
  invalidate := ⟨(failing env).invalidate, .of_eq id rfl⟩
  lost h := ⟨(failing env).lost h, .of_eq id rfl⟩
  after h h' := ⟨(failing env).after h.1 h', h.2.step h'⟩
  mark h := ⟨(failing env).mark h.1, h.2.scopes, h.2.children⟩
  resume hp h h' := ⟨(failing env).resume hp h.1 h'.1,
    h.2.trans h'.2 (fun _ => h.1.1.symm.imp id fun hf => ⟨hp, h'.1.2 hf⟩) h'.1.2⟩
  again hp h h' := ⟨(failing env).again hp h.1 h'.1,
    h.2.trans h'.2 (fun _ => h.1.1.symm.imp id fun hf => ⟨hp, h'.1.2 hf⟩) h'.1.2⟩
  framed h := ⟨h.1, h.2.scopes, h.2.children⟩
  framedBad h := ⟨h.1, h.2.scopes, h.2.children⟩
  evaluated hs hc hr h := ⟨(failing env).evaluated hs hc hr h.1,
    (AddsInside.around hs h.2 fun hrec => .inr (.inl (complete_of_returns hs hrec hr))).step
      (small_withNext _ _ _ _ _)⟩
  failed hs hc h := ⟨(failing env).failed hs hc h.1,
    AddsInside.around hs h.2 fun _ => h.1.1.imp (·.isPoisoned) .inr⟩

end Lower

open Lower

/-- A stream of a unit that is not poisoned is complete, unless it is that of a function without a
body.  Where the other statements of a block are lowered after a failure, a stream inside may also
have met a failure that is on record in the stream of the unit. -/
structure UnitRun.Complete (run : UnitRun) (policy : ErrorPolicy) (node : Node) : Prop where
  own : run.unit.isPoisoned = false → node.lacksBody = false → run.unit.stream.Closed
  inside : policy = .abort ∨ run.unit.isPoisoned = false → ∀ c ∈ run.unit.stream.children,
    ∀ t : Stream, t.PartOf c → t.isPoisoned = false → t.Closed

theorem UnitRun.LeftBy.inside_closed {run : UnitRun} {env : Env} {s : State} {x : LowerM PUnit}
    (h : run.LeftBy env s x) (hs : s.scopes.Recorded) (hf : run.fault? = none)
    (hpolicy : env.options.errorPolicy = .abort ∨ run.unit.isPoisoned = false) :
    ∀ c ∈ run.unit.stream.children, ∀ t : Stream, t.PartOf c → t.isPoisoned = false →
      t.Closed := by
  intro c hc t ht hp
  obtain rfl : t = c := by
    cases ht with
    | self => rfl
    | child hm => exact absurd hm (by simp [((h.nests hf).inside c hc).2])
  obtain ⟨u, hstream, -, hends⟩ := h.ends (completing env)
  obtain ⟨name, isInline, hnew⟩ := h.stream
  have hadds : AddsInside env s u := by
    rcases ho : run.outcome with (_ | f) | _ <;> rw [ho] at hends
    · exact hends.2
    · rw [UnitRun.fault?, ho] at hf
      cases hf
    · exact hends.2
  rcases hadds.children hs t (hstream ▸ hc) with hm | hm | hm | hm | ⟨hm, hfailed⟩
  · rw [hnew] at hm
    exact absurd hm List.not_mem_nil
  · rw [hp] at hm
    cases hm
  · exact hm
  · exact absurd h.failedVars hm
  · rcases hpolicy with hpolicy | hpolicy
    · rw [hpolicy] at hm
      cases hm
    · rw [hstream] at hfailed
      rw [LoweredUnit.isPoisoned, hfailed.isPoisoned] at hpolicy
      cases hpolicy

/-- A failure is on record wherever a routine fails: in the stream that it was lowering into, unless
a declaration had failed before, and so in that of every unit that fails.  Streams that have none on
record are complete, but for one that has met a failure on record in the stream of its unit. -/
theorem failures_on_record (g : Generator) (node : Node) :
    (∀ {env : Env} {s s' : State} {levels : Nat} {scope : ScopeId},
      ((∃ loc, outcome ((nested levels).expr node scope loc) env s = (.error .poisoned, s')) ∨
        outcome ((nested levels).statement node scope) env s = (.error .poisoned, s')) →
      s'.stream.Failed ∨ s.failedVars ≠ []) ∧
    (∀ {run : UnitRun}, Lowering node run → run.outcome = .error .poisoned →
      run.unit.stream.Failed) ∧
    (∀ (scopes : ScopeTree) (scope : ScopeId) (name : String),
      (g.lowerIn node scopes scope name).outcome = .error .poisoned →
        (g.lowerIn node scopes scope name).unit.stream.Failed) ∧
    (∀ {root : Node} {options : Options} {decl : Decl},
      (decl, node) ∈ FileRun.work (DeclTable.ofRoot root).1 root.topLevel →
        (({ table := (DeclTable.ofRoot root).1, options } : Generator).lowerDecl decl
          node).Complete options.errorPolicy node) ∧
    (g.lower node).Complete g.options.errorPolicy node ∧
    (g.lowerFnBody node).Complete g.options.errorPolicy node := by
  have complete : ∀ {g : Generator} {node : Node} {run : UnitRun}, Lowering node run →
      (∃ s x, run.LeftBy ⟨g.table, g.options⟩ s x ∧ Starting s) →
        run.Complete g.options.errorPolicy node := by
    rintro g node run h ⟨s, x, hleft, hstart⟩
    exact ⟨fun hp hbody => h.stream_closed hbody hp (.self _), fun hpolicy =>
      hleft.inside_closed (hstart.bare.recorded hstart.scopes) h.fault?_eq_none hpolicy⟩
  refine ⟨?_, fun h ho => ?_, fun scopes scope name ho => ?_, fun hw => ?_, ?_, ?_⟩
  · rintro env s s' levels scope (⟨loc, ho⟩ | ho)
    · exact (failed_of_poisoned levels).1 ho
    · exact (failed_of_poisoned levels).2 ho
  · obtain ⟨env, s, x, hleft, -⟩ := h.exists_leftBy
    exact hleft.failed ho
  · obtain ⟨s, x, hleft⟩ := g.leftBy_lowerIn node name scopes scope
    exact hleft.failed ho
  · exact complete (.inFile hw) (Generator.leftBy_runNode ..)
  · exact complete (.alone g node) (g.leftBy_runNode ..)
  · exact complete (.asFn g node) (g.leftBy_runFunction ..)

/-- A generator that goes on after failures. -/
def Generator.proceeding : Generator :=
  { Generator.bare with options := { errorPolicy := .proceed } }

/-- A function with a variable whose declaration fails, which a compile-time block uses. -/
def Node.usesFailed : Node :=
  .bare (.fnDecl "f" [] none (some (.bare (.block none [
    .bare (.varDecl "x" false false none (some (.bare (.symbol "y")))),
    .bare (.assign (.bare (.symbol "_")) (.bare (.comptime (.bare (.symbol "x")))))]))) false false)

/-- A file with this function. -/
def Node.fileUsesFailed : Node := .bare (.root "t" [.usesFailed])

theorem DeclTable.ofRoot_fileUsesFailed : ofRoot .fileUsesFailed =
    (⟨"t", #[⟨⟨0⟩, "f", .fn, none, 0, none⟩]⟩, []) := by
  simp only [ofRoot, namespaceOf, Node.fileUsesFailed, Node.usesFailed, Node.bare, Node.topLevel,
    insertAll, insertTopLevel, Node.header?, Node.members?]
  rfl

theorem failures_on_record_usesFailed :
    ((outcome ((nested 1).expr (.bare (.symbol "y")) ⟨0⟩ .none) ⟨.empty "", {}⟩
      Generator.bareStart).2.stream.Failed ∨ Generator.bareStart.failedVars ≠ []) ∧
    (Generator.proceeding.lower .usesFailed).unit.stream.Failed ∧
    (Generator.bare.lowerIn .comptimeUnresolved (Generator.bare.unitScopes ["S"]).2 ⟨1⟩
      "e").unit.stream.Failed ∧
    (({ table := (DeclTable.ofRoot .fileUsesFailed).1, options := {} } : Generator).lowerDecl
      ⟨⟨0⟩, "f", .fn, none, 0, none⟩ .usesFailed).Complete .abort .usesFailed := by
  have hexpr : hasFailed (outcome ((nested 1).expr (.bare (.symbol "y")) ⟨0⟩ .none)
      ⟨.empty "", {}⟩ Generator.bareStart).1 = true := by decide +kernel
  have hunit : hasFailed (Generator.proceeding.lower .usesFailed).outcome = true := by
    decide +kernel
  have hin : hasFailed (Generator.bare.lowerIn .comptimeUnresolved
      (Generator.bare.unitScopes ["S"]).2 ⟨1⟩ "e").outcome = true := by decide +kernel
  have hwork : (⟨⟨0⟩, "f", .fn, none, 0, none⟩, .usesFailed) ∈
      FileRun.work (DeclTable.ofRoot .fileUsesFailed).1 Node.fileUsesFailed.topLevel := by
    rw [DeclTable.ofRoot_fileUsesFailed]
    refine List.mem_filterMap.2 ⟨_, List.mem_cons_self, ?_⟩
    rw [DeclTable.node?, DeclTable.nodeAt?]
    rfl
  exact ⟨(failures_on_record .bare (.bare (.symbol "y"))).1
      (.inl ⟨_, Prod.ext (eq_of_hasFailed hexpr) rfl⟩),
    (failures_on_record .proceeding .usesFailed).2.1 (.alone _ _) (eq_of_hasFailed hunit),
    (failures_on_record .bare .comptimeUnresolved).2.2.1 _ _ _ (eq_of_hasFailed hin),
    (failures_on_record .bare .usesFailed).2.2.2.1 hwork⟩

/-- The stream of the block has no instruction and no failure on record. -/
theorem unfinished_without_failure :
    ∃ c ∈ (Generator.proceeding.lower .usesFailed).unit.stream.children,
      c.isPoisoned = false ∧ c.errors = #[] ∧ ¬ c.Closed := by
  have hempty : ∃ c ∈ (Generator.proceeding.lower .usesFailed).unit.stream.children,
      c.isPoisoned = false ∧ c.errors.isEmpty = true ∧
        ∃ k ∈ c.blocks.toList, k.insts.toList.getLast? = none := by decide +kernel
  obtain ⟨c, hc, hp, he, k, hk, hlast⟩ := hempty
  refine ⟨c, hc, hp, by simpa using he, fun hclosed => ?_⟩
  obtain ⟨i, x, hi, -⟩ := hclosed.ends k hk
  rw [hlast] at hi
  cases hi

end SourceIr
