import SourceIr.Proofs.Jump
import SourceIr.Proofs.Lowering

/-!
# Jumps in compile-time code

Control does not leave the stream of a compile-time block: a jump that is lowered there leads to a
scope in which everything is evaluated at compile time, too.  Where compile-time code is lowered in
place, nothing stops a jump.

* `InComptimeStream`, where code is lowered in the stream of a compile-time block;
* `jumps_stay_comptime`, the scopes that the jumps there lead to;
* `break_leaves_type`, a jump from a type to a loop of run-time code.
-/

namespace SourceIr

namespace ScopeTree

variable {t : ScopeTree} {root s f : ScopeId} {x y : Scope} {l : List Scope}

/-- A scope on the way outward that is not passed before `root` has `root` on its own way. -/
theorem Reaches.mem_chain (ht : t.WellFormed) (h : Reaches root (t.chain s) y)
    (hx : x ∈ t.chain s) (hr : x.id = root) : x ∈ t.chain y.id := by
  obtain ⟨pre, rest, hl, hpre⟩ := h
  rw [ht.chain_of_append hl]
  rw [hl] at hx
  rcases List.mem_append.1 hx with hx | hx
  · exact absurd hr (hpre x (by simp [hx]))
  · exact hx

/-- A way to the function that does not leave `root` reaches a function inside `root`. -/
theorem reaches_of_find?_isFn (h : leavesIn root none l = false)
    (hroot : ∀ x ∈ l, x.id = root → x.kind.isFn = false)
    (hf : l.find? (·.kind.isFn) = some y) : Reaches root l y := by
  induction l with
  | nil => cases hf
  | cons z outer ih =>
    have houter := fun x hx => hroot x (List.mem_cons_of_mem z hx)
    cases hz : z.kind.isFn with
    | true =>
      rw [List.find?_cons, hz] at hf
      obtain rfl := Option.some.inj hf
      refine reaches_head fun e => ?_
      rw [hroot z List.mem_cons_self e] at hz
      cases hz
    | false =>
      rw [List.find?_cons, hz] at hf
      have hzr : z.id ≠ root := by
        intro e
        simp [leavesIn, hz, e] at h
      exact (ih (by simpa [leavesIn, hz, hzr] using h) houter hf).cons hzr

end ScopeTree

namespace Lower

open ScopeTree

variable {env : Env} {s s' : State} {scope target : ScopeId} {parts : Parts} {node : Node}

/-- Code is lowered in the stream of a compile-time block: the scope that the stream starts in is
evaluated at compile time, and it is on the way outward. -/
structure InComptimeStream (s : State) (scope : ScopeId) : Prop where
  scopes : s.scopes.WellFormed
  root : ∃ x ∈ s.scopes.chain scope, x.id = s.streamRoot ∧ x.kind = .comptime

namespace InComptimeStream

/-- A scope that is reached without leaving the stream is evaluated at compile time. -/
theorem isForcedComptime (h : InComptimeStream s scope) {y : Scope}
    (hy : ScopeTree.Reaches s.streamRoot (s.scopes.chain scope) y) :
    s.scopes.isForcedComptime y.id = true := by
  obtain ⟨x, hx, hid, hk⟩ := h.root
  exact List.any_eq_true.2 ⟨x, hy.mem_chain h.scopes hx hid, by simp [hk]⟩

/-- The scope that a jump leads to. -/
theorem of_leads (h : InComptimeStream s scope) {jump : JumpKind} {label : Option String}
    {z : Scope} {b : BlockId} (hl : Leads s jump label scope target z) (hb : b ∈ exits z.kind) :
    s.scopes.isForcedComptime target = true := by
  obtain ⟨x, hx, hid, hk⟩ := h.root
  have hroot : ∃ y, s.scopes.scope? s.streamRoot = some y ∧ exits y.kind = [] :=
    ⟨x, hid ▸ h.scopes.scope?_of_mem hx, by rw [hk]; rfl⟩
  obtain ⟨y, hy, rfl⟩ := reaches_of_mem_inside (hl.mem_inside h.scopes hroot hb)
  exact h.isForcedComptime hy

/-- The function that is left. -/
theorem of_checkFnExit (h : InComptimeStream s scope) {exit : FnExit} {u : PUnit}
    (hr : Returns (checkFnExit node scope exit) env s u s') :
    ∃ f, s.scopes.enclosingFn scope = some f ∧ s.scopes.isForcedComptime f = true := by
  obtain ⟨-, -, hleaves, hfn⟩ := returns_checkFnExit hr
  obtain ⟨x, hx, hid, hk⟩ := h.root
  rw [ScopeTree.enclosingFn, Option.isSome_map] at hfn
  obtain ⟨y, hy⟩ := Option.isSome_iff_exists.1 hfn
  refine ⟨y.id, by simp [ScopeTree.enclosingFn, hy], h.isForcedComptime ?_⟩
  refine reaches_of_find?_isFn hleaves (fun z hz hzr => ?_) hy
  -- The handle of a scope tells which scope it is.
  have hxz : some x = some z := by
    rw [← h.scopes.scope?_of_mem hx, ← h.scopes.scope?_of_mem hz, hid, hzr]
  rw [← Option.some.inj hxz, hk]
  rfl

end InComptimeStream

/-- A jump that is lowered in the stream of a compile-time block leads to where everything is
evaluated at compile time, too: to such a loop or block, or out of such a function. -/
theorem jumps_stay_comptime (h : InComptimeStream s scope) (env : Env) (parts : Parts)
    (node : Node) :
    (∀ label value v s', Returns (lowerBreak parts node label value scope) env s v s' →
      ∃ target, s.scopes.breakTarget scope label = .found target ∧
        s.scopes.isForcedComptime target = true) ∧
    (∀ label v s', Returns (lowerContinue parts node label scope) env s v s' →
      ∃ target, s.scopes.continueTarget scope label = .found target ∧
        s.scopes.isForcedComptime target = true) ∧
    (∀ value v s', Returns (lowerReturn parts node value scope) env s v s' →
      ∃ f, s.scopes.enclosingFn scope = some f ∧ s.scopes.isForcedComptime f = true) ∧
    ∀ expr loc v s', Returns (lowerTry parts node expr scope loc) env s v s' →
      ∃ f, s.scopes.enclosingFn scope = some f ∧ s.scopes.isForcedComptime f = true := by
  refine ⟨fun label value v s' hr => ?_, fun label v s' hr => ?_, fun value v s' hr => ?_,
    fun expr loc v s' hr => ?_⟩
  · obtain ⟨target, z, stop, hl, hstop, -⟩ := returns_lowerBreak hr
    exact ⟨target, hl.found, h.of_leads hl (mem_exits_of_breakBlock? hstop)⟩
  · obtain ⟨target, z, step, hl, hstep, -⟩ := returns_lowerContinue hr
    exact ⟨target, hl.found, h.of_leads hl (mem_exits_of_continueBlock? hstep)⟩
  · obtain ⟨u, t, hcheck, -⟩ := returns_bind.1 hr
    exact h.of_checkFnExit hcheck
  · obtain ⟨u, t, hcheck, -⟩ := returns_bind.1 hr
    exact h.of_checkFnExit hcheck

/-- In the stream of a compile-time block, in a loop there. -/
def State.inComptimeLoop : State :=
  let scopes := ((Generator.bare.unitScopes []).2.openUnder ⟨0⟩ .comptime).2
  Generator.bare.start (Stream.new "e" true) (scopes.openUnder ⟨1⟩ (.loop none ⟨2⟩ ⟨1⟩)).2 ⟨1⟩

theorem jumps_stay_comptime_loop : InComptimeStream .inComptimeLoop ⟨2⟩ ∧
    ∃ target, State.inComptimeLoop.scopes.breakTarget ⟨2⟩ none = .found target ∧
      State.inComptimeLoop.scopes.isForcedComptime target = true := by
  have hscopes : State.inComptimeLoop.scopes.WellFormed := by
    have ho := Generator.opened_unitScopes .bare []
    exact (ho.scopes.openUnder ho.index).openUnder (by decide)
  have h : InComptimeStream .inComptimeLoop ⟨2⟩ := ⟨hscopes, by decide +kernel⟩
  have hok : (outcome (lowerBreak (nested 0) (.bare (.breakTo none none)) none none ⟨2⟩)
      ⟨.empty "", {}⟩ .inComptimeLoop).1.toOption = some ⟨1⟩ := by decide +kernel
  exact ⟨h, (jumps_stay_comptime h ⟨.empty "", {}⟩ (nested 0) (.bare (.breakTo none none))).1
    none none ⟨1⟩ _ (returns_of_toOption hok)⟩

end Lower

open Lower

/-- A loop that is left in the type of a variable. -/
def Node.breaksInType : Node :=
  .bare (.fnDecl "f" [] none (some (.bare (.block none [.bare (.whileLoop none
    (.bare (.boolLiteral true)) none none (.bare (.block none [.bare (.varDecl "x" false false
      (some (.bare (.comptime (.bare (.block none [.bare (.breakTo none none)])))))
      (some (.bare (.intLiteral 1))))])) none false)]))) false false)

/-- The jump is evaluated at compile time, and the loop that it leaves is not. -/
theorem break_leaves_type :
    (Generator.bare.lower .breaksInType).unit.isPoisoned = false ∧
      ∃ x ∈ (Generator.bare.lower .breaksInType).unit.stream.insts.toList,
        ∃ z ∈ (Generator.bare.lower .breaksInType).unit.scopes.scopes.toList,
          (∃ stop ∈ x.kind.targets, breakBlock? z.kind = some stop) ∧
            (Generator.bare.lower .breaksInType).unit.scopes.isForcedComptime x.scope = true ∧
            (Generator.bare.lower .breaksInType).unit.scopes.isForcedComptime z.id = false := by
  decide +kernel

end SourceIr
