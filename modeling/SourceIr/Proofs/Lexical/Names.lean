import SourceIr.Proofs.Lexical.Unit
import SourceIr.Proofs.Scope.Visible

/-!
# Names are unambiguous

A variable takes a name only where it is free, and nothing is added to a scope below which something
has been bound that one comes back to.  So wherever something is lowered, a name has at most one
meaning, and in the end no variable hides what was visible where it was declared.

* `asksNames`, the guard: names have one meaning in the scope in which something is lowered;
* `names`, the discipline, and `Generator.ResolvesNames`, what it says about a unit;
* `Generator.resolvesNames_lower`, every unit.
-/

namespace SourceIr

/-- The names of a unit are unambiguous: no variable has the name of an earlier one around it, of a
primitive type, or of a declaration that is visible from its scope, and variables are used only
where they are visible. -/
structure LoweredUnit.Unambiguous (table : DeclTable) (u : LoweredUnit) : Prop where
  unshadowed : u.scopes.Unshadowed table
  visible : ∀ t : Stream, t.PartOf u.stream → ∀ i ∈ t.insts.toList, ∀ v, i.kind = .varPtr v →
    ∃ x, u.scopes.var? v = some x ∧ u.scopes.OnChain x.scope i.scope

namespace Lower

variable {env : Env} {s s' t : State} {c p : ScopeId} {kind : ScopeKind} {n : Nat}

/-- Names have one meaning in the scope in which something is lowered. -/
def asksNames (table : DeclTable) : Guard where
  expr t c := t.Unambiguous table c
  statement _ t c := t.Unambiguous table c

/-- A variable whose address is taken is visible. -/
def UsesVisible (t : ScopeTree) (_ : Bool) (i : Inst) : Prop :=
  i.scope.index < t.scopes.size ∧ ∀ v, i.kind = .varPtr v →
    ∃ x, t.var? v = some x ∧ t.OnChain x.scope i.scope

theorem UsesVisible.grows {t t' : ScopeTree} (hg : t.Grows t')
    (hvar : ∀ (i : Nat) (v : Variable), t.vars[i]? = some v → t'.vars[i]? = some v) (b : Bool)
    (i : Inst) (h : UsesVisible t b i) : UsesVisible t' b i := by
  refine ⟨Nat.lt_of_lt_of_le h.1 hg.size_le, fun v hv => ?_⟩
  obtain ⟨x, hx, hon⟩ := h.2 v hv
  exact ⟨x, hvar _ _ hx, (hg.onChain_iff h.1).2 hon⟩

/-- No variable of a state hides another one, and variables are used where they are visible. -/
structure HasNames (table : DeclTable) (s : State) : Prop where
  recorded : s.scopes.Recorded
  unshadowed : s.scopes.Unshadowed table
  root_lt : s.streamRoot.index < s.scopes.scopes.size
  every : s.Every UsesVisible

/-- A scope in which something is lowered is there, and no name has two meanings in it. -/
structure NamedAt (table : DeclTable) (s : State) (c : ScopeId) : Prop where
  lt : c.index < s.scopes.scopes.size
  names : s.scopes.Unambiguous table c

variable {table : DeclTable}

theorem NamedAt.opening (hp : NamedAt table s p) (ht : s.scopes.WellFormed)
    (hkind : ∀ path, kind ≠ .container path) : NamedAt table (s.opening p kind) s.top where
  lt := by simp [State.opening, State.top]
  names := hp.names.openUnder ht hp.lt hkind

theorem NamedAt.parent {y : Scope} (hc : NamedAt table s c) (ht : s.scopes.WellFormed)
    (hy : y ∈ s.scopes.chain c) : NamedAt table s (y.parent.getD y.id) where
  lt := by
    obtain ⟨z, hz, hid⟩ := ht.parent_mem_chain hy
    exact hid ▸ (Array.getElem?_eq_some_iff.1 (ht.scope?_of_mem hz)).1
  names := hc.names.parent ht hy

theorem not_container_of_isPlain (h : kind.isPlain = true) (path : String) :
    kind ≠ .container path := by
  rintro rfl
  cases h

/-- Names have one meaning wherever something is lowered. -/
def names (env : Env) : Discipline env where
  Inv := HasNames env.table
  At := NamedAt env.table
  MayDefer _ _ := True
  Alarm _ := False
  wellFormed h := h.recorded.scopes
  root_lt h := h.root_lt
  index_lt h := h.lt
  at_frame hs hc h hlt := ⟨Nat.lt_of_lt_of_le hc.lt h.size_le,
    hc.names.congr hs.recorded.scopes h.grows (h.chain_eq hs.recorded.scopes hlt hc.lt) hc.lt h.var⟩
  inv_alike {s s'} hs h := by
    refine ⟨?_, ?_, ?_, hs.every.of_alike h⟩
    · exact h.scopes ▸ hs.recorded
    · exact h.scopes ▸ hs.unshadowed
    · exact h.root ▸ h.scopes ▸ hs.root_lt
  inv_emit _ _ _ hs hc hf := by
    refine ⟨hs.recorded, hs.unshadowed, hs.root_lt, hs.every.withNext ⟨hc.lt, ?_⟩⟩
    rintro v rfl
    obtain ⟨name, hl⟩ := hf
    exact hs.recorded.onChain_of_lookup hl
  inv_open {s p} kind hs hlt := by
    have hg := ScopeTree.grows_openUnder (t := s.scopes) p kind
    exact ⟨hs.recorded.openUnder hlt, hs.unshadowed.grows hs.recorded hg rfl,
      Nat.lt_of_lt_of_le hs.root_lt hg.size_le,
      hs.every.mono rfl rfl rfl (UsesVisible.grows hg fun _ _ h => h)⟩
  at_open hs hc hkind := hc.opening hs.recorded.scopes (not_container_of_isPlain hkind)
  at_defer _ hs hc _ _ := hc.opening hs.recorded.scopes nofun
  at_body hs hc hy _ := (hc.parent hs.recorded.scopes hy.mem).opening hs.recorded.scopes nofun
  declare {s c r} hs hc hr hfree := by
    have hg := ScopeTree.grows_addVar (t := s.scopes) c r
    have hvar : ∀ (i : Nat) (v : Variable), s.scopes.vars[i]? = some v →
        (s.scopes.addVar c r).2.vars[i]? = some v :=
      (frame_declaring (s := s) (c := c) (r := r)).var
    refine ⟨⟨hs.recorded.addVar hc.lt r, hs.unshadowed.declare hs.recorded hc.lt hr hfree,
      Nat.lt_of_lt_of_le hs.root_lt hg.size_le,
      hs.every.mono rfl rfl rfl (UsesVisible.grows hg hvar)⟩,
      Nat.lt_of_lt_of_le hc.lt hg.size_le, hc.names.declare hs.recorded hc.lt hr hfree⟩
  child name hs hc _ :=
    ⟨⟨hs.recorded, hs.unshadowed, hc.lt, State.every_new rfl rfl⟩, hc.lt, hc.names⟩
  around hs ht h := ⟨ht.recorded, ht.unshadowed, Nat.lt_of_lt_of_le hs.root_lt h.grows.size_le,
    hs.every.around ht.every (UsesVisible.grows h.grows h.var)⟩

/-- Names have one meaning where no variable is declared. -/
theorem unambiguous_of_bare {t : ScopeTree} (ht : t.WellFormed) (h : t.Bare) :
    t.Unambiguous table c := by
  intro name
  have hnone : t.lookupAll c name = [] := by
    rw [ScopeTree.lookupAll, List.filter_eq_nil_iff]
    intro id hid
    obtain ⟨x, hx, hid⟩ := List.mem_flatMap.1 hid
    rw [(h.scopes _ x (ht.scope?_of_mem hx)).1] at hid
    cases hid
  simp [hnone]

theorem unshadowed_of_bare {t : ScopeTree} (h : t.Bare) : t.Unshadowed table := by
  refine ⟨?_, ?_, ?_⟩ <;> rw [h.vars] <;> exact fun v hv => absurd hv (Array.not_mem_empty v)

theorem Starts.hasNames (hs : Starts s c) (h : s.scopes.Bare) : HasNames table s where
  recorded := h.recorded hs.scopes
  unshadowed := unshadowed_of_bare h
  root_lt := hs.root ▸ hs.lt
  every := State.every_new hs.insts hs.children

end Lower

/-! ### Units -/

namespace Generator

open Lower

variable {g : Generator} {run : UnitRun} {runBy : Parts → UnitRun}

/-- Names are unambiguous in a unit: in the end, and wherever something is lowered. -/
structure ResolvesNames (g : Generator) (run : UnitRun) (runBy : Parts → UnitRun) : Prop where
  unit : run.unit.Unambiguous g.table
  asked : g.Quiet (asksNames g.table) run runBy

theorem Unit.resolvesNames (h : g.Unit ScopeTree.Bare run runBy) : g.ResolvesNames run runBy := by
  obtain ⟨r, hs, hbare, name, kind⟩ := h
  let d := names ⟨g.table, g.options⟩
  have hstart : d.Inv _ := hs.hasNames hbare
  have hat : d.At _ r.scope := ⟨hs.lt, unambiguous_of_bare hs.scopes hbare⟩
  have hp : KeepsParts d (guarded (asksNames g.table) raise g.options.maxDepth) :=
    keepsParts_guarded (d := d) (fun _ hat => NamedAt.names hat)
      (fun _ hat _ h => h (NamedAt.names hat)) (fun _ _ => trivial) _
  have hplain : KeepsParts d (nested g.options.maxDepth) := keepsParts_nested (fun _ _ => trivial) _
  constructor
  · obtain ⟨s', hs', hstream, hscopes⟩ := (r.ends hplain hstart hat).leaves name kind
    refine ⟨hscopes ▸ hs'.unshadowed, fun t ht i hi v hv => ?_⟩
    rw [← hscopes]
    exact (hs'.every t (hstream ▸ ht) i hi).2 v hv
  · intro alarm
    exact congrArg _ (r.outcome_guarded alarm fun t ht => (r.ends hp hstart hat).alarm ht)

/-- Name resolution is unambiguous in every unit: no variable hides an earlier one around it, a
primitive type or a declaration; variables are used where they are visible; and wherever something
is lowered, at most one variable is visible under a name, and none if a declaration is. -/
theorem resolvesNames_lower (g : Generator) (node : Node) :
    g.ResolvesNames (g.lower node) (g.runNodeBy · node (unitName node) []) ∧
      g.ResolvesNames (g.lowerFnBody node)
        (g.runFunctionBy · node (node.declName?.getD "anonymous") .function []) ∧
      ∀ decl, g.ResolvesNames (g.lowerDecl decl node)
        (g.runNodeBy · node decl.name (g.table.containersOf decl.id)) :=
  ⟨(g.unit_runNode _ _ _).resolvesNames, (g.unit_runFunction _ _ _ _).resolvesNames,
    fun _ => (g.unit_runNode _ _ _).resolvesNames⟩

end Generator

end SourceIr
