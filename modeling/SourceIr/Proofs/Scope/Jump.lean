import SourceIr.Proofs.Scope.Growth

/-!
# Jumps within a scope

A jump that does not leave the scope `root` stays among the scopes inside it: its target is one of
them, and so are the scopes of the deferred expressions that it passes.

* `ScopeTree.inside`, the part of a chain up to `root`;
* `ScopeTree.Reaches`, a scope on a chain before `root`;
* `ScopeTree.Under`, one scope inside another one;
* `ScopeTree.reaches_of_leavesIn`, `ScopeTree.reaches_of_mem_defersIn`;
* `ScopeTree.Grows.defersUntil_eq`, `ScopeTree.defersUntil_openUnder`, what is deferred on a way.
-/

namespace SourceIr.ScopeTree

variable {t t' : ScopeTree} {root s d : ScopeId} {target : Option ScopeId} {l : List Scope}

/-- The scopes from one outward that lie inside `root`, by their handles and kinds. -/
def inside (t : ScopeTree) (root s : ScopeId) : List (ScopeId × ScopeKind) :=
  (t.links s).takeWhile (·.1 != root)

theorem Grows.inside_eq (h : t.Grows t') (hs : s.index < t.scopes.size) :
    t'.inside root s = t.inside root s := by
  rw [inside, h.links_eq hs, inside]

theorem inside_openUnder {p : ScopeId} (hp : p.index < t.scopes.size)
    (hroot : root.index < t.scopes.size) (kind : ScopeKind) :
    (t.openUnder p kind).2.inside root ⟨t.scopes.size⟩ =
      (⟨t.scopes.size⟩, kind) :: t.inside root p := by
  have hne : (⟨t.scopes.size⟩ : ScopeId) ≠ root := by
    rintro rfl
    exact Nat.lt_irrefl _ hroot
  rw [inside, links_openUnder hp, inside, List.takeWhile_cons_of_pos (by simpa using hne)]

/-- Nothing lies between a scope and itself. -/
theorem inside_self (ht : t.WellFormed) (hs : s.index < t.scopes.size) : t.inside s s = [] := by
  obtain ⟨x, hx⟩ : ∃ x, t.scope? s = some x := ⟨_, Array.getElem?_eq_getElem hs⟩
  rw [inside, links, ht.chain_eq hx, List.map_cons, ht.id _ x hx, List.takeWhile_cons_of_neg]
  simp

/-- Where a way leads depends on the handles and the kinds of its scopes. -/
theorem leavesIn_congr {l' : List Scope}
    (h : l.map (fun x => (x.id, x.kind)) = l'.map fun x => (x.id, x.kind)) :
    leavesIn root target l = leavesIn root target l' := by
  induction l generalizing l' with
  | nil =>
    rw [List.map_nil, eq_comm, List.map_eq_nil_iff] at h
    rw [h]
  | cons x outer ih =>
    cases l' with
    | nil => cases h
    | cons y outer' =>
      obtain ⟨hxy, houter⟩ := List.cons.inj h
      obtain ⟨hid, hkind⟩ := Prod.mk.inj hxy
      rw [leavesIn, leavesIn, hid, hkind, ih houter]

theorem Grows.leaves_eq (h : t.Grows t') (hs : s.index < t.scopes.size) :
    t'.leaves root s target = t.leaves root s target :=
  leavesIn_congr (h.links_eq hs)

/-- A scope stands on a list of scopes, and `root` does not stand before it. -/
def Reaches (root : ScopeId) (l : List Scope) (y : Scope) : Prop :=
  ∃ pre rest, l = pre ++ y :: rest ∧ ∀ z ∈ pre ++ [y], z.id ≠ root

theorem Reaches.cons {x y : Scope} (hx : x.id ≠ root) (h : Reaches root l y) :
    Reaches root (x :: l) y := by
  obtain ⟨pre, rest, rfl, hpre⟩ := h
  refine ⟨x :: pre, rest, rfl, ?_⟩
  intro z hz
  rcases List.mem_cons.1 hz with rfl | hz
  · exact hx
  · exact hpre z hz

theorem reaches_head {x : Scope} (hx : x.id ≠ root) : Reaches root (x :: l) x :=
  ⟨[], l, rfl, by simpa using hx⟩

/-- The target of a jump that does not leave `root` lies inside it. -/
theorem reaches_of_leavesIn {x : Scope} (h : leavesIn root (some d) l = false) (hx : x ∈ l)
    (hd : x.id = d) (hne : d ≠ root) : ∃ y, Reaches root l y ∧ y.id = d := by
  induction l with
  | nil => cases hx
  | cons z outer ih =>
    by_cases hz : z.id = d
    · exact ⟨z, reaches_head (hz ▸ hne), hz⟩
    · simp only [leavesIn, Option.some.injEq, hz, if_false] at h
      have hzr : z.id ≠ root := by
        intro e
        simp [e] at h
      have hx' : x ∈ outer := by
        rcases List.mem_cons.1 hx with rfl | hx
        · exact absurd hd hz
        · exact hx
      obtain ⟨y, hy, hyd⟩ := ih (by simpa [hzr] using h) hx'
      exact ⟨y, hy.cons hzr, hyd⟩

/-- A jump lands at a scope on its way. -/
theorem mem_of_found {jump : JumpKind} {label : Option String}
    (h : jumpTargetIn jump label l = .found d) : ∃ x ∈ l, x.id = d := by
  induction l with
  | nil => cases label <;> simp [jumpTargetIn, noTarget] at h
  | cons z outer ih =>
    have hout : ∀ {r}, jumpTargetIn jump label outer = r → r = .found d →
        ∃ x ∈ z :: outer, x.id = d := by
      intro r hr e
      obtain ⟨x, hx, hd⟩ := ih (hr.trans e)
      exact ⟨x, List.mem_cons_of_mem z hx, hd⟩
    have hhere : JumpTarget.found z.id = .found d → ∃ x ∈ z :: outer, x.id = d := fun e =>
      ⟨z, List.mem_cons_self, JumpTarget.found.inj e⟩
    rw [jumpTargetIn] at h
    split at h
    · cases h
    · cases label <;> simp [noTarget] at h
    · cases label <;> simp [noTarget] at h
    · cases label <;> simp [noTarget] at h
    · split at h
      · exact hhere h
      · exact hout rfl h
    · split at h
      · cases jump
        · exact hhere h
        · cases h
      · exact hout rfl h
    · exact hout rfl h

/-- The scopes of the deferred expressions that a jump passes are on its way. -/
theorem mem_of_mem_defersIn {e : ScopeId × DeferKind} (h : e ∈ defersIn target l) :
    ∃ x ∈ l, x.id = e.1 := by
  induction l with
  | nil => cases h
  | cons z outer ih =>
    have hout : e ∈ defersIn target outer → ∃ x ∈ z :: outer, x.id = e.1 := by
      intro h
      obtain ⟨x, hx, hxe⟩ := ih h
      exact ⟨x, List.mem_cons_of_mem z hx, hxe⟩
    rw [defersIn] at h
    split at h
    · cases h
    split at h
    · rcases List.mem_cons.1 h with rfl | h
      · exact ⟨z, List.mem_cons_self, rfl⟩
      · exact hout h
    · cases h
    · cases h
    · cases h
    · exact hout h

/-- The deferred expressions that a jump passes without leaving `root` belong to scopes inside
it. -/
theorem reaches_of_mem_defersIn {k : DeferKind} (h : leavesIn root target l = false)
    (hd : (d, k) ∈ defersIn target l) : ∃ y, Reaches root l y ∧ y.id = d := by
  induction l with
  | nil => cases hd
  | cons z outer ih =>
    by_cases hz : some z.id = target
    · simp [defersIn, hz] at hd
    · by_cases hfn : (target.isNone && z.kind.isFn) = true
      · cases hk : z.kind <;> simp [hk, ScopeKind.isFn] at hfn
        simp [defersIn, hz, hk] at hd
      · have hzr : z.id ≠ root := by
          intro e
          rw [leavesIn, if_neg hz, if_neg hfn, if_pos e] at h
          cases h
        have hout : (d, k) ∈ defersIn target outer → ∃ y, Reaches root (z :: outer) y ∧
          y.id = d := by
          intro hd
          have hl : leavesIn root target outer = false := by
            simpa [leavesIn, hz, hfn, hzr] using h
          obtain ⟨y, hy, hyd⟩ := ih hl hd
          exact ⟨y, hy.cons hzr, hyd⟩
        simp only [defersIn, hz, if_false] at hd
        split at hd
        · rcases List.mem_cons.1 hd with e | hd
          · exact ⟨z, reaches_head hzr, (Prod.mk.inj e).1.symm⟩
          · exact hout hd
        · cases hd
        · cases hd
        · cases hd
        · exact hout hd

/-- The way from a scope inside another one to that one does not leave `root`, if `root` is not
between them. -/
theorem leavesIn_eq_false {rest : List (ScopeId × ScopeKind)} {kind : ScopeKind}
    {new : List (ScopeId × ScopeKind)} (hnew : ∀ x ∈ new, x.1 ≠ root)
    (h : l.map (fun x => (x.id, x.kind)) = new ++ (d, kind) :: rest) :
    leavesIn root (some d) l = false := by
  induction new generalizing l with
  | nil =>
    cases l with
    | nil => cases h
    | cons z outer =>
      obtain ⟨hz, -⟩ := List.cons.inj h
      simp [leavesIn, (Prod.mk.inj hz).1]
  | cons x new ih =>
    cases l with
    | nil => cases h
    | cons z outer =>
      obtain ⟨hz, hrest⟩ := List.cons.inj h
      have hzr : z.id ≠ root := by
        have := hnew x List.mem_cons_self
        rwa [← hz] at this
      rw [leavesIn]
      split
      · rfl
      · simpa [hzr] using ih (fun y hy => hnew y (List.mem_cons_of_mem x hy)) hrest

/-- A scope that is reached lies inside `root`. -/
theorem Reaches.mem_inside {y : Scope} (h : Reaches root (t.chain s) y) :
    (y.id, y.kind) ∈ t.inside root s := by
  obtain ⟨pre, rest, hl, hpre⟩ := h
  rw [inside, links, hl, List.map_append, List.map_cons]
  rw [List.takeWhile_append_of_pos, List.takeWhile_cons_of_pos]
  · simp
  · simpa using hpre y (by simp)
  · intro x hx
    obtain ⟨z, hz, rfl⟩ := List.mem_map.1 hx
    simpa using hpre z (by simp [hz])

theorem reaches_of_mem_inside {x : ScopeId × ScopeKind} (h : x ∈ t.inside root s) :
    ∃ y, Reaches root (t.chain s) y ∧ y.id = x.1 := by
  rw [inside, links, List.takeWhile_map] at h
  obtain ⟨y, hy, rfl⟩ := List.mem_map.1 h
  obtain ⟨pre, rest, hpre⟩ := List.append_of_mem hy
  refine ⟨y, ⟨pre, rest ++ (t.chain s).dropWhile ((·.1 != root) ∘ fun x => (x.id, x.kind)), ?_,
    fun z hz => ?_⟩, rfl⟩
  · rw [← List.cons_append, ← List.append_assoc, ← hpre, List.takeWhile_append_dropWhile]
  · have : z ∈ pre ++ y :: rest := by
      rcases List.mem_append.1 hz with hz | hz
      · simp [hz]
      · simp [List.mem_singleton.1 hz]
    rw [← hpre] at this
    simpa using List.all_eq_true.1 List.all_takeWhile z this

/-- Where a deferred expression is lowered: next to its scope. -/
theorem Reaches.parent (ht : t.WellFormed) {y : Scope} (h : Reaches root (t.chain s) y) :
    ((y.parent.getD y.id).index < t.scopes.size) ∧
      ∀ x ∈ t.inside root (y.parent.getD y.id), x ∈ t.inside root s := by
  have hmem : y ∈ t.chain s := by
    obtain ⟨pre, rest, hl, -⟩ := h
    simp [hl]
  have hy := ht.scope?_of_mem hmem
  have hsize : y.id.index < t.scopes.size := (Array.getElem?_eq_some_iff.1 hy).1
  obtain ⟨pre, rest, hl, hpre⟩ := h
  have hall : ∀ x ∈ (y :: rest).map (fun z => (z.id, z.kind)) |>.takeWhile (·.1 != root),
      x ∈ t.inside root s := by
    intro x hx
    rw [inside, links, hl, List.map_append, List.takeWhile_append_of_pos]
    · exact List.mem_append_right _ hx
    · intro x hx
      obtain ⟨z, hz, rfl⟩ := List.mem_map.1 hx
      simpa using hpre z (by simp [hz])
  have hc := ht.chain_of_append hl
  cases hp : y.parent with
  | none =>
    refine ⟨hsize, fun x hx => hall x ?_⟩
    rw [← hc]
    exact hx
  | some p =>
    have hlt := ht.parent _ y hy p hp
    refine ⟨by simp; omega, fun x hx => hall x ?_⟩
    have hyr : y.id ≠ root := hpre y (by simp)
    have : rest = t.chain p := by
      have := ht.chain_eq hy
      rw [hc, hp] at this
      exact (List.cons.inj this).2
    rw [this, List.map_cons, List.takeWhile_cons_of_pos (by simpa using hyr)]
    exact List.mem_cons_of_mem _ hx

/-- The scope that a jump leads to lies inside `root`, if the jump does not leave it. -/
theorem WellFormed.mem_inside (ht : t.WellFormed) (hne : d ≠ root)
    (hchain : ∃ x ∈ t.chain s, x.id = d) (hleaves : t.leaves root s (some d) = false) {z : Scope}
    (hz : t.scope? d = some z) : (d, z.kind) ∈ t.inside root s := by
  obtain ⟨x, hx, rfl⟩ := hchain
  obtain ⟨y, hy, hyx⟩ := reaches_of_leavesIn hleaves hx rfl hne
  have hmem : y ∈ t.chain s := by
    obtain ⟨pre, rest, hl, -⟩ := hy
    simp [hl]
  rw [← hyx, ht.scope?_of_mem hmem] at hz
  cases hz
  exact hyx ▸ hy.mem_inside

/-! ### Scopes inside others -/

/-- One scope lies inside another one, without `root` between them. -/
def Under (t : ScopeTree) (root scope inner : ScopeId) : Prop :=
  ∃ new, t.links inner = new ++ t.links scope ∧ ∀ x ∈ new, x.1 ≠ root

namespace Under

variable {scope inner : ScopeId}

theorem refl (t : ScopeTree) (root scope : ScopeId) : t.Under root scope scope := ⟨[], rfl, nofun⟩

theorem trans {a b c : ScopeId} (h : t.Under root a b) (h' : t.Under root b c) :
    t.Under root a c := by
  obtain ⟨new, hl, hn⟩ := h
  obtain ⟨new', hl', hn'⟩ := h'
  refine ⟨new' ++ new, by rw [hl', hl, List.append_assoc], fun x hx => ?_⟩
  exact (List.mem_append.1 hx).elim (hn' x) (hn x)

theorem grows (h : t.Under root scope inner) (hs : scope.index < t.scopes.size)
    (hi : inner.index < t.scopes.size) (hg : t.Grows t') : t'.Under root scope inner := by
  obtain ⟨new, hl, hn⟩ := h
  exact ⟨new, by rw [hg.links_eq hi, hg.links_eq hs, hl], hn⟩

/-- The way from a scope to one around it does not leave `root`. -/
theorem leaves_eq_false (ht : t.WellFormed) (h : t.Under root scope inner)
    (hs : scope.index < t.scopes.size) : t.leaves root inner (some scope) = false := by
  obtain ⟨new, hl, hn⟩ := h
  obtain ⟨x, hx⟩ : ∃ x, t.scope? scope = some x := ⟨_, Array.getElem?_eq_getElem hs⟩
  rw [links, links, ht.chain_eq hx, List.map_cons, ht.id _ x hx] at hl
  exact leavesIn_eq_false hn hl

end Under

/-- A scope that has just been opened lies inside its parent. -/
theorem under_openUnder {p : ScopeId} (hp : p.index < t.scopes.size)
    (hroot : root.index < t.scopes.size) (kind : ScopeKind) :
    (t.openUnder p kind).2.Under root p ⟨t.scopes.size⟩ := by
  refine ⟨[(⟨t.scopes.size⟩, kind)], ?_, fun x hx h => ?_⟩
  · rw [(grows_openUnder p kind).links_eq hp]
    exact links_openUnder hp
  · rw [List.mem_singleton.1 hx] at h
    have := congrArg ScopeId.index h
    exact absurd hroot (this ▸ Nat.lt_irrefl _)

/-! ### What is deferred on a way -/

/-- The deferred expressions that a jump passes are a matter of handles and kinds. -/
theorem defersIn_congr {l' : List Scope}
    (h : l.map (fun x => (x.id, x.kind)) = l'.map (fun x => (x.id, x.kind))) :
    defersIn target l = defersIn target l' := by
  induction l generalizing l' with
  | nil => rw [List.map_eq_nil_iff.1 h.symm]
  | cons x outer ih =>
    cases l' with
    | nil => cases h
    | cons y outer' =>
      obtain ⟨hxy, h⟩ := List.cons.inj h
      obtain ⟨hid, hkind⟩ := Prod.mk.inj hxy
      rw [defersIn, defersIn, hid, hkind, ih h]

/-- Growth does not change what is deferred on the way out of a scope that is there. -/
theorem Grows.defersUntil_eq (h : t.Grows t') (hs : s.index < t.scopes.size) :
    t'.defersUntil s target = t.defersUntil s target :=
  defersIn_congr (h.links_eq hs)

/-- Nothing is deferred between a scope and itself. -/
theorem defersUntil_self (ht : t.WellFormed) (hs : s.index < t.scopes.size) :
    t.defersUntil s (some s) = [] := by
  obtain ⟨x, hx⟩ : ∃ x, t.scope? s = some x := ⟨_, Array.getElem?_eq_getElem hs⟩
  rw [defersUntil, ht.chain_eq hx, defersIn, if_pos (by rw [ht.id _ x hx])]

/-- What has just been deferred comes first on the way out. -/
theorem defersUntil_openUnder {p : ScopeId} {kind : DeferKind} (hp : p.index < t.scopes.size)
    (hne : some ⟨t.scopes.size⟩ ≠ target) :
    (t.openUnder p (.deferred kind)).2.defersUntil ⟨t.scopes.size⟩ target =
      (⟨t.scopes.size⟩, kind) :: t.defersUntil p target := by
  have hlinks : (t.openUnder p (.deferred kind)).2.links ⟨t.scopes.size⟩ =
      (⟨t.scopes.size⟩, .deferred kind) :: t.links p := links_openUnder hp
  rw [links, links] at hlinks
  rw [defersUntil, defersUntil]
  cases hc : (t.openUnder p (.deferred kind)).2.chain ⟨t.scopes.size⟩ with
  | nil =>
    rw [hc] at hlinks
    cases hlinks
  | cons x outer =>
    rw [hc, List.map_cons] at hlinks
    obtain ⟨hx, hrest⟩ := List.cons.inj hlinks
    obtain ⟨hid, hkind⟩ := Prod.mk.inj hx
    rw [defersIn, hid, if_neg hne, hkind, defersIn_congr hrest]

end SourceIr.ScopeTree
