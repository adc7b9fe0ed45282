import SourceIr.Proofs.Layout.Site

/-!
# Variables at a site

In the middle of a lowering, every variable of the stream has been declared, once, above the uses
that there are already; so have the variables of the streams around that are in sight.

* `Site.Ready`, the variables that may be used in a block;
* `Site.Bound`, what holds of the variables, and `Site.Good`, together with what holds of the
  blocks;
* `Bound.mono`, `Bound.withNext`, `Bound.declaring` and `Bound.withChild`, the steps;
* `Site.Good` while a stream grows.
-/

namespace SourceIr.Lower

open SourceIr.Stream

namespace Site

variable {w w' w₁ : Site} {b : BlockId} {v : VarId} {scope : ScopeId} {n : Nat}

/-- A variable of a stream around, which is in sight from the root of the stream. -/
def Foreign (w : Site) (v : VarId) : Prop :=
  v.index < w.base ∧ ∃ x, w.state.scopes.var? v = some x ∧
    w.state.scopes.OnChain x.scope w.state.streamRoot

/-- A variable may be used in a block by an instruction at a position: it belongs to a stream
around, or its declaration comes before, in a block above. -/
def Ready (w : Site) (b : BlockId) (n : Nat) (v : VarId) : Prop :=
  w.Foreign v ∨ ∃ i x, i.index < n ∧ w.state.stream.inst? i = some x ∧
    x.kind.declares? = some v ∧ w.Above x.block b

/-- What holds of the variables in the middle of a lowering. -/
structure Bound (w : Site) : Prop where
  recorded : w.state.scopes.Recorded
  base_le : w.base ≤ w.state.scopes.vars.size
  outer : ∀ v x, v.index < w.base → w.state.scopes.var? v = some x →
    x.scope.index < w.state.streamRoot.index
  nodup : w.state.stream.declared.Nodup
  mem_declared : ∀ v, v ∈ w.state.stream.declared ↔
    w.base ≤ v.index ∧ v.index < w.state.scopes.vars.size
  placed : ∀ d ∈ w.state.stream.decls, ∀ x, w.state.scopes.var? d.1 = some x → x.scope = d.2
  waits : ∀ i v, w.state.stream.Declares i v → ∀ x, w.state.scopes.var? v = some x →
    ∀ p, x.comptime = .pending p → p.index < i.index
  uses : ∀ j x v, w.state.stream.inst? j = some x → w.state.stream.Uses j v →
    w.Ready x.block j.index v
  evaluates : ∀ j k, w.state.stream.Evaluates j k → k < w.state.stream.children.length
  bound : ∀ c ∈ w.state.stream.children, ∀ t, PartOf t c → t.Binds w.state.scopes.vars

/-- What holds in the middle of a lowering. -/
structure Good (w : Site) : Prop extends Shape w, Bound w where
  evaluated : ∀ k, k < w.state.stream.children.length → ∃ j, w.state.stream.Evaluates j k

theorem Foreign.mono (h : w.Foreign v) (hbase : w'.base = w.base)
    (hroot : w'.state.streamRoot = w.state.streamRoot)
    (hscopes : w.state.scopes.Grows w'.state.scopes)
    (hvars : ∀ (i : Nat) (x : Variable), w.state.scopes.vars[i]? = some x →
      w'.state.scopes.vars[i]? = some x) : w'.Foreign v := by
  obtain ⟨hlt, x, hx, hon⟩ := h
  have hrootlt : w.state.streamRoot.index < w.state.scopes.scopes.size := by
    obtain ⟨y, hy, -⟩ := hon
    exact ScopeTree.lt_of_mem_chain hy
  exact ⟨hbase ▸ hlt, x, hvars _ x hx, hroot ▸ (hscopes.onChain_iff hrootlt).2 hon⟩

theorem Ready.ext (h : w.Ready b n v) (e : Ext w w') : w'.Ready b n v := by
  rcases h with h | ⟨i, x, hi, hx, hk, hab⟩
  · exact .inl (h.mono e.base e.root e.scopes e.vars)
  · exact .inr ⟨i, x, hi, e.stream.inst i x hx, hk, hab.ext e⟩

namespace Bound

/-- A variable that is declared in the stream is there. -/
theorem exists_var (h : w.Bound) {d : VarId × ScopeId} (hd : d ∈ w.state.stream.decls) :
    ∃ x, w.state.scopes.var? d.1 = some x ∧ x.scope = d.2 := by
  have hlt := ((h.mem_declared d.1).1 (List.mem_map_of_mem hd)).2
  have hx := Array.getElem?_eq_getElem hlt
  exact ⟨_, hx, h.placed d hd _ hx⟩

theorem scope_lt (h : w.Bound) {d : VarId × ScopeId} (hd : d ∈ w.state.stream.decls) :
    d.2.index < w.state.scopes.scopes.size := by
  obtain ⟨x, hx, hs⟩ := h.exists_var hd
  exact hs ▸ (h.recorded.var_of_mem (Array.mem_of_getElem? hx)).2

theorem scope_lt_of_inst (h : w.Bound) {i : InstId} {x : Inst}
    (hx : w.state.stream.inst? i = some x) (hk : x.kind.declares?.isSome) :
    x.scope.index < w.state.scopes.scopes.size := by
  obtain ⟨v, hv⟩ := Option.isSome_iff_exists.1 hk
  exact h.scope_lt (d := (v, x.scope)) (mem_decls.2 (.inl (mem_ownDecls.2 ⟨i, x, hx, hv, rfl⟩)))

/-- What an instruction led to before may still be used there. -/
theorem ready_of_uses (h : w.Bound) (e : Ext w w') {j : InstId} {x : Inst}
    (hj : w.state.stream.Uses j v) (hx : w'.state.stream.inst? j = some x) :
    w'.Ready x.block j.index v := by
  obtain ⟨y, hy⟩ := hj.exists_inst
  obtain rfl := Option.some.inj ((e.stream.inst j y hy).symm.trans hx)
  exact (h.uses j y v hy hj).ext e

/-- A change that adds neither instructions nor streams nor variables. -/
theorem mono (h : w.Bound) (e : Ext w w') (hinsts : w'.state.stream.insts = w.state.stream.insts)
    (hchildren : w'.state.stream.children = w.state.stream.children)
    (hvars : w'.state.scopes.vars = w.state.scopes.vars)
    (hrecorded : w'.state.scopes.Recorded) : w'.Bound := by
  have hvar : ∀ v, w'.state.scopes.var? v = w.state.scopes.var? v := fun v => by
    rw [ScopeTree.var?, ScopeTree.var?, hvars]
  have hdecls := decls_congr hinsts hchildren
  have hdeclared : w'.state.stream.declared = w.state.stream.declared :=
    congrArg (List.map Prod.fst) hdecls
  have hinst : ∀ i, w'.state.stream.inst? i = w.state.stream.inst? i := fun i => by
    rw [inst?, inst?, hinsts]
  refine ⟨hrecorded, ?_, fun v x hv hx => ?_, hdeclared ▸ h.nodup, fun v => ?_, fun d hd x hx => ?_,
    fun i v hi x hx => ?_, fun j x v hx hj => ?_, fun j k hj => ?_, fun c hc t ht => ?_⟩
  · rw [e.base, hvars]
    exact h.base_le
  · rw [e.root]
    exact h.outer v x (e.base ▸ hv) (hvar v ▸ hx)
  · rw [hdeclared, e.base, hvars]
    exact h.mem_declared v
  · exact h.placed d (hdecls ▸ hd) x (hvar d.1 ▸ hx)
  · refine h.waits i v ?_ x (hvar v ▸ hx)
    rw [declares_iff] at hi ⊢
    simpa only [hinst] using hi
  · exact h.ready_of_uses e ((uses_congr hinsts hchildren).1 hj) hx
  · rw [hchildren]
    refine h.evaluates j k ?_
    simpa only [Evaluates, hinst] using hj
  · rw [hvars]
    exact h.bound c (hchildren ▸ hc) t ht

section Emit

variable {kind : InstKind} {location : Option Location} {isComptime isGen : Bool}
  {log : Array Event}

/-- An instruction that declares nothing, and leads to variables that may be used. -/
theorem withNext (h : w.Bound) (hd : kind.declares? = none)
    (hready : ∀ v, (kind = .varPtr v ∨ ∃ k c, kind = .comptimeBlock k ∧
      w.state.stream.children[k]? = some c ∧ c.Mentions v ∧ v ∉ c.declared) →
      w.Ready w.current w.state.stream.insts.size v)
    (heval : ∀ k, kind = .comptimeBlock k → k < w.state.stream.children.length) :
    (w.withNext kind scope location isComptime isGen log).Bound := by
  have e : Ext w (w.withNext kind scope location isComptime isGen log) := ext_withNext
  have hperm : (w.state.stream.withNext kind scope location isComptime isGen).decls.Perm
      ((kind.declares?.map (·, scope)).toList ++ w.state.stream.decls) := decls_withNext
  rw [hd] at hperm
  have hdeclared := hperm.map Prod.fst
  refine ⟨h.recorded, h.base_le, h.outer, hdeclared.nodup_iff.2 h.nodup,
    fun v => hdeclared.mem_iff.trans (h.mem_declared v),
    fun d hd => h.placed d (hperm.mem_iff.1 hd), fun i v hi => ?_, fun j x v hx hj => ?_,
    fun j k hj => ?_, h.bound⟩
  · refine h.waits i v ((declares_withNext.1 hi).resolve_right fun hnew => ?_)
    rw [hd] at hnew
    cases hnew.2
  · rcases uses_withNext hj with hj | ⟨hj, hlead⟩
    · exact h.ready_of_uses e hj hx
    · have hx : (w.state.stream.withNext kind scope location isComptime isGen).inst? j = some x :=
        hx
      rw [inst?_withNext, if_pos hj] at hx
      obtain rfl := Option.some.inj hx
      exact hj ▸ (hready v hlead).ext e
  · rcases evaluates_withNext.1 hj with hj | ⟨-, hkind⟩
    · exact h.evaluates j k hj
    · exact heval k hkind

end Emit

/-! ### Declaring a variable -/

section Declare

variable {r : BindingRequest} {ptr : InstId} {location : Option Location} {isComptime isGen : Bool}
  {log : Array Event}

theorem var?_addVar {t : ScopeTree} {u : VarId} (hu : u.index < t.vars.size) :
    (t.addVar scope r).2.var? u = t.var? u := by
  simp [ScopeTree.var?, ScopeTree.addVar, Array.getElem?_push, Nat.ne_of_lt hu]

theorem vars_addVar {t : ScopeTree} (i : Nat) (x : Variable) (hx : t.vars[i]? = some x) :
    (t.addVar scope r).2.vars[i]? = some x := by
  have hlt := (Array.getElem?_eq_some_iff.1 hx).1
  exact (var?_addVar (u := ⟨i⟩) hlt).trans hx

end Declare

end Bound

/-- The site after a variable was declared in a scope. -/
def withVar (w : Site) (scope : ScopeId) (r : BindingRequest) : Site :=
  w.withScopes (w.state.scopes.addVar scope r).2

theorem ext_withVar {r : BindingRequest} : Ext w (w.withVar scope r) :=
  ext_withScopes (ScopeTree.grows_addVar scope r) Bound.vars_addVar

/-- A variable is declared together with the instruction that binds it to its storage.  What it
waits for has been computed. -/
theorem Bound.declaring (h : w.Bound) {r : BindingRequest} {ptr : InstId}
    {location : Option Location} {isComptime isGen : Bool} {log : Array Event}
    (hs : scope.index < w.state.scopes.scopes.size)
    (hr : ∀ p, r.comptime = .pending p → p.index < w.state.stream.insts.size) :
    ((w.withVar scope r).withNext (.declVar ⟨w.state.scopes.vars.size⟩ ptr) scope location
      isComptime isGen log).Bound := by
  let v : VarId := ⟨w.state.scopes.vars.size⟩
  have e : Ext w ((w.withVar scope r).withNext (.declVar v ptr) scope location isComptime isGen
      log) := ext_withVar.trans ext_withNext
  have hperm : (w.state.stream.withNext (.declVar v ptr) scope location isComptime
      isGen).decls.Perm ((v, scope) :: w.state.stream.decls) := decls_withNext
  have hmem : ∀ d, d ∈ (w.state.stream.withNext (.declVar v ptr) scope location isComptime
      isGen).decls ↔ d = (v, scope) ∨ d ∈ w.state.stream.decls := fun d =>
    hperm.mem_iff.trans List.mem_cons
  have hdeclared := hperm.map Prod.fst
  have hnew : v ∉ w.state.stream.declared := fun hv =>
    Nat.lt_irrefl _ ((h.mem_declared v).1 hv).2
  have hsize : (w.state.scopes.addVar scope r).2.vars.size = w.state.scopes.vars.size + 1 := by
    simp [ScopeTree.addVar]
  have hv : (w.state.scopes.addVar scope r).2.var? v = some { r with id := v, scope := scope } := by
    simp [ScopeTree.var?, ScopeTree.addVar, v]
  refine ⟨h.recorded.addVar hs r, ?_, fun u x hu hx => ?_,
    hdeclared.nodup_iff.2 (List.nodup_cons.2 ⟨hnew, h.nodup⟩),
    fun u => hdeclared.mem_iff.trans (List.mem_cons.trans ?_), fun d hd x hx => ?_,
    fun i u hi x hx p hp => ?_, fun j x u hx hj => ?_, fun j k hj => ?_, fun c hc t ht => ?_⟩
  · exact Nat.le_trans h.base_le (hsize ▸ Nat.le_succ _)
  · exact h.outer u x hu ((var?_addVar (Nat.lt_of_lt_of_le hu h.base_le)).symm.trans hx)
  · change u = v ∨ u ∈ w.state.stream.declared ↔ w.base ≤ u.index ∧
      u.index < (w.state.scopes.addVar scope r).2.vars.size
    rw [h.mem_declared u, hsize]
    have hbase := h.base_le
    constructor
    · rintro (rfl | ⟨hle, hlt⟩)
      · exact ⟨hbase, Nat.lt_succ_self _⟩
      · exact ⟨hle, Nat.lt_succ_of_lt hlt⟩
    · rintro ⟨hle, hlt⟩
      rcases Nat.lt_succ_iff_lt_or_eq.1 hlt with hlt | heq
      · exact .inr ⟨hle, hlt⟩
      · exact .inl (congrArg VarId.mk heq)
  · rcases (hmem d).1 hd with rfl | hd
    · obtain rfl := Option.some.inj (hv.symm.trans hx)
      rfl
    · have hlt := ((h.mem_declared d.1).1 (List.mem_map_of_mem hd)).2
      exact h.placed d hd x ((var?_addVar hlt).symm.trans hx)
  · rcases declares_withNext.1 hi with hold | ⟨hlast, hkind⟩
    · have hlt := ((h.mem_declared u).1 hold.mem_declared).2
      exact h.waits i u hold x ((var?_addVar hlt).symm.trans hx) p hp
    · -- The new variable.
      obtain rfl := Option.some.inj hkind
      obtain rfl := Option.some.inj (hv.symm.trans hx)
      exact hlast ▸ hr p hp
  · rcases uses_withNext hj with hj | ⟨-, hkind | ⟨k, c, hkind, -⟩⟩
    · exact h.ready_of_uses e hj hx
    · cases hkind
    · cases hkind
  · rcases evaluates_withNext.1 hj with hj | ⟨-, hkind⟩
    · exact h.evaluates j k hj
    · cases hkind
  · refine (h.bound c hc t ht).mono (fun u hu => ?_) vars_addVar
    have hpart : PartOf t w.state.stream := .child hc ht
    exact ((h.mem_declared u).1 (hpart.declared_sublist.subset hu)).2

/-! ### Streams inside -/

/-- The variables that a stream mentions are its own, or may be used in it. -/
theorem Good.ready_of_mentions (hw : w.Good) (h : w.state.stream.Mentions v) :
    w.Foreign v ∨ v ∈ w.state.stream.declared := by
  -- What an instruction of the stream itself leads to.
  have used : ∀ j, w.state.stream.Uses j v → w.Foreign v ∨ v ∈ w.state.stream.declared := by
    intro j hj
    obtain ⟨x, hx⟩ := hj.exists_inst
    rcases hw.uses j x v hx hj with hf | ⟨i, y, -, hy, hk, -⟩
    · exact .inl hf
    · exact .inr (declares_iff.2 ⟨y, hy, hk⟩).mem_declared
  obtain ⟨q, j, hq, hj⟩ := h
  cases hq with
  | self => exact used j (.inl hj)
  | @child c _ hc hqc =>
    by_cases hv : v ∈ c.declared
    · exact .inr ((PartOf.child hc (.self c)).declared_sublist.subset hv)
    · obtain ⟨k, hk⟩ := List.mem_iff_getElem?.1 hc
      obtain ⟨e, he⟩ := hw.evaluated k (List.getElem?_eq_some_iff.1 hk).1
      exact used e (.inr ⟨k, c, he, hk, ⟨q, j, hqc, hj⟩, hv⟩)

/-- What a stream declares is declared above its uses, on every path. -/
theorem Good.binds (hw : w.Good) : w.state.stream.Binds w.state.scopes.vars where
  uses j v hj hv := by
    obtain ⟨x, hx⟩ := hj.exists_inst
    rcases hw.uses j x v hx hj with hf | ⟨i, y, hij, hy, hk, hab⟩
    · exact absurd ((hw.mem_declared v).1 hv).1 (Nat.not_le_of_gt hf.1)
    · have hi := hw.laid.coherent.lists_iff.2 ⟨y, hy, rfl⟩
      have hj := hw.laid.coherent.lists_iff.2 ⟨x, hx, rfl⟩
      refine ⟨i, declares_iff.2 ⟨y, hy, hk⟩, hij, y.block, x.block, hi, hj, ?_⟩
      by_cases heq : y.block = x.block
      · exact .inl ⟨heq, hw.laid.precedes (heq ▸ hi) hj hij⟩
      · exact .inr ⟨heq, hw.laid.dominates hab⟩
  evaluated := hw.evaluated
  waits i v hi x hx := hw.waits i v hi x hx

/-- All streams inside declare their variables before their uses. -/
theorem Good.binds_parts (hw : w.Good) :
    ∀ t, PartOf t w.state.stream → t.Binds w.state.scopes.vars := by
  intro t ht
  cases ht with
  | self => exact hw.binds
  | child hc ht => exact hw.bound _ hc t ht

/-- The variables after a child stream is done. -/
theorem Bound.withChild (h : w.Bound) (h₁ : w₁.Good) {log : Array Event}
    (hbase : w₁.base = w.state.scopes.vars.size)
    (hscopes : w.state.scopes.Grows w₁.state.scopes)
    (hvars : ∀ (i : Nat) (x : Variable), w.state.scopes.vars[i]? = some x →
      w₁.state.scopes.vars[i]? = some x) : (w.withChild w₁.state log).Bound := by
  have e : Ext w (w.withChild w₁.state log) := ext_withChild hscopes hvars
  have hvar : ∀ {u : VarId}, u.index < w.state.scopes.vars.size →
      w₁.state.scopes.var? u = w.state.scopes.var? u := fun hu =>
    (hvars _ _ (Array.getElem?_eq_getElem hu)).trans (Array.getElem?_eq_getElem hu).symm
  have hle : w.state.scopes.vars.size ≤ w₁.state.scopes.vars.size := hbase ▸ h₁.base_le
  have hinst : ∀ i, (w.withChild w₁.state log).state.stream.inst? i = w.state.stream.inst? i :=
    fun i => by
      rw [Site.withChild, addChild_eq]
      rfl
  have hchildren : (w.withChild w₁.state log).state.stream.children =
      w.state.stream.children ++ [w₁.state.stream] := by
    rw [Site.withChild, addChild_eq]
  have hdecls : (w.withChild w₁.state log).state.stream.decls =
      w.state.stream.decls ++ w₁.state.stream.decls := decls_addChild
  have hdeclared : (w.withChild w₁.state log).state.stream.declared =
      w.state.stream.declared ++ w₁.state.stream.declared := by
    rw [declared, hdecls, List.map_append]
    rfl
  refine ⟨h₁.recorded, Nat.le_trans h.base_le hle, fun v x hv hx => ?_, ?_, fun v => ?_,
    fun d hd x hx => ?_, fun i v hi x hx => ?_, fun j x v hx hj => ?_, fun j k hj => ?_,
    fun c hc t ht => ?_⟩
  · exact h.outer v x hv ((hvar (Nat.lt_of_lt_of_le hv h.base_le)).symm.trans hx)
  · rw [hdeclared]
    refine List.nodup_append.2 ⟨h.nodup, h₁.nodup, fun a ha b hb heq => ?_⟩
    have := ((h.mem_declared a).1 ha).2
    have := ((h₁.mem_declared b).1 hb).1
    rw [heq] at *
    omega
  · rw [hdeclared, List.mem_append, h.mem_declared, h₁.mem_declared, hbase]
    have := h.base_le
    change _ ↔ w.base ≤ v.index ∧ v.index < w₁.state.scopes.vars.size
    omega
  · rw [hdecls] at hd
    rcases List.mem_append.1 hd with hd | hd
    · have hlt := ((h.mem_declared d.1).1 (List.mem_map_of_mem hd)).2
      exact h.placed d hd x ((hvar hlt).symm.trans hx)
    · exact h₁.placed d hd x hx
  · have hi : w.state.stream.Declares i v := by
      rw [declares_iff] at hi ⊢
      simpa only [hinst] using hi
    have hlt := ((h.mem_declared v).1 hi.mem_declared).2
    exact h.waits i v hi x ((hvar hlt).symm.trans hx)
  · -- The new stream is not evaluated yet.
    have hj : w.state.stream.Uses j v := by
      rcases hj with hj | ⟨k, c, hj, hk, hc⟩
      · exact .inl (by simpa only [RefersTo, hinst] using hj)
      · have hj : w.state.stream.Evaluates j k := by simpa only [Evaluates, hinst] using hj
        rw [hchildren, List.getElem?_append_left (h.evaluates j k hj)] at hk
        exact .inr ⟨k, c, hj, hk, hc⟩
    exact h.ready_of_uses e hj hx
  · rw [hchildren, List.length_append]
    exact Nat.lt_of_lt_of_le (h.evaluates j k (by simpa only [Evaluates, hinst] using hj))
      (Nat.le_add_right _ _)
  · rw [hchildren] at hc
    rcases List.mem_append.1 hc with hc | hc
    · refine (h.bound c hc t ht).mono (fun u hu => ?_) hvars
      have hpart : PartOf t w.state.stream := .child hc ht
      exact ((h.mem_declared u).1 (hpart.declared_sublist.subset hu)).2
    · rw [List.mem_singleton.1 hc] at ht
      exact h₁.binds_parts t ht

/-! ### Variables in sight -/

/-- A variable of a scope around may be used where code may be lowered. -/
theorem Good.ready (hw : w.Good) (hs : w.In b scope) {x : Variable}
    (hx : w.state.scopes.var? v = some x) (hon : w.state.scopes.OnChain x.scope scope) :
    w.Ready b w.state.stream.insts.size v := by
  by_cases hv : v.index < w.base
  · exact .inl ⟨hv, x, hx, hw.scopes.onChain_of_lt hon hs.rooted (hw.outer v x hv hx)⟩
  · have hlt := (Array.getElem?_eq_some_iff.1 hx).1
    obtain ⟨q, hq⟩ := mem_declared.1 ((hw.mem_declared v).2 ⟨Nat.le_of_not_lt hv, hlt⟩)
    obtain rfl := hw.placed _ hq x hx
    have haround := hw.scopes.around hon
    rcases mem_decls.1 hq with hown | ⟨c, hc, hd⟩
    · obtain ⟨i, y, hy, hk, hys⟩ := mem_ownDecls.1 hown
      refine .inr ⟨i, y, (Array.getElem?_eq_some_iff.1 hy).1, hy, hk, ?_⟩
      exact hs.declared i y hy (by rw [hk]; rfl) (by rwa [hys])
    · exact absurd haround (hs.apart c hc _ hd)

/-- A variable that a name leads to may be used. -/
theorem Good.ready_of_lookup (hw : w.Good) (hs : w.In b scope) {name : String} {table : DeclTable}
    (h : w.state.scopes.lookup scope name table = some (.var v)) :
    w.Ready b w.state.stream.insts.size v := by
  obtain ⟨x, hx, hon⟩ := hw.recorded.onChain_of_lookup h
  exact hw.ready hs hx hon

/-- What a child stream takes from around may be used where the stream is evaluated. -/
theorem Good.ready_of_foreign (hw : w.Good) (hs : w.In b scope) (e : Ext w w') (h₁ : w₁.Good)
    (hbase : w₁.base = w.state.scopes.vars.size) (hscopes : w₁.state.scopes = w'.state.scopes)
    (hroot : w₁.state.streamRoot.index < w.state.scopes.scopes.size)
    (hparent : ∀ q, w.state.scopes.OnChain q w₁.state.streamRoot → q ≠ w₁.state.streamRoot →
      w.state.scopes.OnChain q scope) (hv : w₁.Foreign v) :
    w'.Ready b w.state.stream.insts.size v := by
  obtain ⟨hlt, x, hx, hon⟩ := hv
  have hold := Array.getElem?_eq_getElem (hbase ▸ hlt)
  have hx' : w.state.scopes.var? v = some x := by
    rw [hscopes] at hx
    obtain rfl := Option.some.inj ((e.vars _ _ hold).symm.trans hx)
    exact hold
  have hne : x.scope ≠ w₁.state.streamRoot := fun heq =>
    Nat.lt_irrefl _ (heq ▸ h₁.outer v x hlt hx)
  rw [hscopes, e.scopes.onChain_iff hroot] at hon
  exact (hw.ready hs hx' (hparent _ hon hne)).ext e

/-! ### The steps -/

section Steps

variable {kind : ScopeKind} {loc : ResultLoc} {t c : BlockId}

/-- A change that adds neither instructions nor streams nor variables. -/
theorem Good.mono (hw : w.Good) (hshape : w'.Shape) (e : Ext w w')
    (hinsts : w'.state.stream.insts = w.state.stream.insts)
    (hchildren : w'.state.stream.children = w.state.stream.children)
    (hvars : w'.state.scopes.vars = w.state.scopes.vars)
    (hrecorded : w'.state.scopes.Recorded) : w'.Good where
  toShape := hshape
  toBound := hw.toBound.mono e hinsts hchildren hvars hrecorded
  evaluated k hk := by
    obtain ⟨j, x, hx, hkind⟩ := hw.evaluated k (hchildren ▸ hk)
    exact ⟨j, x, e.stream.inst j x hx, hkind⟩

theorem exists_evaluates_withNext {kind : InstKind} {location : Option Location}
    {isComptime isGen : Bool} {log : Array Event} {k : Nat}
    (h : ∃ j, w.state.stream.Evaluates j k) :
    ∃ j, (w.withNext kind scope location isComptime isGen log).state.stream.Evaluates j k :=
  h.imp fun _ hj => evaluates_withNext.2 (.inl hj)

/-- An instruction that has nothing to do with variables. -/
theorem Good.withNext (hw : w.Good) {kind : InstKind} {location : Option Location}
    {isComptime isGen : Bool} {log : Array Event} (hkind : kind.concernsVars = false)
    (ht : ∀ t ∈ kind.targets, w.Target w.current t)
    (hr : w.state.stream.Readable w.parent w.current kind) :
    (w.withNext kind scope location isComptime isGen log).Good where
  toShape := hw.toShape.withNext ht hr
  toBound := by
    refine hw.toBound.withNext ?_ ?_ ?_
    · cases kind <;> first | rfl | cases hkind
    · rintro v (rfl | ⟨k, c, rfl, -⟩) <;> cases hkind
    · rintro k rfl
      cases hkind
  evaluated k hk := exists_evaluates_withNext (hw.evaluated k hk)

/-- A reference to a variable that a name leads to. -/
theorem Good.withRef (hw : w.Good) (hs : w.In w.current scope) {name : String} {table : DeclTable}
    {location : Option Location} {isComptime isGen : Bool} {log : Array Event}
    (h : w.state.scopes.lookup scope name table = some (.var v)) :
    (w.withNext (.varPtr v) scope location isComptime isGen log).Good where
  toShape := hw.toShape.withNext nofun nofun
  toBound := by
    refine hw.toBound.withNext rfl ?_ nofun
    rintro u (hu | ⟨k, c, hk, -⟩)
    · cases hu
      exact hw.ready_of_lookup hs h
    · cases hk
  evaluated k hk := exists_evaluates_withNext (hw.evaluated k hk)

theorem Good.withBlock (hw : w.Good) {name : String} {q : Option BlockId} :
    (w.withBlock name q).Good :=
  hw.mono hw.toShape.withBlock hw.ext_withBlock rfl rfl rfl hw.recorded

theorem Good.adopt (hw : w.Good) (hb : w.pending t) (h : w.parent t = none) :
    (w.adopt t c).Good :=
  hw.mono (hw.toShape.adopt hb h) (ext_adopt h) rfl rfl rfl hw.recorded

theorem Good.goto (hw : w.Good) (hends : w.state.stream.Ends w.current) (ht : w.pending t) :
    (w.goto t).Good :=
  hw.mono (hw.toShape.goto hends ht) ext_goto rfl rfl rfl hw.recorded

theorem Good.quiet (hw : w.Good) {state : State} (h : Quiet w.state state) :
    Good { w with state } ∧ Ext w { w with state } := by
  have hshape := hw.toShape.quiet h
  refine ⟨hw.mono hshape.1 hshape.2 ?_ ?_ ?_ ?_, hshape.2⟩
  · exact congrArg Stream.insts h.stream
  · exact congrArg Stream.children h.stream
  · exact congrArg ScopeTree.vars h.scopes
  · change state.scopes.Recorded
    rw [h.scopes]
    exact hw.recorded

theorem Good.addWarning (hw : w.Good) (m : Message) :
    Good { w with state := { w.state with stream := w.state.stream.addWarning m } } :=
  hw.mono (hw.toShape.addWarning m) (ext_addWarning m) rfl rfl rfl hw.recorded

/-- The site after a scope was opened. -/
def withScope (w : Site) (scope : ScopeId) (kind : ScopeKind) : Site :=
  w.withScopes (w.state.scopes.openUnder scope kind).2

theorem ext_withScope : Ext w (w.withScope scope kind) :=
  ext_withScopes (ScopeTree.grows_openUnder scope kind) fun _ _ => id

theorem Good.withScope (hw : w.Good) (hs : scope.index < w.state.scopes.scopes.size) :
    (w.withScope scope kind).Good :=
  hw.mono (hw.toShape.withScopes (ScopeTree.grows_openUnder scope kind) (hw.scopes.openUnder hs))
    ext_withScope rfl rfl rfl (hw.recorded.openUnder hs)

theorem Good.withTarget (hw : w.Good) (hs : scope.index < w.state.scopes.scopes.size) :
    (w.withTarget scope kind loc).Good :=
  hw.mono (hw.toShape.withTarget hs) ext_withTarget rfl rfl rfl (hw.recorded.openUnder hs)

theorem Good.withSinks (hw : w.Good) {sinks : List (ScopeId × BreakSink)}
    (hl : ∀ scope sink', sinks.lookup scope = some sink' →
      ∃ sink, w.state.sinks.lookup scope = some sink ∧ sink'.resultLoc = sink.resultLoc)
    (h : ∀ entry ∈ sinks, entry.1.index < w.state.scopes.scopes.size ∧
      ∀ f ∈ entry.2.incoming, w.Avail f.1 f.2) : (w.withSinks sinks).Good :=
  hw.mono (hw.toShape.withSinks h) (ext_withSinks hl) rfl rfl rfl hw.recorded

/-- A variable is declared where code may be lowered, together with the instruction that binds it to
its storage. -/
theorem Good.declaring (hw : w.Good) {r : BindingRequest} {ptr : InstId}
    {location : Option Location} {isComptime isGen : Bool} {log : Array Event}
    (hs : scope.index < w.state.scopes.scopes.size)
    (hr : ∀ p, r.comptime = .pending p → w.Avail w.current p) (hptr : w.Avail w.current ptr) :
    ((w.withVar scope r).withNext (.declVar ⟨w.state.scopes.vars.size⟩ ptr) scope location
      isComptime isGen log).Good where
  toShape := by
    refine (hw.toShape.withScopes (ScopeTree.grows_addVar scope r)
      (hw.scopes.addVar r)).withNext nofun fun d hd => ?_
    rw [List.mem_singleton.1 hd]
    exact hptr
  toBound := hw.toBound.declaring hs fun p hp => (hr p hp).lt
  evaluated k hk := exists_evaluates_withNext (hw.evaluated k hk)

/-- A child stream is done, and the instruction that evaluates it is appended. -/
theorem Good.evaluating (hw : w.Good) (hs : w.In w.current scope) (h₁ : w₁.Good)
    {location : Option Location} {isComptime isGen : Bool} {log log' : Array Event}
    (hchild : ∀ t, PartOf t w₁.state.stream → t.Closed ∧ t.IsSSA)
    (hbase : w₁.base = w.state.scopes.vars.size)
    (hscopes : w.state.scopes.Grows w₁.state.scopes)
    (hvars : ∀ (i : Nat) (x : Variable), w.state.scopes.vars[i]? = some x →
      w₁.state.scopes.vars[i]? = some x)
    (hroot : w₁.state.streamRoot.index < w.state.scopes.scopes.size)
    (hparent : ∀ q, w.state.scopes.OnChain q w₁.state.streamRoot → q ≠ w₁.state.streamRoot →
      w.state.scopes.OnChain q scope) :
    ((w.withChild w₁.state log).withNext (.comptimeBlock w.state.stream.children.length) scope
      location isComptime isGen log').Good := by
  have e : Ext w (w.withChild w₁.state log) := ext_withChild hscopes hvars
  have hchildren : (w.withChild w₁.state log).state.stream.children =
      w.state.stream.children ++ [w₁.state.stream] := by
    rw [Site.withChild, addChild_eq]
  have hsize : (w.withChild w₁.state log).state.stream.insts.size = w.state.stream.insts.size := by
    rw [Site.withChild, addChild_eq]
  have hbound : (w.withChild w₁.state log).Bound := hw.toBound.withChild h₁ hbase hscopes hvars
  constructor
  · refine (hw.toShape.withChild hscopes h₁.scopes hchild).withNext ?_ ?_ <;> rintro _ ⟨⟩
  · refine hbound.withNext rfl ?_ ?_
    · rintro v (hv | ⟨k, c, hk, hc, hmentions, hv⟩)
      · cases hv
      cases hk
      rw [hchildren, List.getElem?_concat_length] at hc
      obtain rfl := Option.some.inj hc
      rw [hsize, current_withChild]
      exact hw.ready_of_foreign hs e h₁ hbase rfl hroot hparent
        ((h₁.ready_of_mentions hmentions).resolve_right hv)
    · intro k hk
      cases hk
      simp [hchildren]
  · intro k hk
    have hk : k < (w.withChild w₁.state log).state.stream.children.length := hk
    rw [hchildren, List.length_append] at hk
    rcases Nat.lt_succ_iff_lt_or_eq.1 hk with hk | rfl
    · obtain ⟨j, x, hx, hkind⟩ := hw.evaluated k hk
      exact ⟨j, evaluates_withNext.2 (.inl ⟨x, e.stream.inst j x hx, hkind⟩)⟩
    · exact ⟨⟨_⟩, evaluates_withNext.2 (.inr ⟨rfl, rfl⟩)⟩

/-- At the start of a stream, the variables that are there belong to the streams around. -/
theorem good_start {state : State} {name : String} {isInline : Bool}
    (hstream : state.stream = Stream.new name isInline) (hsinks : state.sinks = [])
    (hscopes : state.scopes.Recorded)
    (hroot : ∃ x, state.scopes.scope? state.streamRoot = some x ∧ exits x.kind = [])
    (houter : ∀ v x, state.scopes.var? v = some x → x.scope.index < state.streamRoot.index) :
    (start state).Good := by
  have hinsts : state.stream.insts = #[] := hstream ▸ rfl
  have hchildren : state.stream.children = [] := hstream ▸ rfl
  have hnone : ∀ i x, state.stream.inst? i ≠ some x := by simp [Stream.inst?, hinsts]
  have hdecls : state.stream.decls = [] := by simp [decls_eq, ownDecls, hinsts, hchildren]
  have hdeclared : state.stream.declared = [] := by simp [declared, hdecls]
  refine ⟨shape_start hstream hsinks hscopes.scopes hroot,
    ⟨hscopes, Nat.le_refl _, fun v x _ => houter v x, ?_, fun v => ?_, ?_, ?_, ?_, ?_, ?_⟩, ?_⟩
  · exact hdeclared ▸ List.nodup_nil
  · have : v ∉ state.stream.declared := by simp [hdeclared]
    exact ⟨fun h => absurd h this, fun h => absurd h.2 (Nat.not_lt_of_le h.1)⟩
  · simp [start, hdecls]
  · rintro i v ⟨x, -, hx, -⟩
    exact absurd hx (hnone i x)
  · exact fun j x _ hx => absurd hx (hnone j x)
  · rintro j k ⟨x, hx, -⟩
    exact absurd hx (hnone j x)
  · simp [start, hchildren]
  · simp [start, hchildren]

/-- At the start of a stream, code may be lowered in its root. -/
theorem in_start {state : State} {name : String} {isInline : Bool}
    (hstream : state.stream = Stream.new name isInline) (hs : state.scopes.WellFormed)
    (hr : state.streamRoot.index < state.scopes.scopes.size) :
    (start state).In (start state).current state.streamRoot := by
  have hself := ScopeTree.inside_self hs hr
  refine ⟨hr, ?_, ?_, ?_, hs.onChain_self hr, fun i x hx => ?_, ?_⟩
  · simp [start, hself]
  · simp [start, hself]
  · simp [start, hself]
  · simp [start, Stream.inst?, hstream, Stream.new] at hx
  · simp [start, hstream, Stream.new]

end Steps

/-! ### Scopes in which code may be lowered -/

section Scopes

variable {kind : ScopeKind} {loc : ResultLoc}

/-- No variable has been declared in a scope that was opened last. -/
theorem Bound.around_withScope (h : w.Bound) (hs : scope.index < w.state.scopes.scopes.size)
    {q : ScopeId} (hq : q.index < w.state.scopes.scopes.size)
    (hon : (w.state.scopes.openUnder scope kind).2.Around q ⟨w.state.scopes.scopes.size⟩) :
    w.state.scopes.Around q scope := by
  rcases (ScopeTree.onChain_openUnder_iff hs).1 hon.2 with rfl | hon
  · exact absurd hq (Nat.lt_irrefl _)
  · exact h.recorded.scopes.around hon

/-- A scope that was opened last takes over what its parent promises, and adds its own jumps and
sink. -/
theorem In.opened (hw : w.Good) (h : w.In b scope) (e : Ext w w')
    (hstream : w'.state.stream = w.state.stream)
    (hscopes : w'.state.scopes = (w.state.scopes.openUnder scope kind).2)
    (htarget : ∀ t ∈ exits kind, w.Target b t)
    (hsink : ∀ sink, w'.state.sinks.lookup ⟨w.state.scopes.scopes.size⟩ = some sink →
      w.Loc b sink.resultLoc)
    (hsinks : ∀ x : ScopeId, x.index < w.state.scopes.scopes.size →
      w'.state.sinks.lookup x = w.state.sinks.lookup x) :
    w'.In b ⟨w.state.scopes.scopes.size⟩ := by
  have hin : ∀ {x}, x ∈ w'.state.scopes.inside w'.state.streamRoot ⟨w.state.scopes.scopes.size⟩ →
      x = (⟨w.state.scopes.scopes.size⟩, kind) ∨
        x ∈ w.state.scopes.inside w.state.streamRoot scope := fun hx => by
    rw [hscopes, e.root, ScopeTree.inside_openUnder h.index hw.root_lt kind] at hx
    exact List.mem_cons.1 hx
  have hsize : w'.state.scopes.scopes.size = w.state.scopes.scopes.size + 1 := by simp [hscopes]
  have haround : ∀ {q : ScopeId}, q.index < w.state.scopes.scopes.size →
      w'.state.scopes.Around q ⟨w.state.scopes.scopes.size⟩ → w.state.scopes.Around q scope :=
    fun hq hon => hw.around_withScope h.index hq (hscopes ▸ hon)
  refine ⟨hsize ▸ Nat.lt_succ_self _, fun x hx => ?_, fun x hx t hxt => ?_,
    fun x hx sink hxs => ?_, ?_, fun i x hx hd hon => ?_, fun c hc d hd hon => ?_⟩
  · rcases hin hx with rfl | hx
    · exact hsize ▸ Nat.lt_succ_self _
    · exact Nat.lt_of_lt_of_le (h.inside x hx) e.scopes.size_le
  · rcases hin hx with rfl | hx
    · exact (htarget t hxt).ext e
    · exact (h.target x hx t hxt).ext e
  · rcases hin hx with rfl | hx
    · exact (hsink sink hxs).ext e
    · exact (h.sink x hx sink (hsinks x.1 (h.inside x hx) ▸ hxs)).ext e
  · rw [hscopes, e.root]
    exact ScopeTree.onChain_openUnder h.index h.rooted
  · rw [hstream] at hx
    exact (h.declared i x hx hd (haround (hw.scope_lt_of_inst hx hd) hon)).ext e
  · rw [hstream] at hc
    exact h.apart c hc d hd (haround (hw.scope_lt (mem_decls.2 (.inr ⟨c, hc, hd⟩))) hon)

/-- A scope without jumps of its own. -/
theorem In.openUnder (hw : w.Good) (h : w.In b scope) (hk : exits kind = []) :
    (w.withScope scope kind).In b ⟨w.state.scopes.scopes.size⟩ := by
  refine h.opened hw ext_withScope rfl rfl (by simp [hk]) (fun sink hsink => ?_) fun _ _ => rfl
  cases (hw.lookup_eq_none (Nat.le_refl _)).symm.trans hsink

theorem In.withTarget (hw : w.Good) (h : w.In b scope) (ht : ∀ t ∈ exits kind, w.Target b t)
    (hl : w.Loc b loc) :
    (w.withTarget scope kind loc).In b ⟨w.state.scopes.scopes.size⟩ := by
  refine h.opened hw ext_withTarget rfl rfl ht (fun sink hsink => ?_) fun _ => lookup_withTarget
  rw [Site.withTarget, List.lookup_cons_self] at hsink
  cases hsink
  exact hl

end Scopes

end Site

end SourceIr.Lower
