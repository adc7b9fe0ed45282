import SourceIr.Scope.Binding
import SourceIr.Scope.Jump

/-!
# How scopes grow

Scopes are opened and variables declared, and neither is taken back.  A scope that is there keeps
its place on every chain, so what a jump finds on its way out does not depend on what was opened
since.  A variable does not take the name of a declaration in its sight; what such a name refers to
is therefore the declaration, however many variables there are.

* `ScopeTree.WellFormed`, handles are positions and parents come first; then nothing is missing on a
  walk outward, `ScopeTree.WellFormed.fault?_eq_none`;
* `scope_of_push` and `scope_of_addVar`, where a scope comes from that is there after a step;
* `ScopeTree.Grows`, how the scopes change, and `ScopeTree.Change`, the ways to do so in one step;
* `ScopeTree.links`, the chain of a scope without the variables, which growth does not change;
* `ScopeTree.Bare`, scopes in which no variable is declared;
* `ScopeTree.Apart`, the scopes whose variables keep to that, and `Apart.declare`, which keeps it;
* `Apart.lookup_eq`, what the name of a declaration refers to.
-/

namespace SourceIr.ScopeTree

variable {t t' t'' : ScopeTree} {s p : ScopeId} {kind : ScopeKind}

/-- Handles are positions, a scope is opened under an earlier one, and its variables are there. -/
structure WellFormed (t : ScopeTree) : Prop where
  id : ∀ (i : Nat) (x : Scope), t.scopes[i]? = some x → x.id = ⟨i⟩
  parent : ∀ (i : Nat) (x : Scope), t.scopes[i]? = some x → ∀ p ∈ x.parent, p.index < i
  vars : ∀ (i : Nat) (x : Scope), t.scopes[i]? = some x → ∀ v ∈ x.vars, v.index < t.vars.size

/-- Every scope keeps its handle, its parent and its kind. -/
def Grows (t t' : ScopeTree) : Prop :=
  ∀ (i : Nat) (x : Scope), t.scopes[i]? = some x →
    ∃ x', t'.scopes[i]? = some x' ∧ x'.id = x.id ∧ x'.parent = x.parent ∧ x'.kind = x.kind

theorem Grows.refl (t : ScopeTree) : t.Grows t := fun _ x h => ⟨x, h, rfl, rfl, rfl⟩

theorem Grows.trans (h : t.Grows t') (h' : t'.Grows t'') : t.Grows t'' := by
  intro i x hx
  obtain ⟨x', hx', hid, hp, hk⟩ := h i x hx
  obtain ⟨x'', hx'', hid', hp', hk'⟩ := h' i x' hx'
  exact ⟨x'', hx'', hid'.trans hid, hp'.trans hp, hk'.trans hk⟩

theorem Grows.size_le (h : t.Grows t') : t.scopes.size ≤ t'.scopes.size := by
  refine Nat.le_of_not_lt fun hlt => ?_
  obtain ⟨x', hx', -⟩ := h t'.scopes.size _ (Array.getElem?_eq_getElem hlt)
  simp at hx'

/-! ### The ways to grow -/

theorem getElem?_push (parent : Option ScopeId) (kind : ScopeKind) (i : Nat) :
    (t.push parent kind).2.scopes[i]? =
      if i = t.scopes.size then some ⟨⟨t.scopes.size⟩, parent, kind, #[], []⟩
      else t.scopes[i]? := by
  simp [push, Array.getElem?_push]

theorem getElem?_openUnder (p : ScopeId) (kind : ScopeKind) (i : Nat) :
    (t.openUnder p kind).2.scopes[i]? =
      if i = t.scopes.size then some ⟨⟨t.scopes.size⟩, some p, kind, #[], []⟩
      else t.scopes[i]? := getElem?_push (some p) kind i

/-- A scope of the tree with one more scope is the new one or an old one. -/
theorem scope_of_push {parent : Option ScopeId} {i : Nat} {x : Scope}
    (h : (t.push parent kind).2.scopes[i]? = some x) :
    i = t.scopes.size ∧ x = ⟨⟨t.scopes.size⟩, parent, kind, #[], []⟩ ∨ t.scopes[i]? = some x := by
  rw [getElem?_push] at h
  split at h
  next hi => exact .inl ⟨hi, (Option.some.inj h).symm⟩
  next => exact .inr h

theorem scope_of_openUnder {i : Nat} {x : Scope}
    (h : (t.openUnder p kind).2.scopes[i]? = some x) :
    i = t.scopes.size ∧ x = ⟨⟨t.scopes.size⟩, some p, kind, #[], []⟩ ∨ t.scopes[i]? = some x :=
  scope_of_push h

/-- The scope that was opened. -/
theorem scope?_openUnder (p : ScopeId) (kind : ScopeKind) :
    (t.openUnder p kind).2.scope? ⟨t.scopes.size⟩ =
      some ⟨⟨t.scopes.size⟩, some p, kind, #[], []⟩ := by
  rw [scope?, getElem?_openUnder, if_pos rfl]

@[simp] theorem openUnder_fst (p : ScopeId) (kind : ScopeKind) :
    (t.openUnder p kind).1 = ⟨t.scopes.size⟩ := rfl

@[simp] theorem size_openUnder (p : ScopeId) (kind : ScopeKind) :
    (t.openUnder p kind).2.scopes.size = t.scopes.size + 1 := by
  simp [openUnder, push]

theorem grows_openUnder (p : ScopeId) (kind : ScopeKind) : t.Grows (t.openUnder p kind).2 := by
  intro i x hx
  have := (Array.getElem?_eq_some_iff.1 hx).1
  exact ⟨x, by rw [getElem?_openUnder, if_neg (by omega), hx], rfl, rfl, rfl⟩

/-- A scope is opened outermost or under an earlier one. -/
theorem WellFormed.push {parent : Option ScopeId} (ht : t.WellFormed)
    (hp : ∀ p ∈ parent, p.index < t.scopes.size) : (t.push parent kind).2.WellFormed where
  id i x h := by
    obtain ⟨rfl, rfl⟩ | h := scope_of_push h
    · rfl
    · exact ht.id i x h
  parent i x h := by
    obtain ⟨rfl, rfl⟩ | h := scope_of_push h
    · exact hp
    · exact ht.parent i x h
  vars i x h := by
    obtain ⟨rfl, rfl⟩ | h := scope_of_push h
    · nofun
    · exact ht.vars i x h

theorem WellFormed.openUnder (ht : t.WellFormed) (hp : p.index < t.scopes.size) :
    (t.openUnder p kind).2.WellFormed :=
  ht.push fun _ hq => Option.some.inj hq ▸ hp

theorem getElem?_addVar (s : ScopeId) (r : BindingRequest) (i : Nat) :
    (t.addVar s r).2.scopes[i]? =
      if s.index = i then (t.scopes[i]?).map (withVar ⟨t.vars.size⟩ r.name)
      else t.scopes[i]? := by
  simp [addVar, Array.getElem?_modify]

/-- A scope of the tree with one more variable is the one that it is declared in or an old one. -/
theorem scope_of_addVar {r : BindingRequest} {i : Nat} {x : Scope}
    (h : (t.addVar s r).2.scopes[i]? = some x) :
    (s = ⟨i⟩ ∧ ∃ x₀, t.scopes[i]? = some x₀ ∧ x = withVar ⟨t.vars.size⟩ r.name x₀) ∨
      s ≠ ⟨i⟩ ∧ t.scopes[i]? = some x := by
  rw [getElem?_addVar] at h
  split at h
  next hi =>
    obtain ⟨x₀, hx₀, rfl⟩ := Option.map_eq_some_iff.1 h
    exact .inl ⟨congrArg ScopeId.mk hi, x₀, hx₀, rfl⟩
  next hi => exact .inr ⟨fun e => hi (congrArg ScopeId.index e), h⟩

/-- A variable of the tree with one more variable is the new one or an old one. -/
theorem var_of_addVar {r : BindingRequest} {i : Nat} {v : Variable}
    (h : (t.addVar s r).2.vars[i]? = some v) :
    i = t.vars.size ∧ v = { r with id := ⟨t.vars.size⟩, scope := s } ∨ t.vars[i]? = some v := by
  rw [addVar, Array.getElem?_push] at h
  split at h
  next hi => exact .inl ⟨hi, (Option.some.inj h).symm⟩
  next => exact .inr h

/-- Variables keep their places. -/
theorem var?_addVar {r : BindingRequest} {id : VarId} {v : Variable} (h : t.var? id = some v) :
    (t.addVar s r).2.var? id = some v := by
  rw [var?, addVar, Array.getElem?_push,
    if_neg (Nat.ne_of_lt (Array.getElem?_eq_some_iff.1 h).1)]
  exact h

theorem grows_addVar (s : ScopeId) (r : BindingRequest) : t.Grows (t.addVar s r).2 := by
  intro i x hx
  rw [getElem?_addVar, hx]
  split
  · exact ⟨_, rfl, rfl, rfl, rfl⟩
  · exact ⟨x, rfl, rfl, rfl, rfl⟩

@[simp] theorem size_addVar (s : ScopeId) (r : BindingRequest) :
    (t.addVar s r).2.scopes.size = t.scopes.size := by
  simp [addVar]

theorem WellFormed.addVar (ht : t.WellFormed) (r : BindingRequest) :
    (t.addVar s r).2.WellFormed := by
  have old : ∀ (i : Nat) (x : Scope), (t.addVar s r).2.scopes[i]? = some x →
      ∃ x₀, t.scopes[i]? = some x₀ ∧ x.id = x₀.id ∧ x.parent = x₀.parent ∧
        ∀ v ∈ x.vars, v ∈ x₀.vars ∨ v = ⟨t.vars.size⟩ := by
    intro i x h
    obtain ⟨-, x₀, hx₀, rfl⟩ | ⟨-, h⟩ := scope_of_addVar h
    · exact ⟨x₀, hx₀, rfl, rfl, fun v hv => Array.mem_push.1 hv⟩
    · exact ⟨x, h, rfl, rfl, fun v hv => .inl hv⟩
  constructor
  · intro i x h
    obtain ⟨x₀, hx₀, hid, -⟩ := old i x h
    rw [hid, ht.id i x₀ hx₀]
  · intro i x h
    obtain ⟨x₀, hx₀, -, hp, -⟩ := old i x h
    rw [hp]
    exact ht.parent i x₀ hx₀
  · intro i x h v hv
    obtain ⟨x₀, hx₀, -, -, hvars⟩ := old i x h
    have hsize : (t.addVar s r).2.vars.size = t.vars.size + 1 := Array.size_push _
    rcases hvars v hv with hv | rfl
    · exact hsize ▸ Nat.lt_succ_of_lt (ht.vars i x₀ hx₀ v hv)
    · exact hsize ▸ Nat.lt_succ_self _

/-- What a successful declaration does to the scopes. -/
theorem declare_eq_ok {r : BindingRequest} {table : DeclTable} {v : VarId × ScopeTree}
    (h : t.declare s r table = .ok v) : v = t.addVar s r := by
  rw [declare] at h
  split at h
  · cases h
  · exact (Except.ok.inj h).symm

/-- Where nothing is missing on the walk outward from a scope, the scope is there. -/
theorem lt_of_fault?_eq_none (h : t.fault? s = none) : s.index < t.scopes.size := by
  refine Nat.lt_of_not_le fun hle => ?_
  rw [fault?, faultAt?, Array.getElem?_eq_none hle] at h
  cases h

theorem lt_of_bindingFault?_eq_none {r : BindingRequest} (h : t.bindingFault? s r = none) :
    s.index < t.scopes.size := by
  rw [bindingFault?] at h
  split at h
  · cases h
  next hs => exact lt_of_fault?_eq_none hs

/-- How one step changes the scopes. -/
inductive Change (t : ScopeTree) : ScopeTree → Prop
  | same : Change t t
  | opened {p : ScopeId} (kind : ScopeKind) (h : p.index < t.scopes.size) :
    Change t (t.openUnder p kind).2
  | declared {s : ScopeId} (r : BindingRequest) (h : s.index < t.scopes.size) :
    Change t (t.addVar s r).2

namespace Change

theorem grows (h : t.Change t') : t.Grows t' := by
  cases h with
  | same => exact .refl t
  | opened kind => exact grows_openUnder _ kind
  | declared r => exact grows_addVar _ r

theorem wellFormed (h : t.Change t') (ht : t.WellFormed) : t'.WellFormed := by
  cases h with
  | same => exact ht
  | opened kind hp => exact ht.openUnder hp
  | declared r => exact ht.addVar r

end Change

/-! ### Chains -/

/-- The scopes from one outward, by their handles and kinds. -/
def links (t : ScopeTree) (s : ScopeId) : List (ScopeId × ScopeKind) :=
  (t.chain s).map fun x => (x.id, x.kind)

theorem chainAt_eq_nil {i : Nat} (h : t.scopes[i]? = none) : t.chainAt i = [] := by
  rw [chainAt, h]

/-- A chain starts with its scope and goes on with the chain of its parent. -/
theorem WellFormed.chain_eq (ht : t.WellFormed) {x : Scope} (h : t.scope? s = some x) :
    t.chain s = x :: (x.parent.map t.chain).getD [] := by
  have hx : t.scopes[s.index]? = some x := h
  rw [chain, chainAt, hx]
  simp only
  cases hp : x.parent with
  | none => rfl
  | some p =>
    have hlt := ht.parent s.index x hx p hp
    simp [hlt, chain]

/-- The rest of a chain is a chain. -/
theorem WellFormed.chain_of_append (ht : t.WellFormed) {x : Scope} {pre rest : List Scope}
    (h : t.chain s = pre ++ x :: rest) : t.chain x.id = x :: rest := by
  induction pre generalizing s with
  | nil =>
    cases hs : t.scope? s with
    | none => simp [chain, chainAt_eq_nil hs] at h
    | some y =>
      have hc := ht.chain_eq hs
      have hy := ht.id s.index y hs
      rw [h] at hc
      obtain ⟨rfl, -⟩ := List.cons.inj hc
      rw [hy]
      exact h
  | cons z pre ih =>
    cases hs : t.scope? s with
    | none => simp [chain, chainAt_eq_nil hs] at h
    | some y =>
      rw [ht.chain_eq hs, List.cons_append] at h
      obtain ⟨-, h⟩ := List.cons.inj h
      cases hp : y.parent with
      | none => simp [hp] at h
      | some p =>
        rw [hp] at h
        exact ih h

/-- The scope that a chain passes is the one behind its handle. -/
theorem WellFormed.scope?_of_mem (ht : t.WellFormed) {x : Scope} (h : x ∈ t.chain s) :
    t.scope? x.id = some x := by
  obtain ⟨pre, rest, hsplit⟩ := List.append_of_mem h
  have hc := ht.chain_of_append hsplit
  cases hs : t.scope? x.id with
  | none => simp [chain, chainAt_eq_nil hs] at hc
  | some y =>
    rw [ht.chain_eq hs] at hc
    rw [(List.cons.inj hc).1]

/-! ### No breaches -/

/-- The walk outward from a scope meets only scopes that are there. -/
theorem WellFormed.fault?_eq_none (ht : t.WellFormed) (hs : s.index < t.scopes.size) :
    t.fault? s = none := by
  obtain ⟨i⟩ := s
  induction i using Nat.strongRecOn with
  | ind i ih =>
    have hx : t.scopes[i]? = some (t.scopes[i]) := Array.getElem?_eq_getElem hs
    rw [fault?, faultAt?, hx]
    dsimp only
    cases hp : (t.scopes[i]).parent with
    | none => rfl
    | some p =>
      have hlt := ht.parent i _ hx p hp
      dsimp only
      rw [if_pos hlt]
      exact ih p.index hlt (Nat.lt_trans hlt hs)

/-- The variables that are visible in a scope are there. -/
theorem WellFormed.varFault?_eq_none (ht : t.WellFormed) : t.varFault? s = none := by
  rw [varFault?, Option.map_eq_none_iff, List.find?_eq_none]
  intro v hv
  obtain ⟨x, hx, hv⟩ := List.mem_flatMap.1 hv
  have := ht.vars x.id.index x (ht.scope?_of_mem hx) v (Array.mem_toList_iff.1 hv)
  simpa using this

theorem WellFormed.bindingFault?_eq_none (ht : t.WellFormed) (hs : s.index < t.scopes.size)
    (r : BindingRequest) : t.bindingFault? s r = none := by
  rw [bindingFault?, ht.fault?_eq_none hs, ht.varFault?_eq_none]
  simp

/-- Growth does not change the chain of a scope that is there. -/
theorem Grows.links_eq (h : t.Grows t') (hs : s.index < t.scopes.size) :
    t'.links s = t.links s := by
  obtain ⟨i⟩ := s
  induction i using Nat.strongRecOn with
  | ind i ih =>
    have hx : t.scopes[i]? = some (t.scopes[i]) := Array.getElem?_eq_getElem hs
    obtain ⟨x', hx', hid, hp, hk⟩ := h i _ hx
    simp only [links, chain] at ih ⊢
    rw [chainAt, chainAt, hx, hx']
    simp only [hp]
    cases hq : (t.scopes[i]).parent with
    | none => simp [hid, hk]
    | some q =>
      by_cases hlt : q.index < i
      · have := ih q.index hlt (by simp at hs ⊢; omega)
        simpa [hlt, hid, hk] using this
      · simp [hlt, hid, hk]

/-- The chain of a scope that has just been opened. -/
theorem links_openUnder (hp : p.index < t.scopes.size) :
    (t.openUnder p kind).2.links ⟨t.scopes.size⟩ = (⟨t.scopes.size⟩, kind) :: t.links p := by
  have hold := (grows_openUnder (t := t) p kind).links_eq hp
  simp only [links, chain] at hold ⊢
  rw [chainAt, getElem?_openUnder, if_pos rfl]
  simp [hp, hold]

/-- The handles on a chain do not lie after its scope. -/
theorem WellFormed.index_le_of_mem (ht : t.WellFormed) {x : Scope} (h : x ∈ t.chain s) :
    x.id.index ≤ s.index := by
  obtain ⟨i⟩ := s
  induction i using Nat.strongRecOn with
  | ind i ih =>
    cases hs : t.scope? ⟨i⟩ with
    | none => simp [chain, chainAt_eq_nil hs] at h
    | some y =>
      rw [ht.chain_eq hs] at h
      rcases List.mem_cons.1 h with rfl | h
      · simp [ht.id i x hs]
      · cases hp : y.parent with
        | none => simp [hp] at h
        | some p =>
          rw [hp] at h
          have hlt := ht.parent i y hs p hp
          exact Nat.le_of_lt (Nat.lt_of_le_of_lt (ih p.index hlt h) hlt)

/-! ### Scopes without variables -/

/-- Every scope but the outermost ones was opened under another one. -/
def Rooted (t : ScopeTree) : Prop :=
  ∀ (i : Nat) (x : Scope), t.scopes[i]? = some x → x.parent = none → ∃ root, x.kind = .topLevel root

theorem Rooted.openUnder (h : t.Rooted) : (t.openUnder p kind).2.Rooted := by
  intro i x hx
  obtain ⟨-, rfl⟩ | hx := scope_of_openUnder hx
  · exact nofun
  · exact h i x hx

theorem Rooted.addVar (h : t.Rooted) (r : BindingRequest) : (t.addVar p r).2.Rooted := by
  intro i x hx
  obtain ⟨-, x₀, hx₀, rfl⟩ | ⟨-, hx⟩ := scope_of_addVar hx
  · exact h i x₀ hx₀
  · exact h i x hx

/-- No variable is declared. -/
structure Bare (t : ScopeTree) : Prop where
  vars : t.vars = #[]
  scopes : ∀ (i : Nat) (x : Scope), t.scopes[i]? = some x → x.vars = #[] ∧ x.names = []
  rooted : t.Rooted

theorem Bare.openUnder (h : t.Bare) : (t.openUnder p kind).2.Bare where
  vars := h.vars
  scopes i x hx := by
    obtain ⟨-, rfl⟩ | hx := scope_of_openUnder hx
    · exact ⟨rfl, rfl⟩
    · exact h.scopes i x hx
  rooted := h.rooted.openUnder

/-! ### The names of variables -/

section Names

variable {t t' : ScopeTree} {table : DeclTable} {s p : ScopeId} {x : Scope} {name : String}

/-- No variable has the name of a declaration that is in sight in its scope. -/
def Apart (table : DeclTable) (t : ScopeTree) : Prop :=
  ∀ (i : Nat) (x : Scope), t.scopes[i]? = some x → ∀ entry ∈ x.names,
    t.lookupDecl ⟨i⟩ entry.1 table = none

/-- The member of a scope decides, and then the scopes around it. -/
theorem WellFormed.lookupDecl_eq (ht : t.WellFormed) (hx : t.scope? s = some x) :
    t.lookupDecl s name table = (memberDecl? x name table).or
      ((x.parent.map (t.lookupDecl · name table)).getD (table.get? name)) := by
  rw [lookupDecl, ht.chain_eq hx, List.findSome?_cons]
  cases memberDecl? x name table with
  | some d => rfl
  | none => cases x.parent <;> rfl

theorem WellFormed.lookup_eq (ht : t.WellFormed) (hx : t.scope? s = some x) :
    t.lookup s name table = (resolveIn x name table).or
      ((x.parent.map (t.lookup · name table)).getD ((table.get? name).map (.decl ·.id))) := by
  rw [lookup, ht.chain_eq hx, List.findSome?_cons]
  cases resolveIn x name table with
  | some r => rfl
  | none => cases x.parent <;> rfl

/-- Which declaration a name refers to depends on the handles and kinds of the scopes around. -/
theorem lookupDecl_eq_links : t.lookupDecl s name table =
    ((t.links s).findSome? fun link =>
      memberDecl? ⟨link.1, none, link.2, #[], []⟩ name table).or (table.get? name) := by
  rw [lookupDecl, links, List.findSome?_map]
  change _ = ((t.chain s).findSome? (memberDecl? · name table)).or _
  cases (t.chain s).findSome? (memberDecl? · name table) <;> rfl

/-- Variables have no say in which declaration a name refers to. -/
theorem Grows.lookupDecl_eq (h : t.Grows t') (hs : s.index < t.scopes.size) :
    t'.lookupDecl s name table = t.lookupDecl s name table := by
  rw [lookupDecl_eq_links, lookupDecl_eq_links, h.links_eq hs]

/-- A variable that the user names is refused the name of a declaration in sight. -/
theorem lookupDecl_eq_none {r : BindingRequest} (hr : r.skipNameCheck = false)
    (hname : r.name = some name) (h : t.bindingError? s r table = none) :
    t.lookupDecl s name table = none := by
  simp only [bindingError?, hname, hr, Bool.false_eq_true, if_false, nameError?] at h
  split at h
  · cases h
  · split at h
    · cases h
    · exact Option.map_eq_none_iff.1 h

namespace Apart

theorem openUnder {kind : ScopeKind} (h : t.Apart table) :
    (t.openUnder p kind).2.Apart table := by
  intro i x hx entry he
  obtain ⟨-, rfl⟩ | hx := scope_of_openUnder hx
  · cases he
  · rw [(grows_openUnder p kind).lookupDecl_eq (Array.getElem?_eq_some_iff.1 hx).1]
    exact h i x hx entry he

theorem declare {r : BindingRequest} {v : VarId × ScopeTree} (h : t.Apart table)
    (hr : r.skipNameCheck = false) (hd : t.declare s r table = .ok v) : v.2.Apart table := by
  obtain rfl := declare_eq_ok hd
  rw [ScopeTree.declare] at hd
  split at hd
  · cases hd
  next hfree =>
    intro i x hx entry he
    have hi : i < t.scopes.size := by
      simpa using (Array.getElem?_eq_some_iff.1 hx).1
    rw [(grows_addVar s r).lookupDecl_eq hi]
    obtain ⟨rfl, x₀, hx₀, rfl⟩ | ⟨-, hx⟩ := scope_of_addVar hx
    · rcases List.mem_append.1 he with he | he
      · -- The new variable.
        obtain ⟨name, hname, rfl⟩ := Option.map_eq_some_iff.1 (Option.mem_toList.1 he)
        exact lookupDecl_eq_none hr hname hfree
      · exact h i x₀ hx₀ entry he
    · exact h i x hx entry he

/-- The name of a declaration in sight refers to the declaration. -/
theorem lookup_eq {d : Decl} (h : t.Apart table) (ht : t.WellFormed)
    (hs : s.index < t.scopes.size) (hd : t.lookupDecl s name table = some d) :
    t.lookup s name table = some (.decl d.id) := by
  obtain ⟨i⟩ := s
  induction i using Nat.strongRecOn with
  | ind i ih =>
    have hx : t.scope? ⟨i⟩ = some t.scopes[i] := Array.getElem?_eq_getElem hs
    have hnames : (t.scopes[i]).names.lookup name = none := by
      refine Option.eq_none_iff_forall_ne_some.2 fun v hv => ?_
      obtain ⟨pre, post, hmem, -⟩ := List.lookup_eq_some_iff.1 hv
      exact absurd hd (by simp [h i _ hx (name, v) (by simp [hmem])])
    rw [ht.lookupDecl_eq hx] at hd
    rw [ht.lookup_eq hx, resolveIn, hnames]
    cases hm : memberDecl? t.scopes[i] name table with
    | some d' =>
      rw [hm] at hd
      exact congrArg (fun d : Option Decl => d.map fun d => Resolved.decl d.id) hd
    | none =>
      rw [hm] at hd
      cases hp : (t.scopes[i]).parent with
      | none =>
        simp only [hp, Option.map_none, Option.getD_none, Option.none_or] at hd ⊢
        rw [hd]
        rfl
      | some p =>
        simp only [hp, Option.map_some, Option.getD_some, Option.map_none, Option.none_or] at hd ⊢
        have hlt := ht.parent i _ hx p hp
        exact ih p.index hlt (Nat.lt_trans hlt hs) hd

end Apart

end Names

end SourceIr.ScopeTree
