import SourceIr.Proofs.Lexical.Basic
import SourceIr.Proofs.Scope.Growth
import SourceIr.Proofs.Scope.Jump

/-!
# What is visible in a scope

The variables of a scope and of the scopes around it are visible in it.  Where a name is free when a
variable takes it, and nothing is added to a scope that one comes back to from below, a name never
has more than one visible variable, and none where it is that of a declaration.

* `ScopeTree.OnChain`, one scope around another one;
* `ScopeTree.Recorded`, variables and scopes name each other, with `Recorded.mem_lookupAll`, which
  variables are visible;
* `ScopeTree.Unambiguous`, no name has two meanings in a scope;
* `ScopeTree.Unshadowed`, no variable hides what is visible where it is declared.
-/

namespace SourceIr

namespace ScopeTree

variable {t t' : ScopeTree} {table : DeclTable} {c p : ScopeId} {x y : Scope} {name : String}
  {id : VarId} {v : Variable} {kind : ScopeKind} {r : BindingRequest}

/-! ### Scopes around a scope -/

/-- A scope is another one or stands around it. -/
def OnChain (t : ScopeTree) (p c : ScopeId) : Prop := ∃ x ∈ t.chain c, x.id = p

theorem onChain_iff_links : t.OnChain p c ↔ ∃ x ∈ t.links c, x.1 = p := by
  rw [links]
  constructor
  · rintro ⟨x, hx, hid⟩
    exact ⟨_, List.mem_map_of_mem hx, hid⟩
  · rintro ⟨y, hy, hid⟩
    obtain ⟨x, hx, rfl⟩ := List.mem_map.1 hy
    exact ⟨x, hx, hid⟩

/-- A scope is another one or was opened before it and stands around it. -/
def Around (t : ScopeTree) (p c : ScopeId) : Prop := p.index ≤ c.index ∧ t.OnChain p c

/-- What is around a scope that is there does not change. -/
theorem Grows.onChain_iff (h : t.Grows t') (hc : c.index < t.scopes.size) :
    t'.OnChain p c ↔ t.OnChain p c := by
  rw [onChain_iff_links, onChain_iff_links, h.links_eq hc]

theorem Grows.around_iff (h : t.Grows t') (hc : c.index < t.scopes.size) :
    t'.Around p c ↔ t.Around p c := and_congr_right fun _ => h.onChain_iff hc

theorem WellFormed.onChain_self (ht : t.WellFormed) (hc : c.index < t.scopes.size) :
    t.OnChain c c := by
  have hx := Array.getElem?_eq_getElem hc
  exact ⟨_, ht.chain_eq hx ▸ List.mem_cons_self, ht.id _ _ hx⟩

theorem onChain_openUnder {q : ScopeId} (hp : p.index < t.scopes.size) (h : t.OnChain q p) :
    (t.openUnder p kind).2.OnChain q ⟨t.scopes.size⟩ := by
  obtain ⟨x, hx, hid⟩ := onChain_iff_links.1 h
  exact onChain_iff_links.2 ⟨x, links_openUnder hp ▸ List.mem_cons_of_mem _ hx, hid⟩

theorem WellFormed.around (ht : t.WellFormed) (h : t.OnChain p c) : t.Around p c := by
  obtain ⟨x, hx, rfl⟩ := h
  exact ⟨ht.index_le_of_mem hx, x, hx, rfl⟩

/-- Of two scopes around a third one, the earlier one stands around the later one. -/
theorem WellFormed.onChain_of_lt {q : ScopeId} (ht : t.WellFormed) (hp : t.OnChain p c)
    (hq : t.OnChain q c) (hlt : p.index < q.index) : t.OnChain p q := by
  obtain ⟨x, hx, rfl⟩ := hp
  obtain ⟨y, hy, rfl⟩ := hq
  obtain ⟨pre, rest, hl⟩ := List.append_of_mem hy
  rw [hl] at hx
  rcases List.mem_append.1 hx with hx | hx
  · -- What comes before on the way outward was opened later.
    obtain ⟨pre₁, pre₂, rfl⟩ := List.append_of_mem hx
    have hchain := ht.chain_of_append (by simpa using hl)
    have hy : y ∈ t.chain x.id := by simp [hchain]
    exact absurd (ht.index_le_of_mem hy) (Nat.not_le_of_gt hlt)
  · exact ⟨x, ht.chain_of_append hl ▸ hx, rfl⟩

theorem WellFormed.onChain_trans {q : ScopeId} (ht : t.WellFormed) (hq : t.OnChain q p)
    (hp : t.OnChain p c) : t.OnChain q c := by
  obtain ⟨y, hy, rfl⟩ := hp
  obtain ⟨pre, rest, hl⟩ := List.append_of_mem hy
  obtain ⟨x, hx, rfl⟩ := hq
  rw [ht.chain_of_append hl] at hx
  exact ⟨x, hl ▸ List.mem_append_right _ hx, rfl⟩

theorem Under.around {root : ScopeId} (ht : t.WellFormed) (h : t.Under root p c)
    (hp : p.index < t.scopes.size) : t.Around p c := by
  obtain ⟨new, hl, -⟩ := h
  obtain ⟨x, hx, hid⟩ := onChain_iff_links.1 (ht.onChain_self hp)
  exact ht.around (onChain_iff_links.2 ⟨x, hl ▸ List.mem_append_right _ hx, hid⟩)

/-- Next to a scope inside `root` one is still inside it. -/
theorem Reaches.onChain_parent {root : ScopeId} (ht : t.WellFormed) (h : Reaches root (t.chain c) y)
    (hroot : t.OnChain root c) : t.OnChain root (y.parent.getD y.id) := by
  obtain ⟨pre, rest, hl, hpre⟩ := h
  obtain ⟨x, hx, rfl⟩ := hroot
  have hrest : x ∈ rest := by
    rw [hl] at hx
    rcases List.mem_append.1 hx with hx | hx
    · exact absurd rfl (hpre x (List.mem_append_left _ hx))
    rcases List.mem_cons.1 hx with rfl | hx
    · exact absurd rfl (hpre x (by simp))
    · exact hx
  have hy := ht.chain_eq (ht.scope?_of_mem (show y ∈ t.chain c by simp [hl]))
  rw [ht.chain_of_append hl] at hy
  obtain ⟨-, rfl⟩ := List.cons.inj hy
  cases hp : y.parent with
  | none => simp [hp] at hrest
  | some p => exact ⟨x, by simpa [hp] using hrest, rfl⟩

theorem onChain_openUnder_iff {q : ScopeId} (hp : p.index < t.scopes.size) :
    (t.openUnder p kind).2.OnChain q ⟨t.scopes.size⟩ ↔ q = ⟨t.scopes.size⟩ ∨ t.OnChain q p := by
  rw [onChain_iff_links, links_openUnder hp, onChain_iff_links]
  simp [eq_comm]

/-- The scope around one on a chain is on the chain. -/
theorem WellFormed.parent_mem_chain (ht : t.WellFormed) (hy : y ∈ t.chain c) :
    ∃ z ∈ t.chain c, z.id = y.parent.getD y.id := by
  obtain ⟨pre, rest, hl⟩ := List.append_of_mem hy
  have hscope := ht.scope?_of_mem hy
  cases hp : y.parent with
  | none => exact ⟨y, hy, rfl⟩
  | some p =>
    have hlt : p.index < t.scopes.size :=
      Nat.lt_trans (ht.parent _ y hscope p hp) (Array.getElem?_eq_some_iff.1 hscope).1
    obtain ⟨z, hz, hid⟩ := ht.onChain_self hlt
    refine ⟨z, ?_, hid⟩
    have hchain := ht.chain_of_append hl
    rw [ht.chain_eq hscope, hp] at hchain
    rw [hl, ← hchain]
    exact List.mem_append_right _ (List.mem_cons_of_mem _ hz)

/-! ### Variables and scopes -/

/-- The variables that a scope names are there and name the scope. -/
structure Recorded (t : ScopeTree) : Prop where
  scopes : t.WellFormed
  var : ∀ (i : Nat) (v : Variable), t.vars[i]? = some v →
    v.id = ⟨i⟩ ∧ ∃ x, t.scope? v.scope = some x ∧ v.id ∈ x.vars
  held : ∀ (i : Nat) (x : Scope), t.scopes[i]? = some x → ∀ id ∈ x.vars,
    ∃ v, t.var? id = some v ∧ v.scope = ⟨i⟩
  named : ∀ (i : Nat) (x : Scope), t.scopes[i]? = some x → ∀ e ∈ x.names, e.2 ∈ x.vars

theorem isNamed_iff (hv : t.var? id = some v) :
    t.isNamed name id = true ↔ v.name = some name := by
  simp [isNamed, hv]

theorem Bare.recorded (h : t.Bare) (ht : t.WellFormed) : t.Recorded where
  scopes := ht
  var i v hv := by
    rw [h.vars] at hv
    cases hv
  held i x hx id hid := by
    rw [(h.scopes i x hx).1] at hid
    exact absurd hid (Array.not_mem_empty id)
  named i x hx e he := by
    rw [(h.scopes i x hx).2] at he
    cases he

namespace Recorded

theorem openUnder (h : t.Recorded) (hp : p.index < t.scopes.size) :
    (t.openUnder p kind).2.Recorded where
  scopes := h.scopes.openUnder hp
  var i v hv := by
    obtain ⟨hid, x, hx, hmem⟩ := h.var i v hv
    refine ⟨hid, x, ?_, hmem⟩
    rw [scope?, getElem?_openUnder, if_neg (Nat.ne_of_lt (Array.getElem?_eq_some_iff.1 hx).1)]
    exact hx
  held i x hx id hid := by
    obtain ⟨-, rfl⟩ | hx := scope_of_openUnder hx
    · exact absurd hid (Array.not_mem_empty id)
    · exact h.held i x hx id hid
  named i x hx e he := by
    obtain ⟨-, rfl⟩ | hx := scope_of_openUnder hx
    · cases he
    · exact h.named i x hx e he

theorem addVar (h : t.Recorded) (hc : c.index < t.scopes.size) (r : BindingRequest) :
    (t.addVar c r).2.Recorded where
  scopes := h.scopes.addVar r
  var i v hv := by
    have old : ∀ q x (w : VarId), t.scope? q = some x → w ∈ x.vars →
        ∃ x', (t.addVar c r).2.scope? q = some x' ∧ w ∈ x'.vars := by
      intro q x w hx hw
      rw [scope?, getElem?_addVar, show t.scopes[q.index]? = some x from hx]
      split
      · exact ⟨_, rfl, Array.mem_push_of_mem _ hw⟩
      · exact ⟨x, rfl, hw⟩
    obtain ⟨rfl, rfl⟩ | hv := var_of_addVar hv
    · refine ⟨rfl, ?_⟩
      rw [scope?, getElem?_addVar, if_pos rfl, Array.getElem?_eq_getElem hc]
      exact ⟨_, rfl, Array.mem_push_self⟩
    · obtain ⟨hid, x, hx, hmem⟩ := h.var i v hv
      exact ⟨hid, old _ x _ hx hmem⟩
  held i x hx id hid := by
    obtain ⟨rfl, x₀, hx₀, rfl⟩ | ⟨-, hx⟩ := scope_of_addVar hx
    · rcases Array.mem_push.1 hid with hid | rfl
      · obtain ⟨v, hv, hs⟩ := h.held i x₀ hx₀ id hid
        exact ⟨v, var?_addVar hv, hs⟩
      · exact ⟨{ r with id := ⟨t.vars.size⟩, scope := ⟨i⟩ }, by simp [var?, ScopeTree.addVar], rfl⟩
    · obtain ⟨v, hv, hs⟩ := h.held i x hx id hid
      exact ⟨v, var?_addVar hv, hs⟩
  named i x hx e he := by
    obtain ⟨-, x₀, hx₀, rfl⟩ | ⟨-, hx⟩ := scope_of_addVar hx
    · rcases List.mem_append.1 he with he | he
      · obtain ⟨name, -, rfl⟩ := Option.map_eq_some_iff.1 (Option.mem_toList.1 he)
        exact Array.mem_push_self
      · exact Array.mem_push_of_mem _ (h.named i x₀ hx₀ e he)
    · exact h.named i x hx e he

theorem change (h : t.Recorded) (ht : t.Change t') : t'.Recorded := by
  cases ht with
  | same => exact h
  | opened kind hp => exact h.openUnder hp
  | declared r hs => exact h.addVar hs r

theorem var_of_mem (h : t.Recorded) (hv : v ∈ t.vars) :
    t.var? v.id = some v ∧ v.scope.index < t.scopes.size := by
  obtain ⟨i, hi, rfl⟩ := Array.mem_iff_getElem.1 hv
  have hv := Array.getElem?_eq_getElem hi
  obtain ⟨hid, x, hx, -⟩ := h.var i _ hv
  exact ⟨by rw [hid]; exact hv, (Array.getElem?_eq_some_iff.1 hx).1⟩

/-- The variables that are visible in a scope under a name. -/
theorem mem_lookupAll (h : t.Recorded) : id ∈ t.lookupAll c name ↔
    ∃ v, t.var? id = some v ∧ v.name = some name ∧ t.OnChain v.scope c := by
  rw [lookupAll, List.mem_filter, List.mem_flatMap]
  constructor
  · rintro ⟨⟨x, hx, hid⟩, hname⟩
    obtain ⟨v, hv, hscope⟩ :=
      h.held x.id.index x (h.scopes.scope?_of_mem hx) id (by simpa using hid)
    exact ⟨v, hv, (isNamed_iff hv).1 hname, x, hx, hscope.symm⟩
  · rintro ⟨v, hv, hname, x, hx, hid⟩
    obtain ⟨hv', x', hx', hmem⟩ := h.var id.index v hv
    rw [show v.id = id from hv'] at hmem
    rw [← hid, h.scopes.scope?_of_mem hx] at hx'
    obtain rfl := Option.some.inj hx'
    exact ⟨⟨x, hx, by simpa using hmem⟩, (isNamed_iff hv).2 hname⟩

/-- A variable that a name refers to is declared around. -/
theorem onChain_of_lookup (h : t.Recorded) (hl : t.lookup c name table = some (.var id)) :
    ∃ v, t.var? id = some v ∧ t.OnChain v.scope c := by
  rw [lookup] at hl
  split at hl
  next r hr =>
    obtain rfl := Option.some.inj hl
    obtain ⟨x, hx, hres⟩ := List.exists_of_findSome?_eq_some hr
    rw [resolveIn] at hres
    split at hres
    next v hv =>
      obtain rfl := Resolved.var.inj (Option.some.inj hres)
      obtain ⟨pre, post, hmem, -⟩ := List.lookup_eq_some_iff.1 hv
      have hscope := h.scopes.scope?_of_mem hx
      have hid := h.named x.id.index x hscope (name, v) (by simp [hmem])
      obtain ⟨w, hw, hs⟩ := h.held x.id.index x hscope v hid
      exact ⟨w, hw, x, hx, hs.symm⟩
    next =>
      obtain ⟨d, -, hd⟩ := Option.map_eq_some_iff.1 hres
      cases hd
  next =>
    obtain ⟨d, -, hd⟩ := Option.map_eq_some_iff.1 hl
    cases hd

end Recorded

/-! ### Names with one meaning -/

/-- Under a name, at most one variable is visible in a scope, and none if a declaration is. -/
def Unambiguous (table : DeclTable) (t : ScopeTree) (c : ScopeId) : Prop :=
  ∀ name, (t.lookupAll c name).length ≤ 1 ∧
    ((t.lookupDecl c name table).isSome = true → t.lookupAll c name = [])

namespace Unambiguous

/-- The scopes around a scope see no more than it does. -/
theorem of_mem_chain (h : t.Unambiguous table c) (ht : t.WellFormed) (hy : y ∈ t.chain c) :
    t.Unambiguous table y.id := by
  intro name
  obtain ⟨pre, rest, hl⟩ := List.append_of_mem hy
  have hy := ht.chain_of_append hl
  have hall : t.lookupAll c name =
      ((pre.flatMap fun sc => sc.vars.toList.reverse).filter (t.isNamed name)) ++
        t.lookupAll y.id name := by
    rw [lookupAll, lookupAll, hy, hl, List.flatMap_append, List.filter_append]
  have hdecl : (t.lookupDecl y.id name table).isSome = true →
      (t.lookupDecl c name table).isSome = true := by
    rw [lookupDecl, lookupDecl, hy, hl, List.findSome?_append]
    cases pre.findSome? (memberDecl? · name table) with
    | some d => exact fun _ => rfl
    | none => exact id
  obtain ⟨hlen, hnone⟩ := h name
  rw [hall] at hlen hnone
  refine ⟨Nat.le_trans (by simp) hlen, fun hd => ?_⟩
  exact (List.append_eq_nil_iff.1 (hnone (hdecl hd))).2

theorem parent (h : t.Unambiguous table c) (ht : t.WellFormed) (hy : y ∈ t.chain c) :
    t.Unambiguous table (y.parent.getD y.id) := by
  obtain ⟨z, hz, hid⟩ := ht.parent_mem_chain hy
  exact hid ▸ h.of_mem_chain ht hz

/-- Nothing is visible in a scope without members that is not visible around it. -/
theorem openUnder (h : t.Unambiguous table p) (ht : t.WellFormed) (hp : p.index < t.scopes.size)
    (hkind : ∀ path, kind ≠ .container path) :
    (t.openUnder p kind).2.Unambiguous table ⟨t.scopes.size⟩ := by
  intro name
  have hchain : (t.openUnder p kind).2.chain ⟨t.scopes.size⟩ =
      ⟨⟨t.scopes.size⟩, some p, kind, #[], []⟩ :: t.chain p :=
    ((ht.openUnder hp).chain_eq (scope?_openUnder p kind)).trans
      (congrArg _ (ht.chain_openUnder hp))
  have hall : (t.openUnder p kind).2.lookupAll ⟨t.scopes.size⟩ name = t.lookupAll p name := by
    rw [lookupAll, hchain, lookupAll]
    rfl
  have hdecl : (t.openUnder p kind).2.lookupDecl ⟨t.scopes.size⟩ name table =
      t.lookupDecl p name table := by
    have hmember : memberDecl? ⟨⟨t.scopes.size⟩, some p, kind, #[], []⟩ name table = none := by
      rw [memberDecl?]
      split
      next h => exact absurd h (hkind _)
      next => rfl
    rw [lookupDecl, hchain, List.findSome?_cons, hmember, lookupDecl]
  rw [hall, hdecl]
  exact h name

/-- What is visible depends on the scopes around and on their variables only. -/
theorem congr (h : t.Unambiguous table c) (ht : t.WellFormed) (hg : t.Grows t')
    (hchain : t'.chain c = t.chain c) (hc : c.index < t.scopes.size)
    (hvar : ∀ (i : Nat) (v : Variable), t.vars[i]? = some v → t'.vars[i]? = some v) :
    t'.Unambiguous table c := by
  intro name
  have hall : t'.lookupAll c name = t.lookupAll c name := by
    rw [lookupAll, lookupAll, hchain]
    refine List.filter_congr fun id hid => ?_
    obtain ⟨x, hx, hid⟩ := List.mem_flatMap.1 hid
    have hlt := ht.vars x.id.index x (ht.scope?_of_mem hx) id (by simpa using hid)
    have hv : t.var? id = some t.vars[id.index] := Array.getElem?_eq_getElem hlt
    rw [isNamed, isNamed, hv, show t'.var? id = _ from hvar _ _ hv]
  rw [hall, hg.lookupDecl_eq hc]
  exact h name

end Unambiguous

/-! ### Free names -/

/-- A name that is free for a variable of the user is that of no visible variable. -/
theorem lookupAll_eq_nil (ht : t.Recorded) (hskip : r.skipNameCheck = false)
    (hshadow : r.isShadowable = false) (hname : r.name = some name)
    (h : t.bindingError? c r table = none) : t.lookupAll c name = [] := by
  simp only [bindingError?, hname, hskip, Bool.false_eq_true, if_false, nameError?] at h
  split at h
  · cases h
  next hclash =>
    refine List.eq_nil_iff_forall_not_mem.2 fun id hid => ?_
    obtain ⟨v, hv, -⟩ := ht.mem_lookupAll.1 hid
    have := List.find?_eq_none.1 hclash v (List.mem_filterMap.2 ⟨id, hid, hv⟩)
    simp [hshadow] at this

/-- A name that is free for a variable of the user is not that of a primitive type. -/
theorem isPrimitiveType_eq_false (hskip : r.skipNameCheck = false) (hname : r.name = some name)
    (h : t.bindingError? c r table = none) : isPrimitiveType name = false := by
  simp only [bindingError?, hname, hskip, Bool.false_eq_true, if_false, nameError?] at h
  split at h
  · cases h
  · split at h
    · cases h
    next hprimitive => simpa using hprimitive

/-- The scopes around stay as they are when a variable is declared. -/
theorem chain_addVar (ht : t.WellFormed) (hx : t.scope? c = some x) :
    (t.addVar c r).2.chain c =
      withVar ⟨t.vars.size⟩ r.name x :: (x.parent.map t.chain).getD [] := by
  have hc := (Array.getElem?_eq_some_iff.1 hx).1
  have hx' : (t.addVar c r).2.scope? c = some (withVar ⟨t.vars.size⟩ r.name x) := by
    rw [scope?, getElem?_addVar, if_pos rfl, show t.scopes[c.index]? = some x from hx]
    rfl
  rw [(ht.addVar r).chain_eq hx']
  congr 1
  change (x.parent.map _).getD [] = _
  cases hq : x.parent with
  | none => rfl
  | some q =>
    have hlt := ht.parent c.index x hx q hq
    refine ht.chain_congr (n := c.index) (fun i y hi hy => ?_) hlt (Nat.lt_trans hlt hc)
    rw [getElem?_addVar, if_neg (Nat.ne_of_gt hi), hy]

/-- The variables that are visible after a declaration. -/
theorem lookupAll_addVar (ht : t.WellFormed) (hc : c.index < t.scopes.size) :
    (t.addVar c r).2.lookupAll c name =
      (if r.name = some name then [⟨t.vars.size⟩] else []) ++ t.lookupAll c name := by
  have hx : t.scope? c = some t.scopes[c.index] := Array.getElem?_eq_getElem hc
  have hflat : ((t.addVar c r).2.chain c).flatMap (fun sc => sc.vars.toList.reverse) =
      ⟨t.vars.size⟩ :: (t.chain c).flatMap fun sc => sc.vars.toList.reverse := by
    rw [chain_addVar ht hx, ht.chain_eq hx]
    simp [withVar]
  have hold : ((t.chain c).flatMap fun sc => sc.vars.toList.reverse).filter
      ((t.addVar c r).2.isNamed name) = t.lookupAll c name := by
    refine List.filter_congr fun id hid => ?_
    obtain ⟨x, hx, hid⟩ := List.mem_flatMap.1 hid
    have hlt := ht.vars x.id.index x (ht.scope?_of_mem hx) id (by simpa using hid)
    simp [isNamed, var?, addVar, Array.getElem?_push, Nat.ne_of_lt hlt]
  have hnew : (t.addVar c r).2.isNamed name ⟨t.vars.size⟩ = true ↔ r.name = some name := by
    simp [isNamed, var?, addVar]
  rw [lookupAll, hflat, List.filter_cons, hold]
  by_cases hname : r.name = some name
  · rw [if_pos (hnew.2 hname), if_pos hname]
    rfl
  · rw [if_neg (mt hnew.1 hname), if_neg hname]
    rfl

/-- A declaration leaves names unambiguous where it is made. -/
theorem Unambiguous.declare (h : t.Unambiguous table c) (ht : t.Recorded)
    (hc : c.index < t.scopes.size) (hr : r.Checked) (hfree : t.bindingError? c r table = none) :
    (t.addVar c r).2.Unambiguous table c := by
  intro name
  rw [lookupAll_addVar ht.scopes hc, (grows_addVar c r).lookupDecl_eq hc]
  split
  next hname =>
    obtain hnone | ⟨hskip, hshadow⟩ := hr
    · rw [hnone] at hname
      cases hname
    · rw [lookupAll_eq_nil ht hskip hshadow hname hfree, lookupDecl_eq_none hskip hname hfree]
      exact ⟨Nat.le_refl _, nofun⟩
  next => exact h name

/-! ### Variables that hide nothing -/

/-- No variable has the name of an earlier one around it, of a primitive type, or of a declaration
that is visible from its scope. -/
structure Unshadowed (table : DeclTable) (t : ScopeTree) : Prop where
  distinct : ∀ v ∈ t.vars, ∀ w ∈ t.vars, w.id.index < v.id.index → t.OnChain w.scope v.scope →
    v.name.isSome = true → w.name ≠ v.name
  primitive : ∀ v ∈ t.vars, ∀ name ∈ v.name, isPrimitiveType name = false
  decl : ∀ v ∈ t.vars, ∀ name ∈ v.name, t.lookupDecl v.scope name table = none

/-- Growth that adds no variables. -/
theorem Unshadowed.grows (h : t.Unshadowed table) (ht : t.Recorded) (hg : t.Grows t')
    (hvars : t'.vars = t.vars) : t'.Unshadowed table := by
  refine ⟨?_, ?_, ?_⟩ <;> rw [hvars]
  · intro v hv w hw hid hon
    exact h.distinct v hv w hw hid ((hg.onChain_iff (ht.var_of_mem hv).2).1 hon)
  · exact h.primitive
  · intro v hv name hname
    rw [hg.lookupDecl_eq (ht.var_of_mem hv).2]
    exact h.decl v hv name hname

/-- A declaration hides nothing. -/
theorem Unshadowed.declare (h : t.Unshadowed table) (ht : t.Recorded)
    (hc : c.index < t.scopes.size) (hr : r.Checked) (hfree : t.bindingError? c r table = none) :
    (t.addVar c r).2.Unshadowed table := by
  have hg := grows_addVar (t := t) c r
  have named : ∀ {name}, r.name = some name → r.skipNameCheck = false ∧ r.isShadowable = false := by
    intro name hname
    exact hr.resolve_left (by simp [hname])
  refine ⟨fun v hv w hw hid hon hsome => ?_, fun v hv name hname => ?_, fun v hv name hname => ?_⟩
  · rcases Array.mem_push.1 hv with hv | rfl <;> rcases Array.mem_push.1 hw with hw | rfl
    · exact h.distinct v hv w hw hid ((hg.onChain_iff (ht.var_of_mem hv).2).1 hon) hsome
    · exact absurd (Array.getElem?_eq_some_iff.1 (ht.var_of_mem hv).1).1 (Nat.not_lt_of_gt hid)
    · -- What is visible under the name of the new variable.
      intro heq
      obtain ⟨name, hname⟩ := Option.isSome_iff_exists.1 hsome
      have hmem : w.id ∈ t.lookupAll c name :=
        ht.mem_lookupAll.2 ⟨w, (ht.var_of_mem hw).1, heq.trans hname, (hg.onChain_iff hc).1 hon⟩
      rw [lookupAll_eq_nil ht (named hname).1 (named hname).2 hname hfree] at hmem
      cases hmem
    · exact absurd hid (Nat.lt_irrefl _)
  · rcases Array.mem_push.1 hv with hv | rfl
    · exact h.primitive v hv name hname
    · exact isPrimitiveType_eq_false (named hname).1 hname hfree
  · rcases Array.mem_push.1 hv with hv | rfl
    · rw [hg.lookupDecl_eq (ht.var_of_mem hv).2]
      exact h.decl v hv name hname
    · rw [hg.lookupDecl_eq hc]
      exact lookupDecl_eq_none (named hname).1 hname hfree

end ScopeTree

end SourceIr
