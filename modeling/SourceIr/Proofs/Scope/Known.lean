import SourceIr.Proofs.Scope.Growth
import SourceIr.Proofs.Scope.Visible

/-!
# Names that stand for something

A name is known in a scope if it is that of a primitive type, of a variable in sight or of a
declaration.  It stands for something then, and it does so for good, here and in every scope inside.

* `ScopeTree.Indexed`, a scope finds its variables by their names;
* `ScopeTree.Known`, with `Known.lookup_ne_none`; `known_of_bindingError?` and `known_addVar`, a
  name is known once a variable was asked for under it.
-/

namespace SourceIr.ScopeTree

variable {t t' : ScopeTree} {c p : ScopeId} {name : String} {table : DeclTable}
  {r : BindingRequest} {kind : ScopeKind}

/-- Scopes find their variables by their names. -/
structure Indexed (t : ScopeTree) : Prop where
  recorded : t.Recorded
  index : ∀ (i : Nat) (x : Scope), t.scopes[i]? = some x → ∀ id ∈ x.vars, ∀ v,
    t.var? id = some v → ∀ name, v.name = some name → ∃ w, (name, w) ∈ x.names

theorem Bare.indexed (h : t.Bare) (ht : t.WellFormed) : t.Indexed where
  recorded := h.recorded ht
  index i x hx id hid := by
    rw [(h.scopes i x hx).1] at hid
    exact absurd hid (Array.not_mem_empty id)

namespace Indexed

theorem openUnder (h : t.Indexed) (hp : p.index < t.scopes.size) :
    (t.openUnder p kind).2.Indexed where
  recorded := h.recorded.openUnder hp
  index i x hx id hid := by
    obtain ⟨-, rfl⟩ | hx := scope_of_openUnder hx
    · exact absurd hid (Array.not_mem_empty id)
    · exact h.index i x hx id hid

theorem addVar (h : t.Indexed) (hc : c.index < t.scopes.size) (r : BindingRequest) :
    (t.addVar c r).2.Indexed where
  recorded := h.recorded.addVar hc r
  index i x hx id hid v hv name hname := by
    -- A variable that was there before is looked up as before.
    have old : ∀ x₀, t.scopes[i]? = some x₀ → id ∈ x₀.vars →
        ∃ w, (name, w) ∈ x₀.names := fun x₀ hx₀ hid₀ => by
      have hlt := h.recorded.scopes.vars i x₀ hx₀ id hid₀
      refine h.index i x₀ hx₀ id hid₀ v ?_ name hname
      simpa [var?, ScopeTree.addVar, Array.getElem?_push, Nat.ne_of_lt hlt] using hv
    obtain ⟨-, x₀, hx₀, rfl⟩ | ⟨-, hx⟩ := scope_of_addVar hx
    · rcases Array.mem_push.1 hid with hid | rfl
      · obtain ⟨w, hw⟩ := old x₀ hx₀ hid
        exact ⟨w, List.mem_append_right _ hw⟩
      · have hv' : some { r with id := ⟨t.vars.size⟩, scope := c } = some v := by
          simpa [var?, ScopeTree.addVar] using hv
        obtain rfl := Option.some.inj hv'
        refine ⟨⟨t.vars.size⟩, List.mem_append_left _ ?_⟩
        simp [show r.name = some name from hname]
    · exact old x hx hid

theorem change (h : t.Indexed) (ht : t.Change t') : t'.Indexed := by
  cases ht with
  | same => exact h
  | opened kind hp => exact h.openUnder hp
  | declared r hs => exact h.addVar hs r

end Indexed

/-- A name stands for something in a scope: a primitive type, a variable or a declaration. -/
def Known (t : ScopeTree) (table : DeclTable) (c : ScopeId) (name : String) : Prop :=
  isPrimitiveType name = true ∨ t.lookupAll c name ≠ [] ∨ t.lookupDecl c name table ≠ none

/-- What is known is found. -/
theorem Known.lookup_ne_none (h : t.Known table c name) (ht : t.Indexed)
    (hprimitive : isPrimitiveType name = false) : t.lookup c name table ≠ none := by
  intro hnone
  rw [lookup] at hnone
  split at hnone
  · cases hnone
  next hchain =>
    rw [Option.map_eq_none_iff] at hnone
    rw [List.findSome?_eq_none_iff] at hchain
    have hmember : ∀ x ∈ t.chain c,
        x.names.lookup name = none ∧ memberDecl? x name table = none := by
      intro x hx
      have hres := hchain x hx
      rw [resolveIn] at hres
      split at hres
      · cases hres
      next hl => exact ⟨hl, Option.map_eq_none_iff.1 hres⟩
    rcases h with h | h | h
    · rw [hprimitive] at h
      cases h
    · obtain ⟨id, hid⟩ := List.exists_mem_of_ne_nil _ h
      obtain ⟨v, hv, hname, x, hx, hscope⟩ := ht.recorded.mem_lookupAll.1 hid
      obtain ⟨hvid, y, hy, hmem⟩ := ht.recorded.var _ _ hv
      rw [← hscope, ht.recorded.scopes.scope?_of_mem hx] at hy
      obtain rfl := Option.some.inj hy
      obtain ⟨w, hw⟩ := ht.index x.id.index x (ht.recorded.scopes.scope?_of_mem hx) v.id hmem v
        (hvid ▸ hv) name hname
      have hne := List.lookup_eq_none_iff.1 (hmember x hx).1 _ hw
      exact absurd hne (by simp)
    · refine h ?_
      rw [lookupDecl, List.findSome?_eq_none_iff.2 fun x hx => (hmember x hx).2]
      exact hnone

/-- What takes a name makes it known. -/
theorem known_of_bindingError? {m : Message} (hname : r.name = some name)
    (h : t.bindingError? c r table = some m) : t.Known table c name := by
  simp only [bindingError?, hname, nameError?] at h
  split at h
  · cases h
  split at h
  next v hv =>
    refine .inr (.inl fun hnil => ?_)
    rw [clash?, hnil] at hv
    cases hv
  next =>
    split at h
    next hp => exact .inl hp
    next =>
      obtain ⟨d, hd, -⟩ := Option.map_eq_some_iff.1 h
      refine .inr (.inr ?_)
      rw [hd]
      exact Option.some_ne_none d

/-- A request that is refused is refused for its name. -/
theorem kind_of_bindingError? {m : Message} (h : t.bindingError? c r table = some m) :
    m.kind = .nameCollision := by
  cases hname : r.name with
  | none => simp [bindingError?, hname] at h
  | some name =>
    simp only [bindingError?, hname, nameError?] at h
    split at h
    · cases h
    split at h
    · cases h
      rfl
    split at h
    · cases h
      rfl
    · obtain ⟨d, -, rfl⟩ := Option.map_eq_some_iff.1 h
      rfl

/-- A variable makes its name known. -/
theorem known_addVar (ht : t.Recorded) (hc : c.index < t.scopes.size) (hname : r.name = some name) :
    (t.addVar c r).2.Known table c name := by
  refine .inr (.inl (List.ne_nil_of_mem (a := ⟨t.vars.size⟩) ?_))
  refine (ht.addVar hc r).mem_lookupAll.2
    ⟨{ r with id := ⟨t.vars.size⟩, scope := c }, ?_, hname, ?_⟩
  · simp [var?, addVar]
  · exact (ht.scopes.addVar r).onChain_self (by simpa using hc)

/-- What is known stays known. -/
theorem Known.grows (h : t.Known table c name) (ht : t.Recorded) (ht' : t'.Recorded)
    (hg : t.Grows t') (hvars : t.vars.toList <+: t'.vars.toList)
    (hc : c.index < t.scopes.size) : t'.Known table c name := by
  rcases h with h | h | h
  · exact .inl h
  · obtain ⟨id, hid⟩ := List.exists_mem_of_ne_nil _ h
    obtain ⟨v, hv, hname, hon⟩ := ht.mem_lookupAll.1 hid
    refine .inr (.inl (List.ne_nil_of_mem (a := id) (ht'.mem_lookupAll.2
      ⟨v, ?_, hname, (hg.onChain_iff hc).2 hon⟩)))
    obtain ⟨rest, hrest⟩ := hvars
    have hlt := (Array.getElem?_eq_some_iff.1 hv).1
    rw [var?, ← Array.getElem?_toList, ← hrest, List.getElem?_append_left (by simpa using hlt),
      Array.getElem?_toList]
    exact hv
  · exact .inr (.inr (hg.lookupDecl_eq hc ▸ h))

/-- What is known around a scope is known in it. -/
theorem Known.inside {new : List (ScopeId × ScopeKind)} (h : t.Known table c name) (ht : t.Recorded)
    (hl : t.links p = new ++ t.links c) : t.Known table p name := by
  rcases h with h | h | h
  · exact .inl h
  · obtain ⟨id, hid⟩ := List.exists_mem_of_ne_nil _ h
    obtain ⟨v, hv, hname, hon⟩ := ht.mem_lookupAll.1 hid
    refine .inr (.inl (List.ne_nil_of_mem (a := id) (ht.mem_lookupAll.2 ⟨v, hv, hname, ?_⟩)))
    rw [onChain_iff_links] at hon ⊢
    obtain ⟨x, hx, hid⟩ := hon
    exact ⟨x, hl ▸ List.mem_append_right _ hx, hid⟩
  · refine .inr (.inr ?_)
    rw [lookupDecl_eq_links] at h ⊢
    rw [hl, List.findSome?_append]
    cases new.findSome? fun link => memberDecl? ⟨link.1, none, link.2, #[], []⟩ name table with
    | none => simpa using h
    | some d => simp

/-- What is known where a scope is opened is known in it. -/
theorem Known.opened (h : t.Known table p name) (ht : t.Recorded) (hp : p.index < t.scopes.size)
    (kind : ScopeKind) : (t.openUnder p kind).2.Known table ⟨t.scopes.size⟩ name := by
  have ht' : (t.openUnder p kind).2.Recorded := ht.openUnder hp
  have hg := grows_openUnder (t := t) p kind
  refine (h.grows ht ht' hg List.prefix_rfl hp).inside ht'
    (?_ : _ = [(⟨t.scopes.size⟩, kind)] ++ _)
  rw [links_openUnder hp, hg.links_eq hp, List.singleton_append]

end SourceIr.ScopeTree
