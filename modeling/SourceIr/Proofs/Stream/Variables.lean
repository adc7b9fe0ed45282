import Mathlib.Data.List.Nodup
import SourceIr.Proofs.Stream.Graph
import SourceIr.Scope.Variable

/-!
# Declarations and uses of variables

The streams of a unit share its variables.  An instruction declares a variable, others refer to it,
in the same stream or in one that is evaluated there.

* `Stream.decls`, what is declared in a stream and in those inside it;
* `Stream.Uses`, the variables that an instruction leads to;
* `Stream.Binds`, what a stream declares is declared before its uses;
* `Stream.BindsAll`, every variable is declared once, and before its uses.
-/

namespace SourceIr

/-- The variable that an instruction declares. -/
def InstKind.declares? : InstKind → Option VarId
  | .declVar var _ => some var
  | _ => none

theorem InstKind.declares?_eq_some {kind : InstKind} {v : VarId} :
    kind.declares? = some v ↔ ∃ ptr, kind = .declVar v ptr := by
  cases kind <;> simp [declares?]

/-- The variable that an instruction declares, and the scope in which it does. -/
def Inst.decl? (x : Inst) : Option (VarId × ScopeId) := x.kind.declares?.map (·, x.scope)

theorem Inst.decl?_eq_some {x : Inst} {d : VarId × ScopeId} :
    x.decl? = some d ↔ x.kind.declares? = some d.1 ∧ x.scope = d.2 := by
  obtain ⟨v, scope⟩ := d
  simp only [decl?, Option.map_eq_some_iff, Prod.mk.injEq]
  constructor
  · rintro ⟨w, hw, rfl, rfl⟩
    exact ⟨hw, rfl⟩
  · rintro ⟨hw, rfl⟩
    exact ⟨v, hw, rfl, rfl⟩

namespace Stream

variable {s t c q : Stream} {i j : InstId} {v : VarId} {k : Nat} {vars : Array Variable}

/-! ### Declarations -/

/-- The declarations of a stream itself, with their scopes. -/
def ownDecls (s : Stream) : List (VarId × ScopeId) := s.insts.toList.filterMap Inst.decl?

mutual

/-- The declarations of a stream and of those inside it, with their scopes. -/
def decls : Stream → List (VarId × ScopeId)
  | ⟨_, insts, _, _, children, _, _, _, _⟩ =>
    insts.toList.filterMap Inst.decl? ++ declsOfAll children

/-- The declarations of all streams of a list. -/
def declsOfAll : List Stream → List (VarId × ScopeId)
  | [] => []
  | s :: rest => s.decls ++ declsOfAll rest

end

/-- The variables that are declared in a stream or in one inside it, in the order of the streams. -/
def declared (s : Stream) : List VarId := s.decls.map Prod.fst

theorem declsOfAll_eq (l : List Stream) : declsOfAll l = l.flatMap decls := by
  induction l with
  | nil => rfl
  | cons s rest ih => rw [declsOfAll, ih, List.flatMap_cons]

theorem decls_eq (s : Stream) : s.decls = s.ownDecls ++ s.children.flatMap decls := by
  obtain ⟨name, insts, blocks, current, children, poisoned, errors, warnings, isInline⟩ := s
  rw [decls, declsOfAll_eq]
  rfl

theorem mem_ownDecls {d : VarId × ScopeId} :
    d ∈ s.ownDecls ↔ ∃ i x, s.inst? i = some x ∧ x.kind.declares? = some d.1 ∧ x.scope = d.2 := by
  simp only [ownDecls, List.mem_filterMap, Inst.decl?_eq_some]
  constructor
  · rintro ⟨x, hx, h⟩
    obtain ⟨n, hn⟩ := List.mem_iff_getElem?.1 hx
    exact ⟨⟨n⟩, x, by simpa [inst?] using hn, h⟩
  · rintro ⟨i, x, hx, h⟩
    exact ⟨x, List.mem_of_getElem? (by simpa [inst?] using hx), h⟩

theorem mem_decls {d : VarId × ScopeId} :
    d ∈ s.decls ↔ d ∈ s.ownDecls ∨ ∃ c ∈ s.children, d ∈ c.decls := by
  rw [decls_eq, List.mem_append, List.mem_flatMap]

theorem mem_declared : v ∈ s.declared ↔ ∃ scope, (v, scope) ∈ s.decls := by
  simp [declared]

/-- What is declared inside a stream is declared in it. -/
theorem PartOf.declared_sublist (h : t.PartOf s) : t.declared.Sublist s.declared := by
  induction h with
  | self => exact .refl _
  | @child c s hc _ ih =>
    refine ih.trans (List.Sublist.map _ ?_)
    obtain ⟨l₁, l₂, hl⟩ := List.append_of_mem hc
    rw [decls_eq s, hl, List.flatMap_append, List.flatMap_cons]
    exact .trans (List.sublist_append_left _ _)
      (.trans (List.sublist_append_right _ _) (List.sublist_append_right _ _))

theorem PartOf.trans {r : Stream} (h : r.PartOf t) (h' : t.PartOf s) : r.PartOf s := by
  induction h' with
  | self => exact h
  | child hc _ ih => exact .child hc ih

/-! ### Instructions about variables -/

/-- An instruction declares a variable. -/
def Declares (s : Stream) (i : InstId) (v : VarId) : Prop :=
  ∃ x ptr, s.inst? i = some x ∧ x.kind = .declVar v ptr

/-- An instruction refers to a variable. -/
def RefersTo (s : Stream) (j : InstId) (v : VarId) : Prop :=
  ∃ x, s.inst? j = some x ∧ x.kind = .varPtr v

/-- An instruction evaluates the child stream at a position. -/
def Evaluates (s : Stream) (j : InstId) (k : Nat) : Prop :=
  ∃ x, s.inst? j = some x ∧ x.kind = .comptimeBlock k

/-- A variable is referred to in a stream, or in one inside it. -/
def Mentions (s : Stream) (v : VarId) : Prop :=
  ∃ (q : Stream) (j : InstId), q.PartOf s ∧ q.RefersTo j v

/-- An instruction leads to a variable: it refers to it, or it evaluates a stream that does and
that has not declared it. -/
def Uses (s : Stream) (j : InstId) (v : VarId) : Prop :=
  s.RefersTo j v ∨ ∃ k c, s.Evaluates j k ∧ s.children[k]? = some c ∧ c.Mentions v ∧ v ∉ c.declared

/-- Every path from the entry to an instruction goes through another one first. -/
def Covers (s : Stream) (i j : InstId) : Prop :=
  ∃ a b, s.Lists a i ∧ s.Lists b j ∧ (a = b ∧ s.Precedes b i j ∨ a ≠ b ∧ s.Dominates a b)

theorem Declares.mem_declared (h : s.Declares i v) : v ∈ s.declared := by
  obtain ⟨x, ptr, hx, hk⟩ := h
  refine List.mem_map.2 ⟨(v, x.scope), mem_decls.2 (.inl (mem_ownDecls.2 ⟨i, x, hx, ?_, rfl⟩)), rfl⟩
  rw [hk]
  rfl

theorem declares_iff : s.Declares i v ↔ ∃ x, s.inst? i = some x ∧ x.kind.declares? = some v := by
  constructor
  · rintro ⟨x, ptr, hx, hk⟩
    exact ⟨x, hx, InstKind.declares?_eq_some.2 ⟨ptr, hk⟩⟩
  · rintro ⟨x, hx, hk⟩
    obtain ⟨ptr, hk⟩ := InstKind.declares?_eq_some.1 hk
    exact ⟨x, ptr, hx, hk⟩

/-- What leads to a variable is an instruction of the stream. -/
theorem Uses.exists_inst (h : s.Uses j v) : ∃ x, s.inst? j = some x := by
  rcases h with ⟨x, hx, -⟩ | ⟨-, -, ⟨x, hx, -⟩, -⟩ <;> exact ⟨x, hx⟩

/-- In a list without duplicates, what two positions yield is not the same. -/
theorem index_eq_of_nodup {α β : Type} {f : α → Option β} {l : List α} (h : (l.filterMap f).Nodup)
    {m n : Nat} {x y : α} {b : β} (hx : l[m]? = some x) (hy : l[n]? = some y)
    (hfx : f x = some b) (hfy : f y = some b) : m = n := by
  -- The two positions in the order in which they come.
  have lt_absurd : ∀ {m n : Nat} {x y : α}, l[m]? = some x → l[n]? = some y → f x = some b →
      f y = some b → ¬ m < n := by
    intro m n x y hx hy hfx hfy hlt
    have hdrop : y ∈ l.drop (m + 1) := by
      refine List.mem_of_getElem? (i := n - (m + 1)) ?_
      rw [List.getElem?_drop, ← hy]
      congr 1
      omega
    have hsplit : l = l.take m ++ x :: l.drop (m + 1) := by
      obtain ⟨hm, hxm⟩ := List.getElem?_eq_some_iff.1 hx
      rw [← hxm, ← List.drop_eq_getElem_cons hm, List.take_append_drop]
    rw [hsplit, List.filterMap_append, List.filterMap_cons, hfx] at h
    have := (List.nodup_cons.1 (List.nodup_append.1 h).2.1).1
    exact this (List.mem_filterMap.2 ⟨y, hdrop, hfy⟩)
  rcases Nat.lt_trichotomy m n with h' | h' | h'
  · exact absurd h' (lt_absurd hx hy hfx hfy)
  · exact h'
  · exact absurd h' (lt_absurd hy hx hfy hfx)

/-- A variable that is declared once is declared by one instruction. -/
theorem Declares.unique (h : s.declared.Nodup) (hi : s.Declares i v) (hj : s.Declares j v) :
    i = j := by
  obtain ⟨x, hx, hkx⟩ := declares_iff.1 hi
  obtain ⟨y, hy, hky⟩ := declares_iff.1 hj
  have hown : (s.insts.toList.filterMap fun x => x.kind.declares?).Nodup := by
    have : s.insts.toList.filterMap (fun x => x.kind.declares?) = s.ownDecls.map Prod.fst := by
      simp [ownDecls, List.map_filterMap, Inst.decl?, Function.comp_def]
    rw [declared, decls_eq, List.map_append] at h
    exact this ▸ (List.nodup_append.1 h).1
  have := index_eq_of_nodup hown (by simpa [inst?] using hx) (by simpa [inst?] using hy) hkx hky
  exact congrArg InstId.mk this

/-- What a stream declares itself is not declared inside it. -/
theorem Declares.not_mem_child (h : s.declared.Nodup) (hi : s.Declares i v) (hc : c ∈ s.children) :
    v ∉ c.declared := by
  intro hv
  obtain ⟨x, hx, hk⟩ := declares_iff.1 hi
  rw [declared, decls_eq, List.map_append] at h
  refine (List.nodup_append.1 h).2.2 v ?_ v ?_ rfl
  · exact List.mem_map.2 ⟨(v, x.scope), mem_ownDecls.2 ⟨i, x, hx, hk, rfl⟩, rfl⟩
  · obtain ⟨d, hd, rfl⟩ := List.mem_map.1 hv
    exact List.mem_map_of_mem (List.mem_flatMap.2 ⟨c, hc, hd⟩)

/-! ### While a stream grows -/

section Growth

variable {s' : Stream} {kind : InstKind} {scope : ScopeId} {location : Option Location}
  {isComptime isGen : Bool}

theorem decls_congr (hi : s'.insts = s.insts) (hc : s'.children = s.children) :
    s'.decls = s.decls := by
  rw [decls_eq, decls_eq, ownDecls, ownDecls, hi, hc]

theorem uses_congr (hi : s'.insts = s.insts) (hc : s'.children = s.children) :
    s'.Uses j v ↔ s.Uses j v := by
  simp only [Uses, RefersTo, Evaluates, inst?, hi, hc]

/-- A new instruction adds what it declares. -/
theorem decls_withNext : (s.withNext kind scope location isComptime isGen).decls.Perm
    ((kind.declares?.map (·, scope)).toList ++ s.decls) := by
  have hown : (s.withNext kind scope location isComptime isGen).ownDecls =
      s.ownDecls ++ (kind.declares?.map (·, scope)).toList := by
    rw [ownDecls, ownDecls, withNext]
    cases h : kind.declares? <;> simp [Inst.decl?, h]
  have hchildren : (s.withNext kind scope location isComptime isGen).children = s.children := rfl
  rw [decls_eq, decls_eq s, hown, hchildren, ← List.append_assoc]
  exact List.perm_append_comm.append_right _

theorem exists_withNext {P : InstKind → Prop} :
    (∃ x, (s.withNext kind scope location isComptime isGen).inst? i = some x ∧ P x.kind) ↔
      (∃ x, s.inst? i = some x ∧ P x.kind) ∨ i.index = s.insts.size ∧ P kind := by
  rw [inst?_withNext]
  by_cases h : i.index = s.insts.size
  · have hnone : s.inst? i = none := Array.getElem?_eq_none (Nat.le_of_eq h.symm)
    simp [h, hnone]
  · simp [h]

theorem refersTo_withNext : (s.withNext kind scope location isComptime isGen).RefersTo j v ↔
    s.RefersTo j v ∨ j.index = s.insts.size ∧ kind = .varPtr v :=
  exists_withNext (P := (· = .varPtr v))

theorem evaluates_withNext : (s.withNext kind scope location isComptime isGen).Evaluates j k ↔
    s.Evaluates j k ∨ j.index = s.insts.size ∧ kind = .comptimeBlock k :=
  exists_withNext (P := (· = .comptimeBlock k))

theorem declares_withNext : (s.withNext kind scope location isComptime isGen).Declares i v ↔
    s.Declares i v ∨ i.index = s.insts.size ∧ kind.declares? = some v := by
  rw [declares_iff, declares_iff]
  exact exists_withNext (P := fun kind => kind.declares? = some v)

/-- What a new instruction leads to. -/
theorem uses_withNext (h : (s.withNext kind scope location isComptime isGen).Uses j v) :
    s.Uses j v ∨ j.index = s.insts.size ∧ (kind = .varPtr v ∨ ∃ k c, kind = .comptimeBlock k ∧
      s.children[k]? = some c ∧ c.Mentions v ∧ v ∉ c.declared) := by
  rcases h with h | ⟨k, c, h, hk, hc, hv⟩
  · rcases refersTo_withNext.1 h with h | ⟨hj, hkind⟩
    · exact .inl (.inl h)
    · exact .inr ⟨hj, .inl hkind⟩
  · rcases evaluates_withNext.1 h with h | ⟨hj, hkind⟩
    · exact .inl (.inr ⟨k, c, h, hk, hc, hv⟩)
    · exact .inr ⟨hj, .inr ⟨k, c, hkind, hk, hc, hv⟩⟩

theorem decls_addChild : (s.addChild c).2.decls = s.decls ++ c.decls := by
  rw [addChild_eq, decls_eq, decls_eq s]
  simp [ownDecls]

end Growth

/-! ### Declarations before uses -/

/-- What is declared in a stream is declared by the stream itself before any instruction that leads
to it, on every path; every stream inside is evaluated; and what a declaration waits for comes
before it. -/
structure Binds (vars : Array Variable) (s : Stream) : Prop where
  uses : ∀ j v, s.Uses j v → v ∈ s.declared →
    ∃ i, s.Declares i v ∧ i.index < j.index ∧ s.Covers i j
  evaluated : ∀ k, k < s.children.length → ∃ j, s.Evaluates j k
  waits : ∀ i v, s.Declares i v → ∀ x, vars[v.index]? = some x → ∀ p, x.comptime = .pending p →
    p.index < i.index

/-- What is known of a stream does not change when variables are added. -/
theorem Binds.mono {vars' : Array Variable} (h : s.Binds vars)
    (hlt : ∀ v ∈ s.declared, v.index < vars.size)
    (hvars : ∀ (i : Nat) (x : Variable), vars[i]? = some x → vars'[i]? = some x) :
    s.Binds vars' where
  uses := h.uses
  evaluated := h.evaluated
  waits i v hi x hx := by
    have hold := Array.getElem?_eq_getElem (hlt v hi.mem_declared)
    obtain rfl := Option.some.inj ((hvars _ _ hold).symm.trans hx)
    exact h.waits i v hi _ hold

/-- Every variable is declared exactly once among the streams of a unit.  In the stream that
declares it, each reference comes after the declaration, and so does the evaluation of a stream
that refers to it, on every path from the entry; nothing refers to it outside.  An instruction that
it waits for comes before the declaration. -/
structure BindsAll (vars : Array Variable) (s : Stream) : Prop where
  once : ∀ x ∈ vars, s.declared.count x.id = 1
  here : ∀ t : Stream, t.PartOf s → ∀ i j v, t.Declares i v → t.RefersTo j v →
    i.index < j.index ∧ t.Covers i j
  nested : ∀ t : Stream, t.PartOf s → ∀ i v, t.Declares i v → ∀ k c, t.children[k]? = some c →
    c.Mentions v → (∃ j, t.Evaluates j k) ∧
      ∀ j, t.Evaluates j k → i.index < j.index ∧ t.Covers i j
  inside : ∀ q : Stream, q.PartOf s → ∀ j v, q.RefersTo j v →
    ∃ (t : Stream) (i : InstId), t.PartOf s ∧ q.PartOf t ∧ t.Declares i v
  waits : ∀ t : Stream, t.PartOf s → ∀ i, ∀ x ∈ vars, t.Declares i x.id →
    ∀ p, x.comptime = .pending p → p.index < i.index

/-- A variable that is referred to in a stream is declared around the reference, or nowhere in the
stream. -/
theorem exists_declares (h : ∀ t : Stream, t.PartOf s → t.Binds vars) (hq : q.PartOf s)
    (hj : q.RefersTo j v) (hv : v ∈ s.declared) :
    ∃ (t : Stream) (i : InstId), t.PartOf s ∧ q.PartOf t ∧ t.Declares i v := by
  induction hq with
  | self =>
    obtain ⟨i, hi, -⟩ := (h q (.self q)).uses j v (.inl hj) hv
    exact ⟨q, i, .self q, .self q, hi⟩
  | @child c s hc hqc ih =>
    by_cases hvc : v ∈ c.declared
    · obtain ⟨t, i, ht, hqt, hi⟩ := ih (fun t ht => h t (.child hc ht)) hvc
      exact ⟨t, i, .child hc ht, hqt, hi⟩
    · obtain ⟨k, hk⟩ := List.mem_iff_getElem?.1 hc
      obtain ⟨e, he⟩ := (h s (.self s)).evaluated k (List.getElem?_eq_some_iff.1 hk).1
      obtain ⟨i, hi, -⟩ := (h s (.self s)).uses e v
        (.inr ⟨k, c, he, hk, ⟨q, j, hqc, hj⟩, hvc⟩) hv
      exact ⟨s, i, .self s, .child hc hqc, hi⟩

/-- Where every stream declares its variables before their uses, and every variable is declared,
the unit does. -/
theorem bindsAll_of_binds (h : ∀ t : Stream, t.PartOf s → t.Binds vars) (hnodup : s.declared.Nodup)
    (hall : ∀ x ∈ vars, x.id ∈ s.declared) (hmentions : ∀ v, s.Mentions v → v ∈ s.declared)
    (hid : ∀ x ∈ vars, vars[x.id.index]? = some x) : s.BindsAll vars where
  once x hx := List.count_eq_one_of_mem hnodup (hall x hx)
  here t ht i j v hi hj := by
    obtain ⟨i', hi', hlt, hc⟩ := (h t ht).uses j v (.inl hj) hi.mem_declared
    obtain rfl := hi.unique (ht.declared_sublist.nodup hnodup) hi'
    exact ⟨hlt, hc⟩
  nested t ht i v hi k c hk hc := by
    have hchild := List.mem_of_getElem? hk
    have ht' := ht.declared_sublist.nodup hnodup
    refine ⟨(h t ht).evaluated k (List.getElem?_eq_some_iff.1 hk).1, fun j hj => ?_⟩
    obtain ⟨i', hi', hlt, hcov⟩ := (h t ht).uses j v
      (.inr ⟨k, c, hj, hk, hc, hi.not_mem_child ht' hchild⟩) hi.mem_declared
    obtain rfl := hi.unique ht' hi'
    exact ⟨hlt, hcov⟩
  inside q hq j v hj := exists_declares h hq hj (hmentions v ⟨q, j, hq, hj⟩)
  waits t ht i x hx hi p hp := (h t ht).waits i x.id hi x (hid x hx) p hp

end Stream

end SourceIr
