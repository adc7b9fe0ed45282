import Mathlib.Data.List.TakeWhile
import SourceIr.Proofs.Scope.Index

/-!
# Declaring a variable

Whether the name of a request is taken is a matter of what is visible in the scope, of the
primitive types and of the declarations in sight.  A variable that is declared changes what one name
refers to, in its scope and in the scopes inside, as far as no scope between them has an answer of
its own; everything else is looked up as before.

* `ScopeTree.Taken`, the reasons to refuse a name, with `Listed.bindingError?_ne_none_iff`;
* `ScopeTree.inner` and `ScopeTree.Answers`, the scopes that decide before one further out;
* `ScopeTree.Adds`, what a variable changes, with `Listed.adds_addVar`;
* `ScopeTree.Built.declares_exactly`, both ways in which a request ends.
-/

namespace SourceIr.ScopeTree

variable {t t' : ScopeTree} {s u : ScopeId} {x : Scope} {r : BindingRequest} {name : String}
  {table : DeclTable} {id : VarId} {v : Variable}

/-! ### Names that are taken -/

/-- A variable of this name is visible from a scope. -/
def Visible (t : ScopeTree) (s : ScopeId) (name : String) (v : Variable) : Prop :=
  v ∈ t.vars ∧ v.name = some name ∧ t.OnChain v.scope s

/-- Why the name of a request is taken in a scope. -/
inductive Taken (t : ScopeTree) (table : DeclTable) (s : ScopeId) (name : String)
    (r : BindingRequest) : Prop
  /-- A visible variable may not be shadowed. -/
  | fixed {v : Variable} (visible : t.Visible s name v) (own : v.isShadowable = false)
  /-- A variable is visible, and the new one may not be shadowed. -/
  | strict {v : Variable} (visible : t.Visible s name v) (own : r.isShadowable = false)
  | primitive (type : isPrimitiveType name = true)
  | declaration {d : Decl} (sight : t.lookupDecl s name table = some d)

namespace Listed

/-- The visible variables of a name are those that a look-up for all of them finds. -/
theorem mem_filterMap_lookupAll (h : t.Listed) :
    v ∈ (t.lookupAll s name).filterMap t.var? ↔ t.Visible s name v := by
  rw [List.mem_filterMap]
  constructor
  · rintro ⟨id, hid, hv⟩
    obtain ⟨w, hw, hname, hon⟩ := h.recorded.mem_lookupAll.1 hid
    obtain rfl := Option.some.inj (hv.symm.trans hw)
    exact ⟨Array.mem_of_getElem? hv, hname, hon⟩
  · rintro ⟨hmem, hname, hon⟩
    have hv := (h.recorded.var_of_mem hmem).1
    exact ⟨v.id, h.recorded.mem_lookupAll.2 ⟨v, hv, hname, hon⟩, hv⟩

theorem clash?_ne_none_iff (h : t.Listed) : t.clash? s name r ≠ none ↔
    ∃ v, t.Visible s name v ∧ (v.isShadowable = false ∨ r.isShadowable = false) := by
  simp only [clash?, ne_eq, List.find?_eq_none, h.mem_filterMap_lookupAll, not_forall,
    Bool.or_eq_true, Bool.not_eq_true', not_not, exists_prop]

/-- A name is refused if it is taken, and only then. -/
theorem nameError?_ne_none_iff (h : t.Listed) :
    t.nameError? s name r table ≠ none ↔ t.Taken table s name r := by
  have hclash : t.clash? s name r ≠ none ↔ _ := h.clash?_ne_none_iff
  rw [nameError?]
  constructor
  · intro herror
    split at herror
    next previous hprevious =>
      obtain ⟨v, hv, hown | hown⟩ := hclash.1 (by simp [hprevious])
      · exact .fixed hv hown
      · exact .strict hv hown
    next =>
      split at herror
      next htype => exact .primitive htype
      next =>
        obtain ⟨m, hm⟩ := Option.ne_none_iff_exists'.1 herror
        obtain ⟨d, hd, -⟩ := Option.map_eq_some_iff.1 hm
        exact .declaration hd
  · intro htaken
    split
    next => exact Option.some_ne_none _
    next hnone =>
      have free : ∀ v, t.Visible s name v →
          ¬ (v.isShadowable = false ∨ r.isShadowable = false) := fun v hv hown =>
        hclash.2 ⟨v, hv, hown⟩ hnone
      split
      next => exact Option.some_ne_none _
      next htype =>
        cases htaken with
        | fixed hv hown => exact absurd (.inl hown) (free _ hv)
        | strict hv hown => exact absurd (.inr hown) (free _ hv)
        | primitive h => exact absurd h htype
        | declaration hd => simp [hd]

/-- A request is refused if it is checked and its name is taken, and only then. -/
theorem bindingError?_ne_none_iff (h : t.Listed) : t.bindingError? s r table ≠ none ↔
    r.skipNameCheck = false ∧ ∃ name, r.name = some name ∧ t.Taken table s name r := by
  rw [bindingError?]
  cases hname : r.name with
  | none => simp
  | some name =>
    cases hskip : r.skipNameCheck with
    | true => simp
    | false => simpa using h.nameError?_ne_none_iff

end Listed

/-! ### Scopes that decide -/

/-- The scopes strictly inside `s` on the way out of another one. -/
def inner (t : ScopeTree) (s u : ScopeId) : List Scope := (t.chain u).takeWhile (·.id != s)

/-- A scope has an answer of its own to a name: one of its variables or a member of its container
has it. -/
def Answers (t : ScopeTree) (table : DeclTable) (name : String) (x : Scope) : Prop :=
  (∃ v ∈ t.vars, v.scope = x.id ∧ v.name = some name) ∨ ∃ d, memberDecl? x name table = some d

/-- The way out of a scope to one around it and on. -/
theorem chain_eq_inner (hon : t.OnChain s u) :
    ∃ x rest, t.chain u = t.inner s u ++ x :: rest ∧ x.id = s := by
  cases hd : (t.chain u).dropWhile (·.id != s) with
  | nil =>
    obtain ⟨x, hx, hid⟩ := hon
    have hne := List.dropWhile_eq_nil_iff.1 hd x hx
    simp [hid] at hne
  | cons x rest =>
    refine ⟨x, rest, ?_, ?_⟩
    · rw [inner, ← hd, List.takeWhile_append_dropWhile]
    · have hhead := List.head?_dropWhile_not (·.id != s) (t.chain u)
      rw [hd] at hhead
      simpa using hhead

theorem ne_of_mem_inner (hx : x ∈ t.inner s u) : x.id ≠ s := by
  simpa using List.mem_takeWhile_imp hx

theorem mem_chain_of_mem_inner (hx : x ∈ t.inner s u) : x ∈ t.chain u :=
  (List.takeWhile_sublist _).subset hx

/-- A scope with an answer of its own decides what a name refers to. -/
theorem Listed.answers_iff (h : t.Listed) (hx : t.scope? x.id = some x) :
    t.Answers table name x ↔ resolveIn x name table ≠ none := by
  have hnewest : (∃ v ∈ t.vars, v.scope = x.id ∧ v.name = some name) ↔
      t.newest? x.id name ≠ none := by
    simp only [newest?, ne_eq, List.find?_eq_none, List.mem_reverse, mem_declaredIn, beq_iff_eq,
      not_forall, not_not, exists_prop, and_assoc]
  rw [Answers, hnewest, resolveIn, h.lookup_names hx]
  cases t.newest? x.id name with
  | some v => simp
  | none => simp [Option.eq_none_iff_forall_ne_some]

/-! ### What a new variable changes -/

/-- A scope of a tree in which a variable is declared in `s`. -/
def addedTo (s : ScopeId) (id : VarId) (name : Option String) (x : Scope) : Scope :=
  if x.id = s then withVar id name x else x

/-- The chains keep their scopes, and only `s` has a variable more. -/
theorem WellFormed.chain_addVar_eq_map (ht : t.WellFormed) (u : ScopeId) :
    (t.addVar s r).2.chain u = (t.chain u).map (addedTo s ⟨t.vars.size⟩ r.name) := by
  obtain ⟨i⟩ := u
  induction i using Nat.strongRecOn with
  | ind i ih =>
    cases hx : t.scopes[i]? with
    | none =>
      rw [chain, chain, chainAt_eq_nil hx, chainAt_eq_nil (by rw [getElem?_addVar, hx]; simp)]
      rfl
    | some x =>
      have hx' : (t.addVar s r).2.scope? ⟨i⟩ = some (addedTo s ⟨t.vars.size⟩ r.name x) := by
        rw [scope?, getElem?_addVar, hx, addedTo, ht.id i x hx]
        by_cases hi : s.index = i
        · rw [if_pos hi, if_pos (congrArg ScopeId.mk hi.symm), Option.map_some]
        · rw [if_neg hi, if_neg fun e => hi (congrArg ScopeId.index e).symm]
      have hparent : (addedTo s ⟨t.vars.size⟩ r.name x).parent = x.parent := by
        rw [addedTo]
        split <;> rfl
      rw [(ht.addVar r).chain_eq hx', ht.chain_eq hx, List.map_cons, hparent]
      cases hp : x.parent with
      | none => rfl
      | some p => exact congrArg _ (ih p.index (ht.parent i x hx p hp))

theorem map_addedTo {scopes : List Scope} {own : Option String} (h : ∀ x ∈ scopes, x.id ≠ s) :
    scopes.map (addedTo s id own) = scopes :=
  List.map_congr_left (g := fun x => x) (fun x hx => if_neg (h x hx)) |>.trans (List.map_id' _)

/-- What a name refers to by a scope with one more variable. -/
theorem resolveIn_withVar {own : Option String} :
    resolveIn (withVar id own x) name table =
      if own = some name then some (.var id) else resolveIn x name table := by
  have hmember : memberDecl? (withVar id own x) name table = memberDecl? x name table := rfl
  rw [resolveIn, hmember, resolveIn]
  cases own with
  | none => rfl
  | some other =>
    by_cases h : name = other
    · simp [withVar, h]
    · have hname : (name == other) = false := by simpa using h
      simp [withVar, List.lookup_cons, hname, Ne.symm h]

/-- What the declaration of a variable changes. -/
structure Adds (t : ScopeTree) (s : ScopeId) (r : BindingRequest) (id : VarId) (t' : ScopeTree) :
    Prop where
  /-- There is one more variable, as it was asked for. -/
  vars : t'.vars = t.vars.push { r with id, scope := s }
  fresh : id.index = t.vars.size
  /-- Other names, and scopes outside of that of the variable, are left alone. -/
  apart : ∀ (u : ScopeId) (name : String) (table : DeclTable),
    ¬ (r.name = some name ∧ t.OnChain s u) → t'.lookup u name table = t.lookup u name table
  /-- The name refers to the variable where no scope further in has an answer, -/
  rebinds : ∀ (u : ScopeId) (name : String) (table : DeclTable),
    r.name = some name → t.OnChain s u →
      (t'.lookup u name table = some (.var id) ↔ ∀ x ∈ t.inner s u, ¬ t.Answers table name x)
  /-- and to what it referred to before elsewhere. -/
  keeps : ∀ (u : ScopeId) (name : String) (table : DeclTable),
    r.name = some name → t.OnChain s u → (∃ x ∈ t.inner s u, t.Answers table name x) →
      t'.lookup u name table = t.lookup u name table

namespace Listed

theorem lookup_addVar_of_name_ne (h : t.Listed) (hname : r.name ≠ some name) :
    (t.addVar s r).2.lookup u name table = t.lookup u name table := by
  rw [lookup_eq_or, lookup_eq_or, h.scopes.chain_addVar_eq_map, List.findSome?_map]
  congr 2
  funext x
  rw [Function.comp_apply, addedTo]
  split
  · rw [resolveIn_withVar, if_neg hname]
  · rfl

theorem lookup_addVar_of_not_onChain (h : t.Listed) (hon : ¬ t.OnChain s u) :
    (t.addVar s r).2.lookup u name table = t.lookup u name table := by
  have hne : ∀ x ∈ t.chain u, x.id ≠ s := fun x hx hid => hon ⟨x, hx, hid⟩
  rw [lookup_eq_or, lookup_eq_or, h.scopes.chain_addVar_eq_map, map_addedTo hne]

/-- The scopes further in decide, and then the variable does. -/
theorem lookup_addVar_of_onChain (h : t.Listed) (hname : r.name = some name)
    (hon : t.OnChain s u) : (t.addVar s r).2.lookup u name table =
      ((t.inner s u).findSome? (resolveIn · name table)).or (some (.var ⟨t.vars.size⟩)) := by
  obtain ⟨x, rest, hchain, hid⟩ := chain_eq_inner hon
  rw [lookup_eq_or, h.scopes.chain_addVar_eq_map, hchain, List.map_append, List.map_cons,
    map_addedTo fun y => ne_of_mem_inner, addedTo, if_pos hid, List.findSome?_append,
    List.findSome?_cons, resolveIn_withVar, if_pos hname, Option.or_assoc, Option.some_or]

/-- A declaration changes nothing but what its name refers to in its scope and inside. -/
theorem adds_addVar (h : t.Listed) (s : ScopeId) (r : BindingRequest) :
    t.Adds s r ⟨t.vars.size⟩ (t.addVar s r).2 := by
  have hanswers : ∀ {u table name}, ∀ x ∈ t.inner s u,
      (t.Answers table name x ↔ resolveIn x name table ≠ none) := fun {u _ _} x hx =>
    h.answers_iff (h.scopes.scope?_of_mem (mem_chain_of_mem_inner hx))
  have keeps : ∀ u name table, r.name = some name → t.OnChain s u →
      (∃ x ∈ t.inner s u, t.Answers table name x) →
        (t.addVar s r).2.lookup u name table = t.lookup u name table := by
    rintro u name table hname hon ⟨x, hx, hanswer⟩
    have hsome : ((t.inner s u).findSome? (resolveIn · name table)).isSome = true :=
      List.findSome?_isSome_iff.2
        ⟨x, hx, Option.isSome_iff_ne_none.2 ((hanswers x hx).1 hanswer)⟩
    obtain ⟨answer, hfound⟩ := Option.isSome_iff_exists.1 hsome
    obtain ⟨y, rest, hchain, -⟩ := chain_eq_inner hon
    rw [h.lookup_addVar_of_onChain hname hon, lookup_eq_or, hchain, List.findSome?_append, hfound]
    rfl
  refine ⟨rfl, rfl, fun u name table hno => ?_, fun u name table hname hon => ?_, keeps⟩
  · by_cases hname : r.name = some name
    · exact h.lookup_addVar_of_not_onChain fun hon => hno ⟨hname, hon⟩
    · exact h.lookup_addVar_of_name_ne hname
  · constructor
    · -- What is found further in was there before, and the variable was not.
      intro hvar x hx hanswer
      rw [keeps u name table hname hon ⟨x, hx, hanswer⟩] at hvar
      obtain ⟨v, hv, -⟩ := h.recorded.onChain_of_lookup hvar
      exact Nat.lt_irrefl _ (Array.getElem?_eq_some_iff.1 hv).1
    · intro hfree
      rw [h.lookup_addVar_of_onChain hname hon, List.findSome?_eq_none_iff.2, Option.none_or]
      exact fun x hx => not_not.1 (mt (hanswers x hx).2 (hfree x hx))

end Listed

/-! ### The two ends of a request -/

/-- A lowering that is refused a variable goes on as it was. -/
theorem outcome_declare?_of_error {env : Lower.Env} {st : Lower.State} {m : Message}
    (hfault : st.scopes.bindingFault? s r = none)
    (h : st.scopes.declare s r env.table = .error m) :
    Lower.outcome (Lower.declare? s r) env st = (.ok (.error m), st) := by
  rw [Lower.declare?, Lower.outcome_bind, Lower.outcome_read]
  dsimp only
  rw [Lower.outcome_bind, Lower.outcome_get]
  dsimp only
  rw [Lower.outcome_bind, hfault, Lower.outcome_stopAt_none]
  simp only [h, Lower.outcome_pure]

theorem declare_eq_error_iff :
    (∃ m, t.declare s r table = .error m) ↔ t.bindingError? s r table ≠ none := by
  rw [declare]
  cases t.bindingError? s r table <;> simp

/-- A request for a variable is answered.  It is refused exactly if it is checked and its name is
taken; then a lowering goes on as it was.  Otherwise the variable is declared, and nothing changes
but what its name refers to in its scope and inside. -/
theorem Built.declares_exactly (h : t.Built) (hs : s.index < t.scopes.size) (r : BindingRequest)
    (table : DeclTable) :
    t.bindingFault? s r = none ∧
      ((∃ m, t.declare s r table = .error m) ↔
        r.skipNameCheck = false ∧ ∃ name, r.name = some name ∧ t.Taken table s name r) ∧
      (∀ m, t.declare s r table = .error m → ∀ (env : Lower.Env) (st : Lower.State),
        env.table = table → st.scopes = t →
          Lower.outcome (Lower.declare? s r) env st = (.ok (.error m), st)) ∧
      ∀ id t', t.declare s r table = .ok (id, t') → t.Adds s r id t' := by
  have hl := h.listed
  have hfault := hl.scopes.bindingFault?_eq_none hs r
  refine ⟨hfault, ?_, ?_, fun id t' hd => ?_⟩
  · rw [declare_eq_error_iff, hl.bindingError?_ne_none_iff]
  · rintro m hm env st rfl rfl
    exact outcome_declare?_of_error hfault hm
  · obtain ⟨rfl, rfl⟩ := Prod.mk.inj (declare_eq_ok hd)
    exact hl.adds_addVar s r

/-- A name that is taken is refused, and another one refers to the variable from the block on. -/
theorem declares_exactly_repeatsName :
    (∃ m, repeatsName.declare ⟨1⟩ (.named "a" none) (.empty "t") = .error m) ∧
      ∃ id t', repeatsName.declare ⟨1⟩ (.named "b" none) (.empty "t") = .ok (id, t') ∧
        t'.lookup ⟨2⟩ "b" (.empty "t") = some (.var id) := by
  have refused := (built_repeatsName.declares_exactly (s := ⟨1⟩) (by decide) (.named "a" none)
    (.empty "t")).2.1
  have added := (built_repeatsName.declares_exactly (s := ⟨1⟩) (by decide) (.named "b" none)
    (.empty "t")).2.2.2
  have htaken : repeatsName.clash? ⟨1⟩ "a" (.named "a" none) ≠ none := by decide +kernel
  obtain ⟨v, hv, -⟩ := built_repeatsName.listed.clash?_ne_none_iff.1 htaken
  have hon : repeatsName.OnChain ⟨1⟩ ⟨2⟩ := by
    have hany : (repeatsName.chain ⟨2⟩).any (·.id = ⟨1⟩) = true := by decide +kernel
    simpa [OnChain] using hany
  have hfree : ∀ x ∈ repeatsName.inner ⟨1⟩ ⟨2⟩, resolveIn x "b" (.empty "t") = none := by
    decide +kernel
  have hd : repeatsName.declare ⟨1⟩ (.named "b" none) (.empty "t") =
      .ok (repeatsName.addVar ⟨1⟩ (.named "b" none)) := by
    have hnone : repeatsName.bindingError? ⟨1⟩ (.named "b" none) (.empty "t") = none := by
      decide +kernel
    rw [declare, hnone]
  refine ⟨refused.2 ⟨rfl, "a", rfl, .strict hv rfl⟩, _, _, hd,
    ((added _ _ hd).rebinds ⟨2⟩ "b" _ rfl hon).2 fun x hx hanswer => ?_⟩
  have hx' := built_repeatsName.listed.scopes.scope?_of_mem (mem_chain_of_mem_inner hx)
  exact (built_repeatsName.listed.answers_iff hx').1 hanswer (hfree x hx)

end SourceIr.ScopeTree
