import SourceIr.Proofs.Decl.Visible
import SourceIr.Proofs.Scope.Visible

/-!
# The lists of variables

The variables of a unit stand in one list, in the order in which they were declared.  Each scope
keeps two lists besides: its own variables in that order, and their names with the newest first.
Whichever operations made the scopes, both are read off the list of the unit.  So a look-up by the
names of the scopes and one by their variables cannot disagree.

* `ScopeTree.Built`, the scopes that can be made from none;
* `ScopeTree.declaredIn` and `ScopeTree.newest?`, the variables of a scope by the list of the unit;
* `ScopeTree.Listed`, the two lists of a scope are read off it, with `Built.listed`;
* `ScopeTree.refersTo`, what a name refers to by the list of the unit alone;
* `ScopeTree.Built.lists_agree`, what the lists of scopes and variables have in common.
-/

namespace SourceIr.ScopeTree

variable {t : ScopeTree} {s p : ScopeId} {x : Scope} {kind : ScopeKind} {r : BindingRequest}
  {name : String} {table : DeclTable} {id : VarId} {v : Variable}

/-- The scopes that can be made from none: scopes are opened, outermost ones or under one that is
there, and variables are declared in scopes that are there.  A request that is refused leaves the
scopes as they are. -/
inductive Built : ScopeTree → Prop
  | empty : Built .empty
  | openTop {t : ScopeTree} (root : String) (before : Built t) : Built (t.openTop root).2
  | openUnder {t : ScopeTree} {p : ScopeId} (kind : ScopeKind) (before : Built t)
      (parent : p.index < t.scopes.size) : Built (t.openUnder p kind).2
  | declare {t : ScopeTree} {s : ScopeId} {r : BindingRequest} {table : DeclTable}
      {v : VarId × ScopeTree} (before : Built t) (scope : s.index < t.scopes.size)
      (done : t.declare s r table = .ok v) : Built v.2

/-- The variables of a scope, in the order in which they were declared. -/
def declaredIn (t : ScopeTree) (s : ScopeId) : List Variable :=
  t.vars.toList.filter (·.scope = s)

/-- The variable of a name that was declared last in a scope. -/
def newest? (t : ScopeTree) (s : ScopeId) (name : String) : Option Variable :=
  (t.declaredIn s).reverse.find? (·.name == some name)

/-- The entry of a variable among the names of its scope. -/
def naming? (v : Variable) : Option (String × VarId) := v.name.map (·, v.id)

theorem mem_declaredIn : v ∈ t.declaredIn s ↔ v ∈ t.vars ∧ v.scope = s := by
  simp [declaredIn]

@[simp] theorem declaredIn_push (parent : Option ScopeId) (c : ScopeId) :
    (t.push parent kind).2.declaredIn c = t.declaredIn c := rfl

theorem declaredIn_addVar (c : ScopeId) : (t.addVar s r).2.declaredIn c =
    t.declaredIn c ++ if s = c then [{ r with id := ⟨t.vars.size⟩, scope := s }] else [] := by
  simp only [declaredIn, addVar, Array.toList_push, List.filter_append]
  split <;> simp [*]

/-! ### What the lists are read off -/

/-- Handles are positions, and the lists of a scope are those of the variables declared in it. -/
structure Listed (t : ScopeTree) : Prop where
  scopes : t.WellFormed
  var : ∀ (i : Nat) (v : Variable), t.vars[i]? = some v →
    v.id = ⟨i⟩ ∧ v.scope.index < t.scopes.size
  vars : ∀ (i : Nat) (x : Scope), t.scopes[i]? = some x →
    x.vars.toList = (t.declaredIn ⟨i⟩).map (·.id)
  names : ∀ (i : Nat) (x : Scope), t.scopes[i]? = some x →
    x.names = (t.declaredIn ⟨i⟩).reverse.filterMap naming?

theorem listed_empty : ScopeTree.empty.Listed := by
  refine ⟨⟨?_, ?_, ?_⟩, ?_, ?_, ?_⟩ <;> (intro i x h; simp [ScopeTree.empty] at h)

namespace Listed

/-- No variable is declared in a scope that is yet to be opened. -/
theorem declaredIn_next (h : t.Listed) : t.declaredIn ⟨t.scopes.size⟩ = [] := by
  refine List.eq_nil_iff_forall_not_mem.2 fun v hv => ?_
  obtain ⟨hmem, hscope⟩ := mem_declaredIn.1 hv
  obtain ⟨i, hi⟩ := Array.mem_iff_getElem?.1 hmem
  have hlt := (h.var i v hi).2
  rw [hscope] at hlt
  exact Nat.lt_irrefl _ hlt

theorem push {parent : Option ScopeId} (h : t.Listed)
    (hp : ∀ p ∈ parent, p.index < t.scopes.size) : (t.push parent kind).2.Listed where
  scopes := h.scopes.push hp
  var i v hv := by
    have := h.var i v hv
    simp only [ScopeTree.push, Array.size_push]
    exact ⟨this.1, Nat.lt_succ_of_lt this.2⟩
  vars i x hx := by
    obtain ⟨rfl, rfl⟩ | hx := scope_of_push hx
    · rw [declaredIn_push, h.declaredIn_next]
      rfl
    · exact h.vars i x hx
  names i x hx := by
    obtain ⟨rfl, rfl⟩ | hx := scope_of_push hx
    · rw [declaredIn_push, h.declaredIn_next]
      rfl
    · exact h.names i x hx

theorem addVar (h : t.Listed) (hs : s.index < t.scopes.size) (r : BindingRequest) :
    (t.addVar s r).2.Listed where
  scopes := h.scopes.addVar r
  var i v hv := by
    rw [size_addVar]
    obtain ⟨rfl, rfl⟩ | hv := var_of_addVar hv
    · exact ⟨rfl, hs⟩
    · exact h.var i v hv
  vars i x hx := by
    rw [declaredIn_addVar]
    obtain ⟨rfl, x₀, hx₀, rfl⟩ | ⟨hne, hx⟩ := scope_of_addVar hx
    · simp [withVar, h.vars i x₀ hx₀]
    · simp [hne, h.vars i x hx]
  names i x hx := by
    rw [declaredIn_addVar]
    obtain ⟨rfl, x₀, hx₀, rfl⟩ | ⟨hne, hx⟩ := scope_of_addVar hx
    · rw [if_pos rfl, List.reverse_append, List.filterMap_append, ← h.names i x₀ hx₀]
      cases hname : r.name <;> simp [withVar, naming?, hname]
    · simp [hne, h.names i x hx]

/-- Variables and scopes name each other. -/
theorem recorded (h : t.Listed) : t.Recorded where
  scopes := h.scopes
  var i v hv := by
    obtain ⟨hid, hlt⟩ := h.var i v hv
    have hx : t.scope? v.scope = some t.scopes[v.scope.index] := Array.getElem?_eq_getElem hlt
    refine ⟨hid, _, hx, Array.mem_toList_iff.1 ?_⟩
    rw [h.vars _ _ hx]
    exact List.mem_map_of_mem (mem_declaredIn.2 ⟨Array.mem_of_getElem? hv, rfl⟩)
  held i x hx id hid := by
    rw [← Array.mem_toList_iff, h.vars i x hx] at hid
    obtain ⟨v, hv, rfl⟩ := List.mem_map.1 hid
    obtain ⟨hv, hscope⟩ := mem_declaredIn.1 hv
    obtain ⟨n, hn⟩ := Array.mem_iff_getElem?.1 hv
    exact ⟨v, by rw [var?, (h.var n v hn).1]; exact hn, hscope⟩
  named i x hx e he := by
    rw [h.names i x hx] at he
    obtain ⟨v, hv, hentry⟩ := List.mem_filterMap.1 he
    obtain ⟨-, -, rfl⟩ := Option.map_eq_some_iff.1 hentry
    rw [← Array.mem_toList_iff, h.vars i x hx]
    exact List.mem_map_of_mem (List.mem_reverse.1 hv)

end Listed

theorem Built.listed (h : t.Built) : t.Listed := by
  induction h with
  | empty => exact listed_empty
  | openTop root _ ih => exact ih.push nofun
  | openUnder kind _ hp ih => exact ih.push fun _ hq => Option.some.inj hq ▸ hp
  | declare _ hs hd ih => exact declare_eq_ok hd ▸ ih.addVar hs _

/-! ### Looking a name up -/

/-- A look-up among names finds the first variable of the name. -/
theorem lookup_filterMap_naming? (l : List Variable) :
    (l.filterMap naming?).lookup name = (l.find? (·.name == some name)).map (·.id) := by
  induction l with
  | nil => rfl
  | cons v l ih =>
    cases hv : v.name with
    | none =>
      have : naming? v = none := by simp [naming?, hv]
      rw [List.filterMap_cons_none this, ih, List.find?_cons_of_neg (by simp [hv])]
    | some own =>
      have : naming? v = some (own, v.id) := by simp [naming?, hv]
      rw [List.filterMap_cons_some this, List.lookup_cons]
      by_cases h : name = own
      · simp [h, hv]
      · have hown : (name == own) = false := by simpa using h
        rw [hown, ih, List.find?_cons_of_neg (by simpa [hv] using Ne.symm h)]

/-- What a name refers to where these scopes are around, the innermost first: in each scope its
newest variable of that name, else the member of its container, and after the last scope what the
table has under the name. -/
def refersTo (t : ScopeTree) (name : String) (table : DeclTable) : List Scope → Option Resolved
  | [] => (table.get? name).map (.decl ·.id)
  | x :: outer =>
    match t.newest? x.id name with
    | some v => some (.var v.id)
    | none =>
      match memberDecl? x name table with
      | some d => some (.decl d.id)
      | none => t.refersTo name table outer

namespace Listed

/-- The name of a scope's variable leads to the newest one. -/
theorem lookup_names (h : t.Listed) (hx : t.scope? x.id = some x) :
    x.names.lookup name = (t.newest? x.id name).map (·.id) := by
  rw [h.names x.id.index x hx]
  exact lookup_filterMap_naming? _

/-- So does going through the scope's variables from the end. -/
theorem head?_named (h : t.Listed) (hx : t.scope? x.id = some x) :
    (x.vars.toList.reverse.filter (t.isNamed name)).head? = (t.newest? x.id name).map (·.id) := by
  have hnamed : ∀ v ∈ (t.declaredIn x.id).reverse,
      t.isNamed name v.id = (v.name == some name) := by
    intro v hv
    obtain ⟨hv, -⟩ := mem_declaredIn.1 (List.mem_reverse.1 hv)
    obtain ⟨n, hn⟩ := Array.mem_iff_getElem?.1 hv
    rw [isNamed, var?, (h.var n v hn).1, hn, Option.any_some]
  rw [h.vars x.id.index x hx, ← List.map_reverse, List.filter_map, List.head?_map, newest?,
    ← List.head?_filter]
  exact congrArg (fun l => Option.map (·.id) (List.head? l)) (List.filter_congr hnamed)

/-- A look-up agrees with the list of the unit's variables. -/
theorem findSome?_resolveIn (h : t.Listed) {scopes : List Scope}
    (hscopes : ∀ x ∈ scopes, t.scope? x.id = some x) :
    (scopes.findSome? (resolveIn · name table)).or ((table.get? name).map (.decl ·.id)) =
      t.refersTo name table scopes := by
  induction scopes with
  | nil => rfl
  | cons x outer ih =>
    have ih := ih fun y hy => hscopes y (List.mem_cons_of_mem x hy)
    rw [List.findSome?_cons, resolveIn, h.lookup_names (hscopes x List.mem_cons_self), refersTo]
    cases t.newest? x.id name with
    | some v => rfl
    | none =>
      cases memberDecl? x name table with
      | some d => rfl
      | none => exact ih

/-- A variable that a name refers to comes first among those of the name. -/
theorem head?_of_refersTo (h : t.Listed) {scopes : List Scope}
    (hscopes : ∀ x ∈ scopes, t.scope? x.id = some x)
    (href : t.refersTo name table scopes = some (.var id)) :
    ((scopes.flatMap fun sc => sc.vars.toList.reverse).filter (t.isNamed name)).head? =
      some id := by
  induction scopes with
  | nil =>
    obtain ⟨d, -, hd⟩ := Option.map_eq_some_iff.1 href
    cases hd
  | cons x outer ih =>
    rw [List.flatMap_cons, List.filter_append, List.head?_append,
      h.head?_named (hscopes x List.mem_cons_self)]
    rw [refersTo] at href
    cases hv : t.newest? x.id name with
    | some v =>
      rw [hv] at href
      exact congrArg _ (Resolved.var.inj (Option.some.inj href))
    | none =>
      rw [hv] at href
      cases hd : memberDecl? x name table with
      | some d => simp [hd] at href
      | none =>
        rw [hd] at href
        exact ih (fun y hy => hscopes y (List.mem_cons_of_mem x hy)) href

end Listed

/-! ### The walk outward -/

/-- The scopes from one outward: after each comes its parent, and the last one has none. -/
inductive Outward (t : ScopeTree) : ScopeId → List Scope → Prop
  | last {s : ScopeId} {x : Scope} (here : t.scope? s = some x) (top : x.parent = none) :
    Outward t s [x]
  | step {s p : ScopeId} {x : Scope} {outer : List Scope} (here : t.scope? s = some x)
      (parent : x.parent = some p) (rest : Outward t p outer) : Outward t s (x :: outer)

/-- The chain of a scope is the walk from it to an outermost scope. -/
theorem WellFormed.outward_chain (ht : t.WellFormed) (hs : s.index < t.scopes.size) :
    t.Outward s (t.chain s) := by
  obtain ⟨i⟩ := s
  induction i using Nat.strongRecOn with
  | ind i ih =>
    have hx : t.scope? ⟨i⟩ = some t.scopes[i] := Array.getElem?_eq_getElem hs
    rw [ht.chain_eq hx]
    cases hp : (t.scopes[i]).parent with
    | none => exact .last hx hp
    | some p =>
      have hlt := ht.parent i _ hx p hp
      exact .step hx hp (ih p.index hlt (Nat.lt_trans hlt hs))

/-! ### What the lists have in common -/

/-- The lists of scopes and variables tell the same. -/
structure Consistent (t : ScopeTree) : Prop where
  /-- A scope stands at the position of its handle, after its parent. -/
  scope : ∀ (i : Nat) (x : Scope), t.scopes[i]? = some x →
    x.id = ⟨i⟩ ∧ ∀ p ∈ x.parent, p.index < i
  /-- A chain goes from parent to parent, to a scope without one. -/
  chain : ∀ s : ScopeId, s.index < t.scopes.size → t.Outward s (t.chain s)
  /-- A variable stands at the position of its handle, and is listed by the scope that it names
  and by no other one. -/
  var : ∀ (i : Nat) (v : Variable), t.vars[i]? = some v →
    v.id = ⟨i⟩ ∧ ∃ x, t.scope? v.scope = some x ∧ v.id ∈ x.vars ∧
      ∀ y ∈ t.scopes, v.id ∈ y.vars → y = x
  /-- A scope lists variables that are there, the earlier ones first and each once. -/
  listed : ∀ x ∈ t.scopes, (∀ id ∈ x.vars, id.index < t.vars.size) ∧
    x.vars.toList.Pairwise (·.index < ·.index)
  /-- A name refers to what the variables of the unit say. -/
  lookup : ∀ (s : ScopeId) (name : String) (table : DeclTable),
    t.lookup s name table = t.refersTo name table (t.chain s)
  /-- A variable that a name refers to comes first among the visible ones of the name. -/
  first : ∀ (s : ScopeId) (name : String) (table : DeclTable) (id : VarId),
    t.lookup s name table = some (.var id) → (t.lookupAll s name).head? = some id

theorem Listed.pairwise_vars (h : t.Listed) {i : Nat} (hx : t.scopes[i]? = some x) :
    x.vars.toList.Pairwise (·.index < ·.index) := by
  rw [h.vars i x hx, List.pairwise_map]
  refine List.Pairwise.sublist List.filter_sublist (List.pairwise_iff_getElem.2 ?_)
  intro i j hi hj hij
  have hid : ∀ (n : Nat) (hn : n < t.vars.toList.length), (t.vars.toList[n]).id = ⟨n⟩ :=
    fun n hn => (h.var n _ (Array.getElem?_eq_getElem (by simpa using hn))).1
  rw [hid i hi, hid j hj]
  exact hij

/-- A variable is listed by the scope that it names, and by no other one. -/
theorem Recorded.exists_scope (h : t.Recorded) {i : Nat} (hv : t.vars[i]? = some v) :
    ∃ x, t.scope? v.scope = some x ∧ v.id ∈ x.vars ∧ ∀ y ∈ t.scopes, v.id ∈ y.vars → y = x := by
  obtain ⟨hid, x, hx, hmem⟩ := h.var i v hv
  refine ⟨x, hx, hmem, fun y hy hmem' => ?_⟩
  obtain ⟨j, hj⟩ := Array.mem_iff_getElem?.1 hy
  obtain ⟨w, hw, hscope⟩ := h.held j y hj v.id hmem'
  rw [hid] at hw
  obtain rfl : v = w := Option.some.inj (hv.symm.trans hw)
  rw [hscope] at hx
  exact Option.some.inj (hj.symm.trans hx)

/-- Whichever operations made the scopes, their lists and the one of the variables agree. -/
theorem Built.lists_agree (h : t.Built) : t.Consistent := by
  have hl := h.listed
  have hscopes : ∀ s, ∀ x ∈ t.chain s, t.scope? x.id = some x := fun s x hx =>
    hl.scopes.scope?_of_mem hx
  have hlookup : ∀ s name table, t.lookup s name table = t.refersTo name table (t.chain s) :=
    fun s name table => by rw [lookup_eq_or, hl.findSome?_resolveIn (hscopes s)]
  refine ⟨fun i x hx => ⟨hl.scopes.id i x hx, hl.scopes.parent i x hx⟩,
    fun s hs => hl.scopes.outward_chain hs,
    fun i v hv => ⟨(hl.var i v hv).1, hl.recorded.exists_scope hv⟩, fun x hx => ?_, hlookup,
    fun s name table id hvar => ?_⟩
  · obtain ⟨i, hi⟩ := Array.mem_iff_getElem?.1 hx
    exact ⟨hl.scopes.vars i x hi, hl.pairwise_vars hi⟩
  · rw [hlookup] at hvar
    exact hl.head?_of_refersTo (hscopes s) hvar

/-- A variable that the lowering invents may always be declared. -/
theorem Built.addVar_synthesized (h : t.Built) (hs : s.index < t.scopes.size) (own : Option String)
    (location : Option Location) : (t.addVar s (.synthesized own location)).2.Built := by
  have hd : t.declare s (.synthesized own location) (.empty "") =
      .ok (t.addVar s (.synthesized own location)) := by cases own <;> rfl
  exact h.declare hs hd

/-- A function with two variables of one name, and a block in it. -/
def repeatsName : ScopeTree :=
  let body := ((ScopeTree.empty.openTop "t").2.openUnder ⟨0⟩ (.fnDef "f")).2
  let earlier := (body.addVar ⟨1⟩ (.synthesized (some "a") none)).2
  let later := (earlier.addVar ⟨1⟩ (.synthesized (some "a") none)).2
  (later.openUnder ⟨1⟩ (.block none none)).2

theorem built_repeatsName : repeatsName.Built :=
  have body := (Built.empty.openTop "t").openUnder (p := ⟨0⟩) (.fnDef "f") (by decide)
  have earlier := body.addVar_synthesized (s := ⟨1⟩) (by decide) (some "a") none
  have later := earlier.addVar_synthesized (s := ⟨1⟩) (by decide) (some "a") none
  later.openUnder (.block none none) (by decide)

theorem lists_agree_repeatsName :
    repeatsName.lookup ⟨2⟩ "a" (.empty "t") = some (.var ⟨1⟩) ∧
      (repeatsName.lookupAll ⟨2⟩ "a").head? = some ⟨1⟩ := by
  have h : repeatsName.lookup ⟨2⟩ "a" (.empty "t") = some (.var ⟨1⟩) := by decide +kernel
  exact ⟨h, built_repeatsName.lists_agree.first ⟨2⟩ "a" (.empty "t") ⟨1⟩ h⟩

end SourceIr.ScopeTree
