import SourceIr.Proofs.Comparison.Drift
import SourceIr.Proofs.Comparison.Routines
import SourceIr.Proofs.Nesting.Ids

/-!
# Deferred expressions that are pending

An exit lowers deferred expressions that were written elsewhere.  Which ones it can meet depends on
the scope it stands in: those that were deferred around it, up to the function or to the deferred
expression that it is part of.

* `pendingOn`, the nodes of the expressions that are pending on a chain of scopes;
* `Within`, a scope with room for what is pending there, and `Remembers`, how states change;
* `ClearTo`, a way out that does not leave a deferred expression, and `count_le_pendingOn`, what is
  lowered on such a way.
-/

namespace SourceIr.Lower

variable {s s' s'' : State} {scope parent : ScopeId} {p q : List Nat}
  {deferred deferred' : List (ScopeId × Node)} {links : List (ScopeId × ScopeKind)}

/-- The numbers of the nodes that are pending on a chain of scopes. -/
def pendingOn (deferred : List (ScopeId × Node)) : List (ScopeId × ScopeKind) → List Nat
  | [] => []
  | (scope, kind) :: outer =>
    match kind with
    | .deferredBody | .fnDef _ | .topLevel _ | .container _ => []
    | .deferred _ => idsOfOption (deferred.lookup scope) ++ pendingOn deferred outer
    | _ => pendingOn deferred outer

theorem pendingOn_congr (h : ∀ x ∈ links, deferred'.lookup x.1 = deferred.lookup x.1) :
    pendingOn deferred' links = pendingOn deferred links := by
  induction links with
  | nil => rfl
  | cons x outer ih =>
    have ih := ih fun y hy => h y (List.mem_cons_of_mem x hy)
    have hx := h x List.mem_cons_self
    obtain ⟨scope, kind⟩ := x
    cases kind <;> simp only [pendingOn, ih, hx]

/-- Scopes are in order, and expressions are deferred only in scopes that are there. -/
structure Tidy (s : State) : Prop where
  scopes : s.scopes.WellFormed
  deferred : ∀ x : ScopeId, s.scopes.scopes.size ≤ x.index → s.deferred.lookup x = none

/-- How states change: the scopes that are there keep their places and their expressions. -/
structure Remembers (s s' : State) : Prop where
  tidy : Tidy s → Tidy s'
  scopes : s.scopes.Grows s'.scopes
  deferred : ∀ x : ScopeId, x.index < s.scopes.scopes.size →
    s'.deferred.lookup x = s.deferred.lookup x

namespace Remembers

theorem refl (s : State) : Remembers s s := ⟨id, .refl _, fun _ _ => rfl⟩

theorem trans (h : Remembers s s') (h' : Remembers s' s'') : Remembers s s'' where
  tidy := h'.tidy ∘ h.tidy
  scopes := h.scopes.trans h'.scopes
  deferred x hx := by
    rw [h'.deferred x (Nat.lt_of_lt_of_le hx h.scopes.size_le), h.deferred x hx]

theorem of_eq (hscopes : s'.scopes = s.scopes) (hdeferred : s'.deferred = s.deferred) :
    Remembers s s' where
  tidy h := ⟨hscopes ▸ h.scopes, by rw [hscopes, hdeferred]; exact h.deferred⟩
  scopes := hscopes ▸ .refl _
  deferred _ _ := by rw [hdeferred]

end Remembers

theorem Small.remembers (h : Small s s') : Remembers s s' where
  tidy ht := ⟨h.wellFormed ht.scopes, fun x hx => by
    rw [h.deferred]
    exact ht.deferred x (Nat.le_trans h.scopes.size_le hx)⟩
  scopes := h.scopes
  deferred _ _ := by rw [h.deferred]

/-- A scope is there, and no more is pending in it than there is room for. -/
structure Within (p : List Nat) (s : State) (scope : ScopeId) : Prop where
  lt : scope.index < s.scopes.scopes.size
  links : ∀ x ∈ s.scopes.links scope, x.1.index < s.scopes.scopes.size
  room : ∀ i, (pendingOn s.deferred (s.scopes.links scope)).count i ≤ p.count i

namespace Within

theorem mono (h : Within p s scope) (hr : Remembers s s') : Within p s' scope := by
  have hlinks := hr.scopes.links_eq h.lt
  refine ⟨Nat.lt_of_lt_of_le h.lt hr.scopes.size_le, ?_, ?_⟩
  · rw [hlinks]
    exact fun x hx => Nat.lt_of_lt_of_le (h.links x hx) hr.scopes.size_le
  · rw [hlinks, pendingOn_congr fun x hx => hr.deferred x.1 (h.links x hx)]
    exact h.room

theorem weaken (h : Within p s scope) (hq : ∀ i, p.count i ≤ q.count i) : Within q s scope :=
  ⟨h.lt, h.links, fun i => Nat.le_trans (h.room i) (hq i)⟩

/-- A scope with its chain, in scopes that are in order. -/
theorem of_wellFormed (ht : s.scopes.WellFormed) (hs : scope.index < s.scopes.scopes.size)
    (hroom : ∀ i, (pendingOn s.deferred (s.scopes.links scope)).count i ≤ p.count i) :
    Within p s scope := by
  refine ⟨hs, fun x hx => ?_, hroom⟩
  obtain ⟨y, hy, rfl⟩ := List.mem_map.1 hx
  exact Nat.lt_of_le_of_lt (ht.index_le_of_mem hy) hs

/-- A scope that is opened has the room that its parent has. -/
theorem openUnder (h : Within p s parent) (ht : Tidy s) (kind : ScopeKind) :
    Within p { s with scopes := (s.scopes.openUnder parent kind).2 } ⟨s.scopes.scopes.size⟩ := by
  have hlinks : (s.scopes.openUnder parent kind).2.links ⟨s.scopes.scopes.size⟩ =
      (⟨s.scopes.scopes.size⟩, kind) :: s.scopes.links parent := ScopeTree.links_openUnder h.lt
  refine .of_wellFormed (ht.scopes.openUnder h.lt) (by simp) fun i => ?_
  dsimp only
  rw [hlinks]
  have hnew := ht.deferred ⟨s.scopes.scopes.size⟩ (Nat.le_refl _)
  cases kind <;> simp only [pendingOn, hnew, idsOfOption, List.nil_append, List.count_nil] <;>
    first | exact h.room i | exact Nat.zero_le _

/-- Nothing is pending in a deferred expression at its start. -/
theorem openBody (h : parent.index < s.scopes.scopes.size) (ht : Tidy s) :
    Within [] { s with scopes := (s.scopes.openUnder parent .deferredBody).2 }
      ⟨s.scopes.scopes.size⟩ := by
  refine .of_wellFormed (ht.scopes.openUnder h) (by simp) fun i => ?_
  dsimp only
  rw [ScopeTree.links_openUnder h]
  exact Nat.le_refl _

end Within

/-- The state after an expression was deferred under a scope. -/
def State.deferring (s : State) (parent : ScopeId) (kind : DeferKind) (expr : Node) : State :=
  { s with
    scopes := (s.scopes.openUnder parent (.deferred kind)).2
    deferred := (⟨s.scopes.scopes.size⟩, expr) :: s.deferred }

variable {kind : DeferKind} {expr : Node}

/-- An expression that is deferred in a new scope is not looked up anywhere else. -/
theorem lookup_deferring {x : ScopeId} (hx : x ≠ ⟨s.scopes.scopes.size⟩) :
    (s.deferring parent kind expr).deferred.lookup x = s.deferred.lookup x := by
  rw [State.deferring, List.lookup_cons, beq_false_of_ne hx]

theorem remembers_deferring (h : parent.index < s.scopes.scopes.size) :
    Remembers s (s.deferring parent kind expr) where
  tidy ht := by
    refine ⟨ht.scopes.openUnder h, fun x hx => ?_⟩
    have hx : s.scopes.scopes.size + 1 ≤ x.index := by simpa [State.deferring] using hx
    rw [lookup_deferring (by rintro rfl; exact Nat.lt_irrefl _ hx)]
    exact ht.deferred x (Nat.le_of_lt hx)
  scopes := ScopeTree.grows_openUnder parent _
  deferred x hx := lookup_deferring (by rintro rfl; exact Nat.lt_irrefl _ hx)

theorem links_deferring (h : parent.index < s.scopes.scopes.size) :
    (s.deferring parent kind expr).scopes.links ⟨s.scopes.scopes.size⟩ =
      (⟨s.scopes.scopes.size⟩, .deferred kind) :: s.scopes.links parent :=
  ScopeTree.links_openUnder h

/-- Whatever a routine does, it keeps what scopes remember. -/
def remembering : Drift where
  Le := Remembers
  refl := .refl
  trans := .trans
  small := Small.remembers
  aside _ hscopes hdeferred := .of_eq hscopes hdeferred
  invalidate _ _ := .of_eq rfl rfl
  addWarning _ _ := .of_eq rfl rfl
  defer h := remembers_deferring h
  enter := .of_eq rfl rfl
  leave := fun {s t name root} h =>
    have hstart : Remembers s (s.inChild name root) := .of_eq rfl rfl
    (hstart.trans h).trans (.of_eq rfl rfl : Remembers t (s.around t))

theorem relParts_remembering {env : Env} (levels : Nat) :
    (remembering.comparison env).RelParts (nested levels) (nested levels) := by
  have deep : ∀ {α : Type} node, (remembering.comparison env).Same (failDepth node : LowerM α) :=
    fun _ s => Drift.holds_bind (x := read) (.refl s) fun _ _ =>
      Drift.holds_fail_of fun _ _ => .of_eq rfl rfl
  induction levels with
  | zero => exact ⟨fun node _ _ => deep node, fun node _ => deep node⟩
  | succ levels ih =>
    exact ⟨fun node scope loc => NestedComparison.rel_lowerExpr scope node loc ih,
      fun node scope => Comparison.rel_lowerStatement scope node ih⟩

/-- What is deferred is pending in the scope that is opened for it. -/
theorem Within.deferring (h : Within p s parent) (ht : Tidy s) :
    Within (expr.ids ++ p) (s.deferring parent kind expr) ⟨s.scopes.scopes.size⟩ := by
  refine .of_wellFormed (ht.scopes.openUnder h.lt) (by simp [State.deferring]) fun i => ?_
  rw [links_deferring h.lt, pendingOn, List.count_append, List.count_append,
    pendingOn_congr fun x hx => (remembers_deferring h.lt).deferred x.1 (h.links x hx)]
  refine Nat.add_le_add ?_ (h.room i)
  simp [State.deferring, idsOfOption]

/-! ### Ways out -/

/-- The way outward to a target, or to the function if there is none, does not leave a deferred
expression. -/
def ClearTo (target : Option ScopeId) : List (ScopeId × ScopeKind) → Prop
  | [] => True
  | (scope, kind) :: outer =>
    some scope = target ∨ kind.endsJumps = true ∨ kind ≠ .deferredBody ∧ ClearTo target outer

/-- What is lowered on a way out that is clear is pending there. -/
theorem count_le_pendingOn {l : List Scope} {target : Option ScopeId} {d : ScopeId × DeferKind}
    {e : Node} (hc : ClearTo target (l.map fun x => (x.id, x.kind)))
    (hd : d ∈ ScopeTree.defersIn target l) (he : deferred.lookup d.1 = some e) (i : Nat) :
    e.ids.count i ≤ (pendingOn deferred (l.map fun x => (x.id, x.kind))).count i := by
  induction l with
  | nil => cases hd
  | cons x outer ih =>
    rw [ScopeTree.defersIn] at hd
    split at hd
    · cases hd
    next hx =>
      rw [List.map_cons, ClearTo] at hc
      have hc := hc.resolve_left hx
      rw [List.map_cons]
      cases hk : x.kind <;> rw [hk] at hc hd <;> simp only [pendingOn]
      case fnDef | topLevel | container => cases hd
      case deferredBody => exact absurd rfl (hc.resolve_left nofun).1
      case deferred kind =>
        have hc := (hc.resolve_left nofun).2
        rw [List.count_append]
        rcases List.mem_cons.1 hd with rfl | hd
        · rw [he]
          exact Nat.le_add_right _ _
        · exact Nat.le_trans (ih hc hd) (Nat.le_add_left _ _)
      all_goals exact ih (hc.resolve_left nofun).2 hd

/-- A jump that finds its target does not leave a deferred expression. -/
theorem clearTo_of_found {jump : JumpKind} {label : Option String} {l : List Scope} {d : ScopeId}
    (h : ScopeTree.jumpTargetIn jump label l = .found d) :
    ClearTo (some d) (l.map fun x => (x.id, x.kind)) := by
  induction l with
  | nil => trivial
  | cons x outer ih =>
    have here : JumpTarget.found x.id = .found d → ClearTo (some d)
        ((x :: outer).map fun x => (x.id, x.kind)) := fun e =>
      .inl (congrArg some (JumpTarget.found.inj e))
    have out : x.kind ≠ .deferredBody → ScopeTree.jumpTargetIn jump label outer = .found d →
        ClearTo (some d) ((x :: outer).map fun x => (x.id, x.kind)) := fun hk h =>
      .inr (.inr ⟨hk, ih h⟩)
    rw [ScopeTree.jumpTargetIn] at h
    split at h
    · cases h
    · cases label <;> cases h
    · cases label <;> cases h
    · cases label <;> cases h
    next hk =>
      split at h
      · exact here h
      · exact out (hk ▸ nofun) h
    next hk =>
      split at h
      · cases jump
        · exact here h
        · cases h
      · exact out (hk ▸ nofun) h
    next hk _ _ _ _ _ => exact out hk h

/-- The function is left from inside of no deferred expression. -/
theorem clearTo_none {l : List Scope}
    (h : (l.takeWhile (!·.kind.isFn)).any (·.kind == .deferredBody) = false) :
    ClearTo none (l.map fun x => (x.id, x.kind)) := by
  induction l with
  | nil => trivial
  | cons x outer ih =>
    rw [List.map_cons, ClearTo]
    by_cases hfn : x.kind.isFn = true
    · refine .inr (.inl ?_)
      cases hk : x.kind <;> rw [hk] at hfn <;> first | rfl | cases hfn
    · rw [List.takeWhile_cons_of_pos (by simpa using hfn), List.any_cons,
        Bool.or_eq_false_iff] at h
      exact .inr (.inr ⟨by simpa using h.1, ih h.2⟩)

end SourceIr.Lower
