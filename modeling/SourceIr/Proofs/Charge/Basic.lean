import SourceIr.Proofs.Charge.Nodes
import SourceIr.Proofs.Upkeep.Basic
import SourceIr.Proofs.Verdict.Record

/-!
# What is charged to a node

A diagnostic speaks of a place, and some node stands there.  While a routine is lowered, the nodes
that it lowers answer for the diagnostics that it leaves: each of them for one of a kind, and those
of a deferred expression for one of a kind each time that the expression is lowered.

* `Complaint`, the kinds of diagnostics, and `Stream.complaints`, how many of a kind there are;
* `Charged`, the nodes that answer for what was put on record between two states;
* `Charges`, the routines for which these nodes answer, with the rules for putting them together;
* `charging`, the routines without parts.
-/

namespace SourceIr

/-! ### Diagnostics on a place -/

/-- What a diagnostic has to say of its place. -/
inductive Complaint where
  /-- It cannot be lowered. -/
  | failure
  /-- It is a statement without effect. -/
  | noEffect
  /-- It is never reached. -/
  | unreachable
  deriving DecidableEq

/-- Whether a diagnostic is of this kind. -/
def Complaint.covers : Complaint → Message → Bool
  | failure, m => m.isFatal
  | noEffect, m => m.kind = .noEffect
  | unreachable, m => m.kind = .unreachableCode

namespace Stream

variable {s s' c : Stream} {m : Message} {k : Complaint} {location : Option Location}

/-- How many diagnostics of a kind speak of a place. -/
def complaints (s : Stream) (k : Complaint) (location : Option Location) : Nat :=
  s.diagnostics.countP fun m => k.covers m && decide (m.location = location)

theorem complaints_eq (s : Stream) (k : Complaint) (location : Option Location) :
    s.complaints k location =
      (s.errors.toList.countP fun m => k.covers m && decide (m.location = location)) +
        s.allWarnings.countP fun m => k.covers m && decide (m.location = location) :=
  List.countP_append

@[simp] theorem complaints_new {name : String} {isInline : Bool} :
    (Stream.new name isInline).complaints k location = 0 := by
  rw [complaints_eq, allWarnings_eq]
  simp [Stream.new]

/-- What does not concern diagnostics may change. -/
theorem complaints_of_eq (errors : s'.errors = s.errors) (warnings : s'.warnings = s.warnings)
    (children : s'.children = s.children) : s'.complaints k location = s.complaints k location := by
  rw [complaints_eq, complaints_eq, allWarnings_eq, allWarnings_eq, errors, warnings, children]

theorem complaints_invalidate : (s.invalidate m).complaints k location ≤
    s.complaints k location + if m.location = location then 1 else 0 := by
  rw [complaints_eq, complaints_eq, allWarnings_eq, allWarnings_eq s]
  simp only [invalidate, Array.toList_push, List.countP_append, List.countP_singleton]
  grind

theorem complaints_addWarning : (s.addWarning m).complaints k location ≤
    s.complaints k location + if m.location = location then 1 else 0 := by
  rw [complaints_eq, complaints_eq, allWarnings_eq, allWarnings_eq s]
  simp only [addWarning, Array.toList_push, List.countP_append, List.countP_singleton]
  grind

/-- What is on record in a stream that is taken in goes on record once. -/
theorem complaints_addChild : (s.addChild c).2.complaints k location ≤
    s.complaints k location + c.complaints k location := by
  have herrors : (s.addChild c).2.errors.toList.countP
      (fun m => k.covers m && decide (m.location = location)) ≤
        (s.errors.toList.countP fun m => k.covers m && decide (m.location = location)) +
          c.errors.toList.countP fun m => k.covers m && decide (m.location = location) := by
    rw [addChild_eq]
    dsimp only
    split <;> simp
  rw [complaints_eq, complaints_eq, complaints_eq c, allWarnings_addChild, List.countP_append]
  omega

end Stream

/-! ### Lowerings of deferred expressions -/

namespace ScopeTree

variable {t t' : ScopeTree}

/-- How many of the scopes were opened for deferred expressions: one for each lowering of one. -/
def deferredBodies (t : ScopeTree) : Nat :=
  (t.scopes.toList.map (·.kind)).count .deferredBody

theorem Grows.deferredBodies_le (h : t.Grows t') : t.deferredBodies ≤ t'.deferredBodies := by
  refine List.Sublist.count_le _ (List.IsPrefix.sublist ?_)
  rw [List.prefix_iff_getElem?]
  intro i hi
  obtain ⟨x', hx', -, -, hk⟩ := h i _ (Array.getElem?_eq_getElem (by simpa using hi))
  simp [hx', hk]

theorem deferredBodies_openUnder {p : ScopeId} :
    (t.openUnder p .deferredBody).2.deferredBodies = t.deferredBodies + 1 := by
  simp [deferredBodies, openUnder, push]

theorem deferredBodies_openUnder_of_ne {p : ScopeId} {kind : ScopeKind}
    (h : kind ≠ .deferredBody) : (t.openUnder p kind).2.deferredBodies = t.deferredBodies := by
  simp [deferredBodies, openUnder, push, h]

end ScopeTree

namespace Lower

variable {env : Env} {root : Node} {s s' t : State} {blamed blamed' nodes nodes' : List Node}
  {α β : Type} {x : LowerM α} {g : α → LowerM β}

/-! ### States -/

/-- The expressions that are deferred belong to a tree. -/
def State.Tame (root : Node) (s : State) : Prop := ∀ d ∈ s.deferred, root.Defers d.2

/-- What went on record between two states is charged to these nodes, and to those of the deferred
expressions that were lowered in between. -/
structure Charged (root : Node) (s s' : State) (nodes : List Node) : Prop where
  tame : s'.Tame root
  complaints : ∃ lowered : List Node, (∀ expr ∈ lowered, root.Defers expr) ∧
    s.scopes.deferredBodies + lowered.length ≤ s'.scopes.deferredBodies ∧
    ∀ kind location, s'.stream.complaints kind location ≤ s.stream.complaints kind location +
      nodesAt (nodes ++ directOfList lowered) location

namespace Charged

/-- Nothing went on record. -/
theorem of_eq (ht : s'.Tame root) (hscopes : s.scopes.Grows s'.scopes)
    (hstream : ∀ kind location,
      s'.stream.complaints kind location = s.stream.complaints kind location) :
    Charged root s s' nodes :=
  ⟨ht, [], nofun, hscopes.deferredBodies_le, fun kind location =>
    hstream kind location ▸ Nat.le_add_right _ _⟩

theorem refl (ht : s.Tame root) : Charged root s s nodes := .of_eq ht (.refl _) fun _ _ => rfl

theorem small (ht : s.Tame root) (h : Small s s') : Charged root s s' nodes :=
  .of_eq (by rwa [State.Tame, h.deferred]) h.scopes fun _ _ =>
    Stream.complaints_of_eq h.errors h.warnings h.children

theorem mono (h : Charged root s s' nodes)
    (hn : ∀ location, nodesAt nodes location ≤ nodesAt nodes' location) :
    Charged root s s' nodes' := by
  obtain ⟨ht, lowered, hl, hb, hc⟩ := h
  refine ⟨ht, lowered, hl, hb, fun kind location => Nat.le_trans (hc kind location) ?_⟩
  rw [nodesAt_append, nodesAt_append]
  exact Nat.add_le_add_left (Nat.add_le_add_right (hn location) _) _

theorem trans (h : Charged root s s' nodes) (h' : Charged root s' t nodes') :
    Charged root s t (nodes ++ nodes') := by
  obtain ⟨-, lowered, hl, hb, hc⟩ := h
  obtain ⟨ht, lowered', hl', hb', hc'⟩ := h'
  refine ⟨ht, lowered ++ lowered', fun expr he => ?_, ?_, fun kind location => ?_⟩
  · exact (List.mem_append.1 he).elim (hl expr) (hl' expr)
  · rw [List.length_append]
    omega
  · have h₁ := hc kind location
    have h₂ := hc' kind location
    simp only [directOfList_append, nodesAt_append] at h₁ h₂ ⊢
    omega

theorem step (h : Charged root s s' nodes) (h' : Small s' t) : Charged root s t nodes := by
  have hsmall : Charged root s' t [] := .small h.tame h'
  have := h.trans hsmall
  rwa [List.append_nil] at this

/-- One diagnostic on a node. -/
theorem one {m : Message} (ht : s.Tame root) (hm : ∃ node ∈ nodes, node.location = m.location)
    (hscopes : s'.scopes = s.scopes) (hdeferred : s'.deferred = s.deferred)
    (h : ∀ kind location, s'.stream.complaints kind location ≤
      s.stream.complaints kind location + if m.location = location then 1 else 0) :
    Charged root s s' nodes := by
  refine ⟨by rwa [State.Tame, hdeferred], [], nofun, Nat.le_of_eq (by rw [hscopes]; rfl),
    fun kind location => Nat.le_trans (h kind location) (Nat.add_le_add_left ?_ _)⟩
  obtain ⟨node, hnode, hl⟩ := hm
  rw [nodesAt_append]
  split
  next heq =>
    have := nodesAt_pos hnode
    rw [hl, heq] at this
    omega
  next => exact Nat.zero_le _

/-- The open evaluations do not matter. -/
theorem framed {calls calls' : CallStack} (h : Charged root { s with calls } t nodes) :
    Charged root s { t with calls := calls' } nodes := ⟨h.tame, h.complaints⟩

/-- A deferred expression that is lowered in a scope that was opened for it answers for itself. -/
theorem deferred {p : ScopeId} {expr : Node} (he : root.Defers expr)
    (h : Charged root { s with scopes := (s.scopes.openUnder p .deferredBody).2 } t
      (nodes ++ expr.direct)) : Charged root s t nodes := by
  obtain ⟨ht, lowered, hl, hb, hc⟩ := h
  refine ⟨ht, expr :: lowered, List.forall_mem_cons.2 ⟨he, hl⟩, ?_, fun kind location => ?_⟩
  · rw [ScopeTree.deferredBodies_openUnder] at hb
    rw [List.length_cons]
    omega
  · have := hc kind location
    rwa [List.append_assoc] at this

/-- What is charged to a stream is charged to the one that takes it in. -/
theorem around {node : Node} {scope : ScopeId} (h : Charged root (s.inBlock node scope) t nodes) :
    Charged root s ((s.opening scope .comptime).around t) nodes := by
  obtain ⟨ht, lowered, hl, hb, hc⟩ := h
  refine ⟨ht, lowered, hl, Nat.le_trans (Nat.add_le_add_right ?_ _) hb, fun kind location => ?_⟩
  · exact (ScopeTree.grows_openUnder scope .comptime).deferredBodies_le
  · have hnew := hc kind location
    rw [State.inBlock, State.inChild, Stream.complaints_new, Nat.zero_add] at hnew
    exact Nat.le_trans Stream.complaints_addChild (Nat.add_le_add_left hnew _)

end Charged

/-! ### Routines -/

/-- The tree defers what these nodes defer. -/
def Defers (root : Node) (nodes : List Node) : Prop :=
  ∀ node ∈ nodes, ∀ expr ∈ node.kind.deferred?, root.Defers expr

/-- How a routine ends for which these nodes answer, and where it fails also those to blame. -/
def EndsCharged (root : Node) (s : State) (blamed nodes : List Node) :
    Except Stop α × State → Prop
  | (.ok _, t) => Charged root s t nodes
  | (.error .poisoned, t) => Charged root s t (blamed ++ nodes)
  | (.error (.fault _), _) => True

/-- These nodes answer for what a routine puts on record, and where it fails also those to
blame. -/
structure Charges (env : Env) (root : Node) (blamed nodes : List Node) (x : LowerM α) : Prop where
  ends : Defers root nodes → ∀ s : State, s.Tame root →
    EndsCharged root s blamed nodes (outcome x env s)

theorem EndsCharged.before {o : Except Stop α × State} (h : Charged root s t nodes)
    (ho : EndsCharged root t blamed nodes' o) : EndsCharged root s blamed (nodes ++ nodes') o := by
  obtain ⟨(_ | _) | _, _⟩ := o
  · refine (h.trans ho).mono fun location => ?_
    simp only [nodesAt_append]
    omega
  · trivial
  · exact h.trans ho

theorem EndsCharged.weaken {o : Except Stop α × State} (h : EndsCharged root s blamed nodes o)
    (hreturns : ∀ location, nodesAt nodes location ≤ nodesAt nodes' location)
    (hfails : ∀ location,
      nodesAt (blamed ++ nodes) location ≤ nodesAt (blamed' ++ nodes') location) :
    EndsCharged root s blamed' nodes' o := by
  obtain ⟨(_ | _) | _, _⟩ := o
  · exact Charged.mono h hfails
  · trivial
  · exact Charged.mono h hreturns

/-- More nodes answer as well, those that were to blame among them. -/
theorem Charges.absorb (h : Charges env root blamed nodes x)
    (hs : (blamed ++ nodes).Sublist nodes') : Charges env root blamed' nodes' x := by
  refine ⟨fun hd s ht => ?_⟩
  refine (h.ends (fun node hn => hd node (hs.subset (List.mem_append_right _ hn))) s ht).weaken
    (fun location => nodesAt_le ((List.sublist_append_right _ _).trans hs)) fun location => ?_
  exact Nat.le_trans (nodesAt_le hs) (nodesAt_le (List.sublist_append_right _ _))

theorem Charges.mono (h : Charges env root blamed nodes x) (hs : nodes.Sublist nodes') :
    Charges env root blamed nodes' x := by
  refine ⟨fun hd s ht => ?_⟩
  refine (h.ends (fun node hn => hd node (hs.subset hn)) s ht).weaken
    (fun location => nodesAt_le hs) fun location => ?_
  rw [nodesAt_append, nodesAt_append]
  exact Nat.add_le_add_left (nodesAt_le hs) _

theorem charges_pure (a : α) : Charges env root blamed nodes (pure a) :=
  ⟨fun _ _ ht => .refl ht⟩

theorem charges_poisoned : Charges env root blamed nodes (throw .poisoned : LowerM α) :=
  ⟨fun _ _ ht => .refl ht⟩

theorem charges_fault (f : Fault) : Charges env root blamed nodes (throw (.fault f) : LowerM α) :=
  ⟨fun _ _ _ => trivial⟩

theorem charges_bind (hx : Charges env root blamed nodes x)
    (hg : ∀ a, Charges env root blamed nodes' (g a)) :
    Charges env root blamed (nodes ++ nodes') (x >>= g) := by
  refine ⟨fun hd s ht => ?_⟩
  have hright := fun node hn => hd node (List.mem_append_right nodes hn)
  have ho := hx.ends (fun node hn => hd node (List.mem_append_left _ hn)) s ht
  rw [outcome_bind]
  generalize outcome x env s = o at ho
  obtain ⟨(_ | _) | a, t⟩ := o
  · refine Charged.mono ho fun location => ?_
    simp only [nodesAt_append]
    omega
  · trivial
  · exact .before ho ((hg a).ends hright t (Charged.tame ho))

theorem charges_ite {p : Prop} [Decidable p] {y : LowerM α}
    (hx : Charges env root blamed nodes x) (hy : Charges env root blamed nodes y) :
    Charges env root blamed nodes (if p then x else y) := by
  split
  · exact hx
  · exact hy

/-- What those to blame for a failure answer for where the routine returns. -/
theorem charges_bind_blamed (hx : Charges env root blamed nodes x)
    (hg : ∀ a, Charges env root [] blamed (g a)) :
    Charges env root [] (blamed ++ nodes) (x >>= g) := by
  refine ⟨fun hd s ht => ?_⟩
  have hleft := fun node hn => hd node (List.mem_append_left nodes hn)
  have ho := hx.ends (fun node hn => hd node (List.mem_append_right _ hn)) s ht
  rw [outcome_bind]
  generalize outcome x env s = o at ho
  obtain ⟨(_ | _) | a, t⟩ := o
  · exact ho
  · trivial
  · have h := EndsCharged.before ho ((hg a).ends hleft t (Charged.tame ho))
    refine h.weaken (fun location => ?_) fun location => ?_ <;>
      simp only [nodesAt_append] <;> omega

theorem charges_fail {m : Message} (hm : ∃ node ∈ blamed, node.location = m.location) :
    Charges env root blamed nodes (fail m : LowerM α) := by
  refine ⟨fun _ s ht => ?_⟩
  obtain ⟨log, h⟩ := @outcome_fail α env s m
  rw [h]
  have hl : (s.recorded env.options.callStackLimit m).location = m.location := by
    rw [State.recorded]
    split <;> rfl
  obtain ⟨node, hn, hnode⟩ := hm
  exact .one ht ⟨node, List.mem_append_left _ hn, hnode.trans hl.symm⟩ rfl rfl fun _ _ =>
    Stream.complaints_invalidate

theorem charges_warnAt {kind : DiagnosticKind} {message : String} {node : Node}
    (hn : node ∈ nodes) : Charges env root blamed nodes (warnAt kind message node) :=
  ⟨fun _ _ ht => .one ht ⟨node, hn, rfl⟩ rfl rfl fun _ _ => Stream.complaints_addWarning⟩

theorem charges_step (hx : Step x) : Charges env root blamed nodes x := by
  refine ⟨fun _ s ht => ?_⟩
  have h := hx.ends env s
  generalize outcome x env s = o at h
  obtain ⟨(_ | _) | a, t⟩ := o
  · exact h.elim
  · trivial
  · exact .small ht h

theorem charges_attempt (hx : Charges env root [] nodes x) :
    Charges env root blamed nodes (attempt x) := by
  refine ⟨fun hd s ht => ?_⟩
  have ho := hx.ends hd s ht
  rw [outcome_attempt]
  generalize outcome x env s = o at ho
  obtain ⟨(_ | _) | a, t⟩ := o
  · exact ho
  · trivial
  · exact ho

/-- A routine after one that looks at the options. -/
theorem charges_read {g : Env → LowerM β} (h : Charges env root blamed nodes (g env)) :
    Charges env root blamed nodes (read >>= g) :=
  ⟨h.ends⟩

/-- A routine after one that looks at the state. -/
theorem charges_get {g : State → LowerM β} (h : ∀ s, Charges env root blamed nodes (g s)) :
    Charges env root blamed nodes (get >>= g) :=
  ⟨fun hd s ht => (h s).ends hd s ht⟩

theorem charges_declare {scope : ScopeId} {r : BindingRequest}
    (hr : ∃ node ∈ blamed, node.location = r.location) :
    Charges env root blamed nodes (declare scope r) := by
  refine ⟨fun hd s ht => ?_⟩
  have h := outcome_declare? env s scope r
  rw [declare, outcome_bind]
  generalize outcome (declare? scope r) env s = o at h
  cases h with
  | fault => trivial
  | declared h => exact .small ht h
  | refused h hl =>
    rw [← hl] at hr
    exact (charges_fail hr).ends hd s ht

/-- The routines that nothing is charged to but where they fail. -/
def charging (env : Env) (root : Node) (blamed : List Node) : Outline where
  Rel x _ := Charges env root blamed [] x
  At location := ∃ node ∈ blamed, node.location = location
  rel_pure a := charges_pure a
  rel_bind hx hg := charges_bind hx hg
  rel_get _ h := charges_get h
  rel_lookup scopes scope name _ _ hx hy := charges_read <| by
    split
    · exact hx _
    · exact charges_step (step_emitWith _ _ _ _ _)
    · exact hy
  rel_fault _ := charges_fault _
  rel_fail _ hat := charges_fail hat
  rel_unlessFailed var h := by
    refine ⟨fun hd s ht => ?_⟩
    rw [outcome_bind, outcome_get]
    dsimp only
    split
    · exact charges_poisoned.ends hd s ht
    · exact h.ends hd s ht
  rel_step hx := charges_step hx.toStep
  rel_declare _ _ hat := charges_declare hat

/-- A routine without parts. -/
theorem charges_same (h : (charging env root blamed).Same x) : Charges env root blamed nodes x :=
  Charges.mono h (List.nil_sublist _)

/-- A routine without parts comes first. -/
theorem charges_then (hx : (charging env root blamed).Same x)
    (hg : ∀ a, Charges env root blamed nodes (g a)) : Charges env root blamed nodes (x >>= g) :=
  charges_bind hx hg

/-- A routine without parts comes last. -/
theorem charges_last (hx : Charges env root blamed nodes x)
    (hg : ∀ a, (charging env root blamed).Same (g a)) :
    Charges env root blamed nodes (x >>= g) := by
  have h := charges_bind hx hg
  rwa [List.append_nil] at h

/-- A check comes first, which may fail on nodes that answer for what comes after it. -/
theorem charges_check (hx : (charging env root nodes').Same x) (hs : nodes'.Sublist nodes)
    (hg : ∀ a, Charges env root blamed nodes (g a)) :
    Charges env root blamed nodes (x >>= g) := by
  refine ⟨fun hd s ht => ?_⟩
  have ho := Charges.ends hx nofun s ht
  rw [outcome_bind]
  generalize outcome x env s = o at ho
  obtain ⟨(_ | _) | a, t⟩ := o
  · refine Charged.mono ho fun location => ?_
    rw [List.append_nil]
    exact nodesAt_le (hs.trans (List.sublist_append_right _ _))
  · trivial
  · have hx : Charged root s t [] := ho
    exact .before hx ((hg a).ends hd t hx.tame)

theorem charges_orDeclareFailed {node : Node} {name : String} {scope : ScopeId}
    (hx : Charges env root blamed nodes x) :
    Charges env root blamed nodes (orDeclareFailed x node name scope) := by
  refine ⟨fun hd s ht => ?_⟩
  have ho := hx.ends hd s ht
  rw [orDeclareFailed, outcome_bind, outcome_attempt]
  generalize outcome x env s = o at ho
  obtain ⟨(_ | _) | a, t⟩ := o
  · dsimp only
    rw [declareFailed, outcome_bind]
    have h := outcome_declare? env t scope (.named name node.location)
    generalize outcome (declare? scope (.named name node.location)) env t = o at h
    cases h with
    | fault => trivial
    | @declared var u h =>
      have hu : Charged root t { u with failedVars := var :: u.failedVars } [] :=
        .of_eq (by simpa [State.Tame, h.deferred] using Charged.tame ho) h.scopes fun _ _ =>
          Stream.complaints_of_eq h.errors h.warnings h.children
      have := Charged.trans ho hu
      rwa [List.append_nil] at this
    | refused => exact ho
  · trivial
  · exact ho

theorem charges_withFrame {location : Option Location} {description : String}
    (hx : Charges env root blamed nodes x) :
    Charges env root blamed nodes (withFrame location description x) := by
  refine ⟨fun hd s ht => ?_⟩
  have ho := hx.ends hd { s with calls := s.calls.push ⟨location, description⟩ } ht
  rw [withFrame, outcome_bind, outcome_modify]
  dsimp only
  rw [outcome_bind, outcome_attempt]
  generalize outcome x env { s with calls := s.calls.push ⟨location, description⟩ } = o at ho
  obtain ⟨(_ | _) | a, t⟩ := o
  · exact Charged.framed ho
  · trivial
  · exact Charged.framed ho

/-- An expression is deferred. -/
theorem charges_defer {scope : ScopeId} {kind : DeferKind} {node expr : Node}
    (hn : node ∈ nodes) (he : node.kind.deferred? = some expr) :
    Charges env root blamed nodes (do
      let after ← openScope scope (.deferred kind)
      remember after expr
      return after) := by
  refine ⟨fun hd s ht => ?_⟩
  rw [outcome_bind]
  obtain ⟨f, -, ho⟩ | ⟨-, ho⟩ := outcome_openScope_cases (s := s) scope (.deferred kind) <;>
    rw [ho]
  · trivial
  · refine .of_eq (fun d hmem => ?_) (ScopeTree.grows_openUnder _ _) fun _ _ => rfl
    rcases List.mem_cons.1 hmem with rfl | hmem
    · exact hd node hn expr he
    · exact ht d hmem

end Lower

end SourceIr
