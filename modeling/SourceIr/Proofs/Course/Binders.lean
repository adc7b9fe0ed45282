import SourceIr.Proofs.Course.Unit
import SourceIr.Proofs.Scope.Visible

/-!
# What binds names

A variable is declared for a parameter, a capture, the index of a loop or a local declaration of the
tree, and where its name is taken, the diagnostic is laid to one of these.  The name `_` is none for
parameters and captures.

* `Node.Binds`, the names that a tree binds, with their places;
* `Collision`, the diagnostics on names that are taken;
* `Lower.Accounted`, a state whose variables and collisions come from a tree, and
  `Lower.Course.accounted`, which a lowering of the tree keeps;
* `Lowering.discards_bind_nothing`, where variables and collisions named `_` come from.
-/

namespace SourceIr

/-- A tree binds a name, at the place of one of its nodes. -/
def Node.Binds (root : Node) (name : String) (location : Option Location) : Prop :=
  ∃ t : Task, t.node ∈ root.nodes ∧ t.Binds name location

/-- What is said of a name that is taken. -/
def takenTexts (name : String) : List String :=
  ["redeclaration of variable '", "variable shadows primitive type '", "redefinition of '"].map
    (· ++ name ++ "'")

/-- A diagnostic on a name that a tree binds and that is taken: by what the tree binds as well, by a
primitive type or by a declaration. -/
structure Collision (root : Node) (name : String) (m : Message) : Prop where
  text : m.message ∈ takenTexts name
  binds : root.Binds name m.location
  previous : ∀ note ∈ m.notes, note.message = "previous declaration here" →
    root.Binds name note.location

namespace ScopeTree

variable {t : ScopeTree} {c : ScopeId} {table : DeclTable} {root : Node} {r : BindingRequest}
  {m : Message}

/-- The variable in the way of a name has that name. -/
theorem Recorded.name_of_clash? (ht : t.Recorded) {name : String} {v : Variable}
    (h : t.clash? c name r = some v) : v ∈ t.vars ∧ v.name = some name := by
  obtain ⟨id, hid, hv⟩ := List.mem_filterMap.1 (List.mem_of_find?_eq_some h)
  obtain ⟨w, hw, hname, -⟩ := ht.mem_lookupAll.1 hid
  rw [hw] at hv
  obtain rfl := Option.some.inj hv
  exact ⟨Array.mem_of_getElem? hw, hname⟩

/-- A request that is refused is one for a name that is taken. -/
theorem collision_of_bindingError? (ht : t.Recorded)
    (hvars : ∀ v ∈ t.vars, ∀ name, v.name = some name → root.Binds name v.location)
    (hr : ∀ name, r.name = some name → root.Binds name r.location)
    (h : t.bindingError? c r table = some m) : ∃ name, Collision root name m := by
  rw [bindingError?] at h
  split at h
  next name hname =>
    split at h
    · cases h
    rw [nameError?] at h
    split at h
    next previous hclash =>
      obtain ⟨hmem, hprevious⟩ := ht.name_of_clash? hclash
      cases h
      refine ⟨name, .head _, hr name hname, fun note hnote _ => ?_⟩
      obtain rfl := List.mem_singleton.1 (show note ∈ [_] from hnote)
      exact hvars previous hmem name hprevious
    · split at h
      · cases h
        refine ⟨name, .tail _ (.head _), hr name hname, fun note hnote htext => ?_⟩
        obtain rfl := List.mem_singleton.1 (show note ∈ [_] from hnote)
        exact absurd (show "primitive type declared here" = _ from htext) (by decide)
      · obtain ⟨d, -, rfl⟩ := Option.map_eq_some_iff.1 h
        refine ⟨name, .tail _ (.tail _ (.head _)), hr name hname, fun note hnote htext => ?_⟩
        obtain rfl := List.mem_singleton.1 (show note ∈ [_] from hnote)
        exact absurd (show "previous definition here" = _ from htext) (by decide)
  · cases h

end ScopeTree

namespace Lower

variable {env : Env} {s s' : State} {ok : Bool} {l : Nat} {t : Task} {c : ScopeId} {root : Node}
  {m : Message}

/-- The variables of a state, and the diagnostics on names that are taken, come from a tree. -/
structure Accounted (root : Node) (s : State) : Prop where
  recorded : s.scopes.Recorded
  deferred : ∀ d ∈ s.deferred, d.2 ∈ root.nodes
  named : ∀ v ∈ s.scopes.vars, ∀ name, v.name = some name → root.Binds name v.location
  errors : ∀ m ∈ s.stream.errors, m.issuer = "create_local_var" → ∃ name, Collision root name m

namespace Accounted

theorem congr (h : Accounted root s) (hscopes : s'.scopes = s.scopes)
    (hdeferred : s'.deferred = s.deferred) (herrors : s'.stream.errors = s.stream.errors) :
    Accounted root s' := by
  constructor
  · exact hscopes ▸ h.recorded
  · exact hdeferred ▸ h.deferred
  · exact hscopes ▸ h.named
  · exact herrors ▸ h.errors

theorem opening {p : ScopeId} (h : Accounted root s) (hp : p.index < s.scopes.scopes.size)
    (kind : ScopeKind) : Accounted root (s.opening p kind) :=
  ⟨h.recorded.openUnder hp, h.deferred, h.named, h.errors⟩

theorem declaring {p : ScopeId} {r : BindingRequest} (h : Accounted root s)
    (hp : p.index < s.scopes.scopes.size)
    (hr : ∀ name, r.name = some name → root.Binds name r.location) :
    Accounted root (s.declaring p r) := by
  refine ⟨h.recorded.addVar hp r, h.deferred, fun v hv => ?_, h.errors⟩
  rcases Array.mem_push.1 hv with hv | rfl
  · exact h.named v hv
  · exact hr

theorem invalidate {limit : Nat} {log : Array Event} (h : Accounted root s)
    (hm : m.issuer = "create_local_var" → ∃ name, Collision root name m) :
    Accounted root { s with stream := s.stream.invalidate (s.recorded limit m), log } := by
  refine ⟨h.recorded, h.deferred, h.named, fun m' hm' hi => ?_⟩
  rcases Array.mem_push.1 hm' with hm' | rfl
  · exact h.errors m' hm' hi
  -- The frames that a diagnostic names have no say in it.
  · rw [State.recorded] at hi ⊢
    split at hi
    next hfatal =>
      obtain ⟨name, hc⟩ := hm hi
      rw [if_pos hfatal]
      exact ⟨name, hc.text, hc.binds, hc.previous⟩
    next hfatal => exact if_neg hfatal ▸ hm hi

/-- A stream is taken in with its diagnostics. -/
theorem around (h : Accounted root s) (h' : Accounted root s') :
    Accounted root (s.around s') := by
  refine ⟨h'.recorded, h'.deferred, h'.named, fun m hm => ?_⟩
  rw [State.around, Stream.addChild_eq] at hm
  rcases Array.mem_append.1 hm with hm | hm
  · exact h.errors m hm
  · split at hm
    · exact h'.errors m hm
    · exact absurd hm (Array.not_mem_empty m)

end Accounted

/-- What fails a task of a tree is accounted for. -/
theorem Fails.collision (h : Fails env s t c m) (ht : t.node ∈ root.nodes) (hs : Accounted root s)
    (hi : m.issuer = "create_local_var") : ∃ name, Collision root name m := by
  cases h with
  | undeclared => exact absurd (show "lower_symbol" = _ from hi) (by decide)
  | taken hr h =>
    exact ScopeTree.collision_of_bindingError? hs.recorded hs.named
      (fun name hname => ⟨t, ht, hr name hname⟩) h
  | other _ _ _ hissuer => exact absurd hi hissuer

/-- While a node of a tree is lowered, whatever is declared and collides comes from the tree. -/
theorem Course.accounted (h : Course env ok l t c s s') (ht : t.node ∈ root.nodes)
    (hs : Accounted root s) : Accounted root s' := by
  induction h with
  | refl | lost => exact hs
  | trans _ _ ih ih' | resume _ _ ih ih' => exact ih' ht (ih ht hs)
  | minor h => exact hs.congr h.scopes h.deferred h.errors
  | opened kind hp => exact hs.opening hp kind
  | @declared l t c p s r log hr hp =>
    exact (hs.declaring hp fun name hname => ⟨t, ht, hr name hname⟩).congr rfl rfl rfl
  | marked => exact hs.congr rfl rfl rfl
  | @deferred l c s node expr kind hk hc =>
    refine ⟨(hs.opening hc (.deferred kind)).recorded, fun d hd => ?_, hs.named, hs.errors⟩
    rcases List.mem_cons.1 hd with rfl | hd
    · refine Node.tree_mem_nodes ht ?_
      simp [Task.node, hk, Kind.trees, Kind.values, FieldValue.trees]
    · exact hs.deferred d hd
  | failed h => exact hs.invalidate (h.collision ht hs)
  | tooDeep => exact hs.invalidate fun hi => absurd (show "lower_expr" = _ from hi) (by decide)
  | part hpart _ _ ih => exact ih (Node.nodes_trans ht (Task.mem_nodes_of_parts hpart)) hs
  | comptimePart he _ hlt _ ih =>
    exact ih (Node.nodes_trans ht (Task.mem_nodes_of_comptimeParts he)) (hs.opening hlt _)
  | exitPart hd _ hlt _ ih => exact ih (hs.deferred _ hd) (hs.opening hlt _)
  | args _ _ _ _ ih => exact ih ht hs
  | framed _ _ _ _ ih => exact (ih ht (hs.congr rfl rfl rfl)).congr rfl rfl rfl
  | framedComptime _ _ hlt _ ih =>
    exact (ih ht ((hs.opening hlt _).congr rfl rfl rfl)).congr rfl rfl rfl
  | @inPlace ok l c s s' node expr hk _ hlt _ ih =>
    refine ih (Node.tree_mem_nodes ht ?_) (hs.opening hlt _)
    simp [Task.node, hk, Kind.trees, Kind.values, FieldValue.trees]
  | block _ _ hlt _ ih =>
    have hopen := hs.opening hlt .comptime
    refine .around hopen
      ((ih ht ⟨hopen.recorded, hopen.deferred, hopen.named, ?_⟩).congr rfl rfl rfl)
    exact fun m hm => absurd hm (Array.not_mem_empty m)
  | sink hp _ ih => exact (ih ht ((hs.opening hp _).congr rfl rfl rfl)).congr rfl rfl rfl
  | sinkLeft hp _ ih => exact ih ht ((hs.opening hp _).congr rfl rfl rfl)

end Lower

open Lower

/-- The variables of a unit, and its diagnostics on names that are taken, come from its tree. -/
theorem Lowering.accounts {node : Node} {run : UnitRun} (h : Lowering node run) :
    (∀ v ∈ run.unit.scopes.vars, ∀ name, v.name = some name → node.Binds name v.location) ∧
      ∀ m ∈ run.unit.stream.errors, m.issuer = "create_local_var" →
        ∃ name, Collision node name m := by
  obtain ⟨env, s, v, ok, hs, hstream, hscopes, hc⟩ := h.exists_course
  have hstart : Accounted node s := by
    refine ⟨hs.bare.recorded hs.scopes, ?_, ?_, ?_⟩
    · simp [hs.deferred]
    · simp [hs.bare.vars]
    · obtain ⟨name, isInline, h⟩ := hs.stream
      rw [h]
      nofun
  have hend := hc.accounted node.self_mem_nodes hstart
  exact ⟨hscopes ▸ hend.named, hstream ▸ hend.errors⟩

/-! ### The name that is none -/

/-- A name between the same texts is read off the whole. -/
theorem quoted_inj {before after a b : String} (h : before ++ a ++ after = before ++ b ++ after) :
    a = b := by
  rw [← String.toList_inj] at h ⊢
  simpa [String.toList_append] using h

/-- Texts that start in different ways differ. -/
theorem quoted_ne {p q a b after : String} (hp : 5 ≤ p.toList.length) (hq : 5 ≤ q.toList.length)
    (hne : p.toList.take 5 ≠ q.toList.take 5) : p ++ a ++ after ≠ q ++ b ++ after := by
  intro h
  have h := congrArg (·.toList.take 5) h
  simp only [String.toList_append, List.append_assoc] at h
  rw [List.take_append_of_le_length hp, List.take_append_of_le_length hq] at h
  exact hne h

/-- What is said of a name that is taken tells the name. -/
theorem eq_of_mem_takenTexts {a b text : String} (ha : text ∈ takenTexts a)
    (hb : text ∈ takenTexts b) : a = b := by
  obtain ⟨p, hp, rfl⟩ := List.mem_map.1 ha
  obtain ⟨q, hq, h⟩ := List.mem_map.1 hb
  by_cases hpq : q = p
  · subst hpq
    exact (quoted_inj h).symm
  · exfalso
    simp only [List.mem_cons, List.not_mem_nil, or_false] at hp hq
    rcases hp with rfl | rfl | rfl <;> rcases hq with rfl | rfl | rfl <;>
      first
      | exact hpq rfl
      | exact quoted_ne (by decide) (by decide) (by decide) h

/-- Whether a node binds the name `_`: a local variable or the index of a loop. -/
def Kind.bindsDiscard : Kind → Bool
  | .varDecl name .. => name == "_"
  | .forLoop _ _ _ (some index) .. => index == "_"
  | _ => false

/-- The places in a tree at which a local variable or the index of a loop is named `_`. -/
def Node.BindsDiscard (root : Node) (location : Option Location) : Prop :=
  ∃ node ∈ root.nodes, node.location = location ∧ node.kind.bindsDiscard = true

theorem Node.Binds.bindsDiscard {root : Node} {location : Option Location}
    (h : root.Binds "_" location) : root.BindsDiscard location := by
  obtain ⟨t, ht, h⟩ := h
  cases h with
  | localVar h => exact ⟨_, ht, rfl, by simp [Task.node, h, Kind.bindsDiscard]⟩
  | capture _ hne => exact absurd rfl hne
  | index h => exact ⟨_, ht, rfl, by simp [Task.node, h, Kind.bindsDiscard]⟩
  | param _ _ _ hne => exact absurd rfl hne

/-- A parameter, a payload or the item of a loop that is named `_` declares no variable, and it is
neither refused for its name nor in the way of another one: a variable named `_`, a diagnostic on
this name being taken, and what is in its way then, are at the place of a local variable or of the
index of a loop that is named so. -/
theorem Lowering.discards_bind_nothing {node : Node} {run : UnitRun} (h : Lowering node run) :
    (∀ v ∈ run.unit.scopes.vars, v.name = some "_" → node.BindsDiscard v.location) ∧
      ∀ m ∈ run.unit.stream.errors, m.issuer = "create_local_var" → m.message ∈ takenTexts "_" →
        node.BindsDiscard m.location ∧
          ∀ note ∈ m.notes, note.message = "previous declaration here" →
            node.BindsDiscard note.location := by
  obtain ⟨hvars, herrors⟩ := h.accounts
  refine ⟨fun v hv hname => (hvars v hv "_" hname).bindsDiscard, fun m hm hi htext => ?_⟩
  obtain ⟨name, hc⟩ := herrors m hm hi
  obtain rfl := eq_of_mem_takenTexts hc.text htext
  exact ⟨hc.binds.bindsDiscard, fun note hnote ht => (hc.previous note hnote ht).bindsDiscard⟩

/-- A function in which a parameter, payloads and the item of a loop are named `_`, inside each
other and one after the other. -/
def Node.bindsDiscards : Node :=
  .bare (.fnDecl "f" [.bare (.param (some "_") none false), .bare (.param (some "_") none false)]
    none (some (.bare (.block none [
      .bare (.ifThen (.bare .nullLiteral) (some "_")
        (.bare (.forLoop none (.bare (.stringLiteral "ab")) "_" (some "i")
          (.bare (.catchExpr (.bare (.intLiteral 1)) (some "_") (.bare (.intLiteral 2)))) none
          false)) none),
      .bare (.whileLoop none (.bare .nullLiteral) (some "_") none (.bare (.block none [])) none
        false)]))) false false)

theorem Lowering.discards_bind_nothing_bindsDiscards :
    ((Generator.bare.lower .bindsDiscards).unit.scopes.vars.toList.map (·.name) = [some "i"] ∧
      (Generator.bare.lower .bindsDiscards).unit.isPoisoned = false) ∧
    ∀ v ∈ (Generator.bare.lower .bindsDiscards).unit.scopes.vars, v.name ≠ some "_" := by
  refine ⟨by decide +kernel, fun v hv hname => ?_⟩
  obtain ⟨n, hn, -, hk⟩ := (discards_bind_nothing (.alone .bare .bindsDiscards)).1 v hv hname
  have hnone : ∀ n ∈ Node.bindsDiscards.nodes, n.kind.bindsDiscard = false := by decide +kernel
  rw [hnone n hn] at hk
  cases hk

/-- Two loops inside each other, both with an index named `_`. -/
def Node.discardsIndices : Node :=
  .bare (.fnDecl "f" [] none (some (.bare (.block none [
    .bare (.forLoop none (.bare (.stringLiteral "ab")) "x" (some "_")
      (.bare (.block none [
        .bare (.forLoop none (.bare (.stringLiteral "ab")) "y" (some "_")
          (.bare (.block none [])) none false)])) none false)]))) false false)

/-- The index of the outer loop is a variable named `_`, and that of the inner one is refused. -/
theorem Lowering.index_binds_discard :
    (∃ v ∈ (Generator.bare.lower .discardsIndices).unit.scopes.vars, v.name = some "_") ∧
      ∃ m ∈ (Generator.bare.lower .discardsIndices).unit.stream.errors,
        m.kind = .nameCollision ∧ m.message = "redeclaration of variable '_'" := by
  decide +kernel

end SourceIr
