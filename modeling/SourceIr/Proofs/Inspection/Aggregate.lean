import SourceIr.Proofs.Decl.Complete
import SourceIr.Proofs.Effect.Routines

/-!
# What is said of aggregates

Containers, error sets, initializers of structs and calls of builtin functions list their parts by
name or by position.  The instruction that is made for one lists them in the same order, with none
left out, and what has to be told apart by its name has a name of its own.

* `InstKind.Reflects`, an instruction lists what its construct lists;
* `InTurn`, nodes that are lowered one after the other;
* `returns_lowerFields` and those like it, what the loops over the parts return;
* `reflects_of_returns`, the instruction of an aggregate.
-/

namespace SourceIr

/-- What is told of a field of a container: its name, and whether it has a type and a default. -/
def Node.fieldShape? (node : Node) : Option (String × Bool × Bool) :=
  match node.kind with
  | .containerField name typeExpr defaultValue =>
    some (name, typeExpr.isSome, defaultValue.isSome)
  | _ => none

/-- What is told of a field of a container type. -/
def ContainerFieldInst.shape (field : ContainerFieldInst) : String × Bool × Bool :=
  (field.name, field.typeInst.isSome, field.defaultValue.isSome)

/-- The constructs that list parts by name, and the calls of builtin functions. -/
def Kind.isAggregate : Kind → Bool
  | .containerDecl .. | .errorSetDecl _ | .structInit .. | .builtinCall .. => true
  | _ => false

/-- The instructions for such constructs; `@as` has an instruction of its own. -/
def InstKind.isAggregate : InstKind → Bool
  | .containerDecl .. | .errorSet .. | .structInit .. | .builtinCall .. => true
  | _ => false

/-- The instruction lists what the construct lists, in the same order.  Names that are told apart
are distinct. -/
inductive InstKind.Reflects : Kind → InstKind → Prop
  | container {kind : ContainerKind} {fields decls : List Node} {name bareName : String}
      {lowered : List ContainerFieldInst}
      (inOrder : fields.map (·.fieldShape?) = lowered.map (some ·.shape))
      (distinct : (lowered.map (·.name) ++ decls.filterMap Lower.sharedName?).Nodup)
      (fieldless : kind = .opaqueType → lowered = []) :
      Reflects (.containerDecl kind fields decls)
        (.containerDecl kind name bareName lowered (decls.filterMap (·.declName?)))
  | errorSet {members : List Node} {name bareName : String} {names : List String}
      (inOrder : members.map (·.memberName?) = names.map some) (distinct : names.Nodup) :
      Reflects (.errorSetDecl members) (.errorSet name bareName names)
  | structInit {typeExpr : Option Node} {fields : List FieldInit} {typeInst target : Option InstId}
      {values : List (String × InstId)} (type : typeInst.isSome = typeExpr.isSome)
      (inOrder : values.map (·.1) = fields.map (·.name)) (distinct : (values.map (·.1)).Nodup) :
      Reflects (.structInit typeExpr fields) (.structInit typeInst values target)
  | builtin {name : String} {args : List Node} {values : List InstId} {info : Builtin}
      (known : Builtin.find? name = some info) (plain : '@' ∉ (Builtin.bareName name).toList)
      (inOrder : values.length = args.length) (accepted : info.arity.accepts values.length = true) :
      Reflects (.builtinCall name args) (.builtinCall (Builtin.bareName name) values)
  | cast {name : String} {args : List Node} {destType value : InstId}
      (known : Builtin.bareName name = "as") (both : args.length = 2) :
      Reflects (.builtinCall name args) (.as destType value)

/-- The builtin functions. -/
theorem Builtin.exists_arity {name : String} {info : Builtin} (h : find? name = some info) :
    ∃ arity, (bareName name, arity) ∈ effectful ++ pureOnes := by
  have mem : ∀ {l : List (String × Arity)} {arity}, l.lookup (bareName name) = some arity →
      (bareName name, arity) ∈ l := fun hl => by
    obtain ⟨before, after, rfl, -⟩ := List.lookup_eq_some_iff.1 hl
    simp
  rw [find?] at h
  split at h
  next arity hl => exact ⟨arity, List.mem_append_left _ (mem hl)⟩
  next =>
    obtain ⟨arity, hl, -⟩ := Option.map_eq_some_iff.1 h
    exact ⟨arity, List.mem_append_right _ (mem hl)⟩

/-- The name of a builtin function has no `@` in it. -/
theorem Builtin.notMem_bareName {name : String} {info : Builtin} (h : find? name = some info) :
    '@' ∉ (bareName name).toList := by
  have plain : (effectful ++ pureOnes).all (fun entry => !entry.1.toList.contains '@') = true := by
    decide +kernel
  obtain ⟨arity, hmem⟩ := exists_arity h
  have hplain := List.all_eq_true.1 plain (bareName name, arity) hmem
  simpa using hplain

theorem Builtin.find?_bareName (name : String) : find? (bareName name) = find? name := by
  have h : bareName (bareName name) = bareName name := by
    rw [bareName, bareName, String.toList_ofList, List.dropWhile_idempotent]
  rw [find?, find?, h]

namespace Lower

variable {env : Env} {s t s' : State} {parts : Parts} {node : Node} {scope : ScopeId}
  {loc : ResultLoc} {location : Option Location} {kind : InstKind} {v : InstId}

/-! ### One after the other -/

/-- Between two states instructions are appended. -/
def Appended (s s' : State) : Prop := s.stream.insts.toList <+: s'.stream.insts.toList

theorem Appended.trans {s'' : State} (h : Appended s s') (h' : Appended s' s'') : Appended s s'' :=
  List.IsPrefix.trans h h'

/-- An instruction stays where it is. -/
theorem Appended.inst? {i : Inst} (h : Appended s s') (hi : s.stream.inst? v = some i) :
    s'.stream.inst? v = some i := by
  rw [Stream.inst?, ← Array.getElem?_toList] at hi ⊢
  obtain ⟨new, hnew⟩ := h
  rw [← hnew, List.getElem?_append_left (List.getElem?_eq_some_iff.1 hi).1, hi]

/-- The nodes are lowered one after the other, each to the value at its place in the list.  What is
done in between only appends instructions. -/
inductive InTurn (env : Env) (parts : Parts) : List Node → State → List InstId → State → Prop
  | done {s s' : State} (h : Appended s s') : InTurn env parts [] s [] s'
  | next {s t t' s' : State} {node : Node} {rest : List Node} {scope : ScopeId} {loc : ResultLoc}
      {v : InstId} {vs : List InstId} (h : Appended s t)
      (hv : Returns (parts.expr node scope loc) env t v t')
      (hrest : InTurn env parts rest t' vs s') :
      InTurn env parts (node :: rest) s (v :: vs) s'

namespace InTurn

variable {nodes nodes' : List Node} {vs vs' : List InstId}

theorem after (h : Appended s t) (ht : InTurn env parts nodes t vs s') :
    InTurn env parts nodes s vs s' := by
  cases ht with
  | done h' => exact .done (h.trans h')
  | next h' hv hrest => exact .next (h.trans h') hv hrest

theorem append (h : InTurn env parts nodes s vs t) (h' : InTurn env parts nodes' t vs' s') :
    InTurn env parts (nodes ++ nodes') s (vs ++ vs') s' := by
  induction h with
  | done h => exact h'.after h
  | next h hv _ ih => exact .next h hv (ih h')

theorem length_eq (h : InTurn env parts nodes s vs s') : vs.length = nodes.length := by
  induction h with
  | done => rfl
  | next _ _ _ ih => rw [List.length_cons, List.length_cons, ih]

/-- One node is lowered. -/
theorem one (h : Returns (parts.expr node scope loc) env s v s') :
    InTurn env parts [node] s [v] s' := .next List.prefix_rfl h (.done List.prefix_rfl)

end InTurn

/-- A part that may be absent is lowered if it is there. -/
theorem inTurn_comptimeValue? {node : Option Node} {v : Option InstId}
    (h : Returns (parts.comptimeValue? node scope) env s v s') :
    InTurn env parts node.toList s v.toList s' ∧ v.isSome = node.isSome := by
  cases node with
  | none =>
    obtain ⟨rfl, rfl⟩ := returns_pure.1 h
    exact ⟨.done List.prefix_rfl, rfl⟩
  | some node =>
    obtain ⟨value, rfl, hv⟩ := returns_map.1 h
    obtain ⟨inner, t, hopen, hv⟩ := returns_bind.1 hv
    exact ⟨(InTurn.one hv).after (displays_openScope _ _ _ hopen).gains.insts, rfl⟩

/-! ### The loops over the parts -/

/-- The fields of a container, each with a name that was not seen before. -/
structure FieldsLowered (env : Env) (parts : Parts) (seen : Seen) (fields : List Node) (s : State)
    (r : List ContainerFieldInst × Seen) (s' : State) : Prop where
  inOrder : fields.map (·.fieldShape?) = r.1.map (some ·.shape)
  unseen : Unseen seen (r.1.map (·.name))
  seen_iff : ∀ name, r.2.lookup name = none ↔ seen.lookup name = none ∧ name ∉ r.1.map (·.name)
  inTurn : ∀ kind decls, InTurn env parts (Kind.containerDecl kind fields decls).used s
    (r.1.flatMap fun f => f.typeInst.toList ++ f.defaultValue.toList) s'

theorem returns_lowerFields {kind : ContainerKind} {seen : Seen} {fields : List Node}
    {r : List ContainerFieldInst × Seen}
    (h : Returns (lowerFields parts kind scope seen fields) env s r s') :
    FieldsLowered env parts seen fields s r s' := by
  induction fields generalizing s s' seen r with
  | nil =>
    obtain ⟨rfl, rfl⟩ := returns_pure.1 h
    exact ⟨rfl, unseen_nil seen, by simp, fun _ _ => .done List.prefix_rfl⟩
  | cons field rest ih =>
    rw [lowerFields] at h
    split at h
    next name typeExpr defaultValue hk =>
      split at h
      · exact absurd h not_returns_fail
      next hnew =>
        obtain ⟨type, t₁, htype, h⟩ := returns_bind.1 h
        obtain ⟨default, t₂, hdefault, h⟩ := returns_bind.1 h
        obtain ⟨⟨lowered, seen'⟩, t₃, hrest, h⟩ := returns_bind.1 h
        obtain ⟨rfl, rfl⟩ := returns_pure.1 h
        obtain ⟨htype, htypeSome⟩ := inTurn_comptimeValue? htype
        obtain ⟨hdefault, hdefaultSome⟩ := inTurn_comptimeValue? hdefault
        have hr := ih hrest
        -- The rest has seen the name of this field, and so takes other ones.
        refine ⟨?_, hr.unseen.cons hnew, fun other => ?_, fun kind decls => ?_⟩
        · have hfield : field.fieldShape? =
              some (ContainerFieldInst.shape ⟨name, type, default⟩) := by
            rw [Node.fieldShape?, hk, ContainerFieldInst.shape, htypeSome, hdefaultSome]
          rw [List.map_cons, List.map_cons, hfield, hr.inOrder]
        · simp only [hr.seen_iff, lookup_seen, List.map_cons, List.mem_cons, not_or]
          tauto
        · rw [Kind.used, List.flatMap_cons, hk, List.flatMap_cons]
          exact (htype.append hdefault).append (hr.inTurn kind decls)
    · exact absurd h not_returns_fail

/-- The names of the members of a container. -/
theorem returns_memberNames {seen : Seen} {decls : List Node} {names : List String}
    (h : Returns (memberNames seen decls) env s names s') :
    names = decls.filterMap (·.declName?) := by
  induction decls generalizing seen s s' names with
  | nil => exact (returns_pure.1 h).1
  | cons decl rest ih =>
    rw [memberNames] at h
    rw [List.filterMap_cons]
    split at h
    next hname =>
      rw [hname]
      exact ih h
    next name hname =>
      rw [hname]
      split at h
      · split at h
        · exact absurd h not_returns_fail
        · obtain ⟨_, _, hrest, h⟩ := returns_bind.1 h
          rw [(returns_pure.1 h).1, ih hrest]
      · obtain ⟨_, _, hrest, h⟩ := returns_bind.1 h
        rw [(returns_pure.1 h).1, ih hrest]

/-- The names of the members of an error set, none of which was seen before. -/
theorem returns_errorNames {seen : Seen} {members : List Node} {names : List String}
    (h : Returns (errorNames seen members) env s names s') :
    members.map (·.memberName?) = names.map some ∧ Unseen seen names := by
  induction members generalizing s s' seen names with
  | nil =>
    obtain ⟨rfl, rfl⟩ := returns_pure.1 h
    exact ⟨rfl, unseen_nil seen⟩
  | cons member rest ih =>
    rw [errorNames] at h
    split at h
    next hname =>
      obtain ⟨_, _, -, h⟩ := returns_bind.1 h
      split at h
      · exact absurd h not_returns_fail
      next hnew =>
        obtain ⟨names, _, hrest, h⟩ := returns_bind.1 h
        obtain ⟨rfl, rfl⟩ := returns_pure.1 h
        obtain ⟨horder, hunseen⟩ := ih hrest
        exact ⟨by rw [List.map_cons, List.map_cons, hname, horder], hunseen.cons hnew⟩
    · exact absurd h not_returns_fail

/-- The values of the fields of a struct, each with a name that was not seen before. -/
theorem returns_lowerFieldInits {target : Option InstId} {seen : Seen} {fields : List FieldInit}
    {values : List (String × InstId)}
    (h : Returns (lowerFieldInits parts target scope seen fields) env s values s') :
    (values.map (·.1) = fields.map (·.name) ∧ Unseen seen (values.map (·.1))) ∧
      InTurn env parts (fields.map (·.value)) s (values.map (·.2)) s' := by
  induction fields generalizing s s' seen values with
  | nil =>
    obtain ⟨rfl, rfl⟩ := returns_pure.1 h
    exact ⟨⟨rfl, unseen_nil seen⟩, .done List.prefix_rfl⟩
  | cons field rest ih =>
    rw [lowerFieldInits] at h
    split at h
    · exact absurd h not_returns_fail
    next hnew =>
      obtain ⟨_, t₁, hloc, h⟩ := returns_bind.1 h
      obtain ⟨value, t₂, hvalue, h⟩ := returns_bind.1 h
      obtain ⟨values, t₃, hrest, h⟩ := returns_bind.1 h
      obtain ⟨rfl, rfl⟩ := returns_pure.1 h
      obtain ⟨⟨horder, hunseen⟩, hturn⟩ := ih hrest
      exact ⟨⟨by rw [List.map_cons, List.map_cons, horder], hunseen.cons hnew⟩,
        .next (displays_fieldLoc _ _ _ hloc).gains.insts hvalue hturn⟩

/-- Arguments are lowered in turn. -/
theorem inTurn_lowerArgs {args : List Node} {values : List InstId}
    (h : Returns (lowerArgs parts scope args) env s values s') :
    InTurn env parts args s values s' := by
  induction args generalizing s s' values with
  | nil =>
    obtain ⟨rfl, rfl⟩ := returns_pure.1 h
    exact .done List.prefix_rfl
  | cons arg rest ih =>
    rw [lowerArgs] at h
    obtain ⟨value, t, hvalue, h⟩ := returns_bind.1 h
    obtain ⟨values, _, hrest, h⟩ := returns_bind.1 h
    obtain ⟨rfl, rfl⟩ := returns_pure.1 h
    exact .next List.prefix_rfl hvalue (ih hrest)

/-! ### Aggregates -/

/-- A type that has been checked has no fields if it may not have any. -/
theorem returns_checkOpaque {kind : ContainerKind} {fields : List Node} {u : PUnit}
    (h : Returns (checkOpaque kind fields) env s u s') : kind = .opaqueType → fields = [] := by
  rintro rfl
  cases fields with
  | nil => rfl
  | cons field rest => exact absurd h not_returns_fail

/-- The instruction of a container whose fields and members have been named. -/
theorem reflects_container {kind : ContainerKind} {fields decls : List Node} {u : PUnit}
    {r : List ContainerFieldInst × Seen} {names : List String} {t₁ t₁' t₂ t₂' t₃ t₃' : State}
    {name bareName : String} (hcheck : Returns (checkOpaque kind fields) env t₁ u t₁')
    (hfields : Returns (lowerFields parts kind scope [] fields) env t₂ r t₂')
    (hmembers : Returns (memberNames r.2 decls) env t₃ names t₃') :
    InstKind.Reflects (.containerDecl kind fields decls)
      (.containerDecl kind name bareName r.1 names) := by
  have hf := returns_lowerFields hfields
  have hm := unseen_of_memberNames hmembers
  rw [returns_memberNames hmembers]
  refine .container hf.inOrder
    (hf.unseen.distinct.append hm.distinct fun other hfield hmember => ?_) fun hkind => ?_
  · exact ((hf.seen_iff other).1 (hm.fresh other hmember)).2 hfield
  · have horder := hf.inOrder
    rw [returns_checkOpaque hcheck hkind] at horder
    exact List.map_eq_nil_iff.1 horder.symm

/-- What a routine returns is the instruction of this kind, at the end or before instructions that
bring its value to its place. -/
def Emitted (kind : InstKind) (v : InstId) (s' : State) : Prop :=
  ∃ i, s'.stream.inst? v = some i ∧ i.kind = kind

theorem emitted_emitWith {force gen : Bool}
    (h : Returns (emitWith kind scope location force gen) env s v s') :
    Emitted kind v s' ∧ v = s.stream.next := by
  obtain ⟨rfl, -, _, _, _, _, rfl⟩ := returns_emitWith h
  exact ⟨⟨_, Array.getElem?_push_size, rfl⟩, rfl⟩

theorem returns_deliver_eq {value : InstId}
    (h : Returns (deliver value loc scope location) env s v s') : v = value := by
  cases loc with
  | existing ptr =>
    obtain ⟨_, _, -, h⟩ := returns_bind.1 h
    exact (returns_pure.1 h).1
  | alloc =>
    obtain ⟨ptr, _, -, h⟩ := returns_bind.1 h
    cases ptr with
    | some ptr =>
      obtain ⟨_, _, -, h⟩ := returns_bind.1 h
      exact (returns_pure.1 h).1
    | none => exact (returns_pure.1 h).1
  | none | discard | ret => exact (returns_pure.1 h).1

theorem emitted_emitTo (h : Returns (emitTo kind scope location loc) env s v s') :
    Emitted kind v s' ∧ v = s.stream.next := by
  obtain ⟨value, t, hemit, h⟩ := returns_bind.1 h
  obtain ⟨⟨i, hi, hk⟩, hv⟩ := emitted_emitWith hemit
  obtain rfl := returns_deliver_eq h
  have happended : Appended t s' := (displays_deliver _ _ _ h).gains.insts
  exact ⟨⟨i, happended.inst? hi, hk⟩, hv⟩

theorem reflects_errorSet {seen : Seen} {members : List Node} {names : List String}
    {name bareName : String} (h : Returns (errorNames seen members) env s names s') :
    InstKind.Reflects (.errorSetDecl members) (.errorSet name bareName names) :=
  have h := returns_errorNames h
  .errorSet h.1 h.2.distinct

theorem reflects_structInit {typeExpr : Option Node} {typeInst target place : Option InstId}
    {seen : Seen} {fields : List FieldInit} {values : List (String × InstId)}
    (htype : typeInst.isSome = typeExpr.isSome)
    (h : Returns (lowerFieldInits parts place scope seen fields) env s values s') :
    InstKind.Reflects (.structInit typeExpr fields) (.structInit typeInst values target) :=
  have h := (returns_lowerFieldInits h).1
  .structInit htype h.1 h.2.distinct

theorem reflects_builtinCall {name : String} {args : List Node} {values : List InstId}
    {info : Builtin} (hinfo : Builtin.find? (Builtin.bareName name) = some info)
    (hcount : info.arity.accepts args.length = true)
    (h : Returns (lowerArgs parts scope args) env s values s') :
    InstKind.Reflects (.builtinCall name args) (.builtinCall (Builtin.bareName name) values) := by
  rw [Builtin.find?_bareName] at hinfo
  have hlength := (inTurn_lowerArgs h).length_eq
  exact .builtin hinfo (Builtin.notMem_bareName hinfo) hlength (hlength ▸ hcount)

/-- The instruction of a node lists what the node lists, and it reads what the parts of the node
were lowered to, one after the other. -/
def ListsParts (env : Env) (parts : Parts) (node : Node) (s : State) (v : InstId)
    (s' : State) : Prop :=
  ∃ kind, Emitted kind v s' ∧ InstKind.Reflects node.kind kind ∧
    ∃ vs t, InTurn env parts node.kind.used s vs t ∧ vs <+: kind.operands

theorem listsParts_lowerContainer {kind : ContainerKind} {fields decls : List Node}
    (hk : node.kind = .containerDecl kind fields decls)
    (h : Returns (lowerContainer parts node kind fields decls scope loc) env s v s') :
    ListsParts env parts node s v s' := by
  obtain ⟨name, t₁, hname, h⟩ := returns_bind.1 h
  obtain ⟨_, t₂, hcheck, h⟩ := returns_bind.1 h
  obtain ⟨r, t₃, hfields, h⟩ := returns_bind.1 h
  obtain ⟨names, t₄, hmembers, h⟩ := returns_bind.1 h
  have hbefore : Appended s t₂ := Appended.trans (displays_typeName _ _ _ hname).gains.insts
    (displays_checkOpaque _ _ _ hcheck).gains.insts
  rw [ListsParts, hk]
  exact ⟨_, (emitted_emitTo h).1, reflects_container hcheck hfields hmembers, _, _,
    ((returns_lowerFields hfields).inTurn kind decls).after hbefore, List.prefix_rfl⟩

theorem listsParts_lowerErrorSet {members : List Node} (hk : node.kind = .errorSetDecl members)
    (h : Returns (lowerErrorSet node members scope loc) env s v s') :
    ListsParts env parts node s v s' := by
  obtain ⟨name, t₁, -, h⟩ := returns_bind.1 h
  obtain ⟨names, t₂, hnames, h⟩ := returns_bind.1 h
  rw [ListsParts, hk]
  exact ⟨_, (emitted_emitTo h).1, reflects_errorSet hnames, [], s, .done List.prefix_rfl,
    List.nil_prefix⟩

theorem listsParts_lowerStructInit {typeExpr : Option Node} {fields : List FieldInit}
    (hk : node.kind = .structInit typeExpr fields)
    (h : Returns (lowerStructInit parts node typeExpr fields scope loc) env s v s') :
    ListsParts env parts node s v s' := by
  obtain ⟨type, t₁, htype, h⟩ := returns_bind.1 h
  obtain ⟨target, t₂, htarget, h⟩ := returns_bind.1 h
  obtain ⟨values, t₃, hvalues, h⟩ := returns_bind.1 h
  obtain ⟨htype, hsome⟩ := inTurn_comptimeValue? htype
  have hbetween : Appended t₁ t₂ := (displays_resultPtr _ _ _ htarget).gains.insts
  rw [ListsParts, hk]
  exact ⟨_, (emitted_emitWith h).1, reflects_structInit hsome hvalues, _, _,
    htype.append ((returns_lowerFieldInits hvalues).2.after hbetween), List.prefix_append _ _⟩

theorem listsParts_lowerAs {name : String} {args : List Node}
    (hk : node.kind = .builtinCall name args) (hname : Builtin.bareName name = "as")
    (hcount : args.length = 2) (h : Returns (lowerAs parts node args scope loc) env s v s') :
    ListsParts env parts node s v s' := by
  obtain ⟨type, value, rfl⟩ := List.length_eq_two.1 hcount
  replace h : Returns (do
      let destType ← parts.comptimeValue type scope
      let v ← parts.value value scope
      emitTo (.as destType v) scope node.location loc) env s v s' := h
  obtain ⟨destType, t₁, htype, h⟩ := returns_bind.1 h
  obtain ⟨v', t₂, hvalue, h⟩ := returns_bind.1 h
  obtain ⟨inner, t, hopen, htype⟩ := returns_bind.1 htype
  have hturn := ((InTurn.one htype).append (InTurn.one hvalue)).after
    (displays_openScope _ _ _ hopen).gains.insts
  rw [ListsParts, hk]
  exact ⟨_, (emitted_emitTo h).1, .cast hname rfl, _, _, hturn, List.prefix_rfl⟩

theorem listsParts_lowerBuiltinCall {name : String} {args : List Node}
    (hk : node.kind = .builtinCall name args)
    (h : Returns (lowerBuiltinCall parts node name args scope loc) env s v s') :
    ListsParts env parts node s v s' := by
  rw [lowerBuiltinCall] at h
  split at h
  · exact absurd h not_returns_fail
  next info hinfo =>
    split at h
    · exact absurd h not_returns_fail
    next hcount =>
      replace hcount : info.arity.accepts args.length = true := by simpa using hcount
      split at h
      next hname =>
        rw [hname] at hinfo
        exact listsParts_lowerAs hk hname (Builtin.length_of_as hinfo hcount) h
      next =>
        obtain ⟨values, t, hargs, h⟩ := returns_bind.1 h
        rw [ListsParts, hk]
        exact ⟨_, (emitted_emitTo h).1, reflects_builtinCall hinfo hcount hargs, _, _,
          inTurn_lowerArgs hargs, List.prefix_rfl⟩

/-- The instruction of an aggregate lists what the aggregate lists. -/
theorem listsParts_of_returns (hk : node.kind.isAggregate = true)
    (h : Returns (lowerExpr parts node scope loc) env s v s') :
    ListsParts env parts node s v s' := by
  rw [lowerExpr] at h
  cases hkind : node.kind with rw [hkind] at h hk
  | containerDecl => exact listsParts_lowerContainer hkind h
  | errorSetDecl => exact listsParts_lowerErrorSet hkind h
  | structInit => exact listsParts_lowerStructInit hkind h
  | builtinCall => exact listsParts_lowerBuiltinCall hkind h
  | _ => exact absurd hk Bool.false_ne_true

end Lower

end SourceIr
