import SourceIr.Proofs.Effect.Control
import SourceIr.Proofs.Inspection.Unit
import SourceIr.Proofs.Syntax.Distinct

/-!
# Names of types

A container or an error set that initializes a variable is called after it; in any other place it is
called after its kind and its place.  The name travels through a slot that the next type may take,
so that it has to be known whose it is: it is marked with the number of the initializer, and the
numbers of a tree that is read are distinct.

* `Node.Names`, the names that the declarations of a unit give;
* `naming`, the inspection of the name that is set aside;
* `Generator.Lowers.names_types`, the name of every type.
-/

namespace SourceIr

/-- How a type is called that no declaration names. -/
def Kind.typeWord? : Kind → Option String
  | .containerDecl kind _ _ => some kind.tag
  | .errorSetDecl _ => some "error"
  | _ => none

/-- The name of the type that an instruction makes. -/
def InstKind.typeName? : InstKind → Option TypeName
  | .containerDecl _ name bareName _ _ | .errorSet name bareName _ => some ⟨name, bareName⟩
  | _ => none

namespace Node

/-- A declaration gives its name to its initializer: the one that the unit is made of, which may
have another name as a unit, or one below it. -/
inductive Names (unit : Node) (unitName : String) : String → Node → Prop
  | unit {name : String} {isConst isComptime : Bool} {typeExpr : Option Node} {init : Node}
      (h : unit.kind = .varDecl name isConst isComptime typeExpr (some init)) :
      Names unit unitName unitName init
  | below {decl : Node} {name : String} {isConst isComptime : Bool} {typeExpr : Option Node}
      {init : Node} (hd : decl ∈ unit.kind.nodes)
      (h : decl.kind = .varDecl name isConst isComptime typeExpr (some init)) :
      Names unit unitName name init

variable {unit node init part : Node} {unitName name name' : String}

theorem mem_nodes_of_below (h : node ∈ unit.kind.nodes) : node ∈ unit.nodes :=
  unit.nodes_eq ▸ List.mem_append_left _ h

/-- The declaration that gives a name. -/
theorem Names.exists_decl (h : unit.Names unitName name init) :
    ∃ decl declName isConst isComptime typeExpr, decl ∈ unit.nodes ∧
      decl.kind = .varDecl declName isConst isComptime typeExpr (some init) ∧
        (decl = unit ∧ name = unitName ∨ decl ∈ unit.kind.nodes ∧ name = declName) := by
  cases h with
  | unit hk => exact ⟨unit, _, _, _, _, unit.self_mem_nodes, hk, .inl ⟨rfl, rfl⟩⟩
  | below hd hk => exact ⟨_, _, _, _, _, mem_nodes_of_below hd, hk, .inr ⟨hd, rfl⟩⟩

theorem Names.mem_nodes (h : unit.Names unitName name init) : init ∈ unit.nodes := by
  obtain ⟨decl, _, _, _, _, hd, hk, -⟩ := h.exists_decl
  exact tree_mem_nodes hd (hk ▸ Kind.init_mem_trees)

/-- No two declarations give a name to the same initializer. -/
theorem Names.eq (hunit : unit.Distinct) (h : unit.Names unitName name init)
    (h' : unit.Names unitName name' init) : name = name' := by
  obtain ⟨decl, _, _, _, _, hd, hk, hname⟩ := h.exists_decl
  obtain ⟨decl', _, _, _, _, hd', hk', hname'⟩ := h'.exists_decl
  obtain rfl := hunit.parent_eq hd hd' (hk ▸ Kind.init_mem_trees) (hk' ▸ Kind.init_mem_trees)
  obtain ⟨rfl, -⟩ := Kind.varDecl.inj (hk.symm.trans hk')
  rcases hname with ⟨rfl, rfl⟩ | ⟨hbelow, rfl⟩ <;> rcases hname' with ⟨hu, rfl⟩ | ⟨hbelow', rfl⟩
  · rfl
  · exact absurd hbelow' hunit.notMem_nodes
  · exact absurd (hu ▸ hbelow) hunit.notMem_nodes
  · rfl

/-- The initializer of a variable is not its type. -/
theorem Distinct.init_notMem_unnamed (h : node.Distinct) {isConst isComptime : Bool}
    {typeExpr : Option Node}
    (hk : node.kind = .varDecl name isConst isComptime typeExpr (some init)) :
    init ∉ node.kind.unnamed := by
  rw [Distinct, node.nodes_eq, hk, Kind.nodes, nodesOfOption, idsOf, List.map_append,
    List.map_append] at h
  intro hmem
  rw [hk, Kind.unnamed, Option.mem_toList] at hmem
  rw [Option.mem_def.1 hmem, nodesOfOption] at h
  have hid : init.id ∈ init.nodes.map (·.id) := List.mem_map_of_mem init.self_mem_nodes
  exact (List.nodup_append'.1 h.of_append_left).2.2 hid hid

/-- A node of a unit that no declaration names.  The unit itself is not a declaration then. -/
structure Plain (unit : Node) (unitName : String) (node : Node) : Prop where
  unnamed : ∀ name, ¬ unit.Names unitName name node
  place : node ∈ unit.kind.nodes ∨ node = unit ∧ UnitKind.ofNode unit ≠ .topLevel

theorem Plain.mem_nodes (h : unit.Plain unitName node) : node ∈ unit.nodes := by
  rcases h.place with h | ⟨rfl, -⟩
  · exact mem_nodes_of_below h
  · exact self_mem_nodes _

/-- The parts of a node of a unit are not named, but for the initializer of a variable. -/
theorem plain_of_unnamed (hunit : unit.Distinct) (hn : node ∈ unit.nodes)
    (hp : part ∈ node.kind.unnamed) : unit.Plain unitName part := by
  have hpart := Kind.mem_trees_of_unnamed hp
  refine ⟨fun name h => ?_, .inl (mem_kind_nodes hn hpart)⟩
  obtain ⟨decl, _, _, _, _, hd, hk, -⟩ := h.exists_decl
  obtain rfl := hunit.parent_eq hd hn (hk ▸ Kind.init_mem_trees) hpart
  exact (hunit.of_mem hd).init_notMem_unnamed hk hp

/-- A unit that is not a variable is not named. -/
theorem plain_unit (hunit : unit.Distinct) (hk : UnitKind.ofNode unit ≠ .topLevel) :
    unit.Plain unitName unit := by
  refine ⟨fun name h => ?_, .inr ⟨rfl, hk⟩⟩
  obtain ⟨decl, _, _, _, _, hd, hkd, -⟩ := h.exists_decl
  exact hunit.notMem_nodes (mem_kind_nodes hd (hkd ▸ Kind.init_mem_trees))

end Node

namespace Lower

variable {env : Env} {unit node : Node} {unitName : String} {scope : ScopeId} {loc : ResultLoc}
  {word : String} {s t s' : State} {v : InstId} {parts : Parts}

/-! ### The name that is set aside -/

/-- The name that is set aside is for an initializer that is known by its number, and what is
deferred is not named. -/
structure State.SetsAside (unit : Node) (unitName : String) (s : State) : Prop where
  hint : ∀ hint ∈ s.nameHint, ∃ init, unit.Names unitName hint.2 init ∧ hint.1 = init.id
  deferred : ∀ d ∈ s.deferred, unit.Plain unitName d.2

/-- The inspection of the name that is set aside for an initializer. -/
def naming (unit : Node) (unitName : String) (hunit : unit.Distinct) : Inspection where
  Inv _ _ s := s.SetsAside unit unitName
  Ahead _ _ _ := True
  Fit node := unit.Plain unitName node
  Init name node := unit.Names unitName name node
  fit_unnamed hn _ hp := Node.plain_of_unnamed hunit hn.mem_nodes hp
  init_unnamed hn _ hp := Node.plain_of_unnamed hunit hn.mem_nodes hp
  init_of_fit hn hk := by
    rcases hn.place with hbelow | ⟨rfl, hunit⟩
    · exact .below hbelow hk
    · rw [UnitKind.ofNode, hk] at hunit
      exact absurd rfl hunit
  aside h hi := ⟨⟨fun hint hm => hi.hint hint (h.hint hint hm), h.deferred ▸ hi.deferred⟩, id⟩
  append _ hi := ⟨⟨hi.hint, hi.deferred⟩, id⟩
  openWay _ hi := ⟨⟨hi.hint, hi.deferred⟩, id⟩
  closeWay hi := ⟨hi, id⟩
  naming h hi := ⟨⟨by rintro _ ⟨⟩; exact ⟨_, h, rfl⟩, hi.deferred⟩, id⟩
  deferring h hi := ⟨⟨hi.hint, List.forall_mem_cons.2 ⟨h, hi.deferred⟩⟩, id⟩
  deferred_fit hi h := hi.deferred _ h
  enter hi := ⟨hi.hint, hi.deferred⟩
  leave _ ht := ⟨⟨ht.hint, ht.deferred⟩, fun _ => ⟨trivial, trivial⟩⟩

/-- The inspection may start at the node of any unit. -/
theorem suits_naming (hunit : unit.Distinct) :
    (naming unit unitName hunit).Suits unit unitName := by
  rw [Inspection.Suits]
  split
  next typeExpr init hk =>
    constructor
    · rintro type rfl
      exact Node.plain_of_unnamed hunit unit.self_mem_nodes (by rw [hk]; exact List.mem_cons_self)
    · rintro init rfl
      exact .unit hk
  next hk =>
    refine Node.plain_unit hunit fun h => ?_
    rw [UnitKind.ofNode] at h
    split at h
    case h_3 hkind => exact hk _ _ _ _ _ hkind
    all_goals cases h

/-- The name of a type: that of the declaration for which a name is set aside, if the node is its
initializer, and otherwise one that is made up. -/
theorem returns_typeName {name : TypeName} (h : Returns (typeName node scope word) env s name t) :
    (∃ D, s.nameHint = some (node.id, D) ∧ name = .ofDecl s.scopes scope D) ∨
      (∀ D, s.nameHint ≠ some (node.id, D)) ∧
        name = .anonymous s.scopes scope word node.location node.id := by
  rw [typeName, returns_bind] at h
  obtain ⟨taken, u, htake, h⟩ := h
  rw [takeNameHint, returns_get_bind] at htake
  by_cases hhint : ∃ D, s.nameHint = some (node.id, D)
  · obtain ⟨D, hhint⟩ := hhint
    simp only [hhint, if_true] at htake
    obtain ⟨_, t', hset, htake⟩ := returns_bind.1 htake
    obtain rfl := returns_set.1 hset
    obtain ⟨rfl, rfl⟩ := returns_pure.1 htake
    obtain ⟨scopes, u', hscopes, h⟩ := returns_bind.1 h
    obtain ⟨rfl, rfl⟩ := returns_scopesFrom hscopes
    exact .inl ⟨D, hhint, (returns_pure.1 h).1⟩
  · have hnone : Returns (pure none : LowerM (Option String)) env s taken u := by
      split at htake
      next id D hset =>
        rwa [if_neg fun hid : id = node.id => hhint ⟨D, hid ▸ hset⟩] at htake
      · exact htake
    obtain ⟨rfl, rfl⟩ := returns_pure.1 hnone
    obtain ⟨scopes, u', hscopes, h⟩ := returns_bind.1 h
    obtain ⟨rfl, rfl⟩ := returns_scopesFrom hscopes
    refine .inr ⟨fun D h => hhint ⟨D, h⟩, ?_⟩
    dsimp only at h
    split at h
    · obtain ⟨_, _, -, h⟩ := returns_bind.1 h
      exact (returns_pure.1 h).1
    · exact (returns_pure.1 h).1

/-- The instruction of a type carries its name. -/
theorem exists_typeName {levels : Nat} (hword : word ∈ node.kind.typeWord?)
    (h : Returns (lowerExpr (nested levels) node scope loc) env s v s') :
    ∃ name t i, Returns (typeName node scope word) env s name t ∧ s'.stream.inst? v = some i ∧
      s.stream.insts.size ≤ v.index ∧ i.kind.typeName? = some name := by
  have later : ∀ {t : State}, Appended s t → s.stream.insts.size ≤ t.stream.next.index :=
    fun h => by simpa [Stream.next] using h.length_le
  have hp : DisplayParts env (nested levels) := displayParts_nested levels
  rw [lowerExpr] at h
  cases hk : node.kind with rw [hk] at h hword
  | containerDecl kind fields decls =>
    obtain rfl := Option.some.inj hword
    obtain ⟨name, t₁, hname, h⟩ := returns_bind.1 h
    obtain ⟨_, t₂, hcheck, h⟩ := returns_bind.1 h
    obtain ⟨r, t₃, hfields, h⟩ := returns_bind.1 h
    obtain ⟨names, t₄, hmembers, h⟩ := returns_bind.1 h
    obtain ⟨⟨i, hi, hkind⟩, rfl⟩ := emitted_emitTo h
    have h₁ : Appended s t₁ := (displays_typeName _ _ _ hname).gains.insts
    have h₂ : Appended t₁ t₂ := (displays_checkOpaque _ _ _ hcheck).gains.insts
    have h₃ : Appended t₂ t₃ := (displays_lowerFields hp _ _ _ hfields).gains.insts
    have h₄ : Appended t₃ t₄ := (displays_memberNames _ _ _ hmembers).gains.insts
    exact ⟨name, t₁, i, hname, hi, later (((h₁.trans h₂).trans h₃).trans h₄), by rw [hkind]; rfl⟩
  | errorSetDecl members =>
    obtain rfl := Option.some.inj hword
    obtain ⟨name, t₁, hname, h⟩ := returns_bind.1 h
    obtain ⟨names, t₂, hnames, h⟩ := returns_bind.1 h
    obtain ⟨⟨i, hi, hkind⟩, rfl⟩ := emitted_emitTo h
    have h₁ : Appended s t₁ := (displays_typeName _ _ _ hname).gains.insts
    have h₂ : Appended t₁ t₂ := (displays_errorNames _ _ _ hnames).gains.insts
    exact ⟨name, t₁, i, hname, hi, later (h₁.trans h₂), by rw [hkind]; rfl⟩
  | _ => cases hword

/-- The check that a type has the name of the declaration which it initializes, and a name that is
made up if it initializes none. -/
def namesType (unit : Node) (unitName : String) : Check := fun node scope s v s' =>
  ∀ word ∈ node.kind.typeWord?, ∃ i name, s'.stream.inst? v = some i ∧
    s.stream.insts.size ≤ v.index ∧ i.kind.typeName? = some name ∧
      (∀ D, unit.Names unitName D node → name = .ofDecl s.scopes scope D) ∧
        ((∀ D, ¬ unit.Names unitName D node) →
          name = .anonymous s.scopes scope word node.location node.id)

theorem approves_namesType (hunit : unit.Distinct) :
    (naming unit unitName hunit).Approves env (namesType unit unitName) := by
  intro levels d ways s s' node scope loc v hreached hi _ hr word hword
  obtain ⟨name, t, i, hname, hv, hnew, hi'⟩ := exists_typeName hword hr
  refine ⟨i, name, hv, hnew, hi', ?_⟩
  rcases hreached with hplain | ⟨D, hnames, hhint⟩
  · -- No name is set aside for a node of this number.
    have hnone : ∀ D, s.nameHint ≠ some (node.id, D) := by
      intro D hhint
      obtain ⟨init, hinit, hid⟩ := hi.hint _ hhint
      obtain rfl := hunit.eq_of_id hplain.mem_nodes hinit.mem_nodes hid
      exact hplain.unnamed D hinit
    have hmade := (returns_typeName hname).resolve_left fun ⟨D, hhint, _⟩ => hnone D hhint
    exact ⟨fun D h => absurd h (hplain.unnamed D), fun _ => hmade.2⟩
  · obtain ⟨D', hhint', rfl⟩ := (returns_typeName hname).resolve_right fun h => h.1 D hhint
    obtain ⟨-, rfl⟩ := Prod.mk.inj (Option.some.inj (hhint.symm.trans hhint'))
    exact ⟨fun D' h => by rw [hnames.eq hunit h], fun h => absurd hnames (h _)⟩

end Lower

namespace Generator

open Lower

variable {g : Generator} {node : Node} {name : String} {run : UnitRun} {runBy : Parts → UnitRun}

/-- Types are named exactly.  In a unit of a tree that was read, if it is not poisoned, wherever a
container or an error set is lowered, its instruction carries the name of the declaration that the
node itself initializes, behind the namespace; and in any other place it carries the name that is
made up of the namespace, the function around it, its kind and its own place or number. -/
theorem Lowers.names_types {value : Json} {start next : Nat} {root : Node}
    (hread : (Node.read value).run start = some (root, next)) (hnode : node ∈ root.nodes)
    (h : g.Lowers node name run runBy) (hp : run.unit.isPoisoned = false)
    (alarm : ∀ {α : Type}, LowerM α) :
    runBy (inspected (namesType node name) alarm g.options.maxDepth) = run := by
  have hroot : root.Distinct := (Node.numbered_of_read hread).distinct
  have hunit := hroot.of_mem hnode
  exact (h.raises_no_alarm hp (suits_naming hunit) (fun _ _ _ _ => ⟨nofun, nofun⟩)
    (fun _ _ => trivial) (approves_namesType hunit) alarm).1

end Generator

/-- The text of `fn f() { const S = struct {}; const x = comptime error{}; }`. -/
def Json.namesOneType : Json :=
  .arr [.variant "FnDecl" [("name", .str "f"),
    ("body", .arr [.variant "Block" [("statements", .arr [
    .arr [.variant "VarDecl" [("name", .str "S"), ("is_const", .bool true),
      ("init", .arr [.variant "ContainerDecl" [("kind", .str "Struct")]])]],
    .arr [.variant "VarDecl" [("name", .str "x"), ("is_const", .bool true),
      ("init", .arr [.variant "Comptime" [("expr",
        .arr [.variant "ErrorSetDecl" [("members", .arr [])]])]])]]])]])]]

/-- The tree of that text: the container initializes a variable, and the error set does not. -/
def Node.namesOneType : Node :=
  let type : Node := ⟨4, .containerDecl .struct [] [], none, none⟩
  let value : Node := ⟨6, .comptime ⟨7, .errorSetDecl [], none, none⟩, none, none⟩
  ⟨1, .fnDecl "f" [] none (some ⟨2, .block none
    [⟨3, .varDecl "S" true false none (some type), none, none⟩,
      ⟨5, .varDecl "x" true false none (some value), none, none⟩], none, none⟩) false false,
    none, none⟩

theorem names_types_namesOneType :
    (Node.read .namesOneType).run 1 = some (.namesOneType, 8) ∧
      Node.namesOneType ∈ Node.namesOneType.nodes ∧
      (Generator.bare.lower .namesOneType).unit.isPoisoned = false ∧
      ∀ alarm : (∀ {α : Type}, Lower.LowerM α),
        Generator.bare.runNodeBy (Lower.inspected (Lower.namesType .namesOneType "f") alarm
          Generator.bare.options.maxDepth) .namesOneType "f" [] =
            Generator.bare.lower .namesOneType :=
  have hread : (Node.read .namesOneType).run 1 = some (.namesOneType, 8) := rfl
  have hnode := Node.namesOneType.self_mem_nodes
  have hp : (Generator.bare.lower .namesOneType).unit.isPoisoned = false := by decide +kernel
  ⟨hread, hnode, hp, fun alarm =>
    Generator.Lowers.names_types hread hnode (.byKind (g := .bare) []) hp alarm⟩

end SourceIr
