import SourceIr.Proofs.Decl.Faithful
import SourceIr.Proofs.Lowering

/-!
# The units of the declarations

A file has one unit for each entry of its table, in the order of the table and under the name of
the entry.  Units are looked up by name alone, and the first unit of a name is found, which is that
of the first entry of this name.  Entries that can be referred to have names of their own, but tests
and compile-time blocks do not: one that stands before a declaration of its name takes its place.

* `DeclTable.forall₂_work`, every entry is lowered;
* `FileRun.forall₂_units`, the unit of an entry;
* `FileRun.reflects_tree`, what the table and the units say of the tree;
* `DeclTable.Leads`, the first entry of a name;
* `FileRun.unit?_of_leads` and `FileRun.unit?_eq_none`, what the look-up finds;
* `FileRun.finds_first_of_name`, where it finds the declaration that a name refers to.
-/

namespace SourceIr

/-! ### The unit of an entry -/

/-- The handle of every entry leads to a node, so none is passed over. -/
theorem DeclTable.forall₂_work {t : DeclTable} {roots : List Node} (ht : t.Sound roots) :
    List.Forall₂ (fun d w => w.1 = d ∧ t.node? d.id roots = some w.2) t.decls.toList
      (FileRun.work t roots) := by
  have each : ∀ l : List Decl, (∀ d ∈ l, d ∈ t.decls) →
      List.Forall₂ (fun d w => w.1 = d ∧ t.node? d.id roots = some w.2) l
        (l.filterMap fun d => (t.node? d.id roots).map (d, ·)) := by
    intro l hl
    induction l with
    | nil => exact .nil
    | cons d rest ih =>
      obtain ⟨_, node, _, h⟩ := ht.entry d (hl d List.mem_cons_self)
      rw [List.filterMap_cons, h.site]
      exact .cons ⟨rfl, h.site⟩ (ih fun e he => hl e (List.mem_cons_of_mem _ he))
  exact each _ fun d hd => Array.mem_toList_iff.1 hd

/-- A declaration's unit bears its name in the table. -/
theorem Generator.name_lowerDecl (g : Generator) (decl : Decl) (node : Node) :
    (g.lowerDecl decl node).unit.name = decl.name := by
  rw [lowerDecl, runNode]
  cases UnitKind.ofNode node <;> rfl

namespace FileRun

/-- What the declarations of a file are lowered against. -/
def generator (root : Node) (options : Options) : Generator :=
  { table := (DeclTable.ofRoot root).1, options }

/-- The unit of an entry is what its node is lowered into. -/
def IsUnitOf (root : Node) (options : Options) (d : Decl) (u : LoweredUnit) : Prop :=
  ∃ node, (DeclTable.ofRoot root).1.node? d.id root.topLevel = some node ∧
    u = ((generator root options).lowerDecl d node).unit

theorem forall₂_units (root : Node) (options : Options) :
    List.Forall₂ (IsUnitOf root options) (DeclTable.ofRoot root).1.decls.toList
      (ofRoot root options).file.units := by
  simp only [ofRoot, List.map_map, List.forall₂_map_right_iff]
  refine (DeclTable.forall₂_work (DeclTable.sound_ofRoot root)).imp ?_
  rintro d ⟨_, node⟩ ⟨rfl, hnode⟩
  exact ⟨node, hnode, rfl⟩

/-- The table of a file is faithful to its tree, each entry has its unit, and what is no entry is
reported. -/
theorem reflects_tree (root : Node) (options : Options) :
    (ofRoot root options).file.table = (DeclTable.ofRoot root).1 ∧
      (DeclTable.ofRoot root).1.Faithful root.topLevel ∧
      List.Forall₂ (fun d u => IsUnitOf root options d u ∧ u.name = d.name)
        (DeclTable.ofRoot root).1.decls.toList (ofRoot root options).file.units ∧
      (root.topLevel.filter (·.kind.isDeclaration)).length =
        (DeclTable.ofRoot root).1.outermost.length + (DeclTable.ofRoot root).2.length := by
  refine ⟨rfl, DeclTable.faithful_ofRoot root, (forall₂_units root options).imp ?_,
    DeclTable.length_ofRoot root⟩
  rintro d _ ⟨node, hnode, rfl⟩
  exact ⟨⟨node, hnode, rfl⟩, Generator.name_lowerDecl _ d node⟩

end FileRun

/-! ### The first entry of a name -/

variable {root node : Node} {options : Options} {name : String} {d e : Decl} {t : DeclTable}
  {u v : LoweredUnit}

namespace DeclTable

/-- An entry is the first of a name, whether it can be referred to or not. -/
structure Leads (t : DeclTable) (name : String) (d : Decl) : Prop where
  mem : d ∈ t.decls
  bears : d.name = name
  first : ∀ e ∈ t.decls, e.name = name → d.id.index ≤ e.id.index

/-- Of the entries of a name, one is the first. -/
theorem exists_leads (hd : d ∈ t.decls) (hname : d.name = name) : ∃ e, t.Leads name e := by
  induction hn : d.id.index using Nat.strongRecOn generalizing d with
  | _ n ih =>
    by_cases h : ∃ e ∈ t.decls, e.name = name ∧ e.id.index < d.id.index
    · obtain ⟨e, he, hename, hlt⟩ := h
      exact ih _ (hn ▸ hlt) he hename rfl
    · exact ⟨d, hd, hname, fun e he hename => Nat.not_lt.1 fun hlt => h ⟨e, he, hename, hlt⟩⟩

/-- The first entry of the name of a declaration is this declaration, or one that cannot be
referred to. -/
theorem Distinct.leads_of_get? (ht : t.Distinct) (hd : t.get? name = some d)
    (he : t.Leads name e) : e = d ∨ e.kind.isReferenceable = false := by
  obtain ⟨hmem, hbears⟩ := of_get? hd
  rcases hkind : e.kind.isReferenceable
  · exact .inr rfl
  · exact .inl (ht e he.mem d hmem name ⟨hkind, he.bears⟩ hbears)

end DeclTable

/-! ### The kinds of units -/

/-- The kind of unit that a declaration of this kind is lowered into. -/
def DeclKind.unitKind : DeclKind → UnitKind
  | fn => .function
  | var | const => .topLevel
  | test => .test
  | comptime => .comptime

theorem Node.unitKind_of_header {kind : DeclKind} (h : node.header? = some (name, kind)) :
    UnitKind.ofNode node = kind.unitKind := by
  rw [Node.header?] at h
  rw [UnitKind.ofNode]
  cases hk : node.kind with
  | varDecl declared isConst =>
    rw [hk] at h
    cases isConst <;> cases h <;> rfl
  | _ =>
    rw [hk] at h
    cases h <;> rfl

theorem Generator.kind_lowerDecl (g : Generator) (decl : Decl) (node : Node) :
    (g.lowerDecl decl node).unit.kind = UnitKind.ofNode node := by
  rw [lowerDecl, runNode]
  cases UnitKind.ofNode node <;> rfl

namespace FileRun

/-- The kind of an entry's unit is that of the entry. -/
theorem IsUnitOf.kind_eq (h : IsUnitOf root options d u)
    (hd : d ∈ (DeclTable.ofRoot root).1.decls) : u.kind = d.kind.unitKind := by
  obtain ⟨node, hnode, rfl⟩ := h
  obtain ⟨_, other, _, hdesc⟩ := (DeclTable.sound_ofRoot root).entry d hd
  obtain rfl : other = node := Option.some.inj (hdesc.site.symm.trans hnode)
  rw [Generator.kind_lowerDecl]
  exact Node.unitKind_of_header hdesc.header

/-! ### The look-up -/

/-- The unit of an entry is at the position of the entry. -/
theorem exists_unitAt (options : Options) (hd : d ∈ (DeclTable.ofRoot root).1.decls) :
    ∃ u, (ofRoot root options).file.units[d.id.index]? = some u ∧ IsUnitOf root options d u := by
  refine DeclTable.exists_of_forall₂ (forall₂_units root options) ?_
  rw [Array.getElem?_toList]
  exact (DeclTable.wellFormed_ofRoot root).decl?_id hd

/-- The entry at the position of a unit, which has its name. -/
theorem exists_entryAt {i : Nat} (hu : (ofRoot root options).file.units[i]? = some u) :
    ∃ d ∈ (DeclTable.ofRoot root).1.decls, d.id.index = i ∧ d.name = u.name := by
  obtain ⟨d, hd, node, -, rfl⟩ :=
    DeclTable.exists_of_forall₂ (forall₂_units root options).flip hu
  rw [Array.getElem?_toList] at hd
  refine ⟨d, DeclTable.mem_decls_iff.2 ⟨i, hd⟩, ?_, (Generator.name_lowerDecl _ d node).symm⟩
  rw [(DeclTable.wellFormed_ofRoot root).id i d hd]

/-- The unit of the first entry of a name is found. -/
theorem unit?_of_leads (he : (DeclTable.ofRoot root).1.Leads name e)
    (hu : (ofRoot root options).file.units[e.id.index]? = some u) :
    (ofRoot root options).file.unit? name = some u := by
  obtain ⟨hlt, hat⟩ := List.getElem?_eq_some_iff.1 hu
  refine List.find?_eq_some_iff_getElem.2 ⟨?_, e.id.index, hlt, hat, fun j hj => ?_⟩
  · obtain ⟨d, hd, hindex, hname⟩ := exists_entryAt hu
    have ht := DeclTable.wellFormed_ofRoot root
    have hentry := ht.decl?_id hd
    rw [DeclTable.decl?, hindex] at hentry
    obtain rfl := Option.some.inj (hentry.symm.trans (ht.decl?_id he.mem))
    exact beq_iff_eq.2 (hname.symm.trans he.bears)
  · obtain ⟨d, hd, hindex, hname⟩ :=
      exists_entryAt (List.getElem?_eq_getElem (Nat.lt_trans hj hlt))
    rw [Bool.not_eq_true', beq_eq_false_iff_ne]
    intro h
    have := he.first d hd (hname.trans h)
    omega

/-- Nothing is found where the table has no entry of the name. -/
theorem unit?_eq_none : (ofRoot root options).file.unit? name = none ↔
    ∀ d ∈ (DeclTable.ofRoot root).1.decls, d.name ≠ name := by
  constructor
  · intro h d hd hname
    obtain ⟨e, he⟩ := DeclTable.exists_leads hd hname
    obtain ⟨u, hu, -⟩ := exists_unitAt options he.mem
    rw [unit?_of_leads he hu] at h
    cases h
  · intro h
    refine List.find?_eq_none.2 fun u hu hname => ?_
    obtain ⟨i, hi⟩ := List.mem_iff_getElem?.1 hu
    obtain ⟨d, hd, -, hd'⟩ := exists_entryAt hi
    exact h d hd (hd'.trans (beq_iff_eq.1 hname))

/-- Looking up a name that refers to a declaration finds the unit of the first entry of this name.
That is the declaration's own unit unless a test or a compile-time block of the same name stands
before it in the table, whose unit is found then; those behind it are of no account. -/
theorem finds_first_of_name (options : Options)
    (h : (DeclTable.ofRoot root).1.get? name = some d) :
    ∃ u, (ofRoot root options).file.units[d.id.index]? = some u ∧ IsUnitOf root options d u ∧
      ∃ e v, (DeclTable.ofRoot root).1.Leads name e ∧
        (ofRoot root options).file.units[e.id.index]? = some v ∧ IsUnitOf root options e v ∧
        (ofRoot root options).file.unit? name = some v ∧
        (e = d ∨ e.id.index < d.id.index ∧ (v.kind = .test ∨ v.kind = .comptime)) ∧
        (v = u ↔ ∀ e ∈ (DeclTable.ofRoot root).1.decls, e.name = name →
          d.id.index ≤ e.id.index) := by
  obtain ⟨hd, hbears⟩ := DeclTable.of_get? h
  obtain ⟨u, hu, huof⟩ := exists_unitAt options hd
  obtain ⟨e, he⟩ := DeclTable.exists_leads hd hbears.2
  obtain ⟨v, hv, hvof⟩ := exists_unitAt options he.mem
  refine ⟨u, hu, huof, e, v, he, hv, hvof, unit?_of_leads he hv, ?_⟩
  have hukind := huof.kind_eq hd
  have hvkind := hvof.kind_eq he.mem
  rcases (DeclTable.distinct_ofRoot root).leads_of_get? h he with rfl | hkind
  · exact ⟨.inl rfl, fun _ => he.first, fun _ => Option.some.inj (hv.symm.trans hu)⟩
  -- The kinds tell the two apart, for one can be referred to and the other cannot.
  have hne : v.kind ≠ u.kind ∧ (v.kind = .test ∨ v.kind = .comptime) := by
    have hdkind := hbears.1
    rw [hvkind, hukind]
    revert hkind hdkind
    cases e.kind <;> cases d.kind <;> decide
  have hlt : e.id.index < d.id.index := by
    refine Nat.lt_of_le_of_ne (he.first d hd hbears.2) fun heq => hne.1 ?_
    rw [heq, hu] at hv
    rw [Option.some.inj hv]
  refine ⟨.inr ⟨hlt, hne.2⟩, fun huv => absurd (huv ▸ rfl) hne.1, fun hfirst => ?_⟩
  exact absurd (hfirst e he.mem he.bears) (Nat.not_le.2 hlt)

end FileRun

/-- A constant `S` whose container has a test and, behind it, a function of the same name. -/
def Node.testsMember : Node :=
  .bare (.root "t" [.bare (.varDecl "S" true false none (some (.bare (.containerDecl .struct []
    [.bare (.testDecl (some "g") (.bare (.block none []))),
      .bare (.fnDecl "g" [] none (some (.bare (.block none []))) false false)]))))])

theorem DeclTable.ofRoot_testsMember : ofRoot .testsMember =
    (⟨"t", #[⟨⟨0⟩, "S", .const, none, 0, none⟩, ⟨⟨1⟩, "S.g", .test, none, 0, some ⟨0⟩⟩,
      ⟨⟨2⟩, "S.g", .fn, none, 1, some ⟨0⟩⟩]⟩, []) := by
  simp only [ofRoot, namespaceOf, Node.testsMember, Node.bare,
    Node.topLevel, insertAll, insertTopLevel, Node.header?, Node.members?, insertMembers]
  rfl

theorem FileRun.finds_first_of_name_testsMember :
    (DeclTable.ofRoot .testsMember).1.get? "S.g" = some ⟨⟨2⟩, "S.g", .fn, none, 1, some ⟨0⟩⟩ ∧
      ∃ u, IsUnitOf .testsMember {} ⟨⟨2⟩, "S.g", .fn, none, 1, some ⟨0⟩⟩ u ∧
        ∃ v, (ofRoot .testsMember {}).file.unit? "S.g" = some v ∧ v ≠ u := by
  have h : (DeclTable.ofRoot .testsMember).1.get? "S.g" =
      some ⟨⟨2⟩, "S.g", .fn, none, 1, some ⟨0⟩⟩ := by
    rw [DeclTable.ofRoot_testsMember]
    decide +kernel
  obtain ⟨u, -, hu, e, v, -, -, -, hv, -, hiff⟩ := FileRun.finds_first_of_name {} h
  refine ⟨h, u, hu, v, hv, fun heq => ?_⟩
  have := hiff.1 heq ⟨⟨1⟩, "S.g", .test, none, 0, some ⟨0⟩⟩
    (by rw [DeclTable.ofRoot_testsMember]; decide +kernel) rfl
  exact absurd this (by decide)

/-- A test that stands before a member of its name is found in its place, although the name refers
to the member. -/
theorem FileRun.finds_test_for_member :
    ∃ d, (DeclTable.ofRoot .testsMember).1.get? "S.g" = some d ∧ d.kind = .fn ∧
      (ofRoot .testsMember {}).file.isPoisoned = false ∧
      ((ofRoot .testsMember {}).file.unit? "S.g").map (·.kind) = some .test ∧
      ¬ ∃ u, IsUnitOf .testsMember {} d u ∧
        (ofRoot .testsMember {}).file.unit? "S.g" = some u := by
  have htest : ((ofRoot .testsMember {}).file.unit? "S.g").map (·.kind) = some .test := by
    rw [ofRoot, DeclTable.ofRoot_testsMember]
    decide +kernel
  refine ⟨⟨⟨2⟩, "S.g", .fn, none, 1, some ⟨0⟩⟩, ?_, rfl, ?_, htest, ?_⟩
  · rw [DeclTable.ofRoot_testsMember]
    decide +kernel
  · rw [ofRoot, DeclTable.ofRoot_testsMember]
    decide +kernel
  · rintro ⟨u, hu, hfound⟩
    have hkind := hu.kind_eq (by rw [DeclTable.ofRoot_testsMember]; decide +kernel)
    rw [hfound, Option.map_some, hkind] at htest
    cases htest

end SourceIr
