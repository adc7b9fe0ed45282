import SourceIr.Proofs.Decl.Spelling
import SourceIr.Proofs.Decl.Units
import SourceIr.Proofs.Safety.Unit
import SourceIr.Proofs.Stream.Variables

/-!
# No declaration is lost

A declaration of a file that the table leaves out is reported with the table.  A member that it
leaves out is not, but then another member has its name, and the unit of the container fails on
that.

* `DeclTable.Fills.settled`, a declaration is added or refused;
* `DeclTable.eq_of_place`, an entry is told apart by its container and its position;
* `Lower.Unseen`, distinct names that have not been seen before, and `Lower.unseen_of_memberNames`,
  the names of members that have been lowered;
* `FileRun.loses_no_declaration`, what becomes of a declaration;
* `FileRun.loses_member_dotted`, a member whose name in the table is taken by its spelling.
-/

namespace SourceIr

namespace DeclTable

variable {t t' u v : DeclTable} {roots nodes : List Node} {root node : Node} {name : String}
  {kind : DeclKind} {index : Nat} {container : Option Decl} {d e q : Decl} {parent : Option DeclId}

/-! ### Added or refused -/

/-- An entry stands at a position in a container, or in the file. -/
def Holds (t : DeclTable) (parent : Option DeclId) (index : Nat) : Prop :=
  ∃ d ∈ t.decls, d.parent = parent ∧ d.index = index

/-- A declaration at a position is in the table, or it is refused. -/
def Settles (t : DeclTable) (container : Option Decl) (index : Nat) (node : Node) : Prop :=
  ∀ name kind, node.header? = some (name, kind) →
    t.Holds (container.map (·.id)) index ∨ t.refuses container name kind = true

theorem Extends.holds (h : t.Extends t') (hd : t.Holds parent index) : t'.Holds parent index :=
  hd.imp fun _ hd => ⟨h.mem hd.1, hd.2⟩

/-- A name that is taken stays taken. -/
theorem Extends.refuses (h : t.Extends t') (hr : t.refuses container name kind = true) :
    t'.refuses container name kind = true := by
  simp only [DeclTable.refuses, Bool.and_eq_true, Bool.or_eq_true] at hr ⊢
  refine hr.imp_right fun hr => hr.imp_right fun htaken => ?_
  obtain ⟨d, hd⟩ := Option.isSome_iff_exists.1 htaken
  rw [← Option.ne_none_iff_isSome]
  intro hnone
  exact get?_eq_none.1 hnone d (h.mem (of_get? hd).1) (of_get? hd).2

/-- What is filled in settles the siblings, and the members of every container that is added. -/
theorem Fills.settled (h : Fills container index nodes t t')
    (hr : t.Remaining roots container index nodes) (hv : t'.Extends v) :
    (∀ j node, nodes[j]? = some node → v.Settles container (index + j) node) ∧
      ∀ d ∈ t'.decls, d ∈ t.decls ∨ ∀ j node,
        (v.siblings roots (some d.id))[j]? = some node → v.Settles (some d) j node := by
  induction h with
  | done => exact ⟨nofun, fun d hd => .inl hd⟩
  | @pass container index node rest t t' header after ih =>
    obtain ⟨hrest, hnew⟩ := ih (hr.after .refl) hv
    refine ⟨fun j other hj => ?_, hnew⟩
    cases j with
    | zero =>
      cases hj
      intro name kind hheader
      rw [header] at hheader
      cases hheader
    | succ j => exact Nat.succ_add_eq_add_succ index j ▸ hrest j other hj
  | @refuse container index node rest t t' name kind header refused after ih =>
    obtain ⟨hrest, hnew⟩ := ih (hr.after .refl) hv
    refine ⟨fun j other hj => ?_, hnew⟩
    cases j with
    | zero =>
      cases hj
      intro name' kind' hheader
      rw [header] at hheader
      cases hheader
      exact .inr ((after.extends.trans hv).refuses refused)
    | succ j => exact Nat.succ_add_eq_add_succ index j ▸ hrest j other hj
  | @enter container index node rest t u t' name kind header free inner after ihInner ihAfter =>
    have hinner := hr.inner header free
    have hu := after.extends.trans hv
    have hentry := inner.extends.trans hu
    obtain ⟨hmembers, hnew⟩ := ihInner hinner hu
    obtain ⟨hrest, hnew'⟩ := ihAfter
      (hr.after (.head (hr.adds header free) (inner.steps hinner))) hv
    refine ⟨fun j other hj => ?_, fun d hd => ?_⟩
    · cases j with
      | zero => exact fun _ _ _ => .inl (hentry.holds ⟨_, mem_add_iff.2 (.inr rfl), rfl, rfl⟩)
      | succ j => exact Nat.succ_add_eq_add_succ index j ▸ hrest j other hj
    · refine (hnew' d hd).elim (fun hd => (hnew d hd).elim (fun hd => ?_) .inr) .inr
      refine (mem_add_iff.1 hd).imp_right ?_
      rintro rfl j other hj
      rw [hentry.siblings_eq (by rintro p ⟨⟩; simp [entry, next])] at hj
      have hnodes := hinner.nodes
      rw [List.drop_zero] at hnodes
      exact Nat.zero_add j ▸ hmembers j other (hnodes ▸ hj)

/-- The members of a container in the table of a file are settled. -/
theorem settles_ofRoot (hq : q ∈ (ofRoot root).1.decls)
    (hnode : ((ofRoot root).1.siblings root.topLevel (some q.id))[index]? = some node) :
    (ofRoot root).1.Settles (some q) index node := by
  refine (((fills_insertAll root.topLevel).settled (remaining_topLevel root) (.refl _)).2 q hq).elim
    (fun h => ?_) fun h => h index node hnode
  simp [empty] at h

/-- A rejection is fatal and names the place of what it rejects. -/
theorem of_rejection? {m : Message} (h : t.rejection? node name kind = some m) :
    m.isFatal = true ∧ m.location = node.location := by
  rw [rejection?] at h
  split at h
  · cases h
  split at h
  · cases h
    exact ⟨rfl, rfl⟩
  · obtain ⟨previous, -, rfl⟩ := Option.map_eq_some_iff.1 h
    exact ⟨rfl, rfl⟩

/-- A declaration of the file is in the table, or it is reported. -/
theorem reported_insertAll {j : Nat} (hnode : nodes[j]? = some node)
    (hheader : node.header? = some (name, kind)) :
    (t.insertAll index nodes).1.Holds none (index + j) ∨
      ∃ m ∈ (t.insertAll index nodes).2, m.isFatal = true ∧ m.location = node.location := by
  induction nodes generalizing t index j with
  | nil => cases hnode
  | cons first rest ih =>
    rw [insertAll]
    cases j with
    | zero =>
      cases hnode
      rw [insertTopLevel_eq, hheader]
      dsimp only
      cases hreject : t.rejection? node name kind with
      | some m => exact .inr ⟨m, by simp, of_rejection? hreject⟩
      | none =>
        have hmembers : Fills (some (t.entry none index node name kind)) 0
            (node.members?.getD []) (t.add (t.entry none index node name kind))
            ((t.add (t.entry none index node name kind)).insertMembers t.next name 0
              (node.members?.getD [])) := fills_insertMembers _
        have hentry : (t.add (t.entry none index node name kind)).Holds none index :=
          ⟨_, mem_add_iff.2 (.inr rfl), rfl, rfl⟩
        exact .inl ((hmembers.extends.trans (fills_insertAll rest).extends).holds hentry)
    | succ j =>
      have hrest := @ih (t.insertTopLevel index first).1 (index + 1) j hnode
      rw [Nat.add_assoc, Nat.add_comm 1 j] at hrest
      refine hrest.imp_right fun h => ?_
      obtain ⟨m, hm, hfatal⟩ := h
      exact ⟨m, List.mem_append_right _ hm, hfatal⟩

/-! ### One entry for a place -/

/-- An entry is told apart by its container and its position there. -/
theorem eq_of_place {i j : Nat} (hd : (ofRoot root).1.decls[i]? = some d)
    (he : (ofRoot root).1.decls[j]? = some e) (hparent : d.parent = e.parent)
    (hindex : d.index = e.index) : i = j := by
  have ht := sound_ofRoot root
  obtain ⟨found, hfound, hat⟩ := ordered_ofRoot root
  obtain ⟨x, hx, hdx⟩ := exists_of_forall₂ hat (a := d) (by rwa [Array.getElem?_toList])
  obtain ⟨y, hy, hey⟩ := exists_of_forall₂ hat (a := e) (by rwa [Array.getElem?_toList])
  have hd' := mem_decls_iff.2 ⟨i, hd⟩
  have he' := mem_decls_iff.2 ⟨j, he⟩
  obtain ⟨container, _, _, hdesc⟩ := ht.entry d hd'
  have hway : x.1 = y.1 := by
    rw [← hdx.way, ← hey.way, ht.way_eq (ht.decl?_id hd') hdesc.parent hdesc.present,
      ht.way_eq (ht.decl?_id he') (hparent ▸ hdesc.parent) hdesc.present, hindex]
  have hnodup := (hfound.map (·.1)).nodup (nodup_sites [] 0 root.topLevel)
  refine (List.getElem?_inj (by simpa using (List.getElem?_eq_some_iff.1 hx).1) hnodup).1 ?_
  rw [List.getElem?_map, List.getElem?_map, hx, hy, Option.map_some, Option.map_some, hway]

/-- A member is refused only for another member of its name. -/
theorem exists_namesake (hroot : namesArePlain root.topLevel = true)
    (hq : q ∈ (ofRoot root).1.decls)
    (hnode : ((ofRoot root).1.siblings root.topLevel (some q.id))[index]? = some node)
    (header : node.header? = some (name, kind))
    (h : (ofRoot root).1.refuses (some q) name kind = true) :
    ∃ e ∈ (ofRoot root).1.decls, ∃ other,
      (ofRoot root).1.Describes root.topLevel e (some q) other name ∧
        e.kind.isReferenceable = true ∧ kind.isReferenceable = true := by
  have ht := sound_ofRoot root
  have hpresent : ∀ p ∈ some q, (ofRoot root).1.decl? p.id = some p := by
    rintro p ⟨⟩
    exact ht.decl?_id hq
  simp only [refuses, nameIn, Bool.and_eq_true, Option.isNone_some, Bool.false_and,
    Bool.false_or] at h
  obtain ⟨e, he⟩ := Option.isSome_iff_exists.1 h.2
  obtain ⟨hmem, hbears⟩ := of_get? he
  have hname := plain_of_siblings ht hroot hpresent hnode header h.1
  obtain ⟨p, other, hdesc, hpath⟩ := exists_member hroot hname hmem hbears
  -- The container of the other member has the same name, so it is the same one.
  have hp := mem_of_decl? (hdesc.present p rfl)
  have hother : (ofRoot root).1.node? e.id root.topLevel = _ := ht.node?_eq (ht.decl?_id hmem)
  rw [hdesc.site, hdesc.parent] at hother
  obtain ⟨_, _, -, -, -, hpkind⟩ := ht.exists_members hp hother.symm
  obtain ⟨_, _, -, -, -, hqkind⟩ := ht.exists_members hq hnode
  obtain rfl : p = q := distinct_ofRoot root p hp q hq q.name ⟨hpkind, hpath⟩ ⟨hqkind, rfl⟩
  exact ⟨e, hmem, other, hdesc, hbears.1, h.1⟩

end DeclTable

/-! ### The names of members -/

namespace Lower

variable {env : Env} {s s' : State} {node : Node} {scope : ScopeId} {loc : ResultLoc}

/-- The name that a member shares with the other members, if it does. -/
def sharedName? (decl : Node) : Option String :=
  if sharesNames decl then decl.declName? else none

theorem sharedName?_of_header {name : String} {kind : DeclKind}
    (h : node.header? = some (name, kind)) (hkind : kind.isReferenceable = true) :
    sharedName? node = some name := by
  rw [Node.header?] at h
  rw [sharedName?, sharesNames, Node.declName?]
  cases hk : node.kind <;> simp only [hk] at h <;> cases h
  · rfl
  · rfl
  · cases hkind
  · cases hkind

/-- The names that have been seen after another one. -/
theorem lookup_seen {seen : Seen} {name other : String} {location : Option Location} :
    List.lookup other ((name, location) :: seen) = none ↔
      other ≠ name ∧ seen.lookup other = none := by
  rw [List.lookup_cons]
  split
  next h => simp [beq_iff_eq.1 h]
  next h => simpa using fun _ => beq_eq_false_iff_ne.1 h

/-- Names that are distinct, none of which has been seen. -/
structure Unseen (seen : Seen) (names : List String) : Prop where
  distinct : names.Nodup
  fresh : ∀ name ∈ names, seen.lookup name = none

theorem unseen_nil (seen : Seen) : Unseen seen [] := ⟨List.nodup_nil, by simp⟩

/-- What is not seen after a name is not this name, nor what was seen before. -/
theorem Unseen.cons {seen : Seen} {name : String} {location : Option Location}
    {names : List String} (hnew : seen.lookup name = none)
    (h : Unseen ((name, location) :: seen) names) : Unseen seen (name :: names) := by
  have hrest : ∀ other ∈ names, other ≠ name ∧ seen.lookup other = none := fun other ho =>
    lookup_seen.1 (h.fresh other ho)
  exact ⟨List.nodup_cons.2 ⟨fun hmem => (hrest name hmem).1 rfl, h.distinct⟩,
    List.forall_mem_cons.2 ⟨hnew, fun other ho => (hrest other ho).2⟩⟩

/-- Members that have been named share no name. -/
theorem unseen_of_memberNames {seen : Seen} {decls : List Node} {names : List String}
    (h : Returns (memberNames seen decls) env s names s') :
    Unseen seen (decls.filterMap sharedName?) := by
  induction decls generalizing seen s s' names with
  | nil => exact unseen_nil seen
  | cons decl rest ih =>
    rw [memberNames] at h
    rw [List.filterMap_cons, sharedName?]
    cases hname : decl.declName? with
    | none =>
      simp only [hname] at h
      simpa using ih h
    | some name =>
      simp only [hname] at h
      split at h
      next hshares =>
        split at h
        · exact absurd h not_returns_fail
        next hfree =>
          obtain ⟨_, _, hrest, -⟩ := returns_bind.1 h
          rw [if_pos hshares]
          exact (ih hrest).cons hfree
      next hshares =>
        obtain ⟨_, _, hrest, -⟩ := returns_bind.1 h
        simpa [hshares] using ih hrest

/-- The members of a container that has been lowered share no name. -/
theorem distinct_of_nested {levels : Nat} {kind : ContainerKind} {fields decls : List Node}
    {value : InstId} (hk : node.kind = .containerDecl kind fields decls)
    (h : Returns ((nested levels).expr node scope loc) env s value s') :
    (decls.filterMap sharedName?).Nodup := by
  cases levels with
  | zero => exact absurd h (not_returns_bind fun _ _ => not_returns_fail)
  | succ levels =>
    rw [nested] at h
    simp only [lowerExpr, hk] at h
    obtain ⟨_, _, -, h₁⟩ := returns_bind.1 h
    obtain ⟨_, _, -, h₂⟩ := returns_bind.1 h₁
    obtain ⟨_, _, -, h₃⟩ := returns_bind.1 h₂
    obtain ⟨_, _, hnames, -⟩ := returns_bind.1 h₃
    exact (unseen_of_memberNames hnames).distinct

theorem distinct_of_lowerGlobal {name : String} {type : Option Node} {init : Node}
    {kind : ContainerKind} {fields decls : List Node} {u : PUnit}
    (hk : init.kind = .containerDecl kind fields decls)
    (h : Returns (lowerGlobal node name type (some init) scope) env s u s') :
    (decls.filterMap sharedName?).Nodup := by
  obtain ⟨_, t₁, -, h₁⟩ := returns_bind.1 h
  obtain ⟨_, t₂, -, h₂⟩ := returns_bind.1 h₁
  obtain ⟨parts, t₃, hparts, h₃⟩ := returns_bind.1 h₂
  rw [outermost, returns_read_bind] at hparts
  obtain ⟨rfl, rfl⟩ := returns_pure.1 hparts
  obtain ⟨_, _, hvalue, -⟩ := returns_bind.1 h₃
  exact distinct_of_nested hk hvalue

end Lower

/-- The unit of a container with two members of one name is poisoned. -/
theorem Generator.isPoisoned_of_namesakes (g : Generator) {node : Node} {members : List Node}
    (hmembers : node.members? = some members)
    (h : ¬ (members.filterMap Lower.sharedName?).Nodup) (decl : Decl) :
    (g.lowerDecl decl node).unit.isPoisoned = true := by
  rw [Node.members?] at hmembers
  split at hmembers
  next hk =>
    cases hmembers
    have hof : UnitKind.ofNode node = .topLevel := by rw [UnitKind.ofNode, hk]
    rw [lowerDecl, runNode, hof]
    rcases g.runTopLevel_outcome node decl.name .topLevel (g.table.containersOf decl.id) with
      ho | ⟨-, hp⟩
    · have hr := Generator.returns_of_outcome ho
      simp only [hk] at hr
      exact absurd (Lower.distinct_of_lowerGlobal rfl hr) h
    · exact hp
  next => cases hmembers

namespace FileRun

open DeclTable

variable {root node : Node} {parent : Option DeclId} {index : Nat} {options : Options}

/-- The declaration at a position is lowered into one unit of the file and no other. -/
def LoweredOnce (root : Node) (options : Options) (parent : Option DeclId) (index : Nat)
    (node : Node) : Prop :=
  ∃! k : Nat, ∃ d u, (DeclTable.ofRoot root).1.decls[k]? = some d ∧
    d.parent = parent ∧ d.index = index ∧ (ofRoot root options).file.units[k]? = some u ∧
      u = ((generator root options).lowerDecl d node).unit

theorem loweredOnce_of_holds
    (hnode : ((DeclTable.ofRoot root).1.siblings root.topLevel parent)[index]? = some node)
    (h : (DeclTable.ofRoot root).1.Holds parent index) :
    LoweredOnce root options parent index node := by
  have ht := sound_ofRoot root
  obtain ⟨d, hd, rfl, rfl⟩ := h
  have hid := ht.decl?_id hd
  obtain ⟨u, hu, other, hother, rfl⟩ := exists_of_forall₂ (forall₂_units root options) (a := d)
    (by rwa [Array.getElem?_toList])
  obtain rfl : other = node := by
    rw [ht.node?_eq hid, hnode] at hother
    exact (Option.some.inj hother).symm
  refine ⟨d.id.index, ⟨d, _, hid, rfl, rfl, hu, rfl⟩, ?_⟩
  rintro k ⟨e, _, he, hparent, hindex, -⟩
  exact eq_of_place he hid hparent hindex

/-- A member that the table leaves out fails the unit of its container. -/
theorem isPoisoned_of_refuses (options : Options) {q : Decl} {name : String} {kind : DeclKind}
    (hroot : namesArePlain root.topLevel = true) (hq : q ∈ (DeclTable.ofRoot root).1.decls)
    (hnode : ((DeclTable.ofRoot root).1.siblings root.topLevel (some q.id))[index]? = some node)
    (header : node.header? = some (name, kind))
    (habsent : ¬ (DeclTable.ofRoot root).1.Holds (some q.id) index)
    (h : (DeclTable.ofRoot root).1.refuses (some q) name kind = true) :
    ∃ u, (ofRoot root options).file.units[q.id.index]? = some u ∧ u.isPoisoned = true := by
  have ht := sound_ofRoot root
  obtain ⟨e, he, other, hdesc, hekind, hkind⟩ := exists_namesake hroot hq hnode header h
  have hother : (DeclTable.ofRoot root).1.node? e.id root.topLevel = _ :=
    ht.node?_eq (ht.decl?_id he)
  rw [hdesc.site, hdesc.parent] at hother
  obtain ⟨outer, members, hsite, hmembers, hmember, -⟩ := ht.exists_members hq hnode
  obtain ⟨_, _, hsite', hmembers', hmember', -⟩ := ht.exists_members hq hother.symm
  obtain rfl := Option.some.inj (hsite.symm.trans hsite')
  obtain rfl := Option.some.inj (hmembers.symm.trans hmembers')
  obtain ⟨u, hu, _, hsite', rfl⟩ := exists_of_forall₂ (forall₂_units root options) (a := q)
    (by rw [Array.getElem?_toList]; exact ht.decl?_id hq)
  obtain rfl := Option.some.inj (hsite.symm.trans hsite')
  refine ⟨_, hu, Generator.isPoisoned_of_namesakes _ hmembers (fun hnodup => habsent ?_) q⟩
  -- The two members have different positions, for the other one is in the table.
  have hindex := Stream.index_eq_of_nodup hnodup hmember hmember'
    (Lower.sharedName?_of_header header hkind) (Lower.sharedName?_of_header hdesc.header hekind)
  exact ⟨e, he, hdesc.parent, hindex.symm⟩

/-- Where names have no dots in them, no declaration is lost.  One of the file, or of a container in
the table, is lowered into one unit, or the file is poisoned: by a fatal diagnostic on the place of
the declaration, or because the unit of its container is. -/
theorem loses_no_declaration (hroot : namesArePlain root.topLevel = true) (options : Options)
    (hnode : ((DeclTable.ofRoot root).1.siblings root.topLevel parent)[index]? = some node)
    (hdecl : node.kind.isDeclaration = true) :
    LoweredOnce root options parent index node ∨
      (ofRoot root options).file.isPoisoned = true ∧
        ((parent = none ∧ ∃ m ∈ (DeclTable.ofRoot root).2,
            m ∈ (ofRoot root options).file.diagnostics ∧ m.isFatal = true ∧
              m.location = node.location) ∨
          ∃ p ∈ parent, ∃ u, (ofRoot root options).file.units[p.index]? = some u ∧
            u.isPoisoned = true) := by
  have ht := sound_ofRoot root
  rw [← isSome_header?, Option.isSome_iff_exists] at hdecl
  obtain ⟨⟨name, kind⟩, header⟩ := hdecl
  by_cases hholds : (DeclTable.ofRoot root).1.Holds parent index
  · exact .inl (loweredOnce_of_holds hnode hholds)
  refine .inr ?_
  cases parent with
  | none =>
    have hreported : (DeclTable.ofRoot root).1.Holds none (0 + index) ∨
        ∃ m ∈ (DeclTable.ofRoot root).2, _ := reported_insertAll hnode header
    rw [Nat.zero_add] at hreported
    obtain ⟨m, hm, hfatal, hlocation⟩ := hreported.resolve_left hholds
    have hmem : m ∈ (ofRoot root options).file.diagnostics := by
      simp only [ofRoot, List.mem_append]
      exact .inl (.inl hm)
    refine ⟨?_, .inl ⟨rfl, m, hm, hmem, hfatal, hlocation⟩⟩
    rw [LoweredFile.isPoisoned, Bool.or_eq_true]
    exact .inr (List.any_eq_true.2 ⟨m, hmem, hfatal⟩)
  | some p =>
    -- A container that is not in the table has no members there.
    cases hp : (DeclTable.ofRoot root).1.decl? p with
    | none =>
      have hnone : (DeclTable.ofRoot root).1.node? p root.topLevel = none := by
        rw [node?, nodeAt?, show (DeclTable.ofRoot root).1.decls[p.index]? = none from hp]
      simp [siblings, hnone] at hnode
    | some q =>
      obtain rfl : q.id = p := ht.id p.index q hp
      have hq := mem_of_decl? hp
      have hrefuses := (settles_ofRoot hq hnode name kind header).resolve_left hholds
      obtain ⟨u, hu, hpoisoned⟩ := isPoisoned_of_refuses options hroot hq hnode header hholds
        hrefuses
      refine ⟨?_, .inr ⟨q.id, rfl, u, hu, hpoisoned⟩⟩
      rw [LoweredFile.isPoisoned, Bool.or_eq_true]
      exact .inl (List.any_eq_true.2 ⟨u, List.mem_of_getElem? hu, hpoisoned⟩)

end FileRun

/-- A function that is only declared. -/
def Node.declared (name : String) : Node := .bare (.fnDecl name [] none none false false)

/-- A container with these members as the initializer of a constant `S`. -/
def Node.containing (members : List Node) : Node :=
  .bare (.varDecl "S" true false none (some (.bare (.containerDecl .struct [] members))))

/-- A file whose container has two members of one name. -/
def Node.repeatsMember : Node :=
  .bare (.root "t" [.containing [.declared "f", .declared "f"]])

theorem DeclTable.ofRoot_repeatsMember : ofRoot .repeatsMember =
    (⟨"t", #[⟨⟨0⟩, "S", .const, none, 0, none⟩, ⟨⟨1⟩, "S.f", .fn, none, 0, some ⟨0⟩⟩]⟩, []) := by
  simp only [ofRoot, namespaceOf, Node.repeatsMember, Node.containing, Node.declared, Node.bare,
    Node.topLevel, insertAll, insertTopLevel, Node.header?, Node.members?, insertMembers]
  rfl

theorem FileRun.loses_no_declaration_repeatsMember :
    LoweredOnce .repeatsMember {} (some ⟨0⟩) 1 (.declared "f") ∨
      (ofRoot .repeatsMember {}).file.isPoisoned = true := by
  have hroot : DeclTable.namesArePlain Node.repeatsMember.topLevel = true := by
    simp only [DeclTable.namesArePlain, Node.repeatsMember, Node.containing, Node.declared,
      Node.bare, Node.topLevel, DeclTable.sites, Node.header?]
    rfl
  have hnode : ((DeclTable.ofRoot .repeatsMember).1.siblings Node.repeatsMember.topLevel
      (some ⟨0⟩))[1]? = some (.declared "f") := by
    rw [DeclTable.ofRoot_repeatsMember, DeclTable.siblings, DeclTable.node?, DeclTable.nodeAt?]
    rfl
  exact (FileRun.loses_no_declaration hroot {} hnode rfl).imp_right And.left

/-- A file in which a function has the name that a member has in the table. -/
def Node.hidesMember : Node :=
  .bare (.root "t" [.declared "S.f", .containing [.declared "f"]])

theorem DeclTable.ofRoot_hidesMember : ofRoot .hidesMember =
    (⟨"t", #[⟨⟨0⟩, "S.f", .fn, none, 0, none⟩, ⟨⟨1⟩, "S", .const, none, 1, none⟩]⟩, []) := by
  simp only [ofRoot, namespaceOf, Node.hidesMember, Node.containing, Node.declared, Node.bare,
    Node.topLevel, insertAll, insertTopLevel, Node.header?, Node.members?, insertMembers]
  rfl

/-- A member that is left out for the spelling of its name in the table is lowered nowhere, and
nothing is reported. -/
theorem FileRun.loses_member_dotted :
    ((DeclTable.ofRoot .hidesMember).1.siblings Node.hidesMember.topLevel (some ⟨1⟩))[0]? =
        some (.declared "f") ∧
      ¬ LoweredOnce .hidesMember {} (some ⟨1⟩) 0 (.declared "f") ∧
      (ofRoot .hidesMember {}).file.units.length = 2 ∧
      (ofRoot .hidesMember {}).file.isPoisoned = false := by
  refine ⟨?_, ?_, ?_, ?_⟩
  · rw [DeclTable.ofRoot_hidesMember, DeclTable.siblings, DeclTable.node?, DeclTable.nodeAt?]
    rfl
  · rintro ⟨k, ⟨d, -, hd, hparent, -⟩, -⟩
    rw [DeclTable.ofRoot_hidesMember] at hd
    rcases k with _ | _ | k <;> simp at hd <;> subst hd <;> cases hparent
  · rw [ofRoot, DeclTable.ofRoot_hidesMember]
    decide +kernel
  · rw [ofRoot, DeclTable.ofRoot_hidesMember]
    decide +kernel

end SourceIr
