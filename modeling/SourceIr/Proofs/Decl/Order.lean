import Mathlib.Data.List.Nodup
import Mathlib.Data.Set.Function
import SourceIr.Proofs.Decl.Roster
import SourceIr.Proofs.Decl.Units
import SourceIr.Proofs.Retouch.Unit

/-!
# The order of declarations

In a file whose declarations have names of their own, what is declared is the same in any order.
The table has the same entries under other handles, and the lowering of a declaration meets the
table only when it looks up a name.  So its unit refers to other handles and is the same otherwise.

* `DeclTable.Counterpart`, the entries of two tables for the same declaration;
* `DeclTable.handleIn`, the handle of a declaration in another table;
* `DeclTable.Permutes`, a table with its entries under other handles, and `permutes_handleIn`;
* `FileRun.units_of_perm`, the units of a file in another order.
-/

namespace SourceIr

namespace DeclTable

variable {t t' : DeclTable} {roots roots' : List Node} {d d' e : Decl} {root root' : Node}
  {π : DeclId → DeclId}

/-! ### Counterparts -/

/-- Two entries stand for the same declaration. -/
structure Counterpart (t t' : DeclTable) (roots roots' : List Node) (d d' : Decl) : Prop where
  name : d'.name = d.name
  kind : d'.kind = d.kind
  location : d'.location = d.location
  node : t'.node? d'.id roots' = t.node? d.id roots
  containers : t'.containersOf d'.id = t.containersOf d.id

theorem Lists.counterpart {item : Item} (h : t.Lists roots d item) (h' : t'.Lists roots' d' item) :
    Counterpart t t' roots roots' d d' where
  name := h'.name.trans h.name.symm
  kind := h'.kind.trans h.kind.symm
  location := h'.location.trans h.location.symm
  node := h'.node.trans h.node.symm
  containers := h'.around.trans h.around.symm

theorem exists_of_mem_forall₂ {α β : Type} {R : α → β → Prop} {as : List α} {bs : List β}
    (h : List.Forall₂ R as bs) {a : α} (ha : a ∈ as) : ∃ b ∈ bs, R a b := by
  obtain ⟨i, hi⟩ := List.mem_iff_getElem?.1 ha
  obtain ⟨b, hb, hab⟩ := exists_of_forall₂ h hi
  exact ⟨b, List.mem_of_getElem? hb, hab⟩

/-- A declaration has an entry in each of the two tables. -/
theorem exists_counterpart (h : Unambiguous root.topLevel)
    (hperm : root.topLevel.Perm root'.topLevel) (hd : d ∈ (ofRoot root).1.decls) :
    ∃ d' ∈ (ofRoot root').1.decls,
      Counterpart (ofRoot root).1 (ofRoot root').1 root.topLevel root'.topLevel d d' := by
  obtain ⟨item, hitem, hlists⟩ := exists_of_mem_forall₂ (lists_ofRoot h) (Array.mem_toList_iff.2 hd)
  have hitem' : item ∈ roster [] root'.topLevel := (roster_perm hperm).mem_iff.1 hitem
  obtain ⟨d', hd', hlists'⟩ := exists_of_mem_forall₂ (lists_ofRoot (h.perm hperm)).flip hitem'
  exact ⟨d', Array.mem_toList_iff.1 hd', hlists.counterpart hlists'⟩

/-- An entry is known by its name, whatever its kind is. -/
theorem eq_of_name (h : Unambiguous root.topLevel) (hd : d ∈ (ofRoot root).1.decls)
    (he : e ∈ (ofRoot root).1.decls) (hname : d.name = e.name) : d = e := by
  have hnames : ((ofRoot root).1.decls.toList.map (·.name)).Nodup := by
    rw [map_name_of_lists (lists_ofRoot h)]
    exact h.names
  exact List.inj_on_of_nodup_map hnames (Array.mem_toList_iff.2 hd) (Array.mem_toList_iff.2 he)
    hname

/-- A declaration is a member of a container, the last one around it, or of none. -/
theorem Sound.exists_container (ht : t.Sound roots) (hd : d ∈ t.decls) :
    ∃ container : Option Decl, d.parent = container.map (·.id) ∧ (∀ q ∈ container, q ∈ t.decls) ∧
      t.containersOf d.id = t.pathTo container := by
  obtain ⟨container, _, _, hdesc⟩ := ht.entry d hd
  exact ⟨container, hdesc.parent, fun q hq => mem_of_decl? (hdesc.present q hq),
    ht.containersOf_eq (ht.decl?_id hd) hdesc.parent hdesc.present⟩

theorem root_ofRoot (root : Node) : (ofRoot root).1.root = namespaceOf root := by
  refine keeps_of_adds (P := fun t => t.root = namespaceOf root) (fun hadd ht => ?_)
    (steps_ofRoot root) rfl
  cases hadd
  exact ht

/-! ### Tables under other handles -/

/-- The handle that the declaration behind a handle has in another table. -/
def handleIn (t t' : DeclTable) (id : DeclId) : DeclId :=
  (((t.decl? id).bind fun d => t'.decls.find? (·.name == d.name)).map (·.id)).getD id

/-- An entry under another handle. -/
structure Moves (π : DeclId → DeclId) (d d' : Decl) : Prop where
  id : d'.id = π d.id
  name : d'.name = d.name
  kind : d'.kind = d.kind
  location : d'.location = d.location
  parent : d'.parent = d.parent.map π

/-- A table has the entries of another one under other handles. -/
structure Permutes (π : DeclId → DeclId) (t t' : DeclTable) : Prop where
  bijOn : Set.BijOn π {id | id.index < t.decls.size} {id | id.index < t'.decls.size}
  entry : ∀ d ∈ t.decls, ∃ d' ∈ t'.decls, Moves π d d'

/-- Every entry of the other table is one under another handle. -/
theorem Permutes.exists_entry (h : Permutes π t t') (ht : t.WellFormed) (ht' : t'.WellFormed)
    (hd' : d' ∈ t'.decls) : ∃ d ∈ t.decls, Moves π d d' := by
  obtain ⟨id, hlt, hid⟩ := h.bijOn.surjOn (ht'.index_lt hd')
  have hat : t.decls[id.index]? = some t.decls[id.index] := Array.getElem?_eq_getElem hlt
  have hd : t.decls[id.index] ∈ t.decls := mem_decls_iff.2 ⟨_, hat⟩
  obtain ⟨e, he, hmoves⟩ := h.entry _ hd
  have heid : e.id = d'.id := by
    rw [hmoves.id, ht.id _ _ hat]
    exact hid
  obtain rfl : e = d' := Option.some.inj ((ht'.decl?_id he).symm.trans (heid ▸ ht'.decl?_id hd'))
  exact ⟨_, hd, hmoves⟩

/-- Names refer to the same declarations, under their other handles. -/
theorem Permutes.get? (h : Permutes π t t') (ht : t.WellFormed) (ht' : t'.WellFormed)
    (hdistinct : t'.Distinct) (name : String) :
    (t'.get? name).map (fun d => (d.id, d.location)) =
      (t.get? name).map fun d => (π d.id, d.location) := by
  cases hget : t.get? name with
  | some d =>
    obtain ⟨hd, hbears⟩ := of_get? hget
    obtain ⟨d', hd', hmoves⟩ := h.entry d hd
    have hget' : t'.get? name = some d' :=
      hdistinct.get?_eq_some.2 ⟨hd', hmoves.kind ▸ hbears.1, hmoves.name.trans hbears.2⟩
    rw [hget', Option.map_some, Option.map_some, hmoves.id, hmoves.location]
  | none =>
    have hget' : t'.get? name = none := by
      refine get?_eq_none.2 fun d' hd' hbears => ?_
      obtain ⟨d, hd, hmoves⟩ := h.exists_entry ht ht' hd'
      exact get?_eq_none.1 hget d hd
        ⟨hmoves.kind ▸ hbears.1, hmoves.name.symm.trans hbears.2⟩
    rw [hget']
    rfl

section Order

variable (h : Unambiguous root.topLevel) (hperm : root.topLevel.Perm root'.topLevel)

include h hperm

/-- The handle in the other table is that of the counterpart. -/
theorem handleIn_eq (hd : d ∈ (ofRoot root).1.decls) (hd' : d' ∈ (ofRoot root').1.decls)
    (hname : d'.name = d.name) : handleIn (ofRoot root).1 (ofRoot root').1 d.id = d'.id := by
  obtain ⟨e, he⟩ : ∃ e, (ofRoot root').1.decls.find? (·.name == d.name) = some e := by
    rw [← Option.isSome_iff_exists, Array.find?_isSome]
    exact ⟨d', hd', by simpa using hname⟩
  have hsame : e.name = d'.name := by
    rw [hname]
    simpa using Array.find?_some he
  obtain rfl := eq_of_name (h.perm hperm) (Array.mem_of_find?_eq_some he) hd' hsame
  rw [handleIn, (wellFormed_ofRoot root).decl?_id hd, Option.bind_some, he]
  rfl

/-- The container of the counterpart is the counterpart of the container. -/
theorem moves_of_counterpart (hd : d ∈ (ofRoot root).1.decls) (hd' : d' ∈ (ofRoot root').1.decls)
    (hc : Counterpart (ofRoot root).1 (ofRoot root').1 root.topLevel root'.topLevel d d') :
    Moves (handleIn (ofRoot root).1 (ofRoot root').1) d d' := by
  refine ⟨(handleIn_eq h hperm hd hd' hc.name).symm, hc.name, hc.kind, hc.location, ?_⟩
  obtain ⟨container, hparent, hmem, hpath⟩ := (sound_ofRoot root).exists_container hd
  obtain ⟨container', hparent', hmem', hpath'⟩ := (sound_ofRoot root').exists_container hd'
  have hpaths : (ofRoot root').1.pathTo container' = (ofRoot root).1.pathTo container := by
    rw [← hpath, ← hpath', hc.containers]
  rw [hparent, hparent']
  cases container with
  | none =>
    cases container' with
    | none => rfl
    | some q' => simp [pathTo] at hpaths
  | some q =>
    cases container' with
    | none => simp [pathTo] at hpaths
    | some q' =>
      have hname : q'.name = q.name := by simpa using (List.append_inj' hpaths rfl).2
      rw [Option.map_some, Option.map_some, Option.map_some,
        handleIn_eq h hperm (hmem q rfl) (hmem' q' rfl) hname]

theorem permutes_handleIn : Permutes (handleIn (ofRoot root).1 (ofRoot root').1)
    (ofRoot root).1 (ofRoot root').1 := by
  have ht := wellFormed_ofRoot root
  have ht' := wellFormed_ofRoot root'
  have entry : ∀ d ∈ (ofRoot root).1.decls, ∃ d' ∈ (ofRoot root').1.decls,
      Moves (handleIn (ofRoot root).1 (ofRoot root').1) d d' := fun d hd =>
    have ⟨d', hd', hc⟩ := exists_counterpart h hperm hd
    ⟨d', hd', moves_of_counterpart h hperm hd hd' hc⟩
  have at_handle : ∀ (root : Node) (id : DeclId), id.index < (ofRoot root).1.decls.size →
      ∃ d ∈ (ofRoot root).1.decls, d.id = id := fun root id hid =>
    have hat := Array.getElem?_eq_getElem hid
    ⟨_, mem_decls_iff.2 ⟨_, hat⟩, (wellFormed_ofRoot root).id _ _ hat⟩
  refine ⟨⟨?_, ?_, ?_⟩, entry⟩
  · rintro id hid
    obtain ⟨d, hd, rfl⟩ := at_handle root id hid
    obtain ⟨d', hd', hmoves⟩ := entry d hd
    exact hmoves.id ▸ ht'.index_lt hd'
  · rintro id hid id' hid' heq
    obtain ⟨d, hd, rfl⟩ := at_handle root id hid
    obtain ⟨e, he, rfl⟩ := at_handle root id' hid'
    obtain ⟨d', hd', hdmoves⟩ := entry d hd
    obtain ⟨e', he', hemoves⟩ := entry e he
    -- Entries that move to one place have one name.
    have hsame : d'.id = e'.id := by rw [hdmoves.id, hemoves.id, heq]
    obtain rfl : d' = e' :=
      Option.some.inj ((ht'.decl?_id hd').symm.trans (hsame ▸ ht'.decl?_id he'))
    exact congrArg Decl.id (eq_of_name h hd he (hdmoves.name.symm.trans hemoves.name))
  · rintro id hid
    obtain ⟨d', hd', rfl⟩ := at_handle root' id hid
    obtain ⟨d, hd, hc⟩ := exists_counterpart (h.perm hperm) hperm.symm hd'
    exact ⟨d.id, ht.index_lt hd, handleIn_eq h hperm hd hd' hc.name.symm⟩

/-- Lowering against the one table and against the other. -/
theorem between_generators (hroot : namespaceOf root' = namespaceOf root) (options : Options) :
    Generator.Between (.rename (handleIn (ofRoot root).1 (ofRoot root').1))
      (FileRun.generator root options) (FileRun.generator root' options) where
  table := (permutes_handleIn h hperm).get? (wellFormed_ofRoot root) (wellFormed_ofRoot root')
    (distinct_ofRoot root')
  policy := rfl
  maxDepth := rfl
  frames _ _ _ := rfl
  noEffect _ _ := by simp [Retouch.rename, FileRun.generator]
  unreachable _ _ := rfl
  root := by
    rw [FileRun.generator, FileRun.generator, root_ofRoot, root_ofRoot, hroot]
  calls := rfl

theorem size_eq_of_perm : (ofRoot root').1.decls.size = (ofRoot root).1.decls.size := by
  rw [← Array.length_toList, ← Array.length_toList, (lists_ofRoot h).length_eq,
    (lists_ofRoot (h.perm hperm)).length_eq, (roster_perm hperm).length_eq]

end Order

end DeclTable

namespace FileRun

open DeclTable

variable {root root' : Node}

theorem length_units (root : Node) (options : Options) :
    (ofRoot root options).file.units.length = (DeclTable.ofRoot root).1.decls.size := by
  rw [← (forall₂_units root options).length_eq, Array.length_toList]

/-- The order of the declarations in a file does not matter where they have names of their own.
The table has the same entries under other handles, and the unit of a declaration is the same but
for the handles that it refers to. -/
theorem units_of_perm (h : Unambiguous root.topLevel) (hroot : namespaceOf root' = namespaceOf root)
    (hperm : root.topLevel.Perm root'.topLevel) (options : Options) :
    let π := handleIn (DeclTable.ofRoot root).1 (DeclTable.ofRoot root').1
    Permutes π (DeclTable.ofRoot root).1 (DeclTable.ofRoot root').1 ∧
      ∀ id : DeclId, (ofRoot root' options).file.units[(π id).index]? =
        (ofRoot root options).file.units[id.index]?.map (·.retouch (.rename π)) := by
  intro π
  have hpermutes : Permutes π _ _ := permutes_handleIn h hperm
  refine ⟨hpermutes, fun id => ?_⟩
  have hdecl :
      (DeclTable.ofRoot root).1.decls[id.index]? = (DeclTable.ofRoot root).1.decl? id := rfl
  cases hid : (DeclTable.ofRoot root).1.decl? id with
  | none =>
    -- There is no entry behind the handle, in neither of the tables.
    have hle : (DeclTable.ofRoot root).1.decls.size ≤ id.index :=
      Array.getElem?_eq_none_iff.1 (hdecl.trans hid)
    have hπ : π id = id := by simp only [π, handleIn, hid, Option.bind_none, Option.map_none,
      Option.getD_none]
    rw [hπ, List.getElem?_eq_none (by rwa [length_units, size_eq_of_perm h hperm]),
      List.getElem?_eq_none (by rwa [length_units])]
    rfl
  | some d =>
    have hd := mem_of_decl? hid
    obtain rfl : d.id = id := (wellFormed_ofRoot root).id _ d hid
    obtain ⟨d', hd', hc⟩ := exists_counterpart h hperm hd
    have hπ : π d.id = d'.id := handleIn_eq h hperm hd hd' hc.name
    obtain ⟨u, hu, node, hnode, rfl⟩ := exists_of_forall₂ (forall₂_units root options) (a := d)
      (by rwa [Array.getElem?_toList])
    obtain ⟨u', hu', node', hnode', rfl⟩ := exists_of_forall₂ (forall₂_units root' options)
      (a := d') (by rw [Array.getElem?_toList]; exact (wellFormed_ofRoot root').decl?_id hd')
    obtain rfl : node' = node := Option.some.inj (hnode'.symm.trans (hc.node.trans hnode))
    rw [hπ, hu', hu, Option.map_some, Generator.lowerDecl, Generator.lowerDecl, hc.name,
      Generator.unit_runNode_retouch node' d.name _ (between_generators h hperm hroot options)]
    exact congrArg (fun containers => some
      (((generator root options).runNode node' d.name containers).unit.retouch _)) hc.containers

end FileRun

/-- A constant with this value. -/
def Node.constant (name : String) (value : Node) : Node :=
  .bare (.varDecl name true false none (some value))

/-- Two constants, the first of which is set to the second. -/
def Node.refersForward : Node :=
  .bare (.root "t" [.constant "a" (.bare (.symbol "b")), .constant "b" (.bare (.intLiteral 1))])

/-- The same constants the other way round. -/
def Node.refersBack : Node :=
  .bare (.root "t" [.constant "b" (.bare (.intLiteral 1)), .constant "a" (.bare (.symbol "b"))])

theorem DeclTable.ofRoot_refersForward : ofRoot .refersForward =
    (⟨"t", #[⟨⟨0⟩, "a", .const, none, 0, none⟩, ⟨⟨1⟩, "b", .const, none, 1, none⟩]⟩, []) := by
  simp only [ofRoot, namespaceOf, Node.refersForward, Node.constant, Node.bare, Node.topLevel,
    insertAll, insertTopLevel, Node.header?, Node.members?]
  rfl

theorem DeclTable.ofRoot_refersBack : ofRoot .refersBack =
    (⟨"t", #[⟨⟨0⟩, "b", .const, none, 0, none⟩, ⟨⟨1⟩, "a", .const, none, 1, none⟩]⟩, []) := by
  simp only [ofRoot, namespaceOf, Node.refersBack, Node.constant, Node.bare, Node.topLevel,
    insertAll, insertTopLevel, Node.header?, Node.members?]
  rfl

theorem DeclTable.unambiguous_refersForward : Unambiguous Node.refersForward.topLevel where
  names := by
    simp only [Node.refersForward, Node.constant, Node.bare, Node.topLevel, roster, Node.header?]
    decide
  plain node hnode name kind header := by
    simp only [Node.refersForward, Node.constant, Node.bare, Node.topLevel, List.mem_cons,
      List.not_mem_nil, or_false] at hnode
    rcases hnode with rfl | rfl <;> cases header <;> decide

/-- The unit of `a` refers to `b` under the handle that it has in each of the files. -/
theorem FileRun.units_of_perm_refersForward :
    DeclTable.Unambiguous Node.refersForward.topLevel ∧
      Node.refersForward.topLevel.Perm Node.refersBack.topLevel ∧
      DeclTable.handleIn (DeclTable.ofRoot .refersForward).1 (DeclTable.ofRoot .refersBack).1 ⟨1⟩ =
        ⟨0⟩ ∧
      ∀ id, (ofRoot .refersBack {}).file.units[(DeclTable.handleIn
          (DeclTable.ofRoot .refersForward).1 (DeclTable.ofRoot .refersBack).1 id).index]? =
        (ofRoot .refersForward {}).file.units[id.index]?.map (·.retouch (.rename
          (DeclTable.handleIn (DeclTable.ofRoot .refersForward).1
            (DeclTable.ofRoot .refersBack).1))) := by
  have hroot : DeclTable.namespaceOf .refersBack = DeclTable.namespaceOf .refersForward := rfl
  have hperm : Node.refersForward.topLevel.Perm Node.refersBack.topLevel := .swap _ _ _
  refine ⟨DeclTable.unambiguous_refersForward, hperm, ?_,
    (FileRun.units_of_perm DeclTable.unambiguous_refersForward hroot hperm {}).2⟩
  rw [DeclTable.ofRoot_refersForward, DeclTable.ofRoot_refersBack]
  decide

end SourceIr
