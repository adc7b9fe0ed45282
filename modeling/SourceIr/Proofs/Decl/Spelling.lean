import SourceIr.Proofs.Decl.Faithful

/-!
# Dots in names

A table keeps the members of a container under names with a dot in them.  Where the names in the
text have none, a name in the table tells what it is made of: whether it is that of a member, and
if so, of which container and by which name.

* `DeclTable.isPlain`, a name without a dot, and `DeclTable.namesArePlain` for those of a tree;
* `DeclTable.qualified_inj`, the parts of a name;
* `DeclTable.exists_member`, `DeclTable.exists_outermost`, the entry that bears a name.
-/

namespace SourceIr.DeclTable

variable {t : DeclTable} {roots : List Node} {root node : Node} {name path : String}
  {kind : DeclKind} {index : Nat} {container : Option Decl} {d q : Decl}

/-- A name without a dot. -/
def isPlain (name : String) : Bool := !name.toList.contains '.'

theorem isPlain_iff : isPlain name = true ↔ '.' ∉ name.toList := by simp [isPlain]

theorem toList_qualified : (qualified path name).toList = path.toList ++ '.' :: name.toList := by
  simp [qualified, toString]

theorem isPlain_qualified : isPlain (qualified path name) = false := by
  simp [isPlain, toList_qualified]

/-- What stands in front of the last dot, and what behind it. -/
theorem qualified_inj {path' name' : String} (hname : isPlain name = true)
    (hname' : isPlain name' = true) (h : qualified path name = qualified path' name') :
    path = path' ∧ name = name' := by
  rw [isPlain_iff] at hname hname'
  have hlist := congrArg String.toList h
  rw [toList_qualified, toList_qualified] at hlist
  suffices path.toList = path'.toList ∧ name.toList = name'.toList from
    this.imp String.toList_inj.1 String.toList_inj.1
  -- If one path were longer, the dot behind the other one would be in its name.
  rcases List.append_eq_append_iff.1 hlist with ⟨l, hpath, hrest⟩ | ⟨l, hpath, hrest⟩
  · cases l with
    | nil => exact ⟨by simpa using hpath.symm, (List.cons.inj hrest).2⟩
    | cons c l =>
      obtain ⟨-, hrest⟩ := List.cons.inj hrest
      exact absurd (hrest ▸ by simp) hname
  · cases l with
    | nil => exact ⟨by simpa using hpath, (List.cons.inj hrest).2.symm⟩
    | cons c l =>
      obtain ⟨-, hrest⟩ := List.cons.inj hrest
      exact absurd (hrest ▸ by simp) hname'

/-- The declarations of a tree that can be referred to have names without a dot. -/
def namesArePlain (roots : List Node) : Bool :=
  (sites [] 0 roots).all fun site =>
    match site.2.header? with
    | some (name, kind) => !kind.isReferenceable || isPlain name
    | none => true

/-- The declarations in a container of the table are among those of the tree. -/
theorem Sound.mem_sites (ht : t.Sound roots) {site : List Nat × Node} {i : Nat}
    (hq : t.decls[i]? = some q)
    (h : site ∈ sites (t.way q) 0 (t.siblings roots (some q.id))) : site ∈ sites [] 0 roots := by
  induction i using Nat.strongRecOn generalizing q with
  | ind i ih =>
    obtain ⟨container, node, _, hdesc⟩ := ht.entry q (mem_decls_iff.2 ⟨i, hq⟩)
    have hid := ht.decl?_id (mem_decls_iff.2 ⟨i, hq⟩)
    have hnode : t.node? q.id roots = _ := ht.node?_eq hid
    rw [hdesc.site, hdesc.parent] at hnode
    rw [siblings, hdesc.site, ht.way_eq hid hdesc.parent hdesc.present,
      ← Nat.zero_add q.index] at h
    have houter := mem_sites_iff.2 ⟨q.index, node, hnode.symm, .inr h⟩
    cases container with
    | none => exact houter
    | some p => exact ih p.id.index (ht.parent i q hq _ hdesc.parent) (hdesc.present p rfl) houter

/-- The names among the siblings in a table are plain if those of the tree are. -/
theorem plain_of_siblings (ht : t.Sound roots) (hroot : namesArePlain roots = true)
    (present : ∀ q ∈ container, t.decl? q.id = some q)
    (hnode : (t.siblings roots (container.map (·.id)))[index]? = some node)
    (header : node.header? = some (name, kind)) (hkind : kind.isReferenceable = true) :
    isPlain name = true := by
  have hsite : (t.outer container ++ [0 + index], node) ∈
      sites (t.outer container) 0 (t.siblings roots (container.map (·.id))) :=
    mem_sites_iff.2 ⟨index, node, hnode, .inl ⟨by rw [header]; rfl, rfl⟩⟩
  have hmem : (t.outer container ++ [0 + index], node) ∈ sites [] 0 roots := by
    cases container with
    | none => exact hsite
    | some q => exact ht.mem_sites (present q rfl) hsite
  simpa [header, hkind] using List.all_eq_true.1 hroot _ hmem

theorem plain_of_describes (ht : t.Sound roots) (hroot : namesArePlain roots = true)
    (hd : d ∈ t.decls) (h : t.Describes roots d container node name)
    (hkind : d.kind.isReferenceable = true) : isPlain name = true := by
  have hnode : t.node? d.id roots = _ := ht.node?_eq (ht.decl?_id hd)
  rw [h.site, h.parent] at hnode
  exact plain_of_siblings ht hroot h.present hnode.symm h.header hkind

/-- What has members can be referred to. -/
theorem isReferenceable_of_members {members : List Node} (h : node.members? = some members)
    (header : node.header? = some (name, kind)) : kind.isReferenceable = true := by
  rw [Node.members?] at h
  split at h
  next hkind =>
    rw [Node.header?, hkind] at header
    obtain ⟨-, rfl⟩ := Prod.mk.inj (Option.some.inj header)
    split <;> rfl
  next => cases h

/-- The node of a declaration with a container that is not empty. -/
theorem Sound.exists_members (ht : t.Sound roots) (hq : q ∈ t.decls)
    (hnode : (t.siblings roots (some q.id))[index]? = some node) :
    ∃ outer members, t.node? q.id roots = some outer ∧ outer.members? = some members ∧
      members[index]? = some node ∧ q.kind.isReferenceable = true := by
  obtain ⟨_, outer, _, hdesc⟩ := ht.entry q hq
  rw [siblings, hdesc.site, Option.bind_some] at hnode
  cases hmembers : outer.members? with
  | none => simp [hmembers] at hnode
  | some members =>
    rw [hmembers] at hnode
    exact ⟨outer, members, hdesc.site, hmembers, hnode,
      isReferenceable_of_members hmembers hdesc.header⟩

/-- Where the names are plain, a qualified name is that of a member. -/
theorem exists_member (hroot : namesArePlain root.topLevel = true) (hname : isPlain name = true)
    (hd : d ∈ (ofRoot root).1.decls) (h : Bears d (qualified path name)) :
    ∃ q node, (ofRoot root).1.Describes root.topLevel d (some q) node name ∧ q.name = path := by
  obtain ⟨container, node, name', hdesc⟩ := (sound_ofRoot root).entry d hd
  have hname' := plain_of_describes (sound_ofRoot root) hroot hd hdesc h.1
  have heq := hdesc.name.symm.trans h.2
  cases container with
  | none =>
    rw [nameIn] at heq
    rw [heq, isPlain_qualified] at hname'
    cases hname'
  | some q =>
    obtain ⟨hpath, rfl⟩ := qualified_inj hname' hname heq
    exact ⟨q, node, hdesc, hpath⟩

/-- A plain name is that of a declaration of the file. -/
theorem exists_outermost (hname : isPlain name = true) (hd : d ∈ (ofRoot root).1.decls)
    (h : Bears d name) :
    ∃ node, (ofRoot root).1.Describes root.topLevel d none node name := by
  obtain ⟨container, node, name', hdesc⟩ := (sound_ofRoot root).entry d hd
  have heq := hdesc.name.symm.trans h.2
  cases container with
  | none => exact ⟨node, heq ▸ hdesc⟩
  | some q =>
    rw [← heq, nameIn, isPlain_qualified] at hname
    cases hname

end SourceIr.DeclTable
