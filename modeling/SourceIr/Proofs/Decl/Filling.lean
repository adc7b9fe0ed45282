import Mathlib.Logic.Relation
import SourceIr.Proofs.Decl.Table

/-!
# How a table is filled

The declarations of a file and the members of a container are added in the same way: one after
the other, each with its own members before the next one.  A declaration that is refused is left
out with everything in it, and what is in the table already stays as it is.

* `DeclTable.siblings`, the declarations among which one stands;
* `DeclTable.Fills`, the relation between a table before and after, with `fills_insertMembers` and
  `fills_insertAll`;
* `DeclTable.Extends`, a table with further declarations, and what is the same in both;
* `DeclTable.Adds`, a single addition, and `Fills.steps`, which takes a filling apart into those.
-/

namespace SourceIr.DeclTable

variable {t t' u : DeclTable} {roots nodes : List Node} {node : Node} {name : String}
  {kind : DeclKind} {index : Nat} {container : Option Decl}

/-! ### Places -/

/-- The declarations of the file, or those in the container of a declaration. -/
def siblings (t : DeclTable) (roots : List Node) : Option DeclId → List Node
  | none => roots
  | some p => ((t.node? p roots).bind (·.members?)).getD []

/-- The name in the table of a declaration of the file, or of a member of a container. -/
def nameIn (container : Option Decl) (name : String) : String :=
  match container with
  | none => name
  | some q => qualified q.name name

/-- Whether a declaration is left out: its name is taken, or it is that of a primitive type, which
members may have. -/
def refuses (t : DeclTable) (container : Option Decl) (name : String) (kind : DeclKind) : Bool :=
  kind.isReferenceable &&
    (container.isNone && isPrimitiveType name || (t.get? (nameIn container name)).isSome)

/-- The entry for a declaration that is added. -/
def entry (t : DeclTable) (container : Option Decl) (index : Nat) (node : Node) (name : String)
    (kind : DeclKind) : Decl :=
  ⟨t.next, nameIn container name, kind, node.location, index, container.map (·.id)⟩

/-- The table with an entry behind the others. -/
def add (t : DeclTable) (d : Decl) : DeclTable := { t with decls := t.decls.push d }

@[simp] theorem toList_add {d : Decl} : (t.add d).decls.toList = t.decls.toList ++ [d] := by
  simp [add]

@[simp] theorem size_add {d : Decl} : (t.add d).decls.size = t.decls.size + 1 := by
  simp [add]

theorem getElem?_add {d : Decl} (i : Nat) :
    (t.add d).decls[i]? = if i = t.decls.size then some d else t.decls[i]? := by
  simp [add, Array.getElem?_push]

/-! ### Filling -/

/-- The declarations from the one at `index` on, of the file or of a container, take a table to
another one. -/
inductive Fills : Option Decl → Nat → List Node → DeclTable → DeclTable → Prop
  | done {container : Option Decl} {index : Nat} {t : DeclTable} : Fills container index [] t t
  /-- What is no declaration is passed over. -/
  | pass {container : Option Decl} {index : Nat} {node : Node} {rest : List Node}
      {t t' : DeclTable} (header : node.header? = none)
      (after : Fills container (index + 1) rest t t') :
      Fills container index (node :: rest) t t'
  /-- A declaration is left out with its members. -/
  | refuse {container : Option Decl} {index : Nat} {node : Node} {rest : List Node}
      {t t' : DeclTable} {name : String} {kind : DeclKind}
      (header : node.header? = some (name, kind))
      (refused : t.refuses container name kind = true)
      (after : Fills container (index + 1) rest t t') :
      Fills container index (node :: rest) t t'
  /-- A declaration is added, and then its members. -/
  | enter {container : Option Decl} {index : Nat} {node : Node} {rest : List Node}
      {t u t' : DeclTable} {name : String} {kind : DeclKind}
      (header : node.header? = some (name, kind))
      (free : t.refuses container name kind = false)
      (inner : Fills (some (t.entry container index node name kind)) 0 (node.members?.getD [])
        (t.add (t.entry container index node name kind)) u)
      (after : Fills container (index + 1) rest u t') :
      Fills container index (node :: rest) t t'

/-- What is not initialized with a container has no members. -/
theorem members?_eq_none
    (h : ∀ id name isConst isComptime typeExpr id' kind fields decls location' span' location span,
      node = ⟨id, .varDecl name isConst isComptime typeExpr
        (some ⟨id', .containerDecl kind fields decls, location', span'⟩), location, span⟩ → False) :
    node.members? = none := by
  rw [Node.members?]
  split
  next hkind =>
    obtain ⟨_, _, _, _⟩ := node
    cases hkind
    exact (h _ _ _ _ _ _ _ _ _ _ _ _ _ rfl).elim
  next => rfl

/-- The members of a container are a part of the declaration that it initializes. -/
theorem sizeOf_members_lt (h : node ∈ nodes) : sizeOf (node.members?.getD []) < sizeOf nodes := by
  refine Nat.lt_trans ?_ (List.sizeOf_lt_of_mem h)
  obtain ⟨_, kind, _, _⟩ := node
  rw [Node.members?]
  split
  next hkind =>
    cases hkind
    simp
    omega
  next =>
    cases kind <;> simp <;> omega

/-- Adds one member of the container at `path` with its own members. -/
def insertMember (t : DeclTable) (parent : DeclId) (path : String) (index : Nat) (node : Node) :
    DeclTable :=
  match node.header? with
  | none => t
  | some (name, kind) =>
    if kind.isReferenceable && (t.get? (qualified path name)).isSome then t
    else
      (t.push (qualified path name) kind node.location index (some parent)).insertMembers t.next
        (qualified path name) 0 (node.members?.getD [])

theorem insertMembers_cons {parent : DeclId} {path : String} :
    t.insertMembers parent path index (node :: nodes) =
      (t.insertMember parent path index node).insertMembers parent path (index + 1) nodes := by
  rw [insertMembers, insertMember]
  congr 1
  cases node.header? with
  | none => rfl
  | some header =>
    dsimp only
    congr 1
    split
    next => rfl
    next hnot =>
      rw [members?_eq_none hnot]
      exact (insertMembers.eq_1 ..).symm

theorem fills_insertMembers {t : DeclTable} {q : Decl} {index : Nat} (nodes : List Node) :
    Fills (some q) index nodes t (t.insertMembers q.id q.name index nodes) := by
  cases nodes with
  | nil =>
    rw [insertMembers]
    exact .done
  | cons node rest =>
    have after : ∀ u : DeclTable, Fills (some q) (index + 1) rest u
        (u.insertMembers q.id q.name (index + 1) rest) := fun u => fills_insertMembers rest
    rw [insertMembers_cons, insertMember]
    cases hheader : node.header? with
    | none => exact .pass hheader (after t)
    | some header =>
      obtain ⟨name, kind⟩ := header
      dsimp only
      split
      next htaken => exact .refuse hheader (by simpa [refuses, nameIn] using htaken) (after t)
      next hfree =>
        have inner : Fills (some (t.entry (some q) index node name kind)) 0
            (node.members?.getD []) (t.add (t.entry (some q) index node name kind)) _ :=
          fills_insertMembers _
        exact .enter hheader (by simpa [refuses, nameIn] using hfree) inner (after _)
  termination_by sizeOf nodes
  decreasing_by
    · rw [List.cons.sizeOf_spec]
      omega
    · exact sizeOf_members_lt List.mem_cons_self

theorem isSome_rejection? :
    (t.rejection? node name kind).isSome = t.refuses none name kind := by
  rw [rejection?, refuses, nameIn]
  cases kind.isReferenceable with
  | false => rfl
  | true => cases isPrimitiveType name <;> simp

theorem insertTopLevel_eq : t.insertTopLevel index node =
    match node.header? with
    | none => (t, none)
    | some (name, kind) =>
      match t.rejection? node name kind with
      | some m => (t, some m)
      | none => ((t.add (t.entry none index node name kind)).insertMembers t.next name 0
          (node.members?.getD []), none) := by
  rw [insertTopLevel]
  cases node.header? with
  | none => rfl
  | some header =>
    dsimp only
    cases t.rejection? node header.1 header.2 with
    | some m => rfl
    | none =>
      cases node.members? with
      | some members => rfl
      | none =>
        dsimp only [Option.getD_none]
        rw [insertMembers]
        rfl

theorem fills_insertAll (nodes : List Node) :
    Fills none index nodes t (t.insertAll index nodes).1 := by
  induction nodes generalizing t index with
  | nil => exact .done
  | cons node rest ih =>
    rw [insertAll, insertTopLevel_eq]
    cases hheader : node.header? with
    | none => exact .pass hheader ih
    | some header =>
      obtain ⟨name, kind⟩ := header
      have hrefuses : (t.rejection? node name kind).isSome = _ := isSome_rejection?
      dsimp only
      cases hreject : t.rejection? node name kind with
      | some m => exact .refuse hheader (by rw [← hrefuses, hreject]; rfl) ih
      | none =>
        have inner : Fills (some (t.entry none index node name kind)) 0 (node.members?.getD [])
            (t.add (t.entry none index node name kind)) _ := fills_insertMembers _
        exact .enter hheader (by rw [← hrefuses, hreject]; rfl) inner ih

/-! ### Tables with further declarations -/

/-- A table has the declarations of another one, and further ones behind them. -/
def Extends (t t' : DeclTable) : Prop := t.decls.toList <+: t'.decls.toList

namespace Extends

theorem refl (t : DeclTable) : t.Extends t := List.prefix_rfl

theorem trans (h : t.Extends u) (h' : u.Extends t') : t.Extends t' := List.IsPrefix.trans h h'

theorem getElem?_eq (h : t.Extends t') {i : Nat} (hi : i < t.decls.size) :
    t'.decls[i]? = t.decls[i]? := by
  obtain ⟨l, hl⟩ := h
  rw [← Array.getElem?_toList, ← Array.getElem?_toList, ← hl, List.getElem?_append_left (by simpa)]

theorem mem (h : t.Extends t') {d : Decl} (hd : d ∈ t.decls) : d ∈ t'.decls :=
  Array.mem_toList_iff.1 (List.IsPrefix.subset h (Array.mem_toList_iff.2 hd))

theorem decl?_eq_some (h : t.Extends t') {id : DeclId} {d : Decl} (hd : t.decl? id = some d) :
    t'.decl? id = some d := by
  rw [decl?, h.getElem?_eq (Array.getElem?_eq_some_iff.1 hd).1]
  exact hd

/-- The way back to the tree stays the same. -/
theorem nodeAt?_eq (h : t.Extends t') {i : Nat} (hi : i < t.decls.size) :
    t'.nodeAt? roots i = t.nodeAt? roots i := by
  induction i using Nat.strongRecOn with
  | ind i ih =>
    rw [nodeAt?, nodeAt?.eq_1 t, h.getElem?_eq hi]
    rcases t.decls[i]? with _ | ⟨_, _, _, _, index, _ | p⟩
    · rfl
    · rfl
    · dsimp only
      split
      next hlt => rw [ih p.index hlt (Nat.lt_trans hlt hi)]
      next => rfl

theorem siblings_eq (h : t.Extends t') {parent : Option DeclId}
    (hp : ∀ p ∈ parent, p.index < t.decls.size) :
    t'.siblings roots parent = t.siblings roots parent := by
  cases parent with
  | none => rfl
  | some p => rw [siblings, siblings, node?, node?, h.nodeAt?_eq (hp p rfl)]

end Extends

theorem extends_add (d : Decl) : t.Extends (t.add d) := ⟨[d], by simp⟩

theorem Fills.extends (h : Fills container index nodes t t') : t.Extends t' := by
  induction h with
  | done => exact .refl _
  | pass header after ih | refuse header refused after ih => exact ih
  | enter header free inner after ihInner ihAfter =>
    exact ((extends_add _).trans ihInner).trans ihAfter

/-- A declaration is found where its siblings have it. -/
theorem WellFormed.node?_eq (ht : t.WellFormed) {id : DeclId} {d : Decl}
    (hd : t.decl? id = some d) : t.node? id roots = (t.siblings roots d.parent)[d.index]? := by
  have hparent := ht.parent id.index d hd
  obtain ⟨_, _, _, _, index, parent⟩ := d
  rw [node?, nodeAt?, show t.decls[id.index]? = some _ from hd]
  cases parent with
  | none => rfl
  | some p =>
    dsimp only [siblings]
    rw [if_pos (hparent p rfl), node?]
    cases t.nodeAt? roots p.index with
    | none => rfl
    | some node =>
      change (node.members?.bind fun members => members[index]?) = (node.members?.getD [])[index]?
      cases node.members? <;> rfl

/-! ### Single additions -/

/-- One declaration of the file, or of a container in the table, is added. -/
inductive Adds (roots : List Node) (t : DeclTable) : DeclTable → Prop
  | intro {container : Option Decl} {index : Nat} {node : Node} {name : String} {kind : DeclKind}
      (present : ∀ q ∈ container, t.decl? q.id = some q)
      (site : (t.siblings roots (container.map (·.id)))[index]? = some node)
      (header : node.header? = some (name, kind))
      (free : t.refuses container name kind = false) :
      Adds roots t (t.add (t.entry container index node name kind))

theorem Adds.extends (h : Adds roots t t') : t.Extends t' := by
  cases h
  exact extends_add _

theorem index_lt_of_present (h : ∀ q ∈ container, t.decl? q.id = some q) :
    ∀ p ∈ container.map (·.id), p.index < t.decls.size := by
  cases container with
  | none => nofun
  | some q =>
    rintro p ⟨⟩
    exact (Array.getElem?_eq_some_iff.1 (h q rfl)).1

theorem Adds.wellFormed (h : Adds roots t t') (ht : t.WellFormed) : t'.WellFormed := by
  cases h with
  | intro present site header free => exact ht.push (index_lt_of_present present)

theorem decl?_entry :
    (t.add (t.entry container index node name kind)).decl? t.next =
      some (t.entry container index node name kind) := by
  rw [decl?, getElem?_add]
  exact if_pos rfl

/-- From the entry that is added one gets back to its node. -/
theorem WellFormed.node?_entry (ht : t.WellFormed) (name : String) (kind : DeclKind)
    (present : ∀ q ∈ container, t.decl? q.id = some q)
    (site : (t.siblings roots (container.map (·.id)))[index]? = some node) :
    (t.add (t.entry container index node name kind)).node? t.next roots = some node := by
  have hwf : (t.add (t.entry container index node name kind)).WellFormed :=
    ht.push (index_lt_of_present present)
  rw [hwf.node?_eq decl?_entry, ← site]
  exact congrArg (·[index]?) ((extends_add _).siblings_eq (index_lt_of_present present))

/-- What a single addition keeps is kept by all of them. -/
theorem keeps_of_adds {P : DeclTable → Prop}
    (hP : ∀ {t t' : DeclTable}, Adds roots t t' → P t → P t')
    (h : Relation.ReflTransGen (Adds roots) t t') (ht : P t) : P t' := by
  induction h with
  | refl => exact ht
  | tail _ hadd ih => exact hP hadd ih

theorem extends_of_steps (h : Relation.ReflTransGen (Adds roots) t t') : t.Extends t' := by
  induction h with
  | refl => exact .refl t
  | tail _ hadd ih => exact ih.trans hadd.extends

theorem WellFormed.of_steps (ht : t.WellFormed) (h : Relation.ReflTransGen (Adds roots) t t') :
    t'.WellFormed := keeps_of_adds Adds.wellFormed h ht

/-- What remains to be added to a table: the siblings from the one at `index` on. -/
structure Remaining (t : DeclTable) (roots : List Node) (container : Option Decl) (index : Nat)
    (nodes : List Node) : Prop where
  wellFormed : t.WellFormed
  present : ∀ q ∈ container, t.decl? q.id = some q
  nodes : (t.siblings roots (container.map (·.id))).drop index = nodes

namespace Remaining

variable {rest : List Node}

theorem site (h : t.Remaining roots container index (node :: rest)) :
    (t.siblings roots (container.map (·.id)))[index]? = some node := by
  rw [← List.head?_drop, h.nodes, List.head?_cons]

theorem adds (h : t.Remaining roots container index (node :: rest))
    (header : node.header? = some (name, kind)) (free : t.refuses container name kind = false) :
    Adds roots t (t.add (t.entry container index node name kind)) :=
  .intro h.present h.site header free

/-- Past a sibling the others remain, also in a table with further declarations. -/
theorem after (h : t.Remaining roots container index (node :: rest))
    (hsteps : Relation.ReflTransGen (Adds roots) t u) :
    u.Remaining roots container (index + 1) rest where
  wellFormed := h.wellFormed.of_steps hsteps
  present q hq := (extends_of_steps hsteps).decl?_eq_some (h.present q hq)
  nodes := by
    rw [(extends_of_steps hsteps).siblings_eq (index_lt_of_present h.present), ← List.tail_drop,
      h.nodes, List.tail_cons]

/-- Once a declaration is added, its members remain. -/
theorem inner (h : t.Remaining roots container index (node :: rest))
    (header : node.header? = some (name, kind)) (free : t.refuses container name kind = false) :
    (t.add (t.entry container index node name kind)).Remaining roots
      (some (t.entry container index node name kind)) 0 (node.members?.getD []) where
  wellFormed := (h.adds header free).wellFormed h.wellFormed
  present := by
    rintro q ⟨⟩
    exact decl?_entry
  nodes := by
    have hnode := h.wellFormed.node?_entry name kind h.present h.site
    simp only [List.drop_zero, Option.map_some, siblings]
    exact hnode ▸ rfl

end Remaining

/-- Filling adds one declaration at a time. -/
theorem Fills.steps (h : Fills container index nodes t t')
    (hr : t.Remaining roots container index nodes) : Relation.ReflTransGen (Adds roots) t t' := by
  induction h with
  | done => exact .refl
  | pass header after ih => exact ih (hr.after .refl)
  | refuse header refused after ih => exact ih (hr.after .refl)
  | enter header free inner after ihInner ihAfter =>
    have hsteps := Relation.ReflTransGen.head (hr.adds header free) (ihInner (hr.inner header free))
    exact hsteps.trans (ihAfter (hr.after hsteps))

theorem remaining_topLevel (root : Node) :
    (empty (namespaceOf root)).Remaining root.topLevel none 0 root.topLevel :=
  ⟨wellFormed_empty _, nofun, rfl⟩

/-- The table of a file is filled from the front. -/
theorem steps_ofRoot (root : Node) :
    Relation.ReflTransGen (Adds root.topLevel) (empty (namespaceOf root)) (ofRoot root).1 :=
  (fills_insertAll root.topLevel).steps (remaining_topLevel root)

end SourceIr.DeclTable
