import Mathlib.Data.List.Forall2
import SourceIr.Proofs.Decl.Filling

/-!
# What a table says of a tree

The declarations of a tree come in the order of the text, each before the members of its container,
and are told apart by the positions on the way to them.  An entry of a table stands for one of them.
It has the kind and the location of its node, the position among its siblings and the name, behind
that of the container it is a member of.  The entries keep the order of the text, and no two of them
that can be referred to share a name.

* `DeclTable.sites`, the declarations with the ways to them, `DeclTable.mem_sites_iff`, what is
  among them, and `DeclTable.nodup_sites`, no two have the same way;
* `DeclTable.Describes`, an entry with the node that it was made from;
* `DeclTable.StandsAt`, the place of an entry in the tree, and `Fills.ordered`;
* `DeclTable.Ancestry`, the declarations around one;
* `DeclTable.Faithful`, what a table says of a tree, and `DeclTable.faithful_ofRoot`.
-/

namespace SourceIr.DeclTable

/-! ### The places of declarations -/

section Sites

variable {nodes : List Node} {node : Node} {outer : List Nat} {index : Nat}
  {site : List Nat × Node}

/-- The declarations among some siblings and those in their containers, in the order of the text.
Each has with it the positions on the way to it; `outer` is the way to the siblings, the first of
which has the position `index`. -/
def sites (outer : List Nat) (index : Nat) : List Node → List (List Nat × Node)
  | [] => []
  | node :: rest =>
    let inner :=
      match node with
      | ⟨_, .varDecl _ _ _ _ (some ⟨_, .containerDecl _ _ decls, _, _⟩), _, _⟩ =>
        sites (outer ++ [index]) 0 decls
      | _ => []
    (if node.header?.isSome then [(outer ++ [index], node)] else []) ++ inner ++
      sites outer (index + 1) rest

theorem sites_cons :
    sites outer index (node :: nodes) =
      (if node.header?.isSome then [(outer ++ [index], node)] else []) ++
        sites (outer ++ [index]) 0 (node.members?.getD []) ++ sites outer (index + 1) nodes := by
  rw [sites.eq_def]
  dsimp only
  congr 2
  split
  next => rfl
  next hnot =>
    rw [members?_eq_none hnot]
    exact (sites.eq_1 ..).symm

/-- A declaration among some siblings, or in the container of one of them. -/
theorem mem_sites_iff : site ∈ sites outer index nodes ↔ ∃ j node, nodes[j]? = some node ∧
    (node.header?.isSome = true ∧ site = (outer ++ [index + j], node) ∨
      site ∈ sites (outer ++ [index + j]) 0 (node.members?.getD [])) := by
  induction nodes generalizing index with
  | nil => simp [sites]
  | cons first rest ih =>
    have hfirst : (site ∈ if first.header?.isSome then [(outer ++ [index], first)] else []) ↔
        first.header?.isSome = true ∧ site = (outer ++ [index], first) := by
      split <;> simp [*]
    rw [sites_cons, List.mem_append, List.mem_append, hfirst, ih]
    constructor
    · rintro (h | ⟨j, node, hnode, h⟩)
      · exact ⟨0, first, rfl, h⟩
      · exact ⟨j + 1, node, hnode, by rwa [Nat.add_comm j 1, ← Nat.add_assoc]⟩
    · rintro ⟨_ | j, node, hnode, h⟩
      · cases hnode
        exact .inl h
      · exact .inr ⟨j, node, hnode, by rwa [Nat.add_comm j 1, ← Nat.add_assoc] at h⟩

/-- The way to a declaration leads through one of the siblings. -/
theorem prefix_of_mem_sites {outer : List Nat} {index : Nat} {nodes : List Node}
    (h : site ∈ sites outer index nodes) : ∃ j, index ≤ j ∧ outer ++ [j] <+: site.1 := by
  obtain ⟨j, node, hnode, ⟨-, rfl⟩ | hinner⟩ := mem_sites_iff.1 h
  · exact ⟨index + j, Nat.le_add_right .., List.prefix_rfl⟩
  · obtain ⟨i, -, hi⟩ := prefix_of_mem_sites hinner
    exact ⟨index + j, Nat.le_add_right .., (List.prefix_append ..).trans hi⟩
  termination_by sizeOf nodes
  decreasing_by exact sizeOf_members_lt (List.mem_of_getElem? hnode)

/-- Ways that lead through different siblings are different. -/
theorem eq_of_through {way : List Nat} {i j : Nat} (hi : outer ++ [i] <+: way)
    (hj : outer ++ [j] <+: way) : i = j := by
  have h := List.prefix_of_prefix_length_le hi hj (by simp)
  simpa using h.eq_of_length (by simp)

/-- No two declarations have the same way. -/
theorem nodup_sites (outer : List Nat) (index : Nat) (nodes : List Node) :
    ((sites outer index nodes).map (·.1)).Nodup := by
  cases nodes with
  | nil => simp [sites]
  | cons node rest =>
    have hinner := nodup_sites (outer ++ [index]) 0 (node.members?.getD [])
    have hrest := nodup_sites outer (index + 1) rest
    have hfirst : ∀ site ∈ (if node.header?.isSome then [(outer ++ [index], node)] else []),
        site = (outer ++ [index], node) := by
      split <;> simp
    rw [sites_cons, List.map_append, List.map_append, List.nodup_append, List.nodup_append]
    refine ⟨⟨?_, hinner, ?_⟩, hrest, ?_⟩
    · split <;> simp
    · simp only [List.mem_map]
      rintro _ ⟨x, hx, rfl⟩ _ ⟨y, hy, rfl⟩ heq
      obtain ⟨j, -, hj⟩ := prefix_of_mem_sites hy
      have hlen := hj.length_le
      simp [← heq, hfirst x hx] at hlen
    · simp only [List.mem_append, List.mem_map]
      rintro way hway _ ⟨y, hy, rfl⟩ rfl
      obtain ⟨j, hlt, hj⟩ := prefix_of_mem_sites hy
      -- A way through the first sibling is none through a later one.
      have hi : outer ++ [index] <+: y.1 := by
        rcases hway with ⟨x, hx, hxy⟩ | ⟨x, hx, hxy⟩
        · have hself : y.1 = outer ++ [index] := by rw [← hxy, hfirst x hx]
          exact hself ▸ List.prefix_rfl
        · obtain ⟨i, -, hi⟩ := prefix_of_mem_sites hx
          exact hxy ▸ (List.prefix_append ..).trans hi
      exact absurd (eq_of_through hi hj) (Nat.ne_of_lt hlt)
  termination_by sizeOf nodes
  decreasing_by
    · exact sizeOf_members_lt List.mem_cons_self
    · rw [List.cons.sizeOf_spec]
      omega

end Sites

/-! ### The entries of a table -/

variable {t t' u : DeclTable} {roots nodes : List Node} {node : Node} {name : String}
  {kind : DeclKind} {index : Nat} {container : Option Decl} {d e : Decl}

theorem mem_decls_iff : d ∈ t.decls ↔ ∃ i : Nat, t.decls[i]? = some d := Array.mem_iff_getElem?

/-- A declaration is behind its handle. -/
theorem WellFormed.decl?_id (ht : t.WellFormed) (hd : d ∈ t.decls) : t.decl? d.id = some d := by
  obtain ⟨i, hi⟩ := mem_decls_iff.1 hd
  rw [ht.id i d hi]
  exact hi

theorem mem_of_decl? {id : DeclId} (h : t.decl? id = some d) : d ∈ t.decls :=
  mem_decls_iff.2 ⟨id.index, h⟩

/-- A handle is below the number of declarations. -/
theorem WellFormed.index_lt (ht : t.WellFormed) (hd : d ∈ t.decls) :
    d.id.index < t.decls.size :=
  (Array.getElem?_eq_some_iff.1 (ht.decl?_id hd)).1

theorem WellFormed.parent_lt (ht : t.WellFormed) (hd : d ∈ t.decls) :
    ∀ p ∈ d.parent, p.index < d.id.index := ht.parent _ d (ht.decl?_id hd)

theorem mem_add_iff : d ∈ (t.add e).decls ↔ d ∈ t.decls ∨ d = e := by simp [add]

/-! ### Names -/

/-- A declaration that can be referred to by a name. -/
def Bears (d : Decl) (name : String) : Prop := d.kind.isReferenceable = true ∧ d.name = name

theorem of_get? (h : t.get? name = some d) : d ∈ t.decls ∧ Bears d name := by
  have hmem := List.mem_of_find?_eq_some h
  have hbears := List.find?_some h
  exact ⟨by simpa using hmem, by simpa [Bears] using hbears⟩

theorem get?_eq_none : t.get? name = none ↔ ∀ d ∈ t.decls, ¬ Bears d name := by
  simp [get?, Bears]

/-- Declarations that can be referred to have names of their own. -/
def Distinct (t : DeclTable) : Prop :=
  ∀ d ∈ t.decls, ∀ e ∈ t.decls, ∀ name, Bears d name → Bears e name → d = e

theorem Distinct.get?_eq_some (h : t.Distinct) :
    t.get? name = some d ↔ d ∈ t.decls ∧ Bears d name := by
  refine ⟨of_get?, fun ⟨hd, hname⟩ => ?_⟩
  cases hget : t.get? name with
  | none => exact absurd hname (get?_eq_none.1 hget d hd)
  | some e =>
    obtain ⟨he, hname'⟩ := of_get? hget
    rw [h e he d hd name hname' hname]

/-- What is not refused bears no name that is taken. -/
theorem not_bears_of_free (h : t.refuses container name kind = false) (hd : d ∈ t.decls)
    (hkind : kind.isReferenceable = true) : ¬ Bears d (nameIn container name) := by
  refine get?_eq_none.1 ?_ d hd
  rw [refuses, hkind, Bool.true_and, Bool.or_eq_false_iff] at h
  exact Option.not_isSome_iff_eq_none.1 (by simp [h.2])

theorem Adds.distinct (h : Adds roots t t') (ht : t.Distinct) : t'.Distinct := by
  cases h with
  | intro present site header free =>
    intro d hd e he name hdn hen
    rcases mem_add_iff.1 hd with hd | rfl <;> rcases mem_add_iff.1 he with he | rfl
    · exact ht d hd e he name hdn hen
    · rw [← hen.2] at hdn
      exact absurd hdn (not_bears_of_free free hd hen.1)
    · rw [← hdn.2] at hen
      exact absurd hen (not_bears_of_free free he hdn.1)
    · rfl

/-! ### Entries and nodes -/

/-- An entry was made from a node, which is a declaration of the file or a member of a container. -/
structure Describes (t : DeclTable) (roots : List Node) (d : Decl) (container : Option Decl)
    (node : Node) (name : String) : Prop where
  parent : d.parent = container.map (·.id)
  present : ∀ q ∈ container, t.decl? q.id = some q
  site : t.node? d.id roots = some node
  header : node.header? = some (name, d.kind)
  location : d.location = node.location
  name : d.name = nameIn container name

theorem Describes.extend (h : t.Describes roots d container node name) (hext : t.Extends t')
    (hd : d.id.index < t.decls.size) : t'.Describes roots d container node name where
  parent := h.parent
  present q hq := hext.decl?_eq_some (h.present q hq)
  site := by
    rw [node?, hext.nodeAt?_eq hd]
    exact h.site
  header := h.header
  location := h.location
  name := h.name

/-- Every entry was made from a node. -/
structure Sound (roots : List Node) (t : DeclTable) : Prop extends t.WellFormed where
  entry : ∀ d ∈ t.decls, ∃ container node name, t.Describes roots d container node name

theorem Adds.sound (h : Adds roots t t') (ht : t.Sound roots) : t'.Sound roots := by
  refine ⟨h.wellFormed ht.toWellFormed, fun d hd => ?_⟩
  cases h with
  | intro present site header free =>
    rcases mem_add_iff.1 hd with hd | rfl
    · obtain ⟨container, node, name, h⟩ := ht.entry d hd
      exact ⟨_, _, _, h.extend (extends_add _) (ht.index_lt hd)⟩
    · exact ⟨_, _, _, rfl, fun q hq => (extends_add _).decl?_eq_some (present q hq),
        ht.node?_entry _ _ present site, header, rfl, rfl⟩

theorem sound_ofRoot (root : Node) : (ofRoot root).1.Sound root.topLevel :=
  keeps_of_adds Adds.sound (steps_ofRoot root)
    ⟨wellFormed_empty _, fun d hd => by simp [empty] at hd⟩

theorem distinct_ofRoot (root : Node) : (ofRoot root).1.Distinct :=
  keeps_of_adds Adds.distinct (steps_ofRoot root) fun d hd => by simp [empty] at hd

/-! ### The declarations around one -/

/-- The declarations whose containers are around a declaration, outermost first. -/
inductive Ancestry (t : DeclTable) : Decl → List Decl → Prop
  | top {d : Decl} (parent : d.parent = none) : Ancestry t d []
  | member {d q : Decl} {p : DeclId} {around : List Decl} (parent : d.parent = some p)
      (decl : t.decl? p = some q) (outer : Ancestry t q around) : Ancestry t d (around ++ [q])

theorem WellFormed.ancestorsAt_eq (ht : t.WellFormed) {i : Nat} (hd : t.decls[i]? = some d) :
    t.ancestorsAt i =
      match d.parent with
      | none => []
      | some p => (t.decls[p.index]?).toList ++ t.ancestorsAt p.index := by
  have hparent := ht.parent i d hd
  rw [ancestorsAt, hd]
  obtain ⟨_, _, _, _, _, _ | p⟩ := d
  · rfl
  · exact if_pos (hparent p rfl)

/-- The walk outward meets the declarations around one. -/
theorem WellFormed.ancestry (ht : t.WellFormed) (hd : d ∈ t.decls) :
    t.Ancestry d (t.ancestorsAt d.id.index).reverse := by
  obtain ⟨i, hi⟩ := mem_decls_iff.1 hd
  rw [ht.id i d hi]
  dsimp only
  clear hd
  induction i using Nat.strongRecOn generalizing d with
  | ind i ih =>
    rw [ht.ancestorsAt_eq hi]
    cases hp : d.parent with
    | none => exact .top hp
    | some p =>
      have hlt := ht.parent i d hi p hp
      have hq := Array.getElem?_eq_getElem (Nat.lt_trans hlt (Array.getElem?_eq_some_iff.1 hi).1)
      dsimp only
      rw [hq, Option.toList_some, List.singleton_append, List.reverse_cons]
      exact .member hp hq (ih p.index hlt hq)

theorem Extends.ancestorsAt_eq (h : t.Extends t') {i : Nat} (hi : i < t.decls.size) :
    t'.ancestorsAt i = t.ancestorsAt i := by
  induction i using Nat.strongRecOn with
  | ind i ih =>
    rw [ancestorsAt, ancestorsAt.eq_1 t, h.getElem?_eq hi]
    rcases t.decls[i]? with _ | ⟨_, _, _, _, _, _ | p⟩
    · rfl
    · rfl
    · dsimp only
      split
      next hlt => rw [ih p.index hlt (Nat.lt_trans hlt hi), h.getElem?_eq (Nat.lt_trans hlt hi)]
      next => rfl

/-! ### The order of the text -/

/-- The positions on the way to a declaration, outermost first. -/
def way (t : DeclTable) (d : Decl) : List Nat :=
  ((t.ancestorsAt d.id.index).map (·.index)).reverse ++ [d.index]

/-- The way to the siblings of a declaration. -/
def outer (t : DeclTable) : Option Decl → List Nat
  | none => []
  | some q => t.way q

theorem Extends.way_eq (h : t.Extends t') (hd : d.id.index < t.decls.size) :
    t'.way d = t.way d := by
  rw [way, way, h.ancestorsAt_eq hd]

theorem Extends.outer_eq (h : t.Extends t') (present : ∀ q ∈ container, t.decl? q.id = some q) :
    t'.outer container = t.outer container := by
  cases container with
  | none => rfl
  | some q => exact h.way_eq (Array.getElem?_eq_some_iff.1 (present q rfl)).1

/-- The way to a member goes on from the declaration of its container. -/
theorem WellFormed.way_eq (ht : t.WellFormed) (hd : t.decl? d.id = some d)
    (hparent : d.parent = container.map (·.id))
    (present : ∀ q ∈ container, t.decl? q.id = some q) :
    t.way d = t.outer container ++ [d.index] := by
  rw [way, ht.ancestorsAt_eq hd, hparent]
  cases container with
  | none => rfl
  | some q =>
    dsimp only [Option.map_some]
    rw [show t.decls[q.id.index]? = some q from present q rfl, outer, way]
    simp

/-- An entry stands at a place in the tree. -/
structure StandsAt (t : DeclTable) (roots : List Node) (d : Decl) (site : List Nat × Node) :
    Prop where
  way : t.way d = site.1
  node : t.node? d.id roots = some site.2

theorem StandsAt.extend {site : List Nat × Node} (h : t.StandsAt roots d site)
    (hext : t.Extends t') (hd : d.id.index < t.decls.size) : t'.StandsAt roots d site where
  way := by rw [hext.way_eq hd, h.way]
  node := by
    rw [node?, hext.nodeAt?_eq hd]
    exact h.node

/-- What is added comes in the order of the text, also when the table is filled further. -/
theorem Fills.ordered (h : Fills container index nodes t t')
    (hr : t.Remaining roots container index nodes) :
    ∃ new found, t'.decls.toList = t.decls.toList ++ new ∧
      found.Sublist (sites (t.outer container) index nodes) ∧
      ∀ u, t'.Extends u → List.Forall₂ (u.StandsAt roots) new found := by
  induction h with
  | done => exact ⟨[], [], by simp, List.nil_sublist _, fun _ _ => .nil⟩
  | pass header after ih | refuse header refused after ih =>
    obtain ⟨new, found, hnew, hfound, hat⟩ := ih (hr.after .refl)
    exact ⟨new, found, hnew, sites_cons ▸ hfound.trans (List.sublist_append_right ..), hat⟩
  | @enter container index node rest t v t' name kind header free inner after ihInner ihAfter =>
    have hadd := hr.adds header free
    have hinner := inner.steps (hr.inner header free)
    have hrest := hr.after (.head hadd hinner)
    have hway : (t.add (t.entry container index node name kind)).way
        (t.entry container index node name kind) = t.outer container ++ [index] := by
      rw [(hadd.wellFormed hr.wellFormed).way_eq decl?_entry rfl
        fun q hq => hadd.extends.decl?_eq_some (hr.present q hq), hadd.extends.outer_eq hr.present]
      rfl
    have hentry : (t.add (t.entry container index node name kind)).StandsAt roots
        (t.entry container index node name kind) (t.outer container ++ [index], node) :=
      ⟨hway, hr.wellFormed.node?_entry name kind hr.present hr.site⟩
    obtain ⟨new, found, hnew, hfound, hat⟩ := ihInner (hr.inner header free)
    obtain ⟨new', found', hnew', hfound', hat'⟩ := ihAfter hrest
    refine ⟨t.entry container index node name kind :: new ++ new',
      (t.outer container ++ [index], node) :: found ++ found', ?_, ?_, fun u hu => ?_⟩
    · rw [hnew', hnew, toList_add]
      simp
    · rw [sites_cons, header]
      rw [outer, hway] at hfound
      rw [(extends_of_steps (.head hadd hinner)).outer_eq hr.present] at hfound'
      exact (hfound.cons_cons _).append hfound'
    · have hv := (extends_of_steps (after.steps hrest)).trans hu
      have hfirst := hentry.extend ((extends_of_steps hinner).trans hv) (by simp [entry, next])
      exact List.rel_append (.cons hfirst (hat u hv)) (hat' u hu)

theorem exists_of_forall₂ {α β : Type} {R : α → β → Prop} {as : List α} {bs : List β}
    (h : List.Forall₂ R as bs) {i : Nat} {a : α} (ha : as[i]? = some a) :
    ∃ b, bs[i]? = some b ∧ R a b := by
  obtain ⟨hlen, hget⟩ := List.forall₂_iff_get.1 h
  obtain ⟨hi, rfl⟩ := List.getElem?_eq_some_iff.1 ha
  exact ⟨_, List.getElem?_eq_getElem (hlen ▸ hi), hget i hi (hlen ▸ hi)⟩

/-! ### What is left out -/

theorem isSome_header? (node : Node) : node.header?.isSome = node.kind.isDeclaration := by
  rw [Node.header?]
  cases node.kind <;> rfl

/-- The declarations of the file among those of the table. -/
def outermost (t : DeclTable) : List Decl := t.decls.toList.filter (·.parent.isNone)

theorem outermost_add : (t.add d).outermost =
    t.outermost ++ if d.parent.isNone then [d] else [] := by
  rw [outermost, outermost, toList_add, List.filter_append, List.filter_singleton,
    cond_eq_ite]

/-- What is in a container is no declaration of the file. -/
theorem Fills.outermost_eq (h : Fills container index nodes t t') (hc : container.isSome = true) :
    t'.outermost = t.outermost := by
  induction h with
  | done => rfl
  | pass header after ih | refuse header refused after ih => exact ih hc
  | enter header free inner after ihInner ihAfter =>
    rw [ihAfter hc, ihInner rfl, outermost_add]
    obtain ⟨q, rfl⟩ := Option.isSome_iff_exists.1 hc
    simp [entry]

/-- Each declaration of the file is added or reported. -/
theorem length_insertAll (nodes : List Node) :
    (nodes.filter (·.kind.isDeclaration)).length + t.outermost.length =
      (t.insertAll index nodes).1.outermost.length + (t.insertAll index nodes).2.length := by
  induction nodes generalizing t index with
  | nil => simp [insertAll]
  | cons node rest ih =>
    rw [insertAll, insertTopLevel_eq, List.filter_cons, ← isSome_header?]
    cases node.header? with
    | none => simpa using ih
    | some header =>
      obtain ⟨name, kind⟩ := header
      dsimp only
      cases t.rejection? node name kind with
      | some m =>
        have hrest := @ih t (index + 1)
        simp at hrest ⊢
        omega
      | none =>
        have hfills : Fills (some (t.entry none index node name kind)) 0 (node.members?.getD [])
            (t.add (t.entry none index node name kind)) ((t.add (t.entry none index node name kind)
              ).insertMembers t.next name 0 (node.members?.getD [])) := fills_insertMembers _
        have hrest := @ih ((t.add (t.entry none index node name kind)).insertMembers t.next name 0
          (node.members?.getD [])) (index + 1)
        rw [hfills.outermost_eq rfl, outermost_add] at hrest
        simp [entry] at hrest ⊢
        omega

theorem length_ofRoot (root : Node) : (root.topLevel.filter (·.kind.isDeclaration)).length =
    (ofRoot root).1.outermost.length + (ofRoot root).2.length := by
  have h := @length_insertAll (empty (namespaceOf root)) 0 root.topLevel
  rw [show (empty (namespaceOf root)).outermost = [] from rfl] at h
  exact h

/-! ### Tables and trees -/

/-- What a table says of a tree. -/
structure Faithful (roots : List Node) (t : DeclTable) : Prop where
  /-- The handle of an entry is its position. -/
  id : ∀ (i : Nat) (d : Decl), t.decls[i]? = some d → d.id = ⟨i⟩
  /-- A container comes before its members. -/
  parent : ∀ d ∈ t.decls, ∀ p ∈ d.parent, p.index < d.id.index
  /-- The handle of an entry leads to its node, and a member is named after its container. -/
  entry : ∀ d ∈ t.decls, ∃ container node name, t.Describes roots d container node name
  /-- The entries keep the order of the text. -/
  ordered : ∃ found, found.Sublist (sites [] 0 roots) ∧
    List.Forall₂ (t.StandsAt roots) t.decls.toList found
  /-- Entries that can be referred to have names of their own. -/
  distinct : t.Distinct
  /-- A name refers to the entry that bears it. -/
  get : ∀ (name : String) (d : Decl), t.get? name = some d ↔ d ∈ t.decls ∧ Bears d name
  /-- The containers around an entry are those of its ancestors, outermost first. -/
  containers : ∀ d ∈ t.decls, ∃ around, t.Ancestry d around ∧
    t.containersOf d.id = around.map (·.name)

theorem ordered_ofRoot (root : Node) : ∃ found, found.Sublist (sites [] 0 root.topLevel) ∧
    List.Forall₂ ((ofRoot root).1.StandsAt root.topLevel) (ofRoot root).1.decls.toList found := by
  obtain ⟨new, found, hnew, hfound, hat⟩ :=
    (fills_insertAll root.topLevel).ordered (remaining_topLevel root)
  rw [show (empty (namespaceOf root)).decls.toList = [] from rfl, List.nil_append] at hnew
  exact ⟨found, hfound, hnew ▸ hat _ (.refl _)⟩

/-- The table of a file is faithful to its tree. -/
theorem faithful_ofRoot (root : Node) : (ofRoot root).1.Faithful root.topLevel where
  id := (wellFormed_ofRoot root).id
  parent d hd := (wellFormed_ofRoot root).parent_lt hd
  entry := (sound_ofRoot root).entry
  ordered := ordered_ofRoot root
  distinct := distinct_ofRoot root
  get _ _ := (distinct_ofRoot root).get?_eq_some
  containers d hd := by
    refine ⟨_, (wellFormed_ofRoot root).ancestry hd, ?_⟩
    rw [containersOf, List.map_reverse]

end SourceIr.DeclTable
