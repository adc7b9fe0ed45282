import SourceIr.Proofs.Decl.Faithful

/-!
# What is declared in a tree

A declaration of a tree has the name that it bears in the table, which does not depend on what is
declared before it.  Where all names are different, nothing is left out, and the table lists what
is declared in the order of the text.

* `DeclTable.Item`, a declaration with its name and the containers around it;
* `DeclTable.roster`, what is declared in a tree, and `DeclTable.roster_perm`;
* `DeclTable.Lists`, the entry for what is declared;
* `Fills.rostered` and `DeclTable.lists_ofRoot`, the table lists all of it.
-/

namespace SourceIr.DeclTable

variable {t t' u : DeclTable} {roots nodes nodes' : List Node} {node : Node} {name : String}
  {kind : DeclKind} {index : Nat} {container : Option Decl} {d e : Decl} {around : List String}

/-- A declaration of a tree. -/
structure Item where
  /-- The names of the containers around it, outermost first. -/
  around : List String
  /-- The name, qualified by the containers around it. -/
  name : String
  kind : DeclKind
  node : Node

/-- The name of a declaration in the innermost of these containers. -/
def nameWithin (around : List String) (name : String) : String :=
  match around.getLast? with
  | none => name
  | some path => qualified path name

/-- What is declared among some siblings and in their containers, in the order of the text. -/
def roster (around : List String) : List Node → List Item
  | [] => []
  | node :: rest =>
    let items :=
      match node.header? with
      | none => []
      | some (name, kind) =>
        let inner :=
          match node with
          | ⟨_, .varDecl _ _ _ _ (some ⟨_, .containerDecl _ _ decls, _, _⟩), _, _⟩ =>
            roster (around ++ [nameWithin around name]) decls
          | _ => []
        ⟨around, nameWithin around name, kind, node⟩ :: inner
    items ++ roster around rest

/-- A declaration with what is declared in its container. -/
def rosterOf (around : List String) (node : Node) : List Item :=
  match node.header? with
  | none => []
  | some (name, kind) =>
    ⟨around, nameWithin around name, kind, node⟩ ::
      roster (around ++ [nameWithin around name]) (node.members?.getD [])

@[simp] theorem roster_nil : roster around [] = [] := roster.eq_1 _

theorem roster_cons : roster around (node :: nodes) =
    rosterOf around node ++ roster around nodes := by
  rw [roster.eq_def, rosterOf]
  dsimp only
  congr 1
  cases node.header? with
  | none => rfl
  | some header =>
    dsimp only
    congr 1
    split
    next => rfl
    next hnot =>
      rw [members?_eq_none hnot]
      exact (roster.eq_1 _).symm

theorem roster_eq_flatMap (around : List String) (nodes : List Node) :
    roster around nodes = nodes.flatMap (rosterOf around) := by
  induction nodes with
  | nil => rw [roster_nil, List.flatMap_nil]
  | cons node rest ih => rw [roster_cons, List.flatMap_cons, ih]

/-- The same siblings in another order declare the same. -/
theorem roster_perm (h : nodes.Perm nodes') :
    (roster around nodes).Perm (roster around nodes') := by
  rw [roster_eq_flatMap, roster_eq_flatMap]
  exact h.flatMap_right _

/-! ### The containers around an entry -/

/-- The names of a container and of those around it. -/
def pathTo (t : DeclTable) : Option Decl → List String
  | none => []
  | some q => t.containersOf q.id ++ [q.name]

theorem nameWithin_pathTo : nameWithin (t.pathTo container) name = nameIn container name := by
  cases container with
  | none => rfl
  | some q => simp [nameWithin, pathTo, nameIn]

theorem Extends.containersOf_eq (h : t.Extends t') (hd : d.id.index < t.decls.size) :
    t'.containersOf d.id = t.containersOf d.id := by
  rw [containersOf, containersOf, h.ancestorsAt_eq hd]

theorem Extends.pathTo_eq (h : t.Extends t') (present : ∀ q ∈ container, t.decl? q.id = some q) :
    t'.pathTo container = t.pathTo container := by
  cases container with
  | none => rfl
  | some q =>
    rw [pathTo, pathTo, h.containersOf_eq (Array.getElem?_eq_some_iff.1 (present q rfl)).1]

/-- Around a member are its container and those around that one. -/
theorem WellFormed.containersOf_eq (ht : t.WellFormed) (hd : t.decl? d.id = some d)
    (hparent : d.parent = container.map (·.id))
    (present : ∀ q ∈ container, t.decl? q.id = some q) :
    t.containersOf d.id = t.pathTo container := by
  rw [containersOf, ht.ancestorsAt_eq hd, hparent]
  cases container with
  | none => rfl
  | some q =>
    dsimp only [Option.map_some]
    rw [show t.decls[q.id.index]? = some q from present q rfl, pathTo, containersOf]
    simp

/-! ### The table of a tree -/

/-- An entry of a table is the one for what is declared. -/
structure Lists (t : DeclTable) (roots : List Node) (d : Decl) (item : Item) : Prop where
  name : d.name = item.name
  kind : d.kind = item.kind
  location : d.location = item.node.location
  node : t.node? d.id roots = some item.node
  around : t.containersOf d.id = item.around

theorem Lists.extend {item : Item} (h : t.Lists roots d item) (hext : t.Extends t')
    (hd : d.id.index < t.decls.size) : t'.Lists roots d item where
  name := h.name
  kind := h.kind
  location := h.location
  node := by
    rw [node?, hext.nodeAt?_eq hd]
    exact h.node
  around := by rw [hext.containersOf_eq hd, h.around]

theorem map_name_of_lists {items : List Item} {new : List Decl}
    (h : List.Forall₂ (t.Lists roots) new items) : new.map (·.name) = items.map (·.name) := by
  induction h with
  | nil => rfl
  | cons h _ ih => rw [List.map_cons, List.map_cons, h.name, ih]

/-- The entry that is added is the one for its node. -/
theorem Remaining.lists (h : t.Remaining roots container index (node :: nodes))
    (header : node.header? = some (name, kind)) (free : t.refuses container name kind = false) :
    (t.add (t.entry container index node name kind)).Lists roots
      (t.entry container index node name kind)
      ⟨t.pathTo container, nameWithin (t.pathTo container) name, kind, node⟩ := by
  have hadd := h.adds header free
  refine ⟨nameWithin_pathTo.symm, rfl, rfl,
    h.wellFormed.node?_entry name kind h.present h.site, ?_⟩
  rw [(hadd.wellFormed h.wellFormed).containersOf_eq decl?_entry rfl
    fun q hq => hadd.extends.decl?_eq_some (h.present q hq), hadd.extends.pathTo_eq h.present]

/-- In the roster, what a declaration has as members follows the declaration, on the path to the
entry that is added for it. -/
theorem Remaining.roster_entry (h : t.Remaining roots container index (node :: nodes))
    (header : node.header? = some (name, kind)) (free : t.refuses container name kind = false) :
    roster (t.pathTo container) (node :: nodes) =
      ⟨t.pathTo container, nameWithin (t.pathTo container) name, kind, node⟩ ::
        (roster ((t.add (t.entry container index node name kind)).pathTo
          (some (t.entry container index node name kind))) (node.members?.getD []) ++
            roster (t.pathTo container) nodes) := by
  have hentry := h.lists header free
  rw [roster_cons, rosterOf, header, pathTo, hentry.around, hentry.name, List.cons_append]

/-- A name that is taken by no entry and by no primitive type is not refused. -/
theorem refuses_eq_false (hplain : container = none → isPrimitiveType name = false)
    (hfree : ∀ d ∈ t.decls.toList, d.name ≠ nameIn container name) :
    t.refuses container name kind = false := by
  have hget : t.get? (nameIn container name) = none :=
    get?_eq_none.2 fun d hd hbears => hfree d (by simpa using hd) hbears.2
  rw [refuses, hget]
  cases container with
  | none => simp [hplain rfl]
  | some q => simp

/-- Where all names are different, what is added is what is declared, also when the table is filled
further. -/
theorem Fills.rostered (h : Fills container index nodes t t')
    (hr : t.Remaining roots container index nodes)
    (hplain : container = none → ∀ node ∈ nodes, ∀ name kind, node.header? = some (name, kind) →
      isPrimitiveType name = false)
    (hnames : (t.decls.toList.map (·.name) ++
      (roster (t.pathTo container) nodes).map (·.name)).Nodup) :
    ∃ new, t'.decls.toList = t.decls.toList ++ new ∧
      ∀ u, t'.Extends u →
        List.Forall₂ (u.Lists roots) new (roster (t.pathTo container) nodes) := by
  induction h with
  | done => exact ⟨[], by simp, fun _ _ => by rw [roster_nil]; exact .nil⟩
  | @pass container index node rest t t' header after ih =>
    have hnone : rosterOf (t.pathTo container) node = [] := by rw [rosterOf, header]
    rw [roster_cons, hnone, List.nil_append] at hnames ⊢
    exact ih (hr.after .refl) (fun hc n hn => hplain hc n (List.mem_cons_of_mem _ hn)) hnames
  | @refuse container index node rest t t' name kind header refused after ih =>
    rw [roster_cons, rosterOf, header] at hnames
    have hfree : t.refuses container name kind = false := by
      refine refuses_eq_false (fun hc => hplain hc node List.mem_cons_self _ _ header) ?_
      intro d hd hname
      exact (List.nodup_append.1 hnames).2.2 _ (List.mem_map_of_mem hd) d.name
        (by simp [hname, nameWithin_pathTo]) rfl
    rw [hfree] at refused
    cases refused
  | @enter container index node rest t v t' name kind header free inner after ihInner ihAfter =>
    have hadd := hr.adds header free
    have hinner := inner.steps (hr.inner header free)
    have hrest := hr.after (.head hadd hinner)
    have hentry := hr.lists header free
    have hroster := hr.roster_entry header free
    rw [hroster, List.map_cons, List.map_append] at hnames
    -- The name of the entry moves from what remains to what is there.
    have hnames' : (((t.add (t.entry container index node name kind)).decls.toList.map (·.name) ++
        (roster ((t.add (t.entry container index node name kind)).pathTo
          (some (t.entry container index node name kind))) (node.members?.getD [])).map
            (·.name)) ++ (roster (t.pathTo container) rest).map (·.name)).Nodup := by
      rw [toList_add, List.map_append, List.map_singleton, hentry.name, List.append_assoc,
        List.append_assoc]
      exact hnames
    obtain ⟨new, hnew, hlists⟩ := ihInner (hr.inner header free) nofun
      (List.nodup_append.1 hnames').1
    have hpathRest : v.pathTo container = t.pathTo container :=
      (extends_of_steps (.head hadd hinner)).pathTo_eq hr.present
    rw [← hpathRest] at hnames'
    obtain ⟨new', hnew', hlists'⟩ := ihAfter hrest
      (fun hc n hn => hplain hc n (List.mem_cons_of_mem _ hn)) (by
        rwa [hnew, List.map_append, map_name_of_lists (hlists v (.refl v))])
    refine ⟨t.entry container index node name kind :: new ++ new', ?_, fun u hu => ?_⟩
    · rw [hnew', hnew, toList_add]
      simp
    · have hv := (extends_of_steps (after.steps hrest)).trans hu
      have hfirst := hentry.extend ((extends_of_steps hinner).trans hv) (by simp [entry, next])
      rw [hroster]
      exact .cons hfirst (List.rel_append (hlists u hv) (hpathRest ▸ hlists' u hu))

/-- Declarations with names of their own, none of them that of a primitive type in the file. -/
structure Unambiguous (nodes : List Node) : Prop where
  names : ((roster [] nodes).map (·.name)).Nodup
  plain : ∀ node ∈ nodes, ∀ name kind, node.header? = some (name, kind) →
    isPrimitiveType name = false

theorem Unambiguous.perm (h : Unambiguous nodes) (hperm : nodes.Perm nodes') :
    Unambiguous nodes' where
  names := ((roster_perm hperm).map _).nodup_iff.1 h.names
  plain node hnode := h.plain node (hperm.mem_iff.2 hnode)

/-- The table of such a file lists what is declared in it. -/
theorem lists_ofRoot {root : Node} (h : Unambiguous root.topLevel) :
    List.Forall₂ ((ofRoot root).1.Lists root.topLevel) (ofRoot root).1.decls.toList
      (roster [] root.topLevel) := by
  obtain ⟨new, hnew, hlists⟩ := (fills_insertAll root.topLevel).rostered (remaining_topLevel root)
    (fun _ => h.plain) (by simpa [empty, pathTo] using h.names)
  have hall : (ofRoot root).1.decls.toList = new := by
    rw [ofRoot, hnew]
    simp [empty]
  rw [hall]
  exact hlists _ (.refl _)

end SourceIr.DeclTable
