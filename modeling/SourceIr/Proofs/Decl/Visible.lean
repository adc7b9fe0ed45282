import SourceIr.Proofs.Decl.Spelling
import SourceIr.Proofs.Lowering

/-!
# Where members are visible

A scope for the members of a container knows the container by its qualified path, and a look-up
joins that path with the name it is for.  Where names have no dots in them, this finds a member
only from within its container: the container nearest to the scope decides, and the declarations of
the file come after all of them.

* `DeclTable.Declares`, a declaration by its own name and that of its container;
* `DeclTable.Refers`, what a name means where some scopes are around it;
* `ScopeTree.members_visible_inside`, the two ways to look a name up;
* `ScopeTree.lookupDecl_dotted`, a name with a dot that is looked up as such.
-/

namespace SourceIr

namespace DeclTable

variable {t : DeclTable} {roots : List Node} {root : Node} {name path : String} {d : Decl}

/-- A declaration that can be referred to has this name in the text, and is a member of the
container at `path`, or one of the file if there is no path. -/
def Declares (t : DeclTable) (roots : List Node) (path : Option String) (name : String) (d : Decl) :
    Prop :=
  d ∈ t.decls ∧ d.kind.isReferenceable = true ∧
    ∃ container node, t.Describes roots d container node name ∧ container.map (·.name) = path

/-- What a name means where these scopes are around it, the innermost first. -/
inductive Refers (t : DeclTable) (roots : List Node) (name : String) (d : Decl) :
    List Scope → Prop
  /-- The member of a container is meant inside of it. -/
  | member {x : Scope} {outer : List Scope} {path : String} (kind : x.kind = .container path)
      (decl : t.Declares roots (some path) name d) : Refers t roots name d (x :: outer)
  /-- Where a scope has no such member, the scopes around it decide. -/
  | outward {x : Scope} {outer : List Scope}
      (free : ∀ path, x.kind = .container path → ∀ e, ¬ t.Declares roots (some path) name e)
      (after : Refers t roots name d outer) : Refers t roots name d (x :: outer)
  /-- The declarations of the file come last. -/
  | file (decl : t.Declares roots none name d) : Refers t roots name d []

theorem Declares.bears {path : Option String} (h : t.Declares roots path name d) :
    Bears d ((path.map (qualified · name)).getD name) := by
  obtain ⟨-, hkind, container, node, hdesc, rfl⟩ := h
  refine ⟨hkind, ?_⟩
  rw [hdesc.name]
  cases container <;> rfl

/-- A qualified name is looked up as that of a member. -/
theorem get?_qualified (hroot : namesArePlain root.topLevel = true) (hname : isPlain name = true) :
    (ofRoot root).1.get? (qualified path name) = some d ↔
      (ofRoot root).1.Declares root.topLevel (some path) name d := by
  rw [(distinct_ofRoot root).get?_eq_some]
  constructor
  · rintro ⟨hd, hbears⟩
    obtain ⟨q, node, hdesc, hpath⟩ := exists_member hroot hname hd hbears
    exact ⟨hd, hbears.1, some q, node, hdesc, congrArg some hpath⟩
  · exact fun h => ⟨h.1, h.bears⟩

theorem get?_plain (hname : isPlain name = true) :
    (ofRoot root).1.get? name = some d ↔ (ofRoot root).1.Declares root.topLevel none name d := by
  rw [(distinct_ofRoot root).get?_eq_some]
  constructor
  · rintro ⟨hd, hbears⟩
    obtain ⟨node, hdesc⟩ := exists_outermost hname hd hbears
    exact ⟨hd, hbears.1, none, node, hdesc, rfl⟩
  · exact fun h => ⟨h.1, h.bears⟩

/-- What is meant is declared under that name in a container around the place, or in the file. -/
theorem Refers.exists_container {scopes : List Scope} (h : t.Refers roots name d scopes) :
    ∃ container node, t.Describes roots d container node name ∧
      ∀ q ∈ container, ∃ x ∈ scopes, x.kind = .container q.name := by
  induction h with
  | @member x outer path kind decl =>
    obtain ⟨-, -, container, node, hdesc, hpath⟩ := decl
    refine ⟨container, node, hdesc, ?_⟩
    rintro q ⟨⟩
    obtain rfl := Option.some.inj hpath
    exact ⟨x, List.mem_cons_self, kind⟩
  | outward free after ih =>
    obtain ⟨container, node, hdesc, hscope⟩ := ih
    exact ⟨container, node, hdesc, fun q hq =>
      (hscope q hq).imp fun x hx => ⟨List.mem_cons_of_mem _ hx.1, hx.2⟩⟩
  | file decl =>
    obtain ⟨-, -, container, node, hdesc, hpath⟩ := decl
    obtain rfl := Option.map_eq_none_iff.1 hpath
    exact ⟨none, node, hdesc, nofun⟩

end DeclTable

namespace ScopeTree

variable {table : DeclTable} {root : Node} {name : String} {d : Decl}

/-- The member of a scope's container. -/
theorem memberDecl?_eq_some {x : Scope} (hroot : DeclTable.namesArePlain root.topLevel = true)
    (hname : DeclTable.isPlain name = true) :
    memberDecl? x name (DeclTable.ofRoot root).1 = some d ↔ ∃ path, x.kind = .container path ∧
      (DeclTable.ofRoot root).1.Declares root.topLevel (some path) name d := by
  rw [memberDecl?]
  split
  next path hkind =>
    rw [DeclTable.get?_qualified hroot hname, hkind]
    simp
  next hkind =>
    constructor
    · nofun
    · rintro ⟨path, hpath, -⟩
      exact absurd hpath (hkind path)

theorem lookupDecl_eq_or {t : ScopeTree} {s : ScopeId} : t.lookupDecl s name table =
    ((t.chain s).findSome? (memberDecl? · name table)).or (table.get? name) := by
  rw [lookupDecl]
  cases (t.chain s).findSome? (memberDecl? · name table) <;> rfl

theorem lookup_eq_or {t : ScopeTree} {s : ScopeId} : t.lookup s name table =
    ((t.chain s).findSome? (resolveIn · name table)).or ((table.get? name).map (.decl ·.id)) := by
  rw [lookup]
  cases (t.chain s).findSome? (resolveIn · name table) <;> rfl

/-- A look-up among these scopes, and then among the declarations of the file. -/
theorem refers_iff (hroot : DeclTable.namesArePlain root.topLevel = true)
    (hname : DeclTable.isPlain name = true) (scopes : List Scope) :
    (DeclTable.ofRoot root).1.Refers root.topLevel name d scopes ↔
      (scopes.findSome? (memberDecl? · name (DeclTable.ofRoot root).1)).or
        ((DeclTable.ofRoot root).1.get? name) = some d := by
  induction scopes with
  | nil =>
    rw [List.findSome?_nil, Option.none_or, DeclTable.get?_plain hname]
    exact ⟨fun h => by cases h; assumption, .file⟩
  | cons x outer ih =>
    rw [List.findSome?_cons]
    cases hx : memberDecl? x name (DeclTable.ofRoot root).1 with
    | some e =>
      obtain ⟨path, hkind, he⟩ := (memberDecl?_eq_some hroot hname).1 hx
      rw [Option.some_or, Option.some_inj]
      constructor
      · intro h
        cases h with
        | member hkind' hd =>
          have hd := (memberDecl?_eq_some hroot hname).2 ⟨_, hkind', hd⟩
          exact Option.some.inj (hx.symm.trans hd)
        | outward free => exact absurd he (free path hkind e)
      · rintro rfl
        exact .member hkind he
    | none =>
      have free : ∀ path, x.kind = .container path → ∀ e,
          ¬ (DeclTable.ofRoot root).1.Declares root.topLevel (some path) name e := by
        intro path hkind e he
        rw [(memberDecl?_eq_some hroot hname).2 ⟨path, hkind, he⟩] at hx
        cases hx
      refine Iff.trans ⟨fun h => ?_, .outward free⟩ ih
      cases h with
      | member hkind hd => exact absurd hd (free _ hkind _)
      | outward _ h => exact h

/-- A declaration that is found among variables and declarations is found among declarations. -/
theorem exists_lookupDecl {t : ScopeTree} {s : ScopeId} {id : DeclId}
    (h : t.lookup s name table = some (.decl id)) :
    ∃ d, t.lookupDecl s name table = some d ∧ d.id = id := by
  rw [lookup_eq_or] at h
  rw [lookupDecl_eq_or]
  generalize t.chain s = scopes at h
  induction scopes with
  | nil => simpa using h
  | cons x outer ih =>
    rw [List.findSome?_cons] at h ⊢
    rw [resolveIn] at h
    cases hvar : x.names.lookup name with
    | some v => simp [hvar] at h
    | none =>
      cases hx : memberDecl? x name table with
      | some d => simpa [hvar, hx] using h
      | none => exact ih (by simpa [hvar, hx] using h)

/-- What a look-up for a declaration finds bears the name in the text and is in sight: it is a
member of a container around the scope, or a declaration of the file.  The innermost container
decides, and a look-up among variables and declarations agrees with that. -/
theorem members_visible_inside {root : Node} {name : String}
    (hroot : DeclTable.namesArePlain root.topLevel = true) (hname : DeclTable.isPlain name = true)
    (t : ScopeTree) (s : ScopeId) :
    (∀ d, t.lookupDecl s name (DeclTable.ofRoot root).1 = some d →
      ∃ container node,
        (DeclTable.ofRoot root).1.Describes root.topLevel d container node name ∧
          ∀ q ∈ container, ∃ x ∈ t.chain s, x.kind = .container q.name) ∧
      (∀ d, t.lookupDecl s name (DeclTable.ofRoot root).1 = some d ↔
        (DeclTable.ofRoot root).1.Refers root.topLevel name d (t.chain s)) ∧
      ∀ id, t.lookup s name (DeclTable.ofRoot root).1 = some (.decl id) →
        ∃ d, t.lookupDecl s name (DeclTable.ofRoot root).1 = some d ∧ d.id = id := by
  have hrefers : ∀ d, t.lookupDecl s name (DeclTable.ofRoot root).1 = some d ↔
      (DeclTable.ofRoot root).1.Refers root.topLevel name d (t.chain s) := fun d => by
    rw [refers_iff hroot hname, lookupDecl_eq_or]
  exact ⟨fun d h => ((hrefers d).1 h).exists_container, hrefers, fun id => exists_lookupDecl⟩

end ScopeTree

/-- A file with a container that has a member `f`. -/
def Node.holdsMember : Node :=
  .bare (.root "t" [.bare (.varDecl "S" true false none
    (some (.bare (.containerDecl .struct [] [.bare (.fnDecl "f" [] none none false false)]))))])

theorem DeclTable.ofRoot_holdsMember : ofRoot .holdsMember =
    (⟨"t", #[⟨⟨0⟩, "S", .const, none, 0, none⟩, ⟨⟨1⟩, "S.f", .fn, none, 0, some ⟨0⟩⟩]⟩, []) := by
  simp only [ofRoot, namespaceOf, Node.holdsMember, Node.bare, Node.topLevel, insertAll,
    insertTopLevel, Node.header?, Node.members?, insertMembers]
  rfl

theorem ScopeTree.members_visible_inside_holdsMember :
    ∃ d, ((ScopeTree.empty.openTop "t").2.openUnder ⟨0⟩ (.container "S")).2.lookupDecl ⟨1⟩ "f"
        (DeclTable.ofRoot .holdsMember).1 = some d ∧
      (DeclTable.ofRoot .holdsMember).1.Refers Node.holdsMember.topLevel "f" d
        (((ScopeTree.empty.openTop "t").2.openUnder ⟨0⟩ (.container "S")).2.chain ⟨1⟩) := by
  have hroot : DeclTable.namesArePlain Node.holdsMember.topLevel = true := by
    simp only [DeclTable.namesArePlain, Node.holdsMember, Node.bare, Node.topLevel, DeclTable.sites,
      Node.header?]
    rfl
  have h : ((ScopeTree.empty.openTop "t").2.openUnder ⟨0⟩ (.container "S")).2.lookupDecl ⟨1⟩ "f"
      (DeclTable.ofRoot .holdsMember).1 = some ⟨⟨1⟩, "S.f", .fn, none, 0, some ⟨0⟩⟩ := by
    rw [DeclTable.ofRoot_holdsMember]
    decide +kernel
  exact ⟨_, h, ((ScopeTree.members_visible_inside hroot (by decide)
    ((ScopeTree.empty.openTop "t").2.openUnder ⟨0⟩ (.container "S")).2 ⟨1⟩).2.1 _).1 h⟩

/-- From outside of all containers, the qualified name of a member finds it, which has another name
in the text. -/
theorem ScopeTree.lookupDecl_dotted :
    ∃ d node, (ScopeTree.empty.openTop "t").2.lookupDecl ⟨0⟩ "S.f"
        (DeclTable.ofRoot .holdsMember).1 = some d ∧
      (DeclTable.ofRoot .holdsMember).1.node? d.id Node.holdsMember.topLevel = some node ∧
      node.header? = some ("f", .fn) ∧ d.parent = some ⟨0⟩ ∧
      ∀ x ∈ (ScopeTree.empty.openTop "t").2.chain ⟨0⟩, ∀ path, x.kind ≠ .container path := by
  rw [DeclTable.ofRoot_holdsMember]
  refine ⟨⟨⟨1⟩, "S.f", .fn, none, 0, some ⟨0⟩⟩, .bare (.fnDecl "f" [] none none false false),
    by decide +kernel, ?_, rfl, rfl, ?_⟩
  · simp [DeclTable.node?, DeclTable.nodeAt?, Node.holdsMember, Node.bare, Node.topLevel,
      Node.members?]
  · simp [ScopeTree.chain, ScopeTree.chainAt, ScopeTree.openTop, ScopeTree.push, ScopeTree.empty]

end SourceIr
