import SourceIr.Proofs.Decl.Units
import SourceIr.Proofs.Nesting.Deeper

/-!
# Nothing malformed is lowered

A tree may have anything in the place of a field or of a member of an error set.  A container that
lists something else than fields fails, and so does an error set that lists something else than
names of errors; since no failure is forgotten, a file that is not poisoned has none of them where
something is lowered.  What a function lists as parameters and a container as declarations is not
looked at in this way.

* `Kind.isFormed`, the constructs that list what they should;
* `vetted`, the routines for parts that do as they like with the other ones;
* `Generator.runNode_vetted`, a unit that is not poisoned does not tell them apart;
* `FileRun.lowers_nothing_malformed`, the same for a file.
-/

namespace SourceIr

namespace Kind

/-- A field of a container. -/
def isField : Kind → Bool
  | .containerField .. => true
  | _ => false

/-- A container lists fields, and an error set names of errors. -/
def isFormed : Kind → Bool
  | .containerDecl _ fields _ => fields.all (·.kind.isField)
  | .errorSetDecl members => members.all (·.memberName?.isSome)
  | _ => true

end Kind

namespace Lower

variable {env : Env} {s s' : State} {parts : Parts} {node : Node} {scope : ScopeId}
  {loc : ResultLoc} {v : InstId}

/-! ### What is lowered lists what it should -/

/-- Fields that are lowered are fields. -/
theorem isField_of_lowerFields {kind : ContainerKind} {seen : Seen} {fields : List Node}
    {r : List ContainerFieldInst × Seen}
    (h : Returns (lowerFields parts kind scope seen fields) env s r s') :
    ∀ field ∈ fields, field.kind.isField = true := by
  induction fields generalizing s s' seen r with
  | nil => nofun
  | cons field rest ih =>
    rw [lowerFields] at h
    split at h
    next hk =>
      split at h
      · exact absurd h not_returns_fail
      · obtain ⟨_, _, -, h⟩ := returns_bind.1 h
        obtain ⟨_, _, -, h⟩ := returns_bind.1 h
        obtain ⟨_, _, hrest, -⟩ := returns_bind.1 h
        refine List.forall_mem_cons.2 ⟨?_, ih hrest⟩
        rw [hk]
        rfl
    · exact absurd h not_returns_fail

/-- Members that are lowered name errors. -/
theorem isSome_of_errorNames {seen : Seen} {members : List Node} {names : List String}
    (h : Returns (errorNames seen members) env s names s') :
    ∀ member ∈ members, member.memberName?.isSome = true := by
  induction members generalizing s s' seen names with
  | nil => nofun
  | cons member rest ih =>
    rw [errorNames] at h
    split at h
    next hname =>
      obtain ⟨_, _, -, h⟩ := returns_bind.1 h
      split at h
      · exact absurd h not_returns_fail
      · obtain ⟨_, _, hrest, -⟩ := returns_bind.1 h
        refine List.forall_mem_cons.2 ⟨?_, ih hrest⟩
        rw [hname]
        rfl
    · exact absurd h not_returns_fail

/-- A construct that is lowered lists what it should. -/
theorem isFormed_of_returns (h : Returns (lowerExpr parts node scope loc) env s v s') :
    node.kind.isFormed = true := by
  cases hk : node.kind with
  | containerDecl kind fields decls =>
    simp only [lowerExpr, hk, lowerContainer] at h
    obtain ⟨_, _, -, h⟩ := returns_bind.1 h
    obtain ⟨_, _, -, h⟩ := returns_bind.1 h
    obtain ⟨_, _, hfields, -⟩ := returns_bind.1 h
    exact List.all_eq_true.2 (isField_of_lowerFields hfields)
  | errorSetDecl members =>
    simp only [lowerExpr, hk, lowerErrorSet] at h
    obtain ⟨_, _, -, h⟩ := returns_bind.1 h
    obtain ⟨_, _, hmembers, -⟩ := returns_bind.1 h
    exact List.all_eq_true.2 (isSome_of_errorNames hmembers)
  | _ => rfl

/-! ### Other routines for the rest -/

/-- The routines for parts, with another routine for what does not list what it should. -/
def vetted (alarm : ∀ {α : Type}, LowerM α) : (levels : Nat) → Parts
  | 0 => nested 0
  | levels + 1 =>
    { expr := fun node scope loc =>
        if node.kind.isFormed then lowerExpr (vetted alarm levels) node scope loc else alarm
      statement := fun node scope => lowerStatement (vetted alarm levels) node scope }

/-- A routine that returns does the same whatever is done with the rest. -/
theorem relParts_vetted (alarm : ∀ {α : Type}, LowerM α) (levels : Nat) :
    (lasting env env.options.maxDepth).RelParts (nested levels) (vetted alarm levels) := by
  induction levels with
  | zero => exact relParts_lasting (Nat.le_refl 0)
  | succ levels ih =>
    refine ⟨fun node scope loc s v s' h => ?_,
      fun node scope => Comparison.rel_lowerStatement scope node ih⟩
    have hformed : node.kind.isFormed = true := isFormed_of_returns h
    simp only [vetted, hformed, if_true]
    exact NestedComparison.rel_lowerExpr scope node loc ih s v s' h

end Lower

open Lower

/-- In a unit that is not poisoned, nothing is lowered that does not list what it should: the unit
is the same whatever is done with it. -/
theorem Generator.runNode_vetted (g : Generator) (node : Node) (name : String)
    (containers : List String) (hp : (g.runNode node name containers).unit.isPoisoned = false)
    (alarm : ∀ {α : Type}, LowerM α) :
    g.runNodeBy (vetted alarm g.options.maxDepth) node name containers =
      g.runNode node name containers := by
  have h : (g.deep g.options.maxDepth).runNodeBy (vetted alarm g.options.maxDepth) node name
      containers = g.runNode node name containers :=
    g.runNodeBy_of_lasting node name containers (relParts_vetted alarm _) hp
  exact h

namespace FileRun

theorem not_isFatal_of_not_isPoisoned {root : Node} {options : Options}
    (h : (ofRoot root options).file.isPoisoned = false) :
    (∀ u ∈ (ofRoot root options).file.units, u.isPoisoned = false) ∧
      ∀ m ∈ (ofRoot root options).file.diagnostics, m.isFatal = false := by
  simpa [LoweredFile.isPoisoned] using h

/-- In a file that is not poisoned, what stands at the top level are declarations, and nothing is
lowered that does not list what it should: no container with something else than fields, and no
error set with something else than names of errors. -/
theorem lowers_nothing_malformed (root : Node) (options : Options)
    (h : (ofRoot root options).file.isPoisoned = false) :
    (∀ child ∈ root.topLevel, child.kind.isDeclaration = true) ∧
      ∀ decl node, (decl, node) ∈ work (DeclTable.ofRoot root).1 root.topLevel →
        ∀ alarm : (∀ {α : Type}, LowerM α),
          (generator root options).runNodeBy (vetted alarm options.maxDepth) node decl.name
              ((DeclTable.ofRoot root).1.containersOf decl.id) =
            (generator root options).lowerDecl decl node := by
  obtain ⟨hunits, hdiagnostics⟩ := not_isFatal_of_not_isPoisoned h
  refine ⟨fun child hchild => ?_, fun decl node hw alarm => ?_⟩
  · by_contra hstray
    have hm : strayNode child ∈ (ofRoot root options).file.diagnostics := by
      refine List.mem_append_left _ (List.mem_append_right _ (List.mem_map_of_mem ?_))
      exact List.mem_filter.2 ⟨hchild, by simpa using hstray⟩
    exact Bool.noConfusion (hdiagnostics _ hm)
  · exact (generator root options).runNode_vetted node _ _
      (hunits _ (mem_units_iff.2 ⟨decl, node, hw, rfl⟩)) alarm

end FileRun

/-- A file with a container that has a field and a member, and with an error set. -/
def Node.holdsFields : Node :=
  .bare (.root "t" [
    .bare (.varDecl "S" true false none (some (.bare (.containerDecl .struct
      [.bare (.containerField "x" (some (.bare (.symbol "u32"))) none)]
      [.bare (.fnDecl "f" [] none (some (.bare (.block none []))) false false)])))),
    .bare (.varDecl "E" true false none (some (.bare (.errorSetDecl [.bare (.symbol "A")]))))])

theorem DeclTable.ofRoot_holdsFields : ofRoot .holdsFields =
    (⟨"t", #[⟨⟨0⟩, "S", .const, none, 0, none⟩, ⟨⟨1⟩, "S.f", .fn, none, 0, some ⟨0⟩⟩,
      ⟨⟨2⟩, "E", .const, none, 1, none⟩]⟩, []) := by
  simp only [ofRoot, namespaceOf, Node.holdsFields, Node.bare, Node.topLevel, insertAll,
    insertTopLevel, Node.header?, Node.members?, insertMembers]
  rfl

theorem FileRun.lowers_nothing_malformed_holdsFields :
    (ofRoot .holdsFields {}).file.isPoisoned = false ∧
      ∀ child ∈ Node.holdsFields.topLevel, child.kind.isDeclaration = true :=
  have h : (ofRoot .holdsFields {}).file.isPoisoned = false := by
    rw [ofRoot, DeclTable.ofRoot_holdsFields]
    decide +kernel
  ⟨h, (lowers_nothing_malformed .holdsFields {} h).1⟩

/-- A file with a function that has a literal among its parameters, and with a container that has
one among its declarations. -/
def Node.holdsLiterals : Node :=
  .bare (.root "t" [
    .bare (.fnDecl "f" [.bare (.intLiteral 1)] none (some (.bare (.block none []))) false false),
    .bare (.varDecl "S" true false none
      (some (.bare (.containerDecl .struct [] [.bare (.intLiteral 1)]))))])

theorem DeclTable.ofRoot_holdsLiterals : ofRoot .holdsLiterals =
    (⟨"t", #[⟨⟨0⟩, "f", .fn, none, 0, none⟩, ⟨⟨1⟩, "S", .const, none, 1, none⟩]⟩, []) := by
  simp only [ofRoot, namespaceOf, Node.holdsLiterals, Node.bare, Node.topLevel, insertAll,
    insertTopLevel, Node.header?, Node.members?, insertMembers]
  rfl

/-- A function that is lowered has something else than a parameter among its parameters, and a
container that is lowered has something else than a declaration among its declarations; they are
passed over without a word. -/
theorem FileRun.passes_over_literals :
    (∃ f ∈ Node.holdsLiterals.topLevel, ∃ fn ∈ FnParts.ofNode? f,
      (fn.params.all (·.kind matches .param ..)) = false) ∧
    (∃ d ∈ Node.holdsLiterals.topLevel, ∃ members ∈ d.members?,
      members.all (·.kind.isDeclaration) = false) ∧
    (ofRoot .holdsLiterals {}).file.isPoisoned = false ∧
    (ofRoot .holdsLiterals {}).file.diagnostics.length = 0 ∧
    (ofRoot .holdsLiterals {}).file.units.map (·.name) = ["f", "S"] := by
  refine ⟨⟨_, List.mem_cons_self, _, rfl, rfl⟩,
    ⟨_, List.mem_cons_of_mem _ List.mem_cons_self, _, rfl, rfl⟩, ?_⟩
  rw [ofRoot, DeclTable.ofRoot_holdsLiterals]
  decide +kernel

end SourceIr
