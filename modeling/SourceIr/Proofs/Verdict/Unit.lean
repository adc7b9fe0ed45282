import Mathlib.Data.List.TFAE
import Mathlib.Tactic.TFAE
import SourceIr.Proofs.Decl.Complete
import SourceIr.Proofs.Policy
import SourceIr.Proofs.Verdict.Record

/-!
# What a unit and a file say of themselves

Whether a unit can be used is asked in several ways, and the answer is the same.  A routine that
returns has not failed before, so a unit whose lowering returned is not poisoned; one whose lowering
did not has its errors on record.

* `UnitRun.Agrees`, the answers of a unit, and `Generator.agrees_runNode`;
* `FileRun.Agrees`, those of a file, and `FileRun.agrees_ofRoot`.
-/

namespace SourceIr

open Lower

/-! ### Units -/

/-- The answers of a unit agree. -/
structure UnitRun.Agrees (r : UnitRun) : Prop where
  /-- It is poisoned, it has a terminal diagnostic, its lowering failed, it has a fatal
  diagnostic. -/
  tfae : List.TFAE [r.unit.isPoisoned = true, r.unit.stream.terminalDiagnostic?.isSome = true,
    r.outcome = .error .poisoned, ∃ m ∈ r.unit.stream.diagnostics, m.isFatal = true]
  /-- Otherwise its lowering returned. -/
  returns : r.outcome = .ok ⟨⟩ ∨ r.outcome = .error .poisoned
  errors : ∀ m ∈ r.unit.stream.errors, m.isFatal = true
  warnings : ∀ m ∈ r.unit.stream.allWarnings, m.isFatal = false
  /-- The errors of the streams inside are among those of the unit, each once. -/
  inside : (r.unit.stream.children.flatMap (·.errors.toList)).Sublist r.unit.stream.errors.toList
  /-- Each diagnostic came in by a failure, by a warning or with a stream inside. -/
  recorded : r.unit.stream.Recorded

namespace Stream

variable {s : Stream}

theorem mem_diagnostics_iff {m : Message} :
    m ∈ s.diagnostics ↔ m ∈ s.errors ∨ m ∈ s.allWarnings := by
  rw [diagnostics, List.mem_append, Array.mem_toList_iff]

/-- The fatal diagnostics are the errors. -/
theorem Recorded.exists_isFatal (h : Recorded s) :
    (∃ m ∈ s.diagnostics, m.isFatal = true) ↔ s.errors ≠ #[] := by
  constructor
  · rintro ⟨m, hm, hfatal⟩ hnone
    rw [mem_diagnostics_iff, hnone] at hm
    rcases hm with hm | hm
    · exact absurd hm (Array.not_mem_empty m)
    · exact absurd hfatal (by simp [h.isFatal_eq_false m hm])
  · intro hsome
    obtain ⟨m, hm⟩ := Array.exists_mem_of_ne_empty _ hsome
    exact ⟨m, mem_diagnostics_iff.2 (.inl hm), h.isFatal_of_mem_errors m hm⟩

end Stream

namespace Generator

variable (g : Generator) (node : Node) (name : String) (kind : UnitKind)
  (containers : List String)

theorem under_errorPolicy : g.under g.options.errorPolicy = g := rfl

/-- Of two runs that meet, one that returns has not failed. -/
theorem not_isPoisoned_of_meet {r r' : Except Stop PUnit × State} (h : Meet r r')
    (hr : ∀ f, r.1 ≠ .error (.fault f)) (hr' : ∀ f, r'.1 ≠ .error (.fault f)) :
    (r.1 = .ok ⟨⟩ → r.2.stream.isPoisoned = false) ∧
      (r'.1 = .ok ⟨⟩ → r'.2.stream.isPoisoned = false) := by
  cases h with
  | same h => exact ⟨fun _ => h.isPoisoned, fun _ => h.isPoisoned⟩
  | failed h => exact ⟨nofun, nofun⟩
  | fault => exact absurd rfl (hr _)
  | fault' => exact absurd rfl (hr' _)

/-- A unit agrees with itself where its lowering fails if and only if it is poisoned. -/
theorem agrees_of {r : UnitRun} (hrecorded : r.unit.stream.Recorded)
    (hcases : r.outcome = .ok ⟨⟩ ∨ r.outcome = .error .poisoned ∧ r.unit.isPoisoned = true)
    (hok : r.outcome = .ok ⟨⟩ → r.unit.isPoisoned = false) : r.Agrees := by
  refine ⟨?_, hcases.imp_right And.left, hrecorded.isFatal_of_mem_errors,
    hrecorded.isFatal_eq_false, hrecorded.errors_of_children, hrecorded⟩
  tfae_have 1 ↔ 2 := hrecorded.isPoisoned_iff.trans Stream.isSome_terminalDiagnostic?.symm
  tfae_have 1 ↔ 3 := by
    rcases hcases with ho | ⟨ho, hp⟩
    · simp [ho, hok ho]
    · simp [ho, hp]
  tfae_have 1 ↔ 4 := hrecorded.isPoisoned_iff.trans hrecorded.exists_isFatal.symm
  tfae_finish

theorem agrees_runFunction : (g.runFunction node name kind containers).Agrees := by
  refine agrees_of (g.recorded_runFunction ..) (g.runFunction_outcome ..) fun h => ?_
  have ha := (g.under .abort).outcome_runFunction_ne_fault node name kind containers
  have hc := (g.under .proceed).outcome_runFunction_ne_fault node name kind containers
  have hparts := @relParts_nested ⟨g.table, g.options⟩ g.options.maxDepth
  rw [runFunction_eq] at ha hc
  have hmeet := not_isPoisoned_of_meet
    ((Comparison.rel_lowerAsFunction hparts _).meet ⟨rfl, rfl, rfl⟩) ha hc
  rw [runFunction_eq] at h ⊢
  rw [← g.under_errorPolicy] at h ⊢
  cases hp : g.options.errorPolicy <;> rw [hp] at h
  · exact hmeet.1 h
  · exact hmeet.2 h

theorem agrees_runTopLevel : (g.runTopLevel node name kind containers).Agrees := by
  refine agrees_of (g.recorded_runTopLevel ..) (g.runTopLevel_outcome ..) fun h => ?_
  have ha := (g.under .abort).outcome_runTopLevel_ne_fault node name kind containers
  have hc := (g.under .proceed).outcome_runTopLevel_ne_fault node name kind containers
  have hparts := @relParts_nested ⟨g.table, g.options⟩ g.options.maxDepth
  rw [runTopLevel_eq] at ha hc
  have hmeet := not_isPoisoned_of_meet
    ((Comparison.rel_lowerAsTopLevel hparts _).meet ⟨rfl, rfl, rfl⟩) ha hc
  rw [runTopLevel_eq] at h ⊢
  rw [← g.under_errorPolicy] at h ⊢
  cases hp : g.options.errorPolicy <;> rw [hp] at h
  · exact hmeet.1 h
  · exact hmeet.2 h

/-- Every unit agrees with itself. -/
theorem agrees_runNode : (g.runNode node name containers).Agrees := by
  rw [runNode]
  cases UnitKind.ofNode node
  case function | test => exact g.agrees_runFunction ..
  case topLevel | comptime => exact g.agrees_runTopLevel ..

end Generator

/-! ### Files -/

namespace DeclTable

/-- What a table reports is fatal. -/
theorem isFatal_of_mem_insertAll {t : DeclTable} {index : Nat} {nodes : List Node} :
    ∀ m ∈ (t.insertAll index nodes).2, m.isFatal = true := by
  induction nodes generalizing t index with
  | nil => simp [insertAll]
  | cons node rest ih =>
    intro m hm
    rw [insertAll] at hm
    rcases List.mem_append.1 hm with hm | hm
    · rw [insertTopLevel_eq] at hm
      cases hheader : node.header? with
      | none => simp [hheader] at hm
      | some header =>
        simp only [hheader] at hm
        cases hreject : (t.rejection? node header.1 header.2) with
        | none => simp [hreject] at hm
        | some w =>
          obtain rfl : m = w := by simpa [hreject] using hm
          exact (of_rejection? hreject).1
    · exact ih m hm

end DeclTable

namespace FileRun

/-- The diagnostics on what may not stand at the top level. -/
def strays (root : Node) : List Message :=
  (root.topLevel.filter (!·.kind.isDeclaration)).map strayNode

/-- The answers of a file agree. -/
structure Agrees (root : Node) (options : Options) : Prop where
  /-- The units are those of the declarations in the table, whose answers agree. -/
  units : List.Forall₂ (fun d u => ∃ node run,
      (DeclTable.ofRoot root).1.node? d.id root.topLevel = some node ∧
        run = (generator root options).lowerDecl d node ∧ run.unit = u ∧ run.Agrees)
    (DeclTable.ofRoot root).1.decls.toList (ofRoot root options).file.units
  /-- First the errors of the table, then those on what may not stand at the top level, then, unit
  by unit, the errors and all warnings. -/
  diagnostics : (ofRoot root options).file.diagnostics =
    (DeclTable.ofRoot root).2 ++ strays root ++
      (ofRoot root options).file.units.flatMap fun u =>
        u.stream.errors.toList ++ u.stream.allWarnings
  table : ∀ m ∈ (DeclTable.ofRoot root).2 ++ strays root, m.isFatal = true
  isPoisoned : (ofRoot root options).file.isPoisoned = true ↔
    ∃ m ∈ (ofRoot root options).file.diagnostics, m.isFatal = true

variable (root : Node) (options : Options)

theorem agrees_of_mem_units {u : LoweredUnit} (h : u ∈ (ofRoot root options).file.units) :
    ∃ run : UnitRun, run.unit = u ∧ run.Agrees := by
  obtain ⟨decl, node, -, rfl⟩ := mem_units_iff.1 h
  exact ⟨_, rfl, Generator.agrees_runNode ..⟩

theorem diagnostics_ofRoot : (ofRoot root options).file.diagnostics =
    (DeclTable.ofRoot root).2 ++ strays root ++
      (ofRoot root options).file.units.flatMap (·.stream.diagnostics) := by
  simp only [ofRoot, strays, List.map_map, List.flatMap_map]
  rfl

theorem isFatal_table : ∀ m ∈ (DeclTable.ofRoot root).2 ++ strays root, m.isFatal = true := by
  intro m hm
  rcases List.mem_append.1 hm with hm | hm
  · exact DeclTable.isFatal_of_mem_insertAll m hm
  · obtain ⟨node, -, rfl⟩ := List.mem_map.1 hm
    rfl

theorem isPoisoned_iff : (ofRoot root options).file.isPoisoned = true ↔
    ∃ m ∈ (ofRoot root options).file.diagnostics, m.isFatal = true := by
  rw [LoweredFile.isPoisoned, Bool.or_eq_true, List.any_eq_true, List.any_eq_true]
  refine ⟨?_, .inr⟩
  rintro (⟨u, hu, hp⟩ | h)
  · obtain ⟨run, rfl, hrun⟩ := agrees_of_mem_units root options hu
    obtain ⟨m, hm, hfatal⟩ := (hrun.tfae.out 0 3).1 hp
    refine ⟨m, ?_, hfatal⟩
    rw [diagnostics_ofRoot]
    exact List.mem_append_right _ (List.mem_flatMap.2 ⟨run.unit, hu, hm⟩)
  · exact h

theorem agrees_ofRoot : Agrees root options where
  units := (forall₂_units root options).imp fun _ _ ⟨node, hnode, hu⟩ =>
    ⟨node, _, hnode, rfl, hu.symm, Generator.agrees_runNode ..⟩
  diagnostics := diagnostics_ofRoot root options
  table := isFatal_table root
  isPoisoned := isPoisoned_iff root options

end FileRun

end SourceIr
