import Mathlib.Algebra.Ring.Nat
import Mathlib.Data.List.Basic
import Mathlib.Data.List.Forall2
import SourceIr.Cli.Outcome
import SourceIr.Proofs.Verdict.Unit

/-!
# What a check says of its files

A check prints a row for each unit and counts errors and warnings over all diagnostics.  What it
prints, and the status that it ends with, is what the units say of themselves.

* `Cli.Report.rows` and `Cli.Report.cell`, the table;
* `Cli.CheckAgrees`, a run whose table, counts and status agree;
* `Cli.views_agree`, all answers to whether something failed.
-/

namespace SourceIr.Cli

namespace Report

variable {reports : List Report} {r : Report}

/-- The units of these files. -/
def units (reports : List Report) : List LoweredUnit := reports.flatMap (·.file.units)

/-- The rows of the table. -/
def rows (reports : List Report) : List (List String) :=
  reports.flatMap fun r => r.file.units.map (row r.path)

/-- What a row has in a column. -/
def cell (row : List String) (column : String) : Option String := row[header.idxOf column]?

/-- The number of errors that is printed. -/
def errorCount (reports : List Report) : Nat := ((diagnostics reports).filter (·.isFatal)).length

/-- The number of warnings that is printed. -/
def warningTotal (reports : List Report) : Nat := (diagnostics reports).length - errorCount reports

theorem unitCount_eq : unitCount reports = (units reports).length := by
  rw [units, List.length_flatMap, List.sum_eq_foldl, List.foldl_map]
  rfl

theorem warningTotal_eq :
    warningTotal reports = ((diagnostics reports).filter (!·.isFatal)).length := by
  have h := List.length_eq_length_filter_add (l := diagnostics reports) (·.isFatal)
  rw [warningTotal, errorCount, h, Nat.add_sub_cancel_left]

/-- The table has a row for each unit. -/
theorem forall₂_rows : List.Forall₂ (fun u row => cell row "Unit" = some u.name ∧
      cell row "Warnings" = some (toString (warningCount u)) ∧ cell row "Status" = some (status u))
    (units reports) (rows reports) := by
  induction reports with
  | nil => exact .nil
  | cons r rest ih =>
    rw [units, rows, List.flatMap_cons, List.flatMap_cons]
    refine List.rel_append ?_ ih
    rw [List.forall₂_map_right_iff, List.forall₂_same]
    exact fun u _ => ⟨rfl, rfl, rfl⟩

end Report

namespace Batch

variable {files : Files} {options : Options} {level : LogLevel} {start : Nat} {paths : List String}
  {reports : List Report} {job : Job}

theorem exists_ofRoot_of_lowerFile {path : String} {run : FileRun × Nat}
    (h : lowerFile files options start path = .ok run) :
    ∃ root, run.1 = FileRun.ofRoot root options := by
  rw [lowerFile] at h
  cases htext : readFile files path with
  | error failure => simp [htext, bind, Except.bind] at h
  | ok text =>
    simp only [htext, bind, Except.bind] at h
    cases hrun : FileRun.ofText? text options start with
    | none => simp [hrun, throw, throwThe, MonadExceptOf.throw] at h
    | some found =>
      simp only [hrun] at h
      cases h
      rw [FileRun.ofText?] at hrun
      obtain ⟨⟨root, next⟩, -, hfound⟩ := Option.bind_eq_some_iff.1 hrun
      cases hfound
      exact ⟨root, rfl⟩

/-- What is reported are lowered files. -/
theorem exists_ofRoot_of_ofPaths
    (h : (ofPaths files options level start paths).result = .ok reports) :
    ∀ r ∈ reports, ∃ root, r.file = (FileRun.ofRoot root options).file := by
  induction paths generalizing start reports with
  | nil =>
    cases h
    simp
  | cons path rest ih =>
    rw [ofPaths] at h
    cases hrun : lowerFile files options start path with
    | error failure => simp [hrun] at h
    | ok run =>
      simp only [hrun] at h
      cases hrest : (ofPaths files options level run.2 rest).result with
      | error failure => simp [hrest, Except.map] at h
      | ok later =>
        simp only [hrest, Except.map] at h
        cases h
        rintro r (_ | ⟨_, hr⟩)
        · obtain ⟨root, hroot⟩ := exists_ofRoot_of_lowerFile hrun
          exact ⟨root, congrArg FileRun.file hroot⟩
        · exact ih hrest r hr

theorem exists_ofRoot (h : (ofJob files job).result = .ok reports) :
    ∀ r ∈ reports, ∃ root options, r.file = (FileRun.ofRoot root options).file := by
  rw [ofJob] at h
  cases hoptions : job.options files with
  | error failure => simp [hoptions] at h
  | ok options =>
    cases hpaths : job.paths files with
    | error failure => simp [hoptions, hpaths] at h
    | ok paths =>
      simp only [hoptions, hpaths] at h
      exact fun r hr => (exists_ofRoot_of_ofPaths h r hr).imp fun root hroot => ⟨options, hroot⟩

end Batch

/-! ### Counts -/

section Counts

open FileRun

variable (root : Node) (options : Options)

/-- The warnings of a file are those of its units. -/
theorem length_warnings : ((ofRoot root options).file.diagnostics.filter (!·.isFatal)).length =
    ((ofRoot root options).file.units.map Report.warningCount).sum := by
  have htable : ((DeclTable.ofRoot root).2 ++ strays root).filter (!·.isFatal) = [] :=
    List.filter_eq_nil_iff.2 fun m hm => by simp [isFatal_table root m hm]
  rw [diagnostics_ofRoot, List.filter_append, htable, List.nil_append, List.filter_flatMap,
    List.length_flatMap]
  rfl

variable {reports : List Report}
  (h : ∀ r ∈ reports, ∃ root options, r.file = (ofRoot root options).file)

include h

/-- The column of warnings sums up to the number of warnings. -/
theorem sum_warningCount :
    ((Report.units reports).map Report.warningCount).sum = Report.warningTotal reports := by
  rw [Report.warningTotal_eq]
  induction reports with
  | nil => rfl
  | cons r rest ih =>
    obtain ⟨root, options, hr⟩ := h r List.mem_cons_self
    have hrest := ih fun r hr => h r (List.mem_cons_of_mem _ hr)
    rw [Report.units, Report.diagnostics] at hrest ⊢
    rw [List.flatMap_cons, List.map_append, List.sum_append, hrest, List.flatMap_cons,
      List.filter_append, List.length_append, hr, length_warnings]

/-- The status tells whether an error is counted. -/
theorem statusOf_eq :
    Outcome.statusOf reports = if Report.errorCount reports = 0 then 0 else 1 := by
  have hiff : Report.errorCount reports = 0 ↔ ¬ reports.any (·.file.isPoisoned) = true := by
    rw [Report.errorCount, List.length_eq_zero_iff, List.filter_eq_nil_iff, Report.diagnostics,
      List.any_eq_true]
    constructor
    · rintro hnone ⟨r, hr, hp⟩
      obtain ⟨root, options, hfile⟩ := h r hr
      rw [hfile, isPoisoned_iff] at hp
      obtain ⟨m, hm, hfatal⟩ := hp
      exact hnone m (List.mem_flatMap.2 ⟨r, hr, hfile ▸ hm⟩) hfatal
    · intro hnone m hm hfatal
      obtain ⟨r, hr, hm⟩ := List.mem_flatMap.1 hm
      obtain ⟨root, options, hfile⟩ := h r hr
      refine hnone ⟨r, hr, ?_⟩
      rw [hfile, isPoisoned_iff]
      exact ⟨m, hfile ▸ hm, hfatal⟩
  rw [Outcome.statusOf]
  by_cases hp : reports.any (·.file.isPoisoned) = true
  · rw [if_pos hp, if_neg (by simpa [hiff] using hp)]
  · rw [if_neg hp, if_pos (hiff.2 hp)]

/-- The status of a unit in the table tells whether it is poisoned. -/
theorem status_eq {u : LoweredUnit} (hu : u ∈ Report.units reports) :
    Report.status u = if u.isPoisoned then "poisoned" else "ok" := by
  obtain ⟨r, hr, hu⟩ := List.mem_flatMap.1 hu
  obtain ⟨root, options, hfile⟩ := h r hr
  obtain ⟨run, rfl, hrun⟩ := agrees_of_mem_units root options (hfile ▸ hu)
  have hiff := hrun.tfae.out 0 1
  rw [Report.status]
  cases hterminal : run.unit.stream.terminalDiagnostic? with
  | some m => rw [if_pos (hiff.2 (by rw [hterminal]; rfl))]
  | none => rw [if_neg fun hp => by simpa [hterminal] using hiff.1 hp]

end Counts

/-- The table, the counts and the status of a check agree. -/
structure CheckAgrees (reports : List Report) (o : Outcome) : Prop where
  status : o.status = if Report.errorCount reports = 0 then 0 else 1
  /-- The table, and below it the numbers of units, errors and warnings. -/
  stdout : o.stdout = lines [Text.boxed Report.header (Report.rows reports),
    toString (Report.units reports).length ++ " units, " ++
      toString (Report.errorCount reports) ++ " errors, " ++
      toString (Report.warningTotal reports) ++ " warnings"]
  /-- A row for each unit. -/
  rows : List.Forall₂ (fun u row => Report.cell row "Unit" = some u.name ∧
      Report.cell row "Warnings" = some (toString (Report.warningCount u)) ∧
      Report.cell row "Status" = some (if u.isPoisoned then "poisoned" else "ok"))
    (Report.units reports) (Report.rows reports)
  warnings : ((Report.units reports).map Report.warningCount).sum = Report.warningTotal reports

theorem checkAgrees {files : Files} {job : Job} {reports : List Report}
    (h : (Batch.ofJob files job).result = .ok reports) :
    CheckAgrees reports (Outcome.ofCommand files (.check job)) := by
  have hfiles := Batch.exists_ofRoot h
  have hcheck : Outcome.ofCommand files (.check job) =
      { status := Outcome.statusOf reports
        stdout := lines [Report.table reports, Report.totals reports]
        stderr := lines (Batch.ofJob files job).lines } := by
    rw [Outcome.ofCommand]
    simp only [h]
  rw [hcheck]
  refine ⟨statusOf_eq hfiles, ?_, ?_, sum_warningCount hfiles⟩
  · rw [Report.totals, Report.unitCount_eq]
    rfl
  · refine ((List.forall₂_and_left _ _).2
      ⟨fun u hu => status_eq hfiles hu, Report.forall₂_rows⟩).imp ?_
    rintro u row ⟨hstatus, hname, hwarnings, hcell⟩
    exact ⟨hname, hwarnings, hstatus ▸ hcell⟩

/-- All answers to whether something failed are the same: those of each unit and of the file, for
every tree and all options, and those of a check of any files that can be loaded. -/
theorem views_agree : (∀ root options, FileRun.Agrees root options) ∧
    ∀ files arguments job reports, Invocation.ofArguments arguments = .ok (.run (.check job)) →
      (Batch.ofJob files job).result = .ok reports →
        CheckAgrees reports (Outcome.ofArguments files arguments) := by
  refine ⟨FileRun.agrees_ofRoot, fun files arguments job reports hcheck h => ?_⟩
  rw [Outcome.ofArguments, hcheck]
  exact checkAgrees h

/-- The text of a variable that is not initialized. -/
def lacksValue : String :=
  "\x7b\"kind\": \x7b\"VarDecl\": \x7b\"name\": \"x\", \"is_const\": true\x7d\x7d\x7d"

/-- A file with this text, under the name of a hyphen. -/
def Files.withLacksValue : Files where
  texts := [(["-"], lacksValue)]

theorem readFile_lacksValue : readFile .withLacksValue "-" = .ok lacksValue := by
  have hsplit : "-".splitOn "/" = ["-"] := by
    rw [String.splitOn, if_neg (by decide), String.splitOnAux, if_neg (by decide),
      if_neg (by decide), String.splitOnAux, if_pos (by decide)]
    decide +kernel
  have hwalk : Files.withLacksValue.walk "-" = .ok ["-"] := by
    rw [Files.walk, Files.steps, hsplit]
    rfl
  rw [readFile, Files.read, hwalk]
  rfl

/-- The variable is lowered into a unit that is poisoned. -/
theorem Batch.ofJob_lacksValue : ∃ reports,
    (ofJob .withLacksValue { inputs := ["-"] }).result = .ok reports ∧
      Outcome.statusOf reports = 1 := by
  have hpaths : Job.paths { inputs := ["-"] } .withLacksValue = .ok ["-"] := rfl
  obtain ⟨run, hrun⟩ : ∃ run, FileRun.ofText? lacksValue {} 1 = some run :=
    Option.isSome_iff_exists.1 (by decide +kernel)
  have hpoisoned : (FileRun.ofText? lacksValue {} 1).any (·.1.file.isPoisoned) = true := by
    decide +kernel
  have hfile : lowerFile .withLacksValue {} 1 "-" = .ok run := by
    rw [lowerFile, readFile_lacksValue]
    simp only [bind, Except.bind, hrun]
    rfl
  refine ⟨[⟨"-", run.1.file⟩], ?_, ?_⟩
  · have hoptions : Job.options { inputs := ["-"] } .withLacksValue = .ok {} := rfl
    simp only [ofJob, hpaths, ofPaths, hfile, hoptions]
    rfl
  · rw [hrun, Option.any_some] at hpoisoned
    simp [Outcome.statusOf, hpoisoned]

theorem views_agree_lacksValue :
    Invocation.ofArguments ["check", "-"] = .ok (.run (.check { inputs := ["-"] })) ∧
      ∃ reports, (Batch.ofJob .withLacksValue { inputs := ["-"] }).result = .ok reports ∧
        Outcome.statusOf reports = 1 ∧
          CheckAgrees reports (Outcome.ofArguments .withLacksValue ["check", "-"]) := by
  obtain ⟨reports, h, hstatus⟩ := Batch.ofJob_lacksValue
  exact ⟨rfl, reports, h, hstatus, views_agree.2 .withLacksValue ["check", "-"] _ reports rfl h⟩

end SourceIr.Cli
