import SourceIr.Proofs.Layout.Unit
import SourceIr.Proofs.Pass.Control
import SourceIr.Proofs.Policy

/-!
# Statements that are not left out

Code that control does not get to is left out of a block with a warning.  A statement is not left
out as long as control gets past those before it in the source, unless one of them was refused and
the lowering went on.

* `lowerFrom`, the statements of a block of which the first one is lowered in any case;
* `outcome_lowerStatements_of_passes`, where the statements of a block are lowered so;
* `leavesOut_refusesIf`, a statement that is left out behind an `if` that was refused.
-/

namespace SourceIr

namespace Lower

open Site

variable {env : Env} {s : State} {w : Site} {parts : Parts} {scope : ScopeId}
  {statement : Node} {before rest : List Node}

/-- Lowers the statements of a block from one on that is not left out. -/
def lowerFrom (parts : Parts) (scope : ScopeId) (statement : Node) (rest : List Node) :
    LowerM ScopeId := do
  match ← attempt (parts.statement statement scope) with
  | some next => lowerStatements parts next false rest
  | none =>
    match (← read).options.errorPolicy with
    | .abort => throw .poisoned
    | .proceed => lowerStatements parts scope true rest

theorem outcome_lowerFrom : outcome (lowerFrom parts scope statement rest) env s =
    match outcome (parts.statement statement scope) env s with
    | (.ok next, t) => outcome (lowerStatements parts next false rest) env t
    | (.error .poisoned, t) =>
      match env.options.errorPolicy with
      | .abort => (.error .poisoned, t)
      | .proceed => outcome (lowerStatements parts scope true rest) env t
    | (.error (.fault f), t) => (.error (.fault f), t) := by
  rw [lowerFrom, outcome_bind, outcome_attempt]
  rcases outcome (parts.statement statement scope) env s with ⟨(_ | _) | next, t⟩
  · dsimp only
    rw [outcome_bind, outcome_read]
    dsimp only
    cases env.options.errorPolicy <;> rfl
  · rfl
  · rfl

/-- Where control goes on, the first of some statements is lowered. -/
theorem outcome_lowerStatements_cons (hs : s.stream.Coherent) (hgo : s.GoesOn) :
    outcome (lowerStatements parts scope false (statement :: rest)) env s =
      outcome (lowerFrom parts scope statement rest) env s := by
  rw [lowerStatements, outcome_bind, outcome_isTerminated hs.endFault?_eq_none, hgo]
  rfl

/-- A statement is not left out if control gets past those before it, and if either none of them
was refused or the lowering does not go on after that. -/
theorem outcome_lowerStatements_of_passes {levels : Nat} (hw : w.Good)
    (hs : w.In w.current scope) (hgo : w.state.GoesOn) (hpass : ∀ n ∈ before, n.Passes)
    (hok : env.options.errorPolicy = .abort ∨ ∃ last s',
      Returns (lowerStatements (nested levels) scope false before) env w.state last s') :
    outcome (lowerStatements (nested levels) scope false (before ++ statement :: rest)) env
        w.state =
      outcome (do
        let last ← lowerStatements (nested levels) scope false before
        lowerFrom (nested levels) last statement rest) env w.state := by
  induction before generalizing w scope with
  | nil => exact outcome_lowerStatements_cons hw.laid.coherent hgo
  | cons n before ih =>
    rw [List.cons_append, outcome_lowerStatements_cons hw.laid.coherent hgo, outcome_bind,
      outcome_lowerStatements_cons hw.laid.coherent hgo, outcome_lowerFrom, outcome_lowerFrom]
    have hn : n.Passes := hpass n List.mem_cons_self
    rcases ho : outcome ((nested levels).statement n scope) env w.state with ⟨(_ | f) | next, t⟩
    · -- The statement is refused, so the lowering does not go on.
      have habort : env.options.errorPolicy = .abort := by
        refine hok.resolve_right ?_
        rintro ⟨last, s', hr⟩
        obtain ⟨next, u, hr, -⟩ := returns_lowerStatements_cons hgo hr
        rw [Returns, ho] at hr
        cases hr
      simp only [habort]
    · rfl
    · obtain ⟨w', rfl, hw', -, ⟨⟨le, hnext, -⟩, -⟩, hgo'⟩ :=
        (passParts_nested levels).statementOn hn hs hgo hw next t ho
      dsimp only
      rw [ih hw' hnext hgo' (fun m hm => hpass m (List.mem_cons_of_mem n hm)), outcome_bind]
      refine hok.imp_right ?_
      rintro ⟨last, s', hr⟩
      obtain ⟨next', u, hstatement, hr⟩ := returns_lowerStatements_cons hgo hr
      rw [Returns, ho] at hstatement
      cases hstatement
      exact ⟨last, s', hr⟩

/-- The start of the body of a function. -/
def State.inFunction : State :=
  Generator.bare.start (Stream.new "f" false)
    ((Generator.bare.unitScopes []).2.openUnder ⟨0⟩ (.fnDef "f")).2 ⟨1⟩

end Lower

open Lower Lower.Site

/-- An `if` that returns. -/
def Node.returnsIf : Node :=
  .bare (.ifThen (.bare (.boolLiteral true)) none (.bare (.returnFrom none)) none)

/-- The jump behind the `if` is lowered, though it leads nowhere. -/
theorem outcome_lowerStatements_of_passes_returnsIf :
    Node.returnsIf.Passes ∧
      outcome (lowerStatements (nested 3) ⟨1⟩ false ([.returnsIf] ++ [.bare (.continueTo none)]))
          ⟨.empty "", { errorPolicy := .proceed }⟩ .inFunction =
        outcome (do
          let last ← lowerStatements (nested 3) ⟨1⟩ false [.returnsIf]
          lowerFrom (nested 3) last (.bare (.continueTo none)) [])
          ⟨.empty "", { errorPolicy := .proceed }⟩ .inFunction := by
  have ho := Generator.opened_unitScopes .bare []
  have hscopes : State.inFunction.scopes.WellFormed := ho.scopes.openUnder ho.index
  have hbare : State.inFunction.scopes.Bare := (Generator.bare_unitScopes .bare []).openUnder
  have hgood : (Site.start .inFunction).Good := by
    refine good_start rfl rfl (hbare.recorded hscopes)
      ⟨_, ScopeTree.scope?_openUnder ⟨0⟩ (.fnDef "f"), rfl⟩ fun v x hx => ?_
    simp [ScopeTree.var?, hbare.vars] at hx
  have hpasses : Node.returnsIf.Passes := Node.passes_of_lacksElse rfl
  have hok : (outcome (lowerStatements (nested 3) ⟨1⟩ false [.returnsIf])
      ⟨.empty "", { errorPolicy := .proceed }⟩ .inFunction).1.toOption = some ⟨1⟩ := by
    decide +kernel
  exact ⟨hpasses, outcome_lowerStatements_of_passes hgood (in_start rfl hscopes (by decide)) rfl
    (by simpa using hpasses) (.inr ⟨_, _, returns_of_toOption hok⟩)⟩

/-- A function with an `if` whose branch first jumps to nowhere and then returns, and a jump behind
it that leads nowhere, too. -/
def Node.refusesIf : Node :=
  .bare (.fnDecl "f" [] none (some (.bare (.block none [.bare (.ifThen (.bare (.boolLiteral true))
    none (.bare (.block none [.bare (.breakTo none none), .bare (.returnFrom none)])) none),
    .bare (.continueTo none)]))) false false)

/-- The `if` is refused inside of its branch, which is left as the current block: the second jump is
left out as unreachable, and its own error is not found. -/
theorem leavesOut_refusesIf :
    ((Generator.bare.under .proceed).lower .refusesIf).unit.stream.diagnostics.map (·.message) =
      ["break expression outside loop", "unreachable code"] := by
  decide +kernel

end SourceIr
