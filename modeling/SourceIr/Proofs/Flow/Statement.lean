import SourceIr.Syntax.Node

/-!
# Statements over calls

The statements that decide where control goes, over calls without arguments.  What a call returns
is not looked at; where control depends on it, the answer is that of the next test in a sequence
of answers.

* `Stmt`, and `Node.stmt?`, the nodes that are such statements;
* `Track`, what a run has done; `Outcome`, how it ends;
* `Stmt.exec`, the run of a statement, in which no loop starts more rounds than it is allowed.
-/

namespace SourceIr

/-- Statements over calls.  The statements of a block are a chain that `skip` ends. -/
inductive Stmt where
  | skip
  | seq (first rest : Stmt)
  /-- A deferred statement, and those after it in its block. -/
  | defer (kind : DeferKind) (deferred rest : Stmt)
  | call (name : String)
  | tryCall (name : String)
  | block (label : Option String) (body : Stmt)
  | ite (test : String) (thenBranch elseBranch : Stmt)
  | loop (label : Option String) (test : String) (step : Option String) (body elseBranch : Stmt)
  | breakTo (label : Option String)
  | continueTo (label : Option String)
  | ret
  | retCall (name : String)
  deriving DecidableEq, Repr

namespace Stmt

/-- The functions that a statement calls. -/
def callees : Stmt → List String
  | skip | breakTo _ | continueTo _ | ret => []
  | seq first rest => first.callees ++ rest.callees
  | defer _ deferred rest => deferred.callees ++ rest.callees
  | call name | tryCall name | retCall name => [name]
  | block _ body => body.callees
  | ite test thenBranch elseBranch => test :: thenBranch.callees ++ elseBranch.callees
  | loop _ test step body elseBranch =>
    test :: step.toList ++ body.callees ++ elseBranch.callees

end Stmt

/-! ### Nodes that are statements over calls -/

namespace Node

/-- The function that a node calls, if it is a call without arguments. -/
def called? : Node → Option String
  | ⟨_, .call ⟨_, .symbol name, _, _⟩ [] .auto, _, _⟩ => some name
  | _ => none

mutual

/-- The statement over calls that a node is. -/
def stmt? : Node → Option Stmt
  | ⟨_, .call ⟨_, .symbol name, _, _⟩ [] .auto, _, _⟩ => some (.call name)
  | ⟨_, .tryExpr expr, _, _⟩ => expr.called?.map .tryCall
  | ⟨_, .block label statements, _, _⟩ => (stmts? statements).map (.block label)
  | ⟨_, .ifThen condition none thenBranch elseBranch, _, _⟩ => do
    return .ite (← condition.called?) (← thenBranch.stmt?) (← orSkip? elseBranch)
  | ⟨_, .whileLoop label condition none none body elseBranch false, _, _⟩ => do
    return .loop label (← condition.called?) none (← body.stmt?) (← orSkip? elseBranch)
  | ⟨_, .whileLoop label condition none (some step) body elseBranch false, _, _⟩ => do
    return .loop label (← condition.called?) (← step.called?) (← body.stmt?)
      (← orSkip? elseBranch)
  | ⟨_, .breakTo label none, _, _⟩ => some (.breakTo label)
  | ⟨_, .continueTo label, _, _⟩ => some (.continueTo label)
  | ⟨_, .returnFrom none, _, _⟩ => some .ret
  | ⟨_, .returnFrom (some value), _, _⟩ => value.called?.map .retCall
  | _ => none

/-- The statement that a branch is which may be left out. -/
def orSkip? : Option Node → Option Stmt
  | none => some .skip
  | some branch => branch.stmt?

/-- The statements of a block. -/
def stmts? : List Node → Option Stmt
  | [] => some .skip
  | ⟨_, .deferred kind expr, _, _⟩ :: rest => do
    return .defer kind (← expr.stmt?) (← stmts? rest)
  | node :: rest => do return .seq (← node.stmt?) (← stmts? rest)

end

theorem called?_eq_some {node : Node} {c : String} (h : node.called? = some c) :
    ∃ callee, node.kind = .call callee [] .auto ∧ callee.kind = .symbol c := by
  unfold called? at h
  split at h
  · exact ⟨_, rfl, congrArg Kind.symbol (Option.some.inj h)⟩
  · cases h

/-- A statement of a block is deferred, or it is run in its place. -/
theorem stmts?_cons {node : Node} {rest : List Node} {R : Stmt}
    (h : stmts? (node :: rest) = some R) :
    (∃ kind expr d r, node.kind = .deferred kind expr ∧ expr.stmt? = some d ∧
      stmts? rest = some r ∧ R = .defer kind d r) ∨
    ∃ S r, node.stmt? = some S ∧ stmts? rest = some r ∧ R = .seq S r := by
  rw [stmts?.eq_def] at h
  split at h
  next => cases ‹_ :: _ = []›
  next kind expr _ _ _ e =>
    cases e
    simp only [Option.bind_eq_bind, Option.bind_eq_some_iff, Option.pure_def,
      Option.some.injEq] at h
    obtain ⟨d, hd, r, hr, rfl⟩ := h
    exact .inl ⟨kind, expr, d, r, rfl, hd, hr, rfl⟩
  next e =>
    cases e
    simp only [Option.bind_eq_bind, Option.bind_eq_some_iff, Option.pure_def,
      Option.some.injEq] at h
    obtain ⟨S, hS, r, hr, rfl⟩ := h
    exact .inr ⟨S, r, hS, hr, rfl⟩

end Node

/-! ### Runs -/

/-- What a run has done: how many tests it has asked, and the calls that it has made. -/
structure Track where
  asked : Nat
  calls : List String
  deriving DecidableEq, Repr

namespace Track

/-- Nothing has been done. -/
def start : Track := ⟨0, []⟩

/-- One more test has been asked. -/
def ask (w : Track) : Track := { w with asked := w.asked + 1 }

/-- One more call has been made. -/
def call (w : Track) (name : String) : Track := { w with calls := w.calls ++ [name] }

end Track

/-- How the run of a statement ends. -/
inductive Outcome where
  /-- It goes on with the next statement. -/
  | done
  /-- A loop was to start more rounds than it is allowed. -/
  | stopped
  | broke (label : Option String)
  | continued (label : Option String)
  | returned
  /-- The function is left with an error. -/
  | failed
  deriving DecidableEq, Repr

namespace Outcome

/-- Whether a loop with this label goes on with its next round. -/
def goesOn (own : Option String) : Outcome → Bool
  | done => true
  | continued label => label.isNone || own == label
  | _ => false

/-- Whether a loop with this label is left. -/
def leavesLoop (own : Option String) : Outcome → Bool
  | broke label => label.isNone || own == label
  | _ => false

/-- Whether a block with this label is left, and nothing around it. -/
def leavesBlock (own : Option String) : Outcome → Bool
  | broke (some label) => own == some label
  | _ => false

/-- Whether a deferred statement of this kind runs at the end. -/
def runs (kind : DeferKind) : Outcome → Bool
  | failed => true
  | _ => kind == .normal

theorem leavesBlock_none (o : Outcome) : o.leavesBlock none = false := by
  rcases o with _ | _ | (_ | _) | _ | _ | _ <;> rfl

end Outcome

namespace Stmt

variable (tests : Nat → Bool)

/-- The rounds of a loop, at most as many as are allowed. -/
def rounds (label : Option String) (test : String) (step : Option String)
    (body elseBranch : Track → Outcome × Track) : Nat → Track → Outcome × Track
  | 0, w => (.stopped, w)
  | allowed + 1, w =>
    let w := w.call test
    if tests w.asked then
      let (o, w) := body w.ask
      if o.goesOn label then
        rounds label test step body elseBranch allowed (step.elim w w.call)
      else if o.leavesLoop label then (.done, w)
      else (o, w)
    else elseBranch w.ask

/-- The run of a statement, in which no loop starts more than `allowed` rounds.  `armed` says that
an error would run a deferred statement that a return does not. -/
def exec (allowed : Nat) (armed : Bool) : Stmt → Track → Outcome × Track
  | skip, w => (.done, w)
  | seq first rest, w =>
    match exec allowed armed first w with
    | (.done, w) => exec allowed armed rest w
    | r => r
  | defer kind deferred rest, w =>
    match exec allowed (armed || kind == .error) rest w with
    | (.stopped, w) => (.stopped, w)
    | (o, w) =>
      if o.runs kind then
        match exec allowed armed deferred w with
        | (.done, w) => (o, w)
        | r => r
      else (o, w)
  | call name, w => (.done, w.call name)
  | tryCall name, w =>
    let w := w.call name
    (if tests w.asked then .failed else .done, w.ask)
  | block label body, w =>
    let (o, w) := exec allowed armed body w
    (if o.leavesBlock label then .done else o, w)
  | ite test thenBranch elseBranch, w =>
    let w := w.call test
    if tests w.asked then exec allowed armed thenBranch w.ask
    else exec allowed armed elseBranch w.ask
  | loop label test step body elseBranch, w =>
    rounds tests label test step (exec allowed armed body) (exec allowed armed elseBranch)
      allowed w
  | breakTo label, w => (.broke label, w)
  | continueTo label, w => (.continued label, w)
  | ret, w => (.returned, w)
  | retCall name, w =>
    let w := w.call name
    if armed then (if tests w.asked then .failed else .returned, w.ask)
    else (.returned, w)

variable {tests} {allowed : Nat} {armed : Bool} {w : Track}

theorem rounds_succ {label : Option String} {test : String} {step : Option String}
    {body elseBranch : Track → Outcome × Track} :
    rounds tests label test step body elseBranch (allowed + 1) w =
      let r := body (w.call test).ask
      if tests (w.call test).asked then
        if r.1.goesOn label then
          rounds tests label test step body elseBranch allowed (step.elim r.2 r.2.call)
        else if r.1.leavesLoop label then (.done, r.2)
        else r
      else elseBranch (w.call test).ask := by
  rw [rounds]

theorem exec_seq (first rest : Stmt) :
    (seq first rest).exec tests allowed armed w =
      if (first.exec tests allowed armed w).1 = .done then
        rest.exec tests allowed armed (first.exec tests allowed armed w).2
      else first.exec tests allowed armed w := by
  rw [exec]
  rcases first.exec tests allowed armed w with ⟨o, w⟩
  cases o <;> rfl

theorem exec_block (label : Option String) (body : Stmt) :
    (block label body).exec tests allowed armed w =
      let r := body.exec tests allowed armed w
      (if r.1.leavesBlock label then .done else r.1, r.2) := by
  rw [exec]

theorem exec_defer (kind : DeferKind) (deferred rest : Stmt) :
    (defer kind deferred rest).exec tests allowed armed w =
      let r := rest.exec tests allowed (armed || kind == .error) w
      let r' := deferred.exec tests allowed armed r.2
      if r.1 = .stopped ∨ r.1.runs kind = false then r
      else if r'.1 = .done then (r.1, r'.2) else r' := by
  rw [exec]
  rcases rest.exec tests allowed (armed || kind == .error) w with ⟨o, w⟩
  rcases hd : deferred.exec tests allowed armed w with ⟨o', w'⟩
  cases o <;> cases o' <;> cases kind <;> simp [hd, Outcome.runs]

end Stmt

end SourceIr
