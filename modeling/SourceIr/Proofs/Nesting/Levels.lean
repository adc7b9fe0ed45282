import SourceIr.Proofs.Comparison.Unit
import SourceIr.Proofs.Safety.Unit

/-!
# Levels of nesting

How deeply expressions may be nested is checked where the value of an expression is lowered.  The
address of a place is lowered without such a check, so that a place takes no level of its own where
another access starts from it.

* `Node.height`, the nodes on the longest way down an expression, and `Node.levels`, the levels of
  nesting that it takes;
* `Generator.isPoisoned_of_lt_levels`, an expression with more levels than are allowed;
* `Generator.isPoisoned_accesses`, accesses of any height at two levels.
-/

namespace SourceIr

mutual

/-- The nodes on the longest way down an expression of operators, accesses and calls.  Any other
construct is the end of the way. -/
def Node.height : Node → Nat
  | ⟨_, kind, _, _⟩ => kind.height + 1

/-- The nodes on the longest way down below a construct. -/
def Kind.height : Kind → Nat
  | .unaryOp _ operand => operand.height
  | .binaryOp _ lhs rhs => max lhs.height rhs.height
  | .fieldAccess container _ => container.height
  | .arrayAccess array index => max array.height index.height
  | .call callee args _ => max callee.height (heightOfList args)
  | _ => 0

/-- The nodes on the longest way down one of the trees of a list. -/
def heightOfList : List Node → Nat
  | [] => 0
  | node :: rest => max node.height (heightOfList rest)

end

mutual

/-- The levels of nesting that the value of an expression of operators, accesses and calls takes.
Any other construct takes one. -/
def Node.levels : Node → Nat
  | ⟨_, kind, _, _⟩ => kind.levels + 1

/-- The levels of nesting below a construct. -/
def Kind.levels : Kind → Nat
  | .unaryOp op operand => if op = .addressOf then operand.baseLevels else operand.levels
  | .binaryOp _ lhs rhs => max lhs.levels rhs.levels
  | .fieldAccess container _ => container.baseLevels
  | .arrayAccess array index => max array.baseLevels index.levels
  | .call callee args _ => max callee.levels (levelsOfList args)
  | _ => 0

/-- The levels of nesting of what an access starts from: of its address, if it is a place. -/
def Node.baseLevels : Node → Nat
  | ⟨_, kind, _, _⟩ => if kind.isPlace then kind.levels else kind.levels + 1

/-- The levels of nesting of the trees of a list. -/
def levelsOfList : List Node → Nat
  | [] => 0
  | node :: rest => max node.levels (levelsOfList rest)

end

theorem Node.levels_eq (node : Node) : node.levels = node.kind.levels + 1 := by
  cases node
  rw [Node.levels]

theorem Node.baseLevels_eq (node : Node) :
    node.baseLevels = if node.kind.isPlace then node.kind.levels else node.levels := by
  cases node
  rw [Node.baseLevels, Node.levels]

namespace Lower

variable {env : Env} {s s' : State} {parts : Parts} {node : Node} {scope : ScopeId}
  {loc : ResultLoc} {v : InstId} {d : Nat}

/-- The routines for parts return only where no more levels of nesting are needed. -/
def Bounded (env : Env) (d : Nat) (parts : Parts) : Prop :=
  ∀ node scope loc s v s', Returns (parts.expr node scope loc) env s v s' → node.levels ≤ d

variable (hp : Bounded env d parts)

include hp in
theorem Bounded.place (h : Returns (lowerPlace parts scope node) env s v s') :
    node.kind.levels ≤ d := by
  suffices ∀ s v s', Returns (lowerPlace parts scope node) env s v s' → node.kind.levels ≤ d from
    this s v s' h
  clear h
  fun_induction lowerPlace parts scope node with
  | case1 id name location span => exact fun _ _ _ _ => Nat.zero_le d
  | case2 id container name location span _ hc ih =>
    intro s v s' h
    obtain ⟨base, t, hb, -⟩ := returns_bind.1 h
    rw [Kind.levels, container.baseLevels_eq, if_pos hc]
    exact ih _ _ _ hb
  | case3 id container name location span _ hc =>
    intro s v s' h
    obtain ⟨base, t, hb, -⟩ := returns_bind.1 h
    rw [Kind.levels, container.baseLevels_eq, if_neg hc]
    exact hp _ _ _ _ _ _ hb
  | case4 id array index location span _ ha ih =>
    intro s v s' h
    obtain ⟨base, t, hb, h⟩ := returns_bind.1 h
    obtain ⟨i, u, hi, -⟩ := returns_bind.1 h
    rw [Kind.levels, array.baseLevels_eq, if_pos ha]
    exact Nat.max_le.2 ⟨ih _ _ _ hb, hp _ _ _ _ _ _ hi⟩
  | case5 id array index location span _ ha =>
    intro s v s' h
    obtain ⟨base, t, hb, h⟩ := returns_bind.1 h
    obtain ⟨i, u, hi, -⟩ := returns_bind.1 h
    rw [Kind.levels, array.baseLevels_eq, if_neg ha]
    exact Nat.max_le.2 ⟨hp _ _ _ _ _ _ hb, hp _ _ _ _ _ _ hi⟩
  | case6 id operand location span => exact fun s v s' h => hp _ _ _ _ _ _ h
  | case7 node => exact fun s v s' h => absurd h not_returns_fail

include hp in
theorem Bounded.unary {op : UnaryOperator} {operand : Node}
    (h : Returns (lowerUnary parts node op operand scope loc) env s v s') :
    (Kind.unaryOp op operand).levels ≤ d := by
  have value : ∀ {f : InstId → LowerM InstId},
      Returns (parts.value operand scope >>= f) env s v s' → operand.levels ≤ d := fun h => by
    obtain ⟨w, t, hw, -⟩ := returns_bind.1 h
    exact hp _ _ _ _ _ _ hw
  rw [Kind.levels]
  cases op with
  | addressOf =>
    rw [if_pos rfl, operand.baseLevels_eq]
    rw [lowerUnary] at h
    split at h
    next hplace =>
      obtain ⟨w, t, hw, -⟩ := returns_bind.1 h
      rw [if_pos hplace]
      exact hp.place hw
    next hplace =>
      rw [if_neg hplace]
      exact value h
  | _ => exact value h

include hp in
theorem Bounded.shortCircuit {op : BinaryOperator} {lhs rhs : Node}
    (h : Returns (lowerShortCircuit parts node op lhs rhs scope loc) env s v s') :
    lhs.levels ≤ d ∧ rhs.levels ≤ d := by
  obtain ⟨left, t, hl, h⟩ := returns_bind.1 h
  obtain ⟨rhsBlock, t, -, h⟩ := returns_bind.1 h
  obtain ⟨stop, t, -, h⟩ := returns_bind.1 h
  obtain ⟨source, t, -, h⟩ := returns_bind.1 h
  refine ⟨hp _ _ _ _ _ _ hl, ?_⟩
  dsimp only at h
  split at h <;>
  · obtain ⟨_, t, -, h⟩ := returns_bind.1 h
    obtain ⟨_, t, -, h⟩ := returns_bind.1 h
    obtain ⟨right, u, hr, -⟩ := returns_bind.1 h
    exact hp _ _ _ _ _ _ hr

include hp in
theorem Bounded.orElse {lhs rhs : Node}
    (h : Returns (lowerOrElse parts node lhs rhs scope loc) env s v s') :
    lhs.levels ≤ d ∧ rhs.levels ≤ d := by
  obtain ⟨loc, t, -, h⟩ := returns_bind.1 h
  obtain ⟨value, t, hl, h⟩ := returns_bind.1 h
  obtain ⟨nonNull, t, -, h⟩ := returns_bind.1 h
  obtain ⟨okBlock, t, -, h⟩ := returns_bind.1 h
  obtain ⟨nullBlock, t, -, h⟩ := returns_bind.1 h
  obtain ⟨stop, t, -, h⟩ := returns_bind.1 h
  obtain ⟨_, t, -, h⟩ := returns_bind.1 h
  obtain ⟨_, t, -, h⟩ := returns_bind.1 h
  obtain ⟨fallback, u, hr, -⟩ := returns_bind.1 h
  exact ⟨hp _ _ _ _ _ _ hl, hp _ _ _ _ _ _ hr⟩

include hp in
theorem Bounded.binary {op : BinaryOperator} {lhs rhs : Node}
    (h : Returns (lowerBinary parts node op lhs rhs scope loc) env s v s') :
    (Kind.binaryOp op lhs rhs).levels ≤ d := by
  rw [Kind.levels]
  refine Nat.max_le.2 ?_
  cases op
  case boolAnd | boolOr => exact hp.shortCircuit h
  case orElse => exact hp.orElse h
  all_goals
    obtain ⟨left, t, hl, h⟩ := returns_bind.1 h
    obtain ⟨right, u, hr, -⟩ := returns_bind.1 h
    exact ⟨hp _ _ _ _ _ _ hl, hp _ _ _ _ _ _ hr⟩

include hp in
theorem Bounded.args {args : List Node} {vs : List InstId}
    (h : Returns (lowerArgs parts scope args) env s vs s') : levelsOfList args ≤ d := by
  induction args generalizing s vs s' with
  | nil => exact Nat.zero_le d
  | cons arg rest ih =>
    obtain ⟨value, t, hv, h⟩ := returns_bind.1 h
    obtain ⟨values, u, hr, -⟩ := returns_bind.1 h
    exact Nat.max_le.2 ⟨hp _ _ _ _ _ _ hv, ih hr⟩

include hp in
theorem Bounded.call {callee : Node} {args : List Node} {modifier : CallModifier}
    (h : Returns (lowerCall parts node callee args modifier scope loc) env s v s') :
    (Kind.call callee args modifier).levels ≤ d := by
  rw [Logic.lowerCall_eq] at h
  obtain ⟨operands, t, h, -⟩ := returns_bind.1 h
  obtain ⟨scopes, t, -, h⟩ := returns_bind.1 h
  obtain ⟨_, t, -, h⟩ := returns_bind.1 h
  obtain ⟨target, t, hc, h⟩ := returns_bind.1 h
  rw [Kind.levels]
  refine Nat.max_le.2 ⟨hp _ _ _ _ _ _ hc, ?_⟩
  -- The arguments, in a scope of their own or not.
  have all : ∀ {c : Bool} {vs t u}, Returns (do
      let argScope ← if c then openScope scope .comptime else pure scope
      lowerArgs parts argScope args) env t vs u → levelsOfList args ≤ d := fun {c} {_ _ _} h => by
    cases c <;>
    · obtain ⟨argScope, t, -, h⟩ := returns_bind.1 h
      exact hp.args h
  obtain ⟨atComptime, t, -, h⟩ := returns_bind.1 h
  split at h
  · obtain ⟨values, t, h, -⟩ := returns_bind.1 h
    obtain ⟨u, h, -⟩ := returns_withFrame h
    exact all h
  · obtain ⟨values, t, h, -⟩ := returns_bind.1 h
    exact all h

include hp in
/-- An expression is lowered to its end only where the levels below it are there. -/
theorem Bounded.expr (h : Returns (lowerExpr parts node scope loc) env s v s') :
    node.kind.levels ≤ d := by
  have load : Returns (lowerLoad parts node scope loc) env s v s' → node.kind.levels ≤ d :=
    fun h => by
      obtain ⟨ptr, t, hptr, -⟩ := returns_bind.1 h
      exact hp.place hptr
  rw [lowerExpr] at h
  cases hk : node.kind <;> rw [hk] at h load
  case fieldAccess | arrayAccess => exact load h
  case unaryOp => exact hp.unary h
  case binaryOp => exact hp.binary h
  case call => exact hp.call h
  all_goals exact Nat.zero_le d

theorem bounded_nested (env : Env) (d : Nat) : Bounded env d (nested d) := by
  induction d with
  | zero =>
    intro node scope loc s v s' h
    exact absurd h (not_returns_bind fun _ _ => not_returns_fail)
  | succ d ih =>
    intro node scope loc s v s' h
    rw [node.levels_eq]
    exact Nat.succ_le_succ (ih.expr h)

/-- An initializer is lowered to its end only within the levels that the options allow. -/
theorem levels_le_of_lowerGlobal {name : String} {type : Option Node} {init : Node} {u : PUnit}
    (h : Returns (lowerGlobal node name type (some init) scope) env s u s') :
    init.levels ≤ env.options.maxDepth := by
  obtain ⟨_, t₁, -, h₁⟩ := returns_bind.1 h
  obtain ⟨_, t₂, -, h₂⟩ := returns_bind.1 h₁
  obtain ⟨parts, t₃, hparts, h₃⟩ := returns_bind.1 h₂
  rw [outermost, returns_read_bind] at hparts
  obtain ⟨rfl, rfl⟩ := returns_pure.1 hparts
  obtain ⟨value, t₄, hv, -⟩ := returns_bind.1 h₃
  exact bounded_nested _ _ _ _ _ _ _ _ hv

end Lower

namespace Generator

open Lower

/-- A variable whose initializer takes more levels of nesting than the options allow is not
lowered. -/
theorem isPoisoned_of_lt_levels (g : Generator) (node : Node) {name : String}
    {isConst isComptime : Bool} {type : Option Node} {init : Node}
    (hk : node.kind = .varDecl name isConst isComptime type (some init))
    (h : g.options.maxDepth < init.levels) :
    (g.lower node).unit.isPoisoned = true ∧
      ∀ decl, (g.lowerDecl decl node).unit.isPoisoned = true := by
  have poisoned : ∀ unitName kind containers,
      (g.runTopLevel node unitName kind containers).unit.isPoisoned = true := by
    intro unitName kind containers
    rcases g.runTopLevel_outcome node unitName kind containers with ho | ⟨-, hp⟩
    · have hr := Generator.returns_of_outcome ho
      simp only [hk] at hr
      exact absurd (levels_le_of_lowerGlobal hr) (Nat.not_le.2 h)
    · exact hp
  have hof : UnitKind.ofNode node = .topLevel := by rw [UnitKind.ofNode, hk]
  refine ⟨?_, fun decl => ?_⟩
  · rw [lower, runNode, hof]
    exact poisoned _ _ _
  · rw [lowerDecl, runNode, hof]
    exact poisoned _ _ _

end Generator

theorem isPoisoned_of_lt_levels_negated :
    (({ Generator.bare with options := { maxDepth := 2 } } : Generator).lower
      (.bare (.varDecl "n" true false none (some (.bare (.unaryOp .negate
        (.bare (.unaryOp .negate (.bare (.intLiteral 1)))))))))).unit.isPoisoned = true :=
  (Generator.isPoisoned_of_lt_levels _ _ rfl (by decide)).1

/-! ### Accesses that start from places -/

/-- An access to a field of an access to a field, and so on, `n` times. -/
def Node.accesses : Nat → Node
  | 0 => .bare (.intLiteral 1)
  | n + 1 => .bare (.fieldAccess (accesses n) "x")

theorem Node.height_accesses (n : Nat) : (Node.accesses n).height = n + 1 := by
  induction n with
  | zero => rfl
  | succ n ih => rw [accesses, bare, Node.height, Kind.height, ih]

namespace Lower

variable {env : Env} {s : State} {parts : Parts} {scope : ScopeId}

theorem succeeds_lowerPlace_accesses
    (hp : ∀ s, Succeeds env s (parts.expr (.accesses 0) scope .none)) (n : Nat) :
    Succeeds env s (lowerPlace parts scope (.accesses (n + 1))) := by
  induction n generalizing s with
  | zero => exact succeeds_bind (hp s) fun _ _ => succeeds_step (step_emitWith _ _ _ _ _)
  | succ n ih => exact succeeds_bind ih fun _ _ => succeeds_step (step_emitWith _ _ _ _ _)

theorem succeeds_accesses (d n : Nat) :
    Succeeds env s ((nested (d + 2)).expr (.accesses n) scope .none) := by
  have value : ∀ d s, Succeeds env s ((nested (d + 1)).expr (.accesses 0) scope .none) :=
    fun _ _ => succeeds_bind (succeeds_step (step_emitWith _ _ _ _ _)) fun _ _ => rfl
  cases n with
  | zero => exact value (d + 1) s
  | succ n =>
    refine succeeds_bind (succeeds_lowerPlace_accesses (value d) n) fun _ _ => ?_
    exact succeeds_bind (succeeds_step (step_emitWith _ _ _ _ _)) fun _ _ => rfl

theorem succeeds_lowerComptimeBody (d n : Nat) {node : Node} :
    Succeeds env s (lowerComptimeBody (nested (d + 2)) node (.accesses n) scope) := by
  refine succeeds_bind (succeeds_accesses d n) fun value _ => ?_
  refine succeeds_bind succeeds_isTerminated fun terminated _ => ?_
  cases terminated with
  | true => exact rfl
  | false =>
    exact succeeds_bind (succeeds_step (step_emitWith _ _ _ _ _)) fun _ _ => rfl

end Lower

namespace Generator

open Lower

/-- A run that does not fail leaves a unit that is not poisoned, unless a rule is broken. -/
theorem isPoisoned_of_succeeds {g : Generator} {name : String} {kind : UnitKind} {s : State}
    {x : LowerM PUnit} (hx : Succeeds ⟨g.table, g.options⟩ s x) (hs : s.stream.isPoisoned = false)
    (hf : ∀ f, (g.run name kind s x).outcome ≠ .error (.fault f)) :
    (g.run name kind s x).unit.isPoisoned = false := by
  rw [run_eq] at hf ⊢
  rw [Succeeds] at hx
  rcases ho : outcome x ⟨g.table, g.options⟩ s with ⟨(_ | f) | a, t⟩ <;> rw [ho] at hx hf
  · exact hx.elim
  · exact absurd rfl (hf f)
  · exact hx.trans hs

/-- Two levels of nesting are enough for accesses of any height. -/
theorem isPoisoned_accesses (g : Generator) (h : 2 ≤ g.options.maxDepth) (n : Nat) :
    (g.lower (.bare (.varDecl "n" true false none (some (.accesses n))))).unit.isPoisoned =
      false := by
  obtain ⟨d, hd⟩ := Nat.exists_eq_add_of_le' h
  have hx : ∀ s scope, Succeeds ⟨g.table, g.options⟩ s
      (lowerAsTopLevel (nested g.options.maxDepth)
        (.bare (.varDecl "n" true false none (some (.accesses n)))) "n" scope) := by
    intro s scope
    rw [hd]
    exact succeeds_bind (succeeds_step (step_setNameHint _ _)) fun _ _ =>
      succeeds_lowerComptimeBody d n
  have hf := g.outcome_runTopLevel_ne_fault
    (.bare (.varDecl "n" true false none (some (.accesses n)))) "n" .topLevel []
  change (g.runTopLevel _ "n" .topLevel []).unit.isPoisoned = false
  rw [runTopLevel_eq] at hf ⊢
  exact isPoisoned_of_succeeds (hx _ _) rfl hf

end Generator

/-- A field of a field of a field. -/
def Node.deepField : Node :=
  .bare (.fieldAccess (.bare (.fieldAccess (.bare (.fieldAccess (.bare (.symbol "a")) "b")) "c"))
    "d")

/-- Two declarations, of which the second reads a field of a field of a field of the first. -/
def Node.readsDeepField : Node :=
  .bare (.root "t" [.bare (.varDecl "a" true false none (some (.bare (.intLiteral 1)))),
    .bare (.varDecl "n" true false none (some .deepField))])

/-- Four nodes on the way down, and a unit that is not poisoned where two levels are allowed. -/
theorem readsDeepField_not_poisoned :
    Node.deepField.height = 4 ∧
      (FileRun.ofRoot .readsDeepField { maxDepth := 2 }).file.units.map (·.isPoisoned) =
        [false, false] := by
  decide +kernel

end SourceIr
