import Mathlib.Data.List.TakeWhile
import SourceIr.Proofs.Scope.Index
import SourceIr.Proofs.Scope.Jump

/-!
# Where a jump lands and what it passes

Two walks go outward from a scope.  One looks for the target of a jump and ends at a deferred
expression, a function, a container or the outermost scope; the other collects what is deferred and
does not end at a deferred expression.  As far as the first goes the second goes on the same way, so
that a jump and then the way out from its target pass what the way out passes at once.

* `ScopeTree.jumpPath`, the scopes that a jump can reach, and `ScopeTree.jumpScope?`, the first of
  them that it may be meant for;
* `jumpTargetIn_eq`, a jump by its path;
* `defersIn_append`, what is deferred on a part of the way;
* `ScopeTree.Built.jumps_and_defers`, how the two fit together;
* `ScopeTree.target?`, the first scope inside a root that a jump may be meant for.
-/

namespace SourceIr

namespace ScopeKind

/-- No jump gets to a scope of this kind, or beyond it. -/
def stopsJumps (kind : ScopeKind) : Bool := kind == .deferredBody || kind.endsJumps

/-- A jump may be meant for a scope of this kind: for a loop if it has no label, and for the loops
and blocks that carry its label if it has one. -/
def takesJump (label : Option String) : ScopeKind → Bool
  | loop own _ _ => label.isNone || own == label
  | block own _ => label.isSome && own == label
  | _ => false

/-- Whether the scope is that of a block. -/
def isBlock : ScopeKind → Bool
  | block _ _ => true
  | _ => false

end ScopeKind

/-- What is deferred at a scope. -/
def Scope.deferral? (x : Scope) : Option (ScopeId × DeferKind) :=
  match x.kind with
  | .deferred kind => some (x.id, kind)
  | _ => none

namespace ScopeTree

variable {t t' : ScopeTree} {s d root : ScopeId} {x : Scope} {label : Option String}
  {jump : JumpKind} {target : Option ScopeId} {scopes pre rest : List Scope}

/-- The scopes that a jump can reach, from one outward. -/
def jumpPath (t : ScopeTree) (s : ScopeId) : List Scope :=
  (t.chain s).takeWhile (!·.kind.stopsJumps)

/-- The first scope on its path that a jump may be meant for. -/
def jumpScope? (t : ScopeTree) (s : ScopeId) (label : Option String) : Option Scope :=
  (t.jumpPath s).find? (·.kind.takesJump label)

/-- It is a deferred expression that ends the path of a jump. -/
def CutByDefer (t : ScopeTree) (s : ScopeId) : Prop :=
  ∃ x, (t.chain s).find? (·.kind.stopsJumps) = some x ∧ x.kind = .deferredBody

/-! ### The target of a jump -/

/-- The answer to a jump that is meant for a scope. -/
def answerAt (jump : JumpKind) (label : Option String) (x : Scope) : JumpTarget :=
  match jump, label, x.kind with
  | .toContinue, some l, .block _ _ => .labelNotLoop l
  | _, _, _ => .found x.id

/-- The answer to a jump that is meant for no scope on its path, by the scope that ends it. -/
def answerBeyond (label : Option String) (stop : Option Scope) : JumpTarget :=
  match stop.map Scope.kind with
  | some .deferredBody => .crossesDefer
  | _ => noTarget label

/-- A jump is answered by the first scope on its path that it may be meant for. -/
theorem jumpTargetIn_eq (jump : JumpKind) (label : Option String) (scopes : List Scope) :
    jumpTargetIn jump label scopes =
      match (scopes.takeWhile (!·.kind.stopsJumps)).find? (·.kind.takesJump label) with
      | some x => answerAt jump label x
      | none => answerBeyond label (scopes.find? (·.kind.stopsJumps)) := by
  induction scopes with
  | nil => rfl
  | cons x outer ih =>
    cases hk : x.kind with
    | topLevel | fnDef | container | deferredBody =>
      simp [jumpTargetIn, hk, ScopeKind.stopsJumps, ScopeKind.endsJumps, answerBeyond]
    | comptime | deferred | errorHandling | suspend =>
      simp [jumpTargetIn, hk, ScopeKind.stopsJumps, ScopeKind.endsJumps, ScopeKind.takesJump, ih]
    | loop own =>
      rw [jumpTargetIn, hk]
      by_cases hown : (label.isNone || own == label) = true
      · simp [hk, ScopeKind.stopsJumps, ScopeKind.endsJumps, ScopeKind.takesJump, hown, answerAt]
      · simp only [Bool.not_eq_true] at hown
        simp [hk, ScopeKind.stopsJumps, ScopeKind.endsJumps, ScopeKind.takesJump, hown, ih]
    | block own =>
      cases own with
      | none =>
        cases label <;>
          simp [jumpTargetIn, hk, ScopeKind.stopsJumps, ScopeKind.endsJumps, ScopeKind.takesJump,
            ih]
      | some l =>
        rw [jumpTargetIn, hk]
        by_cases hown : label = some l
        · cases jump <;>
            simp [hk, ScopeKind.stopsJumps, ScopeKind.endsJumps, ScopeKind.takesJump, hown,
              answerAt]
        · have hown' : (some l == label) = false := by simpa using Ne.symm hown
          simp [hk, ScopeKind.stopsJumps, ScopeKind.endsJumps, ScopeKind.takesJump, hown, hown',
            ih]

theorem answerAt_toBreak : answerAt .toBreak label x = .found x.id := by
  cases label <;> rfl

/-- What a `continue` makes of the first scope that it may be meant for. -/
theorem answerAt_toContinue (hx : x.kind.takesJump label = true) :
    answerAt .toContinue label x = .found x.id ∧ x.kind.isBlock = false ∨
      ∃ l, label = some l ∧ answerAt .toContinue label x = .labelNotLoop l ∧
        x.kind.isBlock = true := by
  cases hk : x.kind <;> cases label <;>
    simp_all [answerAt, ScopeKind.takesJump, ScopeKind.isBlock]

theorem answerBeyond_ne_found {stop : Option Scope} : answerBeyond label stop ≠ .found d := by
  rw [answerBeyond]
  split
  · exact nofun
  · cases label <;> exact nofun

theorem answerBeyond_ne_labelNotLoop {stop : Option Scope} {l : String} :
    answerBeyond label stop ≠ .labelNotLoop l := by
  rw [answerBeyond]
  split
  · exact nofun
  · cases label <;> exact nofun

theorem answerBeyond_eq_crossesDefer_iff {stop : Option Scope} :
    answerBeyond label stop = .crossesDefer ↔ ∃ x, stop = some x ∧ x.kind = .deferredBody := by
  rw [answerBeyond]
  cases stop with
  | none => cases label <;> simp [noTarget]
  | some x =>
    cases hk : x.kind <;> cases label <;> simp [noTarget, hk]

/-- Only a deferred expression makes a difference to the answer. -/
theorem answerBeyond_eq_noTarget {stop : Option Scope}
    (h : ¬ ∃ x, stop = some x ∧ x.kind = .deferredBody) :
    answerBeyond label stop = noTarget label := by
  rw [answerBeyond]
  split
  next hk =>
    obtain ⟨x, hx, hk⟩ := Option.map_eq_some_iff.1 hk
    exact absurd ⟨x, hx, hk⟩ h
  next => rfl

theorem takesJump_of_jumpScope? (h : t.jumpScope? s label = some x) :
    x.kind.takesJump label = true :=
  List.find?_some (p := fun y : Scope => y.kind.takesJump label) h

theorem breakTarget_eq : t.breakTarget s label =
    match t.jumpScope? s label with
    | some x => .found x.id
    | none => answerBeyond label ((t.chain s).find? (·.kind.stopsJumps)) := by
  rw [breakTarget, jumpTargetIn_eq, jumpScope?, jumpPath]
  split
  · exact answerAt_toBreak
  · rfl

theorem continueTarget_eq : t.continueTarget s label =
    match t.jumpScope? s label with
    | some x => answerAt .toContinue label x
    | none => answerBeyond label ((t.chain s).find? (·.kind.stopsJumps)) := jumpTargetIn_eq _ _ _

/-! ### What is deferred on a way -/

/-- What is deferred on a part of the way comes before what is deferred on the rest. -/
theorem defersIn_append (h : ∀ y ∈ pre, some y.id ≠ target ∧ y.kind.endsJumps = false) :
    defersIn target (pre ++ rest) = pre.filterMap Scope.deferral? ++ defersIn target rest := by
  induction pre with
  | nil => rfl
  | cons x pre ih =>
    obtain ⟨hid, hkind⟩ := h x List.mem_cons_self
    have ih := ih fun y hy => h y (List.mem_cons_of_mem x hy)
    rw [List.cons_append, defersIn, if_neg hid, ih]
    cases hk : x.kind with
    | topLevel | fnDef | container => simp [hk, ScopeKind.endsJumps] at hkind
    | deferred kind =>
      rw [List.filterMap_cons_some (show x.deferral? = some (x.id, kind) by
        rw [Scope.deferral?, hk])]
      rfl
    | block | loop | comptime | deferredBody | errorHandling | suspend =>
      rw [List.filterMap_cons_none (by rw [Scope.deferral?, hk])]

/-- A walk outward does not come back to a scope. -/
theorem WellFormed.ne_of_chain_eq (ht : t.WellFormed) (hc : t.chain s = pre ++ x :: rest) :
    ∀ y ∈ pre, y.id ≠ x.id := by
  intro y hy hid
  obtain ⟨before, between, rfl⟩ := List.append_of_mem hy
  have hsplit : t.chain s = before ++ y :: (between ++ x :: rest) := by simpa using hc
  have hx := ht.chain_of_append hc
  have hy := ht.chain_of_append hsplit
  -- Both chains end in the same way, and one of them is longer.
  have hlen := congrArg List.length (hy.symm.trans ((congrArg t.chain hid).trans hx))
  simp only [List.length_cons, List.length_append] at hlen
  omega

/-- The way to the scope that a jump is meant for, and on. -/
theorem chain_eq_of_jumpScope? (h : t.jumpScope? s label = some x) :
    ∃ pre rest, t.chain s = pre ++ x :: rest ∧ (∃ more, t.jumpPath s = pre ++ x :: more) ∧
      ∀ y ∈ pre, y.kind.endsJumps = false := by
  obtain ⟨-, pre, more, hpath, -⟩ := List.find?_eq_some_iff_append.1 h
  refine ⟨pre, more ++ (t.chain s).dropWhile (!·.kind.stopsJumps), ?_, ⟨more, hpath⟩, ?_⟩
  · rw [← List.cons_append, ← List.append_assoc, ← hpath, jumpPath, List.takeWhile_append_dropWhile]
  · intro y hy
    have hmem : y ∈ t.jumpPath s := hpath ▸ List.mem_append_left _ hy
    have hgo := List.mem_takeWhile_imp hmem
    simp only [ScopeKind.stopsJumps, Bool.not_eq_true', Bool.or_eq_false_iff] at hgo
    exact hgo.2

/-- To leave a scope for the target of a jump and then the target passes what the way out of the
scope passes. -/
theorem WellFormed.defersUntil_of_jumpScope? (ht : t.WellFormed)
    (h : t.jumpScope? s label = some x) :
    t.defersUntil s none = t.defersUntil s (some x.id) ++ t.defersUntil x.id none ∧
      t.defersUntil s (some x.id) =
        ((t.jumpPath s).takeWhile (·.id != x.id)).filterMap Scope.deferral? := by
  obtain ⟨pre, rest, hchain, ⟨more, hpath⟩, hgo⟩ := chain_eq_of_jumpScope? h
  have hne := ht.ne_of_chain_eq hchain
  have hto : t.defersUntil s (some x.id) = pre.filterMap Scope.deferral? := by
    rw [defersUntil, hchain,
      defersIn_append fun y hy => ⟨fun e => hne y hy (Option.some.inj e), hgo y hy⟩, defersIn,
      if_pos rfl, List.append_nil]
  refine ⟨?_, ?_⟩
  · rw [hto, defersUntil, defersUntil, ht.chain_of_append hchain, hchain,
      defersIn_append fun y hy => ⟨Option.some_ne_none _, hgo y hy⟩]
  · rw [hto, hpath, List.takeWhile_append_of_pos (by simpa using hne),
      List.takeWhile_cons_of_neg (by simp), List.append_nil]

/-! ### How the two fit together -/

/-- Where the jumps from a scope with a label, or without one, lead, and what they pass. -/
structure Exits (t : ScopeTree) (s : ScopeId) (label : Option String) : Prop where
  /-- A `break` leads to the first scope that it may be meant for. -/
  found : ∀ d, t.breakTarget s label = .found d ↔ ∃ x, t.jumpScope? s label = some x ∧ x.id = d
  breakLabel : ∀ l, t.breakTarget s label ≠ .labelNotLoop l
  /-- A `continue` does not if this is a block, -/
  continueLabel : ∀ l, t.continueTarget s label = .labelNotLoop l ↔
    label = some l ∧ ∃ x, t.jumpScope? s label = some x ∧ x.kind.isBlock = true
  /-- and is answered like a `break` otherwise. -/
  agree : (∀ l, t.continueTarget s label ≠ .labelNotLoop l) →
    t.continueTarget s label = t.breakTarget s label
  /-- Where there is no such scope, the jump would leave a deferred expression or has no target. -/
  missing : t.jumpScope? s label = none →
    (t.breakTarget s label = .crossesDefer ↔ t.CutByDefer s) ∧
      (¬ t.CutByDefer s → t.breakTarget s label = noTarget label)
  /-- What is deferred inside the target comes first on the way out, and then what is deferred
  around it. -/
  twoSteps : ∀ d, t.breakTarget s label = .found d ∨ t.continueTarget s label = .found d →
    t.defersUntil s none = t.defersUntil s (some d) ++ t.defersUntil d none
  /-- On the way to a target one passes what is deferred on the path inside it. -/
  passed : ∀ d, t.breakTarget s label = .found d ∨ t.continueTarget s label = .found d →
    t.defersUntil s (some d) =
      ((t.jumpPath s).takeWhile (·.id != d)).filterMap Scope.deferral?

/-- A jump that leads somewhere leads to the first scope that it may be meant for. -/
theorem exists_jumpScope? (h : t.breakTarget s label = .found d ∨
    t.continueTarget s label = .found d) : ∃ x, t.jumpScope? s label = some x ∧ x.id = d := by
  rw [breakTarget_eq, continueTarget_eq] at h
  cases hx : t.jumpScope? s label with
  | none =>
    rw [hx] at h
    exact h.elim (absurd · answerBeyond_ne_found) (absurd · answerBeyond_ne_found)
  | some x =>
    rw [hx] at h
    refine ⟨x, rfl, ?_⟩
    rcases h with h | h
    · exact JumpTarget.found.inj h
    · rcases answerAt_toContinue (takesJump_of_jumpScope? hx) with ⟨hanswer, -⟩ | ⟨l, -, hanswer, -⟩
      · exact JumpTarget.found.inj (hanswer.symm.trans h)
      · cases hanswer.symm.trans h

theorem breakTarget_ne_labelNotLoop {l : String} : t.breakTarget s label ≠ .labelNotLoop l := by
  rw [breakTarget_eq]
  split
  · exact nofun
  · exact answerBeyond_ne_labelNotLoop

/-- A `continue` is refused where the scope that it may be meant for is a block. -/
theorem continueTarget_eq_labelNotLoop_iff {l : String} :
    t.continueTarget s label = .labelNotLoop l ↔
      label = some l ∧ ∃ x, t.jumpScope? s label = some x ∧ x.kind.isBlock = true := by
  rw [continueTarget_eq]
  cases hx : t.jumpScope? s label with
  | none => simp [answerBeyond_ne_labelNotLoop]
  | some x =>
    rcases answerAt_toContinue (takesJump_of_jumpScope? hx) with
      ⟨hanswer, hkind⟩ | ⟨m, rfl, hanswer, hkind⟩
    · simp [hanswer, hkind]
    · simp [hanswer, hkind]

/-- A `continue` that is not refused leads where a `break` leads. -/
theorem continueTarget_eq_breakTarget (h : ∀ l, t.continueTarget s label ≠ .labelNotLoop l) :
    t.continueTarget s label = t.breakTarget s label := by
  rw [continueTarget_eq] at h ⊢
  rw [breakTarget_eq]
  cases hx : t.jumpScope? s label with
  | none => rfl
  | some x =>
    rw [hx] at h
    rcases answerAt_toContinue (takesJump_of_jumpScope? hx) with ⟨hanswer, -⟩ | ⟨l, -, hanswer, -⟩
    · exact hanswer
    · exact absurd hanswer (h l)

/-- Whichever operations made the scopes, jumps lead to the first scope that they may be meant for,
and leaving in two steps runs the same deferred expressions as leaving at once. -/
theorem Built.jumps_and_defers (h : t.Built) (s : ScopeId) (label : Option String) :
    t.Exits s label := by
  have ht := h.listed.scopes
  refine ⟨fun d => ⟨fun hd => exists_jumpScope? (.inl hd), ?_⟩,
    fun l => breakTarget_ne_labelNotLoop, fun l => continueTarget_eq_labelNotLoop_iff,
    continueTarget_eq_breakTarget, fun hnone => ?_, fun d hd => ?_, fun d hd => ?_⟩
  · rintro ⟨x, hx, rfl⟩
    rw [breakTarget_eq, hx]
  · rw [breakTarget_eq, hnone]
    exact ⟨answerBeyond_eq_crossesDefer_iff, answerBeyond_eq_noTarget⟩
  · obtain ⟨x, hx, rfl⟩ := exists_jumpScope? hd
    exact (ht.defersUntil_of_jumpScope? hx).1
  · obtain ⟨x, hx, rfl⟩ := exists_jumpScope? hd
    exact (ht.defersUntil_of_jumpScope? hx).2

/-- A function that defers an expression, and a loop in it that defers another one. -/
def defersTwice : ScopeTree :=
  let body := ((ScopeTree.empty.openTop "t").2.openUnder ⟨0⟩ (.fnDef "f")).2
  let outside := (body.openUnder ⟨1⟩ (.deferred .normal)).2
  let loop := (outside.openUnder ⟨2⟩ (.loop (some "l") ⟨1⟩ ⟨2⟩)).2
  (loop.openUnder ⟨3⟩ (.deferred .error)).2

theorem built_defersTwice : defersTwice.Built :=
  have body := (Built.empty.openTop "t").openUnder (p := ⟨0⟩) (.fnDef "f") (by decide)
  have outside := body.openUnder (p := ⟨1⟩) (.deferred .normal) (by decide)
  have loop := outside.openUnder (p := ⟨2⟩) (.loop (some "l") ⟨1⟩ ⟨2⟩) (by decide)
  loop.openUnder (p := ⟨3⟩) (.deferred .error) (by decide)

theorem jumps_and_defers_defersTwice :
    defersTwice.breakTarget ⟨4⟩ (some "l") = .found ⟨3⟩ ∧
      defersTwice.defersUntil ⟨4⟩ (some ⟨3⟩) = [(⟨4⟩, .error)] ∧
      defersTwice.defersUntil ⟨4⟩ none = (⟨4⟩, .error) :: defersTwice.defersUntil ⟨3⟩ none := by
  have exits := built_defersTwice.jumps_and_defers ⟨4⟩ (some "l")
  have htarget : defersTwice.breakTarget ⟨4⟩ (some "l") = .found ⟨3⟩ := by decide +kernel
  have hpassed : defersTwice.defersUntil ⟨4⟩ (some ⟨3⟩) = [(⟨4⟩, .error)] := by
    rw [exits.passed ⟨3⟩ (.inl htarget)]
    decide +kernel
  refine ⟨htarget, hpassed, ?_⟩
  rw [exits.twoSteps ⟨3⟩ (.inl htarget), hpassed]
  rfl

/-! ### Targets inside a scope -/

/-- The first scope inside `root` that a jump may be meant for, with its kind. -/
def target? (t : ScopeTree) (root s : ScopeId) (label : Option String) :
    Option (ScopeId × ScopeKind) :=
  ((t.inside root s).takeWhile (!·.2.stopsJumps)).find? (·.2.takesJump label)

theorem Grows.target?_eq (h : t.Grows t') (hs : s.index < t.scopes.size) :
    t'.target? root s label = t.target? root s label := by
  rw [target?, h.inside_eq hs, target?]

/-- A scope that was just opened takes a jump, or leaves it to the scopes around it. -/
theorem target?_openUnder (hs : s.index < t.scopes.size) (hroot : root.index < t.scopes.size)
    (kind : ScopeKind) :
    (t.openUnder s kind).2.target? root ⟨t.scopes.size⟩ label =
      if kind.stopsJumps then none
      else if kind.takesJump label then some (⟨t.scopes.size⟩, kind)
      else t.target? root s label := by
  rw [target?, inside_openUnder hs hroot, List.takeWhile_cons]
  by_cases hstops : kind.stopsJumps = true
  · simp [hstops]
  · by_cases htakes : kind.takesJump label = true
    · simp [hstops, htakes]
    · simp [hstops, htakes, target?]

/-- No jump out of a scope has its target inside. -/
theorem target?_self (ht : t.WellFormed) (hs : s.index < t.scopes.size) :
    t.target? s s label = none := by
  rw [target?, inside_self ht hs]
  rfl

/-- On a way that does not leave `root` for its target, there is no `root` before the target. -/
theorem ne_of_leavesIn (h : leavesIn root (some x.id) (pre ++ x :: rest) = false)
    (hne : ∀ y ∈ pre, y.id ≠ x.id) : ∀ y ∈ pre, y.id ≠ root := by
  induction pre with
  | nil => exact fun _ hy => absurd hy List.not_mem_nil
  | cons z pre ih =>
    rw [List.cons_append, leavesIn, if_neg (by simpa using hne z List.mem_cons_self),
      if_neg (by simp)] at h
    split at h
    · cases h
    next hz =>
      intro y hy
      rcases List.mem_cons.1 hy with rfl | hy
      · exact hz
      · exact ih h (fun y hy => hne y (List.mem_cons_of_mem z hy)) y hy

/-- A jump that does not leave `root` leads to the first scope inside that it may be meant for. -/
theorem WellFormed.target?_of_found (ht : t.WellFormed)
    (h : t.breakTarget s label = .found d ∨ t.continueTarget s label = .found d)
    (hstays : t.leaves root s (some d) = false) (hne : d ≠ root) :
    ∃ x, t.scope? d = some x ∧ t.target? root s label = some (d, x.kind) := by
  obtain ⟨x, hx, rfl⟩ := exists_jumpScope? h
  obtain ⟨htakes, before, more, hpath, hbefore⟩ := List.find?_eq_some_iff_append.1 hx
  have hchain : t.chain s =
      before ++ x :: (more ++ (t.chain s).dropWhile (!·.kind.stopsJumps)) := by
    rw [← List.cons_append, ← List.append_assoc, ← hpath, jumpPath,
      List.takeWhile_append_dropWhile]
  refine ⟨x, ht.scope?_of_mem (by rw [hchain]; simp), ?_⟩
  have hroot := ne_of_leavesIn (by rwa [leaves, hchain] at hstays) (ht.ne_of_chain_eq hchain)
  have hgo : ∀ y ∈ before ++ [x], y.kind.stopsJumps = false := fun y hy => by
    have hmem : y ∈ t.jumpPath s := hpath ▸ List.mem_append.2 (by
      rcases List.mem_append.1 hy with hy | hy
      · exact .inl hy
      · exact .inr (by rw [List.mem_singleton.1 hy]; exact List.mem_cons_self))
    simpa using List.mem_takeWhile_imp hmem
  have hmiss : (before.map fun y => (y.id, y.kind)).find? (·.2.takesJump label) = none := by
    simpa using hbefore
  rw [target?, inside, links, hchain, List.map_append, List.map_cons,
    List.takeWhile_append_of_pos (by simpa using hroot),
    List.takeWhile_cons_of_pos (by simpa using hne),
    List.takeWhile_append_of_pos (by simpa using fun y hy => hgo y (by simp [hy])),
    List.takeWhile_cons_of_pos (by simpa using hgo x (by simp)), List.find?_append, hmiss,
    List.find?_cons_of_pos (by simpa using htakes)]
  rfl

end ScopeTree

end SourceIr
