import SourceIr.Scope.Tree

/-!
# Jumps and deferred expressions

Where a `break` or a `continue` lands, and which `defer` statements a jump passes on its way
out.  Both walks go outward along the chain of scopes and end at the function.

* `ScopeTree.breakTarget`, `ScopeTree.continueTarget`;
* `ScopeTree.defersUntil`.
-/

namespace SourceIr

/-- Where a jump lands, or why it lands nowhere. -/
inductive JumpTarget where
  | found (scope : ScopeId)
  | notInLoop
  | unknownLabel (label : String)
  /-- A `continue` names a block. -/
  | labelNotLoop (label : String)
  /-- The jump would leave a deferred expression. -/
  | crossesDefer
  deriving DecidableEq, Repr

/-- The two kinds of jumps. -/
inductive JumpKind where
  | toBreak
  | toContinue
  deriving DecidableEq, Repr

instance : Encode JumpTarget := ⟨fun
  | .found scope => .wrapped "Found" (encode scope)
  | .notInLoop => .str "NotInLoop"
  | .unknownLabel label => .wrapped "UnknownLabel" (encode label)
  | .labelNotLoop label => .wrapped "LabelNotLoop" (encode label)
  | .crossesDefer => .str "CrossesDefer"⟩

namespace ScopeTree

/-- The answer when no scope on the way takes the jump. -/
def noTarget : Option String → JumpTarget
  | some label => .unknownLabel label
  | none => .notInLoop

/-- Where a jump lands, given the scopes on its way. -/
def jumpTargetIn (jump : JumpKind) (label : Option String) : List Scope → JumpTarget
  | [] => noTarget label
  | s :: outer =>
    match s.kind with
    | .deferredBody => .crossesDefer
    | .fnDef _ | .topLevel _ | .container _ => noTarget label
    | .loop own _ _ =>
      if label.isNone || own == label then .found s.id else jumpTargetIn jump label outer
    | .block (some own) _ =>
      if label == some own then
        match jump with
        | .toBreak => .found s.id
        | .toContinue => .labelNotLoop own
      else jumpTargetIn jump label outer
    | _ => jumpTargetIn jump label outer

/-- Where a `break` in a scope lands: at the innermost loop, or at the loop or block with the
label. -/
def breakTarget (t : ScopeTree) (s : ScopeId) (label : Option String) : JumpTarget :=
  jumpTargetIn .toBreak label (t.chain s)

/-- Where a `continue` in a scope lands: always at a loop. -/
def continueTarget (t : ScopeTree) (s : ScopeId) (label : Option String) : JumpTarget :=
  jumpTargetIn .toContinue label (t.chain s)

/-- The defer scopes among the scopes on the way out, up to a target or the function. -/
def defersIn (target : Option ScopeId) : List Scope → List (ScopeId × DeferKind)
  | [] => []
  | s :: outer =>
    if some s.id = target then []
    else
      match s.kind with
      | .deferred kind => (s.id, kind) :: defersIn target outer
      | .fnDef _ | .topLevel _ | .container _ => []
      | _ => defersIn target outer

/-- The defer scopes that a jump passes when it leaves a scope for the target, the innermost
first.  Without a target the function is left. -/
def defersUntil (t : ScopeTree) (s : ScopeId) (target : Option ScopeId) :
    List (ScopeId × DeferKind) :=
  defersIn target (t.chain s)

/-- Whether the way from a scope to a target, or to the function if there is none, goes out of
the scope `root`. -/
def leavesIn (root : ScopeId) (target : Option ScopeId) : List Scope → Bool
  | [] => false
  | s :: outer =>
    if some s.id = target then false
    else if target.isNone && s.kind.isFn then false
    else if s.id = root then true
    else leavesIn root target outer

/-- Whether a jump from a scope to a target goes out of the scope `root`. -/
def leaves (t : ScopeTree) (root s : ScopeId) (target : Option ScopeId) : Bool :=
  leavesIn root target (t.chain s)

end ScopeTree

end SourceIr
