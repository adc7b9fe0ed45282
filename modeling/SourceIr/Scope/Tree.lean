import SourceIr.Decl.Table
import SourceIr.Fault
import SourceIr.Scope.Kind
import SourceIr.Scope.Variable

/-!
# The scopes of a unit

The scopes and the variables of a unit, in the order in which they are opened and declared.  A
scope is opened under an earlier one, so the walk outward from any scope ends.

* `Scope`, `ScopeTree`, `ScopeTree.openUnder`;
* `ScopeTree.chain`, the scopes from one outward, and `ScopeTree.fault?`, what can go wrong on the
  way;
* `ScopeTree.lookup`, what a name refers to; `ScopeTree.lookupDecl` and `ScopeTree.lookupAll`,
  the declarations and the variables alone;
* `ScopeTree.isForcedComptime` and the other questions that the chain answers.
-/

namespace SourceIr

/-- A scope. -/
structure Scope where
  id : ScopeId
  parent : Option ScopeId
  kind : ScopeKind
  /-- The variables in the order of their declaration. -/
  vars : Array VarId
  /-- The names of the variables with their variables, the newest first. -/
  names : List (String × VarId)
  deriving DecidableEq, Repr

instance : Encode Scope := ⟨fun s =>
  .obj [("id", encode s.id), ("parent", encode s.parent), ("kind", encode s.kind),
    ("vars", encode s.vars)]⟩

/-- The scopes and variables of a unit. -/
structure ScopeTree where
  scopes : Array Scope
  vars : Array Variable
  deriving Inhabited, DecidableEq, Repr

/-- What a name refers to. -/
inductive Resolved where
  | var (id : VarId)
  | decl (id : DeclId)
  deriving DecidableEq, Repr

namespace ScopeTree

/-- No scope. -/
def empty : ScopeTree := ⟨#[], #[]⟩

/-- The tree with one more scope. -/
def push (t : ScopeTree) (parent : Option ScopeId) (kind : ScopeKind) : ScopeId × ScopeTree :=
  let id : ScopeId := ⟨t.scopes.size⟩
  (id, { t with scopes := t.scopes.push ⟨id, parent, kind, #[], []⟩ })

/-- Opens an outermost scope. -/
def openTop (t : ScopeTree) (root : String) : ScopeId × ScopeTree :=
  t.push none (.topLevel root)

/-- Opens a scope under another. -/
def openUnder (t : ScopeTree) (parent : ScopeId) (kind : ScopeKind) : ScopeId × ScopeTree :=
  t.push (some parent) kind

/-- The scope behind a handle. -/
def scope? (t : ScopeTree) (s : ScopeId) : Option Scope := t.scopes[s.index]?

/-- The variable behind a handle. -/
def var? (t : ScopeTree) (v : VarId) : Option Variable := t.vars[v.index]?

/-- The scopes from the one at a position outward. -/
def chainAt (t : ScopeTree) (i : Nat) : List Scope :=
  match t.scopes[i]? with
  | none => []
  | some s =>
    match s.parent with
    | none => [s]
    | some parent => if parent.index < i then s :: t.chainAt parent.index else [s]

/-- The scopes from one outward, itself included. -/
def chain (t : ScopeTree) (s : ScopeId) : List Scope := t.chainAt s.index

/-- The breach on the walk outward from the scope at a position, if there is one. -/
def faultAt? (t : ScopeTree) (i : Nat) : Option Fault :=
  match t.scopes[i]? with
  | none => some (.outOfRange t.scopes.size i)
  | some s =>
    match s.parent with
    | none => none
    | some parent =>
      if parent.index < i then t.faultAt? parent.index
      else some (.outOfRange i parent.index)

/-- The breach on the walk outward from a scope, if there is one: a scope that is not there, or one
that was not opened under an earlier one. -/
def fault? (t : ScopeTree) (s : ScopeId) : Option Fault := t.faultAt? s.index

/-- The breach in looking at the variables that are visible in a scope, if there is one. -/
def varFault? (t : ScopeTree) (s : ScopeId) : Option Fault :=
  (((t.chain s).flatMap (·.vars.toList)).find? fun v => t.vars.size ≤ v.index).map fun v =>
    .outOfRange t.vars.size v.index

/-- The declaration that a name refers to as a member of the container of a scope. -/
def memberDecl? (s : Scope) (name : String) (table : DeclTable) : Option Decl :=
  match s.kind with
  | .container path => table.get? (DeclTable.qualified path name)
  | _ => none

/-- What a name refers to by one scope: its newest variable of that name, else the member of its
container. -/
def resolveIn (s : Scope) (name : String) (table : DeclTable) : Option Resolved :=
  match s.names.lookup name with
  | some v => some (.var v)
  | none => (memberDecl? s name table).map (.decl ·.id)

/-- What a name refers to in a scope: the innermost scope on the chain that knows it decides, and
after the last one the declarations of the file. -/
def lookup (t : ScopeTree) (s : ScopeId) (name : String) (table : DeclTable) : Option Resolved :=
  match (t.chain s).findSome? (resolveIn · name table) with
  | some r => some r
  | none => (table.get? name).map (.decl ·.id)

/-- The declaration that a name refers to in a scope, variables aside. -/
def lookupDecl (t : ScopeTree) (s : ScopeId) (name : String) (table : DeclTable) : Option Decl :=
  match (t.chain s).findSome? (memberDecl? · name table) with
  | some d => some d
  | none => table.get? name

/-- Whether a variable has this name. -/
def isNamed (t : ScopeTree) (name : String) (v : VarId) : Bool :=
  (t.var? v).any (·.name == some name)

/-- The variables of a name that are visible in a scope, innermost and newest first. -/
def lookupAll (t : ScopeTree) (s : ScopeId) (name : String) : List VarId :=
  ((t.chain s).flatMap fun sc => sc.vars.toList.reverse).filter (t.isNamed name)

/-- Whether everything in a scope is evaluated at compile time. -/
def isForcedComptime (t : ScopeTree) (s : ScopeId) : Bool :=
  (t.chain s).any (·.kind == .comptime)

/-- The scope of the function around a scope. -/
def enclosingFn (t : ScopeTree) (s : ScopeId) : Option ScopeId :=
  ((t.chain s).find? (·.kind.isFn)).map (·.id)

/-- The namespace around a scope. -/
def rootName (t : ScopeTree) (s : ScopeId) : Option String :=
  (t.chain s).findSome? fun sc =>
    match sc.kind with
    | .topLevel root => some root
    | _ => none

/-- Whether a scope of this kind lies between a scope and the function around it. -/
def within (t : ScopeTree) (s : ScopeId) (kind : ScopeKind) : Bool :=
  ((t.chain s).takeWhile (!·.kind.isFn)).any (·.kind == kind)

/-- Whether a scope belongs to a deferred expression. -/
def inDeferredBody (t : ScopeTree) (s : ScopeId) : Bool := t.within s .deferredBody

/-- Whether a scope belongs to the body of a `suspend`. -/
def inSuspend (t : ScopeTree) (s : ScopeId) : Bool := t.within s .suspend

instance : Encode ScopeTree := ⟨fun t =>
  .obj [("scopes", encode t.scopes), ("vars", encode t.vars)]⟩

end ScopeTree

end SourceIr
