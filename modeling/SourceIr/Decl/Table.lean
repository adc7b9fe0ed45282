import SourceIr.Decl.Primitive
import SourceIr.Diagnostic.Message
import SourceIr.Fault
import SourceIr.Syntax.Node

/-!
# The table of declarations

The declarations of a file, and those of the containers that they are initialized with, in the
order of the text.  A member of a container is named by its qualified path.  Functions, variables
and constants can be referred to by name; tests and compile-time blocks have a name only to tell
them apart.

* `Decl`, `DeclTable`, `DeclTable.insert`;
* `DeclTable.get?`, the declaration that a name refers to;
* `DeclTable.ofRoot`, the table of a file with the diagnostics for what it leaves out;
* `DeclTable.containersOf` and `DeclTable.node?`, the way from an entry back to the tree, and
  `DeclTable.fault?`, what can go wrong on it.
-/

namespace SourceIr

/-- The kinds of declarations. -/
inductive DeclKind where
  | fn | var | const | test | comptime
  deriving DecidableEq, Repr, Inhabited

namespace DeclKind

/-- Every kind. -/
def all : List DeclKind := [fn, var, const, test, comptime]

/-- The name of the kind. -/
def name : DeclKind → String
  | fn => "Fn"
  | var => "Var"
  | const => "Const"
  | test => "Test"
  | comptime => "Comptime"

/-- Whether code can refer to a declaration of this kind by its name. -/
def isReferenceable : DeclKind → Bool
  | fn | var | const => true
  | test | comptime => false

instance : Encode DeclKind := ⟨fun k => .str k.name⟩
instance : Decode DeclKind := ⟨Json.enumerated? all name⟩

end DeclKind

/-- A declaration. -/
structure Decl where
  id : DeclId
  /-- The name, qualified by the containers around it. -/
  name : String
  kind : DeclKind
  location : Option Location
  /-- The position among the declarations of the file or of the container. -/
  index : Nat
  /-- The declaration whose container this is a member of. -/
  parent : Option DeclId
  deriving DecidableEq, Repr, Inhabited

instance : Encode Decl := ⟨fun d =>
  .obj [("id", encode d.id), ("name", encode d.name), ("kind", encode d.kind),
    ("location", encode d.location), ("index", encode d.index), ("parent", encode d.parent)]⟩

namespace Node

/-- What tells an unnamed declaration apart: its position, or the number of its node. -/
def placeSuffix (node : Node) : String :=
  match node.location with
  | some l => l.position
  | none => toString node.id

/-- The name and the kind of a declaration, `none` for any other node. -/
def header? (node : Node) : Option (String × DeclKind) :=
  match node.kind with
  | .fnDecl name .. => some (name, .fn)
  | .varDecl name isConst .. => some (name, if isConst then .const else .var)
  | .testDecl name _ => some (name.getD s!"test:{node.placeSuffix}", .test)
  | .comptime _ => some (s!"comptime:{node.placeSuffix}", .comptime)
  | _ => none

/-- The member declarations of the container that a variable or constant is initialized with. -/
def members? (node : Node) : Option (List Node) :=
  match node.kind with
  | .varDecl _ _ _ _ (some ⟨_, .containerDecl _ _ decls, _, _⟩) => some decls
  | _ => none

end Node

/-- The declarations of one file. -/
structure DeclTable where
  /-- The name of the file's namespace. -/
  root : String
  decls : Array Decl
  deriving Inhabited

namespace DeclTable

/-- A table without declarations. -/
def empty (name : String) : DeclTable := ⟨name, #[]⟩

/-- The name of the member `name` of the container at `path`. -/
def qualified (path name : String) : String := s!"{path}.{name}"

/-- The table with one more declaration. -/
def push (t : DeclTable) (name : String) (kind : DeclKind) (location : Option Location)
    (index : Nat) (parent : Option DeclId) : DeclTable :=
  { t with decls := t.decls.push ⟨⟨t.decls.size⟩, name, kind, location, index, parent⟩ }

/-- The handle of the next declaration. -/
def next (t : DeclTable) : DeclId := ⟨t.decls.size⟩

/-- The declaration that a name refers to: the last one of this name that can be referred to. -/
def get? (t : DeclTable) (name : String) : Option Decl :=
  t.decls.toList.reverse.find? fun d => d.kind.isReferenceable && d.name == name

/-- Adds a declaration at the top level. -/
def insert (t : DeclTable) (name : String) (kind : DeclKind) (location : Option Location)
    (index : Nat) : DeclId × DeclTable :=
  (t.next, t.push name kind location index none)

/-- Adds the members of the container at `path`, those of their own containers included.  A
member whose name is taken is left out; the lowering of the container reports it. -/
def insertMembers (t : DeclTable) (parent : DeclId) (path : String) (index : Nat) :
    List Node → DeclTable
  | [] => t
  | node :: rest =>
    let added :=
      match node.header? with
      | none => t
      | some (name, kind) =>
        let name := qualified path name
        if kind.isReferenceable && (t.get? name).isSome then t
        else
          let inner := t.push name kind node.location index (some parent)
          match node with
          | ⟨_, .varDecl _ _ _ _ (some ⟨_, .containerDecl _ _ decls, _, _⟩), _, _⟩ =>
            inner.insertMembers t.next name 0 decls
          | _ => inner
    added.insertMembers parent path (index + 1) rest

/-- The diagnostic for a declaration that takes the name of a primitive type. -/
def primitiveCollision (node : Node) (name : String) : Message :=
  (Message.ofKind .nameCollision s!"declaration shadows primitive type '{name}'" "decl-table"
    node.location node.span).withNote
    (.ofNote "primitive type declared here" (some .builtin))

/-- The diagnostic for a declaration that takes the name of an earlier one. -/
def redefinition (node : Node) (name : String) (previous : Decl) : Message :=
  (Message.ofKind .nameCollision s!"redefinition of '{name}'" "decl-table"
    node.location node.span).withNote
    (.ofNote "previous definition here" previous.location)

/-- The diagnostic that keeps a declaration of the file out of the table, if there is one. -/
def rejection? (t : DeclTable) (node : Node) (name : String) (kind : DeclKind) :
    Option Message :=
  if !kind.isReferenceable then none
  else if isPrimitiveType name then some (primitiveCollision node name)
  else (t.get? name).map (redefinition node name)

/-- Adds a declaration of the file with its members, or reports why it is left out. -/
def insertTopLevel (t : DeclTable) (index : Nat) (node : Node) : DeclTable × Option Message :=
  match node.header? with
  | none => (t, none)
  | some (name, kind) =>
    match t.rejection? node name kind with
    | some m => (t, some m)
    | none =>
      let inner := t.push name kind node.location index none
      match node.members? with
      | some members => (inner.insertMembers t.next name 0 members, none)
      | none => (inner, none)

/-- Adds the declarations of the file from the one at `index` on. -/
def insertAll (t : DeclTable) (index : Nat) : List Node → DeclTable × List Message
  | [] => (t, [])
  | node :: rest =>
    let (t, message) := t.insertTopLevel index node
    let (t, messages) := t.insertAll (index + 1) rest
    (t, message.toList ++ messages)

/-- The namespace that a node opens when it is lowered as a file. -/
def namespaceOf (root : Node) : String :=
  match root.kind with
  | .root name _ => name
  | _ => "root"

/-- The table of a file, with a diagnostic for each declaration that it leaves out. -/
def ofRoot (root : Node) : DeclTable × List Message :=
  (empty (namespaceOf root)).insertAll 0 root.topLevel

/-- The declaration behind a handle. -/
def decl? (t : DeclTable) (id : DeclId) : Option Decl := t.decls[id.index]?

/-- The breach on the way from the declaration at a position to the outermost container around it,
if there is one. -/
def faultAt? (t : DeclTable) (i : Nat) : Option Fault :=
  match t.decls[i]? with
  | none => some (.outOfRange t.decls.size i)
  | some ⟨_, _, _, _, _, none⟩ => none
  | some ⟨_, _, _, _, _, some parent⟩ =>
    if parent.index < i then t.faultAt? parent.index
    else some (.outOfRange i parent.index)

/-- The breach on the way outward from a declaration, if there is one: a declaration that is not
there, or one that is not a member of an earlier one. -/
def fault? (t : DeclTable) (id : DeclId) : Option Fault := t.faultAt? id.index

/-- The ancestors of the declaration at a position, the nearest first. -/
def ancestorsAt (t : DeclTable) (i : Nat) : List Decl :=
  match t.decls[i]? with
  | some ⟨_, _, _, _, _, some parent⟩ =>
    if parent.index < i then
      (t.decls[parent.index]?).toList ++ t.ancestorsAt parent.index
    else []
  | _ => []

/-- The names of the containers around a declaration, outermost first. -/
def containersOf (t : DeclTable) (id : DeclId) : List String :=
  ((t.ancestorsAt id.index).map (·.name)).reverse

/-- The node of the declaration at a position, among the declarations of the file. -/
def nodeAt? (t : DeclTable) (roots : List Node) (i : Nat) : Option Node :=
  match t.decls[i]? with
  | none => none
  | some ⟨_, _, _, _, index, none⟩ => roots[index]?
  | some ⟨_, _, _, _, index, some parent⟩ =>
    if parent.index < i then do
      (← (← t.nodeAt? roots parent.index).members?)[index]?
    else none

/-- The node that a declaration was made from, among the declarations of the file. -/
def node? (t : DeclTable) (id : DeclId) (roots : List Node) : Option Node :=
  t.nodeAt? roots id.index

instance : Encode DeclTable := ⟨fun t =>
  .obj [("namespace", encode t.root), ("decls", encode t.decls)]⟩

end DeclTable

end SourceIr
