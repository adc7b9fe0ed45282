import SourceIr.Syntax.Node.Reader
import SourceIr.Unit

/-!
# Files

A file is lowered declaration by declaration, in the order of the table.  What the table leaves
out, and what is no declaration, is reported and not lowered.

* `LoweredFile`, the units of a file with all diagnostics;
* `FileRun`, a file with the log of its lowering;
* `FileRun.ofRoot`, `FileRun.ofText?`.
-/

namespace SourceIr

/-- The units of a file. -/
structure LoweredFile where
  table : DeclTable
  units : List LoweredUnit
  /-- The diagnostics of the table, then those on what is no declaration, then those of the units
  in their order. -/
  diagnostics : List Message
  deriving Inhabited

namespace LoweredFile

/-- Whether some part of the file may not be used. -/
def isPoisoned (f : LoweredFile) : Bool :=
  f.units.any (·.isPoisoned) || f.diagnostics.any (·.isFatal)

/-- The first unit with this name. -/
def unit? (f : LoweredFile) (name : String) : Option LoweredUnit :=
  f.units.find? (·.name == name)

instance : Encode LoweredFile := ⟨fun f =>
  .obj [("decls", encode f.table), ("units", encode f.units),
    ("diagnostics", encode f.diagnostics)]⟩

end LoweredFile

/-- A file, and how its lowering went. -/
structure FileRun where
  file : LoweredFile
  log : List Event
  nodesMade : Nat
  fault? : Option Fault

namespace FileRun

/-- The diagnostic on a node that may not stand at the top level. -/
def strayNode (node : Node) : Message :=
  .ofKind .invalidConstruct s!"expected declaration at top level, found {node.kind.name}"
    "generate_module" node.location node.span

/-- The declarations of a table with the nodes they were made from. -/
def work (table : DeclTable) (roots : List Node) : List (Decl × Node) :=
  table.decls.toList.filterMap fun d => (table.node? d.id roots).map (d, ·)

/-- The log of a declaration's lowering. -/
def unitLog (decl : Decl) (run : UnitRun) : List Event :=
  .unitOpened decl.name decl.kind :: run.log ++
    [.unitClosed run.unit.name run.unit.stream.insts.size run.unit.isPoisoned]

/-- Lowers every declaration of a file. -/
def ofRoot (root : Node) (options : Options) : FileRun :=
  let (table, rejected) := DeclTable.ofRoot root
  let stray := (root.topLevel.filter (!·.kind.isDeclaration)).map strayNode
  let work := work table root.topLevel
  let generator : Generator := { table, options }
  let runs := work.map fun (decl, node) => (decl, generator.lowerDecl decl node)
  { file :=
      { table
        units := runs.map (·.2.unit)
        diagnostics := rejected ++ stray ++ runs.flatMap (·.2.unit.stream.diagnostics) }
    log := .fileOpened work.length table.root options.parallel ::
      runs.flatMap fun (decl, run) => unitLog decl run
    nodesMade := runs.foldl (fun made run => made + run.2.nodesMade) 0
    fault? := (table.decls.toList.findSome? fun d => table.fault? d.id).or
      (runs.findSome? (·.2.fault?)) }

/-- Lowers the file whose syntax tree a text holds, with its nodes numbered from `start` on.  The
number for the next node is returned too. -/
def ofText? (text : String) (options : Options) (start : Nat) : Option (FileRun × Nat) := do
  let (root, next) ← Node.ofText? text start
  let run := ofRoot root options
  return (run, next + run.nodesMade)

end FileRun

end SourceIr
