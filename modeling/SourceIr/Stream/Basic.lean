import SourceIr.Diagnostic.Message
import SourceIr.Fault
import SourceIr.Inst.Basic

/-!
# Instruction streams

The instructions of a unit, grouped into basic blocks.  A stream only grows: instructions are
appended to the current block, blocks and the streams of nested compile-time blocks are added at
the end.  A fatal diagnostic poisons the stream for good; the first one recorded is the terminal
diagnostic.

* `BasicBlock`, `Stream`, `Stream.new`;
* `Stream.append`, which refuses an instruction that reads a later one: a `Fault`;
* `Stream.newBlock`, `Stream.goto`, `Stream.isTerminated` with `Stream.endFault?`;
* `Stream.invalidate`, `Stream.addWarning`, `Stream.addChild`, `Stream.diagnostics`.
-/

namespace SourceIr

/-- A basic block. -/
structure BasicBlock where
  id : BlockId
  name : String
  insts : Array InstId
  deriving DecidableEq, Repr, Inhabited

/-- The instructions of a unit, or of a compile-time block inside one. -/
structure Stream where
  name : String
  insts : Array Inst
  blocks : Array BasicBlock
  currentBlock : BlockId
  /-- The streams of the compile-time blocks inside. -/
  children : List Stream
  isPoisoned : Bool
  errors : Array Message
  warnings : Array Message
  /-- Whether everything in the stream is evaluated at compile time. -/
  isInline : Bool

namespace Stream

/-- A stream with an empty entry block. -/
def new (name : String) (isInline : Bool) : Stream where
  name := name
  insts := #[]
  blocks := #[⟨.entry, "entry", #[]⟩]
  currentBlock := .entry
  children := []
  isPoisoned := false
  errors := #[]
  warnings := #[]
  isInline := isInline

instance : Inhabited Stream := ⟨new "" false⟩

/-- The handle of the next instruction. -/
def next (s : Stream) : InstId := ⟨s.insts.size⟩

/-- The instruction behind a handle. -/
def inst? (s : Stream) (i : InstId) : Option Inst := s.insts[i.index]?

/-- The block behind a handle. -/
def block? (s : Stream) (b : BlockId) : Option BasicBlock := s.blocks[b.index]?

/-- The operand of an instruction that is not an earlier instruction of the stream, if there is
one. -/
def forward? (s : Stream) (kind : InstKind) : Option InstId :=
  kind.operands.find? fun operand => s.next.index ≤ operand.index

/-- A block with one more instruction. -/
def withInst (i : InstId) (b : BasicBlock) : BasicBlock :=
  { b with insts := b.insts.push i }

/-- Appends an instruction to the current block. -/
def append (s : Stream) (kind : InstKind) (scope : ScopeId) (location : Option Location)
    (isComptime isGen : Bool) : Except Fault (InstId × Stream) :=
  match s.forward? kind with
  | some operand => .error (.forwardOperand s.name operand s.next)
  | none =>
    if s.currentBlock.index < s.blocks.size then
      .ok (s.next,
        { s with
          insts := s.insts.push
            ⟨s.next, kind, s.currentBlock, scope, location, isComptime, isGen⟩
          blocks := s.blocks.modify s.currentBlock.index (withInst s.next) })
    else .error (.outOfRange s.blocks.size s.currentBlock.index)

/-- Adds an empty block. -/
def newBlock (s : Stream) (name : String) : BlockId × Stream :=
  let id : BlockId := ⟨s.blocks.size⟩
  (id, { s with blocks := s.blocks.push ⟨id, name, #[]⟩ })

/-- Makes a block the current one. -/
def goto (s : Stream) (b : BlockId) : Stream := { s with currentBlock := b }

/-- The last instruction of the current block. -/
def lastInBlock? (s : Stream) : Option Inst := do
  s.inst? (← (← s.block? s.currentBlock).insts.back?)

/-- The breach in looking at the end of the current block, if there is one. -/
def endFault? (s : Stream) : Option Fault :=
  match s.block? s.currentBlock with
  | none => some (.outOfRange s.blocks.size s.currentBlock.index)
  | some block =>
    match block.insts.back? with
    | none => none
    | some i =>
      if i.index < s.insts.size then none else some (.outOfRange s.insts.size i.index)

/-- Whether control does not go on from the end of the current block. -/
def isTerminated (s : Stream) : Bool :=
  s.lastInBlock?.any (·.kind.isNoreturn)

/-- The handle of the last instruction. -/
def last? (s : Stream) : Option InstId := s.insts.back?.map (·.id)

/-- Poisons the stream with a diagnostic. -/
def invalidate (s : Stream) (m : Message) : Stream :=
  { s with isPoisoned := true, errors := s.errors.push m }

/-- Records a warning. -/
def addWarning (s : Stream) (m : Message) : Stream :=
  { s with warnings := s.warnings.push m }

/-- Adds the stream of a nested compile-time block.  Its errors become errors of this stream. -/
def addChild (s child : Stream) : Nat × Stream :=
  let poisoned := if child.isPoisoned then child.errors.foldl invalidate s else s
  (s.children.length, { poisoned with children := s.children ++ [child] })

/-- The diagnostic that stands for the failure of the unit. -/
def terminalDiagnostic? (s : Stream) : Option Message := s.errors[0]?

mutual

/-- The warnings of a stream, then those of its children. -/
def allWarnings : Stream → List Message
  | ⟨_, _, _, _, children, _, _, warnings, _⟩ => warnings.toList ++ warningsOfAll children

/-- The warnings of all streams of a list. -/
def warningsOfAll : List Stream → List Message
  | [] => []
  | s :: rest => s.allWarnings ++ warningsOfAll rest

end

/-- The errors, those of the children included, then the warnings of the stream and of its
children. -/
def diagnostics (s : Stream) : List Message := s.errors.toList ++ s.allWarnings

end Stream

end SourceIr
