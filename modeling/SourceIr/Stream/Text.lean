import SourceIr.Stream.Basic
import SourceIr.Inst.Text

/-!
# The text of streams

A stream is shown under a headline, block by block, with its children indented below it.  Empty
blocks are left out, except for the entry.
-/

namespace SourceIr.Stream

/-- A line behind a margin. -/
def line (margin : Nat) (text : String) : String :=
  String.ofList (List.replicate margin ' ') ++ text ++ "\n"

/-- The line above the blocks. -/
def headline (s : Stream) : String :=
  s!"unit {s.name}" ++ InstKind.remark s.isInline " [inline]" ++
    InstKind.remark s.isPoisoned " [poisoned]" ++ ":"

/-- The lines of a block. -/
def blockText (insts : Array Inst) (margin : Nat) (b : BasicBlock) : String :=
  if b.insts.isEmpty && b.id != .entry then ""
  else
    line (margin + 2) s!"{b.id.text} ({b.name}):" ++
      String.join (b.insts.toList.map fun i =>
        line (margin + 4) ((insts[i.index]?.map Inst.text).getD ""))

mutual

/-- The lines of a stream behind a margin. -/
def textAt (margin : Nat) : Stream → String
  | ⟨name, insts, blocks, current, children, isPoisoned, errors, warnings, isInline⟩ =>
    line margin
        (headline ⟨name, insts, blocks, current, children, isPoisoned, errors, warnings, isInline⟩) ++
      String.join (blocks.toList.map (blockText insts margin)) ++
      textOfAll (margin + 2) children

/-- The lines of all streams of a list. -/
def textOfAll (margin : Nat) : List Stream → String
  | [] => ""
  | s :: rest => s.textAt margin ++ textOfAll margin rest

end

/-- The lines of a stream. -/
def text (s : Stream) : String := s.textAt 0

end SourceIr.Stream
