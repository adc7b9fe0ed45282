import SourceIr.Stream.Basic
import SourceIr.Inst.Json

/-!
# Streams as data

A stream is written with all its fields in their declared order, its children included.
-/

namespace SourceIr

instance : Encode BasicBlock := ⟨fun b =>
  .obj [("id", encode b.id), ("name", encode b.name), ("insts", encode b.insts)]⟩

namespace Stream

mutual

/-- A stream as data. -/
def toJson : Stream → Json
  | ⟨name, insts, blocks, current, children, isPoisoned, errors, warnings, isInline⟩ =>
    .obj [("name", encode name), ("insts", encode insts), ("blocks", encode blocks),
      ("current_block", encode current), ("children", .arr (listToJson children)),
      ("poisoned", encode isPoisoned), ("errors", encode errors), ("warnings", encode warnings),
      ("is_inline", encode isInline)]

/-- The streams of a list as data. -/
def listToJson : List Stream → List Json
  | [] => []
  | s :: rest => s.toJson :: listToJson rest

end

instance : Encode Stream := ⟨toJson⟩

end Stream

end SourceIr
