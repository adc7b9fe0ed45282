import SourceIr.Text.Json.Record

/-!
# Handles

Instructions, blocks, scopes, variables and declarations are referred to by their position in the
list that holds them.  Each kind of handle is a type of its own.
-/

namespace SourceIr

/-- An instruction of a stream. -/
structure InstId where
  index : Nat
  deriving DecidableEq, Repr, Inhabited

namespace InstId

/-- The instruction as an operand. -/
def text (i : InstId) : String := s!"%{i.index}"

instance : Encode InstId := ⟨fun i => encode i.index⟩
instance : Decode InstId := ⟨fun value => (decode? value).map InstId.mk⟩

end InstId

/-- A basic block of a stream. -/
structure BlockId where
  index : Nat
  deriving DecidableEq, Repr, Inhabited

namespace BlockId

/-- The block that a stream starts in. -/
def entry : BlockId := ⟨0⟩

/-- The block as the target of a branch. -/
def text (b : BlockId) : String := s!"bb{b.index}"

instance : Encode BlockId := ⟨fun b => encode b.index⟩
instance : Decode BlockId := ⟨fun value => (decode? value).map BlockId.mk⟩

end BlockId

/-- A scope of a unit. -/
structure ScopeId where
  index : Nat
  deriving DecidableEq, Repr, Inhabited

namespace ScopeId

/-- The scope as it is shown. -/
def text (s : ScopeId) : String := s!"s{s.index}"

instance : Encode ScopeId := ⟨fun s => encode s.index⟩
instance : Decode ScopeId := ⟨fun value => (decode? value).map ScopeId.mk⟩

end ScopeId

/-- A variable of a unit. -/
structure VarId where
  index : Nat
  deriving DecidableEq, Repr, Inhabited

namespace VarId

/-- The variable as it is shown. -/
def text (v : VarId) : String := s!"v{v.index}"

instance : Encode VarId := ⟨fun v => encode v.index⟩
instance : Decode VarId := ⟨fun value => (decode? value).map VarId.mk⟩

end VarId

/-- A declaration of a file. -/
structure DeclId where
  index : Nat
  deriving DecidableEq, Repr, Inhabited

namespace DeclId

instance : Encode DeclId := ⟨fun d => encode d.index⟩
instance : Decode DeclId := ⟨fun value => (decode? value).map DeclId.mk⟩

end DeclId

end SourceIr
