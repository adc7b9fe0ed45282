import SourceIr.Handle
import SourceIr.Location

/-!
# Local variables

A variable of a unit, and the request that asks for one.  A variable that the user names is
checked against what its name already refers to; one that the lowering invents is not.
-/

namespace SourceIr

/-- Whether the value of a variable is known at compile time.  When that is open, the instruction
that decides it is named. -/
inductive ComptimeStatus where
  | known (isComptime : Bool)
  | pending (inst : InstId)
  deriving DecidableEq, Repr, Inhabited

namespace ComptimeStatus

/-- Whether the value is certain to be known at compile time. -/
def isKnownComptime : ComptimeStatus → Bool
  | known isComptime => isComptime
  | pending _ => false

instance : Encode ComptimeStatus := ⟨fun
  | known isComptime => .wrapped "Known" (encode isComptime)
  | pending inst => .wrapped "Pending" (encode inst)⟩

instance : Decode ComptimeStatus := ⟨fun value => do
  let (name, body) ← value.variant?
  match name with
  | "Known" => return known (← decode? (← body))
  | "Pending" => return pending (← decode? (← body))
  | _ => none⟩

end ComptimeStatus

/-- A request for a local variable. -/
structure BindingRequest where
  name : Option String
  location : Option Location
  /-- Whether the source declares a constant. -/
  srcIsConst : Bool
  /-- Whether the lowering treats it as a constant. -/
  genIsConst : Bool
  /-- Whether another shadowable variable may take the name in an inner scope. -/
  isShadowable : Bool
  comptime : ComptimeStatus
  /-- Whether the name is taken without any check. -/
  skipNameCheck : Bool
  deriving DecidableEq, Repr

namespace BindingRequest

/-- A constant that the user names. -/
def named (name : String) (location : Option Location) : BindingRequest where
  name := some name
  location := location
  srcIsConst := true
  genIsConst := true
  isShadowable := false
  comptime := .known false
  skipNameCheck := false

/-- A variable that the lowering invents. -/
def synthesized (name : Option String) (location : Option Location) : BindingRequest where
  name := name
  location := location
  srcIsConst := false
  genIsConst := false
  isShadowable := true
  comptime := .known false
  skipNameCheck := true

/-- The request for a variable of this constness. -/
def constness (r : BindingRequest) (src gen : Bool) : BindingRequest :=
  { r with srcIsConst := src, genIsConst := gen }

/-- The request for a variable whose name may or may not be taken in an inner scope. -/
def shadowable (r : BindingRequest) (isShadowable : Bool) : BindingRequest :=
  { r with isShadowable }

/-- The request for a variable of this compile-time status. -/
def withComptime (r : BindingRequest) (status : ComptimeStatus) : BindingRequest :=
  { r with comptime := status }

end BindingRequest

/-- A local variable. -/
structure Variable extends BindingRequest where
  id : VarId
  scope : ScopeId
  deriving DecidableEq, Repr

instance : Encode Variable := ⟨fun v =>
  .obj [("id", encode v.id), ("name", encode v.name), ("scope", encode v.scope),
    ("location", encode v.location), ("src_is_const", encode v.srcIsConst),
    ("gen_is_const", encode v.genIsConst), ("is_shadowable", encode v.isShadowable),
    ("comptime", encode v.comptime), ("skip_name_check", encode v.skipNameCheck)]⟩

end SourceIr
