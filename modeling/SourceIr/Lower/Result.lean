import SourceIr.Lower.Monad

/-!
# Delivering values

How a value gets to its result location: in place, through a pointer that is asked for before the
value is computed, or by a store afterwards.
-/

namespace SourceIr.Lower

/-- The pointer that an expression writes its value through, if its location has one. -/
def resultPtr (loc : ResultLoc) (scope : ScopeId) (location : Option Location) :
    LowerM (Option InstId) :=
  match loc with
  | .existing ptr => return some ptr
  | .ret => some <$> emitGen .returnPtr scope location
  | .alloc => some <$> emitGen (.alloca none none false) scope location
  | .none | .discard => return none

/-- A location that all branches of an expression can share: storage is made only once. -/
def settle (loc : ResultLoc) (scope : ScopeId) (location : Option Location) :
    LowerM ResultLoc := do
  match loc with
  | .alloc =>
    match ← resultPtr loc scope location with
    | some ptr => return .existing ptr
    | none => return loc
  | _ => return loc

/-- Brings a value that has been computed to its location. -/
def deliver (value : InstId) (loc : ResultLoc) (scope : ScopeId) (location : Option Location) :
    LowerM InstId := do
  match loc with
  | .existing ptr =>
    let _ ← emitGen (.storePtr ptr value) scope location
    return value
  | .alloc =>
    match ← resultPtr loc scope location with
    | some ptr =>
      let _ ← emitGen (.storePtr ptr value) scope location
      return value
    | none => return value
  | .none | .discard | .ret => return value

/-- Emits an instruction and brings its value to a location. -/
def emitTo (kind : InstKind) (scope : ScopeId) (location : Option Location) (loc : ResultLoc) :
    LowerM InstId := do
  deliver (← emit kind scope location) loc scope location

end SourceIr.Lower
