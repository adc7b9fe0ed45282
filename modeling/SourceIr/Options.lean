import SourceIr.Text.Json.Record

/-!
# Options of the lowering

* `ErrorPolicy`: whether a unit is given up at its first fatal diagnostic, or the statements
  after the failed one are still lowered to collect more diagnostics;
* `Options`, its defaults, and its two readers from JSON.
-/

namespace SourceIr

/-- What the lowering of a unit does after a fatal diagnostic. -/
inductive ErrorPolicy where
  | abort
  | proceed
  deriving DecidableEq, Repr, Inhabited

namespace ErrorPolicy

/-- The name of the policy in data. -/
def name : ErrorPolicy → String
  | abort => "abort"
  | proceed => "continue"

/-- The name of the policy in a listing of the options. -/
def title : ErrorPolicy → String
  | abort => "Abort"
  | proceed => "Continue"

/-- The policy that has this name, exactly as written. -/
def ofName? : String → Option ErrorPolicy
  | "abort" | "abortunit" => some abort
  | "continue" | "continuesiblings" => some proceed
  | _ => none

/-- The policy that a user asks for, in ASCII letters of either case; the name in lower case if
there is none. -/
def ofText (text : String) : Except String ErrorPolicy :=
  let lower := String.ofList (text.toList.map Char.toLower)
  match ofName? lower with
  | some policy => .ok policy
  | none => .error lower

/-- The message for a name that no policy has. -/
def unknown (name : String) : String := s!"unknown error policy '{name}'"

instance : Encode ErrorPolicy := ⟨fun p => .str p.name⟩

instance : Decode ErrorPolicy := ⟨fun value => do
  let (name, body) ← value.variant?
  if Json.isUnit body then ofName? name else none⟩

end ErrorPolicy

/-- The options of the lowering. -/
structure Options where
  errorPolicy : ErrorPolicy := .abort
  /-- How many frames a diagnostic names at most. -/
  callStackLimit : Nat := 10
  /-- How deeply expressions may be nested. -/
  maxDepth : Nat := 256
  /-- Whether units may be lowered at the same time; the result does not depend on it. -/
  parallel : Bool := true
  /-- Whether a statement without effect is worth a warning. -/
  warnNoEffect : Bool := true
  deriving DecidableEq, Repr, Inhabited

namespace Options

/-- The names of the options. -/
def names : List String :=
  ["error_policy", "call_stack_limit", "max_depth", "parallel", "warn_no_effect"]

/-- The options from a record in which each of them may be left out. -/
def ofRecord? (r : Json.Record) : Option Options := do
  let d : Options := {}
  return {
    errorPolicy := ← r.defaulted "error_policy" d.errorPolicy
    callStackLimit := ← r.defaulted "call_stack_limit" d.callStackLimit
    maxDepth := ← r.defaulted "max_depth" d.maxDepth
    parallel := ← r.defaulted "parallel" d.parallel
    warnNoEffect := ← r.defaulted "warn_no_effect" d.warnNoEffect }

instance : Encode Options := ⟨fun o =>
  .obj [("error_policy", encode o.errorPolicy), ("call_stack_limit", encode o.callStackLimit),
    ("max_depth", encode o.maxDepth), ("parallel", encode o.parallel),
    ("warn_no_effect", encode o.warnNoEffect)]⟩

instance : Decode Options := ⟨fun value => do ofRecord? (← value.record? names)⟩

/-- The options with every unit lowered by itself. -/
def sequential (o : Options) : Options := { o with parallel := false }

/-- The options as a listing. -/
def listing (o : Options) : String :=
  s!"LowerOptions \x7b error_policy: {o.errorPolicy.title}, " ++
    s!"call_stack_limit: {o.callStackLimit}, max_depth: {o.maxDepth}, " ++
    s!"parallel: {o.parallel}, warn_no_effect: {o.warnNoEffect} \x7d"

end Options

end SourceIr
