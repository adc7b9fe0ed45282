import SourceIr.Diagnostic.Report
import SourceIr.Options
import SourceIr.Text.Toml.Parser

/-!
# Options from a TOML file

Each option stands under its name at the top of the file, and what else stands there is not
looked at.

* `Options.ofToml?`, from the entries of a table, and `Options.ofTomlText?`, from a text;
* `Options.malformed`, the report on a text that is refused.
-/

namespace SourceIr

namespace Toml

/-- The value as a number of 64 bits without a sign. -/
def nat? : Toml → Option Nat
  | .int n => if 0 ≤ n then some n.toNat else none
  | _ => none

/-- The value as a flag. -/
def bool? : Toml → Option Bool
  | .bool b => some b
  | _ => none

/-- Whether a value holds nothing, as the body of a constant does. -/
def isVoid : Toml → Bool
  | .arr items => items.isEmpty
  | .tables items => items.isEmpty
  | .table _ entries => entries.isEmpty
  | _ => false

end Toml

/-- The policy that a value names: as a string, as the only entry of a table in braces, or as the
first entry of any other table. -/
def ErrorPolicy.ofToml? : Toml → Option ErrorPolicy
  | .str name => ofName? name
  | .table .inline [(name, body)] => if body.isVoid then ofName? name else none
  | .table .inline _ => none
  | .table _ ((name, body) :: _) => if body.isVoid then ofName? name else none
  | _ => none

namespace Options

/-- The option under a name, or its default. -/
def entryOr {α : Type} (read : Toml → Option α) (default : α) (name : String)
    (es : Toml.Entries) : Option α :=
  match es.lookup name with
  | some value => read value
  | none => some default

/-- The options from the entries of a table. -/
def ofToml? (es : Toml.Entries) : Option Options := do
  let d : Options := {}
  return {
    errorPolicy := ← entryOr ErrorPolicy.ofToml? d.errorPolicy "error_policy" es
    callStackLimit := ← entryOr Toml.nat? d.callStackLimit "call_stack_limit" es
    maxDepth := ← entryOr Toml.nat? d.maxDepth "max_depth" es
    parallel := ← entryOr Toml.bool? d.parallel "parallel" es
    warnNoEffect := ← entryOr Toml.bool? d.warnNoEffect "warn_no_effect" es }

/-- The options from the text of a file. -/
def ofTomlText? (text : String) : Option Options := do ofToml? (← Toml.parse? text)

/-- The report on a text that does not hold options. -/
def malformed : Issue where
  level := .error
  message := "invalid lowering options: the text is not a table of options"
  issuer := "astgen-config"
  span := none
  location := none

end Options

end SourceIr
