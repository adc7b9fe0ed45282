import Mathlib.Tactic.CasesM
import SourceIr.Proofs.Syntax.Numbering
import SourceIr.Syntax.Node.Printer
import SourceIr.Syntax.Node.Shape

/-!
# Constructs as values of fields

A construct is written and read field by field, so it is its name with the values of its fields.
What is true of all constructs can be said of these values.

* `Kind.values`, the fields of a construct in their declared order;
* `FieldValue.nodesIn`, `FieldValue.number` and `FieldValue.toJson`, with the equations that say the
  same of a construct and of its values;
* `Kind.Form`, how a construct is written, and `Kind.ofFields?_values`;
* `Node.induct`, induction over a tree.
-/

namespace SourceIr

namespace FieldValue

variable {α : Type}

/-- A value that may be absent. -/
def ofOption (wrap : α → FieldValue) : Option α → FieldValue
  | none => .null
  | some a => wrap a

/-- The nodes of the trees in a value. -/
def nodesIn : FieldValue → List Node
  | .node n => n.nodes
  | .nodes ns => nodesOfList ns
  | .init i => i.nodesIn
  | .inits is => nodesOfInits is
  | _ => []

/-- The trees in a value. -/
def trees : FieldValue → List Node
  | .node n => [n]
  | .nodes ns => ns
  | .init i => [i.value]
  | .inits is => is.map (·.value)
  | _ => []

/-- The value with numbers by position. -/
def number (g : Nat → Nat) (start : Nat) : FieldValue → FieldValue
  | .node n => .node (n.number g start)
  | .nodes ns => .nodes (numberAll g start ns)
  | .init i => .init (i.number g start)
  | .inits is => .inits (numberInits g start is)
  | value => value

/-- The value as it is written. -/
def toJson : FieldValue → Json
  | .null => .null
  | .text s => encode s
  | .flag b => encode b
  | .int n => encode n
  | .float x => encode x
  | .node n => n.toJson
  | .nodes ns => .arr (nodesToJson ns)
  | .init i => i.toJson
  | .inits is => .arr (initsToJson is)
  | .binaryOperator op => encode op
  | .unaryOperator op => encode op
  | .callModifier m => encode m
  | .containerKind k => encode k
  | .deferKind k => encode k

/-- The shape of a value; `null` has every shape. -/
def shape? : FieldValue → Option Shape
  | .null => none
  | .text _ => some .text
  | .flag _ => some .flag
  | .int _ => some .int
  | .float _ => some .float
  | .node _ => some .node
  | .nodes _ => some .nodes
  | .init _ => some .init
  | .inits _ => some .inits
  | .binaryOperator _ => some .binaryOperator
  | .unaryOperator _ => some .unaryOperator
  | .callModifier _ => some .callModifier
  | .containerKind _ => some .containerKind
  | .deferKind _ => some .deferKind

/-- The nodes in the value of a field. -/
def nodesInField (field : String × FieldValue) : List Node := field.2.nodesIn

/-- The field with numbers by position. -/
def numberField (g : Nat → Nat) (start : Nat) (field : String × FieldValue) : String × FieldValue :=
  (field.1, field.2.number g start)

/-- The fields of a construct with numbers by position. -/
abbrev numberFields : (Nat → Nat) → Nat → List (String × FieldValue) → List (String × FieldValue) :=
  numberEach nodesInField numberField

theorem trees_ofOption (part : Option Node) :
    (ofOption .node part).trees = part.toList := by
  cases part <;> rfl

theorem trees_ofOption_text (part : Option String) :
    (ofOption .text part).trees = [] := by
  cases part <;> rfl

@[simp] theorem nodesIn_ofOption (part : Option Node) :
    (ofOption .node part).nodesIn = nodesOfOption part := by
  cases part <;> rfl

@[simp] theorem nodesIn_ofOption_text (part : Option String) :
    (ofOption .text part).nodesIn = [] := by
  cases part <;> rfl

@[simp] theorem number_ofOption (g : Nat → Nat) (start : Nat) (part : Option Node) :
    (ofOption .node part).number g start = ofOption .node (numberOption g start part) := by
  cases part <;> rfl

@[simp] theorem number_ofOption_text (g : Nat → Nat) (start : Nat) (part : Option String) :
    (ofOption .text part).number g start = ofOption .text part := by
  cases part <;> rfl

@[simp] theorem toJson_ofOption (part : Option Node) :
    (ofOption .node part).toJson = optionToJson part := by
  cases part <;> rfl

@[simp] theorem toJson_ofOption_text (part : Option String) :
    (ofOption .text part).toJson = encode part := by
  cases part <;> rfl

/-- A value that may stand where this shape is asked for. -/
def HasShape (value : FieldValue) (shape : Shape) : Prop := ∀ s ∈ value.shape?, s = shape

theorem hasShape_of_eq {value : FieldValue} {shape : Shape} (h : value.shape? = some shape) :
    value.HasShape shape := by
  rintro s hs
  exact Option.some.inj (hs.symm.trans h)

theorem hasShape_ofOption (part : Option Node) : (ofOption .node part).HasShape .node := by
  cases part
  · nofun
  · exact hasShape_of_eq rfl

theorem hasShape_ofOption_text (part : Option String) : (ofOption .text part).HasShape .text := by
  cases part
  · nofun
  · exact hasShape_of_eq rfl

end FieldValue

namespace Kind

open FieldValue (ofOption nodesInField numberField numberFields)

/-- The fields of a construct with their values, in their declared order. -/
def values : Kind → List (String × FieldValue)
  | .root name decls => [("name", .text name), ("decls", .nodes decls)]
  | .fnDecl name params returnType body isInline isExport =>
    [("name", .text name), ("params", .nodes params), ("return_type", ofOption .node returnType),
      ("body", ofOption .node body), ("is_inline", .flag isInline), ("is_export", .flag isExport)]
  | .param name typeExpr isComptime =>
    [("name", ofOption .text name), ("type_expr", ofOption .node typeExpr),
      ("is_comptime", .flag isComptime)]
  | .varDecl name isConst isComptime typeExpr init =>
    [("name", .text name), ("is_const", .flag isConst), ("is_comptime", .flag isComptime),
      ("type_expr", ofOption .node typeExpr), ("init", ofOption .node init)]
  | .testDecl name body => [("name", ofOption .text name), ("body", .node body)]
  | .containerDecl kind fields decls =>
    [("kind", .containerKind kind), ("fields", .nodes fields), ("decls", .nodes decls)]
  | .containerField name typeExpr defaultValue =>
    [("name", .text name), ("type_expr", ofOption .node typeExpr),
      ("default_value", ofOption .node defaultValue)]
  | .errorSetDecl members => [("members", .nodes members)]
  | .block label statements => [("label", ofOption .text label), ("statements", .nodes statements)]
  | .comptime expr => [("expr", .node expr)]
  | .deferred kind expr => [("kind", .deferKind kind), ("expr", .node expr)]
  | .ifThen condition payload thenBranch elseBranch =>
    [("condition", .node condition), ("payload", ofOption .text payload),
      ("then_branch", .node thenBranch), ("else_branch", ofOption .node elseBranch)]
  | .whileLoop label condition payload continueExpr body elseBranch isInline =>
    [("label", ofOption .text label), ("condition", .node condition),
      ("payload", ofOption .text payload), ("continue_expr", ofOption .node continueExpr),
      ("body", .node body), ("else_branch", ofOption .node elseBranch),
      ("is_inline", .flag isInline)]
  | .forLoop label iterable item index body elseBranch isInline =>
    [("label", ofOption .text label), ("iterable", .node iterable), ("item", .text item),
      ("index", ofOption .text index), ("body", .node body),
      ("else_branch", ofOption .node elseBranch), ("is_inline", .flag isInline)]
  | .breakTo label value => [("label", ofOption .text label), ("value", ofOption .node value)]
  | .continueTo label => [("label", ofOption .text label)]
  | .returnFrom value => [("value", ofOption .node value)]
  | .unreachable => []
  | .suspend body => [("body", ofOption .node body)]
  | .asm template isVolatile => [("template", .text template), ("is_volatile", .flag isVolatile)]
  | .assign target value => [("target", .node target), ("value", .node value)]
  | .assignOp op target value =>
    [("op", .binaryOperator op), ("target", .node target), ("value", .node value)]
  | .binaryOp op lhs rhs => [("op", .binaryOperator op), ("lhs", .node lhs), ("rhs", .node rhs)]
  | .unaryOp op operand => [("op", .unaryOperator op), ("operand", .node operand)]
  | .call callee args modifier =>
    [("callee", .node callee), ("args", .nodes args), ("modifier", .callModifier modifier)]
  | .builtinCall name args => [("name", .text name), ("args", .nodes args)]
  | .fieldAccess container field => [("container", .node container), ("field", .text field)]
  | .arrayAccess array index => [("array", .node array), ("index", .node index)]
  | .tryExpr expr => [("expr", .node expr)]
  | .catchExpr lhs payload rhs =>
    [("lhs", .node lhs), ("payload", ofOption .text payload), ("rhs", .node rhs)]
  | .structInit typeExpr fields =>
    [("type_expr", ofOption .node typeExpr), ("fields", .inits fields)]
  | .arrayInit typeExpr elements =>
    [("type_expr", ofOption .node typeExpr), ("elements", .nodes elements)]
  | .symbol name => [("name", .text name)]
  | .intLiteral value => [("value", .int value)]
  | .floatLiteral value => [("value", .float value)]
  | .stringLiteral value => [("value", .text value)]
  | .boolLiteral value => [("value", .flag value)]
  | .nullLiteral => []
  | .undefinedLiteral => []
  | .errorValue name => [("name", .text name)]

variable (kind : Kind) (g : Nat → Nat) (start : Nat)

/-- Below a construct are the nodes in its values. -/
theorem nodes_eq : kind.nodes = kind.values.flatMap nodesInField := by
  cases kind <;>
    simp only [nodes, values, List.flatMap_cons, List.flatMap_nil, nodesInField,
      FieldValue.nodesIn_ofOption, FieldValue.nodesIn_ofOption_text, List.append_nil,
      List.append_assoc] <;>
    simp [FieldValue.nodesIn]

theorem name_number : (kind.number g start).name = kind.name := by
  cases kind <;> rw [Kind.number] <;> rfl

theorem values_number : (kind.number g start).values = numberFields g start kind.values := by
  cases kind <;>
    simp only [Kind.number, values, numberEach, nodesInField, numberField,
      FieldValue.number_ofOption, FieldValue.number_ofOption_text, FieldValue.nodesIn_ofOption,
      FieldValue.nodesIn_ofOption_text] <;>
    rfl

/-- The fields of a construct are those that are listed for it. -/
structure Complete (kind : Kind) (shapes : List (String × Shape)) : Prop where
  distinct : (shapes.map (·.1)).Nodup
  names : kind.values.map (·.1) = shapes.map (·.1)
  shaped : ∀ field ∈ kind.values, ∃ shape, shapes.lookup field.1 = some shape ∧
    field.2.HasShape shape

/-- How a construct is written and put together again. -/
inductive Form (kind : Kind) : Prop
  /-- By its name alone. -/
  | bare (json : kind.toJson = .str kind.name) (fieldless : kind.values = [])
      (noShapes : shapes? kind.name = none) (whole : ofName? kind.name = some kind)
  /-- With its fields. -/
  | full (shapes : List (String × Shape)) (known : shapes? kind.name = some shapes)
      (complete : kind.Complete shapes)
      (json : kind.toJson = .variant kind.name (kind.values.map fun f => (f.1, f.2.toJson)))
      (whole : ofFields? kind.name ⟨kind.values, false⟩ = some kind)

/-- A construct is its name with the values of its fields. -/
theorem ofFields?_values {shapes : List (String × Shape)} (h : shapes? kind.name = some shapes) :
    ofFields? kind.name ⟨kind.values, false⟩ = some kind := by
  cases kind
  case unreachable | nullLiteral | undefinedLiteral => cases h
  all_goals
    clear h
    (try casesm* Option _) <;> rfl

theorem form : Form kind := by
  cases kind
  case unreachable | nullLiteral | undefinedLiteral =>
    exact .bare (by rw [toJson]; rfl) rfl rfl rfl
  all_goals
    refine .full _ rfl ⟨by decide, rfl, ?_⟩ ?_ (ofFields?_values _ rfl)
    · simp only [values, List.forall_mem_cons, List.not_mem_nil, false_imp_iff, implies_true,
        and_true]
      and_intros <;> first
        | exact ⟨_, rfl, FieldValue.hasShape_ofOption _⟩
        | exact ⟨_, rfl, FieldValue.hasShape_ofOption_text _⟩
        | exact ⟨_, rfl, FieldValue.hasShape_of_eq rfl⟩
    · simp only [toJson, values, List.map_cons, List.map_nil, FieldValue.toJson_ofOption,
        FieldValue.toJson_ofOption_text]
      rfl

variable {kind} in
theorem ext_values {other : Kind} (sameName : kind.name = other.name)
    (sameValues : kind.values = other.values) : kind = other := by
  cases kind.form <;> cases other.form <;> simp_all

end Kind

end SourceIr
