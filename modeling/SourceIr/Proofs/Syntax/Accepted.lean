import Mathlib.Tactic.CasesM
import SourceIr.Proofs.Syntax.Regular
import SourceIr.Syntax.Node.Reader

/-!
# What the reader accepts

Every tree that is read is one that a program can hold: its lines, columns and integers were read
as words, and nothing else is made up but the defaults of fields.

* `Fields.Gives`, the values that a construct is made of, and `Kind.gives_of_ofFields?`;
* `Yields`, what holds of all that a reader gives, with one lemma for each part of the reader;
* `Node.fits_of_read`, the tree that is read from a value.
-/

namespace SourceIr

open FieldValue (ofOption)

namespace Fields

/-- The values that fields which were read give to a construct. -/
inductive Gives (fs : Fields) : FieldValue → Prop
  /-- The value that was read for a field. -/
  | read {name : String} {value : FieldValue} (h : fs.values.lookup name = some value) :
    Gives fs value
  /-- Nothing for an optional field. -/
  | absent : Gives fs .null
  /-- The defaults. -/
  | flag : Gives fs (.flag false)
  | nodes : Gives fs (.nodes [])
  | inits : Gives fs (.inits [])
  | modifier : Gives fs (.callModifier .auto)

variable {fs : Fields} {name : String}

theorem gives_value? {value : FieldValue} (h : fs.value? name = some value) : fs.Gives value := by
  unfold value? at h
  grind [Gives]

theorem gives_text {s : String} (h : fs.text name = some s) : fs.Gives (.text s) := by
  unfold text at h
  grind [Gives]

theorem gives_text? {o : Option String} (h : fs.text? name = some o) :
    fs.Gives (ofOption .text o) := by
  unfold text? at h
  grind [Gives, gives_value?, ofOption]

theorem gives_flag {b : Bool} (h : fs.flag name = some b) : fs.Gives (.flag b) := by
  unfold flag at h
  grind [Gives]

theorem gives_flagOrFalse {b : Bool} (h : fs.flagOrFalse name = some b) : fs.Gives (.flag b) := by
  unfold flagOrFalse at h
  grind [Gives]

theorem gives_node {n : Node} (h : fs.node name = some n) : fs.Gives (.node n) := by
  unfold node at h
  grind [Gives]

theorem gives_node? {o : Option Node} (h : fs.node? name = some o) :
    fs.Gives (ofOption .node o) := by
  unfold node? at h
  grind [Gives, gives_value?, ofOption]

theorem gives_nodes {ns : List Node} (h : fs.nodes name = some ns) : fs.Gives (.nodes ns) := by
  unfold nodes at h
  grind [Gives]

theorem gives_nodesOrNil {ns : List Node} (h : fs.nodesOrNil name = some ns) :
    fs.Gives (.nodes ns) := by
  unfold nodesOrNil at h
  grind [Gives]

theorem gives_initsOrNil {is : List FieldInit} (h : fs.initsOrNil name = some is) :
    fs.Gives (.inits is) := by
  unfold initsOrNil at h
  grind [Gives]

theorem gives_int {n : Int} (h : fs.int name = some n) : fs.Gives (.int n) := by
  unfold int at h
  grind [Gives]

theorem gives_float {x : Float} (h : fs.float name = some x) : fs.Gives (.float x) := by
  unfold float at h
  grind [Gives]

theorem gives_binaryOperator {op : BinaryOperator} (h : fs.binaryOperator name = some op) :
    fs.Gives (.binaryOperator op) := by
  unfold binaryOperator at h
  grind [Gives]

theorem gives_unaryOperator {op : UnaryOperator} (h : fs.unaryOperator name = some op) :
    fs.Gives (.unaryOperator op) := by
  unfold unaryOperator at h
  grind [Gives]

theorem gives_callModifierOrAuto {m : CallModifier} (h : fs.callModifierOrAuto name = some m) :
    fs.Gives (.callModifier m) := by
  unfold callModifierOrAuto at h
  grind [Gives]

theorem gives_containerKind {k : ContainerKind} (h : fs.containerKind name = some k) :
    fs.Gives (.containerKind k) := by
  unfold containerKind at h
  grind [Gives]

theorem gives_deferKind {k : DeferKind} (h : fs.deferKind name = some k) :
    fs.Gives (.deferKind k) := by
  unfold deferKind at h
  grind [Gives]

end Fields

theorem Kind.gives_of_ofFields? {name : String} {fs : Fields} {kind : Kind}
    (h : ofFields? name fs = some kind) : ∀ field ∈ kind.values, fs.Gives field.2 := by
  unfold ofFields? at h
  split at h
  all_goals try contradiction
  all_goals
    simp only [bind, pure, Option.bind_eq_some_iff, Option.some.injEq] at h
    casesm* ∃ _, _, _ ∧ _
    subst_vars
    simp only [values, List.forall_mem_cons, List.not_mem_nil, false_imp_iff, implies_true,
      and_true]
    and_intros <;> solve_by_elim [Fields.gives_text, Fields.gives_text?, Fields.gives_flag,
      Fields.gives_flagOrFalse, Fields.gives_node, Fields.gives_node?, Fields.gives_nodes,
      Fields.gives_nodesOrNil, Fields.gives_initsOrNil, Fields.gives_int, Fields.gives_float,
      Fields.gives_binaryOperator, Fields.gives_unaryOperator, Fields.gives_callModifierOrAuto,
      Fields.gives_containerKind, Fields.gives_deferKind]

/-! ### What a reader gives -/

/-- All that the reader gives has this property. -/
def Yields {α : Type} (read : Numbering α) (p : α → Prop) : Prop :=
  ∀ ⦃start a next⦄, read.run start = some (a, next) → p a

namespace Yields

variable {α β : Type} {p : α → Prop} {q : β → Prop}

theorem pure {a : α} (h : p a) : Yields (pure a) p := by
  rintro _ _ _ ⟨⟩
  exact h

theorem failure : Yields (failure : Numbering α) p := nofun

theorem lift {o : Option α} (h : ∀ a, o = some a → p a) : Yields (liftM o) p := by
  intro start a next run
  obtain ⟨b, found, same⟩ := Option.bind_eq_some_iff.mp run
  cases same
  exact h _ found

theorem bind {read : Numbering α} {f : α → Numbering β} (first : Yields read p)
    (rest : ∀ a, p a → Yields (f a) q) : Yields (read >>= f) q := by
  intro start b next run
  obtain ⟨⟨a, mid⟩, hRead, hRest⟩ := Option.bind_eq_some_iff.mp run
  exact rest a (first hRead) hRest

theorem any (read : Numbering α) : Yields read fun _ => True := fun _ _ _ _ => trivial

end Yields

/-- A value whose integer is a word and whose trees fit. -/
structure FieldValue.Fits (value : FieldValue) : Prop where
  word : value.IsWord
  trees : ∀ tree ∈ value.trees, tree.Fits

/-- A construct whose values fit. -/
def Kind.Fits (kind : Kind) : Prop := ∀ field ∈ kind.values, field.2.Fits

theorem Kind.fits_of_ofName? {name : String} {kind : Kind} (h : ofName? name = some kind) :
    kind.Fits := by
  unfold ofName? at h
  split at h <;> cases h <;> exact List.forall_mem_nil _

/-- A construct that is put together from values that fit. -/
theorem Kind.fits_of_ofFields? {name : String} {fs : Fields} {kind : Kind}
    (fits : ∀ field ∈ fs.values, field.2.Fits) (h : ofFields? name fs = some kind) : kind.Fits := by
  intro field hf
  have given := gives_of_ofFields? h field hf
  generalize field.2 = value at given
  cases given with
  | @read name _ found =>
    obtain ⟨before, after, whole, -⟩ := List.lookup_eq_some_iff.mp found
    exact fits (name, value) (by simp [whole])
  | _ => exact ⟨trivial, nofun⟩

theorem Node.fits_of_ofRecord? {value : Json} {id : Nat} {kind : Kind} {node : Node}
    (fits : kind.Fits) (h : ofRecord? value id kind = some node) : node.Fits := by
  obtain ⟨r, -, h⟩ := Option.bind_eq_some_iff.mp h
  obtain ⟨location, hLocation, h⟩ := Option.bind_eq_some_iff.mp h
  obtain ⟨span, hSpan, h⟩ := Option.bind_eq_some_iff.mp h
  cases h
  refine Node.fits_iff.mpr ⟨⟨?_, ?_, fun field hf => (fits field hf).word⟩, ?_⟩
  · rintro l rfl
    obtain ⟨_, read⟩ := Json.Record.exists_of_optionalOr hLocation
    exact Location.fits_of_decode? read
  · rintro s rfl
    obtain ⟨_, read⟩ := Json.Record.exists_of_optionalOr hSpan
    exact Span.fits_of_decode? read
  · intro tree ht
    obtain ⟨field, hf, ht⟩ := List.mem_flatMap.mp ht
    exact (fits field hf).trees tree ht

theorem Shape.fits_of_scalar? {shape : Shape} {value : Json} {v : FieldValue}
    (h : shape.scalar? value = some v) : v.Fits := by
  cases shape
  case int =>
    obtain ⟨n, read, rfl⟩ := Option.map_eq_some_iff.mp h
    exact ⟨Word.isSigned_of_decode? read, nofun⟩
  case node | nodes | init | inits => cases h
  all_goals
    obtain ⟨a, -, rfl⟩ := Option.map_eq_some_iff.mp h
    exact ⟨trivial, nofun⟩

theorem Node.fits_of_ofValue? {value : FieldValue} {node : Node} (fits : value.Fits)
    (h : ofValue? value = some node) : node.Fits := by
  cases value <;> cases h
  exact fits.trees _ (List.mem_singleton.mpr rfl)

theorem Node.fits_of_initOfValue? {value : FieldValue} {init : FieldInit} (fits : value.Fits)
    (h : initOfValue? value = some init) : init.value.Fits := by
  cases value <;> cases h
  exact fits.trees _ (List.mem_singleton.mpr rfl)

theorem Node.yields_finishInit {value : Json} {node : Node} (fits : node.Fits) :
    Yields (finishInit value node) fun init => FieldValue.Fits (.init init) := by
  refine .bind (.any _) fun r _ => .bind (.any _) fun name _ => .pure ⟨trivial, ?_⟩
  rintro _ (_ | ⟨_, ⟨⟩⟩)
  exact fits

/-! ### The reader, part by part -/

mutual

/-- A value that is read fits. -/
theorem yields_readValue (shape : Shape) :
    (value : Json) → Yields (Node.readValue shape value) FieldValue.Fits
  | .null => .pure ⟨trivial, nofun⟩
  | .arr items => by
    cases shape <;> simp only [Node.readValue]
    case node =>
      exact .bind (.any _) fun id _ => .bind (yields_readFirst items) fun kind fits =>
        .bind (.lift fun _ => Node.fits_of_ofRecord? fits) fun node fits =>
          .pure ⟨trivial, by simpa [FieldValue.trees] using fits⟩
    case init =>
      exact .bind (yields_readSecond items) fun node fits =>
        .bind (Node.yields_finishInit fits) fun init fits => .pure fits
    case nodes =>
      exact .bind (yields_readNodes items) fun nodes fits => .pure ⟨trivial, fits⟩
    case inits =>
      exact .bind (yields_readInits items) fun inits fits => .pure
        ⟨trivial, by simpa [FieldValue.trees] using fits⟩
    all_goals exact .failure
  | .obj members => by
    cases shape <;> simp only [Node.readValue]
    case node =>
      exact .bind (yields_kindAmong members) fun kind fits => .bind (.any _) fun id _ =>
        .bind (.lift fun _ => Node.fits_of_ofRecord? fits) fun node fits =>
          .pure ⟨trivial, by simpa [FieldValue.trees] using fits⟩
    case init =>
      exact .bind (yields_valueAmong members) fun node fits =>
        .bind (Node.yields_finishInit fits) fun init fits => .pure fits
    all_goals exact .lift fun _ => Shape.fits_of_scalar?
  | .bool _ | .int _ | .float _ | .str _ | .valueless => .lift fun _ => Shape.fits_of_scalar?

/-- The trees of a list that is read fit. -/
theorem yields_readNodes :
    (items : List Json) → Yields (Node.readNodes items) fun nodes => ∀ node ∈ nodes, node.Fits
  | [] => .pure (List.forall_mem_nil _)
  | item :: rest =>
    .bind (yields_readValue .node item) fun _ fits =>
      .bind (.lift fun _ => Node.fits_of_ofValue? fits) fun _ first =>
        .bind (yields_readNodes rest) fun _ others =>
          .pure (List.forall_mem_cons.mpr ⟨first, others⟩)

theorem yields_readInits :
    (items : List Json) → Yields (Node.readInits items) fun inits => ∀ init ∈ inits, init.value.Fits
  | [] => .pure (List.forall_mem_nil _)
  | item :: rest =>
    .bind (yields_readValue .init item) fun _ fits =>
      .bind (.lift fun _ => Node.fits_of_initOfValue? fits) fun _ first =>
        .bind (yields_readInits rest) fun _ others =>
          .pure (List.forall_mem_cons.mpr ⟨first, others⟩)

theorem yields_readFirst : (items : List Json) → Yields (Node.readFirst items) Kind.Fits
  | [] => .failure
  | item :: _ => yields_readKind item

theorem yields_readSecond : (items : List Json) → Yields (Node.readSecond items) Node.Fits
  | [_, item] =>
    .bind (yields_readValue .node item) fun _ fits => .lift fun _ => Node.fits_of_ofValue? fits
  | [] | [_] | _ :: _ :: _ :: _ => .failure

theorem yields_kindAmong :
    (members : List (String × Json)) → Yields (Node.kindAmong members) Kind.Fits
  | [] => .failure
  | (name, value) :: rest => by
    rw [Node.kindAmong]
    split
    · exact yields_readKind value
    · exact yields_kindAmong rest

theorem yields_valueAmong :
    (members : List (String × Json)) → Yields (Node.valueAmong members) Node.Fits
  | [] => .failure
  | (name, value) :: rest => by
    rw [Node.valueAmong]
    split
    · exact .bind (yields_readValue .node value) fun _ fits =>
        .lift fun _ => Node.fits_of_ofValue? fits
    · exact yields_valueAmong rest

/-- A construct that is read fits. -/
theorem yields_readKind : (value : Json) → Yields (Node.readKind value) Kind.Fits
  | .str _ => .lift fun _ => Kind.fits_of_ofName?
  | .obj [(_, .null)] => .lift fun _ => Kind.fits_of_ofName?
  | .obj [(_, .obj members)] =>
    .bind (.any _) fun shapes _ => .bind (.any _) fun _ _ =>
      .bind (yields_readMembers shapes members) fun _ fits =>
        .lift fun _ => Kind.fits_of_ofFields? fits
  | .obj [(_, .arr items)] =>
    .bind (.any _) fun shapes _ => .bind (.any _) fun _ _ =>
      .bind (yields_readItems shapes items) fun _ fits =>
        .lift fun _ => Kind.fits_of_ofFields? fits
  -- The first of several members is looked at before the others are found to be too many.
  | .obj ((_, value) :: _ :: _) => by cases value <;> exact .failure
  | .obj [] | .obj [(_, .bool _)] | .obj [(_, .int _)] | .obj [(_, .float _)]
  | .obj [(_, .str _)] | .obj [(_, .valueless)] | .null | .bool _ | .int _ | .float _ | .arr _
  | .valueless => .failure

theorem yields_readMembers (shapes : List (String × Shape)) :
    (members : List (String × Json)) →
      Yields (Node.readMembers shapes members) fun fields => ∀ field ∈ fields, field.2.Fits
  | [] => .pure (List.forall_mem_nil _)
  | (name, value) :: rest => by
    rw [Node.readMembers]
    split
    · exact .bind (yields_readValue _ value) fun _ first =>
        .bind (yields_readMembers shapes rest) fun _ others =>
          .pure (List.forall_mem_cons.mpr ⟨first, others⟩)
    · exact yields_readMembers shapes rest

theorem yields_readItems : (shapes : List (String × Shape)) → (items : List Json) →
    Yields (Node.readItems shapes items) fun fields => ∀ field ∈ fields, field.2.Fits
  | (_, shape) :: shapes, item :: rest =>
    .bind (yields_readValue shape item) fun _ first =>
      .bind (yields_readItems shapes rest) fun _ others =>
        .pure (List.forall_mem_cons.mpr ⟨first, others⟩)
  | [], [] | [], _ :: _ | _ :: _, [] => .pure (List.forall_mem_nil _)

end

/-- A tree that is read is one that a program can hold. -/
theorem Node.yields_read (value : Json) : Yields (Node.read value) Node.Fits :=
  .bind (yields_readValue .node value) fun _ fits => .lift fun _ => Node.fits_of_ofValue? fits

end SourceIr
