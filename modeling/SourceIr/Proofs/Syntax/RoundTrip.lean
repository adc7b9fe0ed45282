import Mathlib.Data.List.Nodup
import SourceIr.Proofs.Syntax.Accepted
import SourceIr.Proofs.Syntax.Regular
import SourceIr.Syntax.Node.Reader

/-!
# Reading what was written

A tree that a program can hold is read back from its JSON, with numbers that go on by position from
the number that the reader was given.

* `Json.record?_written`, a record of distinct names is given all its fields;
* `Reads`, a reader that gives a part back, with one lemma for each level of the text:
  `FieldValue.reads`, `Kind.reads` and `Node.reads`;
* `Node.read_written`, the tree that is read back, with its numbers;
* `Node.read_toJson`, the round trip from trees and from values.
-/

namespace SourceIr

namespace Json

variable {members : List (String × Json)}

/-- Among distinct names each has the one value that is given for it. -/
theorem slot?_of_mem (distinct : (members.map (·.1)).Nodup) {m : String × Json}
    (hm : m ∈ members) : slot? members m.1 = some (m.1, .given m.2) := by
  obtain ⟨before, after, rfl⟩ := List.append_of_mem hm
  rw [List.map_append, List.map_cons, List.nodup_middle, List.nodup_cons] at distinct
  have absent : ∀ other ∈ before ++ after, ¬ (other.1 == m.1) := fun other ho same =>
    distinct.1 (List.map_append ▸ List.mem_map.mpr ⟨other, ho, by simpa using same⟩)
  have noneBefore : before.filter (·.1 == m.1) = [] :=
    List.filter_eq_nil_iff.mpr fun other ho => absent other (List.mem_append_left _ ho)
  have noneAfter : after.filter (·.1 == m.1) = [] :=
    List.filter_eq_nil_iff.mpr fun other ho => absent other (List.mem_append_right _ ho)
  simp [slot?, named, List.filter_append, noneBefore, noneAfter]

/-- An object of distinct names is a record with these fields. -/
theorem record?_written (distinct : (members.map (·.1)).Nodup) :
    (Json.obj members).record? (members.map (·.1)) =
      some (members.map fun m => (m.1, .given m.2)) := by
  have each : ∀ part : List (String × Json), (∀ m ∈ part, m ∈ members) →
      (part.map (·.1)).mapM (slot? members) = some (part.map fun m => (m.1, .given m.2)) := by
    intro part
    induction part with
    | nil => exact fun _ => rfl
    | cons m rest ih =>
      intro h
      simp [slot?_of_mem distinct (h m List.mem_cons_self),
        ih fun n hn => h n (List.mem_cons_of_mem _ hn)]
  exact each members fun _ h => h

end Json

/-! ### Readers that number by position -/

section

variable {α : Type} (nodesIn : α → List Node) (number : (Nat → Nat) → Nat → α → α)

/-- The reader gives the part back, with numbers that go on by position. -/
def Reads (read : Numbering α) (part : α) : Prop := ∀ start,
  read.run start = some (number (fun p => p) start part, start + (nodesIn part).length)

variable {nodesIn number}

/-- Parts that are read one after another are read as a whole. -/
theorem Reads.cons {read : Numbering α} {readRest : Numbering (List α)} {part : α} {rest : List α}
    (first : Reads nodesIn number read part)
    (others : Reads (List.flatMap nodesIn) (numberEach nodesIn number) readRest rest) :
    Reads (List.flatMap nodesIn) (numberEach nodesIn number)
      (do let a ← read; return a :: (← readRest)) (part :: rest) := by
  intro start
  simp [first start, others _, numberEach, Nat.add_assoc]

end

/-- The value is read back at this shape. -/
abbrev FieldValue.Reads (shape : Shape) (value : FieldValue) : Prop :=
  SourceIr.Reads nodesIn number (Node.readValue shape value.toJson) value

theorem FieldValue.Reads.node {node : Node} (h : FieldValue.Reads .node (.node node)) :
    SourceIr.Reads Node.nodes Node.number
      (do Node.ofValue? (← Node.readValue .node node.toJson)) node := by
  intro start
  have whole := h start
  simp only [toJson] at whole
  simp [whole, number, nodesIn, Node.ofValue?]

theorem reads_nodes {nodes : List Node} (h : ∀ node ∈ nodes, FieldValue.Reads .node (.node node)) :
    Reads (List.flatMap Node.nodes) (numberEach Node.nodes Node.number)
      (Node.readNodes (nodesToJson nodes)) nodes := by
  induction nodes with
  | nil => exact fun _ => rfl
  | cons node rest ih =>
    have first := (h node List.mem_cons_self).node
    have others := ih fun n hn => h n (List.mem_cons_of_mem _ hn)
    simpa only [nodesToJson, Node.readNodes, bind_assoc] using first.cons others

theorem Node.finishInit_obj (name value : Json) (node : Node) :
    Node.finishInit (.obj [("name", name), ("value", value)]) node =
      (do return { name := ← (decode? name : Option String), value := node }) :=
  rfl

/-- A field initializer is read back once its value is. -/
theorem reads_init {init : FieldInit} (h : FieldValue.Reads .node (.node init.value)) :
    FieldValue.Reads .init (.init init) := by
  intro start
  obtain ⟨name, value⟩ := init
  have first := h start
  simp only [FieldValue.toJson, FieldValue.number, FieldValue.nodesIn] at first
  simp only [FieldValue.toJson, FieldInit.toJson]
  simp [Node.readValue, Node.valueAmong, first, Node.ofValue?, Node.finishInit_obj,
    Json.readsBack_text name, FieldValue.number, FieldInit.number, FieldValue.nodesIn,
    FieldInit.nodesIn]

theorem FieldValue.Reads.init {init : FieldInit} (h : FieldValue.Reads .init (.init init)) :
    SourceIr.Reads FieldInit.nodesIn FieldInit.number
      (do Node.initOfValue? (← Node.readValue .init init.toJson)) init := by
  intro start
  have whole := h start
  simp only [toJson] at whole
  simp [whole, number, nodesIn, Node.initOfValue?]

theorem reads_inits {inits : List FieldInit}
    (h : ∀ init ∈ inits, FieldValue.Reads .node (.node init.value)) :
    Reads (List.flatMap FieldInit.nodesIn) (numberEach FieldInit.nodesIn FieldInit.number)
      (Node.readInits (initsToJson inits)) inits := by
  induction inits with
  | nil => exact fun _ => rfl
  | cons init rest ih =>
    have first := (reads_init (h init List.mem_cons_self)).init
    have others := ih fun i hi => h i (List.mem_cons_of_mem _ hi)
    simpa only [initsToJson, Node.readInits, bind_assoc] using first.cons others

/-- A value without trees is read back at its shape. -/
theorem FieldValue.scalar?_toJson {shape : Shape} {value : FieldValue}
    (hs : value.shape? = some shape) (fits : value.IsWord)
    (scalar : shape ∉ [.node, .nodes, .init, .inits]) :
    shape.scalar? value.toJson = some value := by
  cases value with
  | null => cases hs
  | text s => cases hs; rfl
  | flag b => cases hs; rfl
  | float x => cases hs; rfl
  | int n => cases hs; simp [Shape.scalar?, toJson, Json.readsBack_int fits]
  | node | nodes | init | inits => cases hs; simp at scalar
  | binaryOperator op => cases hs; simp [Shape.scalar?, toJson, op.readsBack]
  | unaryOperator op => cases hs; simp [Shape.scalar?, toJson, op.readsBack]
  | callModifier m => cases hs; simp [Shape.scalar?, toJson, m.readsBack]
  | containerKind k => cases hs; simp [Shape.scalar?, toJson, k.readsBack]
  | deferKind k => cases hs; simp [Shape.scalar?, toJson, k.readsBack]

theorem FieldValue.reads_scalar {shape : Shape} {value : FieldValue}
    (hs : value.shape? = some shape) (fits : value.IsWord)
    (scalar : shape ∉ [.node, .nodes, .init, .inits])
    (plain : Node.readValue shape value.toJson = liftM (shape.scalar? value.toJson))
    (fixed : ∀ start, value.number (fun p => p) start = value) (none : value.nodesIn = []) :
    FieldValue.Reads shape value := by
  intro start
  rw [plain, scalar?_toJson hs fits scalar, fixed, none]
  rfl

/-- A value is read back at its shape once the trees in it are read back. -/
theorem FieldValue.reads {shape : Shape} {value : FieldValue} (hs : value.HasShape shape)
    (fits : value.IsWord) (parts : ∀ tree ∈ value.trees, FieldValue.Reads .node (.node tree)) :
    FieldValue.Reads shape value := by
  cases value with
  | null => exact fun _ => rfl
  | node n =>
    obtain rfl := hs _ rfl
    exact parts n (List.mem_singleton.mpr rfl)
  | nodes ns =>
    obtain rfl := hs _ rfl
    have whole : SourceIr.Reads _ _ (Node.readNodes (nodesToJson ns)) ns := reads_nodes parts
    intro start
    simp [toJson, Node.readValue, whole start, number, numberAll_eq, nodesIn, nodesOfList_eq]
  | init i =>
    obtain rfl := hs _ rfl
    exact reads_init (parts i.value (List.mem_singleton.mpr rfl))
  | inits is =>
    obtain rfl := hs _ rfl
    have whole := reads_inits fun i hi => parts i.value (List.mem_map_of_mem hi)
    intro start
    simp [toJson, Node.readValue, whole start, number, numberInits_eq, nodesIn, nodesOfInits_eq]
  | _ =>
    obtain rfl := hs _ rfl
    exact reads_scalar rfl fits (by decide) rfl (fun _ => rfl) rfl

/-- Fields that are read back each at the shape of its name are read back together. -/
theorem reads_members {shapes : List (String × Shape)} {fields : List (String × FieldValue)}
    (h : ∀ field ∈ fields, ∃ shape, shapes.lookup field.1 = some shape ∧ field.2.Reads shape) :
    Reads (List.flatMap FieldValue.nodesInField) FieldValue.numberFields
      (Node.readMembers shapes (fields.map fun f => (f.1, f.2.toJson))) fields := by
  induction fields with
  | nil => exact fun _ => rfl
  | cons field rest ih =>
    obtain ⟨shape, hShape, whole⟩ := h field List.mem_cons_self
    have first : Reads FieldValue.nodesInField FieldValue.numberField
        (do return (field.1, ← Node.readValue shape field.2.toJson)) field := by
      intro start
      simp [whole start, FieldValue.numberField, FieldValue.nodesInField]
    have others := ih fun f hf => h f (List.mem_cons_of_mem _ hf)
    simpa [Node.readMembers, hShape] using first.cons others

/-- A construct is read back once the trees in it are. -/
theorem Kind.reads {kind : Kind} (fits : ∀ field ∈ kind.values, field.2.IsWord)
    (parts : ∀ tree ∈ kind.trees, FieldValue.Reads .node (.node tree)) :
    Reads Kind.nodes Kind.number (Node.readKind kind.toJson) kind := by
  intro start
  have sameName := kind.name_number (fun p => p) start
  have sameValues := kind.values_number (fun p => p) start
  rw [kind.nodes_eq]
  cases kind.form with
  | bare json fieldless noShapes whole =>
    have unchanged : kind.number (fun p => p) start = kind :=
      ext_values sameName (by rw [sameValues, fieldless]; rfl)
    rw [json, unchanged, fieldless]
    simp [Node.readKind, whole]
  | full shapes known complete json whole =>
    have members := reads_members fun field hf =>
      have ⟨shape, hShape, has⟩ := complete.shaped field hf
      ⟨shape, hShape, FieldValue.reads has (fits field hf) fun tree ht =>
        parts tree (List.mem_flatMap.mpr ⟨field, hf, ht⟩)⟩
    have again := (kind.number (fun p => p) start).ofFields?_values (sameName ▸ known)
    rw [sameName, sameValues] at again
    have names : (kind.values.map fun f => (f.1, f.2.toJson)).map (·.1) = shapes.map (·.1) := by
      rw [List.map_map]
      exact complete.names
    have record := Json.record?_written (names ▸ complete.distinct)
    rw [names] at record
    rw [json, Json.variant, Node.readKind]
    simp [known, record, members start, again]

/-! ### Trees -/

theorem Node.run_nextId (start : Nat) : Node.nextId.run start = some (start, start + 1) := rfl

theorem Node.ofRecord?_obj (kindJson location span : Json) (id : Nat) (kind : Kind) :
    Node.ofRecord? (.obj [("kind", kindJson), ("location", location), ("span", span)]) id kind =
      (do return { id, kind, location := ← decode? location, span := ← decode? span }) :=
  rfl

/-- A tree that a program can hold is read back. -/
theorem Node.reads {node : Node} (fits : node.Fits) : FieldValue.Reads .node (.node node) := by
  induction node using Node.induct with
  | step node ih =>
    obtain ⟨here, below⟩ := Node.fits_iff.mp fits
    have construct := Kind.reads here.values fun tree ht => ih tree ht (below tree ht)
    obtain ⟨id, kind, location, span⟩ := node
    have location := Json.readsBack_option fun l hl =>
      ⟨Location.readsBack (here.location l hl), nofun⟩
    have span := Json.readsBack_option fun s hs => ⟨Span.readsBack (here.span s hs), nofun⟩
    intro start
    simp [FieldValue.toJson, Node.toJson, Node.readValue, Node.kindAmong, construct start,
      Node.run_nextId, Node.ofRecord?_obj, location, span, FieldValue.number, Node.number,
      FieldValue.nodesIn, Node.nodes, Nat.add_assoc]

/-! ### Reading undoes writing -/

namespace Node

/-- A tree that a program can hold is read back with numbers that go on by position. -/
theorem read_written {tree : Node} (fits : tree.Fits) (start : Nat) :
    (read tree.toJson).run start =
      some (tree.number (fun p => p) start, start + tree.nodes.length) :=
  (Node.reads fits).node start

/-- The nodes of the tree that is read back are numbered one after the other. -/
theorem ids_number (tree : Node) (start : Nat) :
    (tree.number (fun p => p) start).nodes.map (·.id) = List.range' start tree.nodes.length := by
  rw [tree.regular.ids, List.map_id']

/-- Reading undoes writing, up to the numbers of the nodes.  Every tree whose lines, columns and
integers are words is read back from its JSON; the new numbers start at the one that the reader is
given and go up by one from node to node, each node after those below it.  Every tree that is read
from any value at all is read back from its own JSON.  A double is a value of JSON by itself, so
nothing is asked of doubles here. -/
theorem read_toJson :
    (∀ tree : Node, tree.Fits → ∀ start, ∃ again,
      (read tree.toJson).run start = some (again, start + tree.nodes.length) ∧
      again.unnumbered = tree.unnumbered ∧
      again.nodes.map (·.id) = List.range' start tree.nodes.length ∧
      (again.nodes.map (·.id)).Pairwise (· < ·)) ∧
    ∀ (value : Json) (start : Nat) (tree : Node) (next : Nat),
      (read value).run start = some (tree, next) → ∀ start₂, ∃ again next₂,
        (read tree.toJson).run start₂ = some (again, next₂) ∧
        again.unnumbered = tree.unnumbered := by
  constructor
  · intro tree fits start
    refine ⟨_, read_written fits start, tree.unnumbered_number _ start, tree.ids_number start, ?_⟩
    rw [ids_number]
    exact List.pairwise_lt_range'
  · intro value start tree next accepted start₂
    have fits : tree.Fits := yields_read value accepted
    exact ⟨_, _, read_written fits start₂, tree.unnumbered_number _ start₂⟩

/-- A tree whose numbers are out of order, and a value with nodes that are given by position. -/
theorem read_toJson_return :
    let literal : Node := ⟨9, .intLiteral (-3), some ⟨"f", 2, 5⟩, none⟩
    let tree : Node := ⟨4, .returnFrom (some literal), none, none⟩
    let value : Json := .arr [.variant "Return" [("value", .arr [.str "NullLiteral"])]]
    tree.Fits ∧
    (∃ again, (read tree.toJson).run 7 = some (again, 7 + tree.nodes.length) ∧
      again.unnumbered = tree.unnumbered ∧
      again.nodes.map (·.id) = List.range' 7 tree.nodes.length ∧
      (again.nodes.map (·.id)).Pairwise (· < ·)) ∧
    ∃ given next, (read value).run 1 = some (given, next) ∧
      ∃ again next₂, (read given.toJson).run 7 = some (again, next₂) ∧
        again.unnumbered = given.unnumbered := by
  intro literal tree value
  have fits : tree.Fits := by
    intro node hn
    have either : node = literal ∨ node = tree := by
      simpa [tree, literal, Node.nodes, Kind.nodes, nodesOfOption] using hn
    obtain rfl | rfl := either
    · constructor
      · rintro _ ⟨⟩
        exact ⟨by decide, by decide⟩
      · rintro _ ⟨⟩
      · exact List.forall_mem_singleton.mpr (by decide : Word.isSigned (-3))
    · constructor
      · rintro _ ⟨⟩
      · rintro _ ⟨⟩
      · exact List.forall_mem_singleton.mpr trivial
  exact ⟨fits, read_toJson.1 tree fits 7, _, _, rfl, read_toJson.2 value 1 _ _ rfl 7⟩

end Node

end SourceIr
