import SourceIr.Proofs.Stream.Graph

/-!
# What a stream remembers

A stream is written by a few operations, and the streams that it takes in are written by the same
ones before.  Nothing of that is taken back.  Its errors are copied outward when a stream is taken
in, and its warnings are gathered at the end; both ways each diagnostic comes out once.

* `Stream.Entry`, what was put on record, with `Stream.messagesIn`, all diagnostics in it;
* `Stream.Writes`, the operations that lead from one stream to another, and `Stream.Written`, the
  streams that they make;
* `Stream.Filed`, what the operations keep, with `Writes.filed`;
* `Stream.Written.keeps_record`, what holds of every stream that was written.
-/

namespace SourceIr.Stream

/-- What a diagnostic is to the stream that it is recorded in. -/
inductive Mark where
  | error
  | warning
  deriving DecidableEq, Repr

/-- What was put on record in a stream: a diagnostic of its own, or a stream that was taken in with
all that was on record in it. -/
inductive Entry where
  | own (mark : Mark) (m : Message)
  | child (c : Stream) (entries : List Entry)

mutual

/-- The diagnostics of an entry, those of the streams inside included. -/
def Entry.messages (mark : Mark) : Entry → List Message
  | .own mark' m => if mark' = mark then [m] else []
  | .child _ entries => messagesIn mark entries

/-- The diagnostics of a list of entries, in order. -/
def messagesIn (mark : Mark) : List Entry → List Message
  | [] => []
  | e :: rest => e.messages mark ++ messagesIn mark rest

end

/-- The errors that an entry adds to those of its stream: an error of its own, or the complete list
of the stream that was taken in. -/
def Entry.errors : Entry → List Message
  | .own .error m => [m]
  | .own .warning _ => []
  | .child c _ => c.errors.toList

/-- The stream that was taken in. -/
def Entry.child? : Entry → Option Stream
  | .own _ _ => none
  | .child c _ => some c

/-- The operations lead from one stream to another and put these entries on record.  A stream that
is taken in was written from its start before. -/
inductive Writes : Stream → List Entry → Stream → Prop
  | refl (s : Stream) : Writes s [] s
  | append {s a : Stream} {entries : List Entry} {kind : InstKind} {scope : ScopeId}
      {location : Option Location} {isComptime isGen : Bool} {r : InstId × Stream}
      (before : Writes s entries a)
      (done : a.append kind scope location isComptime isGen = .ok r) : Writes s entries r.2
  | newBlock {s a : Stream} {entries : List Entry} (name : String)
      (before : Writes s entries a) : Writes s entries (a.newBlock name).2
  | goto {s a : Stream} {entries : List Entry} {b : BlockId} (before : Writes s entries a)
      (block : b.index < a.blocks.size) : Writes s entries (a.goto b)
  | invalidate {s a : Stream} {entries : List Entry} (m : Message)
      (before : Writes s entries a) : Writes s (entries ++ [.own .error m]) (a.invalidate m)
  | addWarning {s a : Stream} {entries : List Entry} (m : Message)
      (before : Writes s entries a) : Writes s (entries ++ [.own .warning m]) (a.addWarning m)
  | addChild {s a c : Stream} {entries inner : List Entry} {name : String} {isInline : Bool}
      (before : Writes s entries a) (child : Writes (.new name isInline) inner c) :
      Writes s (entries ++ [.child c inner]) (a.addChild c).2

/-- The streams that the operations make from a new one, with what is on record in them. -/
def Written (entries : List Entry) (s : Stream) : Prop :=
  ∃ name isInline, Writes (.new name isInline) entries s

variable {s s' t c : Stream} {mark : Mark} {entries more inner : List Entry} {m : Message}

@[simp] theorem messagesIn_append :
    messagesIn mark (entries ++ more) = messagesIn mark entries ++ messagesIn mark more := by
  induction entries with
  | nil => rfl
  | cons e rest ih => rw [List.cons_append, messagesIn, ih, messagesIn, List.append_assoc]

@[simp] theorem messagesIn_own {mark' : Mark} :
    messagesIn mark [.own mark' m] = if mark' = mark then [m] else [] := List.append_nil _

@[simp] theorem messagesIn_child :
    messagesIn mark [.child c inner] = messagesIn mark inner := List.append_nil _

/-! ### What the operations keep -/

/-- What is on record shows in a stream. -/
structure Filed (entries : List Entry) (s : Stream) : Prop where
  coherent : s.Coherent
  isPoisoned : s.isPoisoned = true ↔ s.errors ≠ #[]
  errors : s.errors.toList = entries.flatMap Entry.errors
  allErrors : s.errors.toList = messagesIn .error entries
  allWarnings : s.allWarnings.Perm (messagesIn .warning entries)
  children : s.children = entries.filterMap Entry.child?
  /-- A failure inside is a failure of the stream. -/
  inside : ∀ c ∈ s.children, ∀ t, PartOf t c → t.isPoisoned = true → s.isPoisoned = true

theorem filed_new (name : String) (isInline : Bool) : Filed [] (new name isInline) where
  coherent := coherent_new name isInline
  isPoisoned := by simp [new]
  errors := rfl
  allErrors := rfl
  allWarnings := List.Perm.refl _
  children := rfl
  inside := nofun

namespace Filed

/-- What does not concern diagnostics may change. -/
theorem code (h : Filed entries s) (hc : s'.Coherent) (herrors : s'.errors = s.errors)
    (hpoisoned : s'.isPoisoned = s.isPoisoned) (hwarnings : s'.warnings = s.warnings)
    (hchildren : s'.children = s.children) : Filed entries s' where
  coherent := hc
  isPoisoned := by rw [hpoisoned, herrors, h.isPoisoned]
  errors := herrors ▸ h.errors
  allErrors := herrors ▸ h.allErrors
  allWarnings := by
    rw [allWarnings_eq, hwarnings, hchildren, ← allWarnings_eq]
    exact h.allWarnings
  children := hchildren.trans h.children
  inside := by
    rw [hchildren, hpoisoned]
    exact h.inside

theorem invalidate (h : Filed entries s) (m : Message) :
    Filed (entries ++ [.own .error m]) (s.invalidate m) where
  coherent := h.coherent.invalidate m
  isPoisoned := by simp [Stream.invalidate]
  errors := by simp [Stream.invalidate, h.errors, Entry.errors]
  allErrors := by simp [Stream.invalidate, h.allErrors]
  allWarnings := by
    rw [messagesIn_append, messagesIn_own, if_neg (by decide), List.append_nil, allWarnings_eq]
    exact allWarnings_eq s ▸ h.allWarnings
  children := by simp [Stream.invalidate, h.children, Entry.child?]
  inside _ _ _ _ _ := rfl

theorem addWarning (h : Filed entries s) (m : Message) :
    Filed (entries ++ [.own .warning m]) (s.addWarning m) where
  coherent := h.coherent.addWarning m
  isPoisoned := h.isPoisoned
  errors := by simp [Stream.addWarning, h.errors, Entry.errors]
  allErrors := by simp [Stream.addWarning, h.allErrors]
  allWarnings := by
    -- The warning goes behind those of the stream and before those of the streams inside.
    rw [messagesIn_append, messagesIn_own, if_pos rfl]
    refine List.Perm.trans ?_ (h.allWarnings.append_right [m])
    rw [allWarnings_eq, allWarnings_eq s, Stream.addWarning, Array.toList_push, List.append_assoc,
      List.append_assoc]
    exact List.perm_append_comm.append_left _
  children := by simp [Stream.addWarning, h.children, Entry.child?]
  inside := h.inside

/-- A stream with a failure inside is poisoned. -/
theorem isPoisoned_of_partOf (h : Filed entries s) (ht : PartOf t s)
    (hpoisoned : t.isPoisoned = true) : s.isPoisoned = true := by
  cases ht with
  | self => exact hpoisoned
  | child hc ht => exact h.inside _ hc t ht hpoisoned

theorem addChild (h : Filed entries s) (hc : Filed inner c) :
    Filed (entries ++ [.child c inner]) (s.addChild c).2 where
  coherent := h.coherent.addChild c
  isPoisoned := isPoisoned_addChild_iff hc.isPoisoned h.isPoisoned
  errors := by simp [errors_addChild hc.isPoisoned, h.errors, Entry.errors]
  allErrors := by simp [errors_addChild hc.isPoisoned, h.allErrors, hc.allErrors]
  allWarnings := by
    rw [allWarnings_addChild, messagesIn_append, messagesIn_child]
    exact h.allWarnings.append hc.allWarnings
  children := by simp [h.children, Entry.child?]
  inside k hk t ht hpoisoned := by
    rw [isPoisoned_addChild hc.isPoisoned, Bool.or_eq_true]
    rw [children_addChild] at hk
    rcases List.mem_append.1 hk with hk | hk
    · exact .inl (h.inside k hk t ht hpoisoned)
    · rw [List.mem_singleton.1 hk] at ht
      exact .inr (hc.isPoisoned_of_partOf ht hpoisoned)

end Filed

/-- Whatever is written, it shows what is on record. -/
theorem Writes.filed (h : Writes s more s') :
    ∀ {entries}, Filed entries s → Filed (entries ++ more) s' := by
  induction h with
  | refl s =>
    intro entries hs
    rwa [List.append_nil]
  | append before done ih =>
    intro entries hs
    obtain ⟨hd, -, rfl⟩ := append_eq_ok.1 done
    exact (ih hs).code ((ih hs).coherent.withNext hd) rfl rfl rfl rfl
  | newBlock name before ih =>
    intro entries hs
    exact (ih hs).code ((ih hs).coherent.newBlock name) rfl rfl rfl rfl
  | goto before hb ih =>
    intro entries hs
    exact (ih hs).code ((ih hs).coherent.goto hb) rfl rfl rfl rfl
  | invalidate m before ih =>
    intro entries hs
    exact List.append_assoc .. ▸ (ih hs).invalidate m
  | addWarning m before ih =>
    intro entries hs
    exact List.append_assoc .. ▸ (ih hs).addWarning m
  | addChild before child ih ihChild =>
    intro entries hs
    have hc := ihChild (filed_new _ _)
    exact List.append_assoc .. ▸ (ih hs).addChild hc

theorem Written.filed (h : Written entries s) : Filed entries s := by
  obtain ⟨name, isInline, h⟩ := h
  exact h.filed (filed_new name isInline)

/-- A stream that was taken in was written, and what is on record in it is as well. -/
theorem Writes.written_of_mem (h : Writes s more s') (hc : .child c inner ∈ more) :
    Written inner c := by
  induction h with
  | refl => cases hc
  | append _ _ ih => exact ih hc
  | newBlock _ _ ih => exact ih hc
  | goto _ _ ih => exact ih hc
  | invalidate m _ ih => exact ih (by simpa using hc)
  | addWarning m _ ih => exact ih (by simpa using hc)
  | addChild _ child ih _ =>
    rcases List.mem_append.1 hc with hc | hc
    · exact ih hc
    · obtain ⟨rfl, rfl⟩ := Entry.child.inj (List.mem_singleton.1 hc)
      exact ⟨_, _, child⟩

/-! ### What holds of a stream that was written -/

/-- The instructions and the diagnostics of a stream, by what is on record. -/
structure Kept (entries : List Entry) (s : Stream) : Prop where
  /-- An instruction stands at the position of its handle and reads earlier ones.  The block that
  it names lists it, and no other one does. -/
  inst : ∀ (i : Nat) (x : Inst), s.insts[i]? = some x →
    x.id = ⟨i⟩ ∧ (∀ d ∈ x.kind.operands, d.index < i) ∧
      ∃ k, s.block? x.block = some k ∧ x.id ∈ k.insts ∧ ∀ k' ∈ s.blocks, x.id ∈ k'.insts → k' = k
  /-- A block stands at the position of its handle and lists instructions that are there, the
  earlier ones first and each once. -/
  block : ∀ (b : Nat) (k : BasicBlock), s.blocks[b]? = some k →
    k.id = ⟨b⟩ ∧ (∀ i ∈ k.insts, i.index < s.insts.size) ∧
      k.insts.toList.Pairwise (·.index < ·.index)
  isPoisoned : s.isPoisoned = true ↔ s.errors ≠ #[]
  /-- Once it is poisoned it stays so, for the same reason. -/
  lasting : ∀ more s', Writes s more s' → s.isPoisoned = true →
    s'.isPoisoned = true ∧ s'.terminalDiagnostic? = s.terminalDiagnostic?
  /-- A failure inside, at whatever depth, is a failure of the stream. -/
  inside : ∀ t, PartOf t s → t.isPoisoned = true → s.isPoisoned = true
  /-- The streams inside were taken in in this order, each after it was written. -/
  children : s.children = entries.filterMap Entry.child? ∧
    ∀ c inner, .child c inner ∈ entries → Written inner c
  /-- The errors are those of the stream, with all errors of a stream inside where it was taken
  in. -/
  errors : s.errors.toList = entries.flatMap Entry.errors
  /-- Each error and each warning of the stream and of the streams inside is reported once, the
  errors first and in their order. -/
  diagnostics : ∃ warnings, s.diagnostics = messagesIn .error entries ++ warnings ∧
    warnings.Perm (messagesIn .warning entries)

/-- A list that names an instruction is that of its block. -/
theorem Coherent.exists_block (hs : s.Coherent) {i : Nat} {x : Inst} (hx : s.insts[i]? = some x) :
    ∃ k, s.block? x.block = some k ∧ x.id ∈ k.insts ∧
      ∀ k' ∈ s.blocks, x.id ∈ k'.insts → k' = k := by
  have hinst : s.inst? x.id = some x := by
    rw [(hs.inst i x hx).1]
    exact hx
  obtain ⟨k, hk, hmem⟩ := hs.lists_iff.2 ⟨x, hinst, rfl⟩
  refine ⟨k, hk, Array.mem_toList_iff.1 hmem, fun k' hk' hmem' => ?_⟩
  obtain ⟨b, hb⟩ := Array.mem_iff_getElem?.1 hk'
  obtain ⟨y, hy, hblock⟩ := hs.lists_iff.1 ⟨k', (show s.block? ⟨b⟩ = some k' from hb),
    Array.mem_toList_iff.2 hmem'⟩
  obtain rfl := Option.some.inj (hinst.symm.trans hy)
  rw [hblock] at hk
  exact Option.some.inj (hb.symm.trans hk)

/-- A block lists instructions that are there. -/
theorem Coherent.index_lt_of_mem (hs : s.Coherent) {b : BlockId} {k : BasicBlock} {i : InstId}
    (hk : s.block? b = some k) (hi : i ∈ k.insts) : i.index < s.insts.size := by
  obtain ⟨x, hx, -⟩ := hs.lists_iff.1 ⟨k, hk, Array.mem_toList_iff.2 hi⟩
  exact (Array.getElem?_eq_some_iff.1 hx).1

/-- Errors are only added behind those that are there. -/
theorem Filed.errors_append (h : Filed entries s) (hw : Writes s more s') :
    s'.errors.toList = s.errors.toList ++ more.flatMap Entry.errors := by
  rw [(hw.filed h).errors, List.flatMap_append, h.errors]

/-- A poisoned stream stays so, with the same first error. -/
theorem Filed.lasting (h : Filed entries s) (hw : Writes s more s') (hp : s.isPoisoned = true) :
    s'.isPoisoned = true ∧ s'.terminalDiagnostic? = s.terminalDiagnostic? := by
  have herrors := h.errors_append hw
  have hne : s.errors.toList ≠ [] := by simpa using h.isPoisoned.1 hp
  refine ⟨(hw.filed h).isPoisoned.2 fun hnil => ?_, ?_⟩
  · rw [hnil] at herrors
    exact hne (List.append_eq_nil_iff.1 herrors.symm).1
  · rw [terminalDiagnostic?, terminalDiagnostic?, ← Array.getElem?_toList, ← Array.getElem?_toList,
      herrors, List.getElem?_append_left (List.length_pos_iff.2 hne)]

/-- Every stream that was written, and every stream inside it, shows what is on record in it, and
goes on to do so. -/
theorem Written.keeps_record (h : Written entries s) : s.Kept entries := by
  have hs := h.filed
  refine ⟨fun i x hx => ?_, fun b k hk => ?_, hs.isPoisoned, fun more s' => hs.lasting,
    fun t ht => hs.isPoisoned_of_partOf ht, ⟨hs.children, fun c inner hc => ?_⟩, hs.errors,
    ⟨s.allWarnings, ?_, hs.allWarnings⟩⟩
  · obtain ⟨hid, -, hd⟩ := hs.coherent.inst i x hx
    exact ⟨hid, hd, hs.coherent.exists_block hx⟩
  · have hk' : s.block? ⟨b⟩ = some k := hk
    exact ⟨(hs.coherent.block b k hk).1, fun i => hs.coherent.index_lt_of_mem hk',
      hs.coherent.pairwise_insts hk'⟩
  · obtain ⟨name, isInline, hw⟩ := h
    exact hw.written_of_mem hc
  · rw [diagnostics, hs.allErrors]

/-- A stream with an error and a warning. -/
def spoiled (m w : Message) : Stream := ((new "inner" false).invalidate m).addWarning w

/-- A stream that such a one was taken into, with a warning from before. -/
def takesSpoiled (m w w' : Message) : Stream :=
  (((new "outer" false).addWarning w').addChild (spoiled m w)).2

theorem written_takesSpoiled (m w w' : Message) :
    Written [.own .warning w', .child (spoiled m w) [.own .error m, .own .warning w]]
      (takesSpoiled m w w') :=
  have inside : Writes (new "inner" false) [.own .error m, .own .warning w] (spoiled m w) :=
    ((Writes.refl _).invalidate m).addWarning w
  ⟨"outer", false, ((Writes.refl _).addWarning w').addChild inside⟩

theorem keeps_record_takesSpoiled :
    let s := takesSpoiled (.ofNote "fails" none) (.ofNote "odd" none) (.ofNote "early" none)
    s.isPoisoned = true ∧ ∃ warnings, s.diagnostics = .ofNote "fails" none :: warnings ∧
      warnings.Perm [.ofNote "early" none, .ofNote "odd" none] := by
  have kept := (written_takesSpoiled (.ofNote "fails" none) (.ofNote "odd" none)
    (.ofNote "early" none)).keeps_record
  have hinside := kept.inside (spoiled (.ofNote "fails" none) (.ofNote "odd" none))
    (.child (List.mem_singleton.2 rfl) (.self _)) rfl
  exact ⟨hinside, kept.diagnostics⟩

end SourceIr.Stream
