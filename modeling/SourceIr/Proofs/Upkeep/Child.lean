import SourceIr.Proofs.Upkeep.Basic
import SourceIr.Proofs.Verdict.Record

/-!
# The streams of compile-time blocks

Inside the stream of a compile-time block everything is evaluated at compile time, so that blocks
in it are lowered in place: streams are nested once, and no more.  Where all blocks return, each of
their streams is evaluated once, in the order in which the streams are listed.  Where one fails, the
stream around it takes in the stream of the block and its errors, and is otherwise as it was.

* `Stream.Flat` and `Stream.Numbered`, the streams inside a stream;
* `Lower.nesting`, what routines do to them and to the open evaluations;
* `comptime_streams_nest`, units, and compile-time blocks that fail.
-/

namespace SourceIr

theorem CallStack.pop_push (s : CallStack) (f : Frame) : (s.push f).pop.2 = s := by
  simp [push, pop]

namespace Stream

/-- The streams inside are evaluated at compile time as a whole, no stream is inside of them, and a
stream that is evaluated so has no stream inside. -/
structure Flat (s : Stream) : Prop where
  leaf : s.isInline = true → s.children = []
  inside : ∀ c ∈ s.children, c.isInline = true ∧ c.children = []

/-- Each stream inside is evaluated once, in the order in which they are listed. -/
def Numbered (s : Stream) : Prop := s.embedded = List.range s.children.length

variable {s s' child : Stream}

theorem Flat.congr (h : s.Flat) (hi : s'.isInline = s.isInline) (hc : s'.children = s.children) :
    s'.Flat :=
  ⟨fun h' => hc ▸ h.leaf (hi ▸ h'), fun c hm => h.inside c (hc ▸ hm)⟩

theorem flat_new (name : String) (isInline : Bool) : (Stream.new name isInline).Flat :=
  ⟨fun _ => rfl, nofun⟩

theorem Flat.addChild (h : s.Flat) (hs : s.isInline = false) (hc : child.Flat)
    (hi : child.isInline = true) : (s.addChild child).2.Flat := by
  rw [addChild_eq]
  refine ⟨fun h' => absurd h' (by simp [hs]), fun c hm => ?_⟩
  rcases List.mem_append.1 hm with hm | hm
  · exact h.inside c hm
  · rw [List.mem_singleton.1 hm]
    exact ⟨hi, hc.leaf hi⟩

theorem numbered_new (name : String) (isInline : Bool) : (Stream.new name isInline).Numbered := rfl

theorem Numbered.congr (h : s.Numbered) (he : s'.embedded = s.embedded)
    (hc : s'.children = s.children) : s'.Numbered := by
  rw [Numbered, he, hc]
  exact h

/-- A stream is taken in, and then evaluated. -/
theorem Numbered.addChild (h : s.Numbered) (child : Stream) {scope : ScopeId}
    {location : Option Location} {isComptime isGen : Bool} :
    ((s.addChild child).2.withNext (.comptimeBlock s.children.length) scope location isComptime
      isGen).Numbered := by
  have hinsts : (s.addChild child).2.embedded = s.embedded := embedded_congr (by rw [addChild_eq])
  rw [Numbered, embedded_withNext, hinsts, h]
  simp [withNext, InstKind.unit?, List.range_succ]

/-- A stream whose errors are on record is taken in with its errors. -/
theorem Recorded.addChild_eq (h : Recorded child) : (s.addChild child).2 =
    { s with
      children := s.children ++ [child]
      isPoisoned := s.isPoisoned || child.isPoisoned
      errors := s.errors ++ child.errors } := by
  have herrors := errors_addChild (s := s) h.isPoisoned_iff
  have hpoisoned := isPoisoned_addChild (s := s) h.isPoisoned_iff
  rw [Stream.addChild_eq] at herrors hpoisoned ⊢
  rw [← herrors, ← hpoisoned]

end Stream

namespace Lower

variable {env : Env} {s s' t : State} {scope : ScopeId}

/-- What every routine keeps: the open evaluations, and that streams are nested once. -/
structure Tends (s s' : State) : Prop where
  calls : s'.calls = s.calls
  isInline : s'.stream.isInline = s.stream.isInline
  flat : s.stream.Flat → s'.stream.Flat

namespace Tends

theorem refl (s : State) : Tends s s := ⟨rfl, rfl, id⟩

theorem trans {s'' : State} (h : Tends s s') (h' : Tends s' s'') : Tends s s'' :=
  ⟨h'.calls.trans h.calls, h'.isInline.trans h.isInline, h'.flat ∘ h.flat⟩

theorem of_eq (hcalls : s'.calls = s.calls) (hinline : s'.stream.isInline = s.stream.isInline)
    (hchildren : s'.stream.children = s.stream.children) : Tends s s' :=
  ⟨hcalls, hinline, fun h => h.congr hinline hchildren⟩

/-- A frame that was pushed is popped. -/
theorem framed {frame : SourceIr.Frame} (h : Tends { s with calls := s.calls.push frame } t) :
    Tends s { t with calls := t.calls.pop.2 } where
  calls := by rw [h.calls, CallStack.pop_push]
  isInline := h.isInline
  flat := h.flat

/-- Around a stream that evaluates everything at compile time there is one that does not. -/
theorem around {node : Node} (hs : isComptimeIn s.stream s.scopes scope = false)
    (h : Tends (s.inBlock node scope) t) : Tends s ((s.opening scope .comptime).around t) where
  calls := h.calls
  isInline := by rw [State.around, Stream.addChild_eq]; rfl
  flat hf := hf.addChild (Bool.or_eq_false_iff.1 hs).1 (h.flat (Stream.flat_new _ _)) h.isInline

end Tends

/-- A routine keeps the open evaluations and nests streams once; if it returns, then what it has
taken in is evaluated once. -/
def nesting (env : Env) : Upkeep env where
  Ok s s' := Tends s s' ∧ (s.stream.Numbered → s'.stream.Numbered)
  Bad := Tends
  refl s := ⟨.refl s, id⟩
  trans h h' := ⟨h.1.trans h'.1, h'.2 ∘ h.2⟩
  before h h' := h.1.trans h'
  small h he := ⟨.of_eq h.calls h.isInline h.children, fun hn => hn.congr he h.children⟩
  warn := ⟨.of_eq rfl rfl rfl, fun h => h.congr rfl rfl⟩
  defer _ := ⟨.of_eq rfl rfl rfl, id⟩
  invalidate := .of_eq rfl rfl rfl
  lost _ := .refl _
  after h h' := h.trans (.of_eq h'.calls h'.isInline h'.children)
  mark h := h.trans (.of_eq rfl rfl rfl)
  resume _ h h' := h.trans h'.1
  again _ h h' := h.trans h'
  framed h := ⟨h.1.framed, h.2⟩
  framedBad h := h.framed
  evaluated _ hs _ h :=
    ⟨(h.1.around hs).trans (.of_eq rfl rfl rfl), fun hn => hn.addChild _⟩
  failed _ hs h := h.around hs

/-- What a compile-time block leaves behind that fails over a stream of its own: the stream, and its
errors. -/
structure State.TakesIn (s : State) (child : Stream) (s' : State) : Prop where
  stream : s'.stream =
    { s.stream with
      children := s.stream.children ++ [child]
      isPoisoned := s.stream.isPoisoned || child.isPoisoned
      errors := s.stream.errors ++ child.errors }
  isInline : child.isInline = true
  children : child.children = []
  sinks : s'.sinks = s.sinks
  streamRoot : s'.streamRoot = s.streamRoot
  calls : s'.calls = s.calls

theorem succeeds_deliver (value : InstId) (loc : ResultLoc) (location : Option Location) :
    Succeeds env s (deliver value loc scope location) := by
  cases loc with
  | existing ptr => exact succeeds_bind (succeeds_step (step_emitWith _ _ _ _ _)) fun _ _ => rfl
  | alloc =>
    refine succeeds_bind (succeeds_bind (succeeds_step (step_emitWith _ _ _ _ _)) fun _ _ => rfl)
      fun ptr _ => ?_
    cases ptr with
    | some ptr => exact succeeds_bind (succeeds_step (step_emitWith _ _ _ _ _)) fun _ _ => rfl
    | none => exact rfl
  | _ => exact rfl

theorem takesIn_of_poisoned {levels : Nat} {node expr : Node} {loc : ResultLoc}
    (hs : isComptimeIn s.stream s.scopes scope = false)
    (ho : outcome (lowerComptime (nested levels) node expr scope loc) env s =
      (.error .poisoned, s')) : ∃ child, s.TakesIn child s' := by
  have h := comptimeEnd_lowerComptime (nested levels) node expr scope loc env s
  generalize outcome (lowerComptime (nested levels) node expr scope loc) env s = o at h ho
  cases h with
  | fault => cases ho
  | inPlace _ h =>
    rw [hs] at h
    cases h
  | @failed t _ _ hx =>
    obtain ⟨-, rfl⟩ := Prod.mk.inj ho
    have htends : Tends (s.inBlock node scope) t := by
      have hbody : (nesting env).Holds (s.inBlock node scope)
          (framedBody (nested levels) node expr s.top) :=
        Upkeep.holds_framedBody ((nesting env).relParts_nested levels)
      rwa [Upkeep.Holds, hx] at hbody
    have hrecorded : t.stream.Recorded := by
      have hbody : recording.Holds env (s.inBlock node scope)
          (framedBody (nested levels) node expr s.top) :=
        Drift.holds_withFrame fun s =>
          Comparison.rel_lowerComptimeBody _ _ (relParts_recording levels) _ s
      rw [Drift.Holds, hx] at hbody
      exact hbody (.new _ _)
    refine ⟨t.stream, hrecorded.addChild_eq, htends.isInline,
      (htends.flat (Stream.flat_new _ _)).leaf htends.isInline, rfl, rfl, htends.calls⟩
  | evaluated => exact absurd ho (succeeds_deliver _ _ _).ne_poisoned

end Lower

open Lower

/-- The streams inside that of a unit are evaluated at compile time as a whole, and no stream is
inside of them.  If the unit can be used, each of them is evaluated once, in the order in which they
are listed. -/
structure LoweredUnit.Nests (u : LoweredUnit) : Prop where
  inside : ∀ c ∈ u.stream.children, c.isInline = true ∧ c.children = []
  embedded : u.isPoisoned = false → u.stream.embedded = List.range u.stream.children.length

theorem UnitRun.LeftBy.nests {run : UnitRun} {env : Env} {s : State} {x : LowerM PUnit}
    (h : run.LeftBy env s x) (hf : run.fault? = none) : run.unit.Nests := by
  obtain ⟨t, hstream, -, hends⟩ := h.ends (nesting env)
  obtain ⟨name, isInline, hnew⟩ := h.stream
  have hflat : s.stream.Flat := hnew ▸ Stream.flat_new name isInline
  have hnumbered : s.stream.Numbered := hnew ▸ Stream.numbered_new name isInline
  rcases ho : run.outcome with (_ | f) | _ <;> rw [ho] at hends
  · refine ⟨(hstream ▸ hends.flat hflat).inside, fun hp => ?_⟩
    rw [LoweredUnit.isPoisoned, (h.failed ho).isPoisoned] at hp
    cases hp
  · rw [UnitRun.fault?, ho] at hf
    cases hf
  · exact ⟨(hstream ▸ hends.1.flat hflat).inside, fun _ => hstream ▸ hends.2 hnumbered⟩

/-- The streams of compile-time blocks are nested once and evaluated in their order, each once, in
every unit; and where the lowering of a compile-time block fails over a stream of its own, this
stream and its errors are all that it adds to the stream around it, and the sinks, the root of the
stream and the open evaluations are as they were. -/
theorem comptime_streams_nest :
    (∀ {node : Node} {run : UnitRun}, Lowering node run → run.unit.Nests) ∧
    (∀ (g : Generator) (node : Node) (scopes : ScopeTree) (scope : ScopeId) (name : String),
      (g.lowerIn node scopes scope name).fault? = none →
        (g.lowerIn node scopes scope name).unit.Nests) ∧
    ∀ {env : Env} {s s' : State} {levels : Nat} {node expr : Node} {scope : ScopeId}
      {loc : ResultLoc}, isComptimeIn s.stream s.scopes scope = false →
        outcome (lowerComptime (nested levels) node expr scope loc) env s =
          (.error .poisoned, s') → ∃ child, s.TakesIn child s' := by
  refine ⟨fun h => ?_, fun g node scopes scope name hf => ?_, takesIn_of_poisoned⟩
  · obtain ⟨env, s, x, hleft, -⟩ := h.exists_leftBy
    exact hleft.nests h.fault?_eq_none
  · obtain ⟨s, x, hleft⟩ := g.leftBy_lowerIn node name scopes scope
    exact hleft.nests hf

/-- A compile-time block that refers to a name without a meaning. -/
def Node.comptimeUnresolved : Node := .bare (.comptime (.bare (.symbol "x")))

/-- The state at the start of a function. -/
def Generator.bareStart : State :=
  Generator.bare.start (.new "f" false) (Generator.bare.unitScopes []).2 ⟨0⟩

theorem comptime_streams_nest_unresolved :
    (Generator.bare.lower Node.comptimeUnresolved).unit.Nests ∧
      ((Generator.bare.lowerIn .comptimeUnresolved (Generator.bare.unitScopes ["S"]).2 ⟨1⟩
        "e").fault? = none ∧
      (Generator.bare.lowerIn .comptimeUnresolved (Generator.bare.unitScopes ["S"]).2 ⟨1⟩
        "e").unit.Nests) ∧
      ∃ s' child, Generator.bareStart.TakesIn child s' := by
  have hin : (Generator.bare.lowerIn .comptimeUnresolved (Generator.bare.unitScopes ["S"]).2 ⟨1⟩
      "e").fault? = none := by decide +kernel
  have hfails : hasFailed (outcome (lowerComptime (nested 1) .comptimeUnresolved
      (.bare (.symbol "x")) ⟨0⟩ .none) ⟨.empty "", {}⟩ Generator.bareStart).1 = true := by
    decide +kernel
  exact ⟨comptime_streams_nest.1 (.alone .bare .comptimeUnresolved),
    ⟨hin, comptime_streams_nest.2.1 .bare _ _ _ _ hin⟩,
    _, comptime_streams_nest.2.2 (by decide +kernel) (Prod.ext (eq_of_hasFailed hfails) rfl)⟩

end SourceIr
