import SourceIr.Proofs.Flow.Statement
import SourceIr.Proofs.Stream.Graph

/-!
# Running a stream

A stream is a machine: it goes through the instructions of a block, up to the one that leads to
another block or out of the function.  As for statements, only calls and tests leave a trace.

* `Stream.fetch?`, `Stream.step`, `Stream.run`;
* `Walk`, the machine gets from one place to another, and `Silent`, without a trace;
* `Follows`, the machine does what the run of a statement does.
-/

namespace SourceIr

/-- A place in a stream: an instruction of a block, by its position there. -/
structure Pos where
  block : BlockId
  index : Nat
  deriving DecidableEq, Repr

namespace Pos

/-- The start of a block. -/
def start (b : BlockId) : Pos := ⟨b, 0⟩

/-- The place after the instruction. -/
def next (p : Pos) : Pos := { p with index := p.index + 1 }

end Pos

/-- Whether the machine goes on to the next instruction, and leaves no trace. -/
def InstKind.isSilent : InstKind → Bool
  | .call .. | .br _ | .condBr .. | .ret _ | .unreachable => false
  | _ => true

namespace Stream

/-- The instruction at a place. -/
def fetch? (s : Stream) (p : Pos) : Option Inst := do
  s.inst? (← (← s.block? p.block).insts[p.index]?)

/-- The name by which an instruction refers to a function. -/
def calleeName (s : Stream) (i : InstId) : String :=
  match (s.inst? i).map Inst.kind with
  | some (.declRef _ name _) => name
  | _ => ""

variable (s : Stream) (tests : Nat → Bool)

/-- One step of the machine.  It stays where the function is left. -/
def step : Pos × Track → Pos × Track
  | (p, w) =>
    match (s.fetch? p).map Inst.kind with
    | some (.br target) => (.start target, w)
    | some (.condBr _ thenBlock elseBlock) =>
      (.start (if tests w.asked then thenBlock else elseBlock), w.ask)
    | some (.ret _) | some .unreachable | none => (p, w)
    | some (.call callee _ _ _) => (p.next, w.call (s.calleeName callee))
    | some _ => (p.next, w)

variable {s tests} in
theorem step_of_isSilent {p : Pos} {w : Track} {kind : InstKind}
    (h : (s.fetch? p).map Inst.kind = some kind) (hk : kind.isSilent = true) :
    s.step tests (p, w) = (p.next, w) := by
  rw [step, h]
  cases kind <;> cases hk <;> rfl

/-- As many steps as are given. -/
def run (c : Pos × Track) : Nat → Pos × Track
  | 0 => c
  | n + 1 => s.step tests (run c n)

variable {s tests} {c : Pos × Track}

theorem run_succ (n : Nat) : s.run tests c (n + 1) = s.step tests (s.run tests c n) := rfl

theorem run_add (m n : Nat) : s.run tests c (m + n) = s.run tests (s.run tests c m) n := by
  induction n with
  | zero => rfl
  | succ n ih => rw [← Nat.add_assoc, run_succ, ih, run_succ]

/-- What was called stays called. -/
theorem calls_step : c.2.calls <+: (s.step tests c).2.calls := by
  obtain ⟨p, w⟩ := c
  unfold step
  dsimp only
  split
  case h_6 => exact List.prefix_append w.calls _
  all_goals exact List.prefix_refl _

theorem calls_run {m n : Nat} (h : m ≤ n) :
    (s.run tests c m).2.calls <+: (s.run tests c n).2.calls := by
  induction h with
  | refl => exact List.prefix_refl _
  | step _ ih => exact ih.trans calls_step

/-- The instruction at a place is the one that is made for it. -/
theorem Coherent.fetch?_eq (hs : s.Coherent) (p : Pos) :
    s.fetch? p = (s.instsIn p.block)[p.index]? := by
  rw [fetch?]
  cases hb : s.block? p.block with
  | none =>
    have hsize : s.blocks.size ≤ p.block.index := Array.getElem?_eq_none_iff.1 hb
    simp [hs.instsIn_eq_nil hsize]
  | some k =>
    have hk : k.insts[p.index]? = ((s.instsIn p.block)[p.index]?).map (·.id) := by
      rw [← Array.getElem?_toList, (hs.block? hb).2, List.getElem?_map]
    simp only [Option.bind_eq_bind, Option.bind_some, hk]
    cases hx : (s.instsIn p.block)[p.index]? with
    | none => rfl
    | some x =>
      have hmem : x ∈ s.insts.toList := (List.mem_filter.1 (List.mem_of_getElem? hx)).1
      obtain ⟨i, hi⟩ := List.mem_iff_getElem?.1 hmem
      have hi' : s.insts[i]? = some x := by simpa using hi
      simp only [Option.map_some, Option.bind_some, (hs.inst i x hi').1]
      exact hi'

end Stream

section Machine

variable (F : Stream) (tests : Nat → Bool)

/-- The machine gets from one place to another. -/
def Walk (c c' : Pos × Track) : Prop := ∃ n, F.run tests c n = c'

/-- The machine gets from one place to another, and leaves no trace. -/
def Silent (p q : Pos) : Prop := ∀ w, Walk F tests (p, w) (q, w)

/-- The machine stays at a place. -/
def Halts (p : Pos) : Prop := ∀ w, F.step tests (p, w) = (p, w)

/-- The machine does what the run `r` of a statement does: it gets to a place that fits how the run
ends, with the same trace.  If the run was stopped, at least `m` steps lead to the same trace. -/
structure Follows (m : Nat) (c : Pos × Track) (r : Outcome × Track) (K : Outcome → Pos → Prop) :
    Prop where
  short : r.1 = .stopped → ∃ n, m ≤ n ∧ (F.run tests c n).2 = r.2
  arrives : r.1 ≠ .stopped → ∃ p, Walk F tests c (p, r.2) ∧ K r.1 p

variable {F tests} {c c' c'' : Pos × Track} {p q : Pos} {w : Track} {m k : Nat} {o : Outcome}
  {r r' : Outcome × Track} {K K' : Outcome → Pos → Prop}

namespace Walk

theorem refl (c : Pos × Track) : Walk F tests c c := ⟨0, rfl⟩

theorem trans (h : Walk F tests c c') (h' : Walk F tests c' c'') : Walk F tests c c'' := by
  obtain ⟨m, rfl⟩ := h
  obtain ⟨n, rfl⟩ := h'
  exact ⟨m + n, F.run_add m n⟩

theorem of_step (h : F.step tests c = c') : Walk F tests c c' := ⟨1, h⟩

end Walk

namespace Silent

theorem refl (p : Pos) : Silent F tests p p := fun _ => .refl _

theorem trans {p₁ p₂ p₃ : Pos} (h : Silent F tests p₁ p₂) (h' : Silent F tests p₂ p₃) :
    Silent F tests p₁ p₃ :=
  fun w => (h w).trans (h' w)

end Silent

theorem Halts.run (h : Halts F tests p) (n : Nat) : F.run tests (p, w) n = (p, w) := by
  induction n with
  | zero => rfl
  | succ n ih => rw [Stream.run_succ, ih, h]

namespace Follows

theorem of_arrives (ho : r.1 ≠ .stopped) (h : Walk F tests c (p, r.2)) (hK : K r.1 p) :
    Follows F tests m c r K :=
  ⟨fun hs => absurd hs ho, fun _ => ⟨p, h, hK⟩⟩

/-- No step has to be taken for a run that was stopped at once. -/
theorem stopped : Follows F tests 0 (p, w) (.stopped, w) K :=
  ⟨fun _ => ⟨0, Nat.le_refl 0, rfl⟩, fun ho => absurd rfl ho⟩

theorem of_le (h : Follows F tests m c r K) (hk : k ≤ m) : Follows F tests k c r K where
  short hs := by
    obtain ⟨n, hn, hw⟩ := h.short hs
    exact ⟨n, Nat.le_trans hk hn, hw⟩
  arrives := h.arrives

/-- Steps may be put before those that follow a run. -/
theorem of_walk (hc : Walk F tests c c') (h : Follows F tests m c' r K) :
    Follows F tests m c r K where
  short hs := by
    obtain ⟨k, rfl⟩ := hc
    obtain ⟨n, hn, hw⟩ := h.short hs
    exact ⟨k + n, Nat.le_trans hn (Nat.le_add_left n k), by rw [F.run_add, hw]⟩
  arrives ho := by
    obtain ⟨p, hp, hK⟩ := h.arrives ho
    exact ⟨p, hc.trans hp, hK⟩

/-- A step is taken to get to another place. -/
theorem of_walk_ne (hc : Walk F tests c c') (hne : c ≠ c') (h : Follows F tests m c' r K) :
    Follows F tests (m + 1) c r K where
  short hs := by
    obtain ⟨k, rfl⟩ := hc
    obtain ⟨n, hn, hw⟩ := h.short hs
    have hk : k ≠ 0 := fun e => hne (e ▸ rfl)
    exact ⟨k + n, by omega, by rw [F.run_add, hw]⟩
  arrives := (h.of_walk hc).arrives

/-- What follows one run goes on after another one. -/
theorem andThen (h : Follows F tests m c r K) (hs : r.1 = .stopped → r' = r)
    (hk : r.1 ≠ .stopped → ∀ p, K r.1 p → Follows F tests m (p, r.2) r' K') :
    Follows F tests m c r' K' := by
  by_cases ho : r.1 = .stopped
  · rw [hs ho]
    exact ⟨h.short, fun hr => absurd ho hr⟩
  · obtain ⟨p, hp, hK⟩ := h.arrives ho
    exact of_walk hp (hk ho p hK)

theorem mono (h : Follows F tests m c r K) (hK : ∀ p, K r.1 p → K' r.1 p) :
    Follows F tests m c r K' :=
  h.andThen (fun _ => rfl) fun ho p hp => of_arrives ho (.refl _) (hK p hp)

end Follows

end Machine

end SourceIr
