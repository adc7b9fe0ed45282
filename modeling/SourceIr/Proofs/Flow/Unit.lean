import SourceIr.Proofs.Flow.Bound
import SourceIr.Proofs.Flow.Loop
import SourceIr.Proofs.Flow.Straight
import SourceIr.Proofs.Safety.Unit

/-!
# Functions follow their bodies

A function that is not poisoned makes the calls of its body, in the order in which the statements of
the body make them, and no others.

* `Stream.Enacts`, a stream makes the calls of a statement, with `Stream.Enacts.take_calls`, any
  number of them;
* `Generator.Declares`, the names that refer to declarations at the start of a unit;
* `Generator.enacts_runFunction`, the functions that are not poisoned.
-/

namespace SourceIr

open Lower SourceIr.Stream

/-- The machine, from the start of a stream on, makes the calls that the run of a statement makes:
no others, however long it runs, and all of them, until it stays where the function is left. -/
structure Stream.Enacts (F : Stream) (tests : Nat → Bool) (S : Stmt) : Prop where
  sound : ∀ steps, (F.run tests (.start .entry, .start) steps).2.calls <+:
    (S.exec tests steps false .start).2.calls
  complete : ∀ allowed, ∃ steps,
    (F.run tests (.start .entry, .start) steps).2 = (S.exec tests allowed false .start).2 ∧
      ((S.exec tests allowed false .start).1 ≠ .stopped → ∀ more,
        F.run tests (.start .entry, .start) (steps + more) =
          F.run tests (.start .entry, .start) steps)

section Enacts

variable {F : Stream} {tests : Nat → Bool} {S : Stmt}

/-- It is enough that bounded runs are followed, to a place where the machine stays. -/
theorem Stream.enacts_of_follows
    (h : ∀ m, Follows F tests m (.start .entry, .start) (S.exec tests m false .start)
      fun _ => Halts F tests) : F.Enacts tests S where
  sound steps := by
    by_cases ho : (S.exec tests steps false .start).1 = .stopped
    · obtain ⟨n, hn, hw⟩ := (h steps).short ho
      exact hw ▸ calls_run hn
    · obtain ⟨p, ⟨n, hn⟩, hp⟩ := (h steps).arrives ho
      have hle : (F.run tests (.start .entry, .start) steps).2.calls <+:
          (F.run tests (.start .entry, .start) (n + steps)).2.calls :=
        calls_run (Nat.le_add_left steps n)
      rwa [run_add, hn, hp.run] at hle
  complete allowed := by
    by_cases ho : (S.exec tests allowed false .start).1 = .stopped
    · obtain ⟨n, -, hw⟩ := (h allowed).short ho
      exact ⟨n, hw, fun hne => absurd ho hne⟩
    · obtain ⟨p, ⟨n, hn⟩, hp⟩ := (h allowed).arrives ho
      exact ⟨n, by rw [hn], fun _ more => by rw [run_add, hn, hp.run]⟩

/-- As many calls as are asked for are the same, once the machine has run long enough. -/
theorem Stream.Enacts.take_calls (h : F.Enacts tests S) (n : Nat) : ∃ steps, ∀ more,
    (F.run tests (.start .entry, .start) (steps + more)).2.calls.take n =
      (S.exec tests n false .start).2.calls.take n := by
  obtain ⟨steps, hw, hend⟩ := h.complete n
  refine ⟨steps, fun more => ?_⟩
  by_cases ho : (S.exec tests n false .start).1 = .stopped
  · have hlen := (Stmt.makes_exec S).length ho
    have hle : (F.run tests (.start .entry, .start) steps).2.calls <+:
        (F.run tests (.start .entry, .start) (steps + more)).2.calls :=
      calls_run (Nat.le_add_right steps more)
    rw [hw] at hle
    obtain ⟨rest, hrest⟩ := hle
    rw [← hrest, List.take_append_of_le_length (Nat.le_trans (Nat.le_add_left n _) hlen)]
  · rw [hend ho, hw]

end Enacts

namespace Lower

variable {F : Stream} {tests : Nat → Bool} {env : Env} {s s' : State} {scope : ScopeId}

theorem returns_outermost_bind {α : Type} {f : Parts → LowerM α} {a : α}
    (h : Returns (outermost >>= f) env s a s') :
    Returns (f (nested env.options.maxDepth)) env s a s' := by
  obtain ⟨parts, t, h₁, h⟩ := returns_bind.1 h
  rw [outermost, returns_read_bind] at h₁
  obtain ⟨rfl, rfl⟩ := returns_pure.1 h₁
  exact h

/-- Only a return or an error gets out of a function. -/
theorem halts_of_exits {fed : ScopeId → Prop} {l : Layer} {ls : List Layer} {o : Outcome} {p : Pos}
    (hl : l.kind.isFn = true) (h : Exits F tests fed (fun _ => False) (l :: ls) o p) :
    Halts F tests p := by
  have htakes : l.takes o = true := by
    cases hk : l.kind <;> simp [hk, ScopeKind.isFn] at hl
    simp [Layer.takes, hk]
  have hstop : breakBlock? l.kind = none ∧ continueBlock? l.kind = none := by
    cases hk : l.kind <;> simp [hk, ScopeKind.isFn] at hl
    exact ⟨rfl, rfl⟩
  rw [exits_cons_of_takes htakes] at h
  cases o with
  | done | stopped => exact h.elim
  | broke label =>
    obtain ⟨b, hb, -⟩ := h
    exact absurd (hb.symm.trans hstop.1) (Option.some_ne_none b)
  | continued label =>
    obtain ⟨b, hb, -⟩ := h
    exact absurd (hb.symm.trans hstop.2) (Option.some_ne_none b)
  | returned | failed => exact h.2

/-- The head of a function is straight code. -/
structure FnParts.StraightHead (fn : FnParts) : Prop where
  params : ∀ param ∈ fn.params, ∀ part ∈ param.kind.used, part.Straight
  returnType : ∀ type ∈ fn.returnType.toList, type.Straight

section Function

variable {node body : Node} {fn : FnParts} {name : String} {parent : ScopeId} {S : Stmt}
  {cs : List String}

/-- A name refers to the same declaration in a function as around it. -/
theorem Opens.lookupDecl_eq (h : Opens s s' parent (.fnDef name)) (hs : Fine s)
    (hp : parent.index < s.scopes.scopes.size) (c : String) (table : DeclTable) :
    s'.scopes.lookupDecl ⟨s.scopes.scopes.size⟩ c table = s.scopes.lookupDecl parent c table := by
  have hg : s.scopes.Grows s'.scopes := fun i x hx => ⟨x, h.later.scopes i x hx, rfl, rfl, rfl⟩
  rw [(h.later.fine hs).scopes.lookupDecl_eq h.scope]
  exact hg.lookupDecl_eq hp

/-- After its head, which is straight code, a function is its body, and a return where the end of
the body is reached. -/
theorem returns_lowerFunction (hs : Clear env s) (hp : parent.index < s.scopes.scopes.size)
    (hhead : fn.StraightHead) (hbody : fn.body = some body)
    (hc : ∀ c ∈ cs, isPrimitiveType c = false ∧ (s.scopes.lookupDecl parent c env.table).isSome)
    (h : Returns (lowerFunction node fn name parent) env s ⟨⟩ s') :
    ∃ t scope x v u, Clear env t ∧ Along s t ∧ t.scopes.scope? scope = some x ∧
      x.kind = .fnDef name ∧ InBody env cs t scope ∧
      Returns ((nested env.options.maxDepth).expr body scope .discard) env t v u ∧
      (u.stream.isTerminated = true ∧ s' = u ∨
        u.stream.isTerminated = false ∧ Appends (.ret none) u s') := by
  replace h := returns_outermost_bind h
  obtain ⟨scope, s₁, h₁, h⟩ := returns_bind.1 h
  obtain ⟨hs₁, a₁, hlt₁⟩ := passes_openScope hp hs scope s₁ h₁
  obtain ⟨rfl, hopens⟩ := returns_openScope hp h₁
  obtain ⟨_, s₂, h₂, h⟩ := returns_bind.1 h
  obtain ⟨hs₂, a₂, -⟩ := Logic.holds_lowerParams (straight_nested _) hhead.params hlt₁ hs₁ _ s₂ h₂
  have hlt₂ := Nat.lt_of_lt_of_le hlt₁ a₂.scopes.size_le
  obtain ⟨_, t, h₃, h⟩ := returns_bind.1 h
  obtain ⟨ht, a₃, -⟩ :=
    Logic.holds_lowerSignatureType (straight_nested _) hhead.returnType hlt₂ hs₂ _ t h₃
  have hg := (a₂.trans a₃).scopes
  obtain ⟨x, hx, -, -, hkind⟩ := hg _ _ hopens.scope
  simp only [hbody] at h
  obtain ⟨v, u, h₄, h⟩ := returns_bind.1 h
  refine ⟨t, _, x, v, u, ht, a₁.trans (a₂.trans a₃), hx, hkind, ?_, h₄, ?_⟩
  · refine .fn hx (by rw [hkind]; rfl) fun c hm => ⟨(hc c hm).1, ?_⟩
    obtain ⟨d, hd⟩ := Option.isSome_iff_exists.1 (hc c hm).2
    refine ⟨d.id, ht.apart.lookup_eq ht.scopes (Nat.lt_of_lt_of_le hlt₂ a₃.scopes.size_le) ?_⟩
    rw [hg.lookupDecl_eq hlt₁, hopens.lookupDecl_eq hs.toFine hp, hd]
  · replace h := returns_isTerminated_bind h
    cases hterm : u.stream.isTerminated with
    | true =>
      rw [hterm] at h
      exact .inl ⟨rfl, (returns_pure.1 h).2⟩
    | false =>
      rw [hterm] at h
      obtain ⟨_, u', h₅, h⟩ := returns_bind.1 h
      obtain ⟨-, rfl⟩ := returns_pure.1 h
      exact .inr ⟨rfl, (returns_emitWith h₅).2⟩

/-- The machine follows the body of a function to a place where it stays. -/
theorem follows_lowerFunction (hs : Clear env s) (hp : parent.index < s.scopes.scopes.size)
    (hhead : fn.StraightHead) (hbody : fn.body = some body) (hS : body.stmt? = some S)
    (hc : ∀ c ∈ S.callees,
      isPrimitiveType c = false ∧ (s.scopes.lookupDecl parent c env.table).isSome)
    (hF : s'.stream.Coherent) (h : Returns (lowerFunction node fn name parent) env s ⟨⟩ s')
    (m : Nat) (w : Track) :
    Follows s'.stream tests m (s.here, w) (S.exec tests m false w)
      fun _ => Halts s'.stream tests := by
  obtain ⟨t, scope, x, v, u, ht, a, hx, hkind, hin, hexpr, hend⟩ :=
    returns_lowerFunction hs hp hhead hbody hc h
  have hrun : Runs s'.stream tests t u scope S :=
    (follower_nested hF _).expr hS (fun _ => id) ⟨ht.toFine, hin⟩ ht.goesOn hexpr
  obtain ⟨ls, hls⟩ := layers_eq_cons ht.toFine hx
  have hlayer : (t.layer x).kind = .fnDef name := hkind
  have harmed : armed (t.layers scope) = false := by rw [hls, armed, hlayer]
  have hgrows : u.stream.Grows s'.stream := by
    rcases hend with ⟨-, rfl⟩ | ⟨-, happ⟩
    · exact .refl _
    · exact happ.later.stream
  refine .of_walk (a.silent _ tests hF (hrun.later.stream.trans hgrows) w) ?_
  refine (harmed ▸ hrun.follows hgrows m w).mono fun p hp => ?_
  rw [Lower.Ends] at hp
  split at hp
  · obtain ⟨hterm, rfl⟩ := hp
    rcases hend with ⟨hterm', -⟩ | ⟨-, happ⟩
    · exact absurd (hterm.symm.trans hterm') Bool.false_ne_true
    · exact happ.halts hF (.refl _)
  · rw [hls] at hp
    exact halts_of_exits (by rw [hlayer]; rfl) hp

end Function

end Lower

namespace Generator

variable {g : Generator} {node body : Node} {fn : FnParts} {name : String} {kind : UnitKind}
  {containers : List String} {S : Stmt}

/-- A name refers to a declaration at the start of a unit, and not to a primitive type. -/
def Declares (g : Generator) (containers : List String) (c : String) : Prop :=
  isPrimitiveType c = false ∧
    ((g.unitScopes containers).2.lookupDecl (g.unitScopes containers).1 c g.table).isSome

instance (g : Generator) (containers : List String) (c : String) :
    Decidable (g.Declares containers c) := inferInstanceAs (Decidable (_ ∧ _))

theorem apart_unitScopes (g : Generator) (containers : List String) :
    (g.unitScopes containers).2.Apart g.table := by
  have hopen : ∀ (t : ScopeTree) (scope : ScopeId), t.Apart g.table →
      (openContainers t scope containers).2.Apart g.table := by
    induction containers with
    | nil => exact fun t scope h => h
    | cons path rest ih => exact fun t scope h => ih _ _ h.openUnder
  refine hopen _ _ fun i x hx entry he => ?_
  cases i with
  | zero =>
    cases hx
    cases he
  | succ i => cases hx

/-- A function that is not poisoned makes the calls of its body. -/
theorem enacts_runFunction (hfn : FnParts.ofNode? node = some fn) (hhead : fn.StraightHead)
    (hbody : fn.body = some body) (hS : body.stmt? = some S)
    (hc : ∀ c ∈ S.callees, g.Declares containers c)
    (hp : (g.runFunction node name kind containers).unit.isPoisoned = false)
    (tests : Nat → Bool) :
    (g.runFunction node name kind containers).unit.stream.Enacts tests S := by
  obtain ⟨s', h, hs', hsafe⟩ := g.returns_lowerFunction hfn hp
  have hopened := g.opened_unitScopes containers
  have hstart : Clear ⟨g.table, g.options⟩ (g.start (Stream.new name false)
      (g.unitScopes containers).2 (g.unitScopes containers).1) :=
    ⟨⟨coherent_new name false, hopened.scopes⟩, g.apart_unitScopes containers, rfl⟩
  rw [← hs']
  exact enacts_of_follows fun m =>
    follows_lowerFunction hstart hopened.index hhead hbody hS hc hsafe.stream h m .start

end Generator

/-! ### A function that retries -/

/-- A call without arguments. -/
def Node.calling (c : String) : Node := .bare (.call (.bare (.symbol c)) [] .auto)

/-- A body that cleans up after a loop, whose rounds undo what they have done if they fail. -/
def Node.retrying : Node :=
  .bare (.block none [
    .bare (.deferred .normal (.calling "close")),
    .bare (.whileLoop none (.calling "more") none (some (.calling "next"))
      (.bare (.block none [
        .bare (.deferred .error (.calling "undo")),
        .bare (.tryExpr (.calling "attempt")),
        .bare (.ifThen (.calling "enough") none (.bare (.breakTo none none)) none)])) none false),
    .bare (.returnFrom (some (.calling "result")))])

/-- The statement that it is. -/
def Stmt.retrying : Stmt :=
  .block none (.defer .normal (.call "close")
    (.seq (.loop none "more" (some "next")
      (.block none (.defer .error (.call "undo") (.seq (.tryCall "attempt")
        (.seq (.ite "enough" (.breakTo none) .skip) .skip)))) .skip)
      (.seq (.retCall "result") .skip)))

/-- A generator for nodes that call these functions. -/
def Generator.calling (names : List String) : Generator :=
  ⟨names.foldl (fun t c => (t.insert c .fn none 0).2) (.empty ""), {}, .empty⟩

theorem enacts_runFunction_retrying :
    let g := Generator.calling ["close", "more", "next", "undo", "attempt", "enough", "result"]
    let node := Node.bare (.fnDecl "f" [] (some (.bare (.symbol "u32")))
      (some .retrying) false false)
    (g.runFunction node "f" .function []).unit.isPoisoned = false ∧
      (g.runFunction node "f" .function []).unit.stream.Enacts (fun i => i % 3 == 0) .retrying := by
  intro g node
  have hp : (g.runFunction node "f" .function []).unit.isPoisoned = false := by decide +kernel
  have hc : ∀ c ∈ Stmt.retrying.callees, g.Declares [] c := by decide +kernel
  have hhead : FnParts.StraightHead ⟨[], some (.bare (.symbol "u32")), some .retrying⟩ := by
    refine ⟨nofun, fun type htype => ?_⟩
    obtain rfl := List.mem_singleton.1 htype
    exact .intro rfl rfl nofun
  exact ⟨hp, Generator.enacts_runFunction rfl hhead rfl (by decide +kernel) hc hp _⟩

/-- The first test lets the loop go on, and the second one lets the first attempt succeed. -/
example : (Stmt.retrying.exec (fun i => i == 0 || i == 2) 5 false .start).2.calls =
    ["more", "attempt", "enough", "result", "close"] := by decide

end SourceIr
