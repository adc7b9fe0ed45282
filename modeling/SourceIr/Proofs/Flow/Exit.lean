import SourceIr.Lower.Jump
import SourceIr.Proofs.Flow.Later
import SourceIr.Proofs.Scope.Jump

/-!
# Ways out of a body

A statement stands in blocks and loops, and after deferred statements, one around the other up to
the function.  When its run ends otherwise than by going on, the way out passes them, up to the one
that takes it.

* `Layer`, a scope on the way out, and `State.layers`, those around a scope;
* `Exits`, the machine does what is owed on the way out;
* `Aims`, the layer that takes the way out, as `ScopeTree.jumpTargetIn` and
  `ScopeTree.defersIn` see it;
* `InBody`, a scope of a body.
-/

namespace SourceIr.Lower

open SourceIr.Stream

/-- A scope on the way out of a body, with the statement that is deferred there. -/
structure Layer where
  id : ScopeId
  kind : ScopeKind
  stmt? : Option Stmt

namespace Layer

/-- Whether the way out for an outcome ends at a layer.  Nothing leaves a deferred statement. -/
def takes (l : Layer) (o : Outcome) : Bool :=
  match l.kind, o with
  | .deferredBody, _ | .fnDef _, _ | .topLevel _, _ | .container _, _ => true
  | .loop own _ _, .broke label | .loop own _ _, .continued label => label.isNone || own == label
  | .block (some own) _, .broke label => label == some own
  | .block _ _, .done => true
  | _, _ => false

/-- The deferred statement that runs where a layer is passed. -/
def passing? (l : Layer) (o : Outcome) : Option Stmt :=
  match l.kind with
  | .deferred kind => if o.runs kind then l.stmt? else none
  | _ => none

end Layer

/-- What leaves a block ends at its layer. -/
theorem takes_block {id : ScopeId} {label : Option String} {stop : Option BlockId}
    {d : Option Stmt} {o : Outcome} (ho : o ≠ .done) :
    (⟨id, .block label stop, d⟩ : Layer).takes o = o.leavesBlock label := by
  cases o with
  | done => exact absurd rfl ho
  | broke l =>
    cases label with
    | none => cases l <;> rfl
    | some own =>
      cases l with
      | none => rfl
      | some l => exact BEq.comm
  | _ => cases label <;> rfl

/-- What goes on with a loop or leaves it ends at its layer. -/
theorem takes_loop {id : ScopeId} {label : Option String} {stop step : BlockId}
    {d : Option Stmt} {o : Outcome} (ho : o ≠ .done) :
    (⟨id, .loop label stop step, d⟩ : Layer).takes o = (o.goesOn label || o.leavesLoop label) := by
  cases o <;> simp [Layer.takes, Outcome.goesOn, Outcome.leavesLoop] at ho ⊢

/-- Whether an error runs a deferred statement on its way out that a return does not. -/
def armed : List Layer → Bool
  | [] => false
  | l :: rest =>
    match l.kind with
    | .deferred .error => true
    | .fnDef _ | .topLevel _ | .container _ => false
    | _ => armed rest

section Exits

variable (F : Stream) (tests : Nat → Bool) (fed : ScopeId → Prop) (G : Pos → Prop)

/-- The machine is where the way out for an outcome ends at a layer.  `fed` are the sinks that
something has flowed into, and `G` holds where the end of a block is reached. -/
def Layer.Lands (l : Layer) : Outcome → Pos → Prop
  | .done, p => G p
  | .stopped, _ => False
  | .broke _, p => ∃ stop, breakBlock? l.kind = some stop ∧ Silent F tests p (.start stop) ∧
      fed l.id
  | .continued _, p => ∃ step, continueBlock? l.kind = some step ∧ Silent F tests p (.start step)
  | .returned, p | .failed, p => l.kind.isFn = true ∧ Halts F tests p

/-- From a place, the machine does what is owed on the way out for an outcome. -/
def Exits : List Layer → Outcome → Pos → Prop
  | [], _, _ => False
  | l :: rest, o, p =>
    if l.takes o then l.Lands F tests fed G o p
    else
      match l.passing? o with
      | some d => ∀ m w, Follows F tests m (p, w) (d.exec tests m (armed rest) w)
          fun o' q => o' = .done ∧ Exits rest o q
      | none => Exits rest o p

variable {F tests fed G} {fed' : ScopeId → Prop} {G' : Pos → Prop} {l : Layer} {ls : List Layer}
  {o : Outcome} {p : Pos}

theorem Layer.Lands.mono (h : l.Lands F tests fed G o p) (hfed : ∀ t, fed t → fed' t)
    (hG : o = .done → ∀ q, G q → G' q) : l.Lands F tests fed' G' o p := by
  cases o with
  | done => exact hG rfl p h
  | stopped => exact h
  | broke label =>
    obtain ⟨stop, hs, hp, hf⟩ := h
    exact ⟨stop, hs, hp, hfed _ hf⟩
  | continued label => exact h
  | returned => exact h
  | failed => exact h

theorem exits_cons_of_takes (h : l.takes o = true) :
    Exits F tests fed G (l :: ls) o p ↔ l.Lands F tests fed G o p := by
  rw [Exits, if_pos h]

/-- A layer that neither takes the way out nor has anything to run is passed. -/
theorem exits_cons_of_passes (h : l.takes o = false) (hd : l.passing? o = none) :
    Exits F tests fed G (l :: ls) o p ↔ Exits F tests fed G ls o p := by
  rw [Exits, if_neg (by simp [h]), hd]

theorem exits_cons_of_runs {d : Stmt} (h : l.takes o = false) (hd : l.passing? o = some d) :
    Exits F tests fed G (l :: ls) o p ↔
      ∀ m w, Follows F tests m (p, w) (d.exec tests m (armed ls) w)
        fun o' q => o' = .done ∧ Exits F tests fed G ls o q := by
  rw [Exits, if_neg (by simp [h]), hd]

theorem Exits.mono (h : Exits F tests fed G ls o p) (hfed : ∀ t, fed t → fed' t)
    (hG : o = .done → ∀ q, G q → G' q) : Exits F tests fed' G' ls o p := by
  induction ls generalizing p with
  | nil => exact h
  | cons l rest ih =>
    cases ht : l.takes o with
    | true =>
      rw [exits_cons_of_takes ht] at h ⊢
      exact h.mono hfed hG
    | false =>
      cases hd : l.passing? o with
      | none =>
        rw [exits_cons_of_passes ht hd] at h ⊢
        exact ih h
      | some d =>
        rw [exits_cons_of_runs ht hd] at h ⊢
        intro m w
        exact (h m w).mono fun q hq => ⟨hq.1, ih hq.2⟩

end Exits

/-! ### The layer that takes the way out -/

/-- The way out for an outcome ends at a layer, which is the target of the jump, or the function. -/
inductive Aims (o : Outcome) (target : Option ScopeId) : List Layer → Layer → Prop
  | here {l : Layer} {rest : List Layer} (h : l.takes o = true)
      (ht : some l.id = target ∨ l.kind.endsJumps = true) : Aims o target (l :: rest) l
  | outward {l goal : Layer} {rest : List Layer} (h : l.takes o = false)
      (ht : some l.id ≠ target) (ha : Aims o target rest goal) : Aims o target (l :: rest) goal

variable {env : Env} {cs : List String} {s s' : State} {scope : ScopeId}

/-- A scope with what is deferred there. -/
def State.layer (s : State) (x : Scope) : Layer :=
  ⟨x.id, x.kind, (s.deferred.lookup x.id).bind Node.stmt?⟩

/-- The layers around a scope, the innermost first. -/
def State.layers (s : State) (scope : ScopeId) : List Layer := (s.scopes.chain scope).map s.layer

/-- A scope of a body over calls of the functions `cs`: no name is declared between it and the
function, and what is deferred there is a statement over such calls. -/
inductive InBody (env : Env) (cs : List String) (s : State) : ScopeId → Prop
  | fn {scope : ScopeId} {x : Scope} (hx : s.scopes.scope? scope = some x)
      (hk : x.kind.isFn = true)
      (hc : ∀ c ∈ cs, isPrimitiveType c = false ∧
        ∃ d, s.scopes.lookup scope c env.table = some (.decl d)) : InBody env cs s scope
  | inner {scope p : ScopeId} {x : Scope} (hx : s.scopes.scope? scope = some x)
      (hp : x.parent = some p) (hn : x.names = []) (hk : x.kind.endsJumps = false)
      (hd : ∀ kind, x.kind = .deferred kind → ∃ expr d, s.deferred.lookup scope = some expr ∧
        expr.stmt? = some d ∧ ∀ c ∈ d.callees, c ∈ cs)
      (h : InBody env cs s p) : InBody env cs s scope

namespace InBody

theorem lt (h : InBody env cs s scope) : scope.index < s.scopes.scopes.size := by
  cases h with
  | fn hx => exact (Array.getElem?_eq_some_iff.1 hx).1
  | inner hx => exact (Array.getElem?_eq_some_iff.1 hx).1

theorem later (h : InBody env cs s scope) (hs : Fine s) (hl : Later s s') :
    InBody env cs s' scope := by
  induction h with
  | fn hx hk hc =>
    refine .fn (hl.scope? hx) hk fun c hm => ?_
    rw [hl.lookup_eq hs (Array.getElem?_eq_some_iff.1 hx).1]
    exact hc c hm
  | inner hx hp hn hk hd _ ih =>
    refine .inner (hl.scope? hx) hp hn hk ?_ ih
    rw [hl.deferred _ (Array.getElem?_eq_some_iff.1 hx).1]
    exact hd

theorem goto (h : InBody env cs s scope) (b : BlockId) :
    InBody env cs { s with stream := s.stream.goto b } scope := by
  induction h with
  | fn hx hk hc => exact .fn hx hk hc
  | inner hx hp hn hk hd _ ih => exact .inner hx hp hn hk hd ih

/-- A name that is called stands for a declaration. -/
theorem lookup (h : InBody env cs s scope) (hs : Fine s) {c : String} (hc : c ∈ cs) :
    isPrimitiveType c = false ∧ ∃ d, s.scopes.lookup scope c env.table = some (.decl d) := by
  induction h with
  | fn hx hk hcs => exact hcs c hc
  | @inner scope p x hx hp hn hk _ _ ih =>
    refine ⟨ih.1, ?_⟩
    obtain ⟨d, hd⟩ := ih.2
    have hskip : ScopeTree.resolveIn x c env.table = none := by
      rw [ScopeTree.resolveIn, hn, ScopeTree.memberDecl?]
      cases hkind : x.kind <;> simp [hkind, ScopeKind.endsJumps] at hk ⊢
    refine ⟨d, ?_⟩
    rw [ScopeTree.lookup, hs.scopes.chain_eq hx, hp,
      List.findSome?_cons_of_isNone (by simp [hskip])]
    exact hd

theorem layers_eq (h : InBody env cs s scope) (hs : Fine s) (hl : Later s s') :
    s'.layers scope = s.layers scope := by
  rw [State.layers, hl.chain_eq hs h.lt, State.layers]
  refine List.map_congr_left fun x hx => ?_
  have hlt : x.id.index < s.scopes.scopes.size :=
    Nat.lt_of_le_of_lt (hs.scopes.index_le_of_mem hx) h.lt
  rw [State.layer, hl.deferred x.id hlt, State.layer]

end InBody

theorem layers_inner (hs : Fine s) {x : Scope} {p : ScopeId}
    (hx : s.scopes.scope? scope = some x) (hp : x.parent = some p) :
    s.layers scope = s.layer x :: s.layers p := by
  rw [State.layers, hs.scopes.chain_eq hx, hp]
  rfl

theorem layers_eq_cons (hs : Fine s) {x : Scope} (hx : s.scopes.scope? scope = some x) :
    ∃ rest, s.layers scope = s.layer x :: rest := by
  rw [State.layers, hs.scopes.chain_eq hx]
  exact ⟨_, rfl⟩

/-! ### A scope that is opened -/

/-- A scope of a kind is opened under another. -/
structure Opens (s s' : State) (parent : ScopeId) (kind : ScopeKind) : Prop where
  later : Later s s'
  scope : s'.scopes.scope? ⟨s.scopes.scopes.size⟩ =
    some ⟨⟨s.scopes.scopes.size⟩, some parent, kind, #[], []⟩
  stream : s'.stream = s.stream

section Opens

variable {parent : ScopeId} {kind : ScopeKind}

theorem Opens.here (h : Opens s s' parent kind) : s'.here = s.here := by
  rw [State.here, h.stream, State.here]

theorem Opens.layers (h : Opens s s' parent kind) (hs : Fine s)
    (hb : InBody env cs s parent) :
    ∃ d, s'.layers ⟨s.scopes.scopes.size⟩ =
      ⟨⟨s.scopes.scopes.size⟩, kind, d⟩ :: s.layers parent := by
  rw [layers_inner (h.later.fine hs) h.scope rfl, hb.layers_eq hs h.later]
  exact ⟨_, rfl⟩

theorem Opens.inBody (h : Opens s s' parent kind) (hs : Fine s) (hb : InBody env cs s parent)
    (hk : kind.endsJumps = false) (hd : ∀ k, kind ≠ .deferred k) :
    InBody env cs s' ⟨s.scopes.scopes.size⟩ :=
  .inner h.scope rfl rfl hk (fun k hkind => absurd hkind (hd k)) (hb.later hs h.later)

end Opens

/-! ### Where jumps go -/

theorem InBody.passesErrDefer_eq (h : InBody env cs s scope) (hs : Fine s) :
    passesErrDefer s.scopes scope = armed (s.layers scope) := by
  induction h with
  | @fn scope x hx hk _ =>
    rw [passesErrDefer, ScopeTree.defersUntil, State.layers, hs.scopes.chain_eq hx]
    cases hkind : x.kind <;> simp [hkind, ScopeKind.isFn] at hk
    simp [ScopeTree.defersIn, hkind, armed, State.layer]
  | @inner scope p x hx hp _ hk _ _ ih =>
    rw [passesErrDefer, ScopeTree.defersUntil] at ih ⊢
    rw [layers_inner hs hx hp, hs.scopes.chain_eq hx, hp]
    simp only [Option.map_some, Option.getD_some]
    cases hkind : x.kind with
    | deferred kind => cases kind <;> simp [ScopeTree.defersIn, hkind, armed, State.layer, ih]
    | _ => simp [hkind, ScopeKind.endsJumps] at hk <;>
        simp [ScopeTree.defersIn, hkind, armed, State.layer, ih]

/-- How a run ends that jumps. -/
def outcomeOf (jump : JumpKind) (label : Option String) : Outcome :=
  match jump with
  | .toBreak => .broke label
  | .toContinue => .continued label

/-- A jump lands at the innermost scope, or it passes that scope. -/
theorem found_cases {jump : JumpKind} {label : Option String} {x : Scope} {outer : List Scope}
    {t : ScopeId} (hk : x.kind.endsJumps = false)
    (hf : ScopeTree.jumpTargetIn jump label (x :: outer) = .found t) :
    (s.layer x).takes (outcomeOf jump label) = true ∧ x.id = t ∨
      (s.layer x).takes (outcomeOf jump label) = false ∧
        ScopeTree.jumpTargetIn jump label outer = .found t := by
  rw [ScopeTree.jumpTargetIn] at hf
  simp only [Layer.takes, State.layer]
  cases hkind : x.kind with
  | deferredBody => simp [hkind] at hf
  | fnDef _ | topLevel _ | container _ => simp [hkind, ScopeKind.endsJumps] at hk
  | loop own stop step =>
    simp only [hkind] at hf
    split at hf
    next hl => cases jump <;> exact .inl ⟨hl, JumpTarget.found.inj hf⟩
    next hl => cases jump <;> exact .inr ⟨Bool.eq_false_iff.2 hl, hf⟩
  | block own stop =>
    cases own with
    | none => cases jump <;> exact .inr ⟨rfl, by simpa [hkind] using hf⟩
    | some own =>
      simp only [hkind] at hf
      split at hf
      next hl =>
        cases jump with
        | toBreak => exact .inl ⟨hl, JumpTarget.found.inj hf⟩
        | toContinue => cases hf
      next hl =>
        cases jump with
        | toBreak => exact .inr ⟨Bool.eq_false_iff.2 hl, hf⟩
        | toContinue => exact .inr ⟨rfl, hf⟩
  | _ => cases jump <;> exact .inr ⟨rfl, by simpa [hkind] using hf⟩

/-- A jump ends at the layer of its target. -/
theorem InBody.aims_of_found (h : InBody env cs s scope) (hs : Fine s) {jump : JumpKind}
    {label : Option String} {t : ScopeId}
    (hf : ScopeTree.jumpTargetIn jump label (s.scopes.chain scope) = .found t) :
    ∃ l x, Aims (outcomeOf jump label) (some t) (s.layers scope) l ∧ l.id = t ∧
      s.scopes.scope? t = some x ∧ l.kind = x.kind := by
  induction h with
  | @fn scope x hx hk _ =>
    rw [hs.scopes.chain_eq hx] at hf
    cases hkind : x.kind <;> simp [hkind, ScopeKind.isFn] at hk
    cases label <;> simp [ScopeTree.jumpTargetIn, hkind, ScopeTree.noTarget] at hf
  | @inner scope p x hx hp _ hk _ _ ih =>
    have hid : x.id = scope := hs.scopes.id _ x hx
    rw [hs.scopes.chain_eq hx, hp] at hf
    rw [layers_inner hs hx hp]
    rcases found_cases hk hf with ⟨ht, rfl⟩ | ⟨ht, hf⟩
    · exact ⟨s.layer x, x, .here ht (.inl rfl), rfl, by rw [hid, hx], rfl⟩
    · obtain ⟨l, y, ha, hl, hy, hkind⟩ := ih hf
      refine ⟨l, y, .outward ht ?_ ha, hl, hy, hkind⟩
      -- The target lies further out than this scope.
      obtain ⟨z, hz, rfl⟩ := ScopeTree.mem_of_found hf
      have hle := hs.scopes.index_le_of_mem hz
      have hlt := hs.scopes.parent _ x hx p hp
      intro e
      have : x.id.index = z.id.index := congrArg ScopeId.index (Option.some.inj e)
      rw [hid] at this
      omega

/-- The function is left outside of deferred statements only. -/
theorem InBody.aims_of_return (h : InBody env cs s scope) (hs : Fine s)
    (hd : s.scopes.inDeferredBody scope = false) {o : Outcome} (ho : o = .returned ∨ o = .failed) :
    ∃ l, Aims o none (s.layers scope) l ∧ l.kind.isFn = true := by
  induction h with
  | @fn scope x hx hk _ =>
    obtain ⟨rest, hl⟩ := layers_eq_cons hs hx
    rw [hl]
    refine ⟨s.layer x, .here ?_ (.inr ?_), hk⟩ <;>
      cases hkind : x.kind <;> simp [hkind, ScopeKind.isFn] at hk <;>
      simp [Layer.takes, State.layer, hkind, ScopeKind.endsJumps]
  | @inner scope p x hx hp _ hk _ _ ih =>
    rw [ScopeTree.inDeferredBody, ScopeTree.within, hs.scopes.chain_eq hx, hp] at hd
    simp only [Option.map_some, Option.getD_some] at hd
    have hfn : x.kind.isFn = false := by
      cases hkind : x.kind <;> simp [hkind, ScopeKind.endsJumps] at hk <;> rfl
    rw [List.takeWhile_cons_of_pos (by simp [hfn]), List.any_cons, Bool.or_eq_false_iff] at hd
    obtain ⟨l, ha, hl⟩ := ih hd.2
    rw [layers_inner hs hx hp]
    refine ⟨l, .outward ?_ (Option.some_ne_none _) ha, hl⟩
    have hbody : x.kind ≠ .deferredBody := by simpa using hd.1
    rcases ho with rfl | rfl <;> cases hkind : x.kind <;>
      simp_all [Layer.takes, State.layer, ScopeKind.endsJumps]

end SourceIr.Lower
