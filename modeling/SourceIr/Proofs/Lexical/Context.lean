import SourceIr.Proofs.Lexical.Basic

/-!
# Scopes that are lowered in

While an expression is lowered, what is known of the scopes around it stays known.  A scope that
has just been opened may be filled, until something else is opened below it that one comes back
to.

* `Ctx`, what is known while an expression is lowered, `Ctx.still` and `Ctx.Keeps`;
* `Mode.filling`, the routines that add to one scope and to no other one;
* `KeepsParts`, what is relied on for the routines for parts;
* `keeps_open`, `keeps_enter`, `keeps_declare`, the rules for scopes and variables;
* `keeps_runDefers`, the deferred expressions that are lowered on a way out.
-/

namespace SourceIr

namespace ScopeTree

variable {t : ScopeTree} {root s : ScopeId} {target : Option ScopeId} {l : List Scope}

/-- A way passes only the scopes of `defer` statements. -/
theorem kind_of_mem_defersIn {e : ScopeId × DeferKind} (h : e ∈ defersIn target l) :
    ∃ x ∈ l, x.id = e.1 ∧ x.kind = .deferred e.2 := by
  induction l with
  | nil => cases h
  | cons z outer ih =>
    have hout : e ∈ defersIn target outer →
        ∃ x ∈ z :: outer, x.id = e.1 ∧ x.kind = .deferred e.2 := fun h =>
      (ih h).imp fun x hx => ⟨List.mem_cons_of_mem z hx.1, hx.2⟩
    rw [defersIn] at h
    split at h
    · cases h
    split at h
    next kind hk =>
      rcases List.mem_cons.1 h with rfl | h
      · exact ⟨z, List.mem_cons_self, rfl, hk⟩
      · exact hout h
    · cases h
    · cases h
    · cases h
    · exact hout h

/-- The scopes of `defer` statements on a way that does not leave `root`. -/
theorem WellFormed.reaches_deferred (ht : t.WellFormed) (h : t.leaves root s target = false)
    {e : ScopeId × DeferKind} (he : e ∈ t.defersUntil s target) :
    ∃ y, Reaches root (t.chain s) y ∧ y.id = e.1 ∧ y.kind.isDeferred = true := by
  obtain ⟨y, hy, hid⟩ := reaches_of_mem_defersIn h he
  obtain ⟨x, hx, hxid, hk⟩ := kind_of_mem_defersIn he
  -- The handle of a scope tells which scope it is.
  have hxy : some x = some y := by
    rw [← ht.scope?_of_mem hx, ← ht.scope?_of_mem hy.mem, hxid, hid]
  obtain rfl := Option.some.inj hxy
  exact ⟨x, hy, hid, by rw [hk]; rfl⟩

end ScopeTree

namespace Lower

variable {env : Env} {d : Discipline env} {s s' : State} {c own inner : ScopeId}
  {kind : ScopeKind} {α β : Type} {Q R : State → α → Prop}

/-! ### What is known in the meantime -/

/-- What holds of a state still holds when everything that was there has been left as it is. -/
def Discipline.Lasting (d : Discipline env) (F : State → Prop) : Prop :=
  ∀ s s', d.Inv s → F s → Frame s.scopes.scopes.size s s' → F s'

theorem lasting_at (c : ScopeId) : d.Lasting fun s => d.At s c :=
  fun _ _ hi hc h => d.at_frame hi hc h (d.index_lt hc)

/-- What is found on the way outward from a scope. -/
theorem lasting_chain (P : ScopeId → List Scope → Prop) :
    d.Lasting fun s => d.At s c ∧ P s.streamRoot (s.scopes.chain c) := fun s s' hi hc h => by
  have hlt := d.index_lt hc.1
  refine ⟨lasting_at c s s' hi hc.1 h, ?_⟩
  rw [h.chain_eq (d.wellFormed hi) hlt hlt, h.root]
  exact hc.2

/-- What is known while an expression is lowered. -/
structure Ctx (d : Discipline env) where
  Know : State → Prop
  lasting : d.Lasting Know

namespace Ctx

variable (k : Ctx d)

/-- Everything that is there is left as it is. -/
def still : Mode d where
  Le s s' := Frame s.scopes.scopes.size s s'
  Know := k.Know
  trans h h' := h.still_trans h'
  of_frame _ _ h := h
  stable hi hk h := k.lasting _ _ hi hk h

/-- The routines that leave everything that is there as it is. -/
abbrev Keeps (x : LowerM α) : Prop := k.still.Keeps x

/-- A scope in which something may be lowered. -/
abbrev In (c : ScopeId) : Prop := k.still.In c

/-- Some scopes are known. -/
def scopes (d : Discipline env) (l : List ScopeId) : Ctx d where
  Know s := ∀ c ∈ l, d.At s c
  lasting s s' hi hk h c hc := lasting_at c s s' hi (hk c hc) h

/-- More is known. -/
def and (F : State → Prop) (hF : d.Lasting F) : Ctx d where
  Know s := k.Know s ∧ F s
  lasting s s' hi hk h := ⟨k.lasting s s' hi hk.1 h, hF s s' hi hk.2 h⟩

/-- One more scope is known. -/
def plus (c : ScopeId) : Ctx d := k.and (fun s => d.At s c) (lasting_at c)

variable {k}

theorem in_scopes {l : List ScopeId} (h : c ∈ l) : (scopes d l).In c := fun _ _ hk => hk c h

theorem In.and {F : State → Prop} {hF : d.Lasting F} (h : k.In c) : (k.and F hF).In c :=
  fun s hi hk => h s hi hk.1

theorem In.plus (h : k.In c) : (k.plus inner).In c := h.and

theorem in_plus : (k.plus c).In c := fun _ _ hk => hk.2

end Ctx

variable {k : Ctx d} {m : Mode d} {x : LowerM α} {f : α → LowerM β}

/-- What is left as it is by the routines of an expression is so in every mode. -/
theorem Ctx.Keeps.lift (h : k.Keeps x) (hk : ∀ s, d.Inv s → m.Know s → k.Know s) : m.Keeps x :=
  fun s hi hm => (h s hi (hk s hi hm)).imp (fun _ hle => m.of_frame hi hm hle)
    fun _ _ _ _ => id

/-- What a routine returns may be known afterwards. -/
theorem runs_bind_and {Q : State → β → Prop} {F : α → State → Prop} (hx : k.still.Runs x R)
    (hF : ∀ a, d.Lasting (F a)) (hR : ∀ s a, d.Inv s → k.Know s → R s a → F a s)
    (hf : ∀ a, (k.and (F a) (hF a)).still.Runs (f a) Q) : k.still.Runs (x >>= f) Q :=
  Mode.runs_bind hx fun s a hi hk hr => hf a s hi ⟨hk, hR s a hi hk hr⟩

/-- A routine that returns a scope to go on in. -/
theorem runs_bind_in {Q : State → β → Prop} {x : LowerM ScopeId} {f : ScopeId → LowerM β}
    (hx : k.still.Runs x d.At) (hf : ∀ c, (k.plus c).still.Runs (f c) Q) :
    k.still.Runs (x >>= f) Q :=
  runs_bind_and (F := fun c s => d.At s c) hx lasting_at (fun _ _ _ _ h => h) hf

/-! ### Opening scopes -/

theorem ends_openScope {Le : State → State → Prop} {Q : State → β → Prop} {f : ScopeId → LowerM β}
    (hi : d.Inv s) (h : c.index < s.scopes.scopes.size → d.Inv (s.opening c kind) →
      d.Ends Le s Q (outcome (f s.top) env (s.opening c kind))) :
    d.Ends Le s Q (outcome (openScope c kind >>= f) env s) := by
  rw [outcome_bind]
  obtain ⟨e, he, ho⟩ | ⟨hlt, ho⟩ := outcome_openScope_cases (s := s) c kind <;> rw [ho]
  · exact ⟨hi, fun h => absurd h he⟩
  · exact h hlt (d.inv_open kind hi hlt)

theorem frame_opening_plain {n : Nat} (h : kind.isPlain = true) : Frame n s (s.opening c kind) :=
  frame_opening fun hd => absurd hd (kind.not_isDeferred h)

/-- A scope is opened in which one goes on, with what is known of it. -/
theorem runs_open_and {Q : State → β → Prop} {f : ScopeId → LowerM β} {F : ScopeId → State → Prop}
    (hc : k.In c) (hkind : kind.isPlain = true) (hF : ∀ inner, d.Lasting (F inner))
    (hopen : ∀ s, d.Inv s → d.At s c → d.At (s.opening c kind) s.top →
      F s.top (s.opening c kind))
    (h : ∀ inner, (k.and (F inner) (hF inner)).still.Runs (f inner) Q) :
    k.still.Runs (openScope c kind >>= f) Q := fun s hi hk =>
  ends_openScope hi fun _ hi' => by
    have hframe := frame_opening_plain (s := s) (c := c) (n := s.scopes.scopes.size) hkind
    have hc := hc s hi hk
    exact (h _ _ hi' ⟨k.lasting _ _ hi hk hframe, hopen s hi hc (d.at_open hi hc hkind)⟩).after
      fun _ => hframe.still_trans

theorem runs_open {Q : State → β → Prop} {f : ScopeId → LowerM β} (hc : k.In c)
    (hkind : kind.isPlain = true) (h : ∀ inner, (k.plus inner).still.Runs (f inner) Q) :
    k.still.Runs (openScope c kind >>= f) Q :=
  runs_open_and (F := fun c s => d.At s c) hc hkind lasting_at (fun _ _ _ h => h) h

/-! ### Filling a scope -/

/-- Something is added to the scope `own`, which was opened after the scopes `outer`. -/
def Mode.filling (d : Discipline env) (own : ScopeId) (outer : List ScopeId) : Mode d where
  Le s s' := Frame own.index s s' ∧ (d.At s own → d.At s' own) ∧
    (¬ s.scopes.Sealed own → ¬ s'.scopes.Sealed own)
  Know s := d.At s own ∧ ∀ c ∈ outer, c.index < own.index ∧ d.At s c
  trans h h' := ⟨h.1.trans h'.1, fun ha => h'.2.1 (h.2.1 ha), fun hs => h'.2.2 (h.2.2 hs)⟩
  of_frame hi hk h :=
    have hlt := d.index_lt hk.1
    ⟨h.mono (Nat.le_of_lt hlt), fun ha => d.at_frame hi ha h hlt, h.not_sealed hlt⟩
  stable hi hk h := ⟨h.2.1 hk.1, fun c hc =>
    ⟨(hk.2 c hc).1, d.at_frame hi (hk.2 c hc).2 h.1 (hk.2 c hc).1⟩⟩

variable {outer : List ScopeId}

theorem Mode.in_filling : (filling d own outer).In own := fun _ _ hk => hk.1

/-- What is lowered in the scope or around it in the meantime. -/
theorem Ctx.Keeps.filling (h : (scopes d (own :: outer)).Keeps x) :
    (Mode.filling d own outer).Keeps x :=
  h.lift fun s _ hk c hc => by
    rcases List.mem_cons.1 hc with rfl | hc
    · exact hk.1
    · exact (hk.2 c hc).2

/-- A scope is opened to be filled. -/
theorem runs_enter {Q : State → β → Prop} {f : ScopeId → LowerM β} (hc : k.In c)
    (hkind : kind.isPlain = true) (ho : ∀ o ∈ outer, k.In o)
    (h : ∀ own, (Mode.filling d own outer).Runs (f own) Q) :
    k.still.Runs (openScope c kind >>= f) Q := fun s hi hk =>
  ends_openScope hi fun _ hi' => by
    have hframe := frame_opening_plain (s := s) (c := c) (n := s.scopes.scopes.size) hkind
    have hknow : (Mode.filling d s.top outer).Know (s.opening c kind) := by
      refine ⟨d.at_open hi (hc s hi hk) hkind, fun o hmem => ?_⟩
      have hat := ho o hmem s hi hk
      exact ⟨d.index_lt hat, lasting_at o _ _ hi hat hframe⟩
    have hend := (h s.top _ hi' hknow).imp (L := fun _ s' => Frame s.scopes.scopes.size
      (s.opening c kind) s') (fun _ hle => hle.1) (fun _ _ _ _ => id)
    exact hend.after fun _ => hframe.trans

/-- A declaration that is refused changes nothing. -/
theorem runs_declare? {r : BindingRequest} (hr : r.Checked) :
    (Mode.filling d own outer).Keeps (declare? own r) := by
  intro s hi hk
  rw [declare?, outcome_bind, outcome_read]
  dsimp only
  rw [outcome_bind, outcome_get]
  dsimp only
  rw [outcome_bind]
  cases hf : s.scopes.bindingFault? own r with
  | some e => exact ⟨hi, fun h => absurd h (bindingFault?_ne_alarm _ _ _ e hf)⟩
  | none =>
    rw [outcome_stopAt_none]
    dsimp only
    split
    next hd =>
      obtain ⟨rfl, rfl⟩ := Prod.mk.inj (ScopeTree.declare_eq_ok hd)
      rw [ScopeTree.declare] at hd
      split at hd
      · cases hd
      next hfree =>
        obtain ⟨hi', hat⟩ := d.declare hi hk.1 hr hfree
        have halike : Alike (s.declaring own r) { s with
            scopes := (s.scopes.addVar own r).2
            log := s.log.push (.declared (s.scopes.addVar own r).1 own) } :=
          ⟨rfl, rfl, rfl, rfl, rfl⟩
        refine ⟨d.inv_alike hi' halike, ⟨frame_declaring.trans halike.frame, fun _ => ?_,
          not_sealed_declaring⟩, trivial⟩
        exact d.at_frame hi' hat halike.frame (d.index_lt hat)
    next => exact ⟨hi, Mode.le_refl (m := Mode.filling d own outer) hi hk, trivial⟩

theorem keeps_declare {r : BindingRequest} (hr : r.Checked) :
    (Mode.filling d own outer).Keeps (declare own r) := by
  refine Mode.runs_then (runs_declare? hr) fun result => ?_
  cases result with
  | ok id => exact Mode.keeps_pure
  | error msg => exact Mode.runs_fail

theorem ends_orDeclareFailed {node : Node} {name : String} (hi : d.Inv s)
    (hk : (Mode.filling d own outer).Know s)
    (hx : d.Ends (Mode.filling d own outer).Le s (fun _ _ => True) (outcome x env s)) :
    d.Ends (Mode.filling d own outer).Le s (fun _ _ => True)
      (outcome (orDeclareFailed x node name own) env s) := by
  refine Mode.ends_then hi hk (Mode.ends_attempt hx) fun r => ?_
  cases r with
  | some a => exact Mode.keeps_pure
  | none =>
    refine Mode.runs_then (runs_declare? (.inr ⟨rfl, rfl⟩)) fun result => ?_
    cases result with
    | ok var =>
      exact Mode.runs_then (Mode.keeps_modify fun _ => ⟨rfl, rfl, rfl, rfl, rfl⟩) fun _ =>
        Mode.runs_poisoned
    | error msg => exact Mode.runs_poisoned

theorem keeps_orDeclareFailed {node : Node} {name : String}
    (hx : (Mode.filling d own outer).Keeps x) :
    (Mode.filling d own outer).Keeps (orDeclareFailed x node name own) := fun s hi hk =>
  ends_orDeclareFailed hi hk (hx s hi hk)

/-! ### Parts -/

/-- How a statement ends that keeps to the discipline: one goes on in its scope, or in one below
it. -/
def Discipline.EndsIn (d : Discipline env) (s : State) (scope : ScopeId) :
    Except Stop ScopeId × State → Prop
  | (.ok next, s') => d.Inv s' ∧ Frame scope.index s s' ∧ d.At s' next ∧
      ¬ s'.scopes.Sealed next ∧ s'.scopes.Under s'.streamRoot scope next
  | (.error .poisoned, s') => d.Inv s' ∧ (Mode.filling d scope []).Le s s'
  | (.error (.fault f), s') => d.Inv s' ∧ (f = alarmFault → d.Alarm s')

/-- What is relied on for the parts of a construct. -/
structure KeepsParts (d : Discipline env) (parts : Parts) : Prop where
  expr : ∀ (node scope loc) {s}, d.Inv s → d.At s scope →
    d.Ends (fun s s' => Frame s.scopes.scopes.size s s') s (fun _ _ => True)
      (outcome (parts.expr node scope loc) env s)
  statement : ∀ (node scope) {s}, d.Inv s → d.At s scope → ¬ s.scopes.Sealed scope →
    d.EndsIn s scope (outcome (parts.statement node scope) env s)

variable {parts : Parts} {node : Node} {loc : ResultLoc} (hp : KeepsParts d parts)

include hp in
theorem KeepsParts.keeps (hc : k.In c) : k.Keeps (parts.expr node c loc) :=
  fun _ hi hk => hp.expr node c loc hi (hc _ hi hk)

include hp in
theorem KeepsParts.value (hc : k.In c) : k.Keeps (parts.value node c) := hp.keeps hc

include hp in
theorem KeepsParts.comptimeValue (hc : k.In c) : k.Keeps (parts.comptimeValue node c) :=
  runs_open hc rfl fun _ => hp.value Ctx.in_plus

include hp in
theorem KeepsParts.comptimeValue? {node : Option Node} (hc : k.In c) :
    k.Keeps (parts.comptimeValue? node c) := by
  cases node with
  | some node => exact Mode.keeps_map (hp.comptimeValue hc)
  | none => exact Mode.keeps_pure

/-! ### Deferred expressions -/

/-- The way outward from a scope passes the scope of a `defer` statement, and does not leave the
stream before. -/
def PassesDefer (d : Discipline env) (c : ScopeId) (scope : ScopeId) (s : State) : Prop :=
  d.At s c ∧ ∃ y, ScopeTree.Reaches s.streamRoot (s.scopes.chain c) y ∧ y.id = scope ∧
    y.kind.isDeferred = true

theorem lasting_passesDefer (c scope : ScopeId) : d.Lasting (PassesDefer d c scope) :=
  lasting_chain fun root l => ∃ y, ScopeTree.Reaches root l y ∧ y.id = scope ∧
    y.kind.isDeferred = true

include hp in
theorem keeps_runDefer {scope : ScopeId} {expr : Node}
    (h : ∀ s, d.Inv s → k.Know s → PassesDefer d c scope s) :
    k.Keeps (runDefer parts scope expr) := by
  refine Mode.runs_scopeAt_bind fun s y' hi hk hy' => ?_
  obtain ⟨hc, y, hy, rfl, hkind⟩ := h s hi hk
  rw [(d.wellFormed hi).scope?_of_mem hy.mem] at hy'
  obtain rfl := Option.some.inj hy'
  refine ends_openScope hi fun _ hi' => ?_
  have hframe : Frame s.scopes.scopes.size s (s.opening (y.parent.getD y.id) .deferredBody) :=
    frame_opening nofun
  have hbody := hp.expr expr s.top .discard hi' (d.at_body hi hc hy hkind)
  exact Discipline.Ends.after (Discipline.ends_bind hbody fun s' _ hi'' hle _ =>
    ⟨hi'', hle, trivial⟩) fun _ => hframe.still_trans

include hp in
theorem keeps_runDefersIn {path : ExitPath} {defers : List (ScopeId × DeferKind)}
    (h : ∀ e ∈ defers, ∀ s, d.Inv s → k.Know s → PassesDefer d c e.1 s) :
    k.Keeps (runDefersIn parts path defers) := by
  induction defers with
  | nil => exact Mode.keeps_pure
  | cons e rest ih =>
    have hrest := ih fun e' he' => h e' (List.mem_cons_of_mem e he')
    refine Mode.runs_get_then fun s => ?_
    dsimp only
    split
    · exact hrest
    · refine Mode.runs_then (keeps_runDefer hp (h e List.mem_cons_self)) fun _ => ?_
      exact Mode.runs_then Mode.keeps_isTerminated fun _ => Mode.runs_ite Mode.keeps_pure hrest

include hp in
/-- A way out that does not leave the stream. -/
theorem keeps_runDefers {target : Option ScopeId} {path : ExitPath} (hc : k.In c)
    (h : ∀ s, d.Inv s → k.Know s → s.scopes.leaves s.streamRoot c target = false) :
    k.Keeps (runDefers parts c target path) := by
  refine Mode.runs_scopesFrom_bind fun s hi hk => ?_
  have hpass : ∀ e ∈ s.scopes.defersUntil c target, PassesDefer d c e.1 s := fun e he =>
    ⟨hc s hi hk, (d.wellFormed hi).reaches_deferred (h s hi hk) he⟩
  let known : Ctx d := k.and (fun s' => ∀ e ∈ s.scopes.defersUntil c target, PassesDefer d c e.1 s')
    fun s₁ s₂ hi₁ hp₁ hle e he => lasting_passesDefer c e.1 s₁ s₂ hi₁ (hp₁ e he) hle
  exact keeps_runDefersIn (k := known) hp (fun e he s' _ hk' => hk'.2 e he) s hi ⟨hk, hpass⟩

end Lower

end SourceIr
