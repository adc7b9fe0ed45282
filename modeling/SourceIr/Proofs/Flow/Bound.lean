import SourceIr.Proofs.Flow.Statement

/-!
# Bounded runs

A statement may run forever, so its run is given a bound on the rounds of its loops.  The bound only
says when the run is stopped: with a larger one, the run goes on from there, and a run that was not
stopped is the whole one.

* `Makes`, a run that is stopped only after as many calls as the bound says, and `Stmt.makes_exec`;
* `Continues`, a run with a larger bound, and `Stmt.exec_continues`.
-/

namespace SourceIr

/-- A run from a track on, which makes at least `m` more calls if it is stopped. -/
structure Makes (m : Nat) (w : Track) (r : Outcome × Track) : Prop where
  calls : w.calls <+: r.2.calls
  length : r.1 = .stopped → w.calls.length + m ≤ r.2.calls.length

/-- A run with a larger bound: it goes on where the first one was stopped, and is the same if that
one was not. -/
structure Continues (r r' : Outcome × Track) : Prop where
  calls : r.2.calls <+: r'.2.calls
  eq : r.1 ≠ .stopped → r' = r

variable {j k m : Nat} {w w' : Track} {o : Outcome} {r r' t t' : Outcome × Track}

namespace Makes

theorem of_ne (ho : o ≠ .stopped) (hw : w.calls <+: w'.calls) : Makes m w (o, w') :=
  ⟨hw, fun h => absurd h ho⟩

/-- Calls may be made before. -/
theorem after (h : Makes m w' r) (hw : w.calls <+: w'.calls)
    (hk : w.calls.length + k ≤ w'.calls.length + m) : Makes k w r :=
  ⟨hw.trans h.calls, fun hs => Nat.le_trans hk (h.length hs)⟩

theorem andThen (h : Makes m w r) (hs : r.1 = .stopped → t = r)
    (ht : r.1 ≠ .stopped → Makes m r.2 t) : Makes m w t := by
  by_cases ho : r.1 = .stopped
  · exact hs ho ▸ h
  · exact (ht ho).after h.calls (Nat.add_le_add_right h.calls.length_le m)

end Makes

namespace Continues

theorem refl (r : Outcome × Track) : Continues r r := ⟨List.prefix_refl _, fun _ => rfl⟩

theorem andThen (h : Continues r r') (hs : r.1 = .stopped → t = r) (hr : r'.2.calls <+: t'.2.calls)
    (ht : r' = r → Continues t t') : Continues t t' := by
  by_cases ho : r.1 = .stopped
  · rw [hs ho]
    exact ⟨h.calls.trans hr, fun hne => absurd ho hne⟩
  · exact ht (h.eq ho)

end Continues

namespace Stmt

variable {tests : Nat → Bool} {armed : Bool} {label : Option String} {test : String}
  {step : Option String} {body body' elseBranch elseBranch' : Track → Outcome × Track}

theorem prefix_call (w : Track) (name : String) : w.calls <+: (w.call name).calls :=
  List.prefix_append _ _

theorem prefix_step (w : Track) (step : Option String) :
    w.calls <+: (step.elim w w.call).calls := by
  cases step with
  | none => exact List.prefix_refl _
  | some name => exact prefix_call w name

theorem length_call (w : Track) (name : String) :
    (w.call name).calls.length = w.calls.length + 1 := List.length_append

/-- Every round of a loop makes a call. -/
theorem makes_rounds (hk : k ≤ m) (hb : ∀ w, Makes m w (body w))
    (he : ∀ w, Makes m w (elseBranch w)) :
    Makes k w (rounds tests label test step body elseBranch k w) := by
  induction k generalizing w with
  | zero => exact ⟨List.prefix_refl _, fun _ => Nat.le_refl _⟩
  | succ k ih =>
    have hcall := prefix_call w test
    have hlen := length_call w test
    have later : ∀ {r}, Makes m (w.call test).ask r → Makes (k + 1) w r := fun h =>
      h.after hcall (by change _ ≤ (w.call test).calls.length + m; omega)
    have hbody := hb (w.call test).ask
    rw [rounds_succ]
    dsimp only
    split
    · split
      · have hstep := hbody.calls.trans (prefix_step (body (w.call test).ask).2 step)
        have hle : (w.call test).calls.length ≤ _ := hstep.length_le
        exact (ih (Nat.le_of_succ_le hk)).after (hcall.trans hstep) (by omega)
      · split
        · exact .of_ne nofun (hcall.trans hbody.calls)
        · exact later hbody
    · exact later (he _)

/-- A block does not change a run that was stopped. -/
theorem block_of_stopped (label : Option String) (h : r.1 = .stopped) :
    (if r.1.leavesBlock label then .done else r.1, r.2) = r :=
  Prod.ext (by simp [h, Outcome.leavesBlock]) rfl

/-- A run is stopped only after as many calls as the bound says. -/
theorem makes_exec (S : Stmt) : Makes m w (S.exec tests m armed w) := by
  induction S generalizing armed w with
  | skip | breakTo | continueTo | ret => exact .of_ne nofun (List.prefix_refl _)
  | call name => exact .of_ne nofun (prefix_call w name)
  | tryCall name =>
    refine .of_ne ?_ (prefix_call w name)
    split <;> nofun
  | retCall name =>
    rw [exec]
    split
    · refine .of_ne ?_ (prefix_call w name)
      split <;> nofun
    · exact .of_ne nofun (prefix_call w name)
  | seq first rest ihf ihr =>
    rw [exec_seq]
    refine ihf.andThen (fun hs => if_neg (by simp [hs])) fun ho => ?_
    split
    · exact ihr
    · exact .of_ne ho (List.prefix_refl _)
  | defer kind deferred rest ihd ihr =>
    rw [exec_defer]
    refine ihr.andThen (fun hs => if_pos (.inl hs)) fun ho => ?_
    dsimp only
    split
    · exact .of_ne ho (List.prefix_refl _)
    · refine ihd.andThen (fun hs => if_neg (by simp [hs])) fun ho' => ?_
      split
      · exact .of_ne ho (List.prefix_refl _)
      · exact .of_ne ho' (List.prefix_refl _)
  | block label body ih =>
    rw [exec_block]
    refine ih.andThen (block_of_stopped label) fun ho => .of_ne ?_ (List.prefix_refl _)
    split
    · nofun
    · exact ho
  | ite test thenBranch elseBranch iht ihe =>
    have hcall := prefix_call w test
    have hle := Nat.add_le_add_right hcall.length_le m
    rw [exec]
    split
    · exact iht.after hcall hle
    · exact ihe.after hcall hle
  | loop label test step body elseBranch ihb ihe =>
    rw [exec]
    exact makes_rounds (Nat.le_refl m) (fun _ => ihb) fun _ => ihe

theorem continues_rounds (hk : k ≤ j) (hj : j ≤ m) (hb : ∀ w, Continues (body w) (body' w))
    (he : ∀ w, Continues (elseBranch w) (elseBranch' w)) (hb' : ∀ w, Makes m w (body' w))
    (he' : ∀ w, Makes m w (elseBranch' w)) :
    Continues (rounds tests label test step body elseBranch k w)
      (rounds tests label test step body' elseBranch' j w) := by
  induction k generalizing j w with
  | zero => exact ⟨(makes_rounds hj hb' he').calls, fun hne => absurd rfl hne⟩
  | succ k ih =>
    obtain ⟨j, rfl⟩ : ∃ i, j = i + 1 := ⟨j - 1, by omega⟩
    have hkj : k ≤ j := Nat.le_of_succ_le_succ hk
    have hjm : j ≤ m := Nat.le_of_succ_le hj
    rw [rounds_succ, rounds_succ]
    dsimp only
    split
    · refine (hb (w.call test).ask).andThen (fun hs => ?_) ?_ fun e => ?_
      · simp [hs, Outcome.goesOn, Outcome.leavesLoop]
      · split
        · exact (prefix_step _ step).trans (makes_rounds hjm hb' he').calls
        · split <;> exact List.prefix_refl _
      · rw [e]
        split
        · exact ih hkj hjm
        · exact .refl _
    · exact he _

/-- With a larger bound, a run goes on where it was stopped, and is the same otherwise. -/
theorem exec_continues (S : Stmt) (h : m ≤ k) :
    Continues (S.exec tests m armed w) (S.exec tests k armed w) := by
  induction S generalizing armed w with
  | skip | breakTo | continueTo | ret | call | tryCall | retCall => exact .refl _
  | seq first rest ihf ihr =>
    rw [exec_seq, exec_seq]
    refine ihf.andThen (fun hs => if_neg (by simp [hs])) ?_ fun e => ?_
    · split
      · exact (makes_exec rest).calls
      · exact List.prefix_refl _
    · rw [e]
      split
      · exact ihr
      · exact .refl _
  | defer kind deferred rest ihd ihr =>
    rw [exec_defer, exec_defer]
    dsimp only
    refine ihr.andThen (fun hs => if_pos (.inl hs)) ?_ fun e => ?_
    · split
      · exact List.prefix_refl _
      · split <;> exact (makes_exec deferred).calls
    · rw [e]
      split
      · exact .refl _
      · refine ihd.andThen (fun hs => if_neg (by simp [hs])) ?_ fun e' => ?_
        · split <;> exact List.prefix_refl _
        · rw [e']
          exact .refl _
  | block label body ih =>
    rw [exec_block, exec_block]
    refine ih.andThen (block_of_stopped label) (List.prefix_refl _) fun e => ?_
    rw [e]
    exact .refl _
  | ite test thenBranch elseBranch iht ihe =>
    rw [exec, exec]
    split
    · exact iht
    · exact ihe
  | loop label test step body elseBranch ihb ihe =>
    rw [exec, exec]
    exact continues_rounds h (Nat.le_refl k) (fun _ => ihb) (fun _ => ihe)
      (fun _ => makes_exec body) fun _ => makes_exec elseBranch

end Stmt

end SourceIr
