import SourceIr.Decl.Table

/-!
# Tables of declarations

A table is filled from the front: a declaration is added after the container that it is a member
of, and its handle is its position.  So the way outward from any declaration of a file meets only
declarations that are there.

* `DeclTable.WellFormed`, handles are positions and containers come first;
* `DeclTable.wellFormed_ofRoot`, the table of a file is well formed;
* `DeclTable.WellFormed.fault?_eq_none`, nothing is missing on the way outward.
-/

namespace SourceIr.DeclTable

variable {t : DeclTable} {name : String} {kind : DeclKind} {location : Option Location}
  {index : Nat} {parent : Option DeclId}

/-- Handles are positions, and a declaration is added after the one that it is a member of. -/
structure WellFormed (t : DeclTable) : Prop where
  id : ∀ (i : Nat) (d : Decl), t.decls[i]? = some d → d.id = ⟨i⟩
  parent : ∀ (i : Nat) (d : Decl), t.decls[i]? = some d → ∀ p ∈ d.parent, p.index < i

theorem wellFormed_empty (name : String) : (empty name).WellFormed :=
  ⟨fun i d h => by simp [empty] at h, fun i d h => by simp [empty] at h⟩

@[simp] theorem size_push :
    (t.push name kind location index parent).decls.size = t.decls.size + 1 := by
  simp [push]

theorem getElem?_push (i : Nat) :
    (t.push name kind location index parent).decls[i]? =
      if i = t.decls.size then some ⟨⟨t.decls.size⟩, name, kind, location, index, parent⟩
      else t.decls[i]? := by
  simp [push, Array.getElem?_push]

theorem WellFormed.push (ht : t.WellFormed) (hp : ∀ p ∈ parent, p.index < t.decls.size) :
    (t.push name kind location index parent).WellFormed where
  id i d h := by
    rw [getElem?_push] at h
    split at h
    next hi =>
      cases h
      rw [hi]
    next => exact ht.id i d h
  parent i d h := by
    rw [getElem?_push] at h
    split at h
    next hi =>
      cases h
      rw [hi]
      exact hp
    next => exact ht.parent i d h

/-- Adding the members of a container keeps a table well formed and takes nothing back. -/
theorem WellFormed.insertMembers {t : DeclTable} {parent : DeclId} {path : String} {index : Nat}
    (ht : t.WellFormed) (hp : parent.index < t.decls.size) :
    ∀ nodes : List Node, (t.insertMembers parent path index nodes).WellFormed ∧
      t.decls.size ≤ (t.insertMembers parent path index nodes).decls.size
  | [] => by
    rw [DeclTable.insertMembers]
    exact ⟨ht, Nat.le_refl _⟩
  | node :: rest => by
    -- What follows the members that `node` adds is added to the table they leave.
    have step : ∀ u : DeclTable, u.WellFormed → t.decls.size ≤ u.decls.size →
        (u.insertMembers parent path (index + 1) rest).WellFormed ∧
          t.decls.size ≤ (u.insertMembers parent path (index + 1) rest).decls.size := by
      intro u hu hle
      obtain ⟨hwf, hle'⟩ : (u.insertMembers parent path (index + 1) rest).WellFormed ∧ _ :=
        hu.insertMembers (Nat.lt_of_lt_of_le hp hle) rest
      exact ⟨hwf, Nat.le_trans hle hle'⟩
    rw [DeclTable.insertMembers]
    cases hd : node.header? with
    | none => exact step t ht (Nat.le_refl _)
    | some header =>
      obtain ⟨name, kind⟩ := header
      dsimp only
      split
      · exact step t ht (Nat.le_refl _)
      have hpush : (t.push (qualified path name) kind node.location index
        (some parent)).WellFormed :=
        ht.push fun p hp' => by
          cases hp'
          exact hp
      split
      next =>
        refine step _ (hpush.insertMembers (by simp [next]) _).1 ?_
        exact Nat.le_trans (by simp) (hpush.insertMembers (by simp [next]) _).2
      next => exact step _ hpush (by simp)

theorem WellFormed.insertTopLevel (ht : t.WellFormed) (node : Node) :
    (t.insertTopLevel index node).1.WellFormed := by
  rw [DeclTable.insertTopLevel]
  cases node.header? with
  | none => exact ht
  | some header =>
    obtain ⟨name, kind⟩ := header
    dsimp only
    cases t.rejection? node name kind with
    | some m => exact ht
    | none =>
      have hpush : (t.push name kind node.location index none).WellFormed := ht.push nofun
      dsimp only
      cases node.members? with
      | some members => exact (hpush.insertMembers (by simp [next]) members).1
      | none => exact hpush

theorem WellFormed.insertAll (ht : t.WellFormed) (nodes : List Node) :
    (t.insertAll index nodes).1.WellFormed := by
  induction nodes generalizing t index with
  | nil => exact ht
  | cons node rest ih => exact ih (ht.insertTopLevel node)

/-- The table of a file is well formed. -/
theorem wellFormed_ofRoot (root : Node) : (ofRoot root).1.WellFormed :=
  (wellFormed_empty _).insertAll root.topLevel

/-- The way outward from a declaration meets only declarations that are there. -/
theorem WellFormed.fault?_eq_none (ht : t.WellFormed) {id : DeclId}
    (hid : id.index < t.decls.size) : t.fault? id = none := by
  obtain ⟨i⟩ := id
  induction i using Nat.strongRecOn with
  | ind i ih =>
    obtain ⟨d, hd⟩ : ∃ d, t.decls[i]? = some d := ⟨_, Array.getElem?_eq_getElem hid⟩
    have hparent := ht.parent i d hd
    obtain ⟨_, _, _, _, _, parent⟩ := d
    rw [fault?, faultAt?, hd]
    cases parent with
    | none => rfl
    | some p =>
      have hlt := hparent p rfl
      dsimp only
      rw [if_pos hlt]
      exact ih p.index hlt (Nat.lt_trans hlt hid)

end SourceIr.DeclTable
