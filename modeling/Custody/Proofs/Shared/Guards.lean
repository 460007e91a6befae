/-
# Where guards lead

The guard of a locked handle knows its cell, whatever its kind is, and it leads to the value
of the cell if handles of the kind can be had on it. So what is read, changed, compared
and given up through guards of their own is read and changed in the cell of the handle.

Key theorems: `Contents.get?_target`, `World.putAt_eq`, `World.identityOf_eq`,
`World.Offers.at?_target`, `World.stepAccess_cases`, `Sound.read?_eq`.
-/
import Custody.Proofs.Shared.Sound

namespace Custody.Shared

variable {α : Type} {w : World α} {hand : List Handle} {owed : List CellId}

/-- **The way of a guard leads to the value** in each cell that offers such handles. -/
theorem Contents.get?_target {β : Type} {contents : Contents β} {a : Access} {k : HandleKind}
    (hk : contents.flavour.handle? a = some k) (c : CellId) :
    contents.get? (k.guard c).target.way = some contents.value := by
  cases contents <;> cases a <;> cases hk <;> rfl

theorem HandleKind.cell_target (k : HandleKind) (c : CellId) : (k.guard c).target.cell = c := by
  cases k <;> rfl

namespace Handle

theorem guard?_of_some {h : Handle} {c : CellId} (hg : h.grant = some c) :
    h.guard? = some (h.kind.guard c) := by
  unfold guard?
  rw [hg]
  rfl

theorem guard?_of_none {h : Handle} (hg : h.grant = none) : h.guard? = none := by
  unfold guard?
  rw [hg]
  rfl

/-- The cells that guards are compared by are those of the handles. -/
theorem map_cell_guard? (h : Handle) : h.guard?.map Guard.cell = h.grant := by
  unfold guard?
  rw [Option.map_map]
  cases h.grant with
  | none => rfl
  | some c => exact congrArg some (h.kind.cell_guard c)

end Handle

namespace World

/-- A cell is compared by its address. -/
theorem identity_of_cell {c : CellId} {cell : Cell α} (hc : w.cells[c]? = some cell) :
    w.identity (some c) = ⟨cell.address⟩ := by
  unfold identity
  rw [Option.bind_some, hc]

/-- A handle is compared by its cell. -/
theorem identityOf_eq (w : World α) (h : Handle) : w.identityOf h = w.identity h.grant := by
  unfold identityOf
  rw [h.map_cell_guard?]

theorem identityOf_of_some {h : Handle} {c : CellId} (hg : h.grant = some c) (w : World α) :
    w.identityOf h = w.identity (some c) := by
  rw [identityOf_eq, hg]

theorem identityOf_of_none {h : Handle} (hg : h.grant = none) (w : World α) :
    w.identityOf h = ⟨0⟩ := by
  rw [identityOf_eq, hg]
  rfl

/-- What is at a place is the value of the cell. -/
theorem value?_of_at? {p : Place} {v : α} (hv : w.at? p = some v) : w.value? p.cell = some v := by
  obtain ⟨cell, hc, hget⟩ := Option.bind_eq_some_iff.mp hv
  have hvalue := Contents.value_of_get? (Option.join_eq_some_iff.mp hget)
  unfold value?
  rw [hc]
  exact hvalue

/-- What is put at a place that has a value becomes the value of the cell. -/
theorem putAt_eq {p : Place} {v : α} (hv : w.at? p = some v) (v' : α) :
    w.putAt p v' = w.modifyCell p.cell (Cell.fill (some v')) := by
  obtain ⟨cell, hc, hget⟩ := Option.bind_eq_some_iff.mp hv
  have hput := Contents.put_of_get? (Option.join_eq_some_iff.mp hget) (some v')
  unfold putAt modifyCell
  congr 1
  apply List.ext_getElem?
  intro i
  rw [List.getElem?_modify, List.getElem?_modify]
  by_cases hi : p.cell = i
  · subst hi
    rw [hc]
    simp only [if_true, Option.map_some, Option.map_eq_map, hput]
    rfl
  · simp only [if_neg hi]

/-- The guard of a handle leads to the value of a cell that offers such handles. -/
theorem Offers.at?_target {c : CellId} {k : HandleKind} (hk : w.Offers c k) :
    w.at? (k.guard c).target = w.value? c := by
  obtain ⟨a, ha⟩ := hk
  obtain ⟨f, hf, hk⟩ := Option.bind_eq_some_iff.mp ha
  obtain ⟨cell, hc, rfl⟩ := Option.map_eq_some_iff.mp hf
  unfold at? value?
  rw [k.cell_target, hc]
  simp only [Option.bind_some, Contents.get?_target hk c]
  rfl

theorem read?_of_none {h : Handle} (hg : h.grant = none) : w.read? h = none := by
  unfold read?
  rw [Handle.guard?_of_none hg]
  rfl

theorem read?_of_some {h : Handle} {c : CellId} (hg : h.grant = some c) :
    w.read? h = w.at? (h.kind.guard c).target := by
  unfold read?
  rw [Handle.guard?_of_some hg]
  rfl

/-! ### Uses -/

/-- A use that the kind of a handle allows goes where its guard leads. -/
theorem Use.place?_guard {u : Use} {k : HandleKind} (hk : u.allows k = true) (c : CellId) :
    u.place? (k.guard c) = some (k.guard c).target := by
  cases u with
  | read => rfl
  | update => exact HandleKind.targetMut?_guard hk c
  | overwrite => rfl

/-- Using a value does nothing, or the handle is locked and may be used so. -/
theorem stepAccess_cases (w : World α) (u : Use) (f : α → α) (h : Handle) :
    (∃ r, w.stepAccess u f h = (w, r) ∧ ∀ v, r ≠ .value v) ∨
    ∃ c v, u.allows h.kind = true ∧ h.grant = some c ∧ w.value? c = some v ∧
      w.stepAccess u f h = (w.modifyCell c (Cell.fill (some (f v))), .value (f v)) := by
  unfold stepAccess
  split
  · exact .inl ⟨_, rfl, by simp⟩
  · rename_i hallowed
    have hallowed : u.allows h.kind = true := by simpa using hallowed
    cases hg : h.grant with
    | none =>
      rw [Handle.guard?_of_none hg]
      exact .inl ⟨_, rfl, by simp⟩
    | some c =>
      rw [Handle.guard?_of_some hg]
      simp only [Use.place?_guard hallowed]
      cases hv : w.at? (h.kind.guard c).target with
      | none => exact .inl ⟨_, rfl, by simp⟩
      | some v =>
        have hvalue := value?_of_at? hv
        have hput := putAt_eq hv (f v)
        rw [h.kind.cell_target] at hvalue hput
        exact .inr ⟨c, v, hallowed, rfl, hvalue, by simp only [hput]⟩

/-- Through a locked handle that may be used so, the value that it reads is used. -/
theorem stepAccess_locked {u : Use} {h : Handle} (hk : u.allows h.kind = true) {v : α}
    (hv : w.read? h = some v) (f : α → α) : (w.stepAccess u f h).2 = .value (f v) := by
  cases hg : h.grant with
  | none =>
    rw [read?_of_none hg] at hv
    cases hv
  | some c =>
    rw [read?_of_some hg] at hv
    unfold stepAccess
    simp only [hk, Handle.guard?_of_some hg, Use.place?_guard hk, hv, Bool.not_true,
      Bool.false_eq_true, if_false]

theorem stepAccess_released {u : Use} {h : Handle} (hk : u.allows h.kind = true)
    (hg : h.grant = none) (f : α → α) : w.stepAccess u f h = (w, .released h.kind) := by
  unfold stepAccess
  simp only [hk, Handle.guard?_of_none hg, Bool.not_true, Bool.false_eq_true, if_false]

/-- What cannot be done through handles of a kind is refused before it is seen whether the handle is
released. -/
theorem stepAccess_unsupported {u : Use} {h : Handle} (hk : u.allows h.kind = false) (f : α → α) :
    w.stepAccess u f h = (w, .unsupported) := by
  simp only [stepAccess, hk, Bool.not_false, if_true]

end World

/-- **A handle reads the value of its cell.** -/
theorem Sound.read?_eq (hs : Sound ⟨w, hand, owed⟩) {h : Handle}
    (hh : h ∈ (⟨w, hand, owed⟩ : Draft α).handles) : w.read? h = h.grant.bind w.value? := by
  cases hg : h.grant with
  | none => exact World.read?_of_none hg
  | some c =>
    rw [World.read?_of_some hg, (hs.fits h hh c hg).at?_target]
    rfl

end Custody.Shared
