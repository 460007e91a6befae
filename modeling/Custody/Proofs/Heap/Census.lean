/-
# The census of owners

At every moment of every run each count tells how many pointers target its cell,
whatever the ownership graph is and whatever destructors do. A pointer that was
taken out of its place and has yet to sign off, or has yet to be put where it
belongs, is counted like one that is stored.

Key definitions: `Machine.owners`.
Key theorems: `Moment.owner_census`.
-/
import Custody.Proofs.Heap.Run

namespace Custody.Heap

variable {α : Type} {n : Nat} {m : Machine α}

theorem Machine.owners_draft (m : Machine α) : m.draft.owners = m.owners := by
  simp only [Draft.owners, Machine.owners, List.append_nil]

theorem Moment.live_of_mem (hm : Moment n m) {o : Owner} (ho : o ∈ m.owners) :
    m.heap.status o.cell = some .live := by
  rw [← m.owners_draft] at ho
  exact hm.sound.live_of_mem ho

theorem Moment.count_eq (hm : Moment n m) (c : CellId) :
    (m.heap.count c).owners = m.owners.countP (Owner.isOf c) := by
  rw [← m.owners_draft]
  exact hm.sound.census c

/-- **The owner census.** At every moment the count of each cell is the number of pointers
that target it, whoever targets a cell targets a live one, and a cell whose value is being
destroyed has a count of zero. -/
theorem Moment.owner_census (hm : Moment n m) :
    (∀ (c : CellId) cell, m.heap.cells[c]? = some cell →
      cell.count.owners = m.owners.countP (Owner.isOf c)) ∧
    (∀ o ∈ m.owners, ∃ cell v, m.heap.cells[o.cell]? = some cell ∧ cell.content = .live v) ∧
    (∀ (c : CellId) cell v, m.heap.cells[c]? = some cell → cell.content = .dying v →
      cell.count.owners = 0) := by
  refine ⟨fun c cell hc => ?_, fun o ho => ?_, fun c cell v hc hv => ?_⟩
  · rw [← hm.count_eq c, count_of_getElem? hc]
  · obtain ⟨v, hv⟩ := exists_live? (hm.live_of_mem ho)
    obtain ⟨cell, hc, hcon⟩ := live?_eq_some.mp hv
    exact ⟨cell, v, hc, hcon⟩
  · have hdying : m.heap.status c = some .dying := by simp [status, hc, hv]
    have halive : 0 < (m.heap.count c).owners ↔ m.heap.status c = some .live := hm.sound.alive c
    rw [hdying, count_of_getElem? hc] at halive
    simpa using halive

/-! ### A value that is rescued

The value of cell 1 owns cell 0. When the last pointer to cell 1 goes away, the
destructor copies its field into a variable and then clears the field, and what
was in that variable is dropped. -/

/-- A destructor that puts a copy of its first field into a variable, and clears the field. -/
def rescueScript : List (Act Nat) :=
  [.clone (.own (.field 0)) [] (.var 1), .clear (.own (.field 0))]

/-- Two pointers to cell 0, one of them in a value with that destructor. -/
def rescueHeap : Heap Nat :=
  ((((Heap.empty 3).operate (.act (.make (.var 0) .nullable 7 [] [] [] 1))).heap.operate
    (.act (.clone (.var 0) [] (.var 1)))).heap.operate
    (.act (.make (.var 2) .fixed 8 rescueScript [some (.var 1)] [] 1))).heap

/-- The destructor has copied its field and cleared it, and the pointer that was in the
field has yet to sign off. -/
def midway : Machine Nat := (Machine.start rescueHeap (.act (.drop (.var 2)))).step.step.step

theorem midway_moment : Moment 3 midway :=
  .step (.step (.step (.operate _ (.operate _ (.operate _ (.operate _ .empty))))))

theorem midway_count : midway.heap.status 1 = some .dying ∧ midway.tasks.length = 4 ∧
    midway.owners.countP (Owner.isOf 0) = 3 ∧
    ∀ cell, midway.heap.cells[0]? = some cell → cell.count.owners = 3 :=
  ⟨by decide, by decide, by decide, fun cell hc =>
    (Moment.owner_census midway_moment).1 0 cell hc⟩

end Custody.Heap
