/-
# Each value is destroyed once, on time

A cell is dead once the destruction of its value has begun. The log tells which
cells are dead, each of them once: the one edit that makes a cell dead is that its
last owner signs off, and no edit brings a dead cell back. Since exactly the live
cells have owners, a cell that was made is dead if and only if no pointer targets it.

Key definitions: `Heap.Dead`, `Heap.destroyed`, `Machine.targeted`.
Key theorems: `Edit.deaths`, `Moment.recorded`, `Later.dead`, `Moment.destroyed_once_on_time`.
-/
import Custody.Proofs.Heap.Census
import Custody.Proofs.Heap.Weight

namespace Custody.Heap

variable {α : Type} {n : Nat} {m : Machine α} {h : Heap α}

/-! ### The dead and the log -/

/-- Whether the destruction of the cell's value has begun. -/
def Dead (h : Heap α) (c : CellId) : Prop :=
  h.status c = some .dying ∨ h.status c = some .freed

/-- The cell whose value's destruction begins with the event. -/
def Event.destroyed? : Event α → Option CellId
  | .destroyed c _ => some c
  | _ => none

/-- The cells whose values' destruction the log has the beginning of, the last first. -/
def destroyed (h : Heap α) : List CellId :=
  h.log.filterMap Event.destroyed?

theorem destroyed_note {e : Event α} (he : e.destroyed? = none) (h : Heap α) :
    (h.note e).destroyed = h.destroyed := by
  simp [destroyed, note, he]

theorem Event.destroyed?_of_isRemark {e : Event α} (he : e.isRemark = true) : e.destroyed? = none := by
  cases e <;> first | rfl | simp [Event.isRemark] at he

@[simp] theorem destroyed_poke (h : Heap α) (p : Place) (x : Option Pointer) :
    (h.poke p x).destroyed = h.destroyed := by
  cases p <;> rfl

@[simp] theorem destroyed_lend (h : Heap α) (p : Place) : (h.lend p).destroyed = h.destroyed := by
  cases p <;> rfl

@[simp] theorem destroyed_unlend (h : Heap α) (p : Place) : (h.unlend p).destroyed = h.destroyed := by
  cases p <;> rfl

@[simp] theorem destroyed_share (h : Heap α) (p : Place) : (h.share p).destroyed = h.destroyed := by
  cases p <;> rfl

@[simp] theorem destroyed_unshare (h : Heap α) (p : Place) :
    (h.unshare p).destroyed = h.destroyed := by
  cases p <;> rfl

theorem destroyed_signOff {o : Owner} {k : Nat} (hk : (h.count o.cell).owners = k + 1) :
    (h.signOff o).2.destroyed = h.destroyed := by
  rw [signOff_eq hk]
  rfl

theorem destroyed_condemn {o : Owner} (hn : (h.count o.cell).owners = 1) (v : Value α) :
    (h.condemn o v).destroyed = o.cell :: h.destroyed := by
  rw [← destroyed_signOff hn]
  rfl

theorem dead_congr {h' : Heap α} (hs : ∀ c, h'.status c = h.status c) (c : CellId) :
    h'.Dead c ↔ h.Dead c := by
  simp only [Dead, hs]

theorem not_dead_of_live? {c : CellId} {v : Value α} (hv : h.live? c = some v) : ¬ h.Dead c := by
  rw [Dead, status_of_live? hv]
  simp

/-! ### What an edit does to the dead -/

/-- An edit kills no cell, or a live one, and the log tells. -/
theorem Edit.deaths {d d' : Draft α} (he : Edit d d') :
    LetsGo d.heap.destroyed d'.heap.destroyed d.heap.Dead d'.heap.Dead := by
  cases he with
  | reorder _ => exact .inl ⟨rfl, fun _ => Iff.rfl⟩
  | @remark h _ _ e hr =>
    exact .inl ⟨destroyed_note (Event.destroyed?_of_isRemark hr) h, fun _ => Iff.rfl⟩
  | @poke h _ _ p _ x _ _ => exact .inl ⟨destroyed_poke h p x, dead_congr (status_poke h p x)⟩
  | @acquire h _ _ c _ => exact .inl ⟨rfl, dead_congr (samePointers_acquire h c).status⟩
  | @allocate h _ _ near v =>
    -- the new cell is live, and there was none
    refine .inl ⟨rfl, fun c => ?_⟩
    have hnew : h.status h.cells.length = none := by simp [status]
    unfold Dead
    rw [status_allocate]
    by_cases hc : c = h.cells.length
    · simp [hc, hnew]
    · simp [hc]
  | @rewrite _ _ _ _ _ _ v' hv _ => exact .inl ⟨rfl, dead_congr (status_setLive hv v')⟩
  | @lend h _ _ p _ _ => exact .inl ⟨destroyed_lend h p, dead_congr (samePointers_lend h p).status⟩
  | @unlend h _ _ p => exact .inl ⟨destroyed_unlend h p, dead_congr (samePointers_unlend h p).status⟩
  | @share h _ _ p _ => exact .inl ⟨destroyed_share h p, dead_congr (samePointers_share h p).status⟩
  | @unshare h _ _ p =>
    exact .inl ⟨destroyed_unshare h p, dead_congr (samePointers_unshare h p).status⟩
  | postpone _ _ _ => exact .inl ⟨rfl, fun _ => Iff.rfl⟩
  | pick => exact .inl ⟨rfl, fun _ => Iff.rfl⟩
  | skip _ => exact .inl ⟨rfl, fun _ => Iff.rfl⟩
  | giveUp => exact .inl ⟨rfl, fun _ => Iff.rfl⟩
  | advance _ _ => exact .inl ⟨rfl, fun _ => Iff.rfl⟩
  | signOff hk => exact .inl ⟨destroyed_signOff hk, dead_congr (samePointers_signOff hk).status⟩
  | @destroy _ _ _ o v hn hv =>
    refine .inr ⟨o.cell, not_dead_of_live? hv, destroyed_condemn hn v, fun c => ?_⟩
    unfold Dead
    rw [status_condemn hn hv]
    by_cases hc : c = o.cell <;> simp [hc]
  | @strip _ _ _ c cell v v' _ hc hcon _ =>
    refine .inl ⟨rfl, dead_congr fun c' => (status_setContent hc (.dying v') c').trans ?_⟩
    split
    · rename_i h'
      simp [h', status, hc, hcon]
    · rfl
  | @free h _ _ c cell v hc hcon _ =>
    refine .inl ⟨rfl, fun c' => ?_⟩
    have hfreed : ((h.setContent c .freed).note (.freed c)).status c' =
        if c' = c then some .freed else h.status c' := status_setContent hc .freed c'
    unfold Dead
    rw [hfreed]
    by_cases h' : c' = c
    · simp [h', status, hc, hcon]
    · simp [h']

/-- The log names each dead cell once, and no other. -/
theorem Moment.recorded (hm : Moment n m) : Recorded m.heap.destroyed m.heap.Dead := by
  refine hm.induct (Q := fun d => Recorded d.heap.destroyed d.heap.Dead) ⟨.nil, fun c => ?_⟩
    fun _ he hr => hr.step he.deaths
  simp [Heap.empty, destroyed, Dead, status]

/-- Whoever is dead remains so. -/
theorem Later.dead {m' : Machine α} (hm : Moment n m) (hl : Later m m') {c : CellId}
    (hc : m.heap.Dead c) : m'.heap.Dead c :=
  hl.induct (Q := fun d => d.heap.Dead c) (fun _ he hd => he.deaths.keeps hd) hm hc

/-! ### Which cells have pointers to them -/

/-- Whether some pointer targets the cell. -/
def Machine.targeted (m : Machine α) (c : CellId) : Bool :=
  m.owners.any (Owner.isOf c)

theorem Machine.targeted_eq_false {c : CellId} :
    m.targeted c = false ↔ ∀ o ∈ m.owners, o.cell ≠ c := by
  simp [Machine.targeted, Owner.isOf]

theorem status_eq_none {c : CellId} : h.status c = none ↔ h.cells.length ≤ c := by
  simp [status]

/-- A cell that was made is dead if and only if its count is zero. -/
theorem Moment.dead_iff_count (hm : Moment n m) {c : CellId} (hc : c < m.heap.cells.length) :
    m.heap.Dead c ↔ (m.heap.count c).owners = 0 := by
  have halive : 0 < (m.heap.count c).owners ↔ m.heap.status c = some .live := hm.sound.alive c
  have hsome : m.heap.status c ≠ none := fun e => absurd (status_eq_none.mp e) (Nat.not_le.mpr hc)
  unfold Dead
  rcases hs : m.heap.status c with _ | _ | _ | _
  · exact absurd hs hsome
  · rw [hs] at halive
    have := halive.mpr rfl
    simp
    omega
  · rw [hs] at halive
    simpa using halive
  · rw [hs] at halive
    simpa using halive

theorem Moment.count_eq_zero (hm : Moment n m) (c : CellId) :
    (m.heap.count c).owners = 0 ↔ m.targeted c = false := by
  rw [hm.count_eq, List.countP_eq_zero]
  simp [Machine.targeted]

theorem Dead.lt {c : CellId} (hc : h.Dead c) : c < h.cells.length := by
  by_cases hlt : c < h.cells.length
  · exact hlt
  · have hnone : h.status c = none := status_eq_none.mpr (Nat.not_lt.mp hlt)
    simp [Dead, hnone] at hc

/-- A cell is dead if and only if it was made and no pointer targets it. -/
theorem Moment.dead_iff (hm : Moment n m) {c : CellId} :
    m.heap.Dead c ↔ c < m.heap.cells.length ∧ ∀ o ∈ m.owners, o.cell ≠ c := by
  rw [← Machine.targeted_eq_false, ← hm.count_eq_zero]
  constructor
  · intro hdead
    exact ⟨hdead.lt, (hm.dead_iff_count hdead.lt).mp hdead⟩
  · rintro ⟨hlt, hcount⟩
    exact (hm.dead_iff_count hlt).mpr hcount

/-! ### The lives of values -/

/-- What is reached through a pointer is not dead. -/
theorem through_ne_dead {c : CellId} (hc : h.Dead c) (alone : Bool) (p : Place) (v : Value α) :
    h.through alone p ≠ .ok (c, v) := by
  intro ht
  obtain ⟨-, -, -, -, -, hv, -⟩ := through_eq_ok ht
  exact not_dead_of_live? hv hc

/-- Of the cells that were made, some are dead, and the others have pointers to them. -/
theorem Moment.length_cells (hm : Moment n m) :
    m.heap.cells.length = m.heap.destroyed.length +
      ((List.range m.heap.cells.length).filter m.targeted).length := by
  have hperm : m.heap.destroyed.Perm
      ((List.range m.heap.cells.length).filter fun c => !m.targeted c) := by
    apply (List.perm_ext_iff_of_nodup hm.recorded.nodup (List.nodup_range.filter _)).mpr
    intro c
    rw [hm.recorded.mem, hm.dead_iff, List.mem_filter, List.mem_range, ← Machine.targeted_eq_false]
    simp
  calc m.heap.cells.length
      = (List.range m.heap.cells.length).length := List.length_range.symm
    _ = _ := List.length_eq_countP_add_countP m.targeted
    _ = _ := by
      rw [hperm.length_eq, ← List.countP_eq_length_filter, ← List.countP_eq_length_filter, Nat.add_comm]
      simp

/-- When nothing is left to do, each dead cell is freed. -/
theorem Moment.freed_of_tasks_nil (hm : Moment n m) (ht : m.tasks = []) {c : CellId}
    (hc : m.heap.Dead c) : m.heap.status c = some .freed := by
  rcases hc with hdying | hfreed
  · have hd : Task.dismantle c ∈ m.tasks := (hm.sound.dying c).mp hdying
    rw [ht] at hd
    simp at hd
  · exact hfreed

theorem Moment.mem_destroyed_iff (hm : Moment n m) {c : CellId} :
    c ∈ m.heap.destroyed ↔ c < m.heap.cells.length ∧ ∀ o ∈ m.owners, o.cell ≠ c :=
  (hm.recorded.mem c).trans hm.dead_iff

/-- When nothing is left to do, a cell that was made is freed, or it has an owner. -/
theorem Moment.freed_or_owned (hm : Moment n m) (ht : m.tasks = []) {c : CellId}
    (hlt : c < m.heap.cells.length) :
    m.heap.status c = some .freed ∧ c ∈ m.heap.destroyed ∨
      0 < (m.heap.count c).owners ∧ c ∉ m.heap.destroyed := by
  rw [hm.recorded.mem]
  by_cases hdead : m.heap.Dead c
  · exact .inl ⟨hm.freed_of_tasks_nil ht hdead, hdead⟩
  · have hpos := mt (hm.dead_iff_count hlt).mpr hdead
    exact .inr ⟨Nat.pos_of_ne_zero hpos, hdead⟩

/-- An operation destroys the values that have no owner any more after it, of those that had
one before and those that it makes. -/
theorem Moment.destroyed_exec_iff (hm : Moment n ⟨h, []⟩) (op : Op α) {c : CellId}
    (hlt : c < (h.exec op).1.cells.length) :
    c ∈ (h.exec op).1.destroyed ∧ c ∉ h.destroyed ↔
      (h.cells.length ≤ c ∨ ∃ o ∈ h.owners, o.cell = c) ∧
      ∀ o ∈ (h.exec op).1.owners, o.cell ≠ c := by
  have howners : ∀ g : Heap α, (⟨g, []⟩ : Machine α).owners = g.owners := fun g => List.append_nil _
  have hafter : c ∈ (h.exec op).1.destroyed ↔ ∀ o ∈ (h.exec op).1.owners, o.cell ≠ c := by
    rw [(hm.exec op).mem_destroyed_iff, howners]
    exact and_iff_right hlt
  have hbefore : c ∉ h.destroyed ↔ h.cells.length ≤ c ∨ ∃ o ∈ h.owners, o.cell = c := by
    rw [hm.mem_destroyed_iff, howners, Classical.not_and_iff_not_or_not, Nat.not_lt]
    simp
  rw [hafter, hbefore]
  exact and_comm

/-- **Each value is destroyed once, on time.** No value is destroyed twice. At every moment
exactly those are destroyed that no pointer targets. A count that is zero remains so, and the
value is not read through a pointer any more. When nothing is left to do, each cell that
was made is either freed or has an owner. And an operation comes to an end, and destroys
exactly the values that lost their last owner in its course. -/
theorem Moment.destroyed_once_on_time (hm : Moment n m) :
    m.heap.destroyed.Nodup ∧
    (∀ c, c ∈ m.heap.destroyed ↔ c < m.heap.cells.length ∧ ∀ o ∈ m.owners, o.cell ≠ c) ∧
    (∀ c, c < m.heap.cells.length → (m.heap.count c).owners = 0 → ∀ m', Later m m' →
      (m'.heap.count c).owners = 0 ∧ (∀ o ∈ m'.owners, o.cell ≠ c) ∧
      ∀ alone p v, m'.heap.through alone p ≠ .ok (c, v)) ∧
    (m.tasks = [] →
      m.heap.cells.length = m.heap.destroyed.length +
        ((List.range m.heap.cells.length).filter m.targeted).length ∧
      (∀ c, c < m.heap.cells.length →
        m.heap.status c = some .freed ∧ c ∈ m.heap.destroyed ∨
        0 < (m.heap.count c).owners ∧ c ∉ m.heap.destroyed) ∧
      ∀ op, (Machine.start m.heap op).settle.tasks = [] ∧
        ∀ c, c < (m.heap.exec op).1.cells.length →
          (c ∈ (m.heap.exec op).1.destroyed ∧ c ∉ m.heap.destroyed ↔
            (m.heap.cells.length ≤ c ∨ ∃ o ∈ m.heap.owners, o.cell = c) ∧
            ∀ o ∈ (m.heap.exec op).1.owners, o.cell ≠ c)) := by
  refine ⟨hm.recorded.nodup, fun c => hm.mem_destroyed_iff, fun c hlt hcount m' hl => ?_, fun ht =>
    ⟨hm.length_cells, fun c hlt => hm.freed_or_owned ht hlt, fun op => ⟨settle_tasks _, ?_⟩⟩⟩
  · have hdead : m'.heap.Dead c := hl.dead hm ((hm.dead_iff_count hlt).mpr hcount)
    have hm' := hl.moment hm
    exact ⟨(hm'.dead_iff_count hdead.lt).mp hdead, (hm'.dead_iff.mp hdead).2, through_ne_dead hdead⟩
  · obtain ⟨h, ts⟩ := m
    obtain rfl : ts = [] := ht
    exact fun c hlt => hm.destroyed_exec_iff op hlt

/-- After the destructor of `rescueHeap` has run: its cell is freed, the rescued one is not. -/
def rescued : Machine Nat := ⟨(rescueHeap.exec (.act (.drop (.var 2)))).1, []⟩

theorem rescued_moment : Moment 3 rescued :=
  .exec (.operate _ (.operate _ (.operate _ .empty))) _

theorem rescued_destroyed : rescued.heap.destroyed = [1] ∧ rescued.heap.cells.length = 2 ∧
    (rescued.heap.count 0).owners = 2 ∧
    (∀ m', Later rescued m' →
      (m'.heap.count 1).owners = 0 ∧ (∀ o ∈ m'.owners, o.cell ≠ 1) ∧
      ∀ alone p v, m'.heap.through alone p ≠ .ok (1, v)) ∧
    2 = 1 + ((List.range 2).filter rescued.targeted).length :=
  ⟨by decide, by decide, by decide,
    (Moment.destroyed_once_on_time rescued_moment).2.2.1 1 (by decide) (by decide),
    ((Moment.destroyed_once_on_time rescued_moment).2.2.2 rfl).1⟩

end Custody.Heap
