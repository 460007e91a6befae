/-
# Loans end

Whoever reads a variable while an operation goes on leaves a task that ends the loan.
So a variable has no more readers than there are such tasks, and when nothing is left
to do it may be read and changed.

Key definitions: `Task.isLoan`, `LoansEnd`.
Key theorems: `Edit.loansEnd`, `Moment.writable`.
-/
import Custody.Proofs.Heap.Run

namespace Custody.Heap

variable {α : Type} {n : Nat} {h : Heap α} {hand : List Owner} {ts : List (Task α)}

/-- Whether the task ends a loan of the variable to a reader. -/
def Task.isLoan (i : Nat) : Task α → Bool
  | .unshare (.var j) => i = j
  | _ => false

/-- How many have borrowed the variable to read it. -/
def readers (h : Heap α) (i : Nat) : Nat :=
  (h.vars[i]?.map (·.readers)).getD 0

/-- A variable has no more readers than there are tasks that end a loan of it. -/
def LoansEnd (d : Draft α) : Prop :=
  ∀ i, d.heap.readers i ≤ d.tasks.countP (Task.isLoan i)

/-! ### Readers of a variable -/

theorem readers_modifyVar (h : Heap α) (j : Nat) (f : Variable → Variable) (i : Nat) :
    (h.modifyVar j f).readers i =
      if i = j then (h.vars[j]?.map fun v => (f v).readers).getD 0 else h.readers i := by
  simp only [readers, modifyVar, List.getElem?_modify]
  by_cases hij : i = j
  · subst hij
    simp [Function.comp_def]
  · have : ¬ j = i := fun e => hij e.symm
    simp [hij, this]

/-- A change of a variable that leaves its readers alone. -/
theorem readers_modifyVar_of_eq (h : Heap α) (j : Nat) {f : Variable → Variable}
    (hf : ∀ v, (f v).readers = v.readers) (i : Nat) : (h.modifyVar j f).readers i = h.readers i := by
  rw [readers_modifyVar]
  split
  · rename_i hij
    simp [hij, readers, hf]
  · rfl

@[simp] theorem readers_poke (h : Heap α) (p : Place) (x : Option Pointer) (i : Nat) :
    (h.poke p x).readers i = h.readers i := by
  cases p with
  | var j =>
    apply readers_modifyVar_of_eq
    intro _
    rfl
  | inside c hop => rfl

@[simp] theorem readers_lend (h : Heap α) (p : Place) (i : Nat) :
    (h.lend p).readers i = h.readers i := by
  cases p with
  | var j =>
    apply readers_modifyVar_of_eq
    intro _
    rfl
  | inside c hop => rfl

@[simp] theorem readers_unlend (h : Heap α) (p : Place) (i : Nat) :
    (h.unlend p).readers i = h.readers i := by
  cases p with
  | var j =>
    apply readers_modifyVar_of_eq
    intro _
    rfl
  | inside c hop => rfl

theorem readers_share_le (h : Heap α) (p : Place) (i : Nat) :
    (h.share p).readers i ≤ h.readers i + [Task.unshare (α := α) p].countP (Task.isLoan i) := by
  cases p with
  | inside c hop => exact Nat.le_add_right _ _
  | var j =>
    rw [share, readers_modifyVar]
    by_cases hij : i = j
    · subst hij
      simp only [if_true, readers, List.countP_singleton, Task.isLoan, decide_true]
      cases h.vars[i]? <;> simp
    · simp [hij, Task.isLoan]

theorem readers_unshare_le (h : Heap α) (p : Place) {i k : Nat}
    (hk : h.readers i ≤ k + [Task.unshare (α := α) p].countP (Task.isLoan i)) :
    (h.unshare p).readers i ≤ k := by
  cases p with
  | inside c hop => simpa [Task.isLoan, unshare] using hk
  | var j =>
    rw [unshare, readers_modifyVar]
    by_cases hij : i = j
    · subst hij
      simp only [readers, List.countP_singleton, Task.isLoan, decide_true, if_true] at hk ⊢
      cases hv : h.vars[i]? with
      | none => simp
      | some v =>
        simp only [hv, Option.map_some, Option.getD_some] at hk ⊢
        omega
    · simpa [hij, Task.isLoan] using hk

theorem readers_signOff (h : Heap α) (o : Owner) (i : Nat) :
    (h.signOff o).2.readers i = h.readers i := by
  unfold signOff
  simp only
  split <;> rfl

/-! ### Each edit preserves it -/

/-- A task more, or another in its place, does no harm. -/
theorem LoansEnd.of_le {d d' : Draft α} (hl : LoansEnd d)
    (hread : ∀ i, d'.heap.readers i ≤ d.heap.readers i)
    (htasks : ∀ i, d.tasks.countP (Task.isLoan i) ≤ d'.tasks.countP (Task.isLoan i)) : LoansEnd d' :=
  fun i => Nat.le_trans (hread i) (Nat.le_trans (hl i) (htasks i))

theorem countP_isLoan_cons (i : Nat) (t : Task α) (ts : List (Task α)) :
    (t :: ts).countP (Task.isLoan i) = ts.countP (Task.isLoan i) + [t].countP (Task.isLoan i) := by
  simp [List.countP_cons]

theorem countP_isLoan_filter (i : Nat) (ts : List (Task α)) :
    (ts.filter Task.isOwed).countP (Task.isLoan i) = ts.countP (Task.isLoan i) := by
  rw [List.countP_filter]
  apply List.countP_congr
  intro t _
  cases t <;> simp [Task.isOwed, Task.isLoan]

/-- **Every edit preserves it.** -/
theorem Edit.loansEnd {d d' : Draft α} (he : Edit d d') (hl : LoansEnd d) : LoansEnd d' := by
  cases he with
  | reorder _ => exact hl
  | remark _ => exact hl
  | @poke h _ _ p _ x _ _ => exact hl.of_le (fun i => Nat.le_of_eq (readers_poke h p x i)) fun _ => Nat.le_refl _
  | acquire _ => exact hl
  | allocate near v => exact hl
  | rewrite _ _ => exact hl
  | @lend h _ _ p _ _ =>
    exact hl.of_le (fun i => Nat.le_of_eq (readers_lend h p i)) fun i => by simp [Task.isLoan]
  | @unlend h _ _ p =>
    exact hl.of_le (fun i => Nat.le_of_eq (readers_unlend h p i)) fun i => by simp [Task.isLoan]
  | @share h _ ts p _ =>
    intro i
    rw [countP_isLoan_cons]
    exact Nat.le_trans (readers_share_le h p i) (Nat.add_le_add_right (hl i) _)
  | @unshare h _ ts p =>
    intro i
    refine readers_unshare_le h p ?_
    rw [← countP_isLoan_cons]
    exact hl i
  | postpone _ _ _ =>
    refine hl.of_le (fun _ => Nat.le_refl _) fun i => ?_
    rw [countP_isLoan_cons]
    exact Nat.le_add_right _ _
  | pick => exact hl.of_le (fun _ => Nat.le_refl _) fun i => by simp [Task.isLoan]
  | @skip _ _ ts t ht =>
    refine hl.of_le (fun _ => Nat.le_refl _) fun i => ?_
    cases t <;> simp [Task.isOwed, Task.isLoan] at ht ⊢
  | giveUp => exact hl.of_le (fun _ => Nat.le_refl _) fun i =>
    Nat.le_of_eq (countP_isLoan_filter i _).symm
  | advance _ _ => exact hl.of_le (fun _ => Nat.le_refl _) fun i => by simp [Task.isLoan]
  | @signOff h _ _ o _ _ =>
    exact hl.of_le (fun i => Nat.le_of_eq (readers_signOff h o i)) fun i => by simp [Task.isLoan]
  | @destroy h _ _ o v _ _ =>
    exact hl.of_le (fun i => Nat.le_of_eq (readers_signOff h o i)) fun i => by simp [Task.isLoan]
  | strip _ _ _ => exact hl
  | free _ _ _ => exact hl.of_le (fun _ => Nat.le_refl _) fun i => by simp [Task.isLoan]

theorem Moment.loansEnd {m : Machine α} (hm : Moment n m) : LoansEnd m.draft := by
  refine hm.induct (fun i => ?_) fun _ he hl => he.loansEnd hl
  simp only [readers, Heap.empty, List.getElem?_replicate]
  split <;> simp [Variable.fresh]

/-- If no task is left no variable is borrowed. -/
theorem LoansEnd.writable (hl : LoansEnd ⟨h, [], []⟩) (hs : Sound ⟨h, [], []⟩) (p : Place) :
    h.writable p = true := by
  cases p with
  | inside c hop => rfl
  | var i =>
    have hread : h.readers i ≤ 0 := hl i
    have hlent : ¬ h.isLent i = true := fun hl => by simpa using (hs.lent i).mp hl
    simp only [Heap.writable]
    cases hv : h.vars[i]? with
    | none => rfl
    | some v =>
      simp only [readers, hv, isLent, Option.map_some, Option.getD_some, Nat.le_zero_eq,
        Bool.not_eq_true] at hread hlent
      simp [hread, hlent]

/-- **When nothing is left to do nothing is borrowed.** -/
theorem Moment.writable (hm : Moment n ⟨h, []⟩) (p : Place) : h.writable p = true :=
  LoansEnd.writable hm.loansEnd hm.sound p

/-! ### Variables that are not borrowed -/

/-- A variable that may be changed is claimed if it is there. -/
theorem claim_var {self : Option CellId} {i : Nat} (hw : h.writable (.var i) = true) :
    h.claim self (.var i) = if h.vars[i]?.isSome then .ok (.var i) else .error .absent := by
  unfold claim
  simp only [place?, hw, if_true]
  cases hv : h.vars[i]? <;> simp [peek, hv]

end Custody.Heap
