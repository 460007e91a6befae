/-
# Tasks in order

What is still to do is a list, and some tasks only make sense because of others
that come after them. A task that puts a pointer into a place may do so because
nobody else touches the place until it is given back: a variable by the end of its
loan, a field of a dying value by the end of the value. That task, the place's
keeper, is the last that has to do with the place. A destructor runs before its
value is dismantled, and while it runs none of the value's fields waits for a pointer.

Key definitions: `Task.fills`, `Place.keeper`, `Open`, `Task.Fits`, `InOrder`.
Key theorems: `InOrder.open_of_keeper`, `InOrder.filter_isOwed`.
-/
import Custody.Proofs.Heap.Changes

namespace Custody.Heap

variable {α : Type}

/-- The place that the task puts a pointer into. -/
def Task.fills : Task α → Option Place
  | .adopt dst _ => some dst
  | .follow dst _ => some dst
  | .place dst _ => some dst
  | _ => none

/-- The task that gives a place back: the end of the variable's loan, or of the value. -/
def Place.keeper : Place → Task α
  | .var i => .unlend (.var i)
  | .inside c _ => .dismantle c

/-- No task puts a pointer into the place. -/
def Open (ts : List (Task α)) (p : Place) : Prop :=
  ∀ t ∈ ts, t.fills ≠ some p

/-- What a task requires of those that come after it. -/
structure Task.Fits (t : Task α) (rest : List (Task α)) : Prop where
  fills : ∀ p, t.fills = some p → Open rest p ∧ p.keeper ∈ rest
  keeper : ∀ p : Place, t = p.keeper → t ∉ rest
  script : ∀ c acts last, t = .script c acts last →
    .dismantle c ∈ rest ∧ ∀ hop, Open rest (.inside c hop)
  follow : ∀ p o, t = .follow p o → .release o ∈ rest

/-- Each task finds after it what it requires. -/
inductive InOrder : List (Task α) → Prop
  | nil : InOrder []
  | cons {t : Task α} {rest : List (Task α)} : t.Fits rest → InOrder rest → InOrder (t :: rest)

theorem InOrder.head {t : Task α} {rest : List (Task α)} : InOrder (t :: rest) → t.Fits rest
  | .cons h _ => h

theorem InOrder.tail {t : Task α} {rest : List (Task α)} : InOrder (t :: rest) → InOrder rest
  | .cons _ h => h

@[simp] theorem Place.keeper_fills (p : Place) : (p.keeper : Task α).fills = none := by
  cases p <;> rfl

@[simp] theorem Place.keeper_isOwed (p : Place) : (p.keeper : Task α).isOwed = true := by
  cases p <;> rfl

@[simp] theorem Place.keeper_owners (p : Place) : (p.keeper : Task α).owners = [] := by
  cases p <;> rfl

theorem Task.owners_of_not_isOwed {t : Task α} (h : t.isOwed = false) : t.owners = [] := by
  cases t <;> first | rfl | simp [Task.isOwed] at h

/-! ### Open places -/

theorem open_cons {t : Task α} {rest : List (Task α)} {p : Place} :
    Open (t :: rest) p ↔ t.fills ≠ some p ∧ Open rest p :=
  List.forall_mem_cons

theorem Open.subset {ts ts' : List (Task α)} {p : Place} (h : Open ts p) (hs : ∀ t ∈ ts', t ∈ ts) :
    Open ts' p :=
  fun t ht => h t (hs t ht)

/-- A place that waits for a pointer still has its keeper. -/
theorem InOrder.keeper_mem {ts : List (Task α)} (ho : InOrder ts) {t : Task α} (ht : t ∈ ts)
    {p : Place} (hp : t.fills = some p) : p.keeper ∈ ts := by
  induction ho with
  | nil => simp at ht
  | cons hfit _ ih =>
    rcases List.mem_cons.mp ht with rfl | ht
    · exact List.mem_cons_of_mem _ (hfit.fills p hp).2
    · exact List.mem_cons_of_mem _ (ih ht)

/-- So a place whose keeper is gone waits for nothing. -/
theorem InOrder.open_of_keeper {ts : List (Task α)} (ho : InOrder ts) {p : Place}
    (hk : p.keeper ∉ ts) : Open ts p :=
  fun _ ht hp => hk (ho.keeper_mem ht hp)

/-! ### Tasks that fit -/

/-- A task that fills no place, keeps none and is no destructor fits anywhere. -/
theorem Task.fits_of_plain {t : Task α} (hf : t.fills = none) (hk : ∀ p : Place, t ≠ p.keeper)
    (hs : ∀ c acts last, t ≠ .script c acts last) (rest : List (Task α)) : t.Fits rest where
  fills p hp := by simp [hf] at hp
  keeper p hp := absurd hp (hk p)
  script c acts last ht := absurd ht (hs c acts last)
  follow p o ht := by simp [ht, Task.fills] at hf

theorem Task.fits_release (o : Owner) (rest : List (Task α)) : (Task.release o).Fits rest :=
  Task.fits_of_plain rfl (fun p => by cases p <;> simp [Place.keeper]) (fun _ _ _ => by simp) rest

theorem Task.fits_unshare (p : Place) (rest : List (Task α)) : (Task.unshare p).Fits rest :=
  Task.fits_of_plain rfl (fun q => by cases q <;> simp [Place.keeper]) (fun _ _ _ => by simp) rest

/-- A keeper fits where its place has no other. -/
theorem Task.fits_keeper {p : Place} {rest : List (Task α)} (h : p.keeper ∉ rest) :
    (p.keeper : Task α).Fits rest where
  fills q hq := by simp at hq
  keeper _ _ := h
  script _ _ _ ht := by cases p <;> simp [Place.keeper] at ht
  follow _ _ ht := by cases p <;> simp [Place.keeper] at ht

theorem Task.fits_unlend_inside (c : CellId) (hop : Hop) (rest : List (Task α)) :
    (Task.unlend (.inside c hop)).Fits rest :=
  Task.fits_of_plain rfl (fun q => by cases q <;> simp [Place.keeper]) (fun _ _ _ => by simp) rest

theorem Task.fits_script {c : CellId} {rest : List (Task α)} (hd : Task.dismantle c ∈ rest)
    (hop : ∀ hop, Open rest (.inside c hop)) (acts : List (Act α)) (last : Answer α) :
    (Task.script c acts last).Fits rest where
  fills q hq := by simp [Task.fills] at hq
  keeper q hq := by cases q <;> simp [Place.keeper] at hq
  script c' _ _ ht := by
    obtain ⟨rfl, -, -⟩ := by simpa using ht
    exact ⟨hd, hop⟩
  follow _ _ ht := by simp at ht

/-- A task that fills a place fits where the place waits for nothing else and has its keeper. -/
theorem Task.fits_of_fills {t : Task α} {p : Place} {rest : List (Task α)} (ht : t.fills = some p)
    (hp : Open rest p ∧ p.keeper ∈ rest) (hf : ∀ q o, t = .follow q o → .release o ∈ rest) :
    t.Fits rest where
  fills q hq := by
    obtain rfl : p = q := by simpa [ht] using hq
    exact hp
  keeper q hq := by simp [hq] at ht
  script _ _ _ hs := by simp [hs, Task.fills] at ht
  follow := hf

/-- If only what is owed is left, it is still in order. -/
theorem InOrder.filter_isOwed {ts : List (Task α)} (ho : InOrder ts) :
    InOrder (ts.filter Task.isOwed) := by
  have hsub : ∀ {l : List (Task α)}, ∀ t ∈ l.filter Task.isOwed, t ∈ l :=
    fun t ht => (List.mem_filter.mp ht).1
  induction ho with
  | nil => exact .nil
  | @cons t rest hfit _ ih =>
    rw [List.filter_cons]
    split
    · rename_i howed
      refine .cons ⟨fun p hp => ?_, fun p hp hm => hfit.keeper p hp (hsub _ hm), ?_, ?_⟩ ih
      · obtain ⟨hopen, hkeep⟩ := hfit.fills p hp
        exact ⟨hopen.subset hsub, List.mem_filter.mpr ⟨hkeep, p.keeper_isOwed⟩⟩
      · rintro c acts last rfl
        simp [Task.isOwed] at howed
      · rintro p o rfl
        simp [Task.isOwed] at howed
    · exact ih

end Custody.Heap
