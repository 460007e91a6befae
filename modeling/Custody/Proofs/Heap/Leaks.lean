/-
# What is kept alive

A live cell has owners, so looking for them leads back to a variable or around a
cycle. Every cycle has a pointer in it that was put there by overwriting a link: no
other act, and no step of a cascade, puts a pointer on a cycle. So where no link was
overwritten, whatever is live can be reached from a variable.

A course is a run, with the pointers in values that overwriting a link put there, and
that have been there ever since.

Key definitions: `Heap.Targets`, `Heap.Holds`, `Course`.
Key theorems: `Sound.exists_origin`, `Course.cycle_overwritten`, `Course.nothing_leaks`.
-/
import Custody.Proofs.Heap.Cycles

namespace Custody.Heap

variable {α : Type} {n : Nat} {h : Heap α} {m : Machine α} {S : Set Edge}

/-! ### Where owners are -/

/-- Whether the pointer in the variable targets the cell. -/
def Targets (h : Heap α) (i : Nat) (c : CellId) : Prop :=
  ∃ q o, h.pointer? (.var i) = some q ∧ q.owner? = some o ∧ o.cell = c

/-- Whether a pointer in some variable targets the cell. -/
def Holds (h : Heap α) (c : CellId) : Prop :=
  ∃ i, h.Targets i c

theorem Value.mem_owners {v : Value α} {o : Owner} (ho : o ∈ v.owners) :
    ∃ hop, v.get? hop = some (some o) := by
  simp only [Value.owners, Value.pointers, List.mem_filterMap, List.mem_append, id_eq,
    exists_eq_right] at ho
  rcases ho with ho | ho
  · obtain ⟨k, hk⟩ := List.getElem?_of_mem ho
    exact ⟨.field k, hk⟩
  · obtain ⟨k, hk⟩ := List.getElem?_of_mem ho
    exact ⟨.link k, hk⟩

/-- An owner that is stored is in a variable, or an edge. -/
theorem mem_owners_cases {o : Owner} (ho : o ∈ h.owners) :
    h.Holds o.cell ∨ ∃ e ∈ h.edges, e.owner = o := by
  rcases List.mem_append.mp ho with ho | ho
  · obtain ⟨v, hv, hheld⟩ := List.mem_flatMap.mp ho
    obtain ⟨i, hi⟩ := List.getElem?_of_mem hv
    obtain ⟨q, hq, hqo⟩ : ∃ q, v.pointer = some q ∧ q.owner? = some o := by
      simpa [held, Option.bind_eq_some_iff] using hheld
    exact .inl ⟨i, q, o, by simp [pointer?, peek, hi, hq], hqo, rfl⟩
  · obtain ⟨cell, hcell, hmem⟩ := List.mem_flatMap.mp ho
    obtain ⟨c, hc⟩ := List.getElem?_of_mem hcell
    obtain ⟨v, hv, hvo⟩ : ∃ v, cell.content.value? = some v ∧ o ∈ v.owners := by
      rcases cell with ⟨_, _, v | v | _⟩
      · exact ⟨v, rfl, hmem⟩
      · exact ⟨v, rfl, hmem⟩
      · simp at hmem
    obtain ⟨hop, hhop⟩ := Value.mem_owners hvo
    exact .inr ⟨⟨c, hop, o⟩, mem_edges_iff.mpr ⟨cell, v, hc, hv, hhop⟩, rfl⟩

/-- **Every live cell is reached** from one that a variable holds, or from one on a cycle, when
nothing is left to do. -/
theorem Sound.exists_origin (hs : Sound (⟨h, [], []⟩ : Draft α)) {c : CellId}
    (hc : h.status c = some .live) :
    ∃ d, h.status d = some .live ∧ Reaches h.edges d c ∧ (h.Holds d ∨ OnCycle h.edges d) := by
  refine Heap.exists_origin (V := fun d => h.status d = some .live) (n := h.cells.length)
    (fun d hd => ?_) (fun d hd => ?_) hc
  · by_contra hlt
    rw [status_eq_none.mpr (Nat.not_lt.mp hlt)] at hd
    simp at hd
  · -- a live cell has an owner; one that is in a value is in a live one
    have hpos := (hs.alive d).mpr hd
    rw [hs.census d] at hpos
    obtain ⟨o, ho, hod⟩ := List.countP_pos_iff.mp hpos
    obtain rfl : o.cell = d := by simpa [Owner.isOf] using hod
    rcases mem_owners_cases (by simpa [Draft.owners] using ho) with hheld | ⟨e, he, rfl⟩
    · exact .inl hheld
    · refine .inr ⟨e, he, rfl, ?_⟩
      rcases status_source he with hlive | hdying
      · exact hlive
      · have := (hs.dying e.source).mp hdying
        simp at this

/-! ### Courses -/

/-- The pointers that overwriting a link puts into values. -/
def overwritten (h : Heap α) : Op α → Set Edge
  | .act _ => ∅
  | op@(.relink _ _ _ _) => (h.operate op).heap.edges \ h.edges

/-- The moments of all runs with `n` variables, with the pointers in values that overwriting a
link put there, and that have been there ever since. -/
inductive Course (n : Nat) : Set Edge → Machine α → Prop
  | empty : Course n ∅ ⟨.empty n, []⟩
  | operate {S : Set Edge} {h : Heap α} (op : Op α) : Course n S ⟨h, []⟩ →
      Course n ((S ∩ (h.operate op).heap.edges) ∪ h.overwritten op) (.start h op)
  | step {S : Set Edge} {m : Machine α} : Course n S m → Course n (S ∩ m.step.heap.edges) m.step

theorem Course.moment (hm : Course n S m) : Moment n m := by
  induction hm with
  | empty => exact .empty
  | operate op _ ih => exact .operate op ih
  | step _ ih => exact .step ih

/-- Every moment is in a course. -/
theorem Moment.exists_course (hm : Moment n m) : ∃ S, Course n S m := by
  induction hm with
  | empty => exact ⟨_, .empty⟩
  | operate op _ ih =>
    obtain ⟨S, hS⟩ := ih
    exact ⟨_, .operate op hS⟩
  | step _ ih =>
    obtain ⟨S, hS⟩ := ih
    exact ⟨_, .step hS⟩

/-- Whoever closes no cycle leaves an overwritten link on each. -/
theorem Calm.cycle_overwritten {h h' : Heap α} (hcalm : Calm h h')
    (hS : ∀ c es, es ≠ [] → Walk h.edges c es c → ∃ e ∈ es, e ∈ S) :
    ∀ c es, es ≠ [] → Walk h'.edges c es c → ∃ e ∈ es, e ∈ S ∩ h'.edges := by
  intro c es hne hw
  obtain ⟨e, he, hmem⟩ := hS c es hne (hcalm.walk hw)
  exact ⟨e, he, hmem, hw.mem e he⟩

/-- **Every cycle has an overwritten link in it.** -/
theorem Course.cycle_overwritten (hm : Course n S m) :
    ∀ c es, es ≠ [] → Walk m.heap.edges c es c → ∃ e ∈ es, e ∈ S := by
  induction hm with
  | empty =>
    rintro c es hne hw
    obtain ⟨e, es, rfl⟩ := List.exists_cons_of_ne_nil hne
    have := status_source (hw.mem e List.mem_cons_self)
    simp [status, Heap.empty] at this
  | @operate S h op hm ih =>
    have hs := hm.moment.sound
    cases op with
    | act a =>
      have hcalm : Calm h (h.perform none a).heap := perform_calm hs (fun _ e => by simp at e) a
      intro c es hne hw
      obtain ⟨e, he, hmem⟩ := hcalm.cycle_overwritten ih c es hne hw
      exact ⟨e, he, .inl hmem⟩
    | relink r path k src =>
      intro c es hne hw
      -- a walk through old pointers only was there before
      by_cases hold : ∀ e ∈ es, e ∈ h.edges
      · obtain ⟨e, he, hmem⟩ := ih c es hne (hw.mono fun e he _ => hold e he)
        exact ⟨e, he, .inl ⟨hmem, hw.mem e he⟩⟩
      · obtain ⟨e, he, hnew⟩ : ∃ e ∈ es, e ∉ h.edges := by simpa using hold
        exact ⟨e, he, .inr ⟨hw.mem e he, hnew⟩⟩
  | step hm ih => exact (step_calm hm.moment.sound).cycle_overwritten ih

/-- Where no link was overwritten, each act of the caller leaves it so, and each step does. -/
theorem Course.act (hm : Course n ∅ (⟨h, []⟩ : Machine α)) (a : Act α) :
    Course n ∅ (.start h (.act a)) := by
  simpa [overwritten] using Course.operate (.act a) hm

theorem Course.step_empty (hm : Course n ∅ m) : Course n ∅ m.step := by
  simpa using Course.step hm

/-- Where no link was overwritten, each live cell is reached from one that a variable holds. -/
theorem Course.reached (hm : Course n ∅ m) (ht : m.tasks = []) {c : CellId}
    (hc : m.heap.status c = some .live) : ∃ d, m.heap.Holds d ∧ Reaches m.heap.edges d c := by
  obtain ⟨h, ts⟩ := m
  obtain rfl : ts = [] := ht
  obtain ⟨d, -, hreach, hheld | ⟨es, hne, hw⟩⟩ := hm.moment.sound.exists_origin hc
  · exact ⟨d, hheld, hreach⟩
  · obtain ⟨e, -, hmem⟩ := hm.cycle_overwritten d es hne hw
    exact absurd hmem (Set.notMem_empty e)

/-- **Only overwriting a link closes a cycle, so nothing else leaks.** At every moment of every
run each cycle of the ownership graph has a pointer in it that overwriting a link put there. No
act puts a pointer on a cycle, and a store leaves the value it reached, through pointers that
are the only owners of their targets, on none. And where no link was overwritten, when nothing
is left to do, each live cell is reached from a variable, so none is left if no variable has a
pointer with a target. -/
theorem Course.nothing_leaks (hm : Course n S m) :
    (∀ c es, es ≠ [] → Walk m.heap.edges c es c → ∃ e ∈ es, e ∈ S) ∧
    (∀ self a, Acting self m.tasks → ∀ e ∈ (m.heap.perform self a).heap.edges,
      OnCycle (m.heap.perform self a).heap.edges e.source → e ∈ m.heap.edges) ∧
    (∀ self r path site src root p c v, Acting self m.tasks → m.heap.claim self r = .ok root →
      m.heap.walk true root path = .ok p → m.heap.through true p = .ok (c, v) →
      ¬ OnCycle (m.heap.perform self (.store r path site src)).heap.edges c) ∧
    (S = ∅ → m.tasks = [] →
      (∀ c, m.heap.status c = some .live → ∃ d, m.heap.Holds d ∧ Reaches m.heap.edges d c) ∧
      ((∀ d, ¬ m.heap.Holds d) → ∀ c, m.heap.status c ≠ some .live)) := by
  have hs := hm.moment.sound
  refine ⟨hm.cycle_overwritten, fun self a ha e he hcycle => ?_,
    fun self r path site src root p c v ha hroot hw ht => performStore_not_onCycle hs ha hroot hw ht,
    fun hS ht => ?_⟩
  · rcases perform_calm hs ha a e he with hold | hnone
    · exact hold
    · exact absurd hcycle hnone
  · subst hS
    refine ⟨fun c hc => hm.reached ht hc, fun hnone c hc => ?_⟩
    obtain ⟨d, hd, -⟩ := hm.reached ht hc
    exact hnone d hd

/-! ### A loop, and a chain

The link of cell 0 is overwritten with a pointer to cell 0 itself, and then the variable
is emptied: the cell stays. In another heap a pointer to cell 0 is stored in the value
of cell 1. -/

/-- A cell whose link leads to itself, and that a variable holds too. -/
def loopHeap : Heap Nat :=
  ((((Heap.empty 2).operate (.act (.make (.var 0) .nullable 5 [] [] [none] 1))).heap.operate
    (.act (.clone (.var 0) [] (.var 1)))).heap.operate (.relink (.var 0) [] 0 (.var 1))).heap

/-- No variable holds the cell any more. -/
def looped : Machine Nat :=
  (Machine.start loopHeap (.act (.drop (.var 0)))).step

theorem looped_moment : Moment 2 looped :=
  .step (.operate _ (.operate _ (.operate _ (.operate _ .empty))))

/-- The link. -/
def loop : Edge := ⟨0, .link 0, ⟨0, ⟨0, 1⟩⟩⟩

/-- Two cells, each held by a variable. -/
def pairHeap : Heap Nat :=
  (((Heap.empty 2).operate (.act (.make (.var 0) .nullable 5 [] [] [] 1))).heap.operate
    (.act (.make (.var 1) .nullable 6 [] [none] [] 1))).heap

/-- The pointer to the first is stored in the value of the second. -/
def chained : Machine Nat :=
  (Machine.start pairHeap (.act (.store (.var 1) [] (.at (.field 0)) (.var 0)))).step

theorem chained_course : Course 2 ∅ chained :=
  (((Course.empty.act _).act _).act _).step_empty

theorem loop_overwritten :
    looped.tasks.length = 0 ∧ looped.heap.status 0 = some .live ∧
    (∃ S, Course 2 S looped ∧ ∃ e ∈ [loop], e ∈ S) ∧
    chained.heap.status 0 = some .live ∧
    ∃ d, chained.heap.Holds d ∧ Reaches chained.heap.edges d 0 := by
  refine ⟨by decide, by decide, ?_, by decide, ?_⟩
  · obtain ⟨S, hS⟩ := looped_moment.exists_course
    have hloop : loop ∈ looped.heap.edges := by
      rw [mem_edges]
      decide
    exact ⟨S, hS, (Course.nothing_leaks hS).1 0 [loop] (by simp) ⟨hloop, rfl, rfl⟩⟩
  · exact ((Course.nothing_leaks chained_course).2.2.2 rfl rfl).1 0 (by decide)

end Custody.Heap
