/-
# Machines that come to the same

Two machines that were in lockstep, and then only end loans and put pointers where they belong,
match if the heaps they come to are alike: in both the same destructors did the same, and were
answered the same but for whether a pointer is the only owner of its target.

Key definitions: `Heap.Alike`, `Machine.Matches`, `Outcome.Matches`.
Key theorems: `Beside.alike`, `Lockstep.matches`.
-/
import Custody.Proofs.Heap.Lockstep

namespace Custody.Heap

variable {α : Type} {h h' : Heap α} {m m' : Machine α} {D : Odds} {root src : Place} {b : Owner}
  {back : List (Task α)} {sure : List Nat}

/-! ### What agrees -/

/-- The heaps have the same live cells with the same counts and values, the same targets of all
pointers, and the same values were destroyed in the same order; and the same was recorded, but
for whether a pointer is the only owner of its target. -/
structure Alike (h h' : Heap α) : Prop where
  status : ∀ c, h'.status c = h.status c
  count : ∀ c, h'.count c = h.count c
  value : ∀ c, Option.Rel Value.Alike (h.live? c) (h'.live? c)
  place : ∀ p, (h'.peek p).isSome = (h.peek p).isSome
  pointer : ∀ p, (h'.pointer? p).isSome = (h.pointer? p).isSome
  target : ∀ p, (h'.ownerAt p).map Owner.cell = (h.ownerAt p).map Owner.cell
  deaths : h'.deaths = h.deaths
  told : List.Forall₂ Event.Alike (h.log.filter Event.isTold) (h'.log.filter Event.isTold)

/-- The two machines come to heaps that are alike. On the way the same destructors do the same
acts in the same steps, and are answered the same; if not the same, the destructor asked whether
the pointer in `src` is the only owner of its target. -/
structure Machine.Matches (src : Place) (m m' : Machine α) : Prop where
  ending : m.settle.heap.Alike m'.settle.heap
  course : ∀ k c a acts last rest, (m.run k).tasks = .script c (a :: acts) last :: rest →
    ∃ last' rest', (m'.run k).tasks = .script c (a :: acts) last' :: rest' ∧ last.Alike last' ∧
      (((m'.run k).heap.perform (some c) a).answer = ((m.run k).heap.perform (some c) a).answer ∨
        ∃ r path root x, a = .ask (.isUnique r path) ∧
          (m.run k).heap.find (some c) r path = .ok (root, src, x) ∧
          ((m.run k).heap.perform (some c) a).answer = .unique true ∧
          ((m'.run k).heap.perform (some c) a).answer = .unique false)
  only : ∀ k c a acts last' rest', (m'.run k).tasks = .script c (a :: acts) last' :: rest' →
    ∃ last rest, (m.run k).tasks = .script c (a :: acts) last :: rest

/-- An act as a machine that has done nothing yet of what the act leaves to do. -/
def Outcome.machine (o : Outcome α) : Machine α := ⟨o.heap, o.todo⟩

/-- The two acts are answered the same, and what they leave to do matches. -/
structure Outcome.Matches (src : Place) (o o' : Outcome α) : Prop where
  answer : o'.answer = o.answer
  machine : Machine.Matches src o.machine o'.machine

theorem Event.Alike.death? {e e' : Event α} (he : e.Alike e') : e'.death? = e.death? := by
  cases he <;> rfl

theorem deaths_eq_of_told
    (ht : List.Forall₂ Event.Alike (h.log.filter Event.isTold) (h'.log.filter Event.isTold)) :
    h'.deaths = h.deaths := by
  have htold : ∀ g : Heap α, g.log.filterMap Event.death? =
      (g.log.filter Event.isTold).filterMap Event.death? := fun g => by
    rw [List.filterMap_filter]
    congr 1
    funext e
    cases e <;> rfl
  have hsame : ∀ {l l' : List (Event α)}, List.Forall₂ Event.Alike l l' →
      l'.filterMap Event.death? = l.filterMap Event.death? := by
    intro l l' hl
    induction hl with
    | nil => rfl
    | cons he _ ih => simp only [List.filterMap_cons, he.death?, ih]
  unfold deaths
  rw [List.filterMap_reverse, List.filterMap_reverse, htold, htold, hsame ht]

/-- Heaps about which nothing is odd but the kinds of some pointers are alike. -/
theorem Beside.alike (hb : Beside ⟨none, none, none, sure⟩ h h') : h.Alike h' where
  status := hb.status
  count c := hb.count_of_ne (by simp)
  value c := by
    rcases hb.live_cases c with ⟨hv, hv'⟩ | ⟨v, v', hv, hv', hlike, -, -⟩
    · rw [hv, hv']
      exact .none
    · rw [hv, hv']
      exact .some hlike
  place := hb.isSome_peek
  pointer p := by simpa using congrArg Option.isSome (hb.pointer? (p := p) (by simp))
  target p := by
    unfold ownerAt
    rcases map_cases (hb.pointer? (p := p) (by simp)) with ⟨hq, hq'⟩ | ⟨q, q', hq, hq', harrow⟩
    · rw [hq, hq']
    · rw [hq, hq']
      exact Odds.cell_eq harrow
  deaths := deaths_eq_of_told hb.told
  told := hb.told

/-! ### From lockstep to the end -/

/-- A destructor that runs does so before the tasks that wait. -/
theorem run_append_script (hcalm : m.Calm) (hback : ∀ t ∈ back, t.isClosing = true) {k : Nat}
    {c : CellId} {acts : List (Act α)} {last : Answer α} {rest : List (Task α)}
    (hts : ((⟨m.heap, m.tasks ++ back⟩ : Machine α).run k).tasks = .script c acts last :: rest) :
    ∃ ts, m.run k = ⟨((⟨m.heap, m.tasks ++ back⟩ : Machine α).run k).heap, .script c acts last :: ts⟩ := by
  rcases run_append hcalm hback k with hk | ⟨-, hclosing⟩
  · rw [hk] at hts ⊢
    cases hrun : m.run k with
    | mk g us =>
      rw [hrun] at hts
      cases us with
      | nil =>
        have hmem : (.script c acts last : Task α) ∈ back := by
          rw [show back = .script c acts last :: rest from hts]
          exact List.mem_cons_self
        exact absurd (hback _ hmem) Bool.false_ne_true
      | cons u us =>
        obtain ⟨rfl, -⟩ : u = .script c acts last ∧ us ++ back = rest := by simpa using hts
        exact ⟨us, rfl⟩
  · rw [hts] at hclosing
    exact absurd (hclosing _ List.mem_cons_self) Bool.false_ne_true

/-- While something is left to do, the tasks that wait come after it. -/
theorem run_append_cons (hcalm : m.Calm) (hback : ∀ t ∈ back, t.isClosing = true) {k : Nat}
    {t : Task α} {ts : List (Task α)} (hts : (m.run k).tasks = t :: ts) :
    (⟨m.heap, m.tasks ++ back⟩ : Machine α).run k = ⟨(m.run k).heap, t :: (ts ++ back)⟩ := by
  rcases run_append hcalm hback k with hk | ⟨hnil, -⟩
  · rw [hk, hts]
    rfl
  · simp [hnil] at hts

/-- **Machines that were in lockstep match, if the heaps they come to are alike.** -/
theorem Lockstep.matches (hl : Lockstep D root src b back m m') {w w' : List (Task α)}
    (hw : ∀ t ∈ w, t.isClosing = true) (hw' : ∀ t ∈ w', t.isClosing = true)
    (hend : (⟨m.settle.heap, w⟩ : Machine α).settle.heap.Alike
      (⟨m'.settle.heap, w'⟩ : Machine α).settle.heap) :
    Machine.Matches src ⟨m.heap, m.tasks ++ w⟩ ⟨m'.heap, m'.tasks ++ w'⟩ where
  ending := by
    rw [settle_append w hl.calm.1, settle_append w' hl.calm.2]
    exact hend
  course k c a acts last rest hts := by
    obtain ⟨ts, hrun⟩ := run_append_script hl.calm.1 hw hts
    have hk := hl.run k
    have hmem : .script c (a :: acts) last ∈ (m.run k).tasks := by
      rw [hrun]
      exact List.mem_cons_self
    have htasks := hk.paired.tasks
    rw [hrun] at htasks
    obtain ⟨t', ts', ht, -, hts'⟩ := List.forall₂_cons_left_iff.mp htasks
    cases ht with
    | @script _ _ _ last' hfair hlike =>
      have hrun' := run_append_cons hl.calm.2 hw' hts'
      have hanswers := hk.answers hmem hfair.1
      rw [hrun'] at *
      rw [hrun] at hanswers
      exact ⟨last', _, rfl, hlike, hanswers⟩
  only k c a acts last' rest' hts' := by
    obtain ⟨ts', hrun'⟩ := run_append_script hl.calm.2 hw' hts'
    have htasks := (hl.run k).paired.tasks
    rw [hrun'] at htasks
    obtain ⟨t, ts, ht, -, hts⟩ := List.forall₂_cons_right_iff.mp htasks
    cases ht with
    | script =>
      rw [run_append_cons hl.calm.1 hw hts]
      exact ⟨_, _, rfl⟩

/-! ### Without destructors -/

theorem run_closing (hm : ∀ t ∈ m.tasks, t.isClosing = true) (k : Nat) :
    ∀ t ∈ (m.run k).tasks, t.isClosing = true := by
  induction k with
  | zero => exact hm
  | succ k ih =>
    rw [run_succ]
    exact closing_step ih

/-- No destructor runs where only loans end and pointers are put where they belong. -/
theorem ne_script_of_closing (hm : ∀ t ∈ m.tasks, t.isClosing = true) (k : Nat) (c : CellId)
    (acts : List (Act α)) (last : Answer α) (rest : List (Task α)) :
    (m.run k).tasks ≠ .script c acts last :: rest := by
  intro hts
  have hmem : (.script c acts last : Task α) ∈ (m.run k).tasks := by
    rw [hts]
    exact List.mem_cons_self
  exact absurd (run_closing hm k _ hmem) Bool.false_ne_true

theorem step_release {o : Owner} {n : Nat} (hn : (h.count o.cell).owners = n + 2) (w : List (Task α)) :
    (⟨h, .release o :: w⟩ : Machine α).step = ⟨(h.signOff o).2, w⟩ :=
  release_more hn

/-- Nor does one where an owner signs off before that which is not the last. -/
theorem ne_script_of_release {o : Owner} {n : Nat} (hn : (h.count o.cell).owners = n + 2)
    {w : List (Task α)} (hw : ∀ t ∈ w, t.isClosing = true) (k : Nat) (c : CellId)
    (acts : List (Act α)) (last : Answer α) (rest : List (Task α)) :
    ((⟨h, .release o :: w⟩ : Machine α).run k).tasks ≠ .script c acts last :: rest := by
  cases k with
  | zero => simp [Machine.run]
  | succ k =>
    rw [← step_run, step_release hn]
    exact ne_script_of_closing hw k c acts last rest

/-- Machines in which no destructor runs match, if the heaps they come to are alike. -/
theorem matches_of_quiet
    (hm : ∀ k c acts last rest, (m.run k).tasks ≠ .script c acts last :: rest)
    (hm' : ∀ k c acts last rest, (m'.run k).tasks ≠ .script c acts last :: rest)
    (hend : m.settle.heap.Alike m'.settle.heap) : Machine.Matches src m m' where
  ending := hend
  course k c _ _ last rest hts := absurd hts (hm k c _ last rest)
  only k c _ _ last rest hts := absurd hts (hm' k c _ last rest)

end Custody.Heap
