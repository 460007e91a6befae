/-
# When tokens are handed back

From one moment to the next at most one token is handed back: that of the owner
whose turn to sign off has come. An owner that was stored and is stored no more
is to sign off, and remains so until it is its turn; and it is stored no more
only if its pointer had to make room for what an act did, or if it was the next
pointer of a dying value.

Key definitions: `Machine.ousted`, `Settles`.
Key theorems: `Moment.settles_start`, `Moment.settles_step`, `Moment.returned_of_release`.
-/
import Custody.Proofs.Heap.Handover
import Custody.Proofs.Heap.Weight

namespace Custody.Heap

variable {α : Type} {n : Nat} {m m' : Machine α} {h : Heap α} {x : Option Pointer}
  {ts : List (Task α)}

/-! ### Tokens that come back -/

/-- Signing off hands the token back, whatever the count is. -/
theorem returned_signOff (h : Heap α) (o : Owner) :
    (h.signOff o).2.returned = (o.cell, o.token) :: h.returned := by
  unfold signOff
  simp only
  split <;> rfl

theorem returned_release (o : Owner) :
    (Machine.release o h ts).heap.returned = (o.cell, o.token) :: h.returned := by
  have hsign := returned_signOff h o
  unfold Machine.release
  split
  · rename_i h' heq
    rwa [heq] at hsign
  · rename_i h' heq
    rw [heq] at hsign
    split
    · exact hsign
    · rename_i v _
      have hdying := books_setContent h' o.cell (.dying v)
      exact (returned_of_books ((books_note rfl _).trans hdying)).trans hsign

theorem returned_adopt (dst src : Place) : (Machine.adopt dst src h).returned = h.returned := by
  unfold Machine.adopt
  split
  · rfl
  · exact (returned_poke _ _ _).trans (returned_duplicate _ _)

theorem returned_dismantle (c : CellId) : (Machine.dismantle c h ts).heap.returned = h.returned := by
  unfold Machine.dismantle
  split
  · exact returned_of_books (books_modifyCell _ _ fun _ => rfl)
  · exact returned_of_books (books_modifyCell _ _ fun _ => rfl)
  · exact returned_of_books ((books_note rfl _).trans (books_modifyCell _ _ fun _ => rfl))
  · rfl

theorem returned_act (c : CellId) (a : Act α) (acts : List (Act α)) (last : Answer α) :
    (Machine.act c a acts last h ts).heap.returned = h.returned := by
  have hperform := (perform_tidy h (some c) a).returned
  cases a with
  | skipIf p k => rfl
  | giveUpIf p =>
    unfold Machine.act
    simp only
    split
    · exact returned_of_books (books_note rfl h)
    · rfl
  | report say => exact returned_of_books (books_note rfl h)
  | _ => exact hperform

/-- A step in which no owner signs off hands no token back. -/
theorem returned_step (hm : ∀ o, m.tasks.head? ≠ some (.release o)) :
    m.step.heap.returned = m.heap.returned := by
  obtain ⟨h, ts⟩ := m
  cases ts with
  | nil => rfl
  | cons t ts =>
    cases t with
    | release o => exact absurd rfl (hm o)
    | adopt dst src => exact returned_adopt dst src
    | follow dst o => exact returned_poke _ _ _
    | place dst q => exact returned_poke _ _ _
    | unlend p => exact returned_of_books (books_unlend h p)
    | unshare p => exact returned_of_books (books_unshare h p)
    | dismantle c => exact returned_dismantle c
    | script c acts last =>
      cases acts with
      | nil => rfl
      | cons a acts => exact returned_act c a acts last

/-! ### Tasks that are left -/

/-- The pointer that the next step drops, clears or gives another target, or puts another in
place of. -/
def Machine.ousted (m : Machine α) : Option Pointer :=
  match m.tasks with
  | .script c (a :: _) _ :: _ => m.heap.ousted (some c) a
  | .dismantle c :: _ =>
    (m.heap.cells[c]?.bind fun cell => cell.content.pointers.head?).map .nullable
  | _ => none

/-- The tasks that are left are new ones and old ones, and of the old ones all that are owed. -/
structure Carries (m : Machine α) (x : Option Pointer) (new old : List (Task α)) : Prop where
  fresh : Leaves m.heap x new
  rest : ∀ t ∈ old, t ∈ m.tasks.tail
  owed : ∀ t ∈ m.tasks.tail, t.isOwed = true → t ∈ old

theorem carries_tail (hnew : Leaves m.heap x ts) : Carries m x ts m.tasks.tail :=
  ⟨hnew, fun _ ht => ht, fun _ ht _ => ht⟩

theorem leaves_of_owners_nil (hts : ∀ t ∈ ts, t.owners = []) : Leaves h x ts := by
  intro t ht o ho
  rw [hts t ht] at ho
  exact absurd ho List.not_mem_nil

theorem release_tasks (o : Owner) (rest : List (Task α)) :
    ∃ new, (Machine.release o h rest).tasks = new ++ rest ∧ ∀ t ∈ new, t.owners = [] := by
  unfold Machine.release
  split
  · exact ⟨[], rfl, by simp⟩
  · split
    · exact ⟨[], rfl, by simp⟩
    · exact ⟨[_, _], rfl, by simp [Task.owners]⟩

theorem dismantle_tasks (c : CellId) (rest : List (Task α)) :
    ∃ new, (Machine.dismantle c h rest).tasks = new ++ rest ∧
      Leaves h (Machine.ousted ⟨h, .dismantle c :: rest⟩) new := by
  unfold Machine.dismantle
  split
  · rename_i a k data script o fields links hc
    refine ⟨discard (some (.nullable o)) ++ [.dismantle c], by simp, ?_⟩
    simp only [Machine.ousted, hc]
    exact leaves_discard_append (fun _ ho => ho) (leaves_of_owners_nil (by simp [Task.owners]))
  · rename_i a k data script o links hc
    refine ⟨discard (some (.nullable o)) ++ [.dismantle c], by simp, ?_⟩
    simp only [Machine.ousted, hc]
    exact leaves_discard_append (fun _ ho => ho) (leaves_of_owners_nil (by simp [Task.owners]))
  · exact ⟨[], rfl, leaves_nil _ _⟩
  · exact ⟨[], rfl, leaves_nil _ _⟩

theorem act_tasks (c : CellId) (a : Act α) (acts : List (Act α)) (last : Answer α)
    (rest : List (Task α)) :
    ∃ new old, (Machine.act c a acts last h rest).tasks = new ++ old ∧
      Carries ⟨h, .script c (a :: acts) last :: rest⟩ (h.ousted (some c) a) new old := by
  have hscript : ∀ acts' last', Carries ⟨h, .script c (a :: acts) last :: rest⟩
      (h.ousted (some c) a) [.script c acts' last'] rest := fun acts' last' =>
    carries_tail (leaves_of_owners_nil (by simp [Task.owners]))
  have hperform : ∃ new old, (h.perform (some c) a).todo ++
        .script c acts (h.perform (some c) a).answer :: rest = new ++ old ∧
      Carries ⟨h, .script c (a :: acts) last :: rest⟩ (h.ousted (some c) a) new old := by
    refine ⟨(h.perform (some c) a).todo ++ [.script c acts (h.perform (some c) a).answer], rest,
      by simp, carries_tail fun t ht => ?_⟩
    rcases List.mem_append.mp ht with ht | ht
    · exact (perform_tidy h (some c) a).todo t ht
    · exact (hscript _ _).fresh t ht
  cases a with
  | skipIf p k => exact ⟨_, _, rfl, hscript _ last⟩
  | giveUpIf p =>
    unfold Machine.act
    simp only
    split
    · -- of the other tasks, those that are owed are left
      exact ⟨[], rest.filter Task.isOwed, rfl, leaves_nil _ _,
        fun t ht => (List.mem_filter.mp ht).1, fun t ht howed => List.mem_filter.mpr ⟨ht, howed⟩⟩
    · exact ⟨_, _, rfl, hscript acts last⟩
  | report say => exact ⟨_, _, rfl, hscript acts last⟩
  | _ => exact hperform

theorem step_tasks (m : Machine α) :
    ∃ new old, m.step.tasks = new ++ old ∧ Carries m m.ousted new old := by
  obtain ⟨h, ts⟩ := m
  cases ts with
  | nil => exact ⟨[], [], rfl, carries_tail (leaves_nil _ _)⟩
  | cons t ts =>
    cases t with
    | release o =>
      obtain ⟨new, heq, hnew⟩ := release_tasks (h := h) o ts
      exact ⟨new, ts, heq, carries_tail (leaves_of_owners_nil hnew)⟩
    | dismantle c =>
      obtain ⟨new, heq, hnew⟩ := dismantle_tasks (h := h) c ts
      exact ⟨new, ts, heq, carries_tail hnew⟩
    | script c acts last =>
      cases acts with
      | nil => exact ⟨[], ts, rfl, carries_tail (leaves_nil _ _)⟩
      | cons a acts => exact act_tasks c a acts last ts
    | _ => exact ⟨[], ts, rfl, carries_tail (leaves_nil _ _)⟩

/-! ### From one moment to the next -/

/-- What a step, in which the pointer `x` has to make room, does to the owners and their tokens. -/
structure Settles (m : Machine α) (x : Option Pointer) (m' : Machine α) : Prop where
  /-- A token is handed back when its owner's turn to sign off has come, and only then. -/
  back : ∀ o ∈ m.owners,
    o.token ∈ m'.heap.returned.map (·.2) ↔ m.tasks.head? = some (.release o)
  /-- An owner that is to sign off waits for its turn. -/
  waits : ∀ o, .release o ∈ m.tasks →
    m.tasks.head? = some (.release o) ∨ .release o ∈ m'.tasks
  /-- An owner that was stored is to sign off if and only if it is stored no more. -/
  leaves : ∀ o ∈ m.heap.owners, .release o ∈ m'.tasks ↔ o ∉ m'.heap.owners
  /-- And it is stored no more only if its pointer had to make room. -/
  room : ∀ o ∈ m.heap.owners, o ∉ m'.heap.owners → o ∈ held x

/-- An owner that is stored is not in the care of a task. -/
theorem Linear.not_mem_task (hl : Linear m.heap.books m.owners) {o : Owner} (ho : o ∈ m.heap.owners)
    {t : Task α} (ht : t ∈ m.tasks) : o ∉ t.owners := by
  intro hot
  have hdisjoint := List.disjoint_of_nodup_append hl.owners_nodup
  exact hdisjoint ho (List.mem_flatMap.mpr ⟨t, ht, hot⟩)

theorem mem_owners_of_release {o : Owner} (ho : .release o ∈ m.tasks) : o ∈ m.owners :=
  List.mem_append_right _ (List.mem_flatMap.mpr ⟨_, ho, by simp [Task.owners]⟩)

theorem mem_owners_of_stored {o : Owner} (ho : o ∈ m.heap.owners) : o ∈ m.owners :=
  List.mem_append_left _ ho

/-- What the books and the tasks tell of the next moment. -/
theorem settles_of {new old : List (Task α)} (hl : Linear m.heap.books m.owners)
    (hl' : Linear m'.heap.books m'.owners)
    (hminted : ∀ t ∈ mints m.heap.entries, t ∈ mints m'.heap.entries)
    (hback : ∀ o, m.tasks.head? = some (.release o) →
      m'.heap.returned = (o.cell, o.token) :: m.heap.returned)
    (hsame : (∀ o, m.tasks.head? ≠ some (.release o)) → m'.heap.returned = m.heap.returned)
    (htasks : m'.tasks = new ++ old) (hc : Carries m x new old) : Settles m x m' := by
  have hkept : ∀ o ∈ m.owners, o.token ∉ m.heap.returned.map (·.2) := fun o ho =>
    hl.not_returned ho
  have back : ∀ o ∈ m.owners,
      o.token ∈ m'.heap.returned.map (·.2) ↔ m.tasks.head? = some (.release o) := by
    intro o ho
    by_cases hturn : ∃ o', m.tasks.head? = some (.release o')
    · obtain ⟨o', hturn⟩ := hturn
      have ho' : o' ∈ m.owners := mem_owners_of_release (List.mem_of_mem_head? hturn)
      rw [hback o' hturn, hturn, List.map_cons, List.mem_cons, or_iff_left (hkept o ho)]
      constructor
      · intro ht
        rw [hl.eq_of_token ho ho' ht]
      · intro he
        obtain rfl : o' = o := by simpa using he
        rfl
    · have hnone : ∀ o, m.tasks.head? ≠ some (.release o) := fun o' he => hturn ⟨o', he⟩
      rw [hsame hnone]
      exact ⟨fun hm => absurd hm (hkept o ho), fun he => absurd he (hnone o)⟩
  -- a stored owner that has to do with a task left is to sign off, for that of `x`
  have hleft : ∀ o ∈ m.heap.owners, ∀ t ∈ m'.tasks, o ∈ t.owners → t = .release o ∧ o ∈ held x := by
    intro o ho t ht hot
    rw [htasks] at ht
    rcases List.mem_append.mp ht with ht | ht
    · rcases hc.fresh t ht o hot with hx | hfresh
      · exact hx
      · have hlt : o.token.serial < m.heap.issued := hl.serial_lt (mem_owners_of_stored ho)
        exact absurd hlt (Nat.not_lt.mpr hfresh)
    · exact absurd hot (hl.not_mem_task ho (List.mem_of_mem_tail (hc.rest t ht)))
  have hstays : ∀ o ∈ m.heap.owners, o ∉ m'.heap.owners → .release o ∈ m'.tasks ∧ o ∈ held x := by
    intro o ho hgone
    have hmem := mem_owners_of_stored ho
    have hnot : o.token ∉ m'.heap.returned.map (·.2) := by
      rw [back o hmem]
      intro hturn
      exact hl.not_mem_task ho (List.mem_of_mem_head? hturn) (by simp [Task.owners])
    -- its token was minted and not handed back, so an owner carries it still
    have hmint := hminted _ (hl.mem_mints_iff.mpr (.inl ⟨o, hmem, rfl⟩))
    rcases hl'.mem_mints_iff.mp hmint with ⟨o', ho', ht⟩ | ⟨r, hr, ht⟩
    · have hcell : o'.cell = o.cell := by rw [← hl'.own o' ho', ht, hl.own o hmem]
      obtain rfl : o' = o := by
        cases o'
        cases o
        simp only [Owner.mk.injEq]
        exact ⟨hcell, ht⟩
      rcases List.mem_append.mp ho' with hstored | htask
      · exact absurd hstored hgone
      · obtain ⟨t, ht, hot⟩ := List.mem_flatMap.mp htask
        obtain ⟨rfl, hx⟩ := hleft _ ho t ht hot
        exact ⟨ht, hx⟩
    · exact absurd (List.mem_map.mpr ⟨r, hr, ht⟩) hnot
  refine ⟨back, fun o ho => ?_,
    fun o ho => ⟨fun ht hstored => ?_, fun hgone => (hstays o ho hgone).1⟩,
    fun o ho hgone => (hstays o ho hgone).2⟩
  · cases hts : m.tasks with
    | nil => simp [hts] at ho
    | cons t rest =>
      rw [hts] at ho
      rcases List.mem_cons.mp ho with rfl | ho
      · exact .inl rfl
      · right
        rw [htasks]
        exact List.mem_append_right _ (hc.owed _ (by simpa [hts] using ho) rfl)
  · exact hl'.not_mem_task hstored ht (by simp [Task.owners])

theorem Moment.settles_step (hm : Moment n m) : Settles m m.ousted m.step := by
  obtain ⟨new, old, htasks, hc⟩ := step_tasks m
  refine settles_of hm.linear hm.step.linear
    (fun t ht => (step_edits hm.sound).mem_mints hm.sound ht) (fun o hturn => ?_) returned_step
    htasks hc
  obtain ⟨h, ts⟩ := m
  obtain ⟨rest, rfl⟩ := List.head?_eq_some_iff.mp hturn
  exact returned_release o

theorem Moment.settles_start (hm : Moment n ⟨h, []⟩) (op : Op α) :
    Settles ⟨h, []⟩ (h.oustedBy op) (.start h op) := by
  have htidy := operate_tidy h op
  have hcarries : Carries ⟨h, []⟩ (h.oustedBy op) (h.operate op).todo [] :=
    ⟨htidy.todo, by simp, by simp⟩
  exact settles_of hm.linear (hm.operate op).linear
    (fun t ht => (operate_edits hm.sound op).mem_mints hm.sound ht) (fun o hturn => by simp at hturn)
    (fun _ => htidy.returned) (List.append_nil _).symm hcarries

/-! ### Until nothing is left to do -/

theorem returned_step_subset {t : Token CellId} (ht : t ∈ m.heap.returned.map (·.2)) :
    t ∈ m.step.heap.returned.map (·.2) := by
  by_cases hturn : ∃ o, m.tasks.head? = some (.release o)
  · obtain ⟨o, hturn⟩ := hturn
    obtain ⟨h, ts⟩ := m
    obtain ⟨rest, rfl⟩ := List.head?_eq_some_iff.mp hturn
    show t ∈ (Machine.release o h rest).heap.returned.map (·.2)
    rw [returned_release]
    exact List.mem_cons_of_mem _ ht
  · rwa [returned_step fun o he => hturn ⟨o, he⟩]

/-- When all is done, each owner that was to sign off has handed its token back. -/
theorem Moment.returned_of_release (hm : Moment n m) {o : Owner} (ho : .release o ∈ m.tasks) :
    o.token ∈ m.settle.heap.returned.map (·.2) := by
  have hall : Moment n m.settle ∧
      (o.token ∈ m.settle.heap.returned.map (·.2) ∨ .release o ∈ m.settle.tasks) := by
    refine settle_induct (R := fun m => Moment n m ∧
      (o.token ∈ m.heap.returned.map (·.2) ∨ .release o ∈ m.tasks)) ?_ ⟨hm, .inr ho⟩
    rintro m ⟨hm, hback | hwaits⟩
    · exact ⟨hm.step, .inl (returned_step_subset hback)⟩
    · have hs := hm.settles_step
      rcases hs.waits o hwaits with hturn | hwaits'
      · exact ⟨hm.step, .inl ((hs.back o (mem_owners_of_release hwaits)).mpr hturn)⟩
      · exact ⟨hm.step, .inr hwaits'⟩
  rcases hall.2 with hback | hwaits
  · exact hback
  · rw [settle_tasks] at hwaits
    exact absurd hwaits List.not_mem_nil

end Custody.Heap
