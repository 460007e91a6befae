/-
# Requests that wait for ever

A thread that waits does nothing, so the handles that it has stay locked. If one of them is on
the very cell that the thread asks for, its request is kept out by itself: at once if
the handle or the request is exclusive, and behind a writer that waits, for which the
handle is in the way, if both only read. It is never granted, then, and nor is any request on
the cell that is exclusive. A reader that asks again while no writer waits is let in at once.

Key definitions: `Policy.HoldsBackReaders`, `World.Awaits`, `World.Stuck`.
Key theorems: `Stuck.step`, `Stuck.not_granted`, `Reachable.nested_requests`.
-/
import Mathlib.Data.List.Nodup
import Custody.Proofs.Shared.Asking

namespace Custody.Shared

variable {α : Type} {w : World α} {P : Policy} {s : World.Step α} {r : Request}

/-- The policy lets a reader in if and only if no writer holds the lock or waits for it; a writer, as
under each policy, only if nobody holds it. -/
def Policy.HoldsBackReaders (P : Policy) : Prop :=
  ∀ h waiting, P.admits h waiting .shared = true ↔ h.allows .shared = true ∧ .exclusive ∉ waiting

theorem taskFair_holdsBackReaders : Policy.taskFair.HoldsBackReaders := by
  intro h waiting
  simp [Policy.taskFair]

/-! ### Threads that wait -/

/-- Nobody but the thread itself does anything with its handles, and it does nothing while it
waits. -/
theorem step_handles_of_blocked {t : ThreadId} (ht : w.isBlocked t = true)
    (hs : ∀ r, w.asked? s = some r → (w.step P s).2 = .granted → r.thread ≠ t) (n : HandleName) :
    (w.step P s).1.handles.get? (t, n) = w.handles.get? (t, n) := by
  have hother : ∀ {t' : ThreadId} (n' : HandleName), w.isBlocked t' = false → (t, n) ≠ (t', n') := by
    rintro t' n' hfree heq
    obtain ⟨rfl, -⟩ := Prod.mk.inj heq
    rw [ht] at hfree
    cases hfree
  rw [step_handles P w s]
  unfold World.deed
  split
  · rename_i hg
    cases hr : w.asked? s with
    | none => rfl
    | some r =>
      have hne : (t, n) ≠ (r.thread, r.name) := fun heq => hs r hr hg (Prod.mk.inj heq).1.symm
      exact (Table.get?_put _ _ _ _).trans (if_neg hne)
  · rename_i hd
    have hnot : (w.step P s).2 ≠ .blocked := by
      rw [hd]
      simp
    cases s with
    | release t' n' =>
      have hne := hother n' (free_of_answer rfl hnot)
      cases hh : w.handles.get? (t', n') <;> simp [World.worked, hh, Deed.apply, Table.get?_put, hne]
    | take t' n' new =>
      have hne := hother n' (free_of_answer rfl hnot)
      have hne' := hother new (free_of_answer rfl hnot)
      cases hh : w.handles.get? (t', n') <;>
        simp [World.worked, hh, Deed.apply, Table.get?_put, hne, hne']
    | move t' n' new =>
      have hne := hother n' (free_of_answer rfl hnot)
      have hne' := hother new (free_of_answer rfl hnot)
      cases hh : w.handles.get? (t', n') <;>
        simp [World.worked, hh, Deed.apply, Table.get?_put, Table.get?_erase, hne, hne']
    | drop t' n' =>
      have hne := hother n' (free_of_answer rfl hnot)
      simp [World.worked, Deed.apply, Table.get?_erase, hne]
    | _ => rfl
  · rfl

/-! ### One request for each thread -/

/-- Each thread has one request at most. -/
def World.OneEach (w : World α) : Prop :=
  (w.requests.map (·.thread)).Nodup

theorem World.OneEach.step (hw : w.OneEach) (P : Policy) (s : World.Step α) :
    (w.step P s).1.OneEach := by
  unfold World.OneEach at hw ⊢
  cases step_requests P w s with
  | still heq => rwa [heq]
  | grants r _ _ heq =>
    rw [heq]
    exact (List.Sublist.map _ List.erase_sublist).nodup hw
  | asks r hfree heq =>
    rw [heq, List.map_append, List.nodup_append]
    refine ⟨hw, by simp, ?_⟩
    rintro t ht t' ht' rfl
    obtain rfl := List.mem_singleton.mp ht'
    rw [isBlocked_iff.mpr (List.mem_map.mp ht)] at hfree
    cases hfree
  | waits r hr _ heq =>
    have hperm : List.Perm ((w.requests.erase r ++ [{ r with phase := .waiting }]).map Request.thread)
        (w.requests.map Request.thread) := by
      have hcons := (List.perm_cons_erase hr).map Request.thread
      exact ((List.perm_append_singleton _ _).map Request.thread).trans hcons.symm
    rw [heq]
    exact hperm.nodup_iff.mpr hw

theorem World.Reachable.oneEach (hw : w.Reachable) : w.OneEach := by
  induction hw with
  | empty => exact List.nodup_nil
  | step P s _ ih => exact ih.step P s

theorem World.Reachable.eq_of_thread (hw : w.Reachable) {r r' : Request} (hr : r ∈ w.requests)
    (hr' : r' ∈ w.requests) (ht : r'.thread = r.thread) : r' = r :=
  List.inj_on_of_nodup_map hw.oneEach hr' hr ht

/-! ### Requests that are kept out -/

/-- The request is there, however far it has got. -/
def World.Awaits (w : World α) (r : Request) : Prop :=
  ∃ phase, { r with phase := phase } ∈ w.requests

/-- No step grants the request. -/
def World.KeepsOut (P : Policy) (w : World α) (r : Request) : Prop :=
  ∀ phase, (w.withdraw { r with phase := phase }).admits P r.cell r.kind = false

/-- A request that is kept out is there after each step. -/
theorem World.Awaits.step (ha : w.Awaits r) (hk : w.KeepsOut P r) (s : World.Step α) :
    (w.step P s).1.Awaits r := by
  obtain ⟨phase, hmem⟩ := ha
  cases step_requests P w s with
  | still heq => exact ⟨phase, by rwa [heq]⟩
  | grants r' hr' hg heq =>
    have hne : { r with phase := phase } ≠ r' := by
      rintro rfl
      have := admits_of_granted hr' hg
      rw [hk phase] at this
      cases this
    exact ⟨phase, by rwa [heq, List.mem_erase_of_ne hne]⟩
  | asks r' _ heq => exact ⟨phase, by rw [heq]; exact List.mem_append_left _ hmem⟩
  | waits r' _ _ heq =>
    by_cases h : { r with phase := phase } = r'
    · subst h
      exact ⟨.waiting, by rw [heq]; exact List.mem_append_right _ (List.mem_singleton.mpr rfl)⟩
    · exact ⟨phase, by rw [heq]; exact List.mem_append_left _ ((List.mem_erase_of_ne h).mpr hmem)⟩

/-- One that waits is there after each step and waits, if it is kept out. -/
theorem step_waiting (hmem : r ∈ w.requests) (hphase : r.phase = .waiting) (hk : w.KeepsOut P r)
    (s : World.Step α) : r ∈ (w.step P s).1.requests := by
  cases step_requests P w s with
  | still heq => rwa [heq]
  | grants r' hr' hg heq =>
    have hne : r ≠ r' := by
      rintro rfl
      have := admits_of_granted hr' hg
      rw [hk r.phase] at this
      cases this
    rwa [heq, List.mem_erase_of_ne hne]
  | asks r' _ heq =>
    rw [heq]
    exact List.mem_append_left _ hmem
  | waits r' _ hrefused heq =>
    have hne : r ≠ r' := by
      rintro rfl
      rw [hphase] at hrefused
      cases hrefused
    rw [heq]
    exact List.mem_append_left _ ((List.mem_erase_of_ne hne).mpr hmem)

section keepsOut

variable {key : HandleKey} {h : Handle} {cell : Cell α}

theorem World.Reachable.cell_of_grant (hw : w.Reachable) (hh : w.handles.get? key = some h)
    (hg : h.grant = some r.cell) : ∃ cell, w.cells[r.cell]? = some cell :=
  ⟨_, List.getElem?_eq_getElem (hw.lt_of_kept (.inl (.inr ⟨key, h, hh, hg⟩)))⟩

/-- What is let in is allowed by the lock. -/
theorem keepsOut_of_allows (hc : w.cells[r.cell]? = some cell) {d : Demand}
    (hd : r.kind.demand? = some d) (hnot : cell.hold.allows d = false) : w.KeepsOut P r := by
  intro phase
  by_contra hadmits
  rw [Bool.not_eq_false] at hadmits
  have hc' : (w.withdraw { r with phase := phase }).cells[r.cell]? = some cell := hc
  rw [allows_of_admits hadmits hd hc'] at hnot
  cases hnot

/-- Nobody enters a lock exclusively that a handle holds. -/
theorem World.Reachable.keepsOut_exclusive (hw : w.Reachable) (hh : w.handles.get? key = some h)
    (hg : h.grant = some r.cell) (hd : h.kind.demand? ≠ none)
    (hx : r.kind.demand? = some .exclusive) : w.KeepsOut P r := by
  obtain ⟨cell, hc⟩ := hw.cell_of_grant hh hg
  apply keepsOut_of_allows hc hx
  cases hhold : cell.hold with
  | free => exact absurd ((hw.free_iff hc).mp hhold key h hh hg) hd
  | shared _ => rfl
  | exclusive => rfl

/-- Nobody enters a lock at all that a handle holds exclusively. -/
theorem World.Reachable.keepsOut_of_exclusive (hw : w.Reachable) (hh : w.handles.get? key = some h)
    (hg : h.grant = some r.cell) (hd : h.kind.demand? = some .exclusive) {d : Demand}
    (hrd : r.kind.demand? = some d) : w.KeepsOut P r := by
  obtain ⟨cell, hc⟩ := hw.cell_of_grant hh hg
  apply keepsOut_of_allows hc hrd
  rw [hw.hold_of_exclusive hc hh hg hd]
  cases d <;> rfl

/-- Where a handle holds the lock of a cell, whoever asks for the cell needs the lock. -/
theorem World.Reachable.demand?_of_awaits (hw : w.Reachable) (hh : w.handles.get? key = some h)
    (hg : h.grant = some r.cell) (hd : h.kind.demand? ≠ none) (ha : w.Awaits r) :
    ∃ d, r.kind.demand? = some d := by
  obtain ⟨cell, hc⟩ := hw.cell_of_grant hh hg
  obtain ⟨phase, hmem⟩ := ha
  obtain ⟨a, ha⟩ := hw.sound.asked _ hmem
  obtain ⟨a', ha'⟩ := hw.offered hc (Table.mem_values_of_get? hh) hg
  have hoffer : cell.flavour.handle? a = some r.kind := by simpa [World.flavour?, hc] using ha
  exact Option.ne_none_iff_exists'.mp (demand?_ne_none ha' hoffer hd)

/-- A reader is kept out while another thread's exclusive request waits. -/
theorem keepsOut_shared (hP : P.HoldsBackReaders) (hx : r.kind.demand? = some .shared)
    {r' : Request} (hr' : r' ∈ w.requests) (hne : r'.thread ≠ r.thread) (hcell : r'.cell = r.cell)
    (hphase : r'.phase = .waiting) (hx' : r'.kind.demand? = some .exclusive) : w.KeepsOut P r := by
  intro phase
  have hdiffers : r' ≠ { r with phase := phase } := by
    rintro rfl
    exact hne rfl
  have hwaits : Demand.exclusive ∈ (w.withdraw { r with phase := phase }).waiting r.cell := by
    refine List.mem_filterMap.mpr ⟨r', List.mem_filter.mpr ⟨?_, ?_⟩, hx'⟩
    · exact (List.mem_erase_of_ne hdiffers).mpr hr'
    · simp [hcell, hphase]
  unfold World.admits
  rw [hx]
  cases (w.withdraw { r with phase := phase }).cells[r.cell]? with
  | none => rfl
  | some cell =>
    by_contra hadmits
    rw [Bool.not_eq_false] at hadmits
    exact ((hP _ _).mp hadmits).2 hwaits

end keepsOut

/-- The handle is in the way of the request: either of them is exclusive, or both read and another
thread's exclusive request waits, that the handle keeps out. -/
def World.InTheWay (w : World α) (r : Request) (h : Handle) : Prop :=
  h.kind.demand? = some .exclusive ∨
  h.kind.demand? = some .shared ∧ r.kind.demand? = some .exclusive ∨
  h.kind.demand? = some .shared ∧ r.kind.demand? = some .shared ∧ ∃ r' ∈ w.requests,
    r'.thread ≠ r.thread ∧ r'.cell = r.cell ∧ r'.phase = .waiting ∧
      r'.kind.demand? = some .exclusive

/-- A thread asks for a cell that it has a handle on, which is in the way. -/
structure World.Stuck (w : World α) (r : Request) (n : HandleName) (h : Handle) : Prop where
  awaits : w.Awaits r
  handle : w.handles.get? (r.thread, n) = some h
  on : h.grant = some r.cell
  inTheWay : w.InTheWay r h

section stuck

variable {n : HandleName} {h : Handle}

theorem World.InTheWay.demand?_ne_none (hi : w.InTheWay r h) : h.kind.demand? ≠ none := by
  rcases hi with hd | ⟨hd, -⟩ | ⟨hd, -⟩ <;> rw [hd] <;> simp

theorem World.Stuck.keepsOut (hst : w.Stuck r n h) (hw : w.Reachable) (hP : P.HoldsBackReaders) :
    w.KeepsOut P r := by
  rcases hst.inTheWay with hd | ⟨hd, hx⟩ | ⟨hd, hx, r', hr', hne, hcell, hphase, hx'⟩
  · obtain ⟨d, hrd⟩ := hw.demand?_of_awaits hst.handle hst.on (by simp [hd]) hst.awaits
    exact hw.keepsOut_of_exclusive hst.handle hst.on hd hrd
  · exact hw.keepsOut_exclusive hst.handle hst.on (by simp [hd]) hx
  · exact keepsOut_shared hP hx hr' hne hcell hphase hx'

/-- No exclusive request on the cell is granted either. -/
theorem World.Stuck.keepsOut_exclusive (hst : w.Stuck r n h) (hw : w.Reachable) {r' : Request}
    (hcell : r'.cell = r.cell) (hx : r'.kind.demand? = some .exclusive) : w.KeepsOut P r' :=
  hw.keepsOut_exclusive hst.handle (by rw [hst.on, hcell]) hst.inTheWay.demand?_ne_none hx

/-- What a step grants is no request of the thread, and none on the cell that is exclusive. -/
theorem World.Stuck.not_granted (hst : w.Stuck r n h) (hw : w.Reachable) (hP : P.HoldsBackReaders)
    {r' : Request} (hr' : w.asked? s = some r') (hg : (w.step P s).2 = .granted) :
    r'.thread ≠ r.thread ∧ ¬ (r'.cell = r.cell ∧ r'.kind.demand? = some .exclusive) := by
  have hadmits := admits_of_granted hr' hg
  constructor
  · intro hthread
    obtain ⟨phase, hmem⟩ := hst.awaits
    rcases step_granted hr' hg with ⟨-, hfree, -⟩ | ⟨-, hr', -⟩
    · rw [hthread, isBlocked_iff.mpr ⟨_, hmem, rfl⟩] at hfree
      cases hfree
    · obtain rfl : r' = { r with phase := phase } := hw.eq_of_thread hmem hr' hthread
      have hout : (w.withdraw { r with phase := phase }).admits P r.cell r.kind = false :=
        hst.keepsOut hw hP phase
      rw [hout] at hadmits
      cases hadmits
  · rintro ⟨hcell, hx⟩
    have hout : (w.withdraw r').admits P r'.cell r'.kind = false :=
      hst.keepsOut_exclusive hw hcell hx r'.phase
    rw [hout] at hadmits
    cases hadmits

/-- **What is stuck remains so**, whatever is done next, and whoever does it. -/
theorem World.Stuck.step (hst : w.Stuck r n h) (hw : w.Reachable) (hP : P.HoldsBackReaders)
    (s : World.Step α) : (w.step P s).1.Stuck r n h where
  awaits := hst.awaits.step (hst.keepsOut hw hP) s
  handle := by
    obtain ⟨phase, hmem⟩ := hst.awaits
    have hblocked : w.isBlocked r.thread = true := isBlocked_iff.mpr ⟨_, hmem, rfl⟩
    rw [step_handles_of_blocked hblocked fun r' hr' hg => (hst.not_granted hw hP hr' hg).1]
    exact hst.handle
  on := hst.on
  inTheWay := by
    rcases hst.inTheWay with hd | ⟨hd, hx⟩ | ⟨hd, hx, r', hr', hne, hcell, hphase, hx'⟩
    · exact .inl hd
    · exact .inr (.inl ⟨hd, hx⟩)
    · -- the writer that waits goes on waiting, since the handle is in its way too
      have hwaits := step_waiting hr' hphase (hst.keepsOut_exclusive (P := P) hw hcell hx') s
      exact .inr (.inr ⟨hd, hx, r', hwaits, hne, hcell, hphase, hx'⟩)

theorem World.Stuck.run (hP : P.HoldsBackReaders) : ∀ (ss : List (World.Step α)) {w : World α},
    w.Stuck r n h → w.Reachable → (w.run P ss).Stuck r n h
  | [], _, hst, _ => hst
  | s :: ss, _, hst, hw => World.Stuck.run hP ss (hst.step hw hP s) (.step P s hw)

/-- An exclusive request on the cell is there for ever. -/
theorem World.Stuck.awaits_exclusive (hP : P.HoldsBackReaders) {r' : Request}
    (hcell : r'.cell = r.cell) (hx : r'.kind.demand? = some .exclusive) :
    ∀ (ss : List (World.Step α)) {w : World α}, w.Stuck r n h → w.Reachable → w.Awaits r' →
      (w.run P ss).Awaits r'
  | [], _, _, _, ha => ha
  | s :: ss, _, hst, hw, ha =>
    World.Stuck.awaits_exclusive hP hcell hx ss (hst.step hw hP s) (.step P s hw)
      (ha.step (hst.keepsOut_exclusive hw hcell hx) s)

end stuck

/-! ### Readers that are let in at once -/

section readers

variable {key : HandleKey} {h : Handle} {c : CellId} {cell : Cell α}

/-- Where some handles share a lock, those who ask to read share it. -/
theorem handle?_read_of_shared {f : Flavour} {a : Access} {k : HandleKind}
    (ha : f.handle? a = some k) (hd : k.demand? = some .shared) :
    ∃ k', f.handle? .read = some k' ∧ k'.demand? = some .shared := by
  cases f <;> cases a <;> cases ha <;> first | exact ⟨_, rfl, rfl⟩ | cases hd

/-- A reader is let in where others read, if no writer waits. -/
theorem World.Reachable.admits_shared (hw : w.Reachable) (hP : P.HoldsBackReaders)
    (hc : w.cells[c]? = some cell) (hh : w.handles.get? key = some h) (hg : h.grant = some c)
    (hd : h.kind.demand? = some .shared) {k : HandleKind} (hk : k.demand? = some .shared)
    {v : World α} (hcells : v.cells = w.cells) (hwaiting : .exclusive ∉ v.waiting c) :
    v.admits P c k = true := by
  unfold World.admits
  rw [hk, hcells, hc]
  obtain ⟨n, -, hhold⟩ := hw.hold_of_shared hc hh hg hd
  refine (hP _ _).mpr ⟨?_, hwaiting⟩
  rw [hhold]
  rfl

/-- **A thread that reads a cell is let in to read it again** at its first attempt, if no writer
waits. -/
theorem World.Reachable.granted_again (hw : w.Reachable) (hP : P.HoldsBackReaders) {t : ThreadId}
    {n : HandleName} (ht : w.isBlocked t = false) (hh : w.handles.get? (t, n) = some h)
    (hg : h.grant = some c) (hd : h.kind.demand? = some .shared) {name : String}
    (hname : w.requesters.get? name = some c) (hwaiting : .exclusive ∉ w.waiting c)
    (new : HandleName) : (w.step P (.attempt t name .read new)).2 = .granted := by
  obtain ⟨cell, hc⟩ : ∃ cell, w.cells[c]? = some cell :=
    ⟨_, List.getElem?_eq_getElem (hw.lt_of_kept (.inl (.inr ⟨_, h, hh, hg⟩)))⟩
  obtain ⟨a, ha⟩ := hw.offered hc (Table.mem_values_of_get? hh) hg
  obtain ⟨k, hk, hkd⟩ := handle?_read_of_shared ha hd
  have hoffer : (w.flavour? c).bind (·.handle? .read) = some k := by
    simp [World.flavour?, hc, hk]
  have hadmits := hw.admits_shared hP hc hh hg hd hkd rfl hwaiting
  rw [step_of_thread P w rfl, ht]
  simp [World.stepThread, World.stepAttempt, hname, hoffer, hadmits]

theorem World.Reachable.request?_eq (hw : w.Reachable) (hr : r ∈ w.requests) :
    w.request? r.thread r.phase = some r := by
  cases hfind : w.request? r.thread r.phase with
  | none =>
    have hnot := List.find?_eq_none.mp hfind r hr
    simp at hnot
  | some r' =>
    rw [hw.eq_of_thread hr (List.mem_of_find?_eq_some hfind) (thread_of_request? hfind).1]

/-- A request to read that was not let in at first is let in when it asks again, if its thread reads
the cell and no writer waits. -/
theorem World.Reachable.granted_later (hw : w.Reachable) (hP : P.HoldsBackReaders) {n : HandleName}
    (hr : r ∈ w.requests) (hh : w.handles.get? (r.thread, n) = some h) (hg : h.grant = some r.cell)
    (hd : h.kind.demand? = some .shared) (hx : r.kind.demand? = some .shared)
    (hwaiting : .exclusive ∉ w.waiting r.cell) : (w.step P r.again).2 = .granted := by
  obtain ⟨cell, hc⟩ := hw.cell_of_grant hh hg
  have hfewer : .exclusive ∉ (w.withdraw r).waiting r.cell := by
    intro hmem
    obtain ⟨r', hr', hx'⟩ := List.mem_filterMap.mp hmem
    obtain ⟨hr', hphase⟩ := List.mem_filter.mp hr'
    exact hwaiting (List.mem_filterMap.mpr
      ⟨r', List.mem_filter.mpr ⟨List.mem_of_mem_erase hr', hphase⟩, hx'⟩)
  have hadmits := hw.admits_shared hP hc hh hg hd hx (v := w.withdraw r) rfl hfewer
  rw [step_again, World.stepEnter, hw.request?_eq hr]
  simp only [hadmits, if_true]

end readers

/-- **Requests of threads that hold the cell already.** Let the locks hold readers back while a
writer waits. If a thread asks for a cell that one of its handles is locked on, and the handle or
the request is exclusive, or both only read and another thread's exclusive request waits, then
however the threads go on, the request is there and so is each exclusive request on the cell, and
no step grants a request of the thread, or one on the cell that is exclusive. And if both only
read and no exclusive request waits, then the first attempt is granted, and so is each further
one. -/
theorem World.Reachable.nested_requests (hw : w.Reachable) (hP : P.HoldsBackReaders) :
    (∀ r ∈ w.requests, ∀ n h, w.handles.get? (r.thread, n) = some h → h.grant = some r.cell →
      (h.kind.demand? = some .exclusive ∨
        h.kind.demand? = some .shared ∧ r.kind.demand? = some .exclusive ∨
        h.kind.demand? = some .shared ∧ r.kind.demand? = some .shared ∧ ∃ r' ∈ w.requests,
          r'.thread ≠ r.thread ∧ r'.cell = r.cell ∧ r'.phase = .waiting ∧
            r'.kind.demand? = some .exclusive) →
      ∀ ss, (w.run P ss).Awaits r ∧
        (∀ r' ∈ w.requests, r'.cell = r.cell → r'.kind.demand? = some .exclusive →
          (w.run P ss).Awaits r') ∧
        ∀ s r', (w.run P ss).asked? s = some r' → ((w.run P ss).step P s).2 = .granted →
          r'.thread ≠ r.thread ∧ ¬ (r'.cell = r.cell ∧ r'.kind.demand? = some .exclusive)) ∧
    (∀ t n h c, w.isBlocked t = false → w.handles.get? (t, n) = some h → h.grant = some c →
      h.kind.demand? = some .shared → .exclusive ∉ w.waiting c →
      ∀ name new, w.requesters.get? name = some c →
        (w.step P (.attempt t name .read new)).2 = .granted) ∧
    ∀ r ∈ w.requests, ∀ n h, w.handles.get? (r.thread, n) = some h → h.grant = some r.cell →
      h.kind.demand? = some .shared → r.kind.demand? = some .shared →
      .exclusive ∉ w.waiting r.cell → (w.step P r.again).2 = .granted := by
  refine ⟨fun r hr n h hh hg hway ss => ?_,
    fun t n h c ht hh hg hd hwaiting name new hname =>
      hw.granted_again hP ht hh hg hd hname hwaiting new,
    fun r hr n h hh hg hd hx hwaiting => hw.granted_later hP hr hh hg hd hx hwaiting⟩
  have hst : w.Stuck r n h := ⟨⟨r.phase, hr⟩, hh, hg, hway⟩
  have hst' := hst.run hP ss hw
  refine ⟨hst'.awaits, fun r' hr' hcell hx => ?_, fun s r' hr' hgranted => ?_⟩
  · exact World.Stuck.awaits_exclusive hP hcell hx ss hst hw ⟨r'.phase, hr'⟩
  · exact hst'.not_granted (.run P ss hw) hP hr' hgranted

/-- A thread that reads asks again, after a writer of another thread began to wait for it. -/
def entangled : World Nat :=
  World.run .taskFair .empty
    [.create "a" .readWrite 7 1, .attempt 0 "a" .read (.named "h"),
      .attempt 1 "a" .write (.named "h"), .block 1, .attempt 0 "a" .read (.named "k"), .block 0]

theorem entangled_reachable : entangled.Reachable :=
  .run .taskFair _ .empty

theorem entangled_waits :
    (entangled.run .taskFair [.grant 0, .grant 1, .dropRequester "a", .grant 0]).Awaits
        ⟨0, .named "k", 0, .read, .waiting⟩ ∧
      (entangled.run .taskFair [.grant 0, .grant 1, .dropRequester "a", .grant 0]).Awaits
        ⟨1, .named "h", 0, .write, .waiting⟩ := by
  have hnever := (World.Reachable.nested_requests entangled_reachable taskFair_holdsBackReaders).1
    ⟨0, .named "k", 0, .read, .waiting⟩ (by decide) (.named "h") ⟨.read, some 0⟩ (by decide) rfl
    (.inr (.inr ⟨rfl, rfl, ⟨1, .named "h", 0, .write, .waiting⟩, by decide, by decide, rfl, rfl, rfl⟩))
    [.grant 0, .grant 1, .dropRequester "a", .grant 0]
  exact ⟨hnever.1, hnever.2.1 ⟨1, .named "h", 0, .write, .waiting⟩ (by decide) rfl rfl⟩

end Custody.Shared
