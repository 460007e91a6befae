/-
# Asking for a handle

A handle that is locked holds the lock of its cell, and keeps others out. A thread that asks is
let in at once, or it is refused, notes that and is in the queue. There it asks again, and is
let in or waits its turn, until the lock lets it in. So a step that asks does one of six things, and
which of them is up to the policy; a step that asks for something that is not there does nothing.

Key definitions: `HandleKind.excludes`, `Hold.HeldAs`, `Request.again`, `World.Tries`.
Key theorems: `Reachable.heldAs`, `step_tries`, `step_unasked`, `admits_of_granted`, `step_requests`.
-/
import Custody.Proofs.Shared.Handles

namespace Custody.Shared

variable {α : Type} {w : World α} {P : Policy} {s : World.Step α} {r : Request}

/-! ### Locks that are held -/

/-- Whether two handles of these kinds on one cell keep each other out: they need the lock, and one
of them needs it for itself. -/
def HandleKind.excludes (k k' : HandleKind) : Bool :=
  match k.demand?, k'.demand? with
  | some d, some d' => d = .exclusive || d' = .exclusive
  | _, _ => false

theorem HandleKind.excludes_iff {k k' : HandleKind} : k.excludes k' = true ↔
    ∃ d d', k.demand? = some d ∧ k'.demand? = some d' ∧ (d = .exclusive ∨ d' = .exclusive) := by
  unfold HandleKind.excludes
  cases k.demand? <;> cases k'.demand? <;> simp

/-- Whether a lock is held by one who holds it in that way: alone, with others who read, or not at
all, if there is no lock to be held. -/
def Hold.HeldAs (h : Hold) : Option Demand → Prop
  | some .exclusive => h = .exclusive
  | some .shared => ∃ n, 0 < n ∧ h = .shared n
  | none => h = .free

section held

variable {key : HandleKey} {h : Handle} {c : CellId} {cell : Cell α}

/-- A handle that is alone with the lock holds it exclusively. -/
theorem World.Reachable.hold_of_exclusive (hw : w.Reachable) (hc : w.cells[c]? = some cell)
    (hh : w.handles.get? key = some h) (hg : h.grant = some c)
    (hd : h.kind.demand? = some .exclusive) : cell.hold = .exclusive :=
  have hfits := hw.hold_fits hc
  hfits.exclusive_iff.mpr (hfits.alone (holders_pos hh hg hd))

/-- A handle that reads shares the lock. -/
theorem World.Reachable.hold_of_shared (hw : w.Reachable) (hc : w.cells[c]? = some cell)
    (hh : w.handles.get? key = some h) (hg : h.grant = some c)
    (hd : h.kind.demand? = some .shared) : ∃ n, 0 < n ∧ cell.hold = .shared n := by
  have hpos := holders_pos hh hg hd
  have hfits := hw.hold_fits hc
  cases hhold : cell.hold with
  | free =>
    have := (hfits.free_iff.mp hhold).2
    omega
  | shared n =>
    rw [hhold] at hfits
    exact ⟨n, hfits.2.2, rfl⟩
  | exclusive =>
    have := (hfits.exclusive_iff.mp hhold).2
    omega

/-- **A locked handle holds the lock of its cell** in the way of its kind. -/
theorem World.Reachable.heldAs (hw : w.Reachable) (hc : w.cells[c]? = some cell)
    (hh : w.handles.get? key = some h) (hg : h.grant = some c) :
    cell.hold.HeldAs h.kind.demand? := by
  cases hd : h.kind.demand? with
  | none =>
    -- no handle on such a cell needs the lock
    refine (hw.free_iff hc).mpr fun key' h' hh' hg' => ?_
    obtain ⟨a, ha⟩ := hw.offered hc (Table.mem_values_of_get? hh) hg
    obtain ⟨a', ha'⟩ := hw.offered hc (Table.mem_values_of_get? hh') hg'
    exact Classical.not_not.mp fun hne => demand?_ne_none ha' ha hne hd
  | some d =>
    cases d with
    | exclusive => exact hw.hold_of_exclusive hc hh hg hd
    | shared => exact hw.hold_of_shared hc hh hg hd

end held

/-! ### Threads that wait -/

theorem isBlocked_iff {t : ThreadId} : w.isBlocked t = true ↔ ∃ r ∈ w.requests, r.thread = t := by
  simp [World.isBlocked]

/-- A step that is a thread's, and that is not answered that the thread waits. -/
theorem free_of_answer {t : ThreadId} (hs : s.thread? = some t) (hr : (w.step P s).2 ≠ .blocked) :
    w.isBlocked t = false := by
  rw [step_of_thread P w hs] at hr
  split at hr
  · exact absurd rfl hr
  · simpa using ‹¬ w.isBlocked t = true›

/-- A request of a thread that does not wait is not there yet. -/
theorem not_mem_of_free (hfree : w.isBlocked r.thread = false) : r ∉ w.requests := by
  intro hmem
  rw [isBlocked_iff.mpr ⟨r, hmem, rfl⟩] at hfree
  cases hfree

theorem withdraw_of_not_mem (hr : r ∉ w.requests) : w.withdraw r = w := by
  unfold World.withdraw
  rw [List.erase_of_not_mem hr]

/-! ### What a step does that asks -/

/-- The step with which a request that is there is made again. -/
def Request.again (r : Request) : World.Step α :=
  match r.phase with
  | .refused => .block r.thread
  | .waiting => .grant r.thread

theorem step_again (w : World α) (r : Request) :
    w.step P r.again = w.stepEnter P r.thread r.phase := by
  unfold Request.again
  cases r.phase <;> rfl

/-- What a step does that asks for a handle. -/
inductive World.Tries (P : Policy) (w : World α) (s : World.Step α) (r : Request) : Prop
  /-- A thread whose request is not granted yet makes no other. -/
  | blocked {name : String} {access : Access} : s = .attempt r.thread name access r.name →
      w.isBlocked r.thread = true → w.step P s = (w, .blocked) → Tries P w s r
  /-- The first attempt is let in. -/
  | enters {name : String} {access : Access} : s = .attempt r.thread name access r.name →
      w.isBlocked r.thread = false → w.admits P r.cell r.kind = true →
      w.step P s = ((w.own r.cell).letIn r.thread r.name r.cell r.kind, .granted) → Tries P w s r
  /-- The first attempt is refused, and the thread notes it. -/
  | contends {name : String} {access : Access} : s = .attempt r.thread name access r.name →
      w.isBlocked r.thread = false → w.admits P r.cell r.kind = false → r.phase = .refused →
      w.step P s = (({ w.own r.cell with requests := w.requests ++ [r] } : World α).note
        (.contended r.thread r.cell r.kind), .contended) → Tries P w s r
  /-- A request that was refused before is let in. -/
  | entersLater : s = r.again → r ∈ w.requests → (w.withdraw r).admits P r.cell r.kind = true →
      w.step P s = ((w.withdraw r).letIn r.thread r.name r.cell r.kind, .granted) → Tries P w s r
  /-- It is refused once more, and waits from now on. -/
  | queues : s = r.again → r ∈ w.requests → (w.withdraw r).admits P r.cell r.kind = false →
      r.phase = .refused →
      w.step P s = ({ w with requests := w.requests.erase r ++ [{ r with phase := .waiting }] },
        .waiting) → Tries P w s r
  /-- It waits, and goes on waiting. -/
  | waits : s = r.again → r ∈ w.requests → (w.withdraw r).admits P r.cell r.kind = false →
      r.phase = .waiting → w.step P s = (w, .waiting) → Tries P w s r

theorem tries_again {t : ThreadId} {phase : Phase} (hr : w.request? t phase = some r) :
    w.Tries P r.again r := by
  obtain ⟨rfl, rfl⟩ := thread_of_request? hr
  have hmem : r ∈ w.requests := List.mem_of_find?_eq_some hr
  have hstep : w.step P r.again = w.stepEnter P r.thread r.phase := step_again w r
  unfold World.stepEnter at hstep
  simp only [hr] at hstep
  cases hadmits : (w.withdraw r).admits P r.cell r.kind with
  | true =>
    rw [hadmits, if_pos rfl] at hstep
    exact .entersLater rfl hmem hadmits hstep
  | false =>
    rw [hadmits, if_neg Bool.false_ne_true] at hstep
    cases hphase : r.phase with
    | refused =>
      rw [hphase] at hstep
      exact .queues rfl hmem hadmits hphase hstep
    | waiting =>
      rw [hphase] at hstep
      exact .waits rfl hmem hadmits hphase hstep

/-- **What a step does that asks for a handle.** -/
theorem step_tries (P : Policy) (hr : w.asked? s = some r) : w.Tries P s r := by
  cases s with
  | attempt t name access h =>
    obtain ⟨c, hc, hkind⟩ := Option.bind_eq_some_iff.mp hr
    obtain ⟨k, hk, rfl⟩ := Option.map_eq_some_iff.mp hkind
    have hstep := step_of_thread P w (s := .attempt t name access h) rfl
    cases hblocked : w.isBlocked t with
    | true =>
      rw [hblocked, if_pos rfl] at hstep
      exact .blocked rfl hblocked hstep
    | false =>
      rw [hblocked, if_neg Bool.false_ne_true, World.stepThread, World.stepAttempt] at hstep
      simp only [hc, hk] at hstep
      cases hadmits : w.admits P c k with
      | true =>
        rw [hadmits, if_pos rfl] at hstep
        exact .enters rfl hblocked hadmits hstep
      | false =>
        rw [hadmits, if_neg Bool.false_ne_true] at hstep
        exact .contends rfl hblocked hadmits rfl hstep
  | block t =>
    have hagain : r.again = (.block t : World.Step α) := by
      obtain ⟨ht, hphase⟩ := thread_of_request? hr
      unfold Request.again
      rw [hphase, ht]
    rw [← hagain]
    exact tries_again hr
  | grant t =>
    have hagain : r.again = (.grant t : World.Step α) := by
      obtain ⟨ht, hphase⟩ := thread_of_request? hr
      unfold Request.again
      rw [hphase, ht]
    rw [← hagain]
    exact tries_again hr
  | _ => cases hr

/-- The steps with which a thread asks for a handle, or asks again. -/
def World.Step.asks : World.Step α → Bool
  | .attempt .. | .block _ | .grant _ => true
  | _ => false

/-- Who asks for what is not there, or cannot be had, gets nothing. -/
theorem step_unasked (P : Policy) (hs : s.asks = true) (hr : w.asked? s = none) :
    (w.step P s).1 = w ∧ (w.step P s).2 ≠ .granted ∧ (w.step P s).2 ≠ .contended := by
  have henter : ∀ {t : ThreadId} {phase : Phase}, w.request? t phase = none →
      w.stepEnter P t phase = (w, .absent) := by
    intro t phase hnone
    unfold World.stepEnter
    rw [hnone]
  cases s with
  | attempt t name access h =>
    rw [step_of_thread P w rfl]
    split
    · exact ⟨rfl, by simp, by simp⟩
    · simp only [World.asked?] at hr
      cases hc : w.requesters.get? name with
      | none =>
        simp only [World.stepThread, World.stepAttempt, hc]
        exact ⟨trivial, by simp, by simp⟩
      | some c =>
        rw [hc, Option.bind_some, Option.map_eq_none_iff] at hr
        simp only [World.stepThread, World.stepAttempt, hc, hr]
        exact ⟨trivial, by simp, by simp⟩
  | block t =>
    rw [show w.step P (.block t) = (w, .absent) from henter hr]
    exact ⟨rfl, by simp, by simp⟩
  | grant t =>
    rw [show w.step P (.grant t) = (w, .absent) from henter hr]
    exact ⟨rfl, by simp, by simp⟩
  | _ => cases hs

/-- Nothing is granted to who does not ask. -/
theorem ne_granted_of_not_asks (P : Policy) (w : World α) (hs : s.asks = false) :
    (w.step P s).2 ≠ .granted := by
  cases s with
  | create name f v near => simp [World.step, World.Step.thread?, World.stepCreate]
  | cloneRequester name copy =>
    show (w.stepClone name copy).2 ≠ .granted
    unfold World.stepClone
    split <;> simp
  | dropRequester name =>
    show (w.stepDropRequester name).2 ≠ .granted
    unfold World.stepDropRequester
    split <;> simp
  | attempt t name access h => cases hs
  | block t => cases hs
  | grant t => cases hs
  | _ =>
    rw [step_of_thread P w rfl]
    split
    · simp
    · exact stepThread_ne_granted (by simp)

/-- What is granted was asked for. -/
theorem asked_of_granted (hg : (w.step P s).2 = .granted) : ∃ r, w.asked? s = some r := by
  cases hasks : s.asks with
  | false => exact absurd hg (ne_granted_of_not_asks P w hasks)
  | true =>
    cases hr : w.asked? s with
    | none => exact absurd hg (step_unasked P hasks hr).2.1
    | some r => exact ⟨r, rfl⟩

/-- A request is granted at the first attempt, or it was refused before and is granted now. -/
theorem step_granted (hr : w.asked? s = some r) (hg : (w.step P s).2 = .granted) :
    ((∃ name access, s = .attempt r.thread name access r.name) ∧ w.isBlocked r.thread = false ∧
      w.admits P r.cell r.kind = true ∧
      w.step P s = ((w.own r.cell).letIn r.thread r.name r.cell r.kind, .granted)) ∨
    (s = r.again ∧ r ∈ w.requests ∧ (w.withdraw r).admits P r.cell r.kind = true ∧
      w.step P s = ((w.withdraw r).letIn r.thread r.name r.cell r.kind, .granted)) := by
  cases step_tries P hr with
  | enters hs hfree hadmits hstep => exact .inl ⟨⟨_, _, hs⟩, hfree, hadmits, hstep⟩
  | entersLater hs hmem hadmits hstep => exact .inr ⟨hs, hmem, hadmits, hstep⟩
  | blocked _ _ hstep => simp [hstep] at hg
  | contends _ _ _ _ hstep => simp [hstep] at hg
  | queues _ _ _ _ hstep => simp [hstep] at hg
  | waits _ _ _ _ hstep => simp [hstep] at hg

/-- What is granted is let in beside the other requests. -/
theorem admits_of_granted (hr : w.asked? s = some r) (hg : (w.step P s).2 = .granted) :
    (w.withdraw r).admits P r.cell r.kind = true := by
  rcases step_granted hr hg with ⟨-, hfree, hadmits, -⟩ | ⟨-, -, hadmits, -⟩
  · rwa [withdraw_of_not_mem (not_mem_of_free hfree)]
  · exact hadmits

/-! ### The queue of requests -/

/-- What a step does with the requests: nothing, one is granted, a thread that does not wait asks, or
one that was refused waits from now on. -/
inductive World.Queues (P : Policy) (w : World α) (s : World.Step α) : Prop
  | still : (w.step P s).1.requests = w.requests → Queues P w s
  | grants (r : Request) : w.asked? s = some r → (w.step P s).2 = .granted →
      (w.step P s).1.requests = w.requests.erase r → Queues P w s
  | asks (r : Request) : w.isBlocked r.thread = false →
      (w.step P s).1.requests = w.requests ++ [r] → Queues P w s
  | waits (r : Request) : r ∈ w.requests → r.phase = .refused →
      (w.step P s).1.requests = w.requests.erase r ++ [{ r with phase := .waiting }] → Queues P w s

theorem World.Tries.requests (ht : w.Tries P s r) (hr : w.asked? s = some r) : World.Queues P w s := by
  cases ht with
  | blocked _ _ hstep => exact .still (by rw [hstep])
  | enters _ _ _ hstep =>
    apply World.Queues.still
    rw [hstep]
    exact (sameRefs_letIn _ _ _ _ _).requests
  | contends _ hfree _ _ hstep => exact .asks r hfree (by rw [hstep]; rfl)
  | entersLater _ _ _ hstep =>
    refine .grants r hr (by rw [hstep]) ?_
    rw [hstep]
    exact (sameRefs_letIn _ _ _ _ _).requests
  | queues _ hmem _ hphase hstep => exact .waits r hmem hphase (by rw [hstep])
  | waits _ _ _ _ hstep => exact .still (by rw [hstep])

/-- A step that asks for nothing leaves the requests as they are. -/
theorem requests_of_not_asks (P : Policy) (w : World α) (hs : s.asks = false) :
    (w.step P s).1.requests = w.requests := by
  cases s with
  | create name f v near => exact (sameRefs_create w name f v near).requests
  | cloneRequester name copy => exact (stepClone_sameRequests name copy).requests
  | dropRequester name => exact (stepDropRequester_sameRequests name).requests
  | attempt t name access h => cases hs
  | block t => cases hs
  | grant t => cases hs
  | _ =>
    rw [step_of_thread P w rfl]
    split
    · rfl
    · exact (stepThread_sameRequests (by simp)).requests

theorem asked?_of_not_asks (hs : s.asks = false) : w.asked? s = none := by
  cases s <;> first | rfl | cases hs

/-- **What a step does with the requests.** -/
theorem step_requests (P : Policy) (w : World α) (s : World.Step α) : World.Queues P w s := by
  cases hasks : s.asks with
  | true =>
    cases hr : w.asked? s with
    | none => exact .still (by rw [(step_unasked P hasks hr).1])
    | some r => exact (step_tries P hr).requests hr
  | false => exact .still (requests_of_not_asks P w hasks)

end Custody.Shared
