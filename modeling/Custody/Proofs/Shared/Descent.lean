/-
# Where requesters and handles come from

A requester is made together with its cell, or cloned from another. A handle is minted from
a requester, and whatever takes the access out of it or gives it another name hands this on.
A lineage says so of all that there are, and which requester each thread asked last; no step
reads it. The cell of a requester is the mark of its make: a clone has the cell of the one
it was cloned from, and each cell is made once. The cell that a handle is locked on is that
of the requester it was minted from, even if that is gone.

Key definitions: `Lineage`, `Lineage.next`, `World.Descent`, `Lineage.Agrees`.
Key theorems: `Lineage.Agrees.next`, `World.Reachable.exists_descent`, `World.Descent.agrees`.
-/
import Custody.Proofs.Descent
import Custody.Proofs.Shared.Deadlock

namespace Custody.Shared

variable {α : Type} {w : World α} {P : Policy}

/-! ### Lineages -/

/-- How requesters came about, and what comes from which of them. -/
structure Lineage where
  births : Births
  /-- The number of the requester that has the name. -/
  requesters : Table String Nat
  /-- The number of the requester that the thread asked last. -/
  asked : Table ThreadId Nat
  /-- The number of the requester that the handle was minted from, if it is locked. -/
  handles : Table HandleKey Nat

/-- The entry of a key is that number, or there is none. -/
def assign {κ : Type} [DecidableEq κ] (k : κ) (u : Option Nat) (T : Table κ Nat) : Table κ Nat :=
  match u with
  | none => T.erase k
  | some u => T.put k u

theorem get?_assign {κ : Type} [DecidableEq κ] (k k' : κ) (u : Option Nat) (T : Table κ Nat) :
    (assign k' u T).get? k = if k = k' then u else T.get? k := by
  cases u with
  | none => exact Table.get?_erase k k' T
  | some u => exact Table.get?_put k k' u T

/-- What a deed does with where handles come from, if it is the requester `u` that is asked. -/
def Deed.trace (d : Deed) (u : Option Nat) (T : Table HandleKey Nat) : Table HandleKey Nat :=
  match d with
  | .nothing => T
  | .grant r => assign (r.thread, r.name) u T
  | .release key _ => T.erase key
  | .take key new _ => assign new (T.get? key) (T.erase key)
  | .move key new _ => assign new (T.get? key) (T.erase key)
  | .drop key => T.erase key

namespace Lineage

/-- The lineage of a world without cells. -/
def empty : Lineage := ⟨[], [], [], []⟩

/-- The requester that a step asks. -/
def grantor? (D : Lineage) : World.Step α → Option Nat
  | .attempt _ name _ _ => D.requesters.get? name
  | .block t => D.asked.get? t
  | .grant t => D.asked.get? t
  | _ => none

/-- The requesters that threads asked last, after a step with that answer. -/
def askedAfter (D : Lineage) (s : World.Step α) (r : World.Reply α) : Table ThreadId Nat :=
  match s, r with
  | .attempt t name _ _, .contended => assign t (D.requesters.get? name) D.asked
  | _, _ => D.asked

/-- The lineage after a step. -/
def next (P : Policy) (w : World α) (s : World.Step α) (D : Lineage) : Lineage :=
  match s with
  | .create name _ _ _ =>
    { D with births := D.births ++ [none], requesters := D.requesters.put name D.births.length }
  | .cloneRequester name copy =>
    match D.requesters.get? name with
    | none => D
    | some u =>
      { D with
        births := D.births ++ [some u], requesters := D.requesters.put copy D.births.length }
  | .dropRequester name => { D with requesters := D.requesters.erase name }
  | s =>
    { D with
      asked := D.askedAfter s (w.step P s).2
      handles := (w.deed P s).trace (D.grantor? s) D.handles }

end Lineage

/-- The worlds that are met when threads take turns in any order, under sound policies, with
the lineage of all that is in them. -/
inductive World.Descent : World α → Lineage → Prop
  | empty : Descent .empty .empty
  | step {w : World α} {D : Lineage} (P : Policy) (s : World.Step α) :
      Descent w D → Descent (w.step P s).1 (D.next P w s)

theorem World.Descent.reachable {D : Lineage} (hw : w.Descent D) : w.Reachable := by
  induction hw with
  | empty => exact .empty
  | step P s _ ih => exact .step P s ih

/-- Every reachable world has a lineage. -/
theorem World.Reachable.exists_descent (hw : w.Reachable) : ∃ D, w.Descent D := by
  induction hw with
  | empty => exact ⟨_, .empty⟩
  | step P s _ ih =>
    obtain ⟨D, hD⟩ := ih
    exact ⟨_, .step P s hD⟩

/-! ### Which step changes what -/

theorem requesters_attempt (t : ThreadId) (name : String) (access : Access) (h : HandleName) :
    (w.stepAttempt P t name access h).1.requesters = w.requesters := by
  unfold World.stepAttempt
  split
  · rfl
  · split
    · rfl
    · simp only
      split
      · exact (sameRefs_letIn _ _ _ _ _).requesters
      · rfl

theorem requesters_enter (t : ThreadId) (phase : Phase) :
    (w.stepEnter P t phase).1.requesters = w.requesters := by
  unfold World.stepEnter
  split
  · rfl
  · simp only
    split
    · exact (sameRefs_letIn _ _ _ _ _).requesters
    · cases phase <;> rfl

theorem requesters_withHandle {t : ThreadId} {h : HandleName}
    {f : Handle → World α × World.Reply α} (hf : ∀ handle, (f handle).1.requesters = w.requesters) :
    (w.withHandle t h f).1.requesters = w.requesters := by
  unfold World.withHandle
  split
  · rfl
  · exact hf _

theorem requesters_thread (s : World.Step α) : (w.stepThread P s).1.requesters = w.requesters := by
  cases s with
  | attempt t name access h => exact requesters_attempt t name access h
  | read t h => exact requesters_withHandle fun _ => (stepAccess_sameRefs _ _ _).requesters
  | update t h f => exact requesters_withHandle fun _ => (stepAccess_sameRefs _ _ _).requesters
  | overwrite t h f => exact requesters_withHandle fun _ => (stepAccess_sameRefs _ _ _).requesters
  | release t h => exact requesters_withHandle fun _ => (sameRefs_surrender _ _).requesters
  | take t h new => exact requesters_withHandle fun _ => (sameRefs_keep _ _ _).requesters
  | move t h new =>
    refine requesters_withHandle fun _ => ?_
    split
    · rfl
    · exact (sameRefs_keep _ _ _).requesters
  | drop t h => exact requesters_withHandle fun _ => (sameRefs_surrender _ _).requesters
  | _ => rfl

/-- Whether the step is about requesters. -/
def aboutRequesters : World.Step α → Bool
  | .create _ _ _ _ => true
  | .cloneRequester _ _ => true
  | .dropRequester _ => true
  | _ => false

/-- A step that is not about requesters leaves them and the number of cells as they are. -/
theorem step_requesters {s : World.Step α} (hs : aboutRequesters s = false) :
    (w.step P s).1.requesters = w.requesters ∧ (w.step P s).1.cells.length = w.cells.length := by
  have hthread : ∀ {t : ThreadId} {s : World.Step α}, s.thread? = some t →
      (∀ t name access h, s ≠ .attempt t name access h) →
      (w.step P s).1.requesters = w.requesters ∧ (w.step P s).1.cells.length = w.cells.length := by
    intro t s ht hs
    rw [step_of_thread P w ht]
    split
    · exact ⟨rfl, rfl⟩
    · exact ⟨requesters_thread s, (stepThread_sameRequests hs).length⟩
  cases s with
  | create name f v near => cases hs
  | cloneRequester name copy => cases hs
  | dropRequester name => cases hs
  | attempt t name access h =>
    rw [step_of_thread P w rfl]
    split
    · exact ⟨rfl, rfl⟩
    · exact ⟨requesters_attempt t name access h, stepAttempt_length t name access h⟩
  | block t => exact ⟨requesters_enter t .refused, stepEnter_length t .refused⟩
  | grant t => exact ⟨requesters_enter t .waiting, stepEnter_length t .waiting⟩
  | read t h => exact hthread rfl (by simp)
  | update t h f => exact hthread rfl (by simp)
  | overwrite t h f => exact hthread rfl (by simp)
  | release t h => exact hthread rfl (by simp)
  | take t h new => exact hthread rfl (by simp)
  | move t h new => exact hthread rfl (by simp)
  | drop t h => exact hthread rfl (by simp)

/-! ### Marks -/

/-- Whether there is neither a cell nor a number, or the number's mark is that cell. -/
def Tracks (cells : List CellId) (c : Option CellId) (u : Option Nat) : Prop :=
  c.map some = u.map (cells[·]?)

section tracks

variable {cells : List CellId} {c : Option CellId} {u : Option Nat}

theorem Tracks.none_iff (ht : Tracks cells c u) : c = none ↔ u = none := by
  unfold Tracks at ht
  cases c with
  | none =>
    cases u with
    | none => exact Iff.rfl
    | some i => simp at ht
  | some x =>
    cases u with
    | none => simp at ht
    | some i => simp

theorem Tracks.mark_eq {x : CellId} (ht : Tracks cells (some x) u) :
    ∃ i, u = some i ∧ cells[i]? = some x := by
  unfold Tracks at ht
  cases u with
  | none => simp at ht
  | some i => exact ⟨i, rfl, by simpa using ht.symm⟩

theorem tracks_some {i : Nat} {x : CellId} (hi : cells[i]? = some x) :
    Tracks cells (some x) (some i) := by
  simp [Tracks, hi]

theorem tracks_last (cells : List CellId) (x : CellId) :
    Tracks (cells ++ [x]) (some x) (some cells.length) :=
  tracks_some List.getElem?_concat_length

theorem Tracks.append (ht : Tracks cells c u) (x : CellId) : Tracks (cells ++ [x]) c u := by
  cases c with
  | none =>
    obtain rfl := ht.none_iff.mp rfl
    rfl
  | some y =>
    obtain ⟨i, rfl, hi⟩ := ht.mark_eq
    refine tracks_some ?_
    rw [List.getElem?_append_left (List.getElem?_eq_some_iff.mp hi).1, hi]

end tracks

/-- What a deed does with handles and with where they come from agrees. -/
theorem Deed.tracks {d : Deed} {ts : Table HandleKey Handle} {T : Table HandleKey Nat}
    {cells : List CellId} {u : Option Nat} (hd : d.Fits ts)
    (ht : ∀ key, Tracks cells ((ts.get? key).bind (·.grant)) (T.get? key))
    (hu : ∀ r, d = .grant r → Tracks cells (some r.cell) u) (key : HandleKey) :
    Tracks cells (((d.apply ts).get? key).bind (·.grant)) ((d.trace u T).get? key) := by
  have hgrant : ∀ {key : HandleKey} {h : Handle}, ts.get? key = some h →
      Tracks cells h.grant (T.get? key) := by
    intro key h hh
    have := ht key
    rwa [hh] at this
  cases d with
  | nothing => exact ht key
  | grant r =>
    simp only [Deed.apply, Deed.trace, Table.get?_put, get?_assign]
    split
    · exact hu r rfl
    · exact ht key
  | release k h =>
    simp only [Deed.apply, Deed.trace, Table.get?_put, Table.get?_erase]
    split
    · rfl
    · exact ht key
  | take k new h =>
    simp only [Deed.apply, Deed.trace, Table.get?_put, Table.get?_erase, get?_assign]
    split
    · exact hgrant hd
    · split
      · rfl
      · exact ht key
  | move k new h =>
    simp only [Deed.apply, Deed.trace, Table.get?_put, Table.get?_erase, get?_assign]
    split
    · exact hgrant hd
    · split
      · rfl
      · exact ht key
  | drop k =>
    simp only [Deed.apply, Deed.trace, Table.get?_erase]
    split
    · rfl
    · exact ht key

/-! ### Lineages agree with worlds -/

/-- Whether the lineage agrees with the world, if `cells` are the cells of the requesters that
there ever were. -/
structure Lineage.Agrees (D : Lineage) (w : World α) (cells : List CellId) : Prop where
  marked : D.births.Marked cells
  old : ∀ c ∈ cells, c < w.cells.length
  requesters : ∀ name, Tracks cells (w.requesters.get? name) (D.requesters.get? name)
  asked : ∀ r ∈ w.requests, Tracks cells (some r.cell) (D.asked.get? r.thread)
  handles : ∀ key, Tracks cells ((w.handles.get? key).bind (·.grant)) (D.handles.get? key)

namespace Lineage.Agrees

variable {D : Lineage} {cells : List CellId} (ha : D.Agrees w cells)
include ha

/-- The requester that is asked has the cell that it is asked for. -/
theorem grantor {s : World.Step α} {r : Request} (hr : w.asked? s = some r) :
    Tracks cells (some r.cell) (D.grantor? s) := by
  cases s with
  | attempt t name access h =>
    obtain ⟨c, hc, hk⟩ := Option.bind_eq_some_iff.mp hr
    obtain ⟨k, -, rfl⟩ := Option.map_eq_some_iff.mp hk
    have := ha.requesters name
    rwa [hc] at this
  | block t =>
    have := ha.asked r (List.mem_of_find?_eq_some hr)
    rwa [(thread_of_request? hr).1] at this
  | grant t =>
    have := ha.asked r (List.mem_of_find?_eq_some hr)
    rwa [(thread_of_request? hr).1] at this
  | _ => cases hr

/-- After a step that is not about requesters the lineage agrees about the handles. -/
theorem handles_step (P : Policy) (s : World.Step α) (key : HandleKey) :
    Tracks cells (((w.step P s).1.handles.get? key).bind (·.grant))
      (((w.deed P s).trace (D.grantor? s) D.handles).get? key) := by
  rw [step_handles P w s key]
  refine Deed.tracks (deed_fits P w s) ha.handles (fun r hr => ?_) key
  -- only what is asked for is granted
  unfold World.deed at hr
  split at hr
  · cases hasked : w.asked? s with
    | none => simp [hasked] at hr
    | some r' =>
      obtain rfl : r' = r := by simpa [hasked] using hr
      exact ha.grantor hasked
  · have hworked : ∀ r, w.worked s ≠ .grant r := by
      intro r
      cases s with
      | release t h => simp only [World.worked]; cases w.handles.get? (t, h) <;> simp
      | take t h new => simp only [World.worked]; cases w.handles.get? (t, h) <;> simp
      | move t h new => simp only [World.worked]; cases w.handles.get? (t, h) <;> simp
      | _ => simp [World.worked]
    exact absurd hr (hworked r)
  · cases hr

theorem asked_attempt (P : Policy) (t : ThreadId) (name : String) (access : Access)
    (h : HandleName) : ∀ r ∈ (w.step P (.attempt t name access h)).1.requests,
      Tracks cells (some r.cell) ((D.askedAfter (.attempt t name access h)
        (w.step P (.attempt t name access h)).2).get? r.thread) := by
  rw [step_of_thread P w (s := .attempt t name access h) rfl]
  split
  · exact ha.asked
  · rename_i hfree
    show ∀ r ∈ (w.stepAttempt P t name access h).1.requests, Tracks cells (some r.cell)
      ((D.askedAfter _ (w.stepAttempt P t name access h).2).get? r.thread)
    unfold World.stepAttempt
    cases hc : w.requesters.get? name with
    | none => exact ha.asked
    | some c =>
      cases hk : (w.flavour? c).bind (·.handle? access) with
      | none =>
        simp only [hk]
        exact ha.asked
      | some k =>
        simp only [hk]
        split
        · rw [(sameRefs_letIn _ _ _ _ _).requests]
          exact ha.asked
        · intro r hr
          show Tracks cells (some r.cell) ((assign t (D.requesters.get? name) D.asked).get? r.thread)
          rw [get?_assign]
          rcases List.mem_append.mp hr with hold | hnew
          · -- the thread has no request that is not granted yet
            have hne : r.thread ≠ t := fun heq => hfree (isBlocked_iff.mpr ⟨r, hold, heq⟩)
            rw [if_neg hne]
            exact ha.asked r hold
          · obtain rfl := List.mem_singleton.mp hnew
            rw [if_pos rfl, ← hc]
            exact ha.requesters name

theorem asked_enter (P : Policy) (t : ThreadId) (phase : Phase) :
    ∀ r ∈ (w.stepEnter P t phase).1.requests,
      Tracks cells (some r.cell) (D.asked.get? r.thread) := by
  unfold World.stepEnter
  cases hr : w.request? t phase with
  | none => exact ha.asked
  | some r =>
    have hothers : ∀ r' ∈ (w.withdraw r).requests, Tracks cells (some r'.cell) (D.asked.get? r'.thread) :=
      fun r' hr' => ha.asked r' (List.mem_of_mem_erase hr')
    simp only
    split
    · rw [(sameRefs_letIn _ _ _ _ _).requests]
      exact hothers
    · cases phase with
      | waiting => exact ha.asked
      | refused =>
        intro r' hr'
        rcases List.mem_append.mp hr' with hold | hnew
        · exact hothers r' hold
        · obtain rfl := List.mem_singleton.mp hnew
          exact ha.asked r (List.mem_of_find?_eq_some hr)

/-- After each step the lineage agrees about the requests. -/
theorem asked_step (P : Policy) {s : World.Step α} (hs : aboutRequesters s = false) :
    ∀ r ∈ (w.step P s).1.requests,
      Tracks cells (some r.cell) ((D.askedAfter s (w.step P s).2).get? r.thread) := by
  have hthread : ∀ {t : ThreadId} {s : World.Step α}, s.thread? = some t →
      (∀ t name access h, s ≠ .attempt t name access h) → ∀ r ∈ (w.step P s).1.requests,
      Tracks cells (some r.cell) (D.asked.get? r.thread) := by
    intro t s ht hs
    rw [step_of_thread P w ht]
    split
    · exact ha.asked
    · rw [(stepThread_sameRequests hs).requests]
      exact ha.asked
  cases s with
  | create name f v near => cases hs
  | cloneRequester name copy => cases hs
  | dropRequester name => cases hs
  | attempt t name access h => exact ha.asked_attempt P t name access h
  | block t => exact ha.asked_enter P t .refused
  | grant t => exact ha.asked_enter P t .waiting
  | read t h => exact hthread rfl (by simp)
  | update t h f => exact hthread rfl (by simp)
  | overwrite t h f => exact hthread rfl (by simp)
  | release t h => exact hthread rfl (by simp)
  | take t h new => exact hthread rfl (by simp)
  | move t h new => exact hthread rfl (by simp)
  | drop t h => exact hthread rfl (by simp)

/-- A requester is registered under a name, with the next number, and handles and requests are
what they were. -/
theorem register {w' : World α} {B : Births} {name : String} {c : CellId}
    (hmarked : B.Marked (cells ++ [c])) (hc : c < w'.cells.length)
    (hcells : w.cells.length ≤ w'.cells.length)
    (hrequesters : w'.requesters = w.requesters.put name c) (hrequests : w'.requests = w.requests)
    (hhandles : w'.handles = w.handles) :
    Lineage.Agrees { D with births := B, requesters := D.requesters.put name D.births.length } w'
      (cells ++ [c]) where
  marked := hmarked
  old c' hc' := by
    rcases List.mem_append.mp hc' with hold | hnew
    · exact Nat.lt_of_lt_of_le (ha.old c' hold) hcells
    · obtain rfl := List.mem_singleton.mp hnew
      exact hc
  requesters name' := by
    simp only [hrequesters, Table.get?_put]
    split
    · rw [← ha.marked.length]
      exact tracks_last cells c
    · exact (ha.requesters name').append c
  asked r hr := (ha.asked r (hrequests ▸ hr)).append c
  handles key := by
    rw [hhandles]
    exact (ha.handles key).append c

theorem next_create (P : Policy) (name : String) (f : Flavour) (v : α) (near : Nat) :
    ∃ cells', (D.next P w (.create name f v near)).Agrees (w.step P (.create name f v near)).1
      cells' := by
  have hsame := sameRefs_create w name f v near
  have hlen : (w.stepCreate name f v near).1.cells.length = w.cells.length + 1 := by
    rw [hsame.length]
    exact List.length_append
  have hnew : w.cells.length ∉ cells := fun hmem => Nat.lt_irrefl _ (ha.old _ hmem)
  refine ⟨cells ++ [w.cells.length], ha.register (ha.marked.make hnew) ?_ ?_
    hsame.requesters hsame.requests hsame.handles⟩
  · show w.cells.length < (w.stepCreate name f v near).1.cells.length
    omega
  · show w.cells.length ≤ (w.stepCreate name f v near).1.cells.length
    omega

theorem next_clone (P : Policy) (name copy : String) :
    ∃ cells', (D.next P w (.cloneRequester name copy)).Agrees
      (w.step P (.cloneRequester name copy)).1 cells' := by
  have htracks := ha.requesters name
  cases hc : w.requesters.get? name with
  | none =>
    rw [hc] at htracks
    have hnone := htracks.none_iff.mp rfl
    have hstep : (w.step P (.cloneRequester name copy)).1 = w := by
      show (w.stepClone name copy).1 = w
      simp only [World.stepClone, hc]
    have hnext : D.next P w (.cloneRequester name copy) = D := by
      simp only [Lineage.next, hnone]
    rw [hstep, hnext]
    exact ⟨cells, ha⟩
  | some c =>
    rw [hc] at htracks
    obtain ⟨u, hu, hmark⟩ := htracks.mark_eq
    have hstep : (w.step P (.cloneRequester name copy)).1 =
        { w.own c with requesters := w.requesters.put copy c }.disown?
          (w.requesters.get? copy) := by
      show (w.stepClone name copy).1 = _
      simp only [World.stepClone, hc]
    have hnext : D.next P w (.cloneRequester name copy) =
        { D with
          births := D.births ++ [some u]
          requesters := D.requesters.put copy D.births.length } := by
      simp only [Lineage.next, hu]
    rw [hstep, hnext]
    have hown := sameRefs_modifyCell w c fun cell => { cell with owners := cell.owners + 1 }
    have hsame := sameRefs_disown? { w.own c with requesters := w.requesters.put copy c }
      (w.requesters.get? copy)
    have hlen := hsame.length.trans hown.length
    refine ⟨cells ++ [c], ha.register (ha.marked.copy hmark) ?_ (Nat.le_of_eq hlen.symm)
      hsame.requesters (hsame.requests.trans hown.requests) (hsame.handles.trans hown.handles)⟩
    exact Nat.lt_of_lt_of_le (ha.old c (List.mem_of_getElem? hmark)) (Nat.le_of_eq hlen.symm)

theorem next_drop (P : Policy) (name : String) :
    (D.next P w (.dropRequester name)).Agrees (w.step P (.dropRequester name)).1 cells := by
  have hnext : D.next P w (.dropRequester name) =
      { D with requesters := D.requesters.erase name } := rfl
  rw [hnext]
  cases hc : w.requesters.get? name with
  | none =>
    have hstep : (w.step P (.dropRequester name)).1 = w := by
      show (w.stepDropRequester name).1 = w
      simp only [World.stepDropRequester, hc]
    rw [hstep]
    refine ⟨ha.marked, ha.old, fun name' => ?_, ha.asked, ha.handles⟩
    rw [Table.get?_erase]
    split
    · rename_i heq
      rw [heq, hc]
      rfl
    · exact ha.requesters name'
  | some c =>
    have hstep : (w.step P (.dropRequester name)).1 =
        { w with requesters := w.requesters.erase name }.disown c := by
      show (w.stepDropRequester name).1 = _
      simp only [World.stepDropRequester, hc]
    have hsame := sameRefs_disown { w with requesters := w.requesters.erase name } c
    rw [hstep]
    refine ⟨ha.marked, fun c' hc' => ?_, fun name' => ?_, fun r hr => ?_, fun key => ?_⟩
    · rw [hsame.length]
      exact ha.old c' hc'
    · rw [hsame.requesters, Table.get?_erase, Table.get?_erase]
      split
      · rfl
      · exact ha.requesters name'
    · exact ha.asked r (hsame.requests ▸ hr)
    · rw [hsame.handles]
      exact ha.handles key

/-- A step that is not about requesters changes requests and handles only. -/
theorem next_other (P : Policy) {s : World.Step α} (hs : aboutRequesters s = false) :
    Lineage.Agrees { D with
      asked := D.askedAfter s (w.step P s).2
      handles := (w.deed P s).trace (D.grantor? s) D.handles } (w.step P s).1 cells := by
  obtain ⟨hrequesters, hlength⟩ := step_requesters (P := P) (w := w) hs
  refine ⟨ha.marked, fun c hc => ?_, fun name => ?_, ha.asked_step P hs, ha.handles_step P s⟩
  · rw [hlength]
    exact ha.old c hc
  · rw [hrequesters]
    exact ha.requesters name

/-- **After a step the lineage agrees with the world.** -/
theorem next (P : Policy) (s : World.Step α) :
    ∃ cells', (D.next P w s).Agrees (w.step P s).1 cells' := by
  cases s with
  | create name f v near => exact ha.next_create P name f v near
  | cloneRequester name copy => exact ha.next_clone P name copy
  | dropRequester name => exact ⟨cells, ha.next_drop P name⟩
  | _ => exact ⟨cells, ha.next_other P rfl⟩

end Lineage.Agrees

theorem Lineage.agrees_empty : Lineage.empty.Agrees (.empty : World α) [] where
  marked := Births.marked_nil
  old _ hc := absurd hc List.not_mem_nil
  requesters _ := rfl
  asked _ hr := absurd hr List.not_mem_nil
  handles _ := rfl

/-- **A lineage agrees with its world.** -/
theorem World.Descent.agrees {D : Lineage} (hw : w.Descent D) : ∃ cells, D.Agrees w cells := by
  induction hw with
  | empty => exact ⟨[], Lineage.agrees_empty⟩
  | step P s _ ih =>
    obtain ⟨cells, hcells⟩ := ih
    exact hcells.next P s

end Custody.Shared
