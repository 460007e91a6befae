/-
# Steps that ask for nothing

A thread has two things recorded of a request: that it was not let in at once, and that it
was granted. All steps but those that ask for a handle leave the records as they are; they
take no lock, and can only give one up. A step that asks and is not let in takes none either.

Key definitions: `Record`, `World.records`, `World.Loosens`, `Calm`.
Key theorems: `step_calm`, `records_letIn`, `step_loosens`.
-/
import Custody.Proofs.Shared.Asking

namespace Custody.Shared

variable {α : Type} {w w' w'' : World α} {P : Policy} {s : World.Step α} {h : Handle} {c : CellId}

/-! ### What is recorded of requests -/

/-- What is recorded of a request for a handle: the cell, and the kind of the handle. -/
inductive Record where
  /-- It was not let in at once. -/
  | contended (c : CellId) (k : HandleKind)
  | granted (c : CellId) (k : HandleKind)
  deriving DecidableEq

/-- What the event records of a request of that thread. -/
def Event.record? (t : ThreadId) : Event α → Option Record
  | .contended t' c k => if t' = t then some (.contended c k) else none
  | .granted t' c k => if t' = t then some (.granted c k) else none
  | _ => none

/-- What is recorded of the requests of a thread, the oldest first. -/
def World.records (w : World α) (t : ThreadId) : List Record :=
  w.log.reverse.filterMap (Event.record? t)

theorem records_note (e : Event α) (w : World α) (t : ThreadId) :
    (w.note e).records t = w.records t ++ (e.record? t).toList := by
  unfold World.records World.note
  rw [List.reverse_cons, List.filterMap_append]
  cases he : e.record? t <;> simp [he]

/-! ### Locks that are not taken -/

/-- Whether the cells of the one world are there in the other, and each lock is held as before, or as
after some of its holders left. -/
def World.Loosens (w w' : World α) : Prop :=
  ∀ (c : CellId) cell, w.cells[c]? = some cell → ∃ cell', w'.cells[c]? = some cell' ∧
    ∃ ds : List Demand, cell'.hold = ds.foldl Hold.leave cell.hold

theorem World.Loosens.refl (w : World α) : w.Loosens w :=
  fun _ cell hc => ⟨cell, hc, [], rfl⟩

theorem World.Loosens.trans (h : w.Loosens w') (h' : w'.Loosens w'') : w.Loosens w'' := by
  intro c cell hc
  obtain ⟨cell', hc', ds, hhold⟩ := h c cell hc
  obtain ⟨cell'', hc'', ds', hhold'⟩ := h' c cell' hc'
  exact ⟨cell'', hc'', ds ++ ds', by rw [hhold', hhold, List.foldl_append]⟩

theorem loosens_of_cells (hcells : w'.cells = w.cells) : w.Loosens w' :=
  fun _ cell hc => ⟨cell, by rw [hcells, hc], [], rfl⟩

/-- A change of a cell with which holders leave its lock, or none does. -/
theorem loosens_modifyCell {f : Cell α → Cell α}
    (hf : ∀ cell, ∃ ds : List Demand, (f cell).hold = ds.foldl Hold.leave cell.hold) :
    w.Loosens (w.modifyCell c f) := by
  intro c' cell hc
  rw [getElem?_modifyCell, hc]
  split
  · exact ⟨f cell, rfl, hf cell⟩
  · exact ⟨cell, rfl, [], rfl⟩

/-- Whether nothing more is recorded of requests, and no lock is taken. -/
structure Calm (w w' : World α) : Prop where
  records : ∀ t, w'.records t = w.records t
  loosens : w.Loosens w'

theorem Calm.trans (h : Calm w w') (h' : Calm w' w'') : Calm w w'' where
  records t := (h'.records t).trans (h.records t)
  loosens := h.loosens.trans h'.loosens

theorem calm_refl (w : World α) : Calm w w := ⟨fun _ => rfl, .refl w⟩

theorem calm_of_cells (hcells : w'.cells = w.cells) (hlog : w'.log = w.log) : Calm w w' where
  records t := by
    unfold World.records
    rw [hlog]
  loosens := loosens_of_cells hcells

theorem calm_modifyCell {f : Cell α → Cell α}
    (hf : ∀ cell, ∃ ds : List Demand, (f cell).hold = ds.foldl Hold.leave cell.hold) :
    Calm w (w.modifyCell c f) :=
  ⟨fun _ => rfl, loosens_modifyCell hf⟩

theorem calm_note {e : Event α} (he : ∀ t, e.record? t = none) (w : World α) : Calm w (w.note e) where
  records t := by
    rw [records_note, he t]
    exact List.append_nil _
  loosens := loosens_of_cells rfl

theorem calm_own (w : World α) (c : CellId) : Calm w (w.own c) :=
  calm_modifyCell fun _ => ⟨[], rfl⟩

theorem calm_disown (w : World α) (c : CellId) : Calm w (w.disown c) := by
  unfold World.disown
  split
  · exact calm_refl w
  · have hfewer : Calm w (w.modifyCell c fun cell => { cell with owners := cell.owners - 1 }) :=
      calm_modifyCell fun _ => ⟨[], rfl⟩
    dsimp only
    split
    · have hgone := calm_modifyCell (w := w.modifyCell c fun cell => { cell with owners := cell.owners - 1 })
        (c := c) (f := Cell.fill none) fun _ => ⟨[], rfl⟩
      exact (hfewer.trans hgone).trans (calm_note (fun _ => rfl) _)
    · exact hfewer

theorem calm_disown? (w : World α) (o : Option CellId) : Calm w (w.disown? o) := by
  cases o with
  | none => exact calm_refl w
  | some c => exact calm_disown w c

theorem calm_surrender (w : World α) (h : Handle) : Calm w (w.surrender h) := by
  cases hg : h.grant with
  | none =>
    rw [World.surrender_of_none hg]
    exact calm_refl w
  | some c =>
    have hquit : Calm w (w.quit c h.kind) := by
      unfold World.quit World.relock
      split
      · exact calm_refl w
      · exact calm_modifyCell fun _ => ⟨[_], rfl⟩
    rw [World.surrender_eq hg]
    exact hquit.trans (calm_disown _ c)

theorem calm_handles (w : World α) (ts : Table HandleKey Handle) : Calm w { w with handles := ts } :=
  calm_of_cells rfl rfl

theorem calm_keep (w : World α) (key : HandleKey) (h : Handle) : Calm w (w.keep key h) := by
  have hput : Calm w { w with handles := w.handles.put key h } := calm_handles w _
  apply hput.trans
  show Calm _ (World.surrender? (w.handles.get? key) _)
  cases w.handles.get? key with
  | none => exact calm_refl _
  | some old => exact calm_surrender _ old

/-! ### Steps that ask for nothing -/

theorem calm_create (name : String) (f : Flavour) (v : α) (near : Nat) :
    Calm w (w.stepCreate name f v near).1 := by
  have hmade : Calm w { w with
      cells := w.cells ++ [.new f v (freeAddress w.taken near)]
      requesters := w.requesters.put name w.cells.length } := by
    refine ⟨fun _ => rfl, fun c cell hc => ⟨cell, ?_, [], rfl⟩⟩
    have hlt := lt_of_getElem?_eq_some hc
    exact (List.getElem?_append_left hlt).trans hc
  exact (hmade.trans (calm_note (fun _ => rfl) _)).trans (calm_disown? _ _)

theorem calm_clone (name copy : String) : Calm w (w.stepClone name copy).1 := by
  unfold World.stepClone
  split
  · exact calm_refl w
  · rename_i c _
    have hcopy : Calm (w.own c) { w.own c with requesters := w.requesters.put copy c } :=
      calm_of_cells rfl rfl
    exact ((calm_own w c).trans hcopy).trans (calm_disown? _ _)

theorem calm_dropRequester (name : String) : Calm w (w.stepDropRequester name).1 := by
  unfold World.stepDropRequester
  split
  · exact calm_refl w
  · have herase : Calm w { w with requesters := w.requesters.erase name } := calm_of_cells rfl rfl
    exact herase.trans (calm_disown _ _)

theorem calm_access (u : World.Use) (f : α → α) (h : Handle) :
    Calm w (w.stepAccess u f h).1 := by
  rcases w.stepAccess_cases u f h with ⟨r, heq, -⟩ | ⟨c, v, -, -, -, heq⟩
  · rw [heq]
    exact calm_refl w
  · rw [heq]
    exact calm_modifyCell fun _ => ⟨[], rfl⟩

theorem calm_withHandle {t : ThreadId} {n : HandleName} {f : Handle → World α × World.Reply α}
    (hs : s.thread? = some t) (hthread : w.stepThread P s = w.withHandle t n f)
    (hf : ∀ handle, Calm w (f handle).1) : Calm w (w.step P s).1 := by
  rcases step_withHandle hs hthread with ⟨heq, -⟩ | ⟨-, handle, -, heq⟩
  · rw [heq]
    exact calm_refl w
  · rw [heq]
    exact hf handle

/-- **Only who asks for a handle takes a lock**, or has anything recorded of a request. -/
theorem step_calm (P : Policy) (w : World α) (hs : s.asks = false) : Calm w (w.step P s).1 := by
  cases s with
  | create name f v near => exact calm_create name f v near
  | cloneRequester name copy => exact calm_clone name copy
  | dropRequester name => exact calm_dropRequester name
  | read t n => exact calm_withHandle rfl rfl (calm_access _ _)
  | update t n f => exact calm_withHandle rfl rfl (calm_access _ _)
  | overwrite t n f => exact calm_withHandle rfl rfl (calm_access _ _)
  | release t n =>
    exact calm_withHandle rfl rfl fun handle => (calm_handles w _).trans (calm_surrender _ handle)
  | take t n new =>
    exact calm_withHandle rfl rfl fun handle => (calm_handles w _).trans (calm_keep _ _ handle)
  | move t n new =>
    refine calm_withHandle rfl rfl fun handle => ?_
    split
    · exact calm_refl w
    · exact (calm_handles w _).trans (calm_keep _ _ handle)
  | drop t n =>
    exact calm_withHandle rfl rfl fun handle => (calm_handles w _).trans (calm_surrender _ handle)
  | attempt t name access n => cases hs
  | block t => cases hs
  | grant t => cases hs

/-! ### Steps that ask -/

/-- What is recorded of a request that is granted. -/
theorem records_letIn (w : World α) (t : ThreadId) (name : HandleName) (c : CellId) (k : HandleKind)
    (t' : ThreadId) : (w.letIn t name c k).records t' =
      w.records t' ++ if t = t' then [.granted c k] else [] := by
  have hentered : (w.enter c k).records t' = w.records t' := by
    unfold World.enter World.relock
    split <;> rfl
  have hnoted : ((w.enter c k).note (.granted t c k)).records t' =
      w.records t' ++ if t = t' then [.granted c k] else [] := by
    rw [records_note, hentered, Event.record?]
    split <;> rfl
  exact ((calm_keep _ _ _).records t').trans hnoted

/-- Who asks and is not let in takes no lock. -/
theorem loosens_of_tries {r : Request} (ht : w.Tries P s r) (hnot : (w.step P s).2 ≠ .granted) :
    w.Loosens (w.step P s).1 := by
  cases ht with
  | blocked _ _ hstep | waits _ _ _ _ hstep | queues _ _ _ _ hstep =>
    rw [hstep]
    exact loosens_of_cells rfl
  | contends _ _ _ _ hstep =>
    rw [hstep]
    exact (calm_own w r.cell).loosens.trans (loosens_of_cells rfl)
  | enters _ _ _ hstep | entersLater _ _ _ hstep =>
    rw [hstep] at hnot
    exact absurd rfl hnot

/-- **Who is not granted a handle takes no lock.** -/
theorem step_loosens (hnot : (w.step P s).2 ≠ .granted) : w.Loosens (w.step P s).1 := by
  cases hasks : s.asks with
  | false => exact (step_calm P w hasks).loosens
  | true =>
    cases hr : w.asked? s with
    | none =>
      rw [(step_unasked P hasks hr).1]
      exact .refl w
    | some r => exact loosens_of_tries (step_tries P hr) hnot

end Custody.Shared
