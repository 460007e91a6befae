/-
# Who refers to a cell, from step to step

Giving up what a handle holds changes cells and the log only; requesters, handles and
requests remain what they were. So a request is there until it is granted, and then
a locked handle is there in its place, and a step that makes a cell leaves a
requester of it.

Key definitions: `SameRefs`, `World.Asked`, `World.Kept`.
Key theorems: `sameRefs_surrender`, `step_asked`, `step_new`.
-/
import Custody.Proofs.Shared.Run

namespace Custody.Shared

variable {α : Type} {w : World α} {P : Policy}

/-- Two worlds with as many cells, and the same requesters, handles and requests. -/
structure SameRefs (w w' : World α) : Prop where
  requesters : w'.requesters = w.requesters
  handles : w'.handles = w.handles
  requests : w'.requests = w.requests
  length : w'.cells.length = w.cells.length

theorem SameRefs.trans {w₁ w₂ w₃ : World α} (h : SameRefs w₁ w₂) (h' : SameRefs w₂ w₃) :
    SameRefs w₁ w₃ :=
  ⟨h'.requesters.trans h.requesters, h'.handles.trans h.handles, h'.requests.trans h.requests,
    h'.length.trans h.length⟩

theorem sameRefs_refl (w : World α) : SameRefs w w := ⟨rfl, rfl, rfl, rfl⟩

theorem sameRefs_modifyCell (w : World α) (c : CellId) (f : Cell α → Cell α) :
    SameRefs w (w.modifyCell c f) :=
  ⟨rfl, rfl, rfl, List.length_modify ..⟩

theorem sameRefs_disown (w : World α) (c : CellId) : SameRefs w (w.disown c) := by
  unfold World.disown
  split
  · exact sameRefs_refl w
  · have hfirst := sameRefs_modifyCell w c fun cell => { cell with owners := cell.owners - 1 }
    dsimp only
    split
    · have hlast := sameRefs_modifyCell
        (w.modifyCell c fun cell => { cell with owners := cell.owners - 1 }) c
        (Cell.fill none)
      have hboth := hfirst.trans hlast
      exact ⟨hboth.requesters, hboth.handles, hboth.requests, hboth.length⟩
    · exact hfirst

theorem sameRefs_disown? (w : World α) (o : Option CellId) : SameRefs w (w.disown? o) := by
  cases o with
  | none => exact sameRefs_refl w
  | some c => exact sameRefs_disown w c

theorem sameRefs_relock (f : Hold → Demand → Hold) (w : World α) (c : CellId) (k : HandleKind) :
    SameRefs w (w.relock f c k) := by
  unfold World.relock
  split
  · exact sameRefs_refl w
  · exact sameRefs_modifyCell w c _

theorem sameRefs_surrender (w : World α) (h : Handle) : SameRefs w (w.surrender h) := by
  cases hg : h.grant with
  | none =>
    rw [World.surrender_of_none hg]
    exact sameRefs_refl w
  | some c =>
    rw [World.surrender_eq hg]
    exact (sameRefs_relock _ w c h.kind).trans (sameRefs_disown _ c)

theorem sameRefs_surrender? (w : World α) (o : Option Handle) : SameRefs w (w.surrender? o) := by
  cases o with
  | none => exact sameRefs_refl w
  | some h => exact sameRefs_surrender w h

/-- Storing a handle changes the table of handles besides. -/
theorem sameRefs_keep (w : World α) (key : ThreadId × HandleName) (h : Handle) :
    SameRefs { w with handles := w.handles.put key h } (w.keep key h) :=
  sameRefs_surrender? _ _

theorem sameRefs_letIn (w : World α) (t : ThreadId) (name : HandleName) (c : CellId) (k : HandleKind) :
    SameRefs { w with handles := w.handles.put (t, name) ⟨k, some c⟩ } (w.letIn t name c k) := by
  have henter := sameRefs_relock Hold.enter w c k
  have hkeep := sameRefs_keep ((w.enter c k).note (.granted t c k)) (t, name) ⟨k, some c⟩
  refine ⟨hkeep.requesters.trans henter.requesters, hkeep.handles.trans ?_,
    hkeep.requests.trans henter.requests, hkeep.length.trans henter.length⟩
  exact congrArg (Table.put (t, name) ⟨k, some c⟩) henter.handles

/-! ### Who keeps a cell -/

/-- Whether there is a request for the cell. -/
def World.Asked (w : World α) (c : CellId) : Prop :=
  ∃ r ∈ w.requests, r.cell = c

/-- Whether there is a requester of the cell, or a handle that is locked on it. -/
def World.Held (w : World α) (c : CellId) : Prop :=
  (∃ name, w.requesters.get? name = some c) ∨
    ∃ key h, w.handles.get? key = some h ∧ h.grant = some c

/-- Whether there is anything that keeps the value of the cell. -/
def World.Kept (w : World α) (c : CellId) : Prop :=
  w.Held c ∨ w.Asked c

theorem letIn_held (w : World α) (t : ThreadId) (name : HandleName) (c : CellId) (k : HandleKind) :
    (w.letIn t name c k).Held c := by
  refine .inr ⟨(t, name), ⟨k, some c⟩, ?_, rfl⟩
  rw [(sameRefs_letIn w t name c k).handles, Table.get?_put, if_pos rfl]

theorem SameRefs.asked {w w' : World α} (h : SameRefs w w') (c : CellId) : w'.Asked c ↔ w.Asked c := by
  unfold World.Asked
  rw [h.requests]

theorem stepAttempt_asked (t : ThreadId) (name : String) (access : Access) (h : HandleName)
    {c : CellId} (hc : w.Asked c) : (w.stepAttempt P t name access h).1.Kept c := by
  unfold World.stepAttempt
  split
  · exact .inr hc
  · rename_i c' _
    split
    · exact .inr hc
    · rename_i k _
      have hown := (sameRefs_modifyCell w c' fun cell => { cell with owners := cell.owners + 1 }).requests
      simp only
      split
      · refine .inr (((sameRefs_letIn _ t h c' k).asked c).mpr ?_)
        unfold World.Asked
        dsimp only
        rw [World.own, hown]
        exact hc
      · obtain ⟨r, hr, hrc⟩ := hc
        refine .inr ⟨r, ?_, hrc⟩
        simp only [World.note, World.own, hown]
        exact List.mem_append_left _ hr

theorem stepEnter_asked (t : ThreadId) (phase : Phase) {c : CellId} (hc : w.Asked c) :
    (w.stepEnter P t phase).1.Kept c := by
  unfold World.stepEnter
  split
  · exact .inr hc
  · rename_i r hr
    obtain ⟨r', hr', rfl⟩ := hc
    simp only
    -- the request in question is the one that is dealt with, or another
    by_cases h : r' = r
    · subst h
      split
      · exact .inl (letIn_held _ _ _ _ _)
      · split
        · exact .inr ⟨r', hr', rfl⟩
        · exact .inr ⟨_, List.mem_append_right _ (List.mem_singleton.mpr rfl), rfl⟩
    · have hmem : r' ∈ (w.withdraw r).requests := (List.mem_erase_of_ne h).mpr hr'
      split
      · exact .inr (((sameRefs_letIn _ _ _ _ _).asked _).mpr ⟨r', hmem, rfl⟩)
      · split
        · exact .inr ⟨r', hr', rfl⟩
        · exact .inr ⟨r', List.mem_append_left _ hmem, rfl⟩

/-- A step that leaves the requests and the number of cells as they are. -/
structure SameRequests (w w' : World α) : Prop where
  requests : w'.requests = w.requests
  length : w'.cells.length = w.cells.length

theorem SameRefs.sameRequests {w w' : World α} (h : SameRefs w w') : SameRequests w w' :=
  ⟨h.requests, h.length⟩

theorem stepClone_sameRequests (name copy : String) : SameRequests w (w.stepClone name copy).1 := by
  unfold World.stepClone
  split
  · exact (sameRefs_refl w).sameRequests
  · rename_i c _
    have hown := sameRefs_modifyCell w c fun cell => { cell with owners := cell.owners + 1 }
    have hlast := sameRefs_disown? { w.own c with requesters := w.requesters.put copy c }
      (w.requesters.get? copy)
    exact ⟨hlast.requests.trans hown.requests, hlast.length.trans hown.length⟩

theorem stepDropRequester_sameRequests (name : String) :
    SameRequests w (w.stepDropRequester name).1 := by
  unfold World.stepDropRequester
  split
  · exact (sameRefs_refl w).sameRequests
  · rename_i c _
    have hlast := sameRefs_disown { w with requesters := w.requesters.erase name } c
    exact ⟨hlast.requests, hlast.length⟩

theorem handles_clone (name copy : String) : (w.stepClone name copy).1.handles = w.handles := by
  unfold World.stepClone
  split
  · rfl
  · exact (sameRefs_disown? _ _).handles

theorem handles_dropRequester (name : String) : (w.stepDropRequester name).1.handles = w.handles := by
  unfold World.stepDropRequester
  split
  · rfl
  · exact (sameRefs_disown _ _).handles

theorem stepAccess_sameRefs (u : World.Use) (f : α → α) (h : Handle) :
    SameRefs w (w.stepAccess u f h).1 := by
  rcases w.stepAccess_cases u f h with ⟨r, heq, -⟩ | ⟨c, v, -, -, -, heq⟩
  · rw [heq]
    exact sameRefs_refl w
  · rw [heq]
    exact sameRefs_modifyCell _ _ _

theorem withHandle_sameRequests {t : ThreadId} {h : HandleName} {f : Handle → World α × World.Reply α}
    (hf : ∀ handle, SameRequests w (f handle).1) : SameRequests w (w.withHandle t h f).1 := by
  unfold World.withHandle
  split
  · exact (sameRefs_refl w).sameRequests
  · exact hf _

/-- No step of a thread but one that asks for a handle changes the requests. -/
theorem stepThread_sameRequests {s : World.Step α} (hs : ∀ t name access h, s ≠ .attempt t name access h) :
    SameRequests w (w.stepThread P s).1 := by
  cases s with
  | attempt t name access h => exact absurd rfl (hs t name access h)
  | read t h => exact withHandle_sameRequests fun _ => (stepAccess_sameRefs _ _ _).sameRequests
  | update t h f => exact withHandle_sameRequests fun _ => (stepAccess_sameRefs _ _ _).sameRequests
  | overwrite t h f => exact withHandle_sameRequests fun _ => (stepAccess_sameRefs _ _ _).sameRequests
  | release t h =>
    refine withHandle_sameRequests fun handle => ?_
    have hlast := sameRefs_surrender { w with handles := w.handles.put (t, h) handle.released } handle
    exact ⟨hlast.requests, hlast.length⟩
  | take t h new =>
    refine withHandle_sameRequests fun handle => ?_
    have hlast := sameRefs_keep { w with handles := w.handles.put (t, h) handle.released } (t, new) handle
    exact ⟨hlast.requests, hlast.length⟩
  | move t h new =>
    refine withHandle_sameRequests fun handle => ?_
    have hlast := sameRefs_keep { w with handles := w.handles.erase (t, h) } (t, new) handle
    split
    · exact (sameRefs_refl w).sameRequests
    · exact ⟨hlast.requests, hlast.length⟩
  | drop t h =>
    refine withHandle_sameRequests fun handle => ?_
    have hlast := sameRefs_surrender { w with handles := w.handles.erase (t, h) } handle
    exact ⟨hlast.requests, hlast.length⟩
  | create name f v near => exact (sameRefs_refl w).sameRequests
  | cloneRequester name copy => exact (sameRefs_refl w).sameRequests
  | dropRequester name => exact (sameRefs_refl w).sameRequests
  | block t => exact (sameRefs_refl w).sameRequests
  | grant t => exact (sameRefs_refl w).sameRequests

theorem SameRequests.kept_of_asked {w w' : World α} (h : SameRequests w w') {c : CellId}
    (hc : w.Asked c) : w'.Kept c := by
  refine .inr ?_
  unfold World.Asked
  rw [h.requests]
  exact hc

theorem sameRefs_create (w : World α) (name : String) (f : Flavour) (v : α) (near : Nat) :
    SameRefs { w with
        cells := w.cells ++ [.new f v (freeAddress w.taken near)]
        requesters := w.requesters.put name w.cells.length }
      (w.stepCreate name f v near).1 := by
  have hlast := sameRefs_disown? (World.note (.created w.cells.length f) { w with
    cells := w.cells ++ [.new f v (freeAddress w.taken near)]
    requesters := w.requesters.put name w.cells.length }) (w.requesters.get? name)
  exact ⟨hlast.requesters, hlast.handles, hlast.requests, hlast.length⟩

/-- **A cell for which there is a request is kept by each step.** -/
theorem step_asked (P : Policy) (s : World.Step α) {c : CellId} (hc : w.Asked c) :
    (w.step P s).1.Kept c := by
  unfold World.step
  split
  · split
    · exact .inr hc
    · cases s with
      | attempt t name access h => exact stepAttempt_asked t name access h hc
      | _ => exact (stepThread_sameRequests (by simp)).kept_of_asked hc
  · split
    · exact .inr (((sameRefs_create w _ _ _ _).asked c).mpr hc)
    · exact (stepClone_sameRequests _ _).kept_of_asked hc
    · exact (stepDropRequester_sameRequests _).kept_of_asked hc
    · exact stepEnter_asked _ _ hc
    · exact stepEnter_asked _ _ hc
    · exact .inr hc

theorem stepAttempt_length (t : ThreadId) (name : String) (access : Access) (h : HandleName) :
    (w.stepAttempt P t name access h).1.cells.length = w.cells.length := by
  unfold World.stepAttempt
  split
  · rfl
  · rename_i c _
    split
    · rfl
    · have hown := (sameRefs_modifyCell w c fun cell => { cell with owners := cell.owners + 1 }).length
      simp only
      split
      · exact (sameRefs_letIn _ _ _ _ _).length.trans hown
      · exact hown

theorem stepEnter_length (t : ThreadId) (phase : Phase) :
    (w.stepEnter P t phase).1.cells.length = w.cells.length := by
  unfold World.stepEnter
  split
  · rfl
  · simp only
    split
    · exact (sameRefs_letIn _ _ _ _ _).length
    · split <;> rfl

/-- **A cell that is new after a step has a requester.** -/
theorem step_new (P : Policy) (s : World.Step α) {c : Nat} (hc : c < (w.step P s).1.cells.length) :
    c < w.cells.length ∨ (w.step P s).1.Held c := by
  unfold World.step at hc ⊢
  split at hc
  · split at hc
    · exact .inl hc
    · cases s with
      | attempt t name access h =>
        have : c < (w.stepAttempt P t name access h).1.cells.length := hc
        rw [stepAttempt_length] at this
        exact .inl this
      | _ => exact .inl (by rwa [(stepThread_sameRequests (by simp)).length] at hc)
  · split at hc
    · rename_i name f v near _
      have hsame := sameRefs_create w name f v near
      rw [hsame.length, List.length_append, List.length_singleton] at hc
      by_cases hlt : c < w.cells.length
      · exact .inl hlt
      · obtain rfl : c = w.cells.length := by omega
        refine .inr (.inl ⟨name, ?_⟩)
        rw [hsame.requesters, Table.get?_put, if_pos rfl]
    · exact .inl (by rwa [(stepClone_sameRequests _ _).length] at hc)
    · exact .inl (by rwa [(stepDropRequester_sameRequests _).length] at hc)
    · exact .inl (by rwa [stepEnter_length] at hc)
    · exact .inl (by rwa [stepEnter_length] at hc)
    · exact .inl hc

end Custody.Shared
