/-
# Addresses of shared cells

A cell has one address from when it is made, and no step changes it. It is never the
address of what refers to nothing, so the identity of a locked handle is never that of a
released one.

Key definitions: `World.addresses`.
Key theorems: `step_addresses`, `Reachable.address_ne_zero`, `Reachable.isNull_identity`.
-/
import Custody.Proofs.Shared.Lifetime

namespace Custody.Shared

variable {α : Type} {w : World α} {P : Policy}

/-- The addresses of all cells, in the order in which they were made. -/
def World.addresses (w : World α) : List Nat :=
  w.cells.map (·.address)

theorem addresses_modifyCell (w : World α) (c : CellId) {f : Cell α → Cell α}
    (hf : ∀ cell, (f cell).address = cell.address) : (w.modifyCell c f).addresses = w.addresses := by
  apply List.ext_getElem?
  intro i
  unfold World.addresses
  rw [List.getElem?_map, List.getElem?_map, getElem?_modifyCell]
  split
  · cases w.cells[i]? with
    | none => rfl
    | some cell => exact congrArg some (hf cell)
  · rfl

theorem addresses_disown (w : World α) (c : CellId) : (w.disown c).addresses = w.addresses := by
  unfold World.disown
  split
  · rfl
  · have hfirst := addresses_modifyCell w c (f := fun cell => { cell with owners := cell.owners - 1 })
      fun _ => rfl
    dsimp only
    split
    · have hlast := addresses_modifyCell
        (w.modifyCell c fun cell => { cell with owners := cell.owners - 1 }) c
        (f := Cell.fill none) fun _ => rfl
      exact hlast.trans hfirst
    · exact hfirst

theorem addresses_disown? (w : World α) (o : Option CellId) :
    (w.disown? o).addresses = w.addresses := by
  cases o with
  | none => rfl
  | some c => exact addresses_disown w c

theorem addresses_relock (f : Hold → Demand → Hold) (w : World α) (c : CellId) (k : HandleKind) :
    (w.relock f c k).addresses = w.addresses := by
  unfold World.relock
  split
  · rfl
  · exact addresses_modifyCell w c fun _ => rfl

theorem addresses_surrender (w : World α) (h : Handle) : (w.surrender h).addresses = w.addresses := by
  cases hg : h.grant with
  | none => rw [World.surrender_of_none hg]
  | some c =>
    rw [World.surrender_eq hg, addresses_disown]
    exact addresses_relock _ w c h.kind

theorem addresses_keep (w : World α) (key : ThreadId × HandleName) (h : Handle) :
    (w.keep key h).addresses = w.addresses := by
  show (World.surrender? (w.handles.get? key) { w with handles := w.handles.put key h }).addresses = _
  cases w.handles.get? key with
  | none => rfl
  | some old => exact addresses_surrender _ old

theorem addresses_letIn (w : World α) (t : ThreadId) (name : HandleName) (c : CellId) (k : HandleKind) :
    (w.letIn t name c k).addresses = w.addresses :=
  (addresses_keep _ _ _).trans (addresses_relock Hold.enter w c k)

theorem addresses_attempt (t : ThreadId) (name : String) (access : Access) (h : HandleName) :
    (w.stepAttempt P t name access h).1.addresses = w.addresses := by
  unfold World.stepAttempt
  split
  · rfl
  · rename_i c _
    have hown : (w.own c).addresses = w.addresses := addresses_modifyCell w c fun _ => rfl
    split
    · rfl
    · simp only
      split
      · exact (addresses_letIn _ _ _ _ _).trans hown
      · exact hown

theorem addresses_enter (t : ThreadId) (phase : Phase) :
    (w.stepEnter P t phase).1.addresses = w.addresses := by
  unfold World.stepEnter
  split
  · rfl
  · simp only
    split
    · exact addresses_letIn _ _ _ _ _
    · split <;> rfl

theorem addresses_withHandle {t : ThreadId} {h : HandleName} {f : Handle → World α × World.Reply α}
    (hf : ∀ handle, (f handle).1.addresses = w.addresses) :
    (w.withHandle t h f).1.addresses = w.addresses := by
  unfold World.withHandle
  split
  · rfl
  · exact hf _

theorem addresses_access (u : World.Use) (f : α → α) (h : Handle) :
    (w.stepAccess u f h).1.addresses = w.addresses := by
  rcases w.stepAccess_cases u f h with ⟨r, heq, -⟩ | ⟨c, v, -, -, -, heq⟩
  · rw [heq]
  · rw [heq]
    exact addresses_modifyCell _ _ fun _ => rfl

theorem addresses_thread (s : World.Step α) : (w.stepThread P s).1.addresses = w.addresses := by
  cases s with
  | attempt t name access h => exact addresses_attempt t name access h
  | read t h => exact addresses_withHandle fun _ => addresses_access _ _ _
  | update t h f => exact addresses_withHandle fun _ => addresses_access _ _ _
  | overwrite t h f => exact addresses_withHandle fun _ => addresses_access _ _ _
  | release t h => exact addresses_withHandle fun _ => addresses_surrender _ _
  | take t h new => exact addresses_withHandle fun _ => addresses_keep _ _ _
  | move t h new =>
    refine addresses_withHandle fun _ => ?_
    split
    · rfl
    · exact addresses_keep _ _ _
  | drop t h => exact addresses_withHandle fun _ => addresses_surrender _ _
  | _ => rfl

/-- A cell keeps its address, and a new one gets one that is free. -/
theorem step_addresses (P : Policy) (w : World α) (s : World.Step α) :
    (w.step P s).1.addresses = w.addresses ∨
      ∃ near, (w.step P s).1.addresses = w.addresses ++ [freeAddress w.taken near] := by
  unfold World.step
  split
  · split
    · exact .inl rfl
    · exact .inl (addresses_thread s)
  · split
    · rename_i name f v near _
      refine .inr ⟨near, (addresses_disown? _ _).trans ?_⟩
      show (w.cells ++ [_]).map _ = _
      rw [List.map_append]
      rfl
    · unfold World.stepClone
      split
      · exact .inl rfl
      · rename_i c _
        have hown : (w.own c).addresses = w.addresses := addresses_modifyCell w c fun _ => rfl
        exact .inl ((addresses_disown? _ _).trans hown)
    · unfold World.stepDropRequester
      split
      · exact .inl rfl
      · exact .inl (addresses_disown _ _)
    · exact .inl (addresses_enter _ _)
    · exact .inl (addresses_enter _ _)
    · exact .inl rfl

/-- No cell has the address of what refers to nothing. -/
theorem World.Reachable.address_ne_zero (hw : w.Reachable) : ∀ a ∈ w.addresses, a ≠ 0 := by
  induction hw with
  | empty => simp [World.addresses, World.empty]
  | step P s _ ih =>
    rename_i w₀ _
    rcases step_addresses P w₀ s with heq | ⟨near, heq⟩
    · rwa [heq]
    · intro a ha
      rw [heq, List.mem_append, List.mem_singleton] at ha
      rcases ha with ha | rfl
      · exact ih a ha
      · exact freeAddress_ne_zero _ _

theorem World.Reachable.isNull_identity (hw : w.Reachable) {key : ThreadId × HandleName} {h : Handle}
    (hh : w.handles.get? key = some h) : (w.identityOf h).isNull = !h.isValid := by
  unfold Handle.isValid
  rw [World.identityOf_eq]
  cases hg : h.grant with
  | none => rfl
  | some c =>
    have hlt : c < w.cells.length := hw.lt_of_kept (.inl (.inr ⟨key, h, hh, hg⟩))
    have hcell := List.getElem?_eq_getElem hlt
    have hne : w.cells[c].address ≠ 0 :=
      hw.address_ne_zero _ (List.mem_map.mpr ⟨_, List.getElem_mem hlt, rfl⟩)
    rw [World.identity_of_cell hcell]
    simpa [Identity.isNull] using hne

end Custody.Shared
