/-
# What a step does to values and to who has access

Seen from the values, steps are few: a cell is made, a value is changed by one who has
access to its cell, and all others leave the values as they are, but that one may be
destroyed. And access is granted, passed on or given up, or it stays with the handles
that have it. `Turn` says so, with what is noted in the annals.

Key definitions: `World.access?`, `Fades`, `Turn`.
Key theorems: `fades_surrender`, `fades_letIn`, `step_turn`.
-/
import Custody.Proofs.Shared.Annals
import Custody.Proofs.Shared.Lifetime

namespace Custody.Shared

variable {α : Type} {w w' : World α} {P : Policy} {A : Annals α} {key : ThreadId × HandleName}
  {c : CellId} {k : HandleKind}

/-! ### Who has access -/

/-- The cell that a handle is locked on, and the kind of the handle. -/
def World.access? (w : World α) (key : ThreadId × HandleName) : Option (CellId × HandleKind) :=
  (w.handles.get? key).bind fun h => h.grant.map fun c => (c, h.kind)

/-- The cell of the tenure that goes on with a handle, and the kind of the handle. -/
def Annals.access? (A : Annals α) (key : ThreadId × HandleName) : Option (CellId × HandleKind) :=
  (A.current.get? key).bind fun i => (A.tenures[i]?).map fun T => (T.cell, T.kind)

theorem World.access?_eq_some {w : World α} :
    w.access? key = some (c, k) ↔ w.handles.get? key = some ⟨k, some c⟩ := by
  unfold World.access?
  constructor
  · intro h
    obtain ⟨⟨k', g⟩, hh, hg⟩ := Option.bind_eq_some_iff.mp h
    obtain ⟨c', rfl, hck⟩ := Option.map_eq_some_iff.mp hg
    obtain ⟨rfl, rfl⟩ := Prod.mk.inj hck
    exact hh
  · intro h
    rw [h]
    rfl

/-- Another table of handles, another access. -/
theorem access?_congr (h : w'.handles = w.handles) (key : ThreadId × HandleName) :
    w'.access? key = w.access? key := by
  unfold World.access?
  rw [h]

theorem access?_put {ts : Table (ThreadId × HandleName) Handle} {key' : ThreadId × HandleName}
    {h : Handle} (hput : w'.handles = ts.put key' h) :
    w'.access? key =
      if key = key' then h.grant.map fun c => (c, h.kind)
      else (ts.get? key).bind fun h => h.grant.map fun c => (c, h.kind) := by
  unfold World.access?
  rw [hput, Table.get?_put]
  split <;> rfl

theorem access?_erase {ts : Table (ThreadId × HandleName) Handle} {key' : ThreadId × HandleName}
    (herase : w'.handles = ts.erase key') :
    w'.access? key =
      if key = key' then none
      else (ts.get? key).bind fun h => h.grant.map fun c => (c, h.kind) := by
  unfold World.access?
  rw [herase, Table.get?_erase]
  split <;> rfl

/-! ### Values that stay, or go -/

/-- There are as many cells, and each value is as it was, or was destroyed, and the log has it. -/
structure Fades (w w' : World α) : Prop where
  length : w'.cells.length = w.cells.length
  value : ∀ c v, w'.value? c = some v → w.value? c = some v
  log : ∀ c v, .destroyed c v ∈ w'.log → .destroyed c v ∈ w.log ∨ w.value? c = some v

theorem Fades.trans {w₁ w₂ w₃ : World α} (h : Fades w₁ w₂) (h' : Fades w₂ w₃) : Fades w₁ w₃ where
  length := h'.length.trans h.length
  value c v hv := h.value c v (h'.value c v hv)
  log c v hv := by
    rcases h'.log c v hv with hlog | hval
    · exact h.log c v hlog
    · exact .inr (h.value c v hval)

/-- A step that changes no cell and has nothing destroyed. -/
theorem fades_of_cells (hcells : w'.cells = w.cells)
    (hlog : ∀ c v, .destroyed c v ∈ w'.log → .destroyed c v ∈ w.log) : Fades w w' where
  length := by rw [hcells]
  value c v hv := by
    unfold World.value? at hv ⊢
    rwa [hcells] at hv
  log c v hv := .inl (hlog c v hv)

theorem fades_refl (w : World α) : Fades w w := fades_of_cells rfl fun _ _ h => h

theorem fades_note {e : Event α} (he : e.isRemark = true) (w : World α) : Fades w (w.note e) := by
  apply fades_of_cells
  · rfl
  · intro c v hv
    rcases List.mem_cons.mp hv with rfl | hv
    · simp [Event.isRemark] at he
    · exact hv

/-- A change of a cell that leaves its value alone. -/
theorem fades_modifyCell {w : World α} {c : CellId} {f : Cell α → Cell α}
    (hf : ∀ cell, w.cells[c]? = some cell → (f cell).value = cell.value) :
    Fades w (w.modifyCell c f) where
  length := List.length_modify ..
  value c' v hv := by
    unfold World.value? at hv ⊢
    rw [getElem?_modifyCell] at hv
    split at hv
    · rename_i heq
      cases hc : w.cells[c']? with
      | none => simp [hc] at hv
      | some cell =>
        rw [← heq] at hf
        simpa [hc, hf cell hc] using hv
    · exact hv
  log _ _ hv := .inl hv

theorem fades_disown (w : World α) (c : CellId) : Fades w (w.disown c) := by
  unfold World.disown
  split
  · exact fades_refl w
  · rename_i cell hc
    have hfewer : Fades w (w.modifyCell c fun cell => { cell with owners := cell.owners - 1 }) :=
      fades_modifyCell fun _ _ => rfl
    dsimp only
    split
    · -- the value goes, and the log has it
      rename_i v _ hv
      refine ⟨(List.length_modify ..).trans hfewer.length, fun c' v' hv' => ?_, fun c' v' hlog => ?_⟩
      · apply hfewer.value
        show ((w.modifyCell c fun cell => { cell with owners := cell.owners - 1 }).cells[c']?.bind
          (·.value)) = some v'
        have hgone : (((w.modifyCell c fun cell => { cell with owners := cell.owners - 1 }).modifyCell c
          (Cell.fill none)).cells[c']?.bind (·.value)) = some v' := hv'
        rw [getElem?_modifyCell] at hgone
        split at hgone
        · rename_i hcc
          cases hcell : (w.modifyCell c fun cell => { cell with owners := cell.owners - 1 }).cells[c']? <;>
            simp [hcell] at hgone
        · exact hgone
      · rcases List.mem_cons.mp hlog with heq | hlog
        · obtain ⟨rfl, rfl⟩ := Event.destroyed.inj heq
          exact .inr (by simp [World.value?, hc, hv])
        · exact .inl hlog
    · exact hfewer

theorem fades_disown? (w : World α) (o : Option CellId) : Fades w (w.disown? o) := by
  cases o with
  | none => exact fades_refl w
  | some c => exact fades_disown w c

theorem fades_relock (f : Hold → Demand → Hold) (w : World α) (c : CellId) (k : HandleKind) :
    Fades w (w.relock f c k) := by
  unfold World.relock
  split
  · exact fades_refl w
  · exact fades_modifyCell fun _ _ => rfl

theorem fades_surrender (w : World α) (h : Handle) : Fades w (w.surrender h) := by
  cases hg : h.grant with
  | none =>
    rw [World.surrender_of_none hg]
    exact fades_refl w
  | some c =>
    rw [World.surrender_eq hg]
    exact (fades_relock _ w c h.kind).trans (fades_disown _ c)

theorem fades_keep (w : World α) (key : ThreadId × HandleName) (h : Handle) :
    Fades w (w.keep key h) := by
  have hput : Fades w { w with handles := w.handles.put key h } := fades_of_cells rfl fun _ _ hv => hv
  apply hput.trans
  show Fades _ (World.surrender? (w.handles.get? key) _)
  cases w.handles.get? key with
  | none => exact fades_refl _
  | some old => exact fades_surrender _ old

theorem fades_letIn (w : World α) (t : ThreadId) (name : HandleName) (c : CellId) (k : HandleKind) :
    Fades w (w.letIn t name c k) := by
  have henter : Fades w (w.enter c k) := fades_relock _ w c k
  have hnote : Fades (w.enter c k) ((w.enter c k).note (.granted t c k)) := fades_note rfl _
  exact (henter.trans hnote).trans (fades_keep _ _ _)

/-! ### Turns -/

/-- What a step can do, seen from the values and from who has access, and what is noted. -/
inductive Turn (w : World α) (A : Annals α) : World α → Annals α → Prop
  /-- Nobody has access that had it not before, and nobody lost it. -/
  | idle {w' : World α} : Fades w w' → (∀ key, w'.access? key = w.access? key) → Turn w A w' A
  | create {w' : World α} (v : α) : w'.cells.length = w.cells.length + 1 →
      (∀ c u, w'.value? c = some u → w.value? c = some u ∨ c = w.cells.length ∧ u = v) →
      (∀ c u, .destroyed c u ∈ w'.log →
        .destroyed c u ∈ w.log ∨ w.value? c = some u ∨ c = w.cells.length ∧ u = v) →
      (∀ key, w'.access? key = w.access? key) →
      Turn w A w' { A with origins := A.origins ++ [v] }
  | grant {w' : World α} (key : ThreadId × HandleName) (c : CellId) (k : HandleKind) : Fades w w' →
      (∀ key', w'.access? key' = if key' = key then some (c, k) else w.access? key') →
      Turn w A w' (A.enroll key c k)
  /-- A value is changed by who has access to it. -/
  | change {w' : World α} {key : ThreadId × HandleName} {c : CellId} {k : HandleKind} {v : α}
      (f : α → α) : w.access? key = some (c, k) → k.demand? = some .exclusive →
      w.value? c = some v → w'.cells.length = w.cells.length →
      (∀ c', w'.value? c' = if c' = c then some (f v) else w.value? c') →
      w'.log = w.log → (∀ key, w'.access? key = w.access? key) → Turn w A w' (A.record key f)
  | finish {w' : World α} (key : ThreadId × HandleName) : Fades w w' →
      (∀ key', w'.access? key' = if key' = key then none else w.access? key') →
      Turn w A w' (A.finish key)
  | pass {w' : World α} (key new : ThreadId × HandleName) : Fades w w' →
      (∀ key', w'.access? key' =
        if key' = new then w.access? key else if key' = key then none else w.access? key') →
      Turn w A w' (A.pass key new)

/-! ### Steps are turns -/

theorem turn_refl (w : World α) (A : Annals α) : Turn w A w A :=
  .idle (fades_refl w) fun _ => rfl

theorem handles_letIn {w₀ : World α} (hh : w₀.handles = w.handles) (t : ThreadId) (name : HandleName)
    (c : CellId) (k : HandleKind) :
    (w₀.letIn t name c k).handles = w.handles.put (t, name) ⟨k, some c⟩ := by
  rw [(sameRefs_letIn w₀ t name c k).handles, hh]

/-- A tenure begins with a handle that was let in. -/
theorem grant_letIn (w : World α) (A : Annals α) (t : ThreadId) (name : HandleName) (c : CellId)
    (k : HandleKind) : A.grant (t, name) (w.letIn t name c k) = A.enroll (t, name) c k := by
  unfold Annals.grant
  rw [handles_letIn rfl, Table.get?_put, if_pos rfl]

theorem turn_letIn {w₀ : World α} (hf : Fades w w₀) (hh : w₀.handles = w.handles) (t : ThreadId)
    (name : HandleName) (c : CellId) (k : HandleKind) :
    Turn w A (w₀.letIn t name c k) (A.grant (t, name) (w₀.letIn t name c k)) := by
  rw [grant_letIn]
  apply Turn.grant (t, name) c k (hf.trans (fades_letIn w₀ t name c k))
  intro key'
  exact access?_put (handles_letIn hh t name c k)

theorem turn_attempt (t : ThreadId) (name : String) (access : Access) (h : HandleName) :
    Turn w A (w.stepAttempt P t name access h).1
      (A.onGrant (w.stepAttempt P t name access h) (t, h)) := by
  unfold World.stepAttempt
  split
  · exact turn_refl w A
  · rename_i c _
    split
    · exact turn_refl w A
    · rename_i k _
      have hown : Fades w (w.own c) := fades_modifyCell fun _ _ => rfl
      simp only
      split
      · exact turn_letIn hown rfl t h c k
      · have hask : Fades (w.own c) { w.own c with
            requests := (w.own c).requests ++ [⟨t, h, c, k, .refused⟩] } :=
          fades_of_cells rfl fun _ _ hv => hv
        exact .idle ((hown.trans hask).trans (fades_note rfl _)) fun _ => rfl

theorem turn_enter (t : ThreadId) (phase : Phase) :
    Turn w A (w.stepEnter P t phase).1
      ((w.request? t phase).elim A fun r => A.onGrant (w.stepEnter P t phase) (t, r.name)) := by
  unfold World.stepEnter
  cases hr : w.request? t phase with
  | none => exact turn_refl w A
  | some r =>
    simp only [Option.elim_some]
    have hwithdraw : Fades w (w.withdraw r) := fades_of_cells rfl fun _ _ hv => hv
    split
    · exact turn_letIn hwithdraw rfl t r.name r.cell r.kind
    · cases phase with
      | waiting => exact turn_refl w A
      | refused => exact .idle (fades_of_cells rfl fun _ _ hv => hv) fun _ => rfl

theorem value_of_made {f : Flavour} {a : Nat} {v u : α} {c : CellId}
    (hu : (w.cells ++ [.new f v a])[c]?.bind Cell.value = some u) :
    w.value? c = some u ∨ c = w.cells.length ∧ u = v := by
  rcases Nat.lt_trichotomy c w.cells.length with hlt | rfl | hgt
  · rw [List.getElem?_append_left hlt] at hu
    exact .inl hu
  · rw [List.getElem?_concat_length] at hu
    simp only [Option.bind_some, Cell.value_new, Option.some.injEq] at hu
    exact .inr ⟨rfl, hu.symm⟩
  · rw [List.getElem?_eq_none (by simpa using Nat.succ_le_of_lt hgt)] at hu
    simp at hu

/-- A new cell has the value that it was made with, and those of the others stay, or go. -/
theorem value_of_create {name : String} {f : Flavour} {v u : α} {near : Nat} {c : CellId}
    (hu : (w.stepCreate name f v near).1.value? c = some u) :
    w.value? c = some u ∨ c = w.cells.length ∧ u = v :=
  value_of_made ((fades_disown? _ _).value c u hu)

/-- A cell is made, with its value. -/
theorem turn_create (name : String) (f : Flavour) (v : α) (near : Nat) :
    Turn w A (w.stepCreate name f v near).1 { A with origins := A.origins ++ [v] } := by
  have hsame := sameRefs_create w name f v near
  have hgo := fades_disown? (World.note (.created w.cells.length f) { w with
    cells := w.cells ++ [.new f v (freeAddress w.taken near)]
    requesters := w.requesters.put name w.cells.length }) (w.requesters.get? name)
  have hlength : (w.stepCreate name f v near).1.cells.length = w.cells.length + 1 := by
    rw [hsame.length, List.length_append, List.length_singleton]
  apply Turn.create v hlength
  · intro c u hu
    exact value_of_create hu
  · intro c u hlog
    rcases hgo.log c u hlog with hold | hu
    · rcases List.mem_cons.mp hold with heq | hold
      · simp at heq
      · exact .inl hold
    · exact .inr (value_of_made hu)
  · exact access?_congr hsame.handles

theorem fades_clone (name copy : String) : Fades w (w.stepClone name copy).1 := by
  unfold World.stepClone
  split
  · exact fades_refl w
  · rename_i c _
    have hown : Fades w (w.own c) := fades_modifyCell fun _ _ => rfl
    have hcopy : Fades (w.own c) { w.own c with requesters := w.requesters.put copy c } :=
      fades_of_cells rfl fun _ _ hv => hv
    exact (hown.trans hcopy).trans (fades_disown? _ _)

theorem turn_clone (name copy : String) : Turn w A (w.stepClone name copy).1 A :=
  .idle (fades_clone name copy) (access?_congr (handles_clone name copy))

theorem fades_dropRequester (name : String) : Fades w (w.stepDropRequester name).1 := by
  unfold World.stepDropRequester
  split
  · exact fades_refl w
  · rename_i c _
    have herase : Fades w { w with requesters := w.requesters.erase name } :=
      fades_of_cells rfl fun _ _ hv => hv
    exact herase.trans (fades_disown _ c)

theorem turn_dropRequester (name : String) : Turn w A (w.stepDropRequester name).1 A :=
  .idle (fades_dropRequester name) (access?_congr (handles_dropRequester name))

/-- Nothing is noted of a step with a handle that is not there. -/
theorem turn_withHandle {t : ThreadId} {h : HandleName} {f : Handle → World α × World.Reply α}
    {B : World α × World.Reply α → Annals α} (habsent : B (w, .absent) = A)
    (hf : ∀ handle, w.handles.get? (t, h) = some handle → Turn w A (f handle).1 (B (f handle))) :
    Turn w A (w.withHandle t h f).1 (B (w.withHandle t h f)) := by
  unfold World.withHandle
  split
  · rw [habsent]
    exact turn_refl w A
  · rename_i handle hh
    exact hf handle hh

theorem value?_write {c : CellId} {u v : α} (hv : w.value? c = some v) (c' : CellId) :
    (w.modifyCell c (Cell.fill (some u))).value? c' =
      if c' = c then some u else w.value? c' := by
  obtain ⟨cell, hc, -⟩ := World.value?_eq_some hv
  unfold World.value?
  rw [getElem?_modifyCell]
  by_cases h : c' = c
  · subst h
    simp [hc]
  · rw [if_neg h, if_neg h]

/-- Reading stores what was there. -/
theorem fades_read (h : Handle) : Fades w (w.stepAccess .read id h).1 := by
  rcases w.stepAccess_cases .read id h with ⟨r, heq, -⟩ | ⟨c, v, -, -, hv, heq⟩
  · rw [heq]
    exact fades_refl w
  · rw [heq]
    apply fades_modifyCell
    intro cell hc
    simpa [World.value?, hc] using hv.symm

theorem turn_read {t : ThreadId} {h : HandleName} :
    Turn w A (w.withHandle t h (w.stepAccess .read id)).1 A := by
  apply turn_withHandle (B := fun _ => A) rfl
  intro handle _
  exact .idle (fades_read handle) (access?_congr (stepAccess_sameRefs _ _ _).handles)

theorem turn_change {t : ThreadId} {h : HandleName} {u : World.Use}
    (hallowed : ∀ k, u.allows k = true → k.demand? = some .exclusive) (f : α → α) :
    Turn w A (w.withHandle t h (w.stepAccess u f)).1
      (A.onChange (w.withHandle t h (w.stepAccess u f)) (t, h) f) := by
  apply turn_withHandle (B := fun o => A.onChange o (t, h) f) rfl
  intro handle hh
  rcases w.stepAccess_cases u f handle with ⟨r, heq, hr⟩ | ⟨c, v, hk, hg, hv, heq⟩
  · rw [heq]
    have hnothing : A.onChange (w, r) (t, h) f = A := by
      cases r <;> first | rfl | exact absurd rfl (hr _)
    rw [hnothing]
    exact turn_refl w A
  · rw [heq]
    have haccess : w.access? (t, h) = some (c, handle.kind) := by
      rw [World.access?_eq_some, hh, ← hg]
    exact .change f haccess (hallowed _ hk) hv (List.length_modify ..) (value?_write hv) rfl
      fun _ => rfl

theorem turn_release {t : ThreadId} {h : HandleName} :
    Turn w A (w.withHandle t h fun handle =>
        ({ w with handles := w.handles.put (t, h) handle.released }.surrender handle, .done)).1
      (A.onDone (w.withHandle t h fun handle =>
        ({ w with handles := w.handles.put (t, h) handle.released }.surrender handle, .done))
        (A.finish (t, h))) := by
  apply turn_withHandle (B := fun o => A.onDone o (A.finish (t, h))) rfl
  intro handle _
  have hput : Fades w { w with handles := w.handles.put (t, h) handle.released } :=
    fades_of_cells rfl fun _ _ hv => hv
  apply Turn.finish (t, h) (hput.trans (fades_surrender _ handle))
  intro key'
  have hhandles : ({ w with handles := w.handles.put (t, h) handle.released }.surrender
      handle).handles = w.handles.put (t, h) handle.released := (sameRefs_surrender _ handle).handles
  exact access?_put hhandles

theorem turn_drop {t : ThreadId} {h : HandleName} :
    Turn w A (w.withHandle t h fun handle =>
        ({ w with handles := w.handles.erase (t, h) }.surrender handle, .done)).1
      (A.onDone (w.withHandle t h fun handle =>
        ({ w with handles := w.handles.erase (t, h) }.surrender handle, .done))
        (A.finish (t, h))) := by
  apply turn_withHandle (B := fun o => A.onDone o (A.finish (t, h))) rfl
  intro handle _
  have herase : Fades w { w with handles := w.handles.erase (t, h) } :=
    fades_of_cells rfl fun _ _ hv => hv
  apply Turn.finish (t, h) (herase.trans (fades_surrender _ handle))
  intro key'
  have hhandles : ({ w with handles := w.handles.erase (t, h) }.surrender handle).handles =
      w.handles.erase (t, h) := (sameRefs_surrender _ handle).handles
  exact access?_erase hhandles

theorem turn_take {t : ThreadId} {h new : HandleName} :
    Turn w A (w.withHandle t h fun handle =>
        ({ w with handles := w.handles.put (t, h) handle.released }.keep (t, new) handle, .done)).1
      (A.onDone (w.withHandle t h fun handle =>
        ({ w with handles := w.handles.put (t, h) handle.released }.keep (t, new) handle, .done))
        (A.pass (t, h) (t, new))) := by
  apply turn_withHandle (B := fun o => A.onDone o (A.pass (t, h) (t, new))) rfl
  intro handle hh
  have hput : Fades w { w with handles := w.handles.put (t, h) handle.released } :=
    fades_of_cells rfl fun _ _ hv => hv
  apply Turn.pass (t, h) (t, new) (hput.trans (fades_keep _ _ handle))
  intro key'
  have hhandles : ({ w with handles := w.handles.put (t, h) handle.released }.keep (t, new)
      handle).handles = (w.handles.put (t, h) handle.released).put (t, new) handle :=
    (sameRefs_keep _ _ handle).handles
  rw [access?_put hhandles, Table.get?_put]
  unfold World.access?
  rw [hh]
  split
  · rfl
  · split <;> rfl

theorem turn_move {t : ThreadId} {h new : HandleName} :
    Turn w A (w.withHandle t h fun handle =>
        if h = new then (w, .done)
        else ({ w with handles := w.handles.erase (t, h) }.keep (t, new) handle, .done)).1
      (A.onDone (w.withHandle t h fun handle =>
        if h = new then (w, .done)
        else ({ w with handles := w.handles.erase (t, h) }.keep (t, new) handle, .done))
        (A.pass (t, h) (t, new))) := by
  apply turn_withHandle (B := fun o => A.onDone o (A.pass (t, h) (t, new))) rfl
  intro handle hh
  split
  · rename_i hsame
    subst hsame
    apply Turn.pass (t, h) (t, h) (fades_refl w)
    intro key'
    by_cases hkey : key' = (t, h)
    · rw [if_pos hkey, hkey]
    · rw [if_neg hkey, if_neg hkey]
  · have herase : Fades w { w with handles := w.handles.erase (t, h) } :=
      fades_of_cells rfl fun _ _ hv => hv
    apply Turn.pass (t, h) (t, new) (herase.trans (fades_keep _ _ handle))
    intro key'
    have hhandles : ({ w with handles := w.handles.erase (t, h) }.keep (t, new) handle).handles =
        (w.handles.erase (t, h)).put (t, new) handle := (sameRefs_keep _ _ handle).handles
    rw [access?_put hhandles, Table.get?_erase]
    unfold World.access?
    rw [hh]
    split
    · rfl
    · split <;> rfl

theorem demand?_of_mayWrite {k : HandleKind} (hk : k.mayWrite = true) :
    k.demand? = some .exclusive := by
  cases k <;> first | rfl | simp [HandleKind.mayWrite] at hk

theorem demand?_of_isSerialized {k : HandleKind} (hk : k.isSerialized = true) :
    k.demand? = some .exclusive := by
  cases k <;> first | rfl | simp [HandleKind.isSerialized] at hk

theorem step_of_thread (P : Policy) (w : World α) {t : ThreadId} {s : World.Step α}
    (hs : s.thread? = some t) :
    w.step P s = if w.isBlocked t then (w, .blocked) else w.stepThread P s := by
  unfold World.step
  rw [hs]

/-- A thread that waits does nothing, and nothing is noted. -/
theorem turn_thread {t : ThreadId} {s : World.Step α} (hs : s.thread? = some t)
    (hturn : Turn w A (w.stepThread P s).1 (A.note w s (w.stepThread P s))) :
    Turn w A (w.step P s).1 (A.next P w s) := by
  have hnothing : A.note w s (w, .blocked) = A := by
    cases s <;> first | rfl | simp [World.Step.thread?] at hs
  unfold Annals.next
  rw [step_of_thread P w hs]
  split
  · rw [hnothing]
    exact turn_refl w A
  · exact hturn

/-- **A step is a turn**, and the annals tell of it. -/
theorem step_turn (P : Policy) (w : World α) (A : Annals α) (s : World.Step α) :
    Turn w A (w.step P s).1 (A.next P w s) := by
  cases s with
  | create name f v near => exact turn_create name f v near
  | cloneRequester name copy => exact turn_clone name copy
  | dropRequester name => exact turn_dropRequester name
  | attempt t name access h => exact turn_thread rfl (turn_attempt t name access h)
  | block t => exact turn_enter t .refused
  | grant t => exact turn_enter t .waiting
  | read t h => exact turn_thread rfl turn_read
  | update t h f => exact turn_thread rfl (turn_change (u := .update) (fun _ hk => demand?_of_mayWrite hk) f)
  | overwrite t h f =>
    exact turn_thread rfl (turn_change (u := .overwrite) (fun _ hk => demand?_of_isSerialized hk) f)
  | release t h => exact turn_thread rfl turn_release
  | take t h new => exact turn_thread rfl turn_take
  | move t h new => exact turn_thread rfl turn_move
  | drop t h => exact turn_thread rfl turn_drop

end Custody.Shared
