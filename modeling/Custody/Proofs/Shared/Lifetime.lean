/-
# Each shared value is destroyed once, with its last keeper

A value is gone once it was destroyed. The log tells which values are gone, each of
them once: the one edit that makes a value go is that the last owner of its cell goes
away, and no edit brings it back. Since exactly the cells that are owned have their
values, a value goes in that step in which the last requester or locked handle of
its cell disappears; a request is granted before that.

Key definitions: `World.Gone`, `World.destroyed`.
Key theorems: `Edit.deaths`, `Reachable.recorded`, `Reachable.destroyed_with_last_keeper`.
-/
import Custody.Proofs.Shared.LockCensus
import Custody.Proofs.Shared.Refs

namespace Custody.Shared

variable {α : Type} {w : World α} {c : CellId}

/-! ### What is gone, and the log -/

/-- Whether the value of the cell was destroyed. -/
def World.Gone (w : World α) (c : CellId) : Prop :=
  ∃ cell, w.cells[c]? = some cell ∧ cell.value = none

/-- The cell whose value the event destroys. -/
def Event.destroyed? : Event α → Option CellId
  | .destroyed c _ => some c
  | _ => none

/-- The cells whose values the log has the destruction of, the last first. -/
def World.destroyed (w : World α) : List CellId :=
  w.log.filterMap Event.destroyed?

theorem Event.destroyed?_of_isRemark {e : Event α} (he : e.isRemark = true) :
    e.destroyed? = none := by
  cases e <;> first | rfl | simp [Event.isRemark] at he

theorem destroyed_note {e : Event α} (he : e.isRemark = true) (w : World α) :
    (w.note e).destroyed = w.destroyed := by
  simp [World.destroyed, World.note, Event.destroyed?_of_isRemark he]

theorem gone_modifyCell {f : Cell α → Cell α}
    (hf : ∀ cell, w.cells[c]? = some cell → ((f cell).value = none ↔ cell.value = none))
    (c' : CellId) : (w.modifyCell c f).Gone c' ↔ w.Gone c' := by
  unfold World.Gone
  rw [getElem?_modifyCell]
  by_cases h : c' = c
  · subst h
    rw [if_pos rfl]
    constructor
    · rintro ⟨cell, hc, hv⟩
      obtain ⟨cell₀, hc₀, rfl⟩ := Option.map_eq_some_iff.mp hc
      exact ⟨cell₀, hc₀, (hf cell₀ hc₀).mp hv⟩
    · rintro ⟨cell, hc, hv⟩
      exact ⟨f cell, by rw [hc]; rfl, (hf cell hc).mpr hv⟩
  · rw [if_neg h]

theorem gone_relock (f : Hold → Demand → Hold) (w : World α) (c : CellId) (k : HandleKind)
    (c' : CellId) :
    (w.relock f c k).Gone c' ↔ w.Gone c' := by
  unfold World.relock
  split
  · exact Iff.rfl
  · apply gone_modifyCell
    intro cell _
    exact Iff.rfl

theorem destroyed_relock (f : Hold → Demand → Hold) (w : World α) (c : CellId) (k : HandleKind) :
    (w.relock f c k).destroyed = w.destroyed := by
  unfold World.relock
  split <;> rfl

/-- An edit destroys no value, or one that was there, and the log tells. -/
theorem Edit.deaths {d d' : Draft α} (he : Edit d d') :
    LetsGo d.world.destroyed d'.world.destroyed d.world.Gone d'.world.Gone := by
  cases he with
  | reorder _ => exact .inl ⟨rfl, fun _ => Iff.rfl⟩
  | @remark w _ _ e hr => exact .inl ⟨destroyed_note hr w, fun _ => Iff.rfl⟩
  | @make w _ _ f a v =>
    -- the new cell has its value
    refine .inl ⟨rfl, fun c => ?_⟩
    simp only [World.Gone, List.getElem?_append]
    split
    · exact Iff.rfl
    · rename_i hlt
      rw [List.getElem?_eq_none (Nat.not_lt.mp hlt)]
      constructor
      · rintro ⟨cell, hc, hv⟩
        obtain rfl := List.mem_singleton.mp (List.mem_of_getElem? hc)
        simp at hv
      · rintro ⟨cell, hc, -⟩
        simp at hc
  | @own w _ _ c _ => exact .inl ⟨rfl, gone_modifyCell fun _ _ => Iff.rfl⟩
  | @leave w _ _ c cell hc hn =>
    refine .inl ?_
    dsimp only
    rw [World.disown_of_ne hc hn]
    exact ⟨rfl, gone_modifyCell fun _ _ => Iff.rfl⟩
  | @destroy w _ _ c cell v hc hn hv =>
    refine .inr ⟨c, ?_, ?_, fun c' => ?_⟩
    · rintro ⟨cell', hc', hv'⟩
      obtain rfl : cell = cell' := by simpa [hc] using hc'
      simp [hv] at hv'
    · dsimp only
      rw [World.disown_of_last hc hn hv]
      rfl
    · dsimp only
      rw [World.disown_of_last hc hn hv]
      simp only [World.Gone, World.note, getElem?_modifyCell]
      by_cases h : c' = c
      · simp [h, hc]
      · simp [h]
  | register name c => exact .inl ⟨rfl, fun _ => Iff.rfl⟩
  | unregister _ => exact .inl ⟨rfl, fun _ => Iff.rfl⟩
  | ask r _ => exact .inl ⟨rfl, fun _ => Iff.rfl⟩
  | withdraw _ => exact .inl ⟨rfl, fun _ => Iff.rfl⟩
  | @lock w _ _ c k _ _ => exact .inl ⟨destroyed_relock _ w c k, gone_relock _ w c k⟩
  | @unlock w _ _ h c _ => exact .inl ⟨destroyed_relock _ w c h.kind, gone_relock _ w c h.kind⟩
  | shell _ => exact .inl ⟨rfl, fun _ => Iff.rfl⟩
  | scrap _ => exact .inl ⟨rfl, fun _ => Iff.rfl⟩
  | store key h => exact .inl ⟨rfl, fun _ => Iff.rfl⟩
  | fetch _ => exact .inl ⟨rfl, fun _ => Iff.rfl⟩
  | @write w _ _ c v v' hv =>
    obtain ⟨cell, hc, hval⟩ := World.value?_eq_some hv
    refine .inl ⟨rfl, gone_modifyCell fun cell' hc' => ?_⟩
    obtain rfl : cell = cell' := by simpa [hc] using hc'
    simp [hval]

/-- The log names each value that is gone once, and no other. -/
theorem World.Reachable.recorded (hw : w.Reachable) : Recorded w.destroyed w.Gone := by
  refine hw.induct (Q := fun d => Recorded d.world.destroyed d.world.Gone) ⟨.nil, fun c => ?_⟩
    fun _ he hr => hr.step he.deaths
  simp [World.empty, World.destroyed, World.Gone]

/-! ### Who keeps a value -/

theorem countP_pos_of_get? {κ β : Type} [DecidableEq κ] {t : Table κ β} {k : κ} {b : β}
    (hb : t.get? k = some b) {p : β → Bool} (hp : p b = true) : 0 < t.values.countP p :=
  List.countP_pos_iff.mpr ⟨b, Table.mem_values_of_get? hb, hp⟩

/-- A cell has owners if and only if something keeps it. -/
theorem World.Reachable.keepers_pos_iff (hw : w.Reachable) :
    0 < (⟨w, [], []⟩ : Draft α).keepers c ↔ w.Kept c := by
  rw [keepers_eq, List.countP_nil, List.countP_nil, Nat.add_zero, Nat.add_zero]
  constructor
  · intro hpos
    have hsome : 0 < w.requesters.values.countP (· = c) ∨ 0 < w.requests.countP (·.cell = c) ∨
        0 < w.handles.values.countP (Handle.isOn c) := by omega
    rcases hsome with hr | hq | hh
    · obtain ⟨c', hmem, heq⟩ := List.countP_pos_iff.mp hr
      obtain ⟨name, hname⟩ := Table.exists_get?_of_mem hw.sound.requesters hmem
      obtain rfl : c' = c := by simpa using heq
      exact .inl (.inl ⟨name, hname⟩)
    · obtain ⟨r, hmem, heq⟩ := List.countP_pos_iff.mp hq
      exact .inr ⟨r, hmem, by simpa using heq⟩
    · obtain ⟨h, hmem, heq⟩ := List.countP_pos_iff.mp hh
      obtain ⟨key, hkey⟩ := Table.exists_get?_of_mem hw.sound.handles hmem
      exact .inl (.inr ⟨key, h, hkey, by simpa [Handle.isOn] using heq⟩)
  · rintro ((⟨name, hname⟩ | ⟨key, h, hkey, hg⟩) | ⟨r, hr, hrc⟩)
    · have := countP_pos_of_get? hname (p := (· = c)) (by simp)
      omega
    · have := countP_pos_of_get? hkey (p := Handle.isOn c) (by simp [Handle.isOn, hg])
      omega
    · have : 0 < w.requests.countP (·.cell = c) := List.countP_pos_iff.mpr ⟨r, hr, by simp [hrc]⟩
      omega

/-- A value is gone if and only if nothing keeps it. -/
theorem World.Reachable.gone_iff (hw : w.Reachable) :
    w.Gone c ↔ c < w.cells.length ∧ ¬ w.Kept c := by
  rw [← hw.keepers_pos_iff]
  constructor
  · rintro ⟨cell, hc, hv⟩
    have halive := (hw.sound.cells c cell hc).alive
    rw [hv] at halive
    exact ⟨lt_of_getElem?_eq_some hc, fun hpos => by simpa using halive.mpr hpos⟩
  · rintro ⟨hlt, hnone⟩
    obtain ⟨cell, hc⟩ : ∃ cell, w.cells[c]? = some cell := ⟨_, List.getElem?_eq_getElem hlt⟩
    have halive := (hw.sound.cells c cell hc).alive
    refine ⟨cell, hc, ?_⟩
    cases hv : cell.value with
    | none => rfl
    | some v =>
      rw [hv] at halive
      exact absurd (halive.mp rfl) hnone

theorem World.Reachable.lt_of_kept (hw : w.Reachable) (hc : w.Kept c) : c < w.cells.length :=
  hw.sound.there c (hw.keepers_pos_iff.mpr hc)

theorem Edits.length_le {d d' : Draft α} (he : Edits d d') :
    d.world.cells.length ≤ d'.world.cells.length := by
  have hrelock := fun (f : Hold → Demand → Hold) (w : World α) c k =>
    Nat.le_of_eq (sameRefs_relock f w c k).length.symm
  have hdisown := fun (w : World α) c => Nat.le_of_eq (sameRefs_disown w c).length.symm
  induction he with
  | refl => exact Nat.le_refl _
  | tail _ h ih =>
    refine Nat.le_trans ih ?_
    cases h with
    | make f a v =>
      dsimp only
      rw [List.length_append]
      exact Nat.le_add_right _ _
    | own _ => exact Nat.le_of_eq (sameRefs_modifyCell _ _ _).length.symm
    | write _ _ => exact Nat.le_of_eq (sameRefs_modifyCell _ _ _).length.symm
    | leave _ _ => exact hdisown _ _
    | destroy _ _ _ => exact hdisown _ _
    | lock _ _ => exact hrelock _ _ _ _
    | unlock _ => exact hrelock _ _ _ _
    | _ => exact Nat.le_refl _

/-! ### The lives of values -/

/-- What a locked handle reads is there. -/
theorem World.Reachable.read_of_grant (hw : w.Reachable) {key : ThreadId × HandleName} {h : Handle}
    (hh : w.handles.get? key = some h) (hg : h.grant = some c) : ∃ v, w.read? h = some v := by
  have hkept : w.Kept c := .inl (.inr ⟨key, h, hh, hg⟩)
  obtain ⟨cell, hc⟩ : ∃ cell, w.cells[c]? = some cell :=
    ⟨_, List.getElem?_eq_getElem (hw.lt_of_kept hkept)⟩
  have hvalue : cell.value.isSome :=
    (hw.sound.cells c cell hc).alive.mpr (hw.keepers_pos_iff.mpr hkept)
  obtain ⟨v, hv⟩ := Option.isSome_iff_exists.mp hvalue
  exact ⟨v, by simp [hw.read?_eq hh, hg, World.value?, hc, hv]⟩

/-- The lock of a cell that nothing keeps is free. -/
theorem World.Reachable.free_of_not_kept (hw : w.Reachable) {cell : Cell α}
    (hc : w.cells[c]? = some cell) (hk : ¬ w.Kept c) : cell.hold = .free := by
  apply (hw.free_iff hc).mpr
  intro key h hh hg
  exact absurd (.inl (.inr ⟨key, h, hh, hg⟩)) hk

/-- A step destroys the value of a cell if and only if there was a requester or a locked handle
of the cell, and nothing keeps it any more. -/
theorem World.Reachable.destroyed_step_iff (hw : w.Reachable) (P : Policy) (s : World.Step α)
    (hc : ¬ w.Gone c) : (w.step P s).1.Gone c ↔ w.Held c ∧ ¬ (w.step P s).1.Kept c := by
  have hnext := hw.step P s
  constructor
  · intro hgone
    obtain ⟨hlt, hnot⟩ := hnext.gone_iff.mp hgone
    rcases step_new P s hlt with hold | hheld
    · have hkept : w.Kept c := by
        rw [hw.gone_iff, not_and, Classical.not_not] at hc
        exact hc hold
      -- a request would be there still, or would be granted
      rcases hkept with hheld | hasked
      · exact ⟨hheld, hnot⟩
      · exact absurd (step_asked P s hasked) hnot
    · exact absurd (.inl hheld) hnot
  · rintro ⟨hheld, hnot⟩
    have hle := (step_edits (P := P) hw.sound s).length_le
    exact hnext.gone_iff.mpr ⟨Nat.lt_of_lt_of_le (hw.lt_of_kept (.inl hheld)) hle, hnot⟩

/-- Dropping a released handle, or releasing it again, changes no cell and destroys nothing. -/
theorem step_released {P : Policy} {t : ThreadId} {h : HandleName} {handle : Handle}
    (hh : w.handles.get? (t, h) = some handle) (hg : handle.grant = none) {s : World.Step α}
    (hs : s = .drop t h ∨ s = .release t h) :
    (w.step P s).1.cells = w.cells ∧ (w.step P s).1.log = w.log := by
  rcases hs with rfl | rfl
  · unfold World.step
    simp only [World.Step.thread?, World.stepThread, World.withHandle, hh, World.surrender_of_none hg]
    split <;> exact ⟨rfl, rfl⟩
  · unfold World.step
    simp only [World.Step.thread?, World.stepThread, World.withHandle, hh, World.surrender_of_none hg]
    split <;> exact ⟨rfl, rfl⟩

/-- A handle that gives up its access, or from which it is taken, is released. -/
theorem step_leaves_released (P : Policy) {t : ThreadId} {h : HandleName} {handle : Handle}
    (hh : w.handles.get? (t, h) = some handle) (ht : w.isBlocked t = false) :
    (w.step P (.release t h)).1.handles.get? (t, h) = some handle.released ∧
    ∀ new, new ≠ h →
      (w.step P (.take t h new)).1.handles.get? (t, h) = some handle.released := by
  unfold World.step
  simp only [World.Step.thread?, World.stepThread, World.withHandle, hh, ht]
  refine ⟨?_, fun new hne => ?_⟩
  · simp only [Bool.false_eq_true, if_false, (sameRefs_surrender _ _).handles, Table.get?_put, if_true]
  · have hkey : (t, h) ≠ (t, new) := fun e => hne (Prod.mk.inj e).2.symm
    simp only [Bool.false_eq_true, if_false, (sameRefs_keep _ _ _).handles, Table.get?_put, if_neg hkey,
      if_true]

/-- **The life of a shared value.** No value is destroyed twice, and exactly those are
destroyed that nothing keeps: no requester, no request and no locked handle. What a locked
handle reads is there. A step destroys a value if and only if a requester or a locked handle
of its cell was there before and nothing keeps it after; then no request waits for the cell,
neither before nor after, and its lock is free. A released handle is none that keeps a value:
a handle is one after its access was given up or taken, and dropping it or releasing it again
changes no cell and destroys nothing. -/
theorem World.Reachable.destroyed_with_last_keeper (hw : w.Reachable) :
    w.destroyed.Nodup ∧
    (∀ c, c ∈ w.destroyed ↔ c < w.cells.length ∧ ¬ w.Kept c) ∧
    (∀ key h c, w.handles.get? key = some h → h.grant = some c → ∃ v, w.read? h = some v) ∧
    (∀ P s c, c ∉ w.destroyed →
      (c ∈ (w.step P s).1.destroyed ↔ w.Held c ∧ ¬ (w.step P s).1.Kept c)) ∧
    (∀ P s c, c ∉ w.destroyed → c ∈ (w.step P s).1.destroyed →
      ¬ w.Asked c ∧ ¬ (w.step P s).1.Asked c ∧
      ∀ cell, (w.step P s).1.cells[c]? = some cell → cell.hold = .free) ∧
    (∀ P t h handle, w.handles.get? (t, h) = some handle → w.isBlocked t = false →
      (w.step P (.release t h)).1.handles.get? (t, h) = some handle.released ∧
      ∀ new, new ≠ h →
        (w.step P (.take t h new)).1.handles.get? (t, h) = some handle.released) ∧
    (∀ P t h handle s, w.handles.get? (t, h) = some handle → handle.grant = none →
      s = .drop t h ∨ s = .release t h →
      (w.step P s).1.cells = w.cells ∧ (w.step P s).1.log = w.log) := by
  have hstep : ∀ P s c, c ∉ w.destroyed →
      (c ∈ (w.step P s).1.destroyed ↔ w.Held c ∧ ¬ (w.step P s).1.Kept c) := by
    intro P s c hc
    rw [hw.recorded.mem] at hc
    rw [(hw.step P s).recorded.mem]
    exact hw.destroyed_step_iff P s hc
  refine ⟨hw.recorded.nodup, fun c => ?_, fun key h c hh hg => hw.read_of_grant hh hg, hstep,
    fun P s c hc hd => ?_, fun P t h handle hh ht => step_leaves_released P hh ht,
    fun P t h handle s hh hg hs => step_released hh hg hs⟩
  · rw [hw.recorded.mem]
    exact hw.gone_iff
  · obtain ⟨-, hnot⟩ := (hstep P s c hc).mp hd
    exact ⟨fun hasked => hnot (step_asked P s hasked), fun hasked => hnot (.inr hasked),
      fun cell hcell => (hw.step P s).free_of_not_kept hcell hnot⟩

/-- Nobody has a requester of the cell any more, but a thread can still write. -/
def lastWriter : World Nat :=
  World.run .taskFair .empty
    [.create "a" .serialized 7 1, .attempt 0 "a" .write (.named "h"), .dropRequester "a"]

theorem lastWriter_reachable : lastWriter.Reachable :=
  .run .taskFair _ .empty

theorem lastWriter_destroyed : lastWriter.destroyed = [] ∧
    (∃ v, lastWriter.read? ⟨.serialized, some 0⟩ = some v) ∧
    (0 ∈ (lastWriter.step .taskFair (.release 0 (.named "h"))).1.destroyed ↔
      lastWriter.Held 0 ∧ ¬ (lastWriter.step .taskFair (.release 0 (.named "h"))).1.Kept 0) ∧
    lastWriter.Held 0 ∧ 0 ∈ (lastWriter.step .taskFair (.release 0 (.named "h"))).1.destroyed := by
  have hlife := World.Reachable.destroyed_with_last_keeper lastWriter_reachable
  have hhandle : lastWriter.handles.get? (0, .named "h") = some ⟨.serialized, some 0⟩ := rfl
  exact ⟨rfl, hlife.2.2.1 _ _ 0 hhandle rfl, hlife.2.2.2.1 .taskFair _ 0 (by decide),
    .inr ⟨_, _, hhandle, rfl⟩, by decide⟩

end Custody.Shared
