/-
# The census of locks

In every reachable world a lock is held exactly as the locked handles on its cell say:
by one writer and nobody else, by so many readers, or by nobody. What a cell's flavour
offers decides which kinds of handles these can be.

Key definitions: `World.locked`.
Key theorems: `Reachable.holders_eq_locked`, `Reachable.readWrite_census`, `Reachable.lock_census`.
-/
import Custody.Proofs.Shared.Run

namespace Custody.Shared

variable {α : Type} {w : World α} {c : CellId} {cell : Cell α}

/-- How many locked handles of such kinds are on the cell. -/
def World.locked (w : World α) (c : CellId) (p : HandleKind → Bool) : Nat :=
  w.handles.values.countP fun h => h.grant = some c ∧ p h.kind

/-! ### Holders by their kinds -/

/-- A locked handle is of a kind that its cell's flavour offers. -/
theorem World.Reachable.offered (hw : w.Reachable) (hc : w.cells[c]? = some cell) {h : Handle}
    (hh : h ∈ w.handles.values) (hg : h.grant = some c) :
    ∃ a, cell.flavour.handle? a = some h.kind := by
  have hmem : h ∈ (⟨w, [], []⟩ : Draft α).handles := mem_handles.mpr (.inl hh)
  obtain ⟨a, ha⟩ := hw.sound.fits h hmem c hg
  exact ⟨a, by simpa [World.flavour?, hc] using ha⟩

/-- The holders of a lock in one way are the locked handles of the kinds that hold it so. -/
theorem World.Reachable.holders_eq_locked (hw : w.Reachable) (hc : w.cells[c]? = some cell)
    (p : HandleKind → Bool) {x : Demand}
    (hp : ∀ a k, cell.flavour.handle? a = some k → (k.demand? = some x ↔ p k = true)) :
    (⟨w, [], []⟩ : Draft α).holders c x = w.locked c p := by
  rw [holders_eq, List.countP_nil, Nat.add_zero]
  apply List.countP_congr
  intro h hh
  simp only [Handle.holds, decide_eq_true_eq]
  constructor
  · rintro ⟨hg, hd⟩
    obtain ⟨a, ha⟩ := hw.offered hc hh hg
    exact ⟨hg, (hp a h.kind ha).mp hd⟩
  · rintro ⟨hg, hk⟩
    obtain ⟨a, ha⟩ := hw.offered hc hh hg
    exact ⟨hg, (hp a h.kind ha).mpr hk⟩

theorem World.Reachable.hold_fits (hw : w.Reachable) (hc : w.cells[c]? = some cell) :
    cell.hold.Fits ((⟨w, [], []⟩ : Draft α).holders c) :=
  (hw.sound.cells c cell hc).hold

theorem holders_pos {key : ThreadId × HandleName} {h : Handle}
    (hh : w.handles.get? key = some h) (hg : h.grant = some c) {x : Demand}
    (hd : h.kind.demand? = some x) : 0 < (⟨w, [], []⟩ : Draft α).holders c x := by
  rw [holders_eq, List.countP_nil, Nat.add_zero]
  exact List.countP_pos_iff.mpr ⟨h, Table.mem_values_of_get? hh, by simp [Handle.holds, hg, hd]⟩

/-- If one handle holds a lock exclusively, no other holds it at all. -/
theorem World.Reachable.eq_of_exclusive (hw : w.Reachable) (hc : w.cells[c]? = some cell)
    {key key' : ThreadId × HandleName} {h h' : Handle} (hh : w.handles.get? key = some h)
    (hh' : w.handles.get? key' = some h') (hg : h.grant = some c) (hg' : h'.grant = some c)
    (hd : h.kind.demand? = some .exclusive) (hd' : h'.kind.demand? ≠ none) : key = key' := by
  obtain ⟨hone, hzero⟩ := (hw.hold_fits hc).alone (holders_pos hh hg hd)
  obtain ⟨x, hx⟩ := Option.ne_none_iff_exists'.mp hd'
  have hpos := holders_pos hh' hg' hx
  cases x with
  | shared => omega
  | exclusive =>
    rw [holders_eq, List.countP_nil, Nat.add_zero] at hone
    apply Table.eq_of_countP_le_one hw.sound.handles (Nat.le_of_eq hone) hh hh'
    · simp [Handle.holds, hg, hd]
    · simp [Handle.holds, hg', hx]

/-- A lock is free if and only if no locked handle on the cell holds it. -/
theorem World.Reachable.free_iff (hw : w.Reachable) (hc : w.cells[c]? = some cell) :
    cell.hold = .free ↔ ∀ key h, w.handles.get? key = some h → h.grant = some c →
      h.kind.demand? = none := by
  rw [(hw.hold_fits hc).free_iff]
  constructor
  · rintro ⟨hex, hsh⟩ key h hh hg
    rcases hd : h.kind.demand? with _ | _ | _
    · rfl
    · have := holders_pos hh hg hd
      omega
    · have := holders_pos hh hg hd
      omega
  · intro hnone
    have hzero : ∀ x, (⟨w, [], []⟩ : Draft α).holders c x = 0 := by
      intro x
      rw [holders_eq, List.countP_nil, Nat.add_zero, List.countP_eq_zero]
      intro h hh hholds
      obtain ⟨key, hkey⟩ := Table.exists_get?_of_mem hw.sound.handles hh
      obtain ⟨hg, hd⟩ : h.grant = some c ∧ h.kind.demand? = some x := by
        simpa [Handle.holds] using hholds
      rw [hnone key h hkey hg] at hd
      simp at hd
    exact ⟨hzero _, hzero _⟩

/-! ### The census -/

/-- The lock of a cell that many may read or one may write, where `k` are the kinds of
handles of those who write, and `k'` of those who read. -/
theorem World.Reachable.readWrite_census (hw : w.Reachable) (hc : w.cells[c]? = some cell)
    {k k' : HandleKind} (hk : cell.flavour.handle? .write = some k)
    (hk' : cell.flavour.handle? .read = some k') (hd : k.demand? = some .exclusive)
    (hd' : k'.demand? = some .shared) :
    (cell.hold = .exclusive ↔ w.locked c (· = k) = 1 ∧ w.locked c (· = k') = 0) ∧
    ∀ n, 0 < n → (cell.hold = .shared n ↔ w.locked c (· = k') = n ∧ w.locked c (· = k) = 0) := by
  have hfits := hw.hold_fits hc
  have hne : k ≠ k' := by
    rintro rfl
    rw [hd] at hd'
    simp at hd'
  have hkinds : ∀ a j, cell.flavour.handle? a = some j → j = k ∨ j = k' := by
    intro a j ha
    cases a with
    | write => exact .inl (by simpa [hk] using ha.symm)
    | read => exact .inr (by simpa [hk'] using ha.symm)
  have hex := hw.holders_eq_locked hc (x := .exclusive) (· = k) fun a j ha => by
    rcases hkinds a j ha with rfl | rfl
    · simp [hd]
    · simp [hd', Ne.symm hne]
  have hsh := hw.holders_eq_locked hc (x := .shared) (· = k') fun a j ha => by
    rcases hkinds a j ha with rfl | rfl
    · simp [hd, hne]
    · simp [hd']
  rw [← hex, ← hsh]
  exact ⟨hfits.exclusive_iff, fun n hn => hfits.shared_iff hn⟩

/-- The lock of a serialized cell is held if and only if one handle on it is locked. -/
theorem World.Reachable.serialized_census (hw : w.Reachable) (hc : w.cells[c]? = some cell)
    (hf : cell.flavour = .serialized) :
    cell.hold ≠ .free ↔ w.locked c HandleKind.isSerialized = 1 := by
  have hfits := hw.hold_fits hc
  have hex := hw.holders_eq_locked hc (x := .exclusive) HandleKind.isSerialized fun a j ha => by
    rw [hf] at ha
    cases a <;> obtain rfl := Option.some.inj ha <;> decide
  have hsh := hw.holders_eq_locked hc (x := .shared) (fun _ => false) fun a j ha => by
    rw [hf] at ha
    cases a <;> obtain rfl := Option.some.inj ha <;> decide
  have hnone : w.locked c (fun _ => false) = 0 := by
    simp [World.locked]
  rw [← hex, ne_eq, hfits.free_iff]
  constructor
  · intro hnot
    have hpos : 0 < (⟨w, [], []⟩ : Draft α).holders c .exclusive := by omega
    exact (hfits.alone hpos).1
  · intro hone
    omega

/-- **The census of locks.** In every reachable world the lock of a cell that many may read
or one may write is held by one writer if and only if one such handle is locked on it, and no
other; by `n` readers if and only if `n` such handles are, and no writer's. The lock of a
serialized cell is held if and only if one handle on it is locked. Each lock is free if
no locked handle holds it, and one that is held exclusively is held by one handle only. -/
theorem World.Reachable.lock_census (hw : w.Reachable) (hc : w.cells[c]? = some cell) :
    (cell.flavour = .readWrite →
      (cell.hold = .exclusive ↔ w.locked c (· = .write) = 1 ∧ w.locked c (· = .read) = 0) ∧
      ∀ n, 0 < n →
        (cell.hold = .shared n ↔ w.locked c (· = .read) = n ∧ w.locked c (· = .write) = 0)) ∧
    (cell.flavour = .unchecked →
      (cell.hold = .exclusive ↔
        w.locked c (· = .uncheckedWrite) = 1 ∧ w.locked c (· = .uncheckedRead) = 0) ∧
      ∀ n, 0 < n → (cell.hold = .shared n ↔
        w.locked c (· = .uncheckedRead) = n ∧ w.locked c (· = .uncheckedWrite) = 0)) ∧
    (cell.flavour = .serialized →
      (cell.hold ≠ .free ↔ w.locked c HandleKind.isSerialized = 1)) ∧
    (cell.hold = .free ↔ ∀ key h, w.handles.get? key = some h → h.grant = some c →
      h.kind.demand? = none) ∧
    (∀ key h, w.handles.get? key = some h → h.grant = some c →
      ∃ a, cell.flavour.handle? a = some h.kind) ∧
    ∀ key key' h h', w.handles.get? key = some h → w.handles.get? key' = some h' →
      h.grant = some c → h'.grant = some c → h.kind.demand? = some .exclusive →
      h'.kind.demand? ≠ none → key = key' := by
  refine ⟨fun hf => ?_, fun hf => ?_, hw.serialized_census hc, hw.free_iff hc, fun key h hh hg => ?_,
    fun key key' h h' hh hh' hg hg' hd hd' => hw.eq_of_exclusive hc hh hh' hg hg' hd hd'⟩
  · apply hw.readWrite_census hc
    · rw [hf]
      rfl
    · rw [hf]
      rfl
    · rfl
    · rfl
  · apply hw.readWrite_census hc
    · rw [hf]
      rfl
    · rw [hf]
      rfl
    · rfl
    · rfl
  · exact hw.offered hc (Table.mem_values_of_get? hh) hg

/-- Two readers share a lock, one of them with a handle into which the access was taken; a
writer waits, and nobody can ask any more. -/
def crowded : World Nat :=
  World.run .taskFair .empty
    [.create "a" .readWrite 7 1, .attempt 0 "a" .read (.named "h"),
      .attempt 1 "a" .read (.named "h"), .attempt 2 "a" .write (.named "h"), .block 2,
      .take 0 (.named "h") (.named "k"), .dropRequester "a"]

theorem crowded_reachable : crowded.Reachable :=
  .run .taskFair _ .empty

theorem crowded_held : crowded.locked 0 (· = .read) = 2 ∧
    ∃ cell, crowded.cells[0]? = some cell ∧ cell.flavour = .readWrite ∧ cell.hold = .shared 2 := by
  have hc : crowded.cells[0]? = some ⟨.locked (some 7), 1, .shared 2, 3⟩ := rfl
  have hcensus := (World.Reachable.lock_census crowded_reachable hc).1 rfl
  exact ⟨by decide, _, hc, rfl, (hcensus.2 2 (by decide)).mpr ⟨by decide, by decide⟩⟩

end Custody.Shared
