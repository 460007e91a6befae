/-
# Addresses tell cells apart

A new cell gets an address that no cell has that is still there, and keeps it until it is
freed. So of the cells that are not freed no two have the same address, and two pointers
have the same identity if and only if they have the same target, or neither has one.

Key definitions: `Apart`, `Stays`.
Key theorems: `Edit.apart`, `Apart.identity_eq_iff`.
-/
import Custody.Proofs.Heap.Loans
import Custody.Proofs.Identity

namespace Custody.Heap

variable {α : Type} {h h' : Heap α} {hand : List Owner} {ts : List (Task α)} {c : CellId}

/-- No cell has the address 0, and no two that are not freed have the same. -/
structure Apart (h : Heap α) : Prop where
  ne_zero : ∀ cell ∈ h.cells, cell.address ≠ 0
  unique : ∀ (c c' : CellId) cell cell', h.cells[c]? = some cell → h.cells[c']? = some cell' →
    cell.occupies = true → cell'.occupies = true → cell.address = cell'.address → c = c'

/-- The cells are where they were, and none that was freed takes up its address again. -/
def Stays (h h' : Heap α) : Prop :=
  ∀ (c : CellId) cell', h'.cells[c]? = some cell' → ∃ cell, h.cells[c]? = some cell ∧
    cell'.address = cell.address ∧ (cell'.occupies = true → cell.occupies = true)

theorem Stays.apart (hst : Stays h h') (ha : Apart h) : Apart h' where
  ne_zero cell' hmem := by
    obtain ⟨c, hc⟩ := List.getElem?_of_mem hmem
    obtain ⟨cell, hcell, haddress, -⟩ := hst c cell' hc
    rw [haddress]
    exact ha.ne_zero cell (List.mem_of_getElem? hcell)
  unique c d cell' cell'' hc hd hocc hocc' heq := by
    obtain ⟨cell₁, hcell₁, haddress₁, hocc₁⟩ := hst c cell' hc
    obtain ⟨cell₂, hcell₂, haddress₂, hocc₂⟩ := hst d cell'' hd
    rw [haddress₁, haddress₂] at heq
    exact ha.unique c d cell₁ cell₂ hcell₁ hcell₂ (hocc₁ hocc) (hocc₂ hocc') heq

theorem Stays.trans {h'' : Heap α} (hst : Stays h h') (hst' : Stays h' h'') : Stays h h'' := by
  intro c cell'' hc
  obtain ⟨cell', hcell', haddress', hocc'⟩ := hst' c cell'' hc
  obtain ⟨cell, hcell, haddress, hocc⟩ := hst c cell' hcell'
  exact ⟨cell, hcell, haddress'.trans haddress, fun h => hocc (hocc' h)⟩

theorem stays_of_cells (hcells : h'.cells = h.cells) : Stays h h' := by
  intro c cell' hc
  rw [hcells] at hc
  exact ⟨cell', hc, rfl, id⟩

theorem stays_modifyCell (h : Heap α) (c : CellId) {f : Cell α → Cell α}
    (haddress : ∀ cell, (f cell).address = cell.address)
    (hocc : ∀ cell, h.cells[c]? = some cell → (f cell).occupies = true → cell.occupies = true) :
    Stays h (h.modifyCell c f) := by
  intro c' cell' hc
  simp only [modifyCell, List.getElem?_modify] at hc
  obtain ⟨cell, hcell, hf⟩ := Option.map_eq_some_iff.mp hc
  by_cases heq : c = c'
  · subst heq
    rw [if_pos rfl] at hf
    subst hf
    exact ⟨cell, hcell, haddress cell, hocc cell hcell⟩
  · rw [if_neg heq] at hf
    subst hf
    exact ⟨cell, hcell, rfl, id⟩

theorem stays_poke (h : Heap α) (p : Place) (x : Option Pointer) : Stays h (h.poke p x) := by
  cases p with
  | var i => exact stays_of_cells rfl
  | inside c hop =>
    apply stays_modifyCell h c
    · intro _
      rfl
    · rintro ⟨a, n, k⟩ - hocc
      cases k with
      | live v => rfl
      | dying v => rfl
      | freed => exact hocc

/-- What a cell that is not freed holds may change. -/
theorem stays_setContent {cell : Cell α} (hc : h.cells[c]? = some cell) (hocc : cell.occupies = true)
    (k : Content α) : Stays h (h.setContent c k) := by
  apply stays_modifyCell h c
  · intro _
    rfl
  · intro cell' hc' _
    rw [hc] at hc'
    obtain rfl := Option.some.inj hc'
    exact hocc

theorem stays_signOff (h : Heap α) (o : Owner) : Stays h (h.signOff o).2 := by
  unfold signOff
  simp only
  split
  · exact stays_of_cells rfl
  · exact stays_modifyCell _ o.cell (fun _ => rfl) fun _ _ hocc => hocc

theorem occupies_of_status {cell : Cell α} (hc : cell.content.status ≠ .freed) :
    cell.occupies = true := by
  obtain ⟨a, n, k⟩ := cell
  cases k with
  | live v => rfl
  | dying v => rfl
  | freed => exact absurd rfl hc

theorem Apart.of_cells (ha : Apart h) (hcells : h'.cells = h.cells) : Apart h' :=
  (stays_of_cells hcells).apart ha

/-- A new cell has an address of its own. -/
theorem Apart.allocate (ha : Apart h) (near : Nat) (v : Value α) : Apart (h.allocate near v).2 where
  ne_zero cell hmem := by
    rcases List.mem_append.mp hmem with hold | hnew
    · exact ha.ne_zero cell hold
    · obtain rfl := List.mem_singleton.mp hnew
      exact freeAddress_ne_zero h.taken near
  unique c c' cell cell' hc hc' hocc hocc' heq := by
    -- a cell that takes up its address cannot have that of the new one
    have hfree : ∀ (c : CellId) cell, h.cells[c]? = some cell → cell.occupies = true →
        cell.address ≠ freeAddress h.taken near := by
      intro c cell hc hocc heq
      have hmem : cell.address ∈ h.taken :=
        List.mem_map.mpr ⟨cell, List.mem_filter.mpr ⟨List.mem_of_getElem? hc, hocc⟩, rfl⟩
      rw [heq] at hmem
      exact freeAddress_not_mem h.taken near hmem
    have hcases : ∀ (c : CellId) cell, (h.allocate near v).2.cells[c]? = some cell →
        h.cells[c]? = some cell ∨ c = h.cells.length ∧ cell.address = freeAddress h.taken near := by
      intro c cell hc
      have hc : (h.cells ++ [⟨freeAddress h.taken near, .first, .live v⟩])[c]? = some cell := hc
      rcases Nat.lt_trichotomy c h.cells.length with hlt | rfl | hgt
      · rw [List.getElem?_append_left hlt] at hc
        exact .inl hc
      · rw [List.getElem?_concat_length] at hc
        obtain rfl := Option.some.inj hc
        exact .inr ⟨rfl, rfl⟩
      · rw [List.getElem?_eq_none (by simpa using Nat.succ_le_of_lt hgt)] at hc
        simp at hc
    rcases hcases c cell hc with hold | ⟨rfl, hnew⟩ <;> rcases hcases c' cell' hc' with hold' | ⟨rfl, hnew'⟩
    · exact ha.unique c c' cell cell' hold hold' hocc hocc' heq
    · exact absurd (heq.trans hnew') (hfree c cell hold hocc)
    · exact absurd (heq.symm.trans hnew) (hfree c' cell' hold' hocc')
    · rfl

/-- **Every edit keeps the cells apart.** -/
theorem Edit.apart {d d' : Draft α} (he : Edit d d') (ha : Apart d.heap) : Apart d'.heap := by
  cases he with
  | reorder _ => exact ha
  | remark _ => exact ha.of_cells rfl
  | @poke h _ _ p _ x _ _ => exact (stays_poke h p x).apart ha
  | @acquire h _ _ c _ =>
    have hmodify : Stays h (h.modifyCell c fun cell => { cell with count := cell.count.acquire }) :=
      stays_modifyCell h c (fun _ => rfl) fun _ _ hocc => hocc
    exact (hmodify.apart ha).of_cells rfl
  | allocate near v => exact ha.allocate near v
  | rewrite hv _ =>
    obtain ⟨cell, hc, hlive⟩ := live?_eq_some.mp hv
    exact (stays_setContent hc (occupies_of_status (by simp [hlive])) (.live _)).apart ha
  | @lend _ _ _ p _ _ => exact ha.of_cells (by cases p <;> rfl)
  | @unlend _ _ _ p => exact ha.of_cells (by cases p <;> rfl)
  | @share _ _ _ p _ => exact ha.of_cells (by cases p <;> rfl)
  | @unshare _ _ _ p => exact ha.of_cells (by cases p <;> rfl)
  | postpone _ _ _ => exact ha
  | pick => exact ha
  | skip _ => exact ha
  | giveUp => exact ha
  | advance _ _ => exact ha
  | @signOff h _ _ o _ _ => exact (stays_signOff h o).apart ha
  | @destroy h _ _ o v hn hv =>
    have hsame := samePointers_signOff hn
    obtain ⟨cell, hc, hlive⟩ := live?_eq_some.mp ((hsame.live? o.cell).trans hv)
    have hdying := stays_setContent hc (occupies_of_status (by simp [hlive])) (.dying v)
    exact (((stays_signOff h o).trans hdying).apart ha).of_cells rfl
  | @strip h _ _ c cell v v' o hc hv _ =>
    exact (stays_setContent hc (occupies_of_status (by simp [hv])) (.dying v')).apart ha
  | @free h _ _ c cell v hc hv _ =>
    have hst := stays_setContent hc (occupies_of_status (by simp [hv])) (.freed : Content α)
    exact (hst.apart ha).of_cells rfl

theorem apart_empty (n : Nat) : Apart (.empty n : Heap α) where
  ne_zero _ hmem := by simp [Heap.empty] at hmem
  unique _ _ _ _ hc := by simp [Heap.empty] at hc

/-- At every moment the cells are apart. -/
theorem Moment.apart {n : Nat} {m : Machine α} (hm : Moment n m) : Apart m.heap :=
  hm.induct (Q := fun d => Apart d.heap) (apart_empty n) fun _ he ha => he.apart ha

/-! ### Identity -/

theorem identity_of_getElem? {o : Owner} {cell : Cell α} (hc : h.cells[o.cell]? = some cell) :
    h.identity (some o) = ⟨cell.address⟩ := by
  unfold identity
  rw [Option.bind_some, hc]

section live

variable (ha : Apart h)
include ha

/-- What has a live target has the identity of no pointer without target. -/
theorem Apart.isNull_identity {o : Option Owner} (ho : ∀ a, o = some a → h.status a.cell = some .live) :
    (h.identity o).isNull = o.isNone := by
  cases o with
  | none => rfl
  | some a =>
    obtain ⟨cell, hc, -⟩ := Option.map_eq_some_iff.mp (ho a rfl)
    rw [identity_of_getElem? hc]
    simpa [Identity.isNull] using ha.ne_zero cell (List.mem_of_getElem? hc)

/-- Two pointers with live targets, or without, have the same identity if and only if they
have the same target, or neither has one. -/
theorem Apart.identity_eq_iff {o o' : Option Owner} (ho : ∀ a, o = some a → h.status a.cell = some .live)
    (ho' : ∀ a, o' = some a → h.status a.cell = some .live) :
    h.identity o = h.identity o' ↔ o.map (·.cell) = o'.map (·.cell) := by
  have hnull := ha.isNull_identity ho
  have hnull' := ha.isNull_identity ho'
  constructor
  · intro heq
    have hnone : o.isNone = o'.isNone := by rw [← hnull, ← hnull', heq]
    cases o with
    | none =>
      cases o' with
      | none => rfl
      | some b => simp at hnone
    | some a =>
      cases o' with
      | none => simp at hnone
      | some b =>
        obtain ⟨cell, hc, hlive⟩ := Option.map_eq_some_iff.mp (ho a rfl)
        obtain ⟨cell', hc', hlive'⟩ := Option.map_eq_some_iff.mp (ho' b rfl)
        rw [identity_of_getElem? hc, identity_of_getElem? hc'] at heq
        have hocc : cell.occupies = true := occupies_of_status (by simp [hlive])
        have hocc' : cell'.occupies = true := occupies_of_status (by simp [hlive'])
        have hcell := ha.unique a.cell b.cell cell cell' hc hc' hocc hocc' (Identity.mk.inj heq)
        simp [hcell]
  · intro heq
    unfold identity
    cases o <;> cases o' <;> simp_all

end live

end Custody.Heap
