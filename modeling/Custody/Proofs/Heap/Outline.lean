/-
# What acts leave of all cells

An act changes what is in places, counts, and what values hold, and it may make a cell. But one that
makes none does not change how far a cell is, or the destructor of a value; and none destroys a
value, which is left to the tasks.

Key definitions: `Act.makes`, `Content.outline`, `Heap.outline`.
Key theorems: `perform_outline`, `operate_outline`.
-/
import Custody.Proofs.Heap.Lifetime

namespace Custody.Heap

variable {α : Type} {h h' : Heap α} {self : Option CellId} {c : CellId} {v : Value α} {a : Act α}
  {op : Op α}

/-! ### Acts that make cells -/

/-- Whether the act makes a cell. -/
def Act.makes : Act α → Bool
  | .make _ _ _ _ _ _ _ => true
  | _ => false

/-- Whether the operation makes a cell. -/
def Op.makes : Op α → Bool
  | .act a => a.makes
  | .relink _ _ _ _ => false

/-! ### Outlines -/

/-- How far the cell is, and the destructor of its value. -/
def Content.outline : Content α → Status × List (Act α)
  | .live v => (.live, v.script)
  | .dying v => (.dying, v.script)
  | .freed => (.freed, [])

/-- That of all cells, and the cells of which the log tells that they were destroyed. -/
def outline (h : Heap α) : List (Status × List (Act α)) × List CellId :=
  (h.cells.map (·.content.outline), h.destroyed)

theorem SamePointers.outline (s : SamePointers h h') (hd : h'.destroyed = h.destroyed) :
    h'.outline = h.outline := by
  have hcells := congrArg (List.map Content.outline) s.contents
  simp only [List.map_map] at hcells
  exact Prod.ext hcells hd

@[simp] theorem outline_lend (h : Heap α) (p : Place) : (h.lend p).outline = h.outline :=
  (samePointers_lend h p).outline (destroyed_lend h p)

@[simp] theorem outline_unlend (h : Heap α) (p : Place) : (h.unlend p).outline = h.outline :=
  (samePointers_unlend h p).outline (destroyed_unlend h p)

@[simp] theorem outline_share (h : Heap α) (p : Place) : (h.share p).outline = h.outline :=
  (samePointers_share h p).outline (destroyed_share h p)

@[simp] theorem outline_unshare (h : Heap α) (p : Place) : (h.unshare p).outline = h.outline :=
  (samePointers_unshare h p).outline (destroyed_unshare h p)

@[simp] theorem outline_acquire (h : Heap α) (c : CellId) : (h.acquire c).2.outline = h.outline :=
  (samePointers_acquire h c).outline rfl

@[simp] theorem outline_duplicate (h : Heap α) (q : Pointer) : (h.duplicate q).2.outline = h.outline := by
  unfold duplicate
  split
  · rfl
  · exact outline_acquire h _

theorem Value.script_set (v : Value α) (hop : Hop) (o : Option Owner) : (v.set hop o).script = v.script := by
  cases hop <;> rfl

theorem outline_modifyCell (h : Heap α) (c : CellId) {f : Cell α → Cell α}
    (hf : ∀ cell, h.cells[c]? = some cell → (f cell).content.outline = cell.content.outline) :
    (h.modifyCell c f).outline = h.outline := by
  have hcells : (h.cells.modify c f).map (·.content.outline) = h.cells.map (·.content.outline) := by
    apply List.ext_getElem? fun i => ?_
    simp only [List.getElem?_map, List.getElem?_modify]
    by_cases hi : c = i
    · subst hi
      cases hc : h.cells[c]? with
      | none => simp
      | some cell => simp [hf cell hc]
    · simp [hi]
  exact Prod.ext hcells rfl

@[simp] theorem outline_poke (h : Heap α) (p : Place) (x : Option Pointer) :
    (h.poke p x).outline = h.outline := by
  cases p with
  | var i => rfl
  | inside c hop =>
    apply outline_modifyCell h c
    rintro ⟨a, n, k⟩ -
    cases k <;> simp [Content.modify, Content.outline, Value.script_set]

@[simp] theorem outline_put (h : Heap α) (p : Place) (x : Option Pointer) :
    (h.put p x).heap.outline = h.outline :=
  outline_poke h p x

/-- A value with the same destructor in a live cell. -/
theorem outline_setLive (hv : h.live? c = some v) {w : Value α} (hw : w.script = v.script) :
    (h.setLive c w).outline = h.outline := by
  apply outline_modifyCell h c
  intro cell hc
  obtain ⟨cell', hc', hcon⟩ := live?_eq_some.mp hv
  obtain rfl : cell = cell' := Option.some.inj (hc.symm.trans hc')
  simp [Content.outline, hcon, hw]

theorem cells_of_outline (ho : h'.outline = h.outline) :
    h'.cells.map (·.content.outline) = h.cells.map (·.content.outline) :=
  congrArg Prod.fst ho

/-- A cell that is live has a value with the same destructor if the outline is the same. -/
theorem exists_live?_of_outline (ho : h'.outline = h.outline) (hv : h.live? c = some v) :
    ∃ w, h'.live? c = some w ∧ w.script = v.script := by
  obtain ⟨cell, hc, hcon⟩ := live?_eq_some.mp hv
  have hout : (h'.cells[c]?).map (·.content.outline) = some (.live, v.script) := by
    have hget := congrArg (fun l => l[c]?) (cells_of_outline ho)
    simpa [hc, hcon, Content.outline] using hget
  obtain ⟨cell', hc', hshape⟩ := Option.map_eq_some_iff.mp hout
  cases hcon' : cell'.content with
  | live w =>
    have hw : w.script = v.script := by simpa [hcon', Content.outline] using hshape
    exact ⟨w, live?_eq_some.mpr ⟨cell', hc', hcon'⟩, hw⟩
  | dying w => simp [hcon', Content.outline] at hshape
  | freed => simp [hcon', Content.outline] at hshape

theorem outline_setLive_of_outline (ho : h'.outline = h.outline) (hv : h.live? c = some v) {w : Value α}
    (hw : w.script = v.script) : (h'.setLive c w).outline = h.outline := by
  obtain ⟨v', hv', hscript⟩ := exists_live?_of_outline ho hv
  exact (outline_setLive hv' (hw.trans hscript.symm)).trans ho

/-! ### The acts -/

theorem performUpdate_outline (r : Ref) (path : List Hop) (f : α → α) :
    (h.performUpdate self r path f).heap.outline = h.outline := by
  unfold performUpdate
  split
  · rfl
  · split
    · rfl
    · split
      · rfl
      · rename_i c v ht
        obtain ⟨-, -, -, -, -, hv, -⟩ := through_eq_ok ht
        exact outline_setLive hv rfl

theorem performStore_outline (r : Ref) (path : List Hop) (site : Site) (src : Ref) :
    (h.performStore self r path site src).heap.outline = h.outline := by
  unfold performStore
  split
  · rfl
  · rfl
  · rename_i root s _ _
    split
    · rfl
    · split
      · rfl
      · rfl
      · split
        · rfl
        · rename_i c v ht
          obtain ⟨-, -, -, -, -, hv, -⟩ := through_eq_ok ht
          have htaken := outline_poke h s s.vacated
          split
          · exact outline_setLive_of_outline htaken hv rfl
          · split
            · rfl
            · exact (outline_lend _ root).trans
                (outline_setLive_of_outline htaken hv (v.script_set _ _))
      · rfl

theorem performRelink_outline (r : Ref) (path : List Hop) (j : Nat) (src : Ref) :
    (h.performRelink r path j src).heap.outline = h.outline := by
  unfold performRelink
  split
  · rfl
  · rename_i s _
    split
    · rfl
    · rfl
    · split
      · rfl
      · split
        · rfl
        · rename_i c v ht
          obtain ⟨-, -, -, -, -, hv, -⟩ := through_eq_ok ht
          split
          · rfl
          · split
            · rfl
            · exact outline_setLive_of_outline (outline_poke h s s.vacated) hv (v.script_set _ _)
    · rfl

/-- **No act but one that makes a cell** changes how far a cell is, or the destructor of a value. -/
theorem perform_outline (hm : a.makes = false) : (h.perform self a).heap.outline = h.outline := by
  cases a with
  | make dst kind data script fields links near => simp [Act.makes] at hm
  | update r path f => exact performUpdate_outline r path f
  | store r path site src => exact performStore_outline r path site src
  | ask q => rfl
  | skipIf p n => rfl
  | giveUpIf p => rfl
  | report say => rfl
  | reset dst =>
    simp only [perform, performReset]
    split <;> simp [reply]
  | drop r =>
    simp only [perform, performDrop]
    split <;> simp [reply]
  | clear r =>
    simp only [perform, performClear]
    repeat' split
    all_goals simp [reply]
  | move src dst =>
    simp only [perform, performMove]
    repeat' split
    all_goals simp [reply]
  | clone src path dst =>
    simp only [perform, performClone]
    repeat' split
    all_goals simp [reply]
  | assign dst src path =>
    simp only [perform, performAssign]
    repeat' split
    all_goals simp [reply]
  | advance dst path =>
    simp only [perform, performAdvance]
    repeat' split
    all_goals simp [reply]
  | replace dst src path =>
    simp only [perform, performReplace]
    repeat' split
    all_goals simp [reply]
  | convert src dst kind =>
    simp only [perform, performConvert]
    repeat' split
    all_goals simp [reply]

theorem operate_outline (hm : op.makes = false) : (h.operate op).heap.outline = h.outline := by
  cases op with
  | act a => exact perform_outline hm
  | relink r path j src => exact performRelink_outline r path j src

end Custody.Heap
