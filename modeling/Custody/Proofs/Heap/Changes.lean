/-
# What each change of a heap does

A heap is read through a few views: the owners that are stored, how far each cell
is, its count, what is in a place, and which variables are lent. For each change
that a heap undergoes there is one lemma for each view. Many changes leave all
pointers where they are (`SamePointers`); the others are putting something into a
place (`poke`), giving a live cell another value (`setLive`), making a cell
(`allocate`) and the steps of a destruction (`modifyCell`).

Key definitions: `SamePointers`, `Heap.Vacant`, `Heap.isLent`.
Key theorems: `owners_poke`, `peek_poke_ne`, `owners_setLive`, `owners_allocate`.
-/
import Custody.Proofs.Heap.Owners

namespace Custody.Heap

variable {α : Type} (P : Owner → Bool)

/-! ### The views -/

/-- The place is there, and no owner is in it. -/
def Vacant (h : Heap α) (p : Place) : Prop :=
  ∃ x, h.peek p = some x ∧ held x = []

/-- Whether the variable is borrowed to be changed. -/
def isLent (h : Heap α) (i : Nat) : Bool :=
  (h.vars[i]?.map (·.writer)).getD false

theorem count_eq (h : Heap α) (c : CellId) :
    h.count c = (h.cells[c]?.map (·.count)).getD ⟨0⟩ := by
  unfold count
  cases h.cells[c]? <;> rfl

theorem count_of_getElem? {h : Heap α} {c : CellId} {cell : Cell α} (hc : h.cells[c]? = some cell) :
    h.count c = cell.count := by
  simp [count_eq, hc]

theorem peek_inside_eq_some {h : Heap α} {c : CellId} {hop : Hop} {x : Option Pointer}
    (hp : h.peek (.inside c hop) = some x) :
    ∃ cell v o, h.cells[c]? = some cell ∧ cell.content.value? = some v ∧ v.get? hop = some o ∧
      x = some (.nullable o) := by
  simp only [peek, Option.map_eq_some_iff, Option.bind_eq_some_iff] at hp
  obtain ⟨o, ⟨v, ⟨cell, hc, hv⟩, ho⟩, rfl⟩ := hp
  exact ⟨cell, v, o, hc, hv, ho, rfl⟩

theorem peek_var_eq_some {h : Heap α} {i : Nat} {x : Option Pointer} (hp : h.peek (.var i) = some x) :
    ∃ v, h.vars[i]? = some v ∧ v.pointer = x := by
  simpa [peek, Option.map_eq_some_iff] using hp

/-- The value, if it is live. -/
def Content.live? : Content α → Option (Value α)
  | .live v => some v
  | _ => none

theorem live?_eq_bind (h : Heap α) (c : CellId) :
    h.live? c = (h.cells[c]?.map (·.content)).bind Content.live? := by
  unfold live?
  rcases h.cells[c]? with _ | ⟨a, n, _ | _ | _⟩ <;> rfl

/-! ### Changes that leave all pointers where they are -/

/-- The same pointers are in the same places, in cells that are as far as before; only
counts, loans and the log may differ. -/
structure SamePointers (h h' : Heap α) : Prop where
  vars : h'.vars.map (·.pointer) = h.vars.map (·.pointer)
  contents : h'.cells.map (·.content) = h.cells.map (·.content)

namespace SamePointers

variable {h h' : Heap α} (s : SamePointers h h')
include s

theorem owners : h'.owners = h.owners := by
  have hv : h'.vars.flatMap (fun v => held v.pointer) = h.vars.flatMap (fun v => held v.pointer) := by
    simpa [List.flatMap_map] using congrArg (List.flatMap held) s.vars
  have hc : h'.cells.flatMap (fun c => c.content.owners) =
      h.cells.flatMap (fun c => c.content.owners) := by
    simpa [List.flatMap_map] using congrArg (List.flatMap Content.owners) s.contents
  unfold Heap.owners
  rw [hv, hc]

theorem content (c : CellId) : h'.cells[c]?.map (·.content) = h.cells[c]?.map (·.content) := by
  simpa using congrArg (·[c]?) s.contents

theorem status (c : CellId) : h'.status c = h.status c := by
  simpa [Heap.status, Function.comp_def] using congrArg (Option.map Content.status) (s.content c)

theorem live? (c : CellId) : h'.live? c = h.live? c := by
  rw [live?_eq_bind, live?_eq_bind, s.content c]

theorem peek : ∀ p : Place, h'.peek p = h.peek p
  | .var i => by simpa [Heap.peek] using congrArg (·[i]?) s.vars
  | .inside c hop => by
    have hv : h'.cells[c]?.bind (·.content.value?) = h.cells[c]?.bind (·.content.value?) := by
      simpa [Option.bind_map, Function.comp_def] using
        congrArg (fun k => k.bind Content.value?) (s.content c)
    simp only [Heap.peek, hv]

theorem vacant {p : Place} (hv : h.Vacant p) : h'.Vacant p := by
  obtain ⟨x, hx, hh⟩ := hv
  exact ⟨x, (s.peek p).trans hx, hh⟩

end SamePointers

/-- Changing what is borrowed of a variable. -/
theorem samePointers_modifyVar (h : Heap α) (i : Nat) {f : Variable → Variable}
    (hf : ∀ v, (f v).pointer = v.pointer) : SamePointers h (h.modifyVar i f) where
  vars := by
    apply List.ext_getElem? fun j => ?_
    simp only [modifyVar, List.getElem?_map, List.getElem?_modify, Option.map_eq_map, Option.map_map]
    congr 1
    funext v
    by_cases hij : i = j <;> simp [hij, hf]
  contents := rfl

/-- Changing a cell's count. -/
theorem samePointers_modifyCell (h : Heap α) (c : CellId) {f : Cell α → Cell α}
    (hf : ∀ cell, (f cell).content = cell.content) : SamePointers h (h.modifyCell c f) where
  vars := rfl
  contents := by
    apply List.ext_getElem? fun j => ?_
    simp only [modifyCell, List.getElem?_map, List.getElem?_modify, Option.map_eq_map, Option.map_map]
    congr 1
    funext cell
    by_cases hij : c = j <;> simp [hij, hf]

theorem samePointers_refl (h : Heap α) : SamePointers h h := ⟨rfl, rfl⟩

theorem samePointers_lend (h : Heap α) : ∀ p : Place, SamePointers h (h.lend p)
  | .var i => samePointers_modifyVar h i fun _ => rfl
  | .inside _ _ => samePointers_refl h

theorem samePointers_unlend (h : Heap α) : ∀ p : Place, SamePointers h (h.unlend p)
  | .var i => samePointers_modifyVar h i fun _ => rfl
  | .inside _ _ => samePointers_refl h

theorem samePointers_share (h : Heap α) : ∀ p : Place, SamePointers h (h.share p)
  | .var i => samePointers_modifyVar h i fun _ => rfl
  | .inside _ _ => samePointers_refl h

theorem samePointers_unshare (h : Heap α) : ∀ p : Place, SamePointers h (h.unshare p)
  | .var i => samePointers_modifyVar h i fun _ => rfl
  | .inside _ _ => samePointers_refl h

theorem samePointers_acquire (h : Heap α) (c : CellId) : SamePointers h (h.acquire c).2 where
  vars := rfl
  contents := (samePointers_modifyCell h c (f := fun cell => { cell with count := cell.count.acquire })
    fun _ => rfl).contents

/-! ### Counts -/

/-- A change of a cell that keeps its count. -/
theorem count_modifyCell (h : Heap α) (c : CellId) {f : Cell α → Cell α}
    (hf : ∀ cell, (f cell).count = cell.count) (c' : CellId) :
    (h.modifyCell c f).count c' = h.count c' := by
  simp only [count_eq, modifyCell, List.getElem?_modify]
  by_cases hc : c = c' <;> cases h.cells[c']? <;> simp [hc, hf]

theorem count_acquire {h : Heap α} {c : CellId} (hc : h.status c = some .live) (c' : CellId) :
    ((h.acquire c).2.count c').owners = (h.count c').owners + if c' = c then 1 else 0 := by
  obtain ⟨cell, hcell, -⟩ := Option.map_eq_some_iff.mp hc
  simp only [acquire, count_eq, modifyCell, List.getElem?_modify]
  by_cases h' : c' = c
  · subst h'
    simp [hcell, Count.acquire]
  · have : ¬ c = c' := fun e => h' e.symm
    cases h.cells[c']? <;> simp [h', this]

/-- Signing off from a count above zero lowers it by one, and says whether that was the last. -/
theorem signOff_eq {h : Heap α} {o : Owner} {n : Nat} (hn : (h.count o.cell).owners = n + 1) :
    h.signOff o = (decide (n = 0),
      (h.note (.returned o.cell o.token)).modifyCell o.cell fun cell => { cell with count := ⟨n⟩ }) := by
  have hrel : ((h.note (.returned o.cell o.token)).count o.cell).release? =
      some (⟨n⟩, decide (n = 0)) := by
    change (h.count o.cell).release? = _
    simp [Count.release?, hn]
  simp only [signOff, hrel]

theorem samePointers_signOff {h : Heap α} {o : Owner} {n : Nat}
    (hn : (h.count o.cell).owners = n + 1) : SamePointers h (h.signOff o).2 := by
  rw [signOff_eq hn]
  exact ⟨rfl, (samePointers_modifyCell h o.cell (f := fun cell => { cell with count := ⟨n⟩ })
    fun _ => rfl).contents⟩

theorem count_signOff {h : Heap α} {o : Owner} {n : Nat} (hn : (h.count o.cell).owners = n + 1)
    (c : CellId) :
    ((h.signOff o).2.count c).owners + (if c = o.cell then 1 else 0) = (h.count c).owners := by
  have hcell : h.cells[o.cell]? ≠ none := by
    intro hnone
    simp [count_eq, hnone] at hn
  obtain ⟨cell, hcell⟩ := Option.ne_none_iff_exists'.mp hcell
  rw [signOff_eq hn]
  simp only [count_eq, modifyCell, note, List.getElem?_modify] at hn ⊢
  by_cases hc : c = o.cell
  · subst hc
    simpa [hcell] using hn.symm
  · have : ¬ o.cell = c := fun e => hc e.symm
    cases h.cells[c]? <;> simp [hc, this]

/-! ### Loans -/

theorem count_lend (h : Heap α) (p : Place) (c : CellId) : (h.lend p).count c = h.count c := by
  cases p <;> rfl

theorem count_unlend (h : Heap α) (p : Place) (c : CellId) : (h.unlend p).count c = h.count c := by
  cases p <;> rfl

theorem count_share (h : Heap α) (p : Place) (c : CellId) : (h.share p).count c = h.count c := by
  cases p <;> rfl

theorem count_unshare (h : Heap α) (p : Place) (c : CellId) : (h.unshare p).count c = h.count c := by
  cases p <;> rfl

/-- A change of one variable's loans, seen at all variables. -/
theorem isLent_modifyVar (h : Heap α) (j : Nat) (f : Variable → Variable) (i : Nat) :
    (h.modifyVar j f).isLent i =
      if i = j then (h.vars[j]?.map fun v => (f v).writer).getD false else h.isLent i := by
  simp only [isLent, modifyVar, List.getElem?_modify]
  by_cases hij : i = j
  · subst hij
    cases h.vars[i]? <;> simp
  · have : ¬ j = i := fun e => hij e.symm
    cases h.vars[i]? <;> simp [hij, this]

theorem isLent_of_writable {h : Heap α} {i : Nat} (hw : h.writable (.var i) = true) :
    h.isLent i = false := by
  unfold writable at hw
  unfold isLent
  cases hv : h.vars[i]? <;> simp_all

theorem isLent_lend {h : Heap α} {j : Nat} (hp : (h.peek (.var j)).isSome) (i : Nat) :
    (h.lend (.var j)).isLent i = if i = j then true else h.isLent i := by
  obtain ⟨x, hx⟩ := Option.isSome_iff_exists.mp hp
  obtain ⟨v, hv, -⟩ := peek_var_eq_some hx
  rw [lend, isLent_modifyVar, hv]
  rfl

theorem isLent_unlend (h : Heap α) (j i : Nat) :
    (h.unlend (.var j)).isLent i = if i = j then false else h.isLent i := by
  rw [unlend, isLent_modifyVar]
  cases h.vars[j]? <;> rfl

theorem isLent_share (h : Heap α) (p : Place) (i : Nat) : (h.share p).isLent i = h.isLent i := by
  cases p with
  | var j =>
    rw [share, isLent_modifyVar]
    split
    · rename_i hij
      rw [hij]
      rfl
    · rfl
  | inside c hop => rfl

theorem isLent_unshare (h : Heap α) (p : Place) (i : Nat) : (h.unshare p).isLent i = h.isLent i := by
  cases p with
  | var j =>
    rw [unshare, isLent_modifyVar]
    split
    · rename_i hij
      rw [hij]
      rfl
    · rfl
  | inside c hop => rfl

/-! ### Cells -/

theorem owners_modifyCell {h : Heap α} {c : CellId} {cell : Cell α} (hc : h.cells[c]? = some cell)
    (f : Cell α → Cell α) :
    (h.modifyCell c f).owners.countP P + cell.content.owners.countP P =
      h.owners.countP P + (f cell).content.owners.countP P := by
  have := countP_flatMap_modify P (fun cell : Cell α => cell.content.owners) f h.cells c hc
  simp only [owners, modifyCell, List.countP_append]
  omega

theorem status_modifyCell {h : Heap α} {c : CellId} {cell : Cell α} (hc : h.cells[c]? = some cell)
    (f : Cell α → Cell α) (c' : CellId) :
    (h.modifyCell c f).status c' = if c' = c then some (f cell).content.status else h.status c' := by
  simp only [status, modifyCell, List.getElem?_modify]
  by_cases h' : c' = c
  · subst h'
    simp [hc]
  · have : ¬ c = c' := fun e => h' e.symm
    cases h.cells[c']? <;> simp [h', this]

/-- A change inside one cell is not seen anywhere else. -/
theorem peek_modifyCell {h : Heap α} {c : CellId} (f : Cell α → Cell α) :
    ∀ {p : Place}, (∀ hop, p ≠ .inside c hop) → (h.modifyCell c f).peek p = h.peek p
  | .var _, _ => rfl
  | .inside c' hop, hp => by
    have hc : c ≠ c' := fun e => hp hop (by rw [e])
    simp only [peek, modifyCell, List.getElem?_modify_ne f h.cells hc]

/-! ### Putting something into a place -/

/-- What was in the place goes out, and what is put there comes in. -/
theorem owners_poke {h : Heap α} : ∀ {p : Place} {old : Option Pointer}, h.peek p = some old →
    ∀ x, (h.poke p x).owners.countP P + (held old).countP P = h.owners.countP P + (held x).countP P
  | .var i, old, hp, x => by
    obtain ⟨v, hv, rfl⟩ := peek_var_eq_some hp
    have := countP_flatMap_modify P (fun v : Variable => held v.pointer)
      (fun v => { v with pointer := x }) h.vars i hv
    simp only [owners, poke, modifyVar, List.countP_append] at this ⊢
    omega
  | .inside c hop, old, hp, x => by
    obtain ⟨cell, v, o, hc, hv, ho, rfl⟩ := peek_inside_eq_some hp
    have hset := v.owners_set P ho (x.bind Pointer.owner?)
    have hmod := owners_modifyCell P hc fun cell =>
      { cell with content := cell.content.modify fun v => v.set hop (x.bind Pointer.owner?) }
    have hx : held x = (x.bind Pointer.owner?).toList := rfl
    rw [poke, held_nullable, hx]
    cases hcon : cell.content with
    | live w =>
      obtain rfl : w = v := by simpa [hcon, Content.value?] using hv
      simp only [hcon, Content.modify, Content.owners_live] at hmod ⊢
      omega
    | dying w =>
      obtain rfl : w = v := by simpa [hcon, Content.value?] using hv
      simp only [hcon, Content.modify, Content.owners_dying] at hmod ⊢
      omega
    | freed => simp [hcon, Content.value?] at hv

@[simp] theorem status_poke (h : Heap α) (p : Place) (x : Option Pointer) (c : CellId) :
    (h.poke p x).status c = h.status c := by
  cases p with
  | var i => rfl
  | inside c' hop =>
    simp only [status, poke, modifyCell, List.getElem?_modify]
    by_cases hc : c' = c <;> cases h.cells[c]? <;> simp [hc]

@[simp] theorem count_poke (h : Heap α) (p : Place) (x : Option Pointer) (c : CellId) :
    (h.poke p x).count c = h.count c := by
  cases p with
  | var i => rfl
  | inside c' hop =>
    unfold poke
    apply count_modifyCell
    intro _
    rfl

@[simp] theorem isLent_poke (h : Heap α) (p : Place) (x : Option Pointer) (i : Nat) :
    (h.poke p x).isLent i = h.isLent i := by
  cases p with
  | var j =>
    simp only [isLent, poke, modifyVar, List.getElem?_modify]
    by_cases hij : j = i <;> cases h.vars[i]? <;> simp [hij]
  | inside c hop => rfl

@[simp] theorem writable_poke (h : Heap α) (p : Place) (x : Option Pointer) (q : Place) :
    (h.poke p x).writable q = h.writable q := by
  cases q with
  | inside c hop => rfl
  | var i =>
    cases p with
    | inside c hop => rfl
    | var j =>
      simp only [writable, poke, modifyVar, List.getElem?_modify]
      by_cases hij : j = i <;> cases h.vars[i]? <;> simp [hij]

theorem live?_poke {h : Heap α} {p : Place} {c : CellId} (hp : ∀ hop, p ≠ .inside c hop)
    (x : Option Pointer) : (h.poke p x).live? c = h.live? c := by
  cases p with
  | var i => rfl
  | inside c' hop =>
    have hc : c' ≠ c := fun e => hp hop (by rw [e])
    simp only [live?, poke, modifyCell, List.getElem?_modify_ne _ h.cells hc]

theorem Value.get?_set_ne (v : Value α) {hop hop' : Hop} (hne : hop ≠ hop') (o : Option Owner) :
    (v.set hop o).get? hop' = v.get? hop' := by
  cases hop <;> cases hop' <;> first | rfl | skip
  · rename_i k k'
    exact List.getElem?_set_ne (fun e => hne (by rw [e]))
  · rename_i k k'
    exact List.getElem?_set_ne (fun e => hne (by rw [e]))

theorem Value.get?_set_self {v : Value α} {hop : Hop} {old : Option Owner}
    (h : v.get? hop = some old) (o : Option Owner) : (v.set hop o).get? hop = some o := by
  cases hop <;> exact List.getElem?_set_self (List.getElem?_eq_some_iff.mp h).1

theorem Value.get?_set (v : Value α) (hop : Hop) (o : Option Owner) (hop' : Hop) :
    (v.set hop o).get? hop' = if hop = hop' then (v.get? hop').map fun _ => o else v.get? hop' := by
  by_cases he : hop = hop'
  · subst he
    rw [if_pos rfl]
    cases hold : v.get? hop with
    | some old => exact Value.get?_set_self hold o
    | none =>
      cases hop with
      | field k => simpa [Value.set, Value.get?] using hold
      | link k => simpa [Value.set, Value.get?] using hold
  · rw [if_neg he, Value.get?_set_ne v he]

/-- What is in one place does not depend on what is put into another. -/
theorem peek_poke_ne {h : Heap α} {p q : Place} (hne : p ≠ q) (x : Option Pointer) :
    (h.poke p x).peek q = h.peek q := by
  cases p with
  | var i =>
    cases q with
    | inside c hop => rfl
    | var j =>
      have hij : i ≠ j := fun e => hne (by rw [e])
      simp only [peek, poke, modifyVar, List.getElem?_modify_ne _ h.vars hij]
  | inside c hop =>
    cases q with
    | var j => rfl
    | inside c' hop' =>
      by_cases hc : c = c'
      · subst hc
        have hhop : hop ≠ hop' := fun e => hne (by rw [e])
        simp only [peek, poke, modifyCell, List.getElem?_modify]
        rcases h.cells[c]? with _ | ⟨a, n, v | v | _⟩ <;>
          simp [Content.modify, Content.value?, Value.get?_set_ne _ hhop]
      · exact peek_modifyCell _ (fun _ e => hc (by injection e with e _; exact e.symm))

theorem peek_poke_self {h : Heap α} : ∀ {p : Place} {old : Option Pointer}, h.peek p = some old →
    ∀ x, ∃ y, (h.poke p x).peek p = some y ∧ held y = held x
  | .var i, old, hp, x => by
    obtain ⟨v, hv, rfl⟩ := peek_var_eq_some hp
    exact ⟨x, by simp [peek, poke, modifyVar, hv], rfl⟩
  | .inside c hop, old, hp, x => by
    obtain ⟨⟨a, n, content⟩, v, o, hc, hv, ho, rfl⟩ := peek_inside_eq_some hp
    refine ⟨some (.nullable (x.bind Pointer.owner?)), ?_, rfl⟩
    have hset := Value.get?_set_self ho (x.bind Pointer.owner?)
    rcases content with w | w | _ <;> simp only [Content.value?, Option.some.injEq, reduceCtorEq] at hv
    · subst hv
      simp [peek, poke, modifyCell, hc, Content.modify, Content.value?, hset]
    · subst hv
      simp [peek, poke, modifyCell, hc, Content.modify, Content.value?, hset]

theorem isSome_peek_poke {h : Heap α} {p : Place} {old : Option Pointer} (hp : h.peek p = some old)
    (x : Option Pointer) {q : Place} (hq : (h.peek q).isSome) : ((h.poke p x).peek q).isSome := by
  by_cases hpq : p = q
  · obtain ⟨y, hy, -⟩ := peek_poke_self hp x
    rw [← hpq, hy]
    rfl
  · rwa [peek_poke_ne hpq]

/-- After what has no owner was put into a place, the place is vacant. -/
theorem vacant_poke {h : Heap α} {p : Place} {old : Option Pointer} (hp : h.peek p = some old)
    {x : Option Pointer} (hx : held x = []) : (h.poke p x).Vacant p := by
  obtain ⟨y, hy, hh⟩ := peek_poke_self hp x
  exact ⟨y, hy, hh.trans hx⟩

/-! ### Another content of a cell -/

/-- The heap with another content in a cell. -/
def setContent (c : CellId) (k : Content α) (h : Heap α) : Heap α :=
  h.modifyCell c fun cell => { cell with content := k }

theorem owners_setContent {h : Heap α} {c : CellId} {cell : Cell α} (hc : h.cells[c]? = some cell)
    (k : Content α) :
    (h.setContent c k).owners.countP P + cell.content.owners.countP P =
      h.owners.countP P + k.owners.countP P :=
  owners_modifyCell P hc _

theorem status_setContent {h : Heap α} {c : CellId} {cell : Cell α} (hc : h.cells[c]? = some cell)
    (k : Content α) (c' : CellId) :
    (h.setContent c k).status c' = if c' = c then some k.status else h.status c' :=
  status_modifyCell hc _ c'

@[simp] theorem count_setContent (h : Heap α) (c : CellId) (k : Content α) (c' : CellId) :
    (h.setContent c k).count c' = h.count c' := by
  apply count_modifyCell
  intro _
  rfl

@[simp] theorem isLent_setContent (h : Heap α) (c : CellId) (k : Content α) (i : Nat) :
    (h.setContent c k).isLent i = h.isLent i := rfl

theorem peek_setContent {h : Heap α} {c : CellId} {k : Content α} {p : Place}
    (hp : ∀ hop, p ≠ .inside c hop) : (h.setContent c k).peek p = h.peek p :=
  peek_modifyCell _ hp

theorem setLive_eq (h : Heap α) (c : CellId) (v : Value α) :
    h.setLive c v = h.setContent c (.live v) := rfl

theorem owners_setLive {h : Heap α} {c : CellId} {v : Value α} (hv : h.live? c = some v)
    (v' : Value α) :
    (h.setLive c v').owners.countP P + v.owners.countP P =
      h.owners.countP P + v'.owners.countP P := by
  obtain ⟨cell, hc, hcon⟩ := live?_eq_some.mp hv
  have := owners_setContent P hc (.live v')
  rwa [hcon] at this

theorem status_setLive {h : Heap α} {c : CellId} {v : Value α} (hv : h.live? c = some v)
    (v' : Value α) (c' : CellId) : (h.setLive c v').status c' = h.status c' := by
  obtain ⟨cell, hc, hcon⟩ := live?_eq_some.mp hv
  refine (status_setContent hc (.live v') c').trans ?_
  split
  · rename_i h'
    rw [h', status_of_live? hv]
    rfl
  · rfl

/-! ### Addresses -/

/-- The addresses of all cells, in the order in which they were made. -/
def addresses (h : Heap α) : List Nat :=
  h.cells.map (·.address)

theorem addresses_modifyCell (h : Heap α) (c : CellId) {f : Cell α → Cell α}
    (hf : ∀ cell, (f cell).address = cell.address) :
    (h.modifyCell c f).addresses = h.addresses := by
  apply List.ext_getElem? fun i => ?_
  simp only [addresses, modifyCell, List.getElem?_map, List.getElem?_modify, Option.map_eq_map,
    Option.map_map]
  congr 1
  funext cell
  by_cases hi : c = i <;> simp [hi, hf]

theorem addresses_setContent (h : Heap α) (c : CellId) (k : Content α) :
    (h.setContent c k).addresses = h.addresses :=
  addresses_modifyCell h c fun _ => rfl

theorem addresses_signOff (h : Heap α) (o : Owner) : (h.signOff o).2.addresses = h.addresses := by
  unfold signOff
  simp only
  split
  · rfl
  · exact addresses_modifyCell _ o.cell fun _ => rfl

/-! ### A new cell -/

theorem owners_allocate (h : Heap α) (near : Nat) (v : Value α) :
    (h.allocate near v).2.owners.countP P = h.owners.countP P + v.owners.countP P := by
  simp only [owners, allocate, List.flatMap_append, List.flatMap_cons, List.flatMap_nil,
    List.append_nil, List.countP_append, Content.owners_live]
  omega

theorem status_allocate (h : Heap α) (near : Nat) (v : Value α) (c : Nat) :
    (h.allocate near v).2.status c = if c = h.cells.length then some .live else h.status c := by
  simp only [status, allocate, List.getElem?_append]
  by_cases hlt : c < h.cells.length
  · simp [hlt, Nat.ne_of_lt hlt]
  · by_cases heq : c = h.cells.length
    · simp [heq]
    · have : c - h.cells.length ≠ 0 := by omega
      simp [hlt, heq, this]

theorem count_allocate (h : Heap α) (near : Nat) (v : Value α) (c : Nat) :
    ((h.allocate near v).2.count c).owners =
      (h.count c).owners + if c = h.cells.length then 1 else 0 := by
  simp only [count_eq, allocate, List.getElem?_append]
  by_cases hlt : c < h.cells.length
  · simp [hlt, Nat.ne_of_lt hlt]
  · by_cases heq : c = h.cells.length
    · simp [heq, Count.first]
    · have : c - h.cells.length ≠ 0 := by omega
      simp [hlt, heq, this]

/-- A place that was there is still there, with the same in it. -/
theorem peek_allocate {h : Heap α} {near : Nat} {v : Value α} : ∀ {p : Place} {x : Option Pointer},
    h.peek p = some x → (h.allocate near v).2.peek p = some x
  | .var _, _, hp => hp
  | .inside c hop, x, hp => by
    obtain ⟨cell, w, o, hc, hv, ho, rfl⟩ := peek_inside_eq_some hp
    have hlt := (List.getElem?_eq_some_iff.mp hc).1
    simp [peek, allocate, List.getElem?_append_left hlt, hc, hv, ho]

/-! ### The last owner -/

/-- The heap after the last owner of a cell signed off, whose value was `v`. -/
def condemn (o : Owner) (v : Value α) (h : Heap α) : Heap α :=
  ((h.signOff o).2.setContent o.cell (.dying v)).note (.destroyed o.cell v.data)

section condemn

variable {h : Heap α} {o : Owner} {v : Value α} (hn : (h.count o.cell).owners = 1)
include hn

theorem count_condemn (c : CellId) :
    ((h.condemn o v).count c).owners + (if c = o.cell then 1 else 0) = (h.count c).owners := by
  have := count_signOff hn c
  rwa [← count_setContent (h.signOff o).2 o.cell (.dying v) c] at this

theorem isLent_condemn (i : Nat) : (h.condemn o v).isLent i = h.isLent i := by
  change (h.signOff o).2.isLent i = h.isLent i
  rw [signOff_eq hn]
  rfl

/-- A place outside of the cell has the same in it. -/
theorem peek_condemn {p : Place} (hp : ∀ hop, p ≠ .inside o.cell hop) :
    (h.condemn o v).peek p = h.peek p :=
  (peek_setContent hp).trans ((samePointers_signOff hn).peek p)

variable (hv : h.live? o.cell = some v)
include hv

theorem owners_condemn : (h.condemn o v).owners.countP P = h.owners.countP P := by
  have hsame := samePointers_signOff hn
  obtain ⟨cell, hc, hcon⟩ := live?_eq_some.mp ((hsame.live? o.cell).trans hv)
  have := owners_setContent P hc (.dying v)
  rw [hcon, hsame.owners] at this
  exact Nat.add_right_cancel this

theorem status_condemn (c : CellId) :
    (h.condemn o v).status c = if c = o.cell then some .dying else h.status c := by
  have hsame := samePointers_signOff hn
  obtain ⟨cell, hc, -⟩ := live?_eq_some.mp ((hsame.live? o.cell).trans hv)
  rw [← hsame.status c]
  exact status_setContent hc (.dying v) c

end condemn

end Custody.Heap
