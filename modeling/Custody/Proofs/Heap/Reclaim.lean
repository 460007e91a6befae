/-
# What dropping pointers reclaims

When pointers in variables are dropped one after the other, and no destructor does
anything else, the cells that are left are those that can be reached: from a variable
that was not dropped, or from a cell on a cycle. A cell that is kept has an owner
besides the one that signs off, in a variable or in another cell that is kept, so it is
never destroyed; and whatever is live in the end is reached from a variable or a cycle.
As neither depends on the order of the drops, or on the order in which dying values
drop their pointers, nothing of the heap that is left does.

Key definitions: `Heap.Kept`, `Dropping`, `Remains`, `Heap.drops`.
Key theorems: `Remains.decay`, `Remains.live_iff`, `Moment.drops_reclaim`.
-/
import Custody.Proofs.Heap.Leaks
import Custody.Proofs.Heap.Loans
import Custody.Proofs.Heap.Unwind

namespace Custody.Heap

variable {α : Type} {n : Nat} {h g : Heap α} {hand : List Owner} {ts : List (Task α)}
  {is : List Nat} {m m' : Machine α} {c : CellId}

/-! ### What is kept -/

/-- Whether the cell is reached from one that a variable other than those targets, or from
one on a cycle. -/
def Kept (h : Heap α) (is : List Nat) (c : CellId) : Prop :=
  ∃ d, ((∃ i, i ∉ is ∧ h.Targets i d) ∨ OnCycle h.edges d) ∧ Reaches h.edges d c

/-- Such a variable targets a cell that is kept, or a value in another one does. -/
theorem Kept.cases (hk : h.Kept is c) :
    (∃ i, i ∉ is ∧ h.Targets i c) ∨ ∃ e ∈ h.edges, h.Kept is e.source ∧ e.target = c := by
  obtain ⟨d, hd, hreach⟩ := hk
  rcases hreach.cases_tail with rfl | ⟨e, he, hreach, ht⟩
  · rcases hd with hheld | hcycle
    · exact .inl hheld
    · obtain ⟨a, ⟨e, he, rfl, ht⟩, ha⟩ := hcycle.exists_owns
      exact .inr ⟨e, he, ⟨e.source, .inr ha, .refl _ _⟩, ht⟩
  · exact .inr ⟨e, he, ⟨d, hd, hreach⟩, ht⟩

theorem Kept.of_append {i : Nat} (hk : h.Kept (is ++ [i]) c) : h.Kept is c := by
  obtain ⟨d, ⟨j, hj, ht⟩ | hcycle, hreach⟩ := hk
  · exact ⟨d, .inl ⟨j, fun hm => hj (List.mem_append_left _ hm), ht⟩, hreach⟩
  · exact ⟨d, .inr hcycle, hreach⟩

theorem Kept.live (hs : Sound ⟨h, hand, ts⟩) (hk : h.Kept is c) : h.status c = some .live := by
  rcases hk.cases with ⟨i, -, q, o, hq, ho, rfl⟩ | ⟨e, he, -, rfl⟩
  · exact hs.live_of_pointer? hq ho
  · exact hs.status_target he

/-- Whether no live value has a destructor that does anything. -/
def Quiet (h : Heap α) : Prop :=
  ∀ c v, h.live? c = some v → v.script = []

theorem quiet_iff : h.Quiet ↔
    ∀ cell ∈ h.cells, cell.content.live?.all (fun v => v.script.isEmpty) = true := by
  constructor
  · intro hquiet cell hcell
    obtain ⟨c, hc⟩ := List.getElem?_of_mem hcell
    cases hv : cell.content.live? with
    | none => rfl
    | some v =>
      have hlive : h.live? c = some v := by simp [live?_eq_bind, hc, hv]
      simp [hquiet c v hlive]
  · intro hall c v hv
    obtain ⟨cell, hc, hcon⟩ := live?_eq_some.mp hv
    simpa [hcon, Content.live?] using hall cell (List.mem_of_getElem? hc)

instance : Decidable h.Quiet := decidable_of_iff _ quiet_iff.symm

/-! ### Drops, in all orders -/

/-- The machines that are met while the variables are dropped one after the other, in cascades
in which a dying value may drop any of its pointers next. -/
inductive Dropping (h : Heap α) : List Nat → Machine α → Prop
  | start : Dropping h [] ⟨h, []⟩
  | drop {is : List Nat} {g : Heap α} (i : Nat) : Dropping h is ⟨g, []⟩ →
      Dropping h (is ++ [i]) (.start g (.act (.drop (.var i))))
  | unwind {is : List Nat} {m m' : Machine α} : Dropping h is m → Unwind m m' → Dropping h is m'

/-- The variable, without its pointer if it is one of those. -/
def Variable.dropped (is : List Nat) (i : Nat) (v : Variable) : Variable :=
  if i ∈ is then { v with pointer := none } else v

theorem Variable.dropped_append_self (is : List Nat) (i : Nat) (v : Variable) :
    Variable.dropped (is ++ [i]) i v = { v with pointer := none } := by
  simp [Variable.dropped]

theorem Variable.dropped_append_of_ne (is : List Nat) {i j : Nat} (hne : j ≠ i) :
    Variable.dropped (is ++ [i]) j = Variable.dropped is j := by
  funext v
  simp [Variable.dropped, hne]

/-- Dropping what was dropped before changes nothing. -/
theorem Variable.dropped_pointer_none (is : List Nat) (i : Nat) (v : Variable) :
    { Variable.dropped is i v with pointer := none } = { v with pointer := none } := by
  unfold Variable.dropped
  split <;> rfl

/-- What holds while variables are dropped. -/
structure Remains (h : Heap α) (is : List Nat) (m : Machine α) : Prop where
  sound : Sound m.draft
  recorded : Recorded m.heap.destroyed m.heap.Dead
  unwinding : ∀ t ∈ m.tasks, t.isUnwinding = true
  vars : ∀ i : Nat, m.heap.vars[i]? = (h.vars[i]?).map (Variable.dropped is i)
  addresses : m.heap.cells.map (·.address) = h.cells.map (·.address)
  issued : m.heap.issued = h.issued
  live : ∀ c v, m.heap.live? c = some v → h.live? c = some v
  kept : ∀ c, h.Kept is c → m.heap.status c = some .live

theorem vars_signOff (h : Heap α) (o : Owner) : (h.signOff o).2.vars = h.vars := by
  unfold signOff
  simp only
  split <;> rfl

theorem issued_signOff (h : Heap α) (o : Owner) : (h.signOff o).2.issued = h.issued := by
  unfold signOff
  simp only
  split <;> rfl

theorem live?_setContent (h : Heap α) (c : CellId) (k : Content α) {c' : CellId} {w : Value α}
    (hk : k.live? = none) (hw : (h.setContent c k).live? c' = some w) : h.live? c' = some w := by
  rw [live?_eq_bind] at hw ⊢
  simp only [setContent, modifyCell, List.getElem?_modify] at hw
  by_cases hc : c = c'
  · cases hcell : h.cells[c']? <;> simp [hc, hcell, hk] at hw
  · simpa [hc] using hw

/-! ### Each step preserves it -/

theorem Moment.remains (hm : Moment n ⟨h, []⟩) : Remains h [] ⟨h, []⟩ where
  sound := hm.sound
  recorded := hm.recorded
  unwinding t ht := by simp at ht
  vars i := by
    cases h.vars[i]? <;> simp [Variable.dropped]
  addresses := rfl
  issued := rfl
  live _ _ hv := hv
  kept _ hk := hk.live hm.sound

/-- A variable that was there and not borrowed at first is not borrowed now. -/
theorem Remains.writable (hr : Remains h is m) {i : Nat} (hw : h.writable (.var i) = true) :
    m.heap.writable (.var i) = true := by
  have hvars := hr.vars i
  simp only [Heap.writable] at hw ⊢
  cases hv : h.vars[i]? with
  | none => simp [hvars, hv]
  | some v =>
    simp only [hv] at hw
    simp only [hvars, hv, Option.map_some, Variable.dropped]
    split <;> exact hw

theorem start_drop_of_none {i : Nat} (hv : g.vars[i]? = none) :
    Machine.start g (.act (.drop (.var i))) = ⟨g, []⟩ := by
  simp [Machine.start, operate, perform, performDrop, claim, place?, peek, hv, reply]

theorem start_drop_of_some {i : Nat} {v : Variable} (hw : g.writable (.var i) = true)
    (hv : g.vars[i]? = some v) :
    Machine.start g (.act (.drop (.var i))) = ⟨g.poke (.var i) none, discard v.pointer⟩ := by
  have hclaim : g.claim none (.var i) = .ok (.var i) := by
    rw [claim_var hw, hv]
    rfl
  simp [Machine.start, operate, perform, performDrop, hclaim, put, Place.vacated, pointer?, peek, hv]

theorem isUnwinding_discard {x : Option Pointer} {t : Task α} (ht : t ∈ discard x) :
    t.isUnwinding = true := by
  unfold discard at ht
  split at ht
  · simp at ht
  · rw [List.mem_singleton.mp ht]
    rfl

/-- Dropping another variable. -/
theorem Remains.drop (hr : Remains h is ⟨g, []⟩) {i : Nat} (hw : h.writable (.var i) = true) :
    Remains h (is ++ [i]) (.start g (.act (.drop (.var i)))) := by
  have hedits := operate_edits hr.sound (.act (.drop (.var i)))
  have hs : Sound (Machine.start g (.act (.drop (.var i)))).draft := hedits.sound hr.sound
  have hrec : Recorded (Machine.start g (.act (.drop (.var i)))).heap.destroyed
      (Machine.start g (.act (.drop (.var i)))).heap.Dead :=
    Edits.induct (Q := fun d => Recorded d.heap.destroyed d.heap.Dead)
      (fun _ he hq => hq.step he.deaths) hedits hr.sound hr.recorded
  have hvars : g.vars[i]? = (h.vars[i]?).map (Variable.dropped is i) := hr.vars i
  have hothers : ∀ j, j ≠ i → g.vars[j]? = (h.vars[j]?).map (Variable.dropped (is ++ [i]) j) := by
    intro j hne
    rw [Variable.dropped_append_of_ne is hne]
    exact hr.vars j
  cases hv : h.vars[i]? with
  | none =>
    -- there is no such variable
    simp only [hv, Option.map_none] at hvars
    rw [start_drop_of_none hvars]
    refine ⟨hr.sound, hr.recorded, hr.unwinding, fun j => ?_, hr.addresses, hr.issued, hr.live,
      fun c hk => hr.kept c hk.of_append⟩
    by_cases hij : j = i
    · simpa [hij, hv] using hvars
    · exact hothers j hij
  | some v =>
    simp only [hv, Option.map_some] at hvars
    rw [start_drop_of_some (hr.writable hw) hvars] at hs hrec ⊢
    refine ⟨hs, hrec, fun t ht => isUnwinding_discard ht, fun j => ?_, hr.addresses, hr.issued,
      hr.live, fun c hk => hr.kept c hk.of_append⟩
    by_cases hij : j = i
    · subst hij
      simp [poke, modifyVar, hvars, hv, Variable.dropped_append_self,
        Variable.dropped_pointer_none]
    · have hne : ¬ i = j := fun e => hij e.symm
      simpa [poke, modifyVar, hne] using hothers j hij

/-- A cell that is kept has an owner that is stored. -/
theorem Remains.exists_owner (hr : Remains h is m) (hk : h.Kept is c) :
    ∃ o ∈ m.heap.owners, o.cell = c := by
  rcases hk.cases with ⟨i, hi, q, o, hq, ho, rfl⟩ | ⟨e, he, hsrc, rfl⟩
  · -- the variable was not dropped
    have hvars := hr.vars i
    obtain ⟨v, hv, hvq⟩ := peek_var_eq_some (pointer?_eq_some hq)
    have hpeek : m.heap.peek (.var i) = some (some q) := by
      simp [peek, hvars, hv, Variable.dropped, hi, hvq]
    exact ⟨o, mem_owners_of_peek hpeek (by simp [held, ho]), rfl⟩
  · -- the value that has the pointer is as it was
    obtain ⟨v, hv⟩ := exists_live? (hr.kept _ hsrc)
    have hedge : e ∈ m.heap.edges :=
      (mem_edges_of_live? hv rfl).mpr ((mem_edges_of_live? (hr.live _ v hv) rfl).mp he)
    exact ⟨e.owner, mem_owners_of_mem_edges hedge, rfl⟩

/-- So the last owner of a cell that signs off is none of a cell that is kept. -/
theorem Remains.not_kept {o : Owner} (hr : Remains h is ⟨g, .release o :: ts⟩)
    (hn : (g.count o.cell).owners = 1) : ¬ h.Kept is o.cell := by
  intro hk
  obtain ⟨o', hmem, hcell⟩ := hr.exists_owner hk
  have hcount : (g.count o.cell).owners = g.owners.countP (Owner.isOf o.cell) +
      ([] : List Owner).countP (Owner.isOf o.cell) +
      ((Task.release o :: ts).flatMap Task.owners).countP (Owner.isOf o.cell) :=
    hr.sound.count_eq o.cell
  have hstored : 0 < g.owners.countP (Owner.isOf o.cell) :=
    List.countP_pos_iff.mpr ⟨o', hmem, by simp [Owner.isOf, hcell]⟩
  have htask : 0 < ((Task.release o :: ts).flatMap Task.owners).countP (Owner.isOf o.cell) :=
    List.countP_pos_iff.mpr ⟨o, by simp [Task.owners], by simp [Owner.isOf]⟩
  omega

/-- What is dying is not kept. -/
theorem Remains.status_setContent (hr : Remains h is ⟨g, ts⟩) {cell : Cell α} {v : Value α}
    (hc : g.cells[c]? = some cell) (hcon : cell.content = .dying v) {c' : CellId}
    (hk : h.Kept is c') (k : Content α) : (g.setContent c k).status c' = g.status c' := by
  have hne : c' ≠ c := by
    rintro rfl
    have hlive : g.status c' = some .live := hr.kept c' hk
    simp [status, hc, hcon] at hlive
  rw [Heap.status_setContent hc, if_neg hne]

/-- **A step of the cascade** leaves all that is kept alone. -/
theorem Remains.decay (hquiet : h.Quiet) (hr : Remains h is m)
    (hd : Decay m m') : Remains h is m' := by
  have hs := hd.sound hr.sound
  have hrec := hr.recorded.step hd.deaths
  cases hd with
  | @signOff g ts o k hk =>
    have hsame := samePointers_signOff hk
    refine ⟨hs, hrec, fun t ht => hr.unwinding t (List.mem_cons_of_mem _ ht), fun i => ?_,
      (addresses_signOff g o).trans hr.addresses, (issued_signOff g o).trans hr.issued,
      fun c v hv => hr.live c v ?_, fun c hc => ?_⟩
    · rw [vars_signOff]
      exact hr.vars i
    · rwa [hsame.live?] at hv
    · rw [hsame.status]
      exact hr.kept c hc
  | @destroy g ts o v hn hv =>
    have hlive : ∀ c w, (g.condemn o v).live? c = some w → g.live? c = some w := by
      intro c w hw
      rw [← (samePointers_signOff hn).live?]
      exact live?_setContent _ _ _ rfl hw
    refine ⟨hs, hrec, fun t ht => ?_, fun i => ?_,
      (addresses_setContent _ _ _).trans ((addresses_signOff g o).trans hr.addresses),
      (issued_signOff g o).trans hr.issued, fun c w hw => hr.live c w (hlive c w hw), fun c hc => ?_⟩
    · rcases List.mem_cons.mp ht with rfl | ht
      · rw [hquiet _ v (hr.live _ v hv)]
        rfl
      · rcases List.mem_cons.mp ht with rfl | ht
        · rfl
        · exact hr.unwinding t (List.mem_cons_of_mem _ ht)
    · exact (congrArg (·[i]?) (vars_signOff g o)).trans (hr.vars i)
    · -- it is not the cell that is destroyed
      have hne : c ≠ o.cell := fun e => hr.not_kept hn (e ▸ hc)
      rw [status_condemn hn hv, if_neg hne]
      exact hr.kept c hc
  | finish =>
    exact ⟨hs, hrec, fun t ht => hr.unwinding t (List.mem_cons_of_mem _ ht), hr.vars, hr.addresses,
      hr.issued, hr.live, hr.kept⟩
  | @strip g ts c cell v hop o hc hcon ho =>
    refine ⟨hs, hrec, fun t ht => ?_, hr.vars, (addresses_setContent g c _).trans hr.addresses,
      hr.issued, fun c' w hw => hr.live c' w (live?_setContent _ _ _ rfl hw), fun c' hk => ?_⟩
    · rcases List.mem_append.mp ht with ht | ht
      · exact isUnwinding_discard ht
      · exact hr.unwinding t ht
    · rw [hr.status_setContent hc hcon hk]
      exact hr.kept c' hk
  | @free g ts c cell v hc hcon hp =>
    refine ⟨hs, hrec, fun t ht => hr.unwinding t (List.mem_cons_of_mem _ ht), hr.vars,
      (addresses_setContent g c _).trans hr.addresses, hr.issued,
      fun c' w hw => hr.live c' w (live?_setContent _ _ _ rfl hw), fun c' hk => ?_⟩
    exact (hr.status_setContent hc hcon hk .freed).trans (hr.kept c' hk)

theorem Dropping.remains (hm : Moment n ⟨h, []⟩)
    (hquiet : h.Quiet) (hd : Dropping h is m) : Remains h is m := by
  induction hd with
  | start => exact hm.remains
  | drop i _ ih => exact ih.drop (hm.writable (.var i))
  | unwind _ hu ih => exact ih.decay hquiet (hu.decay ih.sound ih.unwinding)

/-! ### When all is dropped -/

section rest

variable (hr : Remains h is ⟨g, []⟩)
include hr

/-- When nothing is left to do a cell is live or freed, if there is one. -/
theorem Remains.status_ne_dying (c : CellId) : g.status c ≠ some .dying := by
  intro hdying
  have : Task.dismantle c ∈ ([] : List (Task α)) := (hr.sound.dying c).mp hdying
  simp at this

theorem Remains.edges_subset : g.edges ⊆ h.edges := by
  intro e he
  rcases status_source he with hlive | hdying
  · obtain ⟨v, hv⟩ := exists_live? hlive
    exact (mem_edges_of_live? (hr.live _ v hv) rfl).mpr ((mem_edges_of_live? hv rfl).mp he)
  · exact absurd hdying (hr.status_ne_dying _)

/-- A variable that still has a pointer was not dropped. -/
theorem Remains.pointer? (i : Nat) :
    g.pointer? (.var i) = if i ∈ is then none else h.pointer? (.var i) := by
  have hvars : g.vars[i]? = (h.vars[i]?).map (Variable.dropped is i) := hr.vars i
  simp only [Heap.pointer?, peek, hvars]
  by_cases hi : i ∈ is
  · cases h.vars[i]? <;> simp [Variable.dropped, hi]
  · cases h.vars[i]? <;> simp [Variable.dropped, hi]

/-- **The cells that are left are those that are kept.** -/
theorem Remains.live_iff (c : CellId) : g.status c = some .live ↔ h.Kept is c := by
  constructor
  · intro hc
    obtain ⟨d, -, hreach, ⟨i, q, o, hq, ho, hod⟩ | hcycle⟩ := Sound.exists_origin hr.sound hc
    · rw [hr.pointer? i] at hq
      split at hq
      · simp at hq
      · rename_i hi
        exact ⟨d, .inl ⟨i, hi, q, o, hq, ho, hod⟩, hreach.mono hr.edges_subset⟩
    · exact ⟨d, .inr (hcycle.mono hr.edges_subset), hreach.mono hr.edges_subset⟩
  · exact hr.kept c

theorem Remains.live?_eq (hc : g.status c = some .live) : g.live? c = h.live? c := by
  obtain ⟨v, hv⟩ := exists_live? hc
  rw [hv, hr.live c v hv]

/-- There are as many cells as before. -/
theorem Remains.length_cells : g.cells.length = h.cells.length := by
  have := congrArg List.length hr.addresses
  simpa using this

theorem Remains.status_eq_none_iff (c : CellId) : g.status c = none ↔ h.status c = none := by
  rw [status_eq_none, status_eq_none, hr.length_cells]

/-- A cell that is not kept is freed, and the log tells. -/
theorem Remains.freed (hc : h.status c = some .live) (hk : ¬ h.Kept is c) :
    g.status c = some .freed ∧ c ∈ g.destroyed := by
  have hfreed : g.status c = some .freed := by
    have hnone := (hr.status_eq_none_iff c).not.mpr (by simp [hc])
    have hlive := (hr.live_iff c).not.mpr hk
    have hdying := hr.status_ne_dying c
    rcases hs : g.status c with _ | _ | _ | _ <;> simp_all
  exact ⟨hfreed, (hr.recorded.mem c).mpr (.inr hfreed)⟩

end rest

/-! ### Other orders -/

section orders

variable {is' : List Nat} {g' : Heap α}

theorem kept_congr (his : ∀ i, i ∈ is' ↔ i ∈ is) (c : CellId) : h.Kept is' c ↔ h.Kept is c := by
  simp only [Kept, his]

theorem content_of_live? {v : Value α} (hv : h.live? c = some v) :
    h.cells[c]?.map (·.content) = some (.live v) := by
  obtain ⟨cell, hc, hcon⟩ := live?_eq_some.mp hv
  simp [hc, hcon]

theorem content_of_freed (hs : h.status c = some .freed) :
    h.cells[c]?.map (·.content) = some .freed := by
  obtain ⟨⟨_, _, content⟩, hc, hst⟩ := Option.map_eq_some_iff.mp hs
  cases content with
  | live v => simp at hst
  | dying v => simp at hst
  | freed => simp [hc]

theorem content_of_none (hs : h.status c = none) : h.cells[c]?.map (·.content) = none := by
  simpa [status] using hs

variable (hr : Remains h is ⟨g, []⟩) (hr' : Remains h is' ⟨g', []⟩) (his : ∀ i, i ∈ is' ↔ i ∈ is)
include hr hr' his

/-- What has become of each cell does not depend on the order. -/
theorem Remains.status_eq (c : CellId) : g'.status c = g.status c := by
  have hlive : g'.status c = some .live ↔ g.status c = some .live := by
    rw [hr'.live_iff, hr.live_iff, kept_congr his]
  have hnone : g'.status c = none ↔ g.status c = none := by
    rw [hr'.status_eq_none_iff, hr.status_eq_none_iff]
  have hdying := hr.status_ne_dying c
  have hdying' := hr'.status_ne_dying c
  rcases hs : g.status c with _ | _ | _ | _ <;> rcases hs' : g'.status c with _ | _ | _ | _ <;>
    simp_all

theorem Remains.vars_eq : g'.vars = g.vars := by
  apply List.ext_getElem? fun i => ?_
  have hv : g.vars[i]? = (h.vars[i]?).map (Variable.dropped is i) := hr.vars i
  have hv' : g'.vars[i]? = (h.vars[i]?).map (Variable.dropped is' i) := hr'.vars i
  have hdropped : Variable.dropped is' i = Variable.dropped is i := by
    funext v
    simp only [Variable.dropped, his]
  rw [hv, hv', hdropped]

/-- So the same pointers are left. -/
theorem Remains.samePointers : SamePointers g g' where
  vars := by rw [Remains.vars_eq hr hr' his]
  contents := by
    apply List.ext_getElem? fun c => ?_
    rw [List.getElem?_map, List.getElem?_map]
    have hsame := Remains.status_eq hr hr' his c
    rcases hs : g.status c with _ | _ | _ | _
    · rw [content_of_none hs, content_of_none (hsame.trans hs)]
    · obtain ⟨v, hv⟩ := exists_live? hs
      have hv' : g'.live? c = some v := by
        rw [hr'.live?_eq (hsame.trans hs), ← hr.live?_eq hs, hv]
      rw [content_of_live? hv, content_of_live? hv']
    · exact absurd hs (hr.status_ne_dying c)
    · rw [content_of_freed hs, content_of_freed (hsame.trans hs)]

/-- With the same pointers the counts are the same too. -/
theorem Remains.count_eq (c : CellId) : g'.count c = g.count c := by
  have hcount := Sound.count_eq_owners hr.sound c
  have hcount' := Sound.count_eq_owners hr'.sound c
  rw [(Remains.samePointers hr hr' his).owners, ← hcount] at hcount'
  cases hg : g.count c
  cases hg' : g'.count c
  simpa [hg, hg'] using hcount'

theorem Remains.cells_eq : g'.cells = g.cells := by
  apply List.ext_getElem? fun c => ?_
  have haddress : g'.cells[c]?.map (·.address) = g.cells[c]?.map (·.address) := by
    have := congrArg (·[c]?) (hr'.addresses.trans hr.addresses.symm)
    simpa only [List.getElem?_map] using this
  have hcontent := (Remains.samePointers hr hr' his).content c
  have hcount := Remains.count_eq hr hr' his c
  rw [Heap.count_eq, Heap.count_eq] at hcount
  cases hc : g.cells[c]? with
  | none => simpa [hc] using haddress
  | some cell =>
    cases hc' : g'.cells[c]? with
    | none => simp [hc, hc'] at haddress
    | some cell' =>
      obtain ⟨_, _, _⟩ := cell
      obtain ⟨_, _, _⟩ := cell'
      simp only [hc, hc', Option.map_some, Option.some.injEq, Option.getD_some]
        at haddress hcontent hcount
      rw [haddress, hcontent, hcount]

/-- **The heap that is left does not depend on the order**, but for the log. -/
theorem Remains.heap_eq : { g' with log := [] } = { g with log := [] } := by
  have hissued : g'.issued = g.issued := hr'.issued.trans hr.issued.symm
  rw [Remains.cells_eq hr hr' his, Remains.vars_eq hr hr' his, hissued]

/-- The same cells are destroyed, in another order. -/
theorem Remains.destroyed_perm : g'.destroyed.Perm g.destroyed := by
  refine (List.perm_ext_iff_of_nodup hr'.recorded.nodup hr.recorded.nodup).mpr fun c => ?_
  rw [hr'.recorded.mem, hr.recorded.mem]
  exact dead_congr (fun c => Remains.status_eq hr hr' his c) c

end orders

/-! ### What is reclaimed -/

/-- The heap after the variables were dropped one after the other. -/
def drops (h : Heap α) (is : List Nat) : Heap α :=
  is.foldl (fun h i => (h.exec (.act (.drop (.var i)))).1) h

theorem Dropping.step (hd : Dropping h is m) : Dropping h is m.step := by
  by_cases ht : m.tasks = []
  · have : m.step = m := by simp [Machine.step, ht]
    rwa [this]
  · exact .unwind hd (.step ht)

/-- The order of the machine is one of those. -/
theorem dropping_drops (h : Heap α) (is : List Nat) : Dropping h is ⟨h.drops is, []⟩ := by
  induction is using List.reverseRecOn with
  | nil => exact .start
  | append_singleton is i ih =>
    have hfold : h.drops (is ++ [i]) = ((h.drops is).exec (.act (.drop (.var i)))).1 := by
      simp [drops]
    rw [hfold, exec_eq]
    exact settle_induct (R := Dropping h (is ++ [i])) Dropping.step (.drop i ih)

/-- **What dropping pointers reclaims.** If no destructor does anything but drop the value's
pointers, variables are dropped one after the other, and dying values drop their pointers in
any order: the cascades end, and the cells that are left are those that are reached from a
variable that was not dropped, or from a cell on a cycle. Each other cell that was live is
freed, and the log names it once. A cell that is left has its value as it was, and its count
tells how many owners are left. And the heap that is left, but for the log, is the same for
every order of the drops and in the cascades, and the same values are destroyed. -/
theorem Moment.drops_reclaim (hm : Moment n ⟨h, []⟩)
    (hquiet : h.Quiet) (is : List Nat) :
    Dropping h is ⟨h.drops is, []⟩ ∧
    (∀ m, Dropping h is m → m.tasks ≠ [] →
      (∃ m', Unwind m m') ∧ ∀ m', Unwind m m' → m'.weight < m.weight) ∧
    ∀ g, Dropping h is ⟨g, []⟩ →
      (∀ i, g.pointer? (.var i) = if i ∈ is then none else h.pointer? (.var i)) ∧
      (∀ c, h.status c = some .live →
        (g.status c = some .live ↔
          ∃ d, ((∃ i, i ∉ is ∧ h.Targets i d) ∨ OnCycle h.edges d) ∧ Reaches h.edges d c)) ∧
      g.destroyed.Nodup ∧
      (∀ c, h.status c = some .live → g.status c ≠ some .live →
        g.status c = some .freed ∧ c ∈ g.destroyed ∧ c ∉ h.destroyed) ∧
      (∀ c, g.status c = some .live →
        g.live? c = h.live? c ∧ (g.count c).owners = g.owners.countP (Owner.isOf c)) ∧
      ∀ is' g', is'.Perm is → Dropping h is' ⟨g', []⟩ →
        { g' with log := [] } = { g with log := [] } ∧ g'.destroyed.Perm g.destroyed := by
  refine ⟨dropping_drops h is, fun m hd ht => ⟨⟨_, .step ht⟩, fun m' hu => hu.weight_lt⟩,
    fun g hd => ?_⟩
  have hr := hd.remains hm hquiet
  refine ⟨hr.pointer?, fun c _ => hr.live_iff c, hr.recorded.nodup, fun c hc hdead => ?_,
    fun c hc => ⟨hr.live?_eq hc, Sound.count_eq_owners hr.sound c⟩, fun is' g' hperm hd' => ?_⟩
  · obtain ⟨hfreed, hmem⟩ := hr.freed hc (fun hk => hdead (hr.kept c hk))
    refine ⟨hfreed, hmem, fun hold => ?_⟩
    have : h.Dead c := (hm.recorded.mem c).mp hold
    simp [Dead, hc] at this
  · have hr' := hd'.remains hm hquiet
    have his : ∀ i, i ∈ is' ↔ i ∈ is := fun i => hperm.mem_iff
    exact ⟨Remains.heap_eq hr hr' his, Remains.destroyed_perm hr hr' his⟩

/-! ### A loop with a tail

The value of cell 1 has a pointer to cell 0, and its link leads to itself. A variable
holds each of them, and another holds cell 2. -/

/-- Three cells, each held by a variable; one is on a cycle, and one hangs on it. -/
def tangled : Heap Nat :=
  ((((((Heap.empty 3).operate (.act (.make (.var 0) .nullable 5 [] [] [] 1))).heap.operate
    (.act (.clone (.var 0) [] (.var 1)))).heap.operate
    (.act (.make (.var 2) .nullable 6 [] [some (.var 1)] [none] 1))).heap.operate
    (.act (.clone (.var 2) [] (.var 1)))).heap.operate (.relink (.var 2) [] 0 (.var 1))).heap.operate
    (.act (.make (.var 1) .nullable 7 [] [] [] 1)) |>.heap

theorem tangled_moment : Moment 3 (⟨tangled, []⟩ : Machine Nat) :=
  .operate _ (.operate _ (.operate _ (.operate _ (.operate _ (.operate _ .empty)))))

theorem tangled_reclaimed : tangled.Quiet ∧
    (tangled.drops [1, 0, 2]).status 0 = some .live ∧
    (tangled.drops [1, 0, 2]).status 1 = some .live ∧
    (tangled.drops [1, 0, 2]).status 2 = some .freed ∧
    2 ∈ (tangled.drops [1, 0, 2]).destroyed ∧
    { tangled.drops [2, 0, 1] with log := [] } = { tangled.drops [1, 0, 2] with log := [] } := by
  have hquiet : tangled.Quiet := by decide
  obtain ⟨hdrops, -, hall⟩ := Moment.drops_reclaim tangled_moment hquiet [1, 0, 2]
  obtain ⟨-, -, -, hfreed, -, horders⟩ := hall _ hdrops
  refine ⟨hquiet, by decide, by decide, by decide, (hfreed 2 (by decide) (by decide)).2.1, ?_⟩
  exact (horders [2, 0, 1] _ (by decide) (dropping_drops _ _)).1

end Custody.Heap
