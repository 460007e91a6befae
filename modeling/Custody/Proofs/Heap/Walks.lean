/-
# Walks along a chain

Whoever walks a chain makes his pointer to a cell one to the next. The next cell gets its new owner
before the old one signs off, so at most the cell that is left is destroyed, and that only if
the walker was its only owner. After a cell that stays alive, each has the owner before it besides the
one that leaves it; so a walk to the end destroys the cells that dropping the pointer destroys.

Key definitions: `stroll`, `Strolled`, `Ahead`.
Key theorems: `Moment.stroll`, `Moment.walk_destroyed`, `Moment.chain_release`.
-/
import Mathlib.Data.List.TakeWhile
import Custody.Proofs.Heap.Chains
import Custody.Proofs.Heap.Isolation

namespace Custody.Heap

variable {α : Type} {h g h' : Heap α} {n i : Nat} {c : CellId} {cs : List CellId} {o : Owner}
  {next : Option Owner} {hop : Hop} {v : Value α} {q : Pointer}

/-! ### One step -/

/-- The pointer in the variable becomes a copy of the one in that field of its target. -/
def stroll (i : Nat) (hop : Hop) (h : Heap α) : Heap α :=
  (h.exec (.act (.clone (.var i) [hop] (.var i)))).1

/-- What one step of a walk does, from the cell to the first of the others. -/
structure Strolled (h g : Heap α) (i : Nat) (hop : Hop) (c : CellId) (cs : List CellId) : Prop where
  /-- The pointer is now one to the next cell, or has no target if there is none. -/
  pointer : ∃ next, g.pointer? (.var i) = some (.nullable next) ∧ g.Linked hop next cs
  vars : ∀ j, j ≠ i → g.vars[j]? = h.vars[j]?
  /-- A cell that had no other owner is destroyed, and all others are as they were. -/
  lone : h.lone c = true → g.destroyed = c :: h.destroyed ∧ g.status c = some .freed ∧
    ∀ c', c' ≠ c → g.cells[c']? = h.cells[c']?
  /-- A cell that had another owner loses one, and the next one gets one. -/
  shared : h.lone c = false → g.destroyed = h.destroyed ∧
    (∃ cell k, h.cells[c]? = some cell ∧ cell.count.owners = k + 2 ∧
      g.cells[c]? = some { cell with count := ⟨k + 1⟩ }) ∧
    (∀ d, cs.head? = some d → ∃ cell, h.cells[d]? = some cell ∧
      g.cells[d]? = some { cell with count := ⟨cell.count.owners + 1⟩ }) ∧
    ∀ c', c' ≠ c → cs.head? ≠ some c' → g.cells[c']? = h.cells[c']?

/-- A heap in which the next cell has an owner more, which is the pointer in the variable. -/
structure Ahead (h h' : Heap α) (i : Nat) (hop : Hop) (cs : List CellId) : Prop where
  pointer : ∃ next, h'.pointer? (.var i) = some (.nullable next) ∧ cs.head? = next.map Owner.cell
  vars : ∀ j, j ≠ i → h'.vars[j]? = h.vars[j]?
  destroyed : h'.destroyed = h.destroyed
  live : ∀ c, h'.live? c = h.live? c
  next : ∀ d, cs.head? = some d → ∃ cell, h.cells[d]? = some cell ∧
    h'.cells[d]? = some { cell with count := ⟨cell.count.owners + 1⟩ }
  others : ∀ c, cs.head? ≠ some c → h'.cells[c]? = h.cells[c]?

theorem Moment.claim_pointer (hm : Moment n ⟨h, []⟩) (hq : h.pointer? (.var i) = some q) :
    h.claim none (.var i) = .ok (.var i) := by
  obtain ⟨w, hw, -⟩ := peek_var_eq_some (pointer?_eq_some hq)
  rw [claim_var (hm.writable (.var i)), hw]
  rfl

/-- Whoever walks finds the pointer to the next cell in the value of the one that he is at. -/
theorem Moment.find_next (hm : Moment n ⟨h, []⟩) (hq : h.pointer? (.var i) = some q)
    (ho : q.owner? = some o) (hv : h.live? o.cell = some v) (hn : v.get? hop = some next) :
    h.pointer? (.inside o.cell hop) = some (.nullable next) ∧
      h.find none (.var i) [hop] = .ok (.var i, .inside o.cell hop, .nullable next) := by
  have hthrough : h.through false (.var i) = .ok (o.cell, v) := by
    simp only [through, pointer?_eq_some hq, ho, Bool.false_and, Bool.false_eq_true, if_false, hv]
  have hinside : h.pointer? (.inside o.cell hop) = some (.nullable next) := by
    obtain ⟨cell, hcell, hcon⟩ := live?_eq_some.mp hv
    simp [pointer?, peek, hcell, hcon, Content.value?, hn]
  refine ⟨hinside, ?_⟩
  simp only [find, view_of_claim (hm.claim_pointer hq), walk, hthrough, hn,
    pointer?_eq_some hinside, hinside]

theorem vars_of_poke_var (hw : g.vars[i]? ≠ none) (x : Option Pointer) :
    (g.poke (.var i) x).pointer? (.var i) = x ∧ ∀ j, j ≠ i → (g.poke (.var i) x).vars[j]? = g.vars[j]? := by
  obtain ⟨w, hw⟩ := Option.ne_none_iff_exists'.mp hw
  refine ⟨by simp [pointer?, peek, poke, modifyVar, hw], fun j hj => ?_⟩
  simp [poke, modifyVar, Ne.symm hj]

/-- The copy of a pointer to the next cell is an owner more of it, and is put into the variable. -/
theorem ahead_duplicate (hw : h.vars[i]? ≠ none) (hhead : cs.head? = next.map Owner.cell)
    (hlive : ∀ o, next = some o → h.status o.cell = some .live) :
    Ahead h ((h.duplicate (.nullable next)).2.poke (.var i) (some (h.duplicate (.nullable next)).1)) i hop cs := by
  cases next with
  | none =>
    obtain ⟨hnew, hothers⟩ := vars_of_poke_var hw (some (.nullable none))
    exact ⟨⟨none, hnew, hhead⟩, hothers, rfl, fun _ => rfl, fun d hd => by simp [hhead] at hd, fun _ _ => rfl⟩
  | some o =>
    have hacquire : (h.acquire o.cell).2.vars[i]? ≠ none := hw
    obtain ⟨hnew, hothers⟩ := vars_of_poke_var hacquire (some (.nullable (some (h.acquire o.cell).1)))
    refine ⟨⟨_, hnew, hhead⟩, hothers, rfl, fun c => (samePointers_acquire h o.cell).live? c, ?_, ?_⟩
    · intro d hd
      obtain rfl : o.cell = d := by simpa [hhead] using hd
      obtain ⟨v, hv⟩ := exists_live? (hlive o rfl)
      obtain ⟨cell, hcell, -⟩ := live?_eq_some.mp hv
      refine ⟨cell, hcell, ?_⟩
      simp [duplicate, Pointer.owner?, acquire, poke, modifyVar, modifyCell, hcell, Count.acquire]
    · intro c hc
      have hne : ¬ o.cell = c := fun e => hc (by simp [hhead, e])
      simp [duplicate, Pointer.owner?, acquire, poke, modifyVar, modifyCell, hne]

/-- The copy is there before the old pointer signs off. -/
theorem Moment.start_stroll (hm : Moment n ⟨h, []⟩) (hq : h.pointer? (.var i) = some q)
    (ho : q.owner? = some o) (hl : h.Linked hop (some o) (c :: cs)) :
    ∃ h', Machine.start h (.act (.clone (.var i) [hop] (.var i))) = ⟨h', [.release o]⟩ ∧
      Ahead h h' i hop cs := by
  obtain _ | ⟨hv, -, hn, -, hrest⟩ := hl
  rename_i v next
  obtain ⟨hinside, hfind⟩ := hm.find_next hq ho hv hn
  have hold : (h.duplicate (.nullable next)).2.pointer? (.var i) = some q := by
    rw [pointer?, (samePointers_duplicate h _).peek]
    exact hq
  obtain ⟨w, hw, -⟩ := peek_var_eq_some (pointer?_eq_some hq)
  refine ⟨_, ?_, ahead_duplicate (by simp [hw]) hrest.head? fun o' ho' => ?_⟩
  · simp only [Machine.start, Heap.operate, perform, performClone, hfind, hm.claim_pointer hq, Place.admits,
      if_true, put, hold, discard_of_owner? ho]
  · subst ho'
    exact hm.sound.live_of_pointer? hinside rfl

/-- The next cell has another owner as long as the old pointer has not signed off. -/
theorem Ahead.shared (ha : Ahead h h' i hop cs) (hpos : ∀ d, cs.head? = some d → 0 < (h.count d).owners)
    {d : CellId} (hd : cs.head? = some d) : h'.lone d = false := by
  obtain ⟨cell, hold, hnew⟩ := ha.next d hd
  have hone := hpos d hd
  rw [count_of_getElem? hold] at hone
  apply lone_eq_false
  rw [count_of_getElem? hnew]
  show cell.count.owners + 1 ≠ 1
  omega

/-- So what signs off goes no further than to the next cell. -/
theorem Ahead.stops (ha : Ahead h h' i hop cs) (hpos : ∀ d, cs.head? = some d → 0 < (h.count d).owners) :
    cs.takeWhile h'.lone = [] ∧ cs.find? (fun c => !h'.lone c) = cs.head? := by
  cases cs with
  | nil => exact ⟨rfl, rfl⟩
  | cons d cs => simp [ha.shared hpos rfl]

/-- A cell that had no other owner is destroyed, and the next one loses the owner before it. -/
theorem Ahead.lone_step (ha : Ahead h h' i hop cs) (hpos : ∀ d, cs.head? = some d → 0 < (h.count d).owners)
    (hu : Unlinked h' g (c :: cs)) (hlone : h'.lone c = true) :
    g.destroyed = c :: h.destroyed ∧ g.status c = some .freed ∧
      ∀ c', c' ≠ c → g.cells[c']? = h.cells[c']? := by
  obtain ⟨hrest, hfind⟩ := ha.stops hpos
  have htake : (c :: cs).takeWhile h'.lone = [c] := by
    rw [List.takeWhile_cons, hlone, if_pos rfl, hrest]
  have hstop : (c :: cs).find? (fun c => !h'.lone c) = cs.head? := by
    rw [List.find?_cons_of_neg (by simp [hlone]), hfind]
  refine ⟨?_, hu.freed c (by simp [htake]), fun c' hc' => ?_⟩
  · rw [hu.destroyed, htake, ha.destroyed]
    rfl
  · by_cases hd : cs.head? = some c'
    · obtain ⟨cell', k, hcell', hk, hnew⟩ := hu.stop c' (hstop.trans hd)
      obtain ⟨cell, hcell, hraised⟩ := ha.next c' hd
      obtain rfl := Option.some.inj (hraised.symm.trans hcell')
      have hcount : cell.count.owners = k + 1 := by simpa using hk
      rw [hnew, hcell, ← hcount]
    · exact (hu.others c' (by simp [htake, hc']) (by rwa [hstop])).trans (ha.others c' hd)

/-- A cell that had another owner loses one, and the next one keeps the one that it got. -/
theorem Ahead.shared_step (ha : Ahead h h' i hop cs) (hne : cs.head? ≠ some c) (hu : Unlinked h' g (c :: cs))
    (hlone : h'.lone c = false) : g.destroyed = h.destroyed ∧
    (∃ cell k, h.cells[c]? = some cell ∧ cell.count.owners = k + 2 ∧
      g.cells[c]? = some { cell with count := ⟨k + 1⟩ }) ∧
    (∀ d, cs.head? = some d → ∃ cell, h.cells[d]? = some cell ∧
      g.cells[d]? = some { cell with count := ⟨cell.count.owners + 1⟩ }) ∧
    ∀ c', c' ≠ c → cs.head? ≠ some c' → g.cells[c']? = h.cells[c']? := by
  have htake : (c :: cs).takeWhile h'.lone = [] := by simp [hlone]
  have hstop : (c :: cs).find? (fun c => !h'.lone c) = some c := by
    rw [List.find?_cons_of_pos (by simp [hlone])]
  have hothers : ∀ c', c' ≠ c → g.cells[c']? = h'.cells[c']? := by
    intro c' hc'
    refine hu.others c' (by simp [htake]) fun e => hc' ?_
    exact (Option.some.inj (hstop.symm.trans e)).symm
  refine ⟨?_, ?_, fun d hd => ?_, fun c' hc' hd => (hothers c' hc').trans (ha.others c' hd)⟩
  · rw [hu.destroyed, htake, ha.destroyed]
    rfl
  · obtain ⟨cell, k, hcell, hk, hnew⟩ := hu.stop c hstop
    exact ⟨cell, k, (ha.others c hne).symm.trans hcell, hk, hnew⟩
  · obtain ⟨cell, hcell, hraised⟩ := ha.next d hd
    have hdc : d ≠ c := fun e => hne (e ▸ hd)
    exact ⟨cell, hcell, (hothers d hdc).trans hraised⟩

/-- The cells after the one that is left keep their values. -/
theorem Ahead.live?_rest (ha : Ahead h h' i hop cs) (hpos : ∀ d, cs.head? = some d → 0 < (h.count d).owners)
    (hmem : c ∉ cs) (hu : Unlinked h' g (c :: cs)) {d : CellId} (hd : d ∈ cs) :
    g.live? d = h'.live? d := by
  refine hu.live? fun htaken => ?_
  rw [List.takeWhile_cons, (ha.stops hpos).1] at htaken
  split at htaken
  · exact hmem (List.mem_singleton.mp htaken ▸ hd)
  · exact List.not_mem_nil htaken

/-- **One step of a walk.** The next cell gets its new owner before the old one signs off, so
that goes no further than the cell that is left. -/
theorem Moment.stroll (hm : Moment n ⟨h, []⟩) (hq : h.pointer? (.var i) = some q)
    (hl : h.Linked hop q.owner? (c :: cs)) : Strolled h (h.stroll i hop) i hop c cs := by
  obtain ⟨o, ho, rfl⟩ : ∃ o, q.owner? = some o ∧ o.cell = c := by
    have hhead : some c = q.owner?.map Owner.cell := hl.head?
    simpa using hhead.symm
  rw [ho] at hl
  have hmem : o.cell ∉ cs := (List.nodup_cons.mp hl.nodup).1
  have hne : cs.head? ≠ some o.cell := fun e => hmem (List.mem_of_mem_head? e)
  have hpos : ∀ d, cs.head? = some d → 0 < (h.count d).owners := fun d hd =>
    (hm.sound.alive d).mpr (hl.live (List.mem_cons_of_mem _ (List.mem_of_mem_head? hd)))
  obtain ⟨h', hstart, ha⟩ := hm.start_stroll hq ho hl
  have hl' : h'.Linked hop (some o) (o.cell :: cs) := hl.congr fun c _ => ha.live c
  have hsound : Sound ⟨h', [], [.release o]⟩ := by
    have hs := (operate_edits hm.sound (.act (.clone (.var i) [hop] (.var i)))).sound hm.sound
    obtain ⟨hheap, htodo⟩ := Machine.mk.inj hstart
    rwa [hheap, htodo] at hs
  obtain ⟨g, hcome, hu⟩ := release_linked hsound hl'
  have hg : h.stroll i hop = g := by
    refine Machine.ComesTo.exec_eq ?_
    rw [hstart]
    exact hcome
  have hlone : h'.lone o.cell = h.lone o.cell := lone_congr (ha.others o.cell hne)
  obtain ⟨next, hnew, hnext⟩ := ha.pointer
  have hvars : g.pointer? (.var i) = h'.pointer? (.var i) := by simp only [pointer?, peek, hu.vars]
  rw [hg]
  refine ⟨⟨next, hvars.trans hnew, ?_⟩, fun j hj => by rw [hu.vars, ha.vars j hj],
    fun hc => ha.lone_step hpos hu.toUnlinked (hlone.trans hc),
    fun hc => ha.shared_step hne hu.toUnlinked (hlone.trans hc)⟩
  -- the rest of the chain is as it was
  obtain _ | ⟨-, -, -, -, htail⟩ := hl'
  exact (htail.of_cell (htail.head?.symm.trans hnext)).congr fun d hd =>
    ha.live?_rest hpos hmem hu.toUnlinked hd

theorem Moment.after_stroll (hm : Moment n ⟨h, []⟩) : Moment n ⟨h.stroll i hop, []⟩ :=
  hm.exec _

/-- Each step of a walk is such a step. -/
theorem Moment.strolls (hm : Moment n ⟨h, []⟩) (hq : h.pointer? (.var i) = some q)
    (hl : h.Linked hop q.owner? cs) (j : Nat) {c : CellId} {rest : List CellId} (hj : cs.drop j = c :: rest) :
    Strolled ((Heap.stroll i hop)^[j] h) ((Heap.stroll i hop)^[j + 1] h) i hop c rest := by
  induction j generalizing h q cs with
  | zero =>
    obtain rfl : cs = c :: rest := hj
    exact hm.stroll hq hl
  | succ j ih =>
    cases cs with
    | nil => simp at hj
    | cons c₀ cs =>
      obtain ⟨next, hnew, hrest⟩ := (hm.stroll hq hl).pointer
      exact ih hm.after_stroll hnew hrest hj

/-- **A walk to the end of the chain** destroys the cells that a drop does: after a cell that is
left alive, each has the owner before it besides the one that leaves it. -/
theorem Moment.walk_destroyed (hm : Moment n ⟨h, []⟩) (hq : h.pointer? (.var i) = some q)
    (hl : h.Linked hop q.owner? cs) :
    ((Heap.stroll i hop)^[cs.length] h).destroyed = (cs.takeWhile h.lone).reverse ++ h.destroyed ∧
    ∃ q', ((Heap.stroll i hop)^[cs.length] h).pointer? (.var i) = some q' ∧ q'.owner? = none := by
  induction cs generalizing h q with
  | nil =>
    refine ⟨rfl, q, hq, ?_⟩
    have hhead := hl.head?
    simpa using hhead.symm
  | cons c cs ih =>
    have hstep := hm.stroll hq hl
    obtain ⟨next, hnew, hrest⟩ := hstep.pointer
    obtain ⟨hdestroyed, hend⟩ := ih hm.after_stroll hnew hrest
    refine ⟨hdestroyed.trans ?_, hend⟩
    have hmem := (List.nodup_cons.mp hl.nodup).1
    cases hlone : h.lone c with
    | true =>
      obtain ⟨hc, -, hothers⟩ := hstep.lone hlone
      have hsame : cs.takeWhile (h.stroll i hop).lone = cs.takeWhile h.lone := by
        refine takeWhile_lone_congr fun d hd => ?_
        exact lone_congr (hothers d fun e => hmem (e ▸ hd))
      rw [hsame, hc, List.takeWhile_cons, hlone]
      simp
    | false =>
      obtain ⟨hc, -, hraised, -⟩ := hstep.shared hlone
      have hnone : cs.takeWhile (h.stroll i hop).lone = [] := by
        cases cs with
        | nil => rfl
        | cons d cs =>
          obtain ⟨cell, hcell, hraised⟩ := hraised d rfl
          have hlive : h.status d = some .live := hl.live (List.mem_cons_of_mem _ List.mem_cons_self)
          have hpos := (hm.sound.alive d).mpr hlive
          have hshared : (h.stroll i hop).lone d = false := by
            apply lone_eq_false
            rw [count_of_getElem? hraised]
            have hcount : 0 < cell.count.owners := by rwa [← count_of_getElem? hcell]
            show cell.count.owners + 1 ≠ 1
            omega
          simp [hshared]
      rw [hnone, hc, List.takeWhile_cons, hlone]
      rfl

/-- **Release of a chain.** Dropping the pointer to the first cell destroys, from the head on, the
cells that have no owner but the one before them, and the first cell that has another one loses an
owner; no other cell is changed. Each step of a walk destroys the cell that is left if the walker
was its only owner, and nothing else is changed; otherwise that cell loses an owner, the next one
gets one, and nothing else is changed. The walk to the end destroys the same cells in the same
order as the drop, and these are all of them if none has an owner elsewhere. -/
theorem Moment.chain_release (hm : Moment n ⟨h, []⟩) (hq : h.pointer? (.var i) = some q)
    (hl : h.Linked hop q.owner? cs) :
    (∀ c, h.lone c = true ↔ h.owners.countP (Owner.isOf c) = 1) ∧
    Unlinked h (h.exec (.act (.drop (.var i)))).1 cs ∧
    (h.exec (.act (.drop (.var i)))).1.vars = (h.poke (.var i) none).vars ∧
    (∀ j c rest, cs.drop j = c :: rest →
      Strolled ((Heap.stroll i hop)^[j] h) ((Heap.stroll i hop)^[j + 1] h) i hop c rest) ∧
    (∃ q', ((Heap.stroll i hop)^[cs.length] h).pointer? (.var i) = some q' ∧ q'.owner? = none) ∧
    ((Heap.stroll i hop)^[cs.length] h).destroyed = (h.exec (.act (.drop (.var i)))).1.destroyed ∧
    ((∀ c ∈ cs, h.lone c = true) →
      (h.exec (.act (.drop (.var i)))).1.destroyed = cs.reverse ++ h.destroyed) := by
  obtain ⟨g, hcome, hr⟩ := hm.drop_linked (.caller rfl) (hm.claim_pointer hq) hq hl
  rw [List.append_nil] at hcome
  have hg : (h.exec (.act (.drop (.var i)))).1 = g := Machine.ComesTo.exec_eq hcome
  have hu : Unlinked h g cs := ⟨hr.destroyed, hr.freed, hr.stop, hr.others⟩
  obtain ⟨hwalk, hend⟩ := hm.walk_destroyed hq hl
  rw [hg]
  refine ⟨fun c => ?_, hu, hr.vars, fun j c rest hj => hm.strolls hq hl j hj, hend,
    hwalk.trans hu.destroyed.symm, fun hall => ?_⟩
  · have hcount : (h.count c).owners = (⟨h, []⟩ : Machine α).owners.countP (Owner.isOf c) := hm.count_eq c
    rw [lone_iff, hcount]
    simp [Machine.owners]
  · rw [hu.destroyed, List.takeWhile_eq_self_iff.mpr hall]

/-- Three cells in a chain, of which the one in the middle has an owner elsewhere. -/
def forkedChain : Heap Nat :=
  [.act (.make (.var 0) .nullable 3 [] [none] [] 8), .act (.make (.var 1) .nullable 2 [] [some (.var 0)] [] 16),
    .act (.clone (.var 1) [] (.var 2)), .act (.make (.var 0) .fixed 1 [] [some (.var 1)] [] 24)].foldl
    (fun h op => (h.exec op).1) (.empty 3)

theorem forkedChain_moment : Moment 3 (⟨forkedChain, []⟩ : Machine Nat) :=
  (((Moment.empty.exec _).exec _).exec _).exec _

theorem forkedChain_linked : forkedChain.Linked (.field 0) (some ⟨2, ⟨2, 3⟩⟩) [2, 1, 0] := by
  have htail : forkedChain.Linked (.field 0) (some ⟨0, ⟨0, 0⟩⟩) [0] := .cons rfl rfl rfl rfl .nil
  have hmiddle : forkedChain.Linked (.field 0) (some ⟨1, ⟨1, 1⟩⟩) [1, 0] := .cons rfl rfl rfl rfl htail
  exact .cons rfl rfl rfl rfl hmiddle

theorem forkedChain_release :
    (forkedChain.exec (.act (.drop (.var 0)))).1.destroyed = [2] ∧
    ((forkedChain.exec (.act (.drop (.var 0)))).1.count 1).owners = 1 ∧
    Unlinked forkedChain (forkedChain.exec (.act (.drop (.var 0)))).1 [2, 1, 0] ∧
    Strolled (forkedChain.stroll 0 (.field 0)) ((Heap.stroll 0 (.field 0))^[2] forkedChain) 0 (.field 0) 1 [0] ∧
    ((Heap.stroll 0 (.field 0))^[3] forkedChain).destroyed = [2] := by
  obtain ⟨-, hdrop, -, hsteps, -, hwalk, -⟩ := Moment.chain_release forkedChain_moment (i := 0)
    (q := .fixed ⟨2, ⟨2, 3⟩⟩) rfl forkedChain_linked
  have hdestroyed : (forkedChain.exec (.act (.drop (.var 0)))).1.destroyed = [2] := by
    rw [hdrop.destroyed]
    decide
  exact ⟨hdestroyed, by decide, hdrop, hsteps 1 1 [0] rfl, hwalk.trans hdestroyed⟩

end Custody.Heap
