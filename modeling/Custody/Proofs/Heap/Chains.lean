/-
# Chains that are released

In a chain each cell has one pointer, to the next cell, and its destructor does nothing else than
to drop it. Any of the cells may have owners elsewhere. When the pointer to the first cell is
dropped, cells are destroyed from the head on for as long as each has no owner but the one before
it; the first cell that has another one loses an owner and stays.

Key definitions: `Machine.ComesTo`, `Linked`, `lone`, `Unlinked`, `Released`.
Key theorems: `Linked.nodup`, `release_linked`, `Moment.drop_linked`.
-/
import Mathlib.Data.List.Find
import Custody.Proofs.Heap.Assign
import Custody.Proofs.Heap.Reclaim

namespace Custody.Heap

variable {α : Type} {h g h' : Heap α} {m m' m'' : Machine α} {n i : Nat} {ts rest : List (Task α)}
  {c : CellId} {cs : List CellId} {o : Owner} {x y : Option Owner} {hop : Hop} {v : Value α} {q : Pointer}

/-! ### What a machine comes to -/

/-- Whether the machine becomes the other one after some steps. -/
def Machine.ComesTo (m m' : Machine α) : Prop := ∃ k, m.run k = m'

theorem Machine.ComesTo.refl (m : Machine α) : m.ComesTo m := ⟨0, rfl⟩

theorem Machine.ComesTo.head (hc : m.step.ComesTo m') : m.ComesTo m' := by
  obtain ⟨k, hk⟩ := hc
  exact ⟨k + 1, (step_run m k).symm.trans hk⟩

theorem Machine.ComesTo.trans (hc : m.ComesTo m') (hc' : m'.ComesTo m'') : m.ComesTo m'' := by
  obtain ⟨k, hk⟩ := hc
  induction k generalizing m with
  | zero =>
    obtain rfl : m = m' := hk
    exact hc'
  | succ k ih => exact (ih ((step_run m k).trans hk)).head

theorem Machine.ComesTo.sound (hc : m.ComesTo m') (hs : Sound m.draft) : Sound m'.draft := by
  obtain ⟨k, rfl⟩ := hc
  induction k with
  | zero => exact hs
  | succ k ih =>
    rw [run_succ]
    exact (step_edits ih).sound ih

/-- A step does not change what is left when all is done. -/
theorem settle_of_step (m : Machine α) : m.step.settle = m.settle := by
  by_cases hnil : m.tasks = []
  · rw [step_of_nil hnil]
  · exact (settle_step hnil).symm

theorem Machine.ComesTo.settle_eq (hc : m.ComesTo m') : m'.settle = m.settle := by
  obtain ⟨k, rfl⟩ := hc
  induction k with
  | zero => rfl
  | succ k ih => rw [run_succ, settle_of_step, ih]

/-- What an operation leaves is what it comes to when nothing is left to do. -/
theorem Machine.ComesTo.exec_eq {op : Op α} (hc : (Machine.start h op).ComesTo ⟨g, []⟩) :
    (h.exec op).1 = g := by
  have hall : (⟨g, []⟩ : Machine α).settle = (Machine.start h op).settle := hc.settle_eq
  rw [settle_nil] at hall
  exact congrArg Machine.heap hall.symm

/-! ### Changes of one cell -/

/-- The heaps differ in one cell at most, and in what the log says. -/
structure SameBut (h g : Heap α) (c : CellId) : Prop where
  cells : ∀ c', c' ≠ c → g.cells[c']? = h.cells[c']?
  vars : g.vars = h.vars
  issued : g.issued = h.issued

theorem SameBut.trans (hs : SameBut h g c) (hs' : SameBut g h' c) : SameBut h h' c where
  cells c' hc := (hs'.cells c' hc).trans (hs.cells c' hc)
  vars := hs'.vars.trans hs.vars
  issued := hs'.issued.trans hs.issued

theorem sameBut_modifyCell (h : Heap α) (c : CellId) (f : Cell α → Cell α) :
    SameBut h (h.modifyCell c f) c where
  cells c' hc := by simp [modifyCell, Ne.symm hc]
  vars := rfl
  issued := rfl

theorem sameBut_note (h : Heap α) (e : Event α) (c : CellId) : SameBut h (h.note e) c where
  cells _ _ := rfl
  vars := rfl
  issued := rfl

theorem sameBut_setContent (h : Heap α) (c : CellId) (k : Content α) : SameBut h (h.setContent c k) c :=
  sameBut_modifyCell h c _

theorem sameBut_signOff {k : Nat} (hk : (h.count o.cell).owners = k + 1) :
    SameBut h (h.signOff o).2 o.cell := by
  rw [signOff_eq hk]
  exact (sameBut_note h _ o.cell).trans (sameBut_modifyCell _ o.cell _)

theorem sameBut_condemn (hn : (h.count o.cell).owners = 1) (v : Value α) :
    SameBut h (h.condemn o v) o.cell :=
  (sameBut_signOff hn).trans ((sameBut_setContent _ o.cell (.dying v)).trans (sameBut_note _ _ o.cell))

theorem sameBut_free (h : Heap α) (c : CellId) : SameBut h ((h.setContent c .freed).note (.freed c)) c :=
  (sameBut_setContent h c .freed).trans (sameBut_note _ _ c)

theorem SameBut.live? (hs : SameBut h g c) {c' : CellId} (hc : c' ≠ c) : g.live? c' = h.live? c' := by
  rw [live?_eq_bind, live?_eq_bind, hs.cells c' hc]

/-! ### A dying value with one pointer -/

/-- A dying value drops its pointers in order. -/
theorem dismantle_cons (ts : List (Task α)) {cell : Cell α} {y : Option Owner} {ys : List (Option Owner)}
    (hc : h.cells[c]? = some cell) (hcon : cell.content = .dying v) (hp : v.pointers = y :: ys) :
    ∃ w, w.pointers = ys ∧ Machine.dismantle c h ts =
      ⟨h.setContent c (.dying w), discard (some (.nullable y)) ++ .dismantle c :: ts⟩ := by
  obtain ⟨a, k, content⟩ := cell
  obtain ⟨data, script, fields, links⟩ := v
  subst hcon
  unfold Machine.dismantle
  rcases fields with _ | ⟨z, fields⟩
  · obtain rfl : links = y :: ys := hp
    refine ⟨⟨data, script, [], ys⟩, rfl, ?_⟩
    simp only [hc]
    rfl
  · obtain ⟨rfl, rfl⟩ : z = y ∧ fields ++ links = ys := by simpa [Value.pointers] using hp
    refine ⟨⟨data, script, fields, links⟩, rfl, ?_⟩
    simp only [hc]
    rfl

theorem dismantle_nil {cell : Cell α} (hc : h.cells[c]? = some cell)
    (hcon : cell.content = .dying v) (hp : v.pointers = []) :
    Machine.dismantle c h ts = ⟨(h.setContent c .freed).note (.freed c), ts⟩ := by
  obtain ⟨a, k, content⟩ := cell
  obtain ⟨data, script, fields, links⟩ := v
  subst hcon
  obtain ⟨rfl, rfl⟩ : fields = [] ∧ links = [] := by simpa [Value.pointers] using hp
  unfold Machine.dismantle
  simp only [hc]
  rfl

theorem setContent_setContent (h : Heap α) (c : CellId) (k k' : Content α) :
    (h.setContent c k).setContent c k' = h.setContent c k' := by
  simp [setContent, modifyCell, List.modify_modify_eq, Function.comp_def]

theorem getElem?_setContent {cell : Cell α} (hc : h.cells[c]? = some cell) (k : Content α) :
    (h.setContent c k).cells[c]? = some { cell with content := k } := by
  simp [setContent, modifyCell, hc]

/-- A dying value that has no target left is freed. -/
theorem dismantle_nulls : ∀ {ys : List (Option Owner)} {h : Heap α} {v : Value α} {cell : Cell α},
    h.cells[c]? = some cell → cell.content = .dying v → v.pointers = ys → ys.filterMap id = [] →
    (⟨h, .dismantle c :: ts⟩ : Machine α).ComesTo ⟨(h.setContent c .freed).note (.freed c), ts⟩
  | [], h, v, cell, hc, hcon, hp, _ => by
    refine .head ?_
    rw [show (⟨h, .dismantle c :: ts⟩ : Machine α).step = _ from dismantle_nil hc hcon hp]
    exact .refl _
  | some o :: ys, h, v, cell, _, _, _, hnone => by simp at hnone
  | none :: ys, h, v, cell, hc, hcon, hp, hnone => by
    obtain ⟨w, hw, hstep⟩ := dismantle_cons ts hc hcon hp
    have ih := dismantle_nulls (getElem?_setContent hc (.dying w)) rfl hw (by simpa using hnone)
    rw [setContent_setContent] at ih
    refine .head ?_
    rw [show (⟨h, .dismantle c :: ts⟩ : Machine α).step = _ from hstep]
    exact ih

/-- A dying value comes to drop the only pointer of it that has a target. -/
theorem dismantle_one (ts : List (Task α)) : ∀ {ys : List (Option Owner)} {h : Heap α} {v : Value α} {cell : Cell α},
    h.cells[c]? = some cell → cell.content = .dying v → v.pointers = ys → ys.filterMap id = [o] →
    ∃ w, w.owners = [] ∧ (⟨h, .dismantle c :: ts⟩ : Machine α).ComesTo
      ⟨h.setContent c (.dying w), .release o :: .dismantle c :: ts⟩
  | [], h, v, cell, _, _, _, hone => by simp at hone
  | some o' :: ys, h, v, cell, hc, hcon, hp, hone => by
    obtain ⟨rfl, hnone⟩ : o' = o ∧ ys.filterMap id = [] := by simpa using hone
    obtain ⟨w, hw, hstep⟩ := dismantle_cons ts hc hcon hp
    refine ⟨w, by rw [Value.owners, hw, hnone], .head ?_⟩
    rw [show (⟨h, .dismantle c :: ts⟩ : Machine α).step = _ from hstep]
    exact .refl _
  | none :: ys, h, v, cell, hc, hcon, hp, hone => by
    obtain ⟨w, hw, hstep⟩ := dismantle_cons ts hc hcon hp
    obtain ⟨w', hw', ih⟩ := dismantle_one ts (getElem?_setContent hc (.dying w)) rfl hw
      (by simpa using hone)
    rw [setContent_setContent] at ih
    refine ⟨w', hw', .head ?_⟩
    rw [show (⟨h, .dismantle c :: ts⟩ : Machine α).step = _ from hstep]
    exact ih

/-! ### Chains -/

/-- The cells in order, from the target of a pointer to the last one, each of which has a pointer to
the next in that field and no other with a target, and a destructor that does nothing else. -/
inductive Linked (h : Heap α) (hop : Hop) : Option Owner → List CellId → Prop
  | nil : Linked h hop none []
  | cons {o : Owner} {v : Value α} {next : Option Owner} {cs : List CellId} :
      h.live? o.cell = some v → v.script = [] → v.get? hop = some next →
      v.owners = next.toList → Linked h hop next cs → Linked h hop (some o) (o.cell :: cs)

theorem Linked.congr (hl : h.Linked hop x cs) (hlive : ∀ c ∈ cs, g.live? c = h.live? c) :
    g.Linked hop x cs := by
  induction hl with
  | nil => exact .nil
  | cons hv hs hn hone _ ih =>
    exact .cons ((hlive _ List.mem_cons_self).trans hv) hs hn hone
      (ih fun c hc => hlive c (List.mem_cons_of_mem _ hc))

/-- A cell is the first of one chain only. -/
theorem Linked.unique (hl : h.Linked hop x cs) : ∀ {y : Option Owner} {cs' : List CellId},
    h.Linked hop y cs' → x.map Owner.cell = y.map Owner.cell → cs' = cs := by
  induction hl with
  | nil =>
    intro y cs' hl' hxy
    cases hl' with
    | nil => rfl
    | cons => simp at hxy
  | @cons o v next cs hv _ hn _ _ ih =>
    intro y cs' hl' hxy
    cases hl' with
    | nil => simp at hxy
    | @cons o' v' next' cs' hv' _ hn' _ hrest =>
      have hcell : o.cell = o'.cell := by simpa using hxy
      rw [← hcell, hv] at hv'
      obtain rfl := Option.some.inj hv'
      rw [hn] at hn'
      obtain rfl := Option.some.inj hn'
      rw [← hcell, ih hrest rfl]

theorem Linked.head? (hl : h.Linked hop x cs) : cs.head? = x.map Owner.cell := by
  cases hl <;> rfl

/-- Another owner of the same cell is the start of the same chain. -/
theorem Linked.of_cell (hl : h.Linked hop x cs) (hxy : x.map Owner.cell = y.map Owner.cell) :
    h.Linked hop y cs := by
  cases hl with
  | nil =>
    obtain rfl : y = none := by simpa using hxy.symm
    exact .nil
  | @cons o v next cs hv hs hn hone hrest =>
    obtain ⟨o', rfl, ho'⟩ : ∃ o', y = some o' ∧ o'.cell = o.cell := by simpa using hxy.symm
    rw [← ho'] at hv ⊢
    exact .cons hv hs hn hone hrest

/-- A chain goes on from each of its cells. -/
theorem Linked.suffix (hl : h.Linked hop x cs) (hc : c ∈ cs) :
    ∃ o cs', h.Linked hop (some o) cs' ∧ o.cell = c ∧ cs' <:+ cs := by
  induction hl with
  | nil => simp at hc
  | @cons o v next cs hv hs hn hone hrest ih =>
    rcases List.mem_cons.mp hc with rfl | hc
    · exact ⟨o, _, .cons hv hs hn hone hrest, rfl, List.suffix_refl _⟩
    · obtain ⟨o', cs', hl', ho', hsuf⟩ := ih hc
      exact ⟨o', cs', hl', ho', hsuf.trans (List.suffix_cons _ _)⟩

theorem Linked.live (hl : h.Linked hop x cs) (hc : c ∈ cs) : h.status c = some .live := by
  obtain ⟨o, cs', hl', rfl, -⟩ := hl.suffix hc
  obtain _ | ⟨hv, -⟩ := hl'
  exact status_of_live? hv

/-- **No cell is in a chain twice**: it would go on from it in two ways. -/
theorem Linked.nodup (hl : h.Linked hop x cs) : cs.Nodup := by
  induction hl with
  | nil => exact .nil
  | @cons o v next cs hv hs hn hone hrest ih =>
    refine List.nodup_cons.mpr ⟨fun hmem => ?_, ih⟩
    obtain ⟨o', cs', hl', ho', hsuf⟩ := hrest.suffix hmem
    have hsame : cs' = o.cell :: cs := (Linked.cons hv hs hn hone hrest).unique hl' (by simp [ho'])
    have hlen := hsuf.length_le
    rw [hsame, List.length_cons] at hlen
    omega

/-! ### How far a chain is released -/

/-- Whether the cell has one owner only. -/
def lone (h : Heap α) (c : CellId) : Bool :=
  (h.count c).isUnique

theorem lone_iff : h.lone c = true ↔ (h.count c).owners = 1 := by
  simp [lone, Count.isUnique]

theorem lone_eq_false (hne : (h.count c).owners ≠ 1) : h.lone c = false := by
  simpa [lone, Count.isUnique] using hne

theorem lone_congr (hc : g.cells[c]? = h.cells[c]?) : g.lone c = h.lone c := by
  rw [lone, lone, count_eq, count_eq, hc]

/-- What comes of a chain when the pointer to its first cell signs off. -/
structure Unlinked (h g : Heap α) (cs : List CellId) : Prop where
  /-- The cells that have no owner but the one before them are destroyed, from the head on. -/
  destroyed : g.destroyed = (cs.takeWhile h.lone).reverse ++ h.destroyed
  freed : ∀ c ∈ cs.takeWhile h.lone, g.status c = some .freed
  /-- The first of the others loses an owner. -/
  stop : ∀ c, cs.find? (fun c => !h.lone c) = some c → ∃ cell k, h.cells[c]? = some cell ∧
    cell.count.owners = k + 2 ∧ g.cells[c]? = some { cell with count := ⟨k + 1⟩ }
  others : ∀ c, c ∉ cs.takeWhile h.lone → cs.find? (fun c => !h.lone c) ≠ some c →
    g.cells[c]? = h.cells[c]?

/-- Nothing but that, and no owner is registered. -/
structure Released (h g : Heap α) (cs : List CellId) : Prop extends Unlinked h g cs where
  vars : g.vars = h.vars
  issued : g.issued = h.issued

theorem takeWhile_lone_congr (hcs : ∀ c ∈ cs, g.lone c = h.lone c) :
    cs.takeWhile g.lone = cs.takeWhile h.lone := by
  induction cs with
  | nil => rfl
  | cons c cs ih =>
    rw [List.takeWhile_cons, List.takeWhile_cons, hcs c List.mem_cons_self,
      ih fun c' hc => hcs c' (List.mem_cons_of_mem _ hc)]

/-- The head of a chain has another owner: it loses one, and that is all. -/
theorem released_shared {k : Nat} (hk : (h.count o.cell).owners = k + 2) :
    Released h (h.signOff o).2 (o.cell :: cs) := by
  have hshared : h.lone o.cell = false := lone_eq_false (by omega)
  have hsame := sameBut_signOff hk
  have htake : (o.cell :: cs).takeWhile h.lone = [] := by simp [hshared]
  have hfind : (o.cell :: cs).find? (fun c => !h.lone c) = some o.cell := by simp [hshared]
  refine ⟨⟨?_, ?_, ?_, ?_⟩, hsame.vars, hsame.issued⟩
  · rw [htake, destroyed_signOff hk]
    rfl
  · simp [htake]
  · intro c hc
    obtain rfl : o.cell = c := Option.some.inj (hfind.symm.trans hc)
    cases hcell : h.cells[o.cell]? with
    | none => simp [count_eq, hcell] at hk
    | some cell =>
      have hcount : cell.count.owners = k + 2 := by rw [← count_of_getElem? hcell, hk]
      refine ⟨cell, k, rfl, hcount, ?_⟩
      rw [signOff_eq hk]
      simp [modifyCell, note, hcell]
  · intro c _ hc
    exact hsame.cells c fun e => hc (e ▸ hfind)

/-- The head of a chain has no other owner: it is destroyed, and the rest of the chain is
released in the course of that. -/
theorem released_lone {g₁ : Heap α} (hn : (h.count c).owners = 1) (hmem : c ∉ cs)
    (hsame : SameBut h h' c) (hdestroyed : h'.destroyed = c :: h.destroyed)
    (hcell : h'.cells[c]? ≠ none) (hu : Released h' g₁ cs) :
    Released h ((g₁.setContent c .freed).note (.freed c)) (c :: cs) := by
  have hne : ∀ c' ∈ cs, c' ≠ c := fun c' hc e => hmem (e ▸ hc)
  have hlone : ∀ c' ∈ cs, h'.lone c' = h.lone c' := fun c' hc =>
    lone_congr (hsame.cells c' (hne c' hc))
  have htake : (c :: cs).takeWhile h.lone = c :: cs.takeWhile h'.lone := by
    rw [List.takeWhile_cons, if_pos (lone_iff.mpr hn), takeWhile_lone_congr hlone]
  have hfind : (c :: cs).find? (fun c => !h.lone c) = cs.find? (fun c => !h'.lone c) := by
    rw [List.find?_cons_of_neg (by simp [lone_iff.mpr hn])]
    exact List.find?_congr fun c' hc => by rw [hlone c' hc]
  have hfree := sameBut_free g₁ c
  -- the head is not reached again
  have hhead : g₁.cells[c]? = h'.cells[c]? := by
    refine hu.others c (fun hc => hmem (List.takeWhile_subset _ hc)) fun hc => ?_
    exact hmem (List.mem_of_find?_eq_some hc)
  refine ⟨⟨?_, ?_, ?_, ?_⟩, (hfree.vars.trans hu.vars).trans hsame.vars,
    (hfree.issued.trans hu.issued).trans hsame.issued⟩
  · have hnote : ((g₁.setContent c .freed).note (.freed c)).destroyed = g₁.destroyed := rfl
    rw [hnote, hu.destroyed, hdestroyed, htake]
    simp
  · intro c' hc'
    rw [htake] at hc'
    by_cases hcc : c' = c
    · subst hcc
      obtain ⟨cell, hg⟩ := Option.ne_none_iff_exists'.mp hcell
      have hfreed := status_setContent (hhead.trans hg) .freed c'
      rw [if_pos rfl] at hfreed
      exact hfreed
    · have hc' := (List.mem_cons.mp hc').resolve_left hcc
      have hstatus : ((g₁.setContent c .freed).note (.freed c)).status c' = g₁.status c' := by
        rw [status, status, hfree.cells c' hcc]
      rw [hstatus]
      exact hu.freed c' hc'
  · intro c' hc'
    rw [hfind] at hc'
    have hcc := hne c' (List.mem_of_find?_eq_some hc')
    obtain ⟨cell, k, hold, hk, hnew⟩ := hu.stop c' hc'
    exact ⟨cell, k, (hsame.cells c' hcc).symm.trans hold, hk, (hfree.cells c' hcc).trans hnew⟩
  · intro c' htake' hfind'
    rw [htake, List.mem_cons, not_or] at htake'
    rw [hfind] at hfind'
    calc ((g₁.setContent c .freed).note (.freed c)).cells[c']? = g₁.cells[c']? := hfree.cells c' htake'.1
      _ = h'.cells[c']? := hu.others c' htake'.2 hfind'
      _ = h.cells[c']? := hsame.cells c' htake'.1

theorem released_nil (h : Heap α) : Released h h [] where
  destroyed := rfl
  freed c hc := by simp at hc
  stop c hc := by simp at hc
  others _ _ _ := rfl
  vars := rfl
  issued := rfl

/-- **What the release of a chain comes to.** Each cell that is destroyed releases the next one,
before it is freed itself. -/
theorem release_linked : ∀ {cs : List CellId} {h : Heap α} {o : Owner} {ts : List (Task α)},
    Sound ⟨h, [], .release o :: ts⟩ → h.Linked hop (some o) cs →
    ∃ g, (⟨h, .release o :: ts⟩ : Machine α).ComesTo ⟨g, ts⟩ ∧ Released h g cs
  | [], h, o, ts, _, hl => nomatch hl
  | c :: cs, h, o, ts, hs, hl => by
    have hnodup := hl.nodup
    have hmem : c ∉ cs := (List.nodup_cons.mp hnodup).1
    obtain _ | ⟨hv, hscript, hn, howners, hrest⟩ := hl
    rename_i v next
    rcases hs.release_cases with ⟨v', hone, hv', hstep⟩ | ⟨k, hk, hstep⟩
    · obtain rfl : v = v' := Option.some.inj (hv.symm.trans hv')
      have hdead : (⟨h, .release o :: ts⟩ : Machine α).ComesTo
          ⟨h.condemn o v, .dismantle o.cell :: ts⟩ := by
        refine .head ?_
        rw [show (⟨h, .release o :: ts⟩ : Machine α).step = _ from hstep, hscript]
        exact .head (.refl _)
      obtain ⟨cell, hcell, hcon⟩ : ∃ cell, (h.condemn o v).cells[o.cell]? = some cell ∧
          cell.content = .dying v := by
        obtain ⟨cell, hc, -⟩ := live?_eq_some.mp (((samePointers_signOff hone).live? o.cell).trans hv)
        exact ⟨_, getElem?_setContent hc (.dying v), rfl⟩
      have hsame := sameBut_condemn hone v
      cases next with
      | none =>
        obtain rfl : cs = [] := by
          cases hrest
          rfl
        exact ⟨_, hdead.trans (dismantle_nulls hcell hcon rfl howners),
          released_lone hone hmem hsame (destroyed_condemn hone v) (by simp [hcell]) (released_nil _)⟩
      | some o' =>
        obtain ⟨w, hw, hdrop⟩ := dismantle_one ts hcell hcon rfl howners
        have hsame' : SameBut h ((h.condemn o v).setContent o.cell (.dying w)) o.cell :=
          hsame.trans (sameBut_setContent _ _ _)
        have hrest' : ((h.condemn o v).setContent o.cell (.dying w)).Linked hop (some o') cs :=
          hrest.congr fun c' hc' => hsame'.live? fun e => hmem (e ▸ hc')
        have hcell' := getElem?_setContent hcell (.dying w)
        obtain ⟨g₁, hcome, hu⟩ := release_linked ((hdead.trans hdrop).sound hs) hrest'
        have hhead : g₁.cells[o.cell]? = some { cell with content := .dying w } := by
          refine (hu.others o.cell (fun hc => hmem (List.takeWhile_subset _ hc)) fun hc => ?_).trans hcell'
          exact hmem (List.mem_of_find?_eq_some hc)
        exact ⟨_, (hdead.trans hdrop).trans (hcome.trans (dismantle_nulls hhead rfl rfl hw)),
          released_lone hone hmem hsame' (destroyed_condemn hone v) (by simp [hcell']) hu⟩
    · refine ⟨(h.signOff o).2, .head ?_, released_shared hk⟩
      rw [show (⟨h, .release o :: ts⟩ : Machine α).step = _ from hstep]
      exact .refl _

/-- What is not destroyed keeps its value. -/
theorem Unlinked.live? (hu : Unlinked h g cs) (hc : c ∉ cs.takeWhile h.lone) : g.live? c = h.live? c := by
  by_cases hstop : cs.find? (fun c => !h.lone c) = some c
  · obtain ⟨cell, k, hold, -, hnew⟩ := hu.stop c hstop
    rw [live?_eq_bind, live?_eq_bind, hold, hnew]
    rfl
  · rw [live?_eq_bind, live?_eq_bind, hu.others c hc hstop]

/-- **Dropping the pointer to the first cell of a chain**, by the caller or a destructor that acts. -/
theorem Moment.drop_linked {self : Option CellId} {src : Ref} {p : Place} (hm : Moment n m)
    (hw : m.Meanwhile self rest) (hp : m.heap.claim self src = .ok p) (hq : m.heap.pointer? p = some q)
    (hl : m.heap.Linked hop q.owner? cs) : ∃ g, (⟨(m.heap.perform self (.drop src)).heap,
      (m.heap.perform self (.drop src)).todo ++ rest⟩ : Machine α).ComesTo ⟨g, rest⟩ ∧
      Released (m.heap.poke p p.vacated) g cs := by
  have hs : Sound ⟨m.heap, [], rest⟩ := hw.sound hm
  have hsound := hw.sound_drop hm hp hq
  rw [perform_drop hp hq]
  have hl' : (m.heap.poke p p.vacated).Linked hop q.owner? cs :=
    hl.congr fun c _ => live?_poke_outer (hs.claimed hw.acting hp).outer _ c
  cases ho : q.owner? with
  | none =>
    rw [ho] at hl'
    cases hl'
    have hdiscard : discard (α := α) (some q) = [] := by simp [discard, ho]
    rw [hdiscard]
    exact ⟨_, .refl _, released_nil _⟩
  | some o =>
    rw [ho] at hl'
    rw [discard_of_owner? ho] at hsound ⊢
    exact release_linked hsound hl'

end Custody.Heap
