/-
# Nested destructions

When destructors make no new cells, a cascade is nested no deeper than there were live cells when
it began. A destruction begins when the last owner of a live cell signs off, and from then on the
cell is not live and no pointer to it is copied, whatever destructors do with the others; so it
begins once, and with each that begins there is one live cell less. No other step makes
a cell live, or takes one of the live ones away.

Key definitions: `Sterile`, `lives`, `Machine.depth`, `Machine.begins`, `Machine.begun`.
Key theorems: `step_enters_or_goesOn`, `Cascade.succ`, `Sound.cascade_ends`.
-/
import Custody.Proofs.Heap.Lockstep
import Custody.Proofs.Heap.Outline
import Custody.Proofs.Heap.Reclaim

namespace Custody.Heap

variable {α : Type} {h g h' : Heap α} {m m' : Machine α} {self : Option CellId} {ts : List (Task α)}
  {c : CellId} {v : Value α} {a : Act α} {op : Op α} {k : Nat}

/-! ### Destructors that make no cells -/

/-- Whether no destructor of a live value makes a cell. -/
def Sterile (h : Heap α) : Prop :=
  ∀ c v, h.live? c = some v → ∀ a ∈ v.script, a.makes = false

/-- Whether none does that, nor what is left of those that have begun. -/
structure Machine.Sterile (m : Machine α) : Prop where
  values : m.heap.Sterile
  tasks : ∀ c acts last, .script c acts last ∈ m.tasks → ∀ a ∈ acts, a.makes = false

/-! ### Live cells -/

/-- One for a live cell. -/
def Content.life : Content α → Nat
  | .live _ => 1
  | .dying _ => 0
  | .freed => 0

/-- How many cells are live: their destruction has not begun. -/
def lives (h : Heap α) : Nat :=
  (h.cells.map (·.content.life)).sum

theorem lives_setContent {cell : Cell α} (hc : h.cells[c]? = some cell) (j : Content α) :
    (h.setContent c j).lives + cell.content.life = h.lives + j.life :=
  sum_map_modify (fun cell => cell.content.life) (fun cell : Cell α => { cell with content := j }) hc

theorem lives_of_outline (ho : h'.outline = h.outline) : h'.lives = h.lives := by
  have hlife : ∀ j : Content α, j.life = if j.outline.1 = .live then 1 else 0 := by
    intro j
    cases j <;> rfl
  have hsum := congrArg (fun l => (l.map fun p => if p.1 = Status.live then 1 else 0).sum)
    (cells_of_outline ho)
  simpa only [lives, hlife, List.map_map, Function.comp_def] using hsum

theorem length_cells_of_outline (ho : h'.outline = h.outline) : h'.cells.length = h.cells.length := by
  simpa using congrArg List.length (cells_of_outline ho)

theorem live_of_outline (ho : h'.outline = h.outline) (hlive : h.status c = some .live) :
    h'.status c = some .live := by
  obtain ⟨v, hv⟩ := exists_live? hlive
  obtain ⟨w, hw, -⟩ := exists_live?_of_outline ho hv
  exact status_of_live? hw

theorem status_live_of_outline (ho : h'.outline = h.outline) (c : CellId) :
    h'.status c = some .live ↔ h.status c = some .live :=
  ⟨live_of_outline ho.symm, live_of_outline ho⟩

theorem Sterile.of_outline (hs : h.Sterile) (ho : h'.outline = h.outline) : h'.Sterile := by
  intro c v hv
  obtain ⟨w, hw, hscript⟩ := exists_live?_of_outline ho.symm hv
  rw [← hscript]
  exact hs c w hw

/-- A cell that is no longer live takes its destructor with it. -/
theorem Sterile.setContent (hs : h.Sterile) (c : CellId) {j : Content α} (hj : j.live? = none) :
    (h.setContent c j).Sterile :=
  fun c' v hv => hs c' v (live?_setContent h c j hj hv)

/-! ### Destructions that begin -/

/-- How many destructions are in progress, each in the course of the one before. -/
def Machine.depth (m : Machine α) : Nat :=
  m.tasks.countP fun t => match t with
    | .dismantle _ => true
    | _ => false

/-- The cell whose destruction begins with the next step, if one does. -/
def Machine.begins (m : Machine α) : Option CellId :=
  match m.tasks with
  | .release o :: _ => if (m.heap.count o.cell).owners = 1 then some o.cell else none
  | _ => none

/-- The cells whose destruction begins in the first `k` steps, in order. -/
def Machine.begun (m : Machine α) (k : Nat) : List CellId :=
  (List.range k).filterMap fun j => (m.run j).begins

/-- The destruction of a live cell begins. -/
structure Machine.Enters (m m' : Machine α) (c : CellId) : Prop where
  begins : m.begins = some c
  live : m.heap.status c = some .live
  cells : m'.heap.cells.length = m.heap.cells.length
  lives : m'.heap.lives + 1 = m.heap.lives
  depth : m'.depth = m.depth + 1
  destroyed : m'.heap.destroyed = c :: m.heap.destroyed
  status : ∀ c', m'.heap.status c' = some .live ↔ m.heap.status c' = some .live ∧ c' ≠ c

/-- No destruction begins, and exactly those cells are live that were. -/
structure Machine.GoesOn (m m' : Machine α) : Prop where
  begins : m.begins = none
  cells : m'.heap.cells.length = m.heap.cells.length
  lives : m'.heap.lives = m.heap.lives
  depth : m'.depth ≤ m.depth
  destroyed : m'.heap.destroyed = m.heap.destroyed
  status : ∀ c, m'.heap.status c = some .live ↔ m.heap.status c = some .live

theorem goesOn_of_outline (hb : m.begins = none) (hd : m'.depth ≤ m.depth)
    (ho : m'.heap.outline = m.heap.outline) : m.GoesOn m' where
  begins := hb
  cells := length_cells_of_outline ho
  lives := lives_of_outline ho
  depth := hd
  destroyed := congrArg Prod.snd ho
  status := status_live_of_outline ho

theorem depth_le_of_sublist {us : List (Task α)} (hu : us.Sublist ts) :
    (⟨h', us⟩ : Machine α).depth ≤ (⟨h, ts⟩ : Machine α).depth :=
  hu.countP_le

theorem depth_append (h : Heap α) {us : List (Task α)} (hu : ∀ t ∈ us, t.dying? = none) (ts : List (Task α)) :
    (⟨h, us ++ ts⟩ : Machine α).depth = (⟨h, ts⟩ : Machine α).depth := by
  simp only [Machine.depth, List.countP_append, Nat.add_eq_right, List.countP_eq_zero]
  intro t ht
  have hplain := hu t ht
  cases t <;> simp_all [Task.dying?]

theorem Machine.Sterile.tail {t : Task α} (hs : (⟨h, t :: ts⟩ : Machine α).Sterile)
    (ho : h'.outline = h.outline) : (⟨h', ts⟩ : Machine α).Sterile :=
  ⟨hs.values.of_outline ho, fun c acts last ht => hs.tasks c acts last (List.mem_cons_of_mem _ ht)⟩

theorem Machine.Sterile.append {us : List (Task α)} (hs : (⟨h, ts⟩ : Machine α).Sterile)
    (hu : ∀ t ∈ us, t.dying? = none) : (⟨h, us ++ ts⟩ : Machine α).Sterile := by
  refine ⟨hs.values, fun c acts last ht => ?_⟩
  rcases List.mem_append.mp ht with ht | ht
  · exact absurd (hu _ ht) (by simp [Task.dying?])
  · exact hs.tasks c acts last ht

/-- A pointer that is dropped signs off: it is the last owner of a live cell, or there are more. -/
theorem release_step {o : Owner} (hs : Sound ⟨h, [], .release o :: ts⟩)
    (hst : (⟨h, .release o :: ts⟩ : Machine α).Sterile) :
    (Machine.release o h ts).Sterile ∧
    ((∃ c, (⟨h, .release o :: ts⟩ : Machine α).Enters (Machine.release o h ts) c) ∨
      (⟨h, .release o :: ts⟩ : Machine α).GoesOn (Machine.release o h ts)) := by
  rcases hs.release_cases with ⟨v, hn, hv, heq⟩ | ⟨k, hk, heq⟩
  · have hv' : (h.signOff o).2.live? o.cell = some v := ((samePointers_signOff hn).live? o.cell).trans hv
    have hsign : (h.signOff o).2.outline = h.outline :=
      (samePointers_signOff hn).outline (destroyed_signOff hn)
    obtain ⟨cell, hc, hcon⟩ := live?_eq_some.mp hv'
    rw [heq]
    refine ⟨⟨?_, ?_⟩, .inl ⟨o.cell, ?_, status_of_live? hv, ?_, ?_, ?_, destroyed_condemn hn v, fun c => ?_⟩⟩
    · exact (hst.values.of_outline hsign).setContent o.cell (j := .dying v) rfl
    · intro c acts last ht
      rcases List.mem_cons.mp ht with he | ht
      · obtain ⟨-, rfl, -⟩ := Task.script.inj he
        exact hst.values o.cell v hv
      · rcases List.mem_cons.mp ht with he | ht
        · simp at he
        · exact hst.tasks c acts last (List.mem_cons_of_mem _ ht)
    · simp [Machine.begins, hn]
    · have hlen : (h.condemn o v).cells.length = (h.signOff o).2.cells.length := by
        simp [condemn, note, setContent, modifyCell]
      exact hlen.trans (length_cells_of_outline hsign)
    · have hlives := lives_setContent hc (.dying v)
      rw [hcon, lives_of_outline hsign] at hlives
      exact hlives
    · simp [Machine.depth]
    · show (h.condemn o v).status c = some .live ↔ _
      rw [status_condemn hn hv]
      by_cases hc : c = o.cell <;> simp [hc]
  · have hsign : (h.signOff o).2.outline = h.outline :=
      (samePointers_signOff hk).outline (destroyed_signOff hk)
    rw [heq]
    exact ⟨hst.tail hsign, .inr (goesOn_of_outline (by simp [Machine.begins, hk])
      (by simp [Machine.depth]) hsign)⟩

/-- A dying value drops a pointer, or its cell is freed. -/
theorem dismantle_step (hs : Sound ⟨h, [], .dismantle c :: ts⟩)
    (hst : (⟨h, .dismantle c :: ts⟩ : Machine α).Sterile) :
    (Machine.dismantle c h ts).Sterile ∧
      (⟨h, .dismantle c :: ts⟩ : Machine α).GoesOn (Machine.dismantle c h ts) := by
  have hdying : h.status c = some .dying := (hs.dying c).mpr List.mem_cons_self
  obtain ⟨⟨a, n, content⟩, hc, hstatus⟩ := Option.map_eq_some_iff.mp hdying
  have hstrip : ∀ {v w : Value α} (o : Option Owner), content = .dying v → w.script = v.script →
      (⟨h.setContent c (.dying w), discard (some (.nullable o)) ++ .dismantle c :: ts⟩ : Machine α).Sterile ∧
      (⟨h, .dismantle c :: ts⟩ : Machine α).GoesOn
        ⟨h.setContent c (.dying w), discard (some (.nullable o)) ++ .dismantle c :: ts⟩ := by
    intro v w o hcon hw
    have ho : (h.setContent c (.dying w)).outline = h.outline := by
      apply outline_modifyCell h c
      intro cell hcell
      obtain rfl := Option.some.inj (hc.symm.trans hcell)
      simp [hcon, Content.outline, hw]
    have hplain : ∀ t ∈ (discard (some (.nullable o)) : List (Task α)), t.dying? = none := fun _ => dying?_discard
    exact ⟨Machine.Sterile.append ⟨hst.values.of_outline ho, hst.tasks⟩ hplain,
      goesOn_of_outline rfl (Nat.le_of_eq (depth_append _ hplain _)) ho⟩
  unfold Machine.dismantle
  cases content with
  | live v => simp at hstatus
  | freed => simp at hstatus
  | dying v =>
    obtain ⟨data, script, fields, links⟩ := v
    rcases fields with _ | ⟨o, fields⟩
    · rcases links with _ | ⟨o, links⟩
      · simp only [hc]
        refine ⟨⟨hst.values.setContent c (j := .freed) rfl,
          fun c acts last ht => hst.tasks c acts last (List.mem_cons_of_mem _ ht)⟩,
          rfl, by simp [note, modifyCell], ?_, by simp [Machine.depth], rfl, fun c' => ?_⟩
        · have hlives := lives_setContent hc .freed
          exact hlives
        · have hfreed := status_setContent hc .freed c'
          show (h.setContent c .freed).status c' = some .live ↔ _
          rw [hfreed]
          by_cases hcc : c' = c
          · simp [hcc, hdying]
          · simp [hcc]
      · simp only [hc]
        exact hstrip o rfl rfl
    · simp only [hc]
      exact hstrip o rfl rfl

/-- A destructor goes on with some of what it had still to do, after something that leaves the
outlines as they are. -/
theorem script_step {acts acts' : List (Act α)} {last : Answer α} (last' : Answer α)
    (hst : (⟨h, .script c acts last :: ts⟩ : Machine α).Sterile) (ho : h'.outline = h.outline)
    (hsub : ∀ a ∈ acts', a ∈ acts) : (⟨h', .script c acts' last' :: ts⟩ : Machine α).Sterile ∧
      (⟨h, .script c acts last :: ts⟩ : Machine α).GoesOn ⟨h', .script c acts' last' :: ts⟩ := by
  refine ⟨⟨hst.values.of_outline ho, fun c' acts'' last'' ht => ?_⟩,
    goesOn_of_outline rfl (by simp [Machine.depth]) ho⟩
  rcases List.mem_cons.mp ht with he | ht
  · obtain ⟨rfl, rfl, -⟩ := Task.script.inj he
    exact fun a ha => hst.tasks _ acts last List.mem_cons_self a (hsub a ha)
  · exact hst.tasks c' acts'' last'' (List.mem_cons_of_mem _ ht)

/-- An act of a destructor that is performed: what it leaves to do belongs to no destruction. -/
theorem perform_step {acts : List (Act α)} {last : Answer α}
    (hs : Sound ⟨h, [], .script c (a :: acts) last :: ts⟩)
    (hst : (⟨h, .script c (a :: acts) last :: ts⟩ : Machine α).Sterile) :
    (⟨(h.perform (some c) a).heap, (h.perform (some c) a).todo ++
      .script c acts (h.perform (some c) a).answer :: ts⟩ : Machine α).Sterile ∧
    (⟨h, .script c (a :: acts) last :: ts⟩ : Machine α).GoesOn ⟨(h.perform (some c) a).heap,
      (h.perform (some c) a).todo ++ .script c acts (h.perform (some c) a).answer :: ts⟩ := by
  have hacting : Acting (some c) (.script c acts (h.perform (some c) a).answer :: ts) := by
    rintro c' e
    obtain rfl : c = c' := by simpa using e
    exact ⟨_, _, _, rfl⟩
  have hplain := (perform_heeds hs.advance hacting a).todo
  have ho : (h.perform (some c) a).heap.outline = h.outline :=
    perform_outline (hst.tasks c _ last List.mem_cons_self a List.mem_cons_self)
  obtain ⟨hsterile, hgoes⟩ := script_step (h.perform (some c) a).answer hst ho
    fun _ => List.mem_cons_of_mem a
  refine ⟨hsterile.append hplain, goesOn_of_outline rfl ?_ ho⟩
  rw [depth_append _ hplain]
  exact hgoes.depth

/-- What a destructor does next. -/
theorem act_step {acts : List (Act α)} {last : Answer α}
    (hs : Sound ⟨h, [], .script c (a :: acts) last :: ts⟩)
    (hst : (⟨h, .script c (a :: acts) last :: ts⟩ : Machine α).Sterile) :
    (Machine.act c a acts last h ts).Sterile ∧
      (⟨h, .script c (a :: acts) last :: ts⟩ : Machine α).GoesOn (Machine.act c a acts last h ts) := by
  have hrest : ∀ a' ∈ acts, a' ∈ a :: acts := fun _ => List.mem_cons_of_mem a
  cases a with
  | skipIf p n =>
    refine script_step last hst rfl fun a' ha' => hrest a' ?_
    split at ha'
    · exact List.mem_of_mem_drop ha'
    · exact ha'
  | giveUpIf p =>
    unfold Machine.act
    simp only
    split
    · have ho : (h.note (.gaveUp c)).outline = h.outline := rfl
      refine ⟨⟨hst.values.of_outline ho, fun c' acts' last' ht => ?_⟩, goesOn_of_outline rfl ?_ ho⟩
      · exact hst.tasks c' acts' last' (List.mem_cons_of_mem _ (List.mem_of_mem_filter ht))
      · exact depth_le_of_sublist (List.filter_sublist.cons _)
    · exact script_step last hst rfl hrest
  | report say => exact script_step last hst rfl hrest
  | _ => exact perform_step hs hst

/-- **What a step is**: the destruction of a live cell begins, or none does and as many
destructions are in progress as before or fewer. -/
theorem step_enters_or_goesOn (hs : Sound m.draft) (hst : m.Sterile) :
    m.step.Sterile ∧ ((∃ c, m.Enters m.step c) ∨ m.GoesOn m.step) := by
  obtain ⟨h, ts⟩ := m
  cases ts with
  | nil => exact ⟨hst, .inr (goesOn_of_outline rfl (Nat.le_refl _) rfl)⟩
  | cons t ts =>
    -- a task that is done and leaves the outlines as they are
    have hdone : ∀ {g : Heap α}, (⟨h, t :: ts⟩ : Machine α).begins = none → g.outline = h.outline →
        (⟨g, ts⟩ : Machine α).Sterile ∧
          ((∃ c, (⟨h, t :: ts⟩ : Machine α).Enters ⟨g, ts⟩ c) ∨ (⟨h, t :: ts⟩ : Machine α).GoesOn ⟨g, ts⟩) := by
      intro g hb ho
      refine ⟨hst.tail ho, .inr (goesOn_of_outline hb ?_ ho)⟩
      exact depth_le_of_sublist (List.sublist_cons_self t ts)
    cases t with
    | release o => exact release_step hs hst
    | adopt dst src =>
      refine hdone rfl ?_
      show (Machine.adopt dst src h).outline = h.outline
      unfold Machine.adopt
      split
      · rfl
      · simp
    | follow dst o =>
      refine hdone rfl ?_
      show (Machine.follow dst o h).outline = h.outline
      simp [Machine.follow]
    | place dst q => exact hdone rfl (outline_poke h dst _)
    | unlend p => exact hdone rfl (outline_unlend h p)
    | unshare p => exact hdone rfl (outline_unshare h p)
    | dismantle c =>
      obtain ⟨hsterile, hgoes⟩ := dismantle_step hs hst
      exact ⟨hsterile, .inr hgoes⟩
    | script c acts last =>
      cases acts with
      | nil => exact hdone rfl rfl
      | cons a acts =>
        obtain ⟨hsterile, hgoes⟩ := act_step hs hst
        exact ⟨hsterile, .inr hgoes⟩

/-! ### Cascades -/

/-- What is known after `k` steps. -/
structure Cascade (m : Machine α) (k : Nat) : Prop where
  sound : Sound (m.run k).draft
  sterile : (m.run k).Sterile
  nodup : (m.begun k).Nodup
  live : ∀ c ∈ m.begun k, m.heap.status c = some .live
  /-- A cell is not live any more once its destruction has begun. -/
  entered : ∀ c ∈ m.begun k, (m.run k).heap.status c ≠ some .live
  subset : ∀ c, (m.run k).heap.status c = some .live → m.heap.status c = some .live
  cells : (m.run k).heap.cells.length = m.heap.cells.length
  /-- The measure of the recursion. -/
  lives : (m.begun k).length + (m.run k).heap.lives = m.heap.lives
  depth : (m.run k).depth ≤ m.depth + (m.begun k).length
  destroyed : (m.run k).heap.destroyed = (m.begun k).reverse ++ m.heap.destroyed

theorem begun_succ (m : Machine α) (k : Nat) : m.begun (k + 1) = m.begun k ++ (m.run k).begins.toList := by
  simp only [Machine.begun, List.range_succ, List.filterMap_append, List.append_cancel_left_eq]
  cases hb : (m.run k).begins <;> simp [hb]

/-- What has begun once has begun later too. -/
theorem begun_grows (m : Machine α) {j : Nat} (hjk : j ≤ k) : m.begun j <+: m.begun k := by
  induction hjk with
  | refl => exact List.prefix_refl _
  | step _ ih =>
    rw [begun_succ]
    exact ih.trans (List.prefix_append _ _)

theorem cascade_zero (hs : Sound m.draft) (hst : m.Sterile) : Cascade m 0 where
  sound := hs
  sterile := hst
  nodup := .nil
  live c hc := by simp [Machine.begun] at hc
  entered c hc := by simp [Machine.begun] at hc
  subset _ hc := hc
  cells := rfl
  lives := Nat.zero_add _
  depth := Nat.le_refl _
  destroyed := rfl

/-- **One step more.** -/
theorem Cascade.succ (hc : Cascade m k) : Cascade m (k + 1) := by
  obtain ⟨hsterile, hstep⟩ := step_enters_or_goesOn hc.sound hc.sterile
  have hsound : Sound (m.run (k + 1)).draft := by
    rw [run_succ]
    exact (step_edits hc.sound).sound hc.sound
  rw [← run_succ] at hsterile hstep
  rcases hstep with ⟨c, he⟩ | hg
  · have hbegun : m.begun (k + 1) = m.begun k ++ [c] := by
      rw [begun_succ, he.begins]
      rfl
    have hnew : c ∉ m.begun k := fun hmem => hc.entered c hmem he.live
    refine ⟨hsound, hsterile, ?_, ?_, ?_, fun c' hc' => hc.subset c' ((he.status c').mp hc').1,
      he.cells.trans hc.cells, ?_, ?_, ?_⟩
    · rw [hbegun, ← List.concat_eq_append]
      exact hc.nodup.concat hnew
    · intro c' hc'
      rw [hbegun] at hc'
      rcases List.mem_append.mp hc' with hc' | hc'
      · exact hc.live c' hc'
      · rw [List.mem_singleton.mp hc']
        exact hc.subset c he.live
    · intro c' hc' hlive
      rw [hbegun] at hc'
      have hboth := (he.status c').mp hlive
      rcases List.mem_append.mp hc' with hc' | hc'
      · exact hc.entered c' hc' hboth.1
      · exact hboth.2 (List.mem_singleton.mp hc')
    · have hlives := hc.lives
      have hfell := he.lives
      rw [hbegun, List.length_append, List.length_singleton]
      omega
    · have hdepth := hc.depth
      rw [he.depth, hbegun, List.length_append, List.length_singleton]
      omega
    · rw [he.destroyed, hc.destroyed, hbegun]
      simp
  · have hbegun : m.begun (k + 1) = m.begun k := by
      rw [begun_succ, hg.begins]
      exact List.append_nil _
    refine ⟨hsound, hsterile, ?_, ?_, ?_, fun c hlive => hc.subset c ((hg.status c).mp hlive),
      hg.cells.trans hc.cells, ?_, ?_, hg.destroyed.trans ?_⟩
    all_goals rw [hbegun]
    · exact hc.nodup
    · exact hc.live
    · exact fun c hmem hlive => hc.entered c hmem ((hg.status c).mp hlive)
    · rw [hg.lives]
      exact hc.lives
    · exact Nat.le_trans hg.depth hc.depth
    · exact hc.destroyed

/-- So it is after any number of steps. -/
theorem cascade (hs : Sound m.draft) (hst : m.Sterile) (k : Nat) : Cascade m k := by
  induction k with
  | zero => exact cascade_zero hs hst
  | succ k ih => exact ih.succ

theorem performRelink_plain (r : Ref) (path : List Hop) (j : Nat) (src : Ref) :
    ∀ t ∈ (h.performRelink r path j src).todo, t.dying? = none := by
  intro t ht
  unfold performRelink at ht
  repeat' split at ht
  all_goals first
    | exact dying?_discard ht
    | exact absurd ht List.not_mem_nil

/-- What an operation leaves to do belongs to no destruction. -/
theorem start_plain (hs : Sound ⟨h, [], []⟩) (op : Op α) :
    ∀ t ∈ (Machine.start h op).tasks, t.dying? = none := by
  cases op with
  | act a =>
    have hcaller : Acting none ([] : List (Task α)) := fun _ e => by simp at e
    exact (perform_heeds hs hcaller a).todo
  | relink r path j src => exact performRelink_plain r path j src

/-- An operation that makes no cell sets off a cascade in a heap at rest. -/
theorem Sound.start_cascade (hs : Sound ⟨h, [], []⟩) (hst : h.Sterile) (hop : op.makes = false) (k : Nat) :
    Cascade (Machine.start h op) k := by
  have ho : (Machine.start h op).heap.outline = h.outline := operate_outline hop
  have hplain := start_plain hs op
  exact cascade ((operate_edits hs op).sound hs)
    ⟨hst.of_outline ho, fun c acts last ht => absurd (hplain _ ht) (by simp [Task.dying?])⟩ k

/-- With each destruction that begins there is one live cell less. -/
theorem lives_lt_of_begins (hc : ∀ k, Cascade m k) {j : Nat} (hjk : j < k) (hb : (m.run j).begins.isSome) :
    (m.run k).heap.lives < (m.run j).heap.lives := by
  have hgrow : (m.begun (j + 1)).length ≤ (m.begun k).length := (begun_grows m hjk).length_le
  have hone : (m.begun (j + 1)).length = (m.begun j).length + 1 := by
    obtain ⟨c, hbegins⟩ := Option.isSome_iff_exists.mp hb
    rw [begun_succ, hbegins, List.length_append]
    rfl
  have hj := (hc j).lives
  have hk := (hc k).lives
  omega

/-- When nothing is left to do, a cell that is not live is freed. -/
theorem Sound.freed_of_not_live (hs : Sound ⟨h, [], []⟩) (hthere : h.status c ≠ none)
    (hlive : h.status c ≠ some .live) : h.status c = some .freed := by
  have hdying : h.status c ≠ some .dying := fun hd => List.not_mem_nil ((hs.dying c).mp hd)
  rcases hstatus : h.status c with _ | _ | _ | _
  · exact absurd hstatus hthere
  · exact absurd hstatus hlive
  · exact absurd hstatus hdying
  · rfl

/-- **Every cascade ends, and is nested no deeper than there were live cells.** In a heap at rest
whose destructors make no cells, and may do all else with their own pointers and those of the
caller that are not borrowed, an operation that makes none sets off a cascade that is over after
finitely many steps. At each step, each destruction that has begun is that of another cell; all
were live at first, and no owner of them is registered any more. As many cells have ceased to be
live as destructions have begun, so these are no more than the live cells that there were, and
no more are in progress at the same time, each in the course of the one before. So whatever begins
in the course of a destruction finds fewer cells live. In the end each of the cells is freed. -/
theorem Sound.cascade_ends (hs : Sound ⟨h, [], []⟩) (hst : h.Sterile) (hop : op.makes = false) :
    (∃ k, ((Machine.start h op).run k).tasks = []) ∧
    (∀ k, ((Machine.start h op).begun k).Nodup ∧
      (∀ c ∈ (Machine.start h op).begun k, h.status c = some .live ∧
        (((Machine.start h op).run k).heap.count c).owners = 0) ∧
      ((Machine.start h op).begun k).length + ((Machine.start h op).run k).heap.lives = h.lives ∧
      ((Machine.start h op).run k).depth + ((Machine.start h op).run k).heap.lives ≤ h.lives ∧
      ((Machine.start h op).run k).heap.destroyed = ((Machine.start h op).begun k).reverse ++ h.destroyed ∧
      ((Machine.start h op).run k).heap.cells.length = h.cells.length ∧
      (((Machine.start h op).run k).tasks = [] → ∀ c ∈ (Machine.start h op).begun k,
        ((Machine.start h op).run k).heap.status c = some .freed)) ∧
    ∀ j k, j < k → ((Machine.start h op).run j).begins.isSome →
      ((Machine.start h op).run k).heap.lives < ((Machine.start h op).run j).heap.lives := by
  have ho : (Machine.start h op).heap.outline = h.outline := operate_outline hop
  have hall : ∀ k, Cascade (Machine.start h op) k := hs.start_cascade hst hop
  have hdepth : (Machine.start h op).depth = 0 := by
    have happend := depth_append (Machine.start h op).heap (start_plain hs op) []
    rwa [List.append_nil] at happend
  have hlives : (Machine.start h op).heap.lives = h.lives := lives_of_outline ho
  have hcells : (Machine.start h op).heap.cells.length = h.cells.length := length_cells_of_outline ho
  have hdestroyed : (Machine.start h op).heap.destroyed = h.destroyed := congrArg Prod.snd ho
  refine ⟨⟨_, run_tasks _ _ (Nat.le_refl _)⟩, fun k => ?_, fun j k hjk hb => lives_lt_of_begins hall hjk hb⟩
  have hc := hall k
  refine ⟨hc.nodup, fun c hmem => ⟨(status_live_of_outline ho c).mp (hc.live c hmem), ?_⟩,
    hc.lives.trans hlives, ?_, ?_, hc.cells.trans hcells, fun ht c hmem => ?_⟩
  · have hcount := (hc.sound.alive c).not.mpr (hc.entered c hmem)
    exact Nat.eq_zero_of_not_pos hcount
  · have hbound := hc.depth
    have hmeasure := hc.lives
    omega
  · rw [hc.destroyed, hdestroyed]
  · have hthere : ((Machine.start h op).run k).heap.status c ≠ none := by
      rw [Ne, status_eq_none, hc.cells, ← status_eq_none, hc.live c hmem]
      simp
    have hidle : Sound ⟨((Machine.start h op).run k).heap, [], []⟩ := by
      have hsound : Sound ⟨((Machine.start h op).run k).heap, [], ((Machine.start h op).run k).tasks⟩ := hc.sound
      rwa [ht] at hsound
    exact hidle.freed_of_not_live hthere (hc.entered c hmem)

theorem sterile_iff : h.Sterile ↔
    ∀ cell ∈ h.cells, cell.content.live?.all (fun v => v.script.all fun a => !a.makes) = true := by
  constructor
  · intro hst cell hcell
    obtain ⟨c, hc⟩ := List.getElem?_of_mem hcell
    cases hv : cell.content.live? with
    | none => rfl
    | some v =>
      have hlive : h.live? c = some v := by simp [live?_eq_bind, hc, hv]
      simpa using hst c v hlive
  · intro hall c v hv
    obtain ⟨cell, hc, hcon⟩ := live?_eq_some.mp hv
    simpa [hcon, Content.live?] using hall cell (List.mem_of_getElem? hc)

instance : Decidable h.Sterile := decidable_of_iff _ sterile_iff.symm

/-- The pointer in the third variable owns a value with a field, whose destructor drops the pointer
in the second variable. -/
def nestedHeap : Heap Nat :=
  [.act (.make (.var 1) .nullable 5 [] [] [] 8), .act (.make (.var 0) .nullable 6 [.drop (.var 1)] [] [] 16),
    .act (.make (.var 2) .nullable 7 [] [some (.var 0)] [] 24)].foldl
    (fun h op => (h.exec op).1) (.empty 3)

theorem nestedHeap_moment : Moment 3 (⟨nestedHeap, []⟩ : Machine Nat) :=
  ((Moment.empty.exec _).exec _).exec _

theorem nestedHeap_cascade : nestedHeap.lives = 3 ∧
    (∃ k, ((Machine.start nestedHeap (.act (.drop (.var 2)))).run k).tasks = []) ∧
    ((Machine.start nestedHeap (.act (.drop (.var 2)))).begun 12).Nodup ∧
    (Machine.start nestedHeap (.act (.drop (.var 2)))).begun 12 = [2, 1, 0] ∧
    ((Machine.start nestedHeap (.act (.drop (.var 2)))).run 6).depth = 3 ∧
    ∀ k, ((Machine.start nestedHeap (.act (.drop (.var 2)))).run k).depth ≤ 3 := by
  have hlives : nestedHeap.lives = 3 := by decide
  have hsound : Sound ⟨nestedHeap, [], []⟩ := nestedHeap_moment.sound
  have hop : (Op.act (.drop (.var 2)) : Op Nat).makes = false := rfl
  have hends := Sound.cascade_ends hsound (by decide) hop
  refine ⟨hlives, hends.1, (hends.2.1 12).1, by decide, by decide, fun k => ?_⟩
  have hdepth := (hends.2.1 k).2.2.2.1
  omega

end Custody.Heap
