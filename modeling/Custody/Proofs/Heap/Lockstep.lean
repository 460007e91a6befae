/-
# Two cascades in lockstep

Two machines whose heaps are beside each other, and that have the same to do, take the same
steps, as long as the pointer in some place stays borrowed that has the cell with an owner more
as its target. No destructor that runs meanwhile can get at what is odd: the odd places are
borrowed too, or belong to a value that waits to be dismantled, and whoever comes to the cell
other than by the borrowed pointer finds that it is shared.

Key definitions: `Paired`, `Lockstep`.
Key theorems: `Lockstep.hidden`, `Lockstep.answers`, `Lockstep.step`.
-/
import Custody.Proofs.Heap.Abreast

namespace Custody.Heap

variable {α : Type} {D : Odds} {root src : Place} {b : Owner} {back : List (Task α)} {m m' : Machine α}
  {h h' : Heap α} {ts ts' : List (Task α)} {c : CellId}

/-- The heaps are beside each other, and the same is to do. -/
structure Paired (D : Odds) (m m' : Machine α) : Prop where
  heap : Beside D m.heap m'.heap
  tasks : List.Forall₂ D.Tasks m.tasks m'.tasks

/-- What holds of two machines while the tasks `back` wait for the first: the pointer in `root`
is borrowed, it leads to the one in `src`, and that is the owner `b` of the cell with an owner
more; and what is odd is borrowed too. -/
structure Lockstep (D : Odds) (root src : Place) (b : Owner) (back : List (Task α))
    (m m' : Machine α) : Prop where
  paired : Paired D m m'
  guarded : Guarded m back
  minded : Minded back root
  under : m.heap.Under root src
  source : m.heap.pointer? src = some (.nullable (some b))
  extra : D.extra = some b.cell
  gap : ∀ p, D.gap = some p → p.keeper ∈ back
  sure : ∀ i ∈ D.sure, Minded back (.var i)

theorem minded_of_keeper {p : Place} (hp : p.keeper ∈ back) : Minded back p := by
  cases p with
  | var i => exact .inr hp
  | inside c hop => exact hp

/-- A pointer that leads to one with a target has a target. -/
theorem Under.ownerAt_ne {q : Place} (hq : h.Under root q) (ho : h.ownerAt q ≠ none) :
    h.ownerAt root ≠ none := by
  induction hq with
  | root => exact ho
  | inside _ hp _ ih => exact ih (by simp [hp])

namespace Lockstep

variable (hl : Lockstep D root src b back m m')
include hl

theorem ownerAt_src : m.heap.ownerAt src = some b :=
  ownerAt_eq_some.mpr ⟨_, hl.source, rfl⟩

theorem pos {p : Place} {o : Owner} (ho : m.heap.ownerAt p = some o) :
    0 < (m.heap.count o.cell).owners :=
  (hl.guarded.sound.alive o.cell).mpr (hl.guarded.sound.live_of_ownerAt ho)

/-- Only the borrowed pointer can be the only owner of the cell that has an owner more. -/
theorem eq_src {p : Place} {o : Owner} (ho : m.heap.ownerAt p = some o) (hextra : D.extra = some o.cell)
    (hone : (m.heap.count o.cell).owners = 1) : p = src := by
  have hcell : b.cell = o.cell := Option.some.inj (hl.extra.symm.trans hextra)
  exact hl.guarded.sound.eq_of_ownerAt ho hl.ownerAt_src hcell hone

/-- **No destructor that runs can get at what is odd.** -/
theorem hidden {acts : List (Act α)} {last : Answer α} (ht : .script c acts last ∈ m.tasks) :
    Hidden D m.heap (some c) fun p => ¬ m.heap.Under root p where
  claimed r p hp := by
    refine ⟨⟨fun hgap => ?_, fun i hi he => ?_⟩, hl.guarded.claim_not_under hl.minded ht hp⟩
    · exact hl.guarded.claim_ne (minded_of_keeper (hl.gap p hgap)) ht hp
    · exact hl.guarded.claim_ne (hl.sure i hi) ht (he ▸ hp)
  viewed r p hp hgap := by
    have hkeeper := hl.gap p hgap
    have hplace := view_eq_place hp
    cases p with
    | var i =>
      have hlent := (hl.guarded.sound.lent i).mpr (List.mem_append_right _ hkeeper)
      have hread := (view_eq_ok hp).2
      simp only [readable, isLent] at hread hlent
      cases hv : m.heap.vars[i]? <;> simp [hv] at hread hlent
      simp [hread] at hlent
    | inside c' hop =>
      obtain ⟨-, hnot⟩ := hl.guarded.dying_of_minded (minded_of_keeper hkeeper) rfl
      cases r with
      | var i => simp [place?] at hplace
      | own hop' =>
        obtain ⟨rfl, -⟩ : c = c' ∧ hop' = hop := by simpa [place?] using hplace
        exact hnot (hl.guarded.closed c acts last ht)
  closed p c v hop hp hthrough := hl.guarded.through_not_under hl.minded hp hthrough hop
  shared p o hp ho hextra := by
    have hpos := hl.pos ho
    have hne : (m.heap.count o.cell).owners ≠ 1 := fun hone => by
      rw [hl.eq_src ho hextra hone] at hp
      exact hp hl.under
    omega
  extra hextra := by
    have hlive := hl.guarded.sound.live_of_ownerAt hl.ownerAt_src
    rw [Option.some.inj (hl.extra.symm.trans hextra)] at hlive
    simp [status] at hlive
  gap hop hgap := by
    have hdying := (hl.guarded.dying_of_minded (minded_of_keeper (hl.gap _ hgap)) rfl).1
    simp [status] at hdying

/-- What a destructor is answered is the same; if not, it asked whether the borrowed pointer is
the only owner of its target. -/
theorem answers {a : Act α} {acts : List (Act α)} {last : Answer α}
    (ht : .script c (a :: acts) last ∈ m.tasks) (hfair : a.Fair D.sure) :
    (m'.heap.perform (some c) a).answer = (m.heap.perform (some c) a).answer ∨
    ∃ r path root' x, a = .ask (.isUnique r path) ∧
      m.heap.find (some c) r path = .ok (root', src, x) ∧
      (m.heap.perform (some c) a).answer = .unique true ∧
      (m'.heap.perform (some c) a).answer = .unique false := by
  have hh := hl.hidden ht
  by_cases hask : ∃ q, a = .ask q
  · obtain ⟨q, rfl⟩ := hask
    rcases hl.paired.heap.query hh (fun p o => hl.pos) q with
      hsame | ⟨r, path, root', p, x, o, rfl, hf, ho, hextra, hone, htrue, hfalse⟩
    · exact .inl hsame
    · have hat := ownerAt_eq_some.mpr ⟨x, (find_eq_ok hf).2.2.2, ho⟩
      obtain rfl := hl.eq_src hat hextra hone
      exact .inr ⟨r, path, root', x, rfl, hf, htrue, hfalse⟩
  · exact .inl (hl.paired.heap.perform hh hfair fun q he => hask ⟨q, he⟩).answer

end Lockstep

/-! ### Steps -/

/-- Whether no destructor gives up from now on. -/
def Machine.Calm (m : Machine α) : Prop :=
  ∀ k, ¬ (m.run k).GivesUp

theorem step_of_nil (hm : m.tasks = []) : m.step = m := by
  unfold Machine.step
  rw [hm]

theorem run_of_nil (hm : m.tasks = []) (k : Nat) : m.run k = m := by
  cases k <;> simp [Machine.run, hm]

theorem step_run (m : Machine α) (k : Nat) : m.step.run k = m.run (k + 1) := by
  by_cases hnil : m.tasks = []
  · rw [step_of_nil hnil, run_of_nil hnil, run_of_nil hnil]
  · have hne : m.tasks.isEmpty = false := by simpa using hnil
    simp only [Machine.run, hne, Bool.false_eq_true, if_false]

theorem run_succ (k : Nat) : ∀ m : Machine α, m.run (k + 1) = (m.run k).step := by
  induction k with
  | zero => exact fun m => (step_run m 0).symm
  | succ k ih =>
    intro m
    rw [← step_run, ih, step_run]

theorem Machine.Calm.step (hm : m.Calm) : m.step.Calm := fun k => by
  rw [step_run]
  exact hm (k + 1)

/-- No destructor gives up in either machine. -/
theorem Paired.not_givesUp (hp : Paired D m m') : ¬ m.GivesUp ∧ ¬ m'.GivesUp := by
  have htasks := hp.tasks
  constructor
  · rintro ⟨c, p, acts, last, rest, hts, hlast⟩
    rw [hts] at htasks
    obtain ⟨t', ts', ht, -, -⟩ := List.forall₂_cons_left_iff.mp htasks
    cases ht with
    | script c hfair hlike => simp [hfair.1 last] at hlast
  · rintro ⟨c, p, acts, last, rest, hts, hlast⟩
    rw [hts] at htasks
    obtain ⟨t, ts, ht, -, -⟩ := List.forall₂_cons_right_iff.mp htasks
    cases ht with
    | script c hfair hlike => simp [hfair.1 last] at hlast

/-- The value of a dying cell has the same pointers left in both heaps. -/
theorem contents_dying {v v' : Value α} (hgap : ∀ hop, D.gap ≠ some (.inside c hop))
    (hfields : v'.fields.map (Option.map Owner.cell) = v.fields.map (Option.map Owner.cell))
    (hlinks : v'.links.map (Option.map Owner.cell) = v.links.map (Option.map Owner.cell)) :
    D.Contents c (.dying v) (.dying v') := by
  refine .dying fun hop => ?_
  rw [funext (Odds.target_of_ne (hgap hop))]
  cases hop with
  | field k => simpa [Value.get?] using congrArg (·[k]?) hfields
  | link k => simpa [Value.get?] using congrArg (·[k]?) hlinks

theorem lists_of_dying {v v' : Value α} (hgap : ∀ hop, D.gap ≠ some (.inside c hop))
    (hv : ∀ hop, (v'.get? hop).map (Option.map Owner.cell) =
      (v.get? hop).map (D.target (.inside c hop))) :
    v'.fields.map (Option.map Owner.cell) = v.fields.map (Option.map Owner.cell) ∧
      v'.links.map (Option.map Owner.cell) = v.links.map (Option.map Owner.cell) := by
  have hget : ∀ hop, (v'.get? hop).map (Option.map Owner.cell) =
      (v.get? hop).map (Option.map Owner.cell) := fun hop => by
    rw [hv hop, funext (Odds.target_of_ne (hgap hop))]
  constructor
  · apply List.ext_getElem? fun k => ?_
    simpa [Value.get?] using hget (.field k)
  · apply List.ext_getElem? fun k => ?_
    simpa [Value.get?] using hget (.link k)

/-- An owner signs off in both, and if it is not the last in the first heap, it is not in the
second. -/
theorem Beside.release (hb : Beside D h h') (hts : List.Forall₂ D.Tasks ts ts') {o o' : Owner}
    (ho : o'.cell = o.cell) (hlive : h.status o.cell = some .live)
    (hpos : 0 < (h.count o.cell).owners)
    (hextra : D.extra = some o.cell → (h.count o.cell).owners ≠ 1) :
    Paired D (Machine.release o h ts) (Machine.release o' h' ts') := by
  obtain ⟨n, hn⟩ := Nat.exists_eq_add_of_lt hpos
  rw [Nat.zero_add] at hn
  have hn' := hb.count_eq (ne_none_of_status hlive)
  cases n with
  | zero =>
    rw [if_neg fun he => hextra he hn, hn] at hn'
    rcases hb.live_cases o.cell with ⟨hnone, -⟩ | ⟨v, v', hv, hv', hlike, hfair, hout⟩
    · obtain ⟨v, hv⟩ := exists_live? hlive
      simp [hv] at hnone
    · rw [release_last hn hv, release_last (by rw [ho, hn']) (by rw [ho]; exact hv')]
      refine ⟨?_, ?_⟩
      · have hdying := (hb.signOff ho hpos).setContent o.cell
          (contents_dying hout hlike.fields hlike.links)
        unfold condemn
        rw [ho, hlike.data]
        exact hdying.note (.refl _)
      · rw [ho, hlike.script]
        exact .cons (.script _ hfair (.refl _)) (.cons (.dismantle _) hts)
  | succ n =>
    obtain ⟨n', hn''⟩ : ∃ n', (h'.count o'.cell).owners = n' + 2 := by
      rw [ho, hn', hn]
      exact ⟨n + if D.extra = some o.cell then 1 else 0, by omega⟩
    rw [release_more hn, release_more hn'']
    exact ⟨hb.signOff ho hpos, hts⟩

theorem Beside.adopt (hb : Beside D h h') {dst src : Place} (hdst : D.Plain dst) (hsrc : D.Plain src) :
    Beside D (Machine.adopt dst src h) (Machine.adopt dst src h') := by
  unfold Machine.adopt
  rcases map_cases (hb.pointer?_of_plain hsrc) with ⟨hq, hq'⟩ | ⟨q, q', hq, hq', harrow⟩
  · rw [hq, hq']
    exact hb
  · rw [hq, hq']
    have hcopy : (h'.duplicate q').1.arrow = (h.duplicate q).1.arrow := by
      rw [arrow_duplicate, arrow_duplicate, harrow]
    exact (hb.duplicate harrow).poke hdst (congrArg some hcopy)

theorem Beside.follow (hb : Beside D h h') {dst : Place} (hdst : D.Plain dst) {o o' : Owner}
    (ho : o'.cell = o.cell) : Beside D (Machine.follow dst o h) (Machine.follow dst o' h') := by
  unfold Machine.follow
  simp only [ho]
  exact (hb.acquire o.cell).poke hdst rfl

theorem Beside.dismantle (hb : Beside D h h') (hts : List.Forall₂ D.Tasks ts ts')
    (hgap : ∀ hop, D.gap ≠ some (.inside c hop)) :
    Paired D (Machine.dismantle c h ts) (Machine.dismantle c h' ts') := by
  have hmore : ∀ {o o' : Option Owner} {v v' : Value α}, o'.map Owner.cell = o.map Owner.cell →
      v'.fields.map (Option.map Owner.cell) = v.fields.map (Option.map Owner.cell) →
      v'.links.map (Option.map Owner.cell) = v.links.map (Option.map Owner.cell) →
      Paired D ⟨h.setContent c (.dying v), Custody.Heap.discard (some (.nullable o)) ++ .dismantle c :: ts⟩
        ⟨h'.setContent c (.dying v'), Custody.Heap.discard (some (.nullable o')) ++ .dismantle c :: ts'⟩ :=
    fun ho hf hl => ⟨hb.setContent c (contents_dying hgap hf hl),
      List.rel_append (discard_nullable ho) (.cons (.dismantle c) hts)⟩
  unfold Machine.dismantle
  rcases rel_cases (hb.cells c) with ⟨hc, hc'⟩ | ⟨⟨_, _, k⟩, ⟨_, _, k'⟩, hc, hc', -, -, hk⟩
  · rw [hc, hc']
    exact ⟨hb, hts⟩
  · rw [hc, hc']
    cases hk with
    | live => exact ⟨hb, hts⟩
    | freed => exact ⟨hb, hts⟩
    | @dying v v' hv =>
      obtain ⟨hfields, hlinks⟩ := lists_of_dying hgap hv
      obtain ⟨data, script, fields, links⟩ := v
      obtain ⟨data', script', fields', links'⟩ := v'
      cases fields with
      | cons o fields =>
        obtain ⟨o', fields', rfl, ho, hrest⟩ := List.map_eq_cons_iff.mp hfields
        exact hmore ho hrest hlinks
      | nil =>
        obtain rfl : fields' = [] := List.map_eq_nil_iff.mp hfields
        cases links with
        | cons o links =>
          obtain ⟨o', links', rfl, ho, hrest⟩ := List.map_eq_cons_iff.mp hlinks
          exact hmore ho rfl hrest
        | nil =>
          obtain rfl : links' = [] := List.map_eq_nil_iff.mp hlinks
          exact ⟨(hb.setContent c .freed).note (.refl _), hts⟩

namespace Lockstep

theorem act {a : Act α} {acts : List (Act α)} {last last' : Answer α}
    (hl : Lockstep D root src b back ⟨h, .script c (a :: acts) last :: ts⟩ m')
    (hb : Beside D h h') (hts : List.Forall₂ D.Tasks ts ts') (hfair : Act.AllFair D.sure (a :: acts))
    (hlast : last.Alike last') :
    Paired D (Machine.act c a acts last h ts) (Machine.act c a acts last' h' ts') := by
  have hmem : .script c (a :: acts) last ∈ (⟨h, .script c (a :: acts) last :: ts⟩ : Machine α).tasks :=
    List.mem_cons_self
  have hh := hl.hidden hmem
  have hperform : (∀ q, a ≠ .ask q) → Paired D
      ⟨(h.perform (some c) a).heap, (h.perform (some c) a).todo ++
        .script c acts (h.perform (some c) a).answer :: ts⟩
      ⟨(h'.perform (some c) a).heap, (h'.perform (some c) a).todo ++
        .script c acts (h'.perform (some c) a).answer :: ts'⟩ := by
    intro hask
    have ho := hb.perform hh hfair.1 hask
    rw [ho.answer]
    exact ⟨ho.heap, List.rel_append ho.todo (.cons (.script c hfair.2 (.refl _)) hts)⟩
  cases a with
  | ask q =>
    have hanswer : (h.query (some c) q).Alike (h'.query (some c) q) := by
      rcases hb.query hh (fun p o => hl.pos) q with hsame | ⟨_, _, _, _, _, _, _, _, _, _, _, ht, hf⟩
      · exact hsame ▸ .refl _
      · rw [ht, hf]
        exact .unique
    exact ⟨hb, .cons (.script c hfair.2 hanswer) hts⟩
  | skipIf p n =>
    have hp := hlast.eq_of_fair hfair.1
    unfold Machine.act
    simp only [hp]
    refine ⟨hb, .cons (.script c ?_ hlast) hts⟩
    split
    · exact hfair.2.drop n
    · exact hfair.2
  | giveUpIf p =>
    have hp : ∀ a, p a = false := hfair.1
    unfold Machine.act
    simp only [hp, Bool.false_eq_true, if_false]
    exact ⟨hb, .cons (.script c hfair.2 hlast) hts⟩
  | report say =>
    refine ⟨hb.note ?_, .cons (.script c hfair.2 hlast) hts⟩
    cases hlast with
    | refl => exact .refl _
    | unique => exact .reported c _ _
  | _ => exact hperform (by simp)

/-- The same is done in both machines. -/
theorem paired_step (hl : Lockstep D root src b back m m') : Paired D m.step m'.step := by
  obtain ⟨h, ts⟩ := m
  obtain ⟨h', ts'⟩ := m'
  have hb : Beside D h h' := hl.paired.heap
  have htasks : List.Forall₂ D.Tasks ts ts' := hl.paired.tasks
  cases htasks with
  | nil => exact hl.paired
  | @cons t t' ts ts' ht hts =>
    cases ht with
    | @release o o' ho =>
      have hs : Sound ⟨h, [], .release o :: (ts ++ back)⟩ := hl.guarded.sound
      have hlive := hs.live_of_mem (o := o) (by simp [Draft.owners, Task.owners])
      refine hb.release hts ho hlive ((hs.alive o.cell).mpr hlive) fun hextra => ?_
      exact hs.count_ne_one hl.ownerAt_src (Option.some.inj (hl.extra.symm.trans hextra))
    | adopt hdst hsrc => exact ⟨hb.adopt hdst hsrc, hts⟩
    | follow hdst ho => exact ⟨hb.follow hdst ho, hts⟩
    | place hdst hq => exact ⟨hb.poke hdst (congrArg some hq), hts⟩
    | unlend p => exact ⟨hb.unlend p, hts⟩
    | unshare p => exact ⟨hb.unshare p, hts⟩
    | @script c acts last last' hfair hlast =>
      cases acts with
      | nil => exact ⟨hb, hts⟩
      | cons a acts => exact hl.act hb hts hfair hlast
    | dismantle c =>
      refine hb.dismantle hts fun hop hgap => ?_
      exact (hl.guarded.dying_of_minded (minded_of_keeper (hl.gap _ hgap)) rfl).2 List.mem_cons_self

/-- **Machines in lockstep are so after each has taken a step.** -/
theorem step (hl : Lockstep D root src b back m m') : Lockstep D root src b back m.step m'.step := by
  by_cases hm : m.tasks = []
  · have hm' : m'.tasks = [] := List.forall₂_nil_left_iff.mp (hm ▸ hl.paired.tasks)
    rwa [step_of_nil hm, step_of_nil hm']
  have hroot : m.heap.ownerAt root ≠ none := hl.under.ownerAt_ne (by simp [hl.ownerAt_src])
  have hpeek : ∀ q, m.heap.Under root q → m.step.heap.peek q = m.heap.peek q := fun q hq =>
    hl.guarded.peek_step hl.minded (isSome_of_ownerAt hroot) (hl.guarded.open_of_ownerAt hroot) hq
  exact ⟨hl.paired_step, hl.guarded.step_of_calm hm hl.paired.not_givesUp.1, hl.minded, hl.under.congr hpeek,
    (congrArg Option.join (hpeek src hl.under)).trans hl.source, hl.extra, hl.gap, hl.sure⟩

/-- So they are after as many steps of each. -/
theorem run (hl : Lockstep D root src b back m m') (k : Nat) :
    Lockstep D root src b back (m.run k) (m'.run k) := by
  induction k with
  | zero => exact hl
  | succ k ih =>
    rw [run_succ, run_succ]
    exact ih.step

theorem calm (hl : Lockstep D root src b back m m') : m.Calm ∧ m'.Calm :=
  ⟨fun k => (hl.run k).paired.not_givesUp.1, fun k => (hl.run k).paired.not_givesUp.2⟩

/-- And so they are when all is done. -/
theorem settle (hl : Lockstep D root src b back m m') :
    Lockstep D root src b back m.settle m'.settle := by
  rw [settle_eq_run (Nat.le_max_left m.weight m'.weight),
    settle_eq_run (Nat.le_max_right m.weight m'.weight)]
  exact hl.run _

end Lockstep

/-! ### Tasks that wait until all is done -/

/-- Whether the task only ends a loan or puts a pointer where it belongs. -/
def Task.isClosing : Task α → Bool
  | .adopt _ _ => true
  | .place _ _ => true
  | .unlend _ => true
  | .unshare _ => true
  | _ => false

theorem closing_step {m : Machine α} (hm : ∀ t ∈ m.tasks, t.isClosing = true) :
    ∀ t ∈ m.step.tasks, t.isClosing = true := by
  obtain ⟨h, ts⟩ := m
  cases ts with
  | nil => exact hm
  | cons t ts =>
    have ht : t.isClosing = true := hm t List.mem_cons_self
    have hrest : ∀ t ∈ ts, t.isClosing = true := fun t ht => hm t (List.mem_cons_of_mem _ ht)
    cases t <;> first | exact hrest | simp [Task.isClosing] at ht

/-- Tasks that wait stay where they are until the others are done. -/
theorem run_append (hcalm : m.Calm) (hback : ∀ t ∈ back, t.isClosing = true) (k : Nat) :
    (⟨m.heap, m.tasks ++ back⟩ : Machine α).run k = ⟨(m.run k).heap, (m.run k).tasks ++ back⟩ ∨
    (m.run k).tasks = [] ∧
      ∀ t ∈ ((⟨m.heap, m.tasks ++ back⟩ : Machine α).run k).tasks, t.isClosing = true := by
  induction k with
  | zero => exact .inl rfl
  | succ k ih =>
    rw [run_succ, run_succ]
    rcases ih with hk | ⟨hnil, hclosing⟩
    · by_cases hnil : (m.run k).tasks = []
      · refine .inr ⟨by rwa [step_of_nil hnil], closing_step ?_⟩
        rw [hk, hnil]
        exact hback
      · obtain ⟨t, ts, hts⟩ := List.exists_cons_of_ne_nil hnil
        have hstep := hcalm k
        rw [hk]
        generalize m.run k = mk at hts hstep
        obtain ⟨g, us⟩ := mk
        obtain rfl : us = t :: ts := hts
        exact .inl (step_append hstep)
    · exact .inr ⟨by rwa [step_of_nil hnil], closing_step hclosing⟩

/-- What waits is done when the rest is. -/
theorem settle_append (back : List (Task α)) (hcalm : m.Calm) :
    (⟨m.heap, m.tasks ++ back⟩ : Machine α).settle = (⟨m.settle.heap, back⟩ : Machine α).settle := by
  induction hn : m.weight using Nat.strongRecOn generalizing m with
  | ind n ih =>
    obtain ⟨h, ts⟩ := m
    cases ts with
    | nil =>
      rw [settle_eq_run (Nat.le_refl (⟨h, []⟩ : Machine α).weight), run_of_nil rfl]
      rfl
    | cons t ts =>
      have hstep : (⟨h, t :: ts ++ back⟩ : Machine α).step = _ := step_append (hcalm 0)
      have hrest := ih _ (hn ▸ step_weight (by simp)) hcalm.step rfl
      rw [settle_step (m := ⟨h, t :: ts ++ back⟩) (by simp), hstep, hrest,
        settle_step (m := ⟨h, t :: ts⟩) (by simp)]

end Custody.Heap
