/-
# A pointer that is assigned to gives up its target first

A nullable pointer that is assigned to has no target while the old one is released. The
destructors that run meanwhile may do all they can with the pointers they get at, and the cell
that the source targets may belong to what they tear down. But the source is borrowed, or in
a value whose destructor waits: so it keeps its target, and that stays live, until the
pointer becomes an owner of it.

Key definitions: `Assignable`, `Heap.reassign`, `Lasts`, `Machine.Leaves`.
Key theorems: `Guarded.run`, `run_behind`, `Moment.assign_safe`.
-/
import Mathlib.Data.Nat.Find
import Custody.Proofs.Heap.Addresses
import Custody.Proofs.Heap.Lockstep

namespace Custody.Heap

variable {α : Type} {h g : Heap α} {m : Machine α} {n : Nat} {self : Option CellId}
  {ts back back' w w' rest : List (Task α)} {dst src : Ref} {way path : List Hop}
  {root d s p : Place} {a b : Option Owner} {q : Pointer} {k : Nat}

/-! ### What waits while somebody acts -/

/-- What waits while the caller does something, or the destructor of `self`: nothing, or what
the destructor has still to do and the tasks after that. -/
inductive Machine.Meanwhile (m : Machine α) : Option CellId → List (Task α) → Prop
  | caller : m.tasks = [] → m.Meanwhile none []
  | destructor {c : CellId} {acts : List (Act α)} {last : Answer α} {ts : List (Task α)} :
      m.tasks = .script c acts last :: ts → ∀ acts' last',
      m.Meanwhile (some c) (.script c acts' last' :: ts)

theorem Machine.Meanwhile.acting (hw : m.Meanwhile self rest) : Acting self rest := by
  cases hw with
  | caller _ => exact fun c hc => by simp at hc
  | destructor _ acts' last' =>
    intro c hc
    obtain rfl := Option.some.inj hc
    exact ⟨acts', last', _, rfl⟩

theorem Machine.Meanwhile.sound (hw : m.Meanwhile self rest) (hm : Moment n m) :
    Sound ⟨m.heap, [], rest⟩ := by
  have hs : Sound ⟨m.heap, [], m.tasks⟩ := hm.sound
  cases hw with
  | caller hts => rwa [hts] at hs
  | destructor hts acts' last' =>
    rw [hts] at hs
    exact hs.advance

theorem Machine.Meanwhile.loansHeld (hw : m.Meanwhile self rest) (hm : Moment n m) :
    LoansHeld m.heap rest := by
  have hl := hm.loansHeld
  cases hw with
  | caller hts => rwa [hts] at hl
  | destructor hts acts' last' =>
    rw [hts] at hl
    intro i
    simpa [Task.isLoan] using hl i

/-! ### Pointers that are dropped -/

theorem discard_of_owner? {o : Owner} (ho : q.owner? = some o) :
    (discard (some q) : List (Task α)) = [.release o] := by
  simp [discard, ho]

/-- A pointer that is dropped is taken out of its place, and if it has a target it signs off. -/
theorem perform_drop (hp : h.claim self src = .ok p) (hq : h.pointer? p = some q) :
    h.perform self (.drop src) = ⟨h.poke p p.vacated, discard (some q), .done⟩ := by
  show h.performDrop self src = _
  simp only [performDrop, hp, put, hq]

theorem Machine.Meanwhile.sound_drop (hw : m.Meanwhile self rest) (hm : Moment n m)
    (hp : m.heap.claim self src = .ok p) (hq : m.heap.pointer? p = some q) :
    Sound ⟨m.heap.poke p p.vacated, [], discard (some q) ++ rest⟩ := by
  have hs := hw.sound hm
  have hdropped := (performDrop_edits hs hw.acting src).sound hs
  rwa [show m.heap.performDrop self src = _ from perform_drop hp hq] at hdropped

/-! ### The assignment -/

/-- A nullable pointer that is put into a place is there, whatever the place. -/
theorem pointer?_poke_nullable {p : Place} {old : Option Pointer} (hp : h.peek p = some old)
    (o : Option Owner) : (h.poke p (some (.nullable o))).pointer? p = some (.nullable o) := by
  cases p with
  | var i =>
    obtain ⟨v, hv, -⟩ := peek_var_eq_some hp
    simp [pointer?, peek, poke, modifyVar, hv]
  | inside c hop =>
    obtain ⟨⟨_, _, content⟩, v, x, hc, hv, hx, -⟩ := peek_inside_eq_some hp
    have hset := Value.get?_set_self hx o
    cases content with
    | freed => simp [Content.value?] at hv
    | live w =>
      obtain rfl : w = v := Option.some.inj hv
      simp [pointer?, peek, poke, modifyCell, hc, Content.modify, Content.value?, Pointer.owner?, hset]
    | dying w =>
      obtain rfl : w = v := Option.some.inj hv
      simp [pointer?, peek, poke, modifyCell, hc, Content.modify, Content.value?, Pointer.owner?, hset]

/-- If something else is put into a place under another, it stays there: the way to where it comes
first is as it was. -/
theorem Under.poke {old : Option Pointer} (hd : h.peek d = some old) (x : Option Pointer)
    (hp : h.Under root p) : (h.poke d x).Under root d ∨ (h.poke d x).Under root p := by
  induction hp with
  | root => exact .inr .root
  | @inside p o hop hp ho hsome ih =>
    rcases ih with hin | hin
    · exact .inl hin
    · by_cases hpd : d = p
      · exact .inl (hpd ▸ hin)
      · have ho' : (h.poke d x).ownerAt p = some o := (ownerAt_congr (peek_poke_ne hpd x)).trans ho
        exact .inr (.inside hin ho' (isSome_peek_poke hd x hsome))

/-- The nullable pointer in `d`, which is the owner `a` if it has a target, can be assigned the
one in `p`, which is the owner `b` if it has: the first is got at from `root`, which may be
changed, over pointers that are the only owners of their targets, and the second may be
read, starting from `s`. -/
structure Assignable (h : Heap α) (me : Option CellId) (dst : Ref) (way : List Hop) (src : Ref)
    (path : List Hop) (root d s p : Place) (a b : Option Owner) : Prop where
  claimed : h.claim me dst = .ok root
  reached : h.walk true root way = .ok d
  old : h.pointer? d = some (.nullable a)
  found : h.find me src path = .ok (s, p, .nullable b)
  apart : root ≠ s

/-- The heap while the old target is released: the pointer has no target, and both are borrowed. -/
def opened (h : Heap α) (root d s : Place) : Heap α :=
  ((h.poke d (some .null)).lend root).share s

theorem peek_opened_eq (h : Heap α) (root d s q : Place) :
    (h.opened root d s).peek q = (h.poke d (some .null)).peek q := by
  rw [opened, (samePointers_share _ s).peek q, (samePointers_lend _ root).peek q]

theorem count_opened (h : Heap α) (root d s : Place) (c : CellId) :
    (h.opened root d s).count c = h.count c := by
  rw [opened, count_share, count_lend, count_poke]

/-- Gives the pointer in `d` the target of the one in `p`, after it gave up the one it has. -/
def reassign (h : Heap α) (root d s p : Place) (a b : Option Owner) : Outcome α :=
  if h.identity a = h.identity b then h.reply .done
  else ⟨h.opened root d s,
    discard (some (.nullable a)) ++ [.adopt d p, .unshare s, .unlend root], .done⟩

namespace Assignable

variable (ha : Assignable h self dst way src path root d s p a b)
include ha

/-- **This is what the act does**, which is for pointers that need no other to be got at. -/
theorem perform_assign (hway : way = []) :
    h.perform self (.assign dst src path) = h.reassign root d s p a b := by
  have hd : d = root := eq_of_walk_nil (hway ▸ ha.reached)
  subst hd
  show h.performAssign self dst src path = _
  unfold performAssign
  simp only [ha.claimed, ha.found, ha.old, if_neg ha.apart]
  rfl

theorem ownerAt_old : h.ownerAt d = a := by
  simp only [ownerAt, ha.old]
  rfl

theorem pointer?_new : h.pointer? p = some (.nullable b) :=
  (find_eq_ok ha.found).2.2.2

theorem ownerAt_new : h.ownerAt p = b := by
  simp only [ownerAt, ha.pointer?_new]
  rfl

theorem under : h.Under s p :=
  Under.root.walk (find_eq_ok ha.found).2.2.1

theorem under_old : h.Under root d :=
  Under.root.walk ha.reached

/-- Both pointers have the same identity if and only if they have the same target, or none. -/
theorem identity_eq_iff (hap : Apart h) (hs : Sound ⟨h, [], rest⟩) :
    h.identity a = h.identity b ↔ a.map Owner.cell = b.map Owner.cell := by
  refine hap.identity_eq_iff (fun o ho => hs.live_of_ownerAt (p := d) ?_)
    fun o ho => hs.live_of_ownerAt (p := p) ?_
  · rw [ha.ownerAt_old, ho]
  · rw [ha.ownerAt_new, ho]

variable (hs : Sound ⟨h, [], rest⟩) (hact : Acting self rest)
include hs hact

theorem claimed_spec : Claimed h rest root :=
  hs.claimed hact ha.claimed

/-- The source is borrowed from now on, or in the value whose destructor acts. -/
theorem minded : Minded ([.unshare s, .unlend root] ++ rest) s := by
  have hplace := view_eq_place (view_of_find ha.found)
  cases s with
  | var i => exact .inl List.mem_cons_self
  | inside c hop =>
    have hself := self_of_place? hplace
    exact List.mem_append_right _ (hs.order.dismantle_of_acting hact hself)

/-- And so is the pointer that is assigned to. -/
theorem minded_root : Minded ([.unshare s, .unlend root] ++ rest) root :=
  minded_of_keeper (List.mem_cons_of_mem _ (ha.claimed_spec hs hact).keeper)

/-- The source does not lead to the pointer that is assigned to. -/
theorem not_under : ¬ h.Under s d := by
  have hout := hs.outside_of_place? hact (view_eq_place (view_of_find ha.found))
  refine hs.walk_not_under hout (fun hroot => ?_) ha.reached
  generalize he : root = r at hroot
  cases hroot with
  | root => exact ha.apart he
  | inside _ ho _ =>
    exact (ha.claimed_spec hs hact).outside _ _ he (hs.live_of_ownerAt ho)

/-- No task waits to fill the pointer that is assigned to. -/
theorem isOpen : Open rest d := by
  have hunder := ha.under_old
  cases hunder with
  | root => exact (ha.claimed_spec hs hact).isOpen
  | @inside p' o hop _ ho _ =>
    intro t ht hp
    exact hs.not_inside_of_fills ht hp (hs.live_of_ownerAt ho) hop rfl

omit hs hact in
theorem peek_old : h.peek d = some (some (.nullable a)) :=
  pointer?_eq_some ha.old

/-- The heap in which the release begins has the same at the end of the source. -/
theorem peek_opened {q : Place} (hq : h.Under s q) : (h.opened root d s).peek q = h.peek q := by
  have hne : d ≠ q := fun he => ha.not_under hs hact (he ▸ hq)
  rw [peek_opened_eq]
  exact peek_poke_ne hne _

omit hs hact in
theorem pointer?_opened : (h.opened root d s).pointer? d = some .null := by
  unfold pointer?
  rw [peek_opened_eq]
  exact pointer?_poke_nullable ha.peek_old none

omit hs hact in
theorem under_opened : (h.opened root d s).Under root d := by
  have hpoke : (h.poke d (some .null)).Under root d := (ha.under_old.poke ha.peek_old _).elim id id
  exact hpoke.congr fun q _ => peek_opened_eq h root d s q

omit hs hact in
theorem isSome_source : (h.peek s).isSome :=
  (view_eq_ok (view_of_find ha.found)).1

/-- **The release begins soundly**, with the pointer that is assigned to put aside. -/
theorem guarded (hl : LoansHeld h rest) : Guarded ⟨h.opened root d s, discard (some (.nullable a))⟩
    ([.unshare s, .unlend root] ++ rest) where
  sound := by
    have hclaimed := (ha.claimed_spec hs hact).poke ha.peek_old (some .null)
    have hempty : Edit ⟨h, [], rest⟩ ⟨h.poke d (some .null), held (some (.nullable a)) ++ [], rest⟩ :=
      .poke (some .null) ha.peek_old (ha.isOpen hs hact)
    have hsome := isSome_peek_poke ha.peek_old (some .null) ha.isSome_source
    have hedits : Edits _ _ :=
      .head hempty ((hclaimed.lend_share hsome).trans (edits_discard _ _ _ _))
    exact hedits.sound hs
  loans i := by
    have hreaders := readers_share (α := α) (g := (h.poke d (some .null)).lend root) (p := s) (by
      rw [(samePointers_lend _ root).peek s]
      exact isSome_peek_poke ha.peek_old _ ha.isSome_source) i
    have hloans : ([.unshare s, .unlend root] : List (Task α)).countP (Task.isLoan i) =
        [Task.unshare (α := α) s].countP (Task.isLoan i) := by
      rw [List.countP_cons, List.countP_singleton, List.countP_singleton]
      simp [Task.isLoan]
    have hrest := hl i
    rw [readers_lend, readers_poke] at hreaders
    simp only [opened, hreaders, List.countP_append, countP_isLoan_discard, hloans]
    omega
  closed c acts last ht := by
    have hplain := dying?_discard ht
    simp [Task.dying?] at hplain

end Assignable

/-! ### Pointers that last -/

theorem Under.isSome_root (hq : h.Under root p) (hsome : (h.peek p).isSome) : (h.peek root).isSome := by
  induction hq with
  | root => exact hsome
  | inside _ ho _ ih => exact ih (isSome_of_ownerAt (by simp [ho]))

/-- The pointer `q` is in `p`, a minded place leads there, and no task is to fill that. -/
structure Lasts (m : Machine α) (back : List (Task α)) (root p : Place) (q : Pointer) : Prop where
  minded : Minded back root
  isOpen : Open m.tasks root
  under : m.heap.Under root p
  there : m.heap.pointer? p = some q

/-- **A pointer that is kept is so after a step.** -/
theorem Lasts.step (hk : Lasts m back root p q) (hg : Guarded m back) (hw : Waits back back') :
    Lasts m.step back' root p q := by
  have hsome : (m.heap.peek p).isSome := Option.isSome_of_eq_some (pointer?_eq_some hk.there)
  have hpeek : ∀ r, m.heap.Under root r → m.step.heap.peek r = m.heap.peek r := fun r hr =>
    hg.peek_step hk.minded (hk.under.isSome_root hsome) hk.isOpen hr
  exact ⟨hw.minded hk.minded, hg.open_step hk.minded hk.isOpen, hk.under.congr hpeek,
    (congrArg Option.join (hpeek p hk.under)).trans hk.there⟩

theorem Waits.trans {back'' : List (Task α)} (hw : Waits back back') (hw' : Waits back' back'') :
    Waits back back'' := by
  rcases hw with rfl | rfl
  · exact hw'
  · rcases hw' with rfl | rfl
    · exact .inr rfl
    · exact .inr (by simp)

/-- **So it is after any number of steps**, whatever the destructors that run do. -/
theorem Guarded.run (hg : Guarded m back) (k : Nat) : ∃ back', Waits back back' ∧
    Guarded (m.run k) back' ∧
      ∀ root p q, Lasts m back root p q → Lasts (m.run k) back' root p q := by
  induction k with
  | zero => exact ⟨back, .inl rfl, hg, fun _ _ _ hk => hk⟩
  | succ k ih =>
    obtain ⟨back₁, hw, hg₁, hlasts⟩ := ih
    rw [run_succ]
    by_cases hnil : (m.run k).tasks = []
    · rw [step_of_nil hnil]
      exact ⟨back₁, hw, hg₁, hlasts⟩
    · obtain ⟨back₂, hw', hg₂⟩ := hg₁.step hnil
      exact ⟨back₂, hw.trans hw', hg₂, fun root p q hk => (hlasts root p q hk).step hg₁ hw'⟩

/-! ### Tasks that wait behind the release -/

/-- What is left, after `k` steps of the machine, of the tasks `w` that wait behind its own. -/
def Machine.Leaves (m : Machine α) (k : Nat) (w w' : List (Task α)) : Prop :=
  (∀ j < k, ¬ (m.run j).GivesUp) ∧ w' = w ∨ (∃ j < k, (m.run j).GivesUp) ∧ w' = w.filter Task.isOwed

theorem Machine.Leaves.succ (hl : m.Leaves k w w') (hm : (m.run k).tasks ≠ []) :
    ∃ w'', m.Leaves (k + 1) w w'' ∧ (⟨(m.run k).heap, (m.run k).tasks ++ w'⟩ : Machine α).step =
      ⟨(m.run (k + 1)).heap, (m.run (k + 1)).tasks ++ w''⟩ := by
  obtain ⟨t, ts, hts⟩ := List.exists_cons_of_ne_nil hm
  have hstep : (m.run (k + 1)) = (⟨(m.run k).heap, t :: ts⟩ : Machine α).step := by
    rw [run_succ, ← hts]
  rw [hts, hstep]
  by_cases hgive : (m.run k).GivesUp
  · have hgive' : (⟨(m.run k).heap, t :: ts⟩ : Machine α).GivesUp := by rwa [← hts]
    refine ⟨w'.filter Task.isOwed, .inr ⟨⟨k, Nat.lt_succ_self k, hgive⟩, ?_⟩,
      step_append_of_givesUp hgive'⟩
    rcases hl with ⟨-, rfl⟩ | ⟨-, rfl⟩
    · rfl
    · simp
  · have hgive' : ¬ (⟨(m.run k).heap, t :: ts⟩ : Machine α).GivesUp := by rwa [← hts]
    refine ⟨w', ?_, step_append hgive'⟩
    rcases hl with ⟨hcalm, rfl⟩ | ⟨⟨j, hj, hgave⟩, rfl⟩
    · refine .inl ⟨fun j hj => ?_, rfl⟩
      rcases Nat.lt_succ_iff_lt_or_eq.mp hj with hj | rfl
      · exact hcalm j hj
      · exact hgive
    · exact .inr ⟨⟨j, by omega, hgave⟩, rfl⟩

/-- **Tasks wait until those before them are done**; if a destructor gives up, those that are
owed are left. -/
theorem run_behind (m : Machine α) (w : List (Task α)) : ∀ k, (∀ j < k, (m.run j).tasks ≠ []) →
    ∃ w', m.Leaves k w w' ∧
      (⟨m.heap, m.tasks ++ w⟩ : Machine α).run k = ⟨(m.run k).heap, (m.run k).tasks ++ w'⟩
  | 0, _ => ⟨w, .inl ⟨fun j hj => absurd hj (Nat.not_lt_zero j), rfl⟩, rfl⟩
  | k + 1, hbusy => by
    obtain ⟨w', hl, hrun⟩ := run_behind m w k fun j hj => hbusy j (by omega)
    obtain ⟨w'', hl', hstep⟩ := hl.succ (hbusy k (by omega))
    exact ⟨w'', hl', by rw [run_succ, hrun, hstep]⟩

/-- A machine is done after some number of steps, and not before. -/
theorem exists_first_done (m : Machine α) :
    ∃ k, (m.run k).tasks = [] ∧ ∀ j < k, (m.run j).tasks ≠ [] := by
  classical
  have hdone : ∃ k, (m.run k).tasks = [] := ⟨_, run_tasks m.weight m (Nat.le_refl _)⟩
  exact ⟨Nat.find hdone, Nat.find_spec hdone, fun j hj => Nat.find_min hdone hj⟩

/-! ### The first step and the last -/

/-- The old target loses one owner, whether that was the last or not. -/
theorem count_release {o : Owner} (hs : Sound ⟨h, [], .release o :: w⟩) (c : CellId) :
    ((Machine.release o h ts).heap.count c).owners + (if o.cell = c then 1 else 0) =
      (h.count c).owners := by
  simp only [eq_comm (a := o.cell)]
  rcases hs.release_cases with ⟨v, hn, hv, -⟩ | ⟨n, hn, -⟩
  · rw [release_last hn hv]
    exact count_condemn hn c
  · rw [release_more hn]
    exact count_signOff hn c

section adopt

variable (hp : g.pointer? p = some (.nullable b))
include hp

theorem adopt_eq : Machine.adopt d p g =
    (g.duplicate (.nullable b)).2.poke d (some (g.duplicate (.nullable b)).1) := by
  unfold Machine.adopt
  rw [hp]

/-- Nothing but the pointer itself is another. -/
theorem peek_adopt {r : Place} (hne : d ≠ r) : (Machine.adopt d p g).peek r = g.peek r := by
  rw [adopt_eq hp, peek_poke_ne hne, (samePointers_duplicate g _).peek r]

/-- It has the target of the source. -/
theorem pointer?_adopt (hd : (g.peek d).isSome) : ∃ b', b'.map Owner.cell = b.map Owner.cell ∧
    (Machine.adopt d p g).pointer? d = some (.nullable b') := by
  rw [adopt_eq hp]
  have hd' : ((g.duplicate (.nullable b)).2.peek d).isSome := by
    rwa [(samePointers_duplicate g _).peek d]
  obtain ⟨old, hold⟩ := Option.isSome_iff_exists.mp hd'
  cases b with
  | none => exact ⟨none, rfl, pointer?_poke_nullable hold none⟩
  | some o => exact ⟨some (g.acquire o.cell).1, rfl, pointer?_poke_nullable hold _⟩

/-- And that has one owner more. -/
theorem count_adopt (hlive : ∀ o, b = some o → g.status o.cell = some .live) (c : CellId) :
    ((Machine.adopt d p g).count c).owners =
      (g.count c).owners + if b.map Owner.cell = some c then 1 else 0 := by
  rw [adopt_eq hp, count_poke]
  cases b with
  | none => rfl
  | some o =>
    simp only [Option.map_some, Option.some.injEq, eq_comm (a := o.cell)]
    exact count_acquire (hlive o rfl) c

end adopt

/-! ### The whole assignment -/

/-- The machine that releases the old target. -/
def releasing (h : Heap α) (root d s : Place) (a : Option Owner) : Machine α :=
  ⟨h.opened root d s, discard (some (.nullable a))⟩

/-- The whole of what is to do, with the tasks that wait behind it. -/
def assigning (h : Heap α) (root d s p : Place) (a b : Option Owner) (rest : List (Task α)) :
    Machine α :=
  ⟨(h.reassign root d s p a b).heap, (h.reassign root d s p a b).todo ++ rest⟩

/-- What holds while the old target is released, and the pointer in `d` has none. -/
structure Awaited (g : Heap α) (d p : Place) (b : Option Owner) : Prop where
  source : g.pointer? p = some (.nullable b)
  empty : g.pointer? d = some .null
  live : ∀ o, b = some o → g.status o.cell = some .live ∧ 1 ≤ (g.count o.cell).owners

/-- What holds in `e` after the pointer in `d` was given the target of the one in `p` in `g`. -/
structure Adopted (g e : Heap α) (d p : Place) (b : Option Owner) : Prop where
  source : e.pointer? p = some (.nullable b)
  target : ∃ b', b'.map Owner.cell = b.map Owner.cell ∧ e.pointer? d = some (.nullable b')
  others : ∀ q, q ≠ d → e.peek q = g.peek q
  counts : ∀ c, (e.count c).owners = (g.count c).owners + if b.map Owner.cell = some c then 1 else 0

/-- What an assignment does that gives a pointer another target, or none. -/
structure Reassigned (h : Heap α) (root d s p : Place) (a b : Option Owner) (rest : List (Task α)) :
    Prop where
  /-- No count has changed when the release begins. -/
  start : ∀ c, (h.opened root d s).count c = h.count c
  /-- The release itself takes one owner away from the old target. -/
  released : ∀ c, ((((h.releasing root d s a).run 1).heap.count c).owners) +
    (if a.map Owner.cell = some c then 1 else 0) = (h.count c).owners
  /-- If that was not the last, no more is to do. -/
  shared : ∀ o, a = some o → 2 ≤ (h.count o.cell).owners → ((h.releasing root d s a).run 1).tasks = []
  /-- At each moment of the cascade that it sets off, the source is as it was. -/
  during : ∀ k, Awaited ((h.releasing root d s a).run k).heap d p b
  /-- The cascade comes to an end before anything else is done. -/
  behind : ∃ k, ((h.releasing root d s a).run k).tasks = [] ∧
    (∀ j ≤ k, ∃ w', (h.releasing root d s a).Leaves j
      ([.adopt d p, .unshare s, .unlend root] ++ rest) w' ∧ (h.assigning root d s p a b rest).run j =
        ⟨((h.releasing root d s a).run j).heap, ((h.releasing root d s a).run j).tasks ++ w'⟩) ∧
    -- no destructor gave up: the pointer becomes an owner of the target of the source
    ((∀ j < k, ¬ ((h.releasing root d s a).run j).GivesUp) → ∃ e,
      (h.assigning root d s p a b rest).run (k + 3) = ⟨e, rest⟩ ∧
      Adopted ((h.releasing root d s a).run k).heap e d p b) ∧
    -- otherwise it stays without target
    ((∃ j < k, ((h.releasing root d s a).run j).GivesUp) → ∃ e,
      (h.assigning root d s p a b rest).run (k + 2) = ⟨e, rest.filter Task.isOwed⟩ ∧
      Awaited e d p b ∧ ∀ c, e.count c = ((h.releasing root d s a).run k).heap.count c)

namespace Assignable

variable (ha : Assignable h self dst way src path root d s p a b) (hs : Sound ⟨h, [], rest⟩)
  (hact : Acting self rest) (hl : LoansHeld h rest)
include ha hs hact hl

/-- **Throughout the release the source keeps its target, and that is live.** -/
theorem awaited (k : Nat) : Awaited ((h.releasing root d s a).run k).heap d p b := by
  have hplain : ∀ q, Open (discard (some (.nullable a)) : List (Task α)) q := fun q t ht hp => by
    simp [fills_discard ht] at hp
  have hsource : Lasts (h.releasing root d s a) ([.unshare s, .unlend root] ++ rest) s p (.nullable b) :=
    { minded := ha.minded hs hact
      isOpen := hplain s
      under := ha.under.congr fun q hq => ha.peek_opened hs hact hq
      there := (congrArg Option.join (ha.peek_opened hs hact ha.under)).trans ha.pointer?_new }
  have hempty : Lasts (h.releasing root d s a) ([.unshare s, .unlend root] ++ rest) root d .null :=
    { minded := ha.minded_root hs hact
      isOpen := hplain root
      under := ha.under_opened
      there := ha.pointer?_opened }
  obtain ⟨back', -, hg, hlasts⟩ := (ha.guarded hs hact hl).run k
  have hp := (hlasts _ _ _ hsource).there
  refine ⟨hp, (hlasts _ _ _ hempty).there, fun o ho => ?_⟩
  have howner : ((h.releasing root d s a).run k).heap.ownerAt p = some o :=
    ownerAt_eq_some.mpr ⟨_, hp, ho⟩
  have hlive := hg.sound.live_of_ownerAt howner
  exact ⟨hlive, (hg.sound.alive o.cell).mpr hlive⟩

theorem released (c : CellId) : (((h.releasing root d s a).run 1).heap.count c).owners +
    (if a.map Owner.cell = some c then 1 else 0) = (h.count c).owners := by
  have hg := ha.guarded hs hact hl
  rw [← count_opened h root d s c]
  cases a with
  | none => rfl
  | some o =>
    simp only [Option.map_some, Option.some.injEq]
    exact count_release hg.sound c

end Assignable

theorem releasing_shared {o : Owner} (hmore : 2 ≤ (h.count o.cell).owners) :
    ((h.releasing root d s (some o)).run 1).tasks = [] := by
  obtain ⟨n, hn⟩ := Nat.exists_eq_add_of_le' hmore
  have hn' : ((h.opened root d s).count o.cell).owners = n + 2 := by rw [count_opened, hn]
  have hrelease : (h.releasing root d s (some o)).run 1 = Machine.release o (h.opened root d s) [] := rfl
  rw [hrelease, release_more hn']

theorem assigning_eq (hne : h.identity a ≠ h.identity b) : h.assigning root d s p a b rest =
    ⟨(h.releasing root d s a).heap, (h.releasing root d s a).tasks ++
      ([.adopt d p, .unshare s, .unlend root] ++ rest)⟩ := by
  simp only [assigning, reassign, if_neg hne, releasing, List.append_assoc]

/-- The heap after the loans of an assignment have ended. -/
def closed (g : Heap α) (root s : Place) : Heap α :=
  (g.unshare s).unlend root

theorem peek_closed (g : Heap α) (root s q : Place) : (g.closed root s).peek q = g.peek q := by
  rw [closed, (samePointers_unlend _ root).peek q, (samePointers_unshare _ s).peek q]

theorem count_closed (g : Heap α) (root s : Place) (c : CellId) : (g.closed root s).count c = g.count c := by
  rw [closed, count_unlend, count_unshare]

/-- The pointer becomes an owner, and the loans end. -/
theorem Awaited.adopted (hw : Awaited g d p b) (hne : d ≠ p) (root s : Place) :
    Adopted g ((Machine.adopt d p g).closed root s) d p b := by
  obtain ⟨b', hb', htarget⟩ := pointer?_adopt hw.source
    (Option.isSome_of_eq_some (pointer?_eq_some hw.empty))
  refine ⟨?_, ⟨b', hb', ?_⟩, fun q hq => ?_, fun c => ?_⟩
  · rw [pointer?, peek_closed, peek_adopt hw.source hne]
    exact hw.source
  · rw [pointer?, peek_closed]
    exact htarget
  · rw [peek_closed, peek_adopt hw.source hq.symm]
  · rw [count_closed]
    exact count_adopt hw.source (fun o ho => (hw.live o ho).1) c

/-- They end without that too. -/
theorem Awaited.closed (hw : Awaited g d p b) (root s : Place) : Awaited (g.closed root s) d p b := by
  refine ⟨?_, ?_, fun o ho => ?_⟩
  · rw [pointer?, peek_closed]
    exact hw.source
  · rw [pointer?, peek_closed]
    exact hw.empty
  · rw [count_closed, Heap.closed, (samePointers_unlend _ root).status, (samePointers_unshare _ s).status]
    exact hw.live o ho

theorem Assignable.reassigned (ha : Assignable h self dst way src path root d s p a b)
    (hs : Sound ⟨h, [], rest⟩) (hact : Acting self rest) (hl : LoansHeld h rest)
    (hne : h.identity a ≠ h.identity b) : Reassigned h root d s p a b rest where
  start := count_opened h root d s
  released := ha.released hs hact hl
  shared o ho hmore := by
    subst ho
    exact releasing_shared hmore
  during := ha.awaited hs hact hl
  behind := by
    obtain ⟨k, hdone, hbusy⟩ := exists_first_done (h.releasing root d s a)
    have hbehind : ∀ j ≤ k, ∃ w', (h.releasing root d s a).Leaves j
        ([.adopt d p, .unshare s, .unlend root] ++ rest) w' ∧ (h.assigning root d s p a b rest).run j =
          ⟨((h.releasing root d s a).run j).heap, ((h.releasing root d s a).run j).tasks ++ w'⟩ := by
      intro j hj
      rw [assigning_eq hne]
      exact run_behind _ _ j fun i hi => hbusy i (by omega)
    have hwait := ha.awaited hs hact hl k
    have hdp : d ≠ p := fun he => ha.not_under hs hact (he ▸ ha.under)
    obtain ⟨w', hleaves, hrun⟩ := hbehind k (Nat.le_refl k)
    rw [hdone, List.nil_append] at hrun
    refine ⟨k, hdone, hbehind, fun hcalm => ⟨_, ?_, hwait.adopted hdp root s⟩,
      fun hgave => ⟨_, ?_, hwait.closed root s, count_closed _ root s⟩⟩
    · rcases hleaves with ⟨-, rfl⟩ | ⟨⟨j, hj, hgave⟩, -⟩
      · rw [run_succ, run_succ, run_succ, hrun]
        rfl
      · exact absurd hgave (hcalm j hj)
    · rcases hleaves with ⟨hcalm, -⟩ | ⟨-, rfl⟩
      · obtain ⟨j, hj, hgave⟩ := hgave
        exact absurd hgave (hcalm j hj)
      · rw [run_succ, run_succ, hrun]
        rfl

/-- **To assign is safe although the old target is released first.** At any moment, whoever acts,
let a nullable pointer that may be changed, or is got at over pointers that are the only owners
of their targets, be assigned another that may be read. If both have the same target or none,
nothing changes. Otherwise the old target is released while the pointer has none, with all that
follows from it; the source keeps its target, and that is live, at each moment of this, whatever
the destructors do and whichever targets own each other. Then both have the same target. Only
one owner less of the old target and one more of the new one are counted besides. -/
theorem Moment.assign_safe (hm : Moment n m) (hw : m.Meanwhile self rest)
    (ha : Assignable m.heap self dst way src path root d s p a b) :
    (way = [] → m.heap.perform self (.assign dst src path) = m.heap.reassign root d s p a b) ∧
    (a.map Owner.cell = b.map Owner.cell → m.heap.reassign root d s p a b = m.heap.reply .done) ∧
    (a.map Owner.cell ≠ b.map Owner.cell → Reassigned m.heap root d s p a b rest) := by
  have hs := hw.sound hm
  have hsame := ha.identity_eq_iff hm.apart hs
  refine ⟨ha.perform_assign, fun hcells => ?_, fun hcells => ?_⟩
  · unfold reassign
    rw [if_pos (hsame.mpr hcells)]
  · exact ha.reassigned hs hw.acting (hw.loansHeld hm) fun heq => hcells (hsame.mp heq)

/-! ### A destructor that tears down the source's target

The old target owns the new one too; its destructor gives that up, and copies the source. -/

/-- A destructor that clears its first field, and copies the pointer in the first variable. -/
def fragile : List (Act Nat) :=
  [.clear (.own (.field 0)), .clone (.var 0) [] (.var 2)]

/-- The pointer in the first variable shares its target with the field of a value with that
destructor, and the one in the second is the only owner of that value. -/
def fragileHeap : Heap Nat :=
  [.make (.var 0) .nullable 7 [] [] [] 8, .clone (.var 0) [] (.var 2),
    .make (.var 1) .nullable 9 fragile [some (.var 2)] [] 16].foldl
    (fun h a => (h.exec (.act a)).1) (.empty 3)

theorem fragileHeap_moment : Moment 3 (⟨fragileHeap, []⟩ : Machine Nat) :=
  ((Moment.empty.exec _).exec _).exec _

theorem fragileHeap_reassigned :
    (fragileHeap.count 0).owners = 2 ∧
    (((fragileHeap.releasing (.var 1) (.var 1) (.var 0) (some ⟨1, ⟨1, 2⟩⟩)).run 3).heap.count 0).owners = 1 ∧
    (((fragileHeap.perform none (.assign (.var 1) (.var 0) [])).todo).length = 4) ∧
    fragileHeap.perform none (.assign (.var 1) (.var 0) []) =
      fragileHeap.reassign (.var 1) (.var 1) (.var 0) (.var 0) (some ⟨1, ⟨1, 2⟩⟩) (some ⟨0, ⟨0, 0⟩⟩) ∧
    Reassigned fragileHeap (.var 1) (.var 1) (.var 0) (.var 0) (some ⟨1, ⟨1, 2⟩⟩) (some ⟨0, ⟨0, 0⟩⟩) [] := by
  have hassignable : Assignable fragileHeap none (.var 1) [] (.var 0) [] (.var 1) (.var 1) (.var 0) (.var 0)
      (some ⟨1, ⟨1, 2⟩⟩) (some ⟨0, ⟨0, 0⟩⟩) := ⟨rfl, rfl, rfl, rfl, by decide⟩
  have hsafe := Moment.assign_safe fragileHeap_moment (.caller rfl) hassignable
  exact ⟨by decide, by decide, by decide, hsafe.1 rfl, hsafe.2.2 (by decide)⟩

end Custody.Heap
