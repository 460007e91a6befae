/-
# What a borrowed pointer leads to stays as it is

Some tasks are done while others wait, and a place is minded if one of those that wait gives
it back: then no destructor that runs meanwhile can claim it. A pointer in such a place leads
to cells that have an owner on the way. So no pointer from elsewhere is the only one to any of
them, and nobody comes to change their values; and an owner of theirs that signs off is
not the last. Hence all that the pointer leads to is as before when those tasks are done.

Key definitions: `Heap.Under`, `Minded`, `Guarded`, `Machine.GivesUp`.
Key theorems: `Guarded.not_exposed`, `Guarded.step`, `Guarded.peek_step`.
-/
import Custody.Proofs.Heap.Reach

namespace Custody.Heap

variable {α : Type} {h : Heap α} {m : Machine α} {hand : List Owner} {ts back : List (Task α)}
  {p q root : Place} {c : CellId} {o : Owner}

/-! ### Where pointers lead -/

/-- The owner in a place, if there is one. -/
def ownerAt (h : Heap α) (p : Place) : Option Owner :=
  (h.pointer? p).bind Pointer.owner?

theorem ownerAt_eq_some : h.ownerAt p = some o ↔
    ∃ x, h.pointer? p = some x ∧ x.owner? = some o :=
  Option.bind_eq_some_iff

theorem ownerAt_congr {h' : Heap α} (hp : h'.peek p = h.peek p) : h'.ownerAt p = h.ownerAt p := by
  simp only [ownerAt, pointer?, hp]

theorem isSome_of_ownerAt (ho : h.ownerAt p ≠ none) : (h.peek p).isSome := by
  obtain ⟨o, ho⟩ := Option.ne_none_iff_exists'.mp ho
  obtain ⟨x, hx, -⟩ := ownerAt_eq_some.mp ho
  rw [pointer?_eq_some hx]
  rfl

theorem mem_owners_of_ownerAt (ho : h.ownerAt p = some o) : o ∈ h.owners := by
  obtain ⟨x, hx, hxo⟩ := ownerAt_eq_some.mp ho
  exact mem_owners_of_peek (pointer?_eq_some hx) (by simp [held, hxo])

theorem Sound.live_of_ownerAt (hs : Sound ⟨h, hand, ts⟩) (ho : h.ownerAt p = some o) :
    h.status o.cell = some .live :=
  hs.live_of_mem (by simp [Draft.owners, mem_owners_of_ownerAt ho])

/-- The places that the pointer in `root` leads to, over any path. -/
inductive Under (h : Heap α) (root : Place) : Place → Prop
  | root : Under h root root
  | inside {p : Place} {o : Owner} {hop : Hop} : Under h root p → h.ownerAt p = some o →
      (h.peek (.inside o.cell hop)).isSome → Under h root (.inside o.cell hop)

theorem ownerAt_of_through {alone : Bool} {v : Value α} (ht : h.through alone p = .ok (c, v)) :
    ∃ o, h.ownerAt p = some o ∧ o.cell = c ∧ h.live? c = some v ∧
      (alone = true → (h.count c).owners = 1) := by
  obtain ⟨x, o, hx, ho, hc, hv, hone⟩ := through_eq_ok ht
  exact ⟨o, ownerAt_eq_some.mpr ⟨x, hx, ho⟩, hc, hv, hone⟩

theorem peek_inside_of_live {v : Value α} (hv : h.live? c = some v) (hop : Hop) :
    h.peek (.inside c hop) = (v.get? hop).map fun o => some (.nullable o) := by
  obtain ⟨cell, hc, hcon⟩ := live?_eq_some.mp hv
  simp [peek, hc, hcon, Content.value?]

theorem isSome_peek_inside {v : Value α} (hv : h.live? c = some v) {hop : Hop} :
    (h.peek (.inside c hop)).isSome ↔ (v.get? hop).isSome := by
  rw [peek_inside_of_live hv, Option.isSome_map]

/-- A path without hops ends where it starts. -/
theorem eq_of_walk_nil {alone : Bool} (hw : h.walk alone p [] = .ok q) : q = p := by
  unfold Heap.walk at hw
  split at hw
  · simp at hw
  · simp at hw
  · exact (Except.ok.inj hw).symm

/-- A path ends in a place that has what each step over a pointer keeps. -/
theorem walk_induct {alone : Bool} {P : Place → Prop} (hstep : ∀ p c v hop, P p →
      h.through alone p = .ok (c, v) → (v.get? hop).isSome → P (.inside c hop)) :
    ∀ {path : List Hop} {p : Place}, P p → h.walk alone p path = .ok q → P q
  | [], p, hp, hw => by
    unfold Heap.walk at hw
    split at hw
    · simp at hw
    · simp at hw
    · obtain rfl := by simpa using hw
      exact hp
  | hop :: path, p, hp, hw => by
    unfold Heap.walk at hw
    split at hw
    · simp at hw
    · rename_i c v ht
      split at hw
      · simp at hw
      · rename_i x hx
        exact walk_induct hstep (hstep p c v hop hp ht (by simp [hx])) hw

/-- A path ends under the place that it starts under. -/
theorem Under.walk {alone : Bool} {path : List Hop} (hp : Under h root p)
    (hw : h.walk alone p path = .ok q) : Under h root q := by
  refine walk_induct (P := Under h root) (fun p c v hop hp ht hsome => ?_) hp hw
  obtain ⟨o, ho, rfl, hv, -⟩ := ownerAt_of_through ht
  exact .inside hp ho ((isSome_peek_inside hv).mpr hsome)

theorem Under.isSome_peek (hq : Under h root q) (hroot : (h.peek root).isSome) : (h.peek q).isSome := by
  cases hq with
  | root => exact hroot
  | inside _ _ hsome => exact hsome

/-- What leads there does so still if nothing on the way has changed. -/
theorem Under.congr {h' : Heap α} (heq : ∀ q, Under h root q → h'.peek q = h.peek q)
    (hq : Under h root q) : Under h' root q := by
  induction hq with
  | root => exact .root
  | inside hp ho hsome ih =>
    refine .inside ih ((ownerAt_congr (heq _ hp)).trans ho) ?_
    rw [heq _ (.inside hp ho hsome)]
    exact hsome

/-! ### The only owner of a cell -/

/-- If a cell has one owner only, no two places have one of it. -/
theorem Sound.eq_of_ownerAt (hs : Sound ⟨h, hand, ts⟩) {o' : Owner} (hp : h.ownerAt p = some o)
    (hq : h.ownerAt q = some o') (hc : o'.cell = o.cell) (hone : (h.count o.cell).owners = 1) :
    p = q := by
  refine Classical.byContradiction fun hne => ?_
  obtain ⟨x, hx, hxo⟩ := ownerAt_eq_some.mp hp
  -- the owners that are left when the one in `p` is taken out
  have hout := owners_poke (Owner.isOf o.cell) (pointer?_eq_some hx) none
  have hheld : (held (some x)).countP (Owner.isOf o.cell) = 1 := by
    simp [held, hxo, Owner.isOf]
  rw [hheld, held_none, List.countP_nil] at hout
  have hleft : 0 < (h.poke p none).owners.countP (Owner.isOf o.cell) := by
    refine List.countP_pos_iff.mpr ⟨o', mem_owners_of_ownerAt (p := q) ?_, by simp [Owner.isOf, hc]⟩
    rw [ownerAt_congr (peek_poke_ne hne none)]
    exact hq
  have hcount := hs.count_eq o.cell
  omega

/-- Whoever is not under a place that is in no live cell does not come there by pointers that
have no others to share their targets. -/
theorem Sound.through_not_under (hs : Sound ⟨h, hand, ts⟩)
    (hout : ∀ c hop, h.status c = some .live → root ≠ .inside c hop) {v : Value α}
    (hp : ¬ h.Under root p) (ht : h.through true p = .ok (c, v)) (hop : Hop) :
    ¬ h.Under root (.inside c hop) := by
  obtain ⟨o, ho, rfl, hv, hone⟩ := ownerAt_of_through ht
  intro hin
  generalize he : Place.inside o.cell hop = q at hin
  cases hin with
  | root => exact hout o.cell hop (status_of_live? hv) he.symm
  | inside hp' ho' hsome =>
    injection he with hcell _
    -- the only owner of the cell is the one under that place
    obtain rfl := hs.eq_of_ownerAt ho ho' hcell.symm (hone rfl)
    exact hp hp'

theorem Sound.walk_not_under (hs : Sound ⟨h, hand, ts⟩)
    (hout : ∀ c hop, h.status c = some .live → root ≠ .inside c hop) {path : List Hop}
    (hp : ¬ h.Under root p) (hw : h.walk true p path = .ok q) : ¬ h.Under root q :=
  walk_induct (P := fun q => ¬ h.Under root q)
    (fun _ _ _ hop hp ht _ => hs.through_not_under hout hp ht hop) hp hw

/-- An owner that signs off is not the last if there is one in a place. -/
theorem Sound.count_ne_one (hs : Sound ⟨h, hand, .release o :: ts⟩) {o' : Owner}
    (hq : h.ownerAt q = some o') (hc : o'.cell = o.cell) : (h.count o.cell).owners ≠ 1 := by
  have hstored : 0 < h.owners.countP (Owner.isOf o.cell) :=
    List.countP_pos_iff.mpr ⟨o', mem_owners_of_ownerAt hq, by simp [Owner.isOf, hc]⟩
  have hcount := hs.count_eq o.cell
  simp only [List.flatMap_cons, Task.owners, List.countP_append, List.countP_cons, Owner.isOf,
    decide_true, if_true, List.countP_nil] at hcount hstored
  omega

/-! ### Tasks that wait -/

/-- A keeper is among the tasks once. -/
theorem InOrder.keeper_notMem (ho : InOrder (ts ++ back)) (hp : p.keeper ∈ ts) :
    p.keeper ∉ back := by
  induction ts with
  | nil => exact absurd hp List.not_mem_nil
  | cons t ts ih =>
    rcases List.mem_cons.mp hp with heq | hp
    · intro hback
      exact ho.head.keeper p heq.symm (heq ▸ List.mem_append_right _ hback)
    · exact ih ho.tail hp

/-- The value of a destructor is still to be dismantled. -/
theorem InOrder.dismantle_mem (ho : InOrder ts) {acts : List (Act α)} {last : Answer α}
    (ht : .script c acts last ∈ ts) : .dismantle c ∈ ts := by
  induction ho with
  | nil => exact absurd ht List.not_mem_nil
  | cons hfit _ ih =>
    rcases List.mem_cons.mp ht with rfl | ht
    · exact List.mem_cons_of_mem _ (hfit.script c acts last rfl).1
    · exact List.mem_cons_of_mem _ (ih ht)

/-- So is that of the destructor that acts. -/
theorem InOrder.dismantle_of_acting (ho : InOrder ts) {self : Option CellId} (ha : Acting self ts)
    (hc : self = some c) : .dismantle c ∈ ts := by
  obtain ⟨acts, last, rest, rfl⟩ := ha c hc
  exact ho.dismantle_mem List.mem_cons_self

/-- A place in a value is meant only by the destructor of that value. -/
theorem self_of_place? {self : Option CellId} {r : Ref} {hop : Hop}
    (hp : place? self r = some (.inside c hop)) : self = some c := by
  cases r with
  | var i => simp [place?] at hp
  | own hop' =>
    obtain ⟨c', hc', he⟩ := Option.map_eq_some_iff.mp hp
    obtain ⟨rfl, -⟩ := Place.inside.inj he
    exact hc'

/-- Whoever acts means no place in a live value. -/
theorem Sound.outside_of_place? (hs : Sound ⟨h, hand, ts⟩) {self : Option CellId} (ha : Acting self ts)
    {r : Ref} (hp : place? self r = some p) (c : CellId) (hop : Hop) (hc : h.status c = some .live) :
    p ≠ .inside c hop := by
  rintro rfl
  have hdying := (hs.dying c).mpr (hs.order.dismantle_of_acting ha (self_of_place? hp))
  have hlive : h.status c = some .dying := hdying
  simp [hc] at hlive

/-- Whether one of the tasks that wait gives the place back: a variable from a loan, a field of
a dying value by the end of the value. -/
def Minded (back : List (Task α)) : Place → Prop
  | .var i => .unshare (.var i) ∈ back ∨ .unlend (.var i) ∈ back
  | .inside c _ => .dismantle c ∈ back

theorem Minded.cons (hr : Minded back root) (t : Task α) : Minded (t :: back) root := by
  cases root with
  | var i => exact hr.imp (List.mem_cons_of_mem _) (List.mem_cons_of_mem _)
  | inside c hop => exact List.mem_cons_of_mem _ hr

/-- What holds of a machine while the tasks `back` wait for it. -/
structure Guarded (m : Machine α) (back : List (Task α)) : Prop where
  sound : Sound ⟨m.heap, [], m.tasks ++ back⟩
  loans : LoansHeld m.heap (m.tasks ++ back)
  /-- The values of destructors that run do not wait to be dismantled. -/
  closed : ∀ c acts last, .script c acts last ∈ m.tasks → .dismantle c ∈ m.tasks

namespace Guarded

section minded

variable (hg : Guarded m back) (hr : Minded back root)
include hg hr

/-- A minded field is one of a dying value, which is not one that a destructor runs for. -/
theorem dying_of_minded {hop : Hop} (he : root = .inside c hop) :
    m.heap.status c = some .dying ∧ .dismantle c ∉ m.tasks := by
  subst he
  exact ⟨(hg.sound.dying c).mpr (List.mem_append_right _ hr),
    fun hm => hg.sound.order.keeper_notMem (p := .inside c hop) hm hr⟩

/-- It cannot be claimed. -/
theorem claim_ne {acts : List (Act α)} {last : Answer α} (ht : .script c acts last ∈ m.tasks)
    {r : Ref} : m.heap.claim (some c) r ≠ .ok root := by
  intro hc
  obtain ⟨hp, -, hw⟩ := claim_eq_ok hc
  cases root with
  | inside c' hop =>
    obtain ⟨-, hnot⟩ := hg.dying_of_minded hr rfl
    cases r with
    | var i => simp [place?] at hp
    | own hop' =>
      obtain ⟨rfl, -⟩ : c = c' ∧ hop' = hop := by simpa [place?] using hp
      exact hnot (hg.closed c acts last ht)
  | var i =>
    rcases hr with hshare | hlend
    · have hread : 0 < m.heap.readers i := by
        refine Nat.lt_of_lt_of_le ?_ (hg.loans i)
        exact List.countP_pos_iff.mpr ⟨_, List.mem_append_right _ hshare, by simp [Task.isLoan]⟩
      simp only [writable, readers] at hw hread
      cases hv : m.heap.vars[i]? with
      | none => simp [hv] at hread
      | some v =>
        simp only [hv, Option.map_some, Option.getD_some, Bool.and_eq_true, decide_eq_true_eq]
          at hw hread
        omega
    · have hlent := (hg.sound.lent i).mpr (List.mem_append_right _ hlend)
      rw [isLent_of_writable hw] at hlent
      simp at hlent

theorem ne_inside_of_live {hop : Hop} (hc : m.heap.status c = some .live) : root ≠ .inside c hop := by
  intro he
  rw [(hg.dying_of_minded hr he).1] at hc
  simp at hc

/-- What is under a minded place cannot be claimed. -/
theorem claim_not_under {acts : List (Act α)} {last : Answer α}
    (ht : .script c acts last ∈ m.tasks) {r : Ref} (hc : m.heap.claim (some c) r = .ok q) :
    ¬ m.heap.Under root q := by
  intro hq
  cases hq with
  | root => exact hg.claim_ne hr ht hc
  | @inside p o hop hp ho hsome =>
    have hlive := hg.sound.live_of_ownerAt ho
    obtain ⟨hplace, -, -⟩ := claim_eq_ok hc
    cases r with
    | var i => simp [place?] at hplace
    | own hop' =>
      obtain ⟨rfl, -⟩ : c = o.cell ∧ hop' = hop := by simpa [place?] using hplace
      have hdying := (hg.sound.dying _).mpr (List.mem_append_left _ (hg.closed _ acts last ht))
      rw [hlive] at hdying
      simp at hdying

/-- From elsewhere nobody comes there by pointers that have no others to share their targets. -/
theorem through_not_under {v : Value α} (hp : ¬ m.heap.Under root p)
    (ht : m.heap.through true p = .ok (c, v)) (hop : Hop) : ¬ m.heap.Under root (.inside c hop) :=
  hg.sound.through_not_under (fun _ _ => hg.ne_inside_of_live hr) hp ht hop

theorem walk_not_under {path : List Hop} (hp : ¬ m.heap.Under root p)
    (hw : m.heap.walk true p path = .ok q) : ¬ m.heap.Under root q :=
  hg.sound.walk_not_under (fun _ _ => hg.ne_inside_of_live hr) hp hw

/-- **What is under a minded place cannot be reached.** -/
theorem not_exposed {acts : List (Act α)} {last : Answer α} (ht : .script c acts last ∈ m.tasks)
    (hq : m.heap.Under root q) : ¬ m.heap.Exposed (some c) q := by
  rintro (hc | ⟨hop, hc, hw, hthrough⟩)
  · exact hg.claim_not_under hr ht hc hq
  · have hp := hg.walk_not_under hr (hg.claim_not_under hr ht hc) hw
    exact hg.through_not_under hr hp hthrough hop hq

/-- It is not in a cell whose last owner signs off. -/
theorem ne_inside_of_last (hq : m.heap.Under root q) {o : Owner} (hmem : m.tasks = .release o :: ts)
    (hone : (m.heap.count o.cell).owners = 1) (hop : Hop) : q ≠ .inside o.cell hop := by
  have hs : Sound ⟨m.heap, [], .release o :: (ts ++ back)⟩ := by
    rw [← List.cons_append, ← hmem]
    exact hg.sound
  have hlive : m.heap.status o.cell = some .live := hs.live_of_mem (by simp [Draft.owners, Task.owners])
  intro he
  cases hq with
  | root => exact hg.ne_inside_of_live hr hlive he
  | inside hp ho hsome =>
    injection he with hcell _
    exact hs.count_ne_one ho hcell hone

/-- It is not a place that waits for a pointer, unless the minded one is. -/
theorem ne_of_fills (hq : m.heap.Under root q) (hopen : Open m.tasks root) {t : Task α}
    (ht : t ∈ m.tasks) (hp : t.fills = some p) : p ≠ q := by
  have hmem : t ∈ m.tasks ++ back := List.mem_append_left _ ht
  rintro rfl
  cases hq with
  | root => exact hopen t ht hp
  | @inside p' o hop hp' ho hsome =>
    exact hg.sound.not_inside_of_fills hmem hp (hg.sound.live_of_ownerAt ho) hop rfl

omit hr in
/-- No task waits to fill a place with an owner in it. -/
theorem open_of_ownerAt (hroot : m.heap.ownerAt root ≠ none) : Open m.tasks root := by
  intro t ht hp
  obtain ⟨x, hx, hempty⟩ := hg.sound.vacant t (List.mem_append_left _ ht) _ hp
  obtain ⟨o, ho⟩ := Option.ne_none_iff_exists'.mp hroot
  obtain ⟨y, hy, hyo⟩ := ownerAt_eq_some.mp ho
  obtain rfl : x = some y := by simpa [hx] using pointer?_eq_some hy
  simp [held, hyo] at hempty

end minded

end Guarded

/-! ### Steps -/

/-- Whether the next step is that a destructor gives up. -/
def Machine.GivesUp (m : Machine α) : Prop :=
  ∃ c p acts last rest, m.tasks = .script c (.giveUpIf p :: acts) last :: rest ∧ p last = true

theorem act_append {h : Heap α} {a : Act α} {acts : List (Act α)} {last : Answer α}
    (hn : ¬ (⟨h, .script c (a :: acts) last :: ts⟩ : Machine α).GivesUp) :
    Machine.act c a acts last h (ts ++ back) =
      ⟨(Machine.act c a acts last h ts).heap, (Machine.act c a acts last h ts).tasks ++ back⟩ := by
  cases a with
  | skipIf p n => rfl
  | giveUpIf p =>
    have hp : ¬ p last = true := fun hp => hn ⟨c, p, acts, last, ts, rfl, hp⟩
    simp only [Machine.act, if_neg hp]
    rfl
  | report say => rfl
  | _ => simp [Machine.act]

/-- Tasks that wait stay as they are, unless a destructor gives up. -/
theorem step_append {t : Task α} (hn : ¬ (⟨h, t :: ts⟩ : Machine α).GivesUp) :
    (⟨h, t :: ts ++ back⟩ : Machine α).step =
      ⟨(⟨h, t :: ts⟩ : Machine α).step.heap, (⟨h, t :: ts⟩ : Machine α).step.tasks ++ back⟩ := by
  cases t with
  | release o =>
    show Machine.release o h (ts ++ back) =
      ⟨(Machine.release o h ts).heap, (Machine.release o h ts).tasks ++ back⟩
    unfold Machine.release
    rcases h.signOff o with ⟨_ | _, g⟩
    · rfl
    · simp only
      cases g.live? o.cell <;> rfl
  | dismantle c =>
    show Machine.dismantle c h (ts ++ back) =
      ⟨(Machine.dismantle c h ts).heap, (Machine.dismantle c h ts).tasks ++ back⟩
    unfold Machine.dismantle
    split <;> simp
  | script c acts last =>
    cases acts with
    | nil => rfl
    | cons a acts => exact act_append hn
  | _ => rfl

/-- If one does, those that are owed are left. -/
theorem step_append_of_givesUp {t : Task α} (hn : (⟨h, t :: ts⟩ : Machine α).GivesUp) :
    (⟨h, t :: ts ++ back⟩ : Machine α).step =
      ⟨(⟨h, t :: ts⟩ : Machine α).step.heap,
        (⟨h, t :: ts⟩ : Machine α).step.tasks ++ back.filter Task.isOwed⟩ := by
  obtain ⟨c, p, acts, last, rest, heq, hp⟩ := hn
  obtain ⟨rfl, rfl⟩ := List.cons.inj heq
  show Machine.act c (.giveUpIf p) acts last h (ts ++ back) =
    ⟨(Machine.act c (.giveUpIf p) acts last h ts).heap,
      (Machine.act c (.giveUpIf p) acts last h ts).tasks ++ back.filter Task.isOwed⟩
  simp only [Machine.act, if_pos hp, List.filter_append]

/-- What is left of tasks that wait. -/
def Waits (back back' : List (Task α)) : Prop :=
  back' = back ∨ back' = back.filter Task.isOwed

theorem Waits.minded {back' : List (Task α)} (hw : Waits back back') (hr : Minded back root) :
    Minded back' root := by
  rcases hw with rfl | rfl
  · exact hr
  · cases root with
    | var i => exact hr.imp (fun hm => List.mem_filter.mpr ⟨hm, rfl⟩) fun hm => List.mem_filter.mpr ⟨hm, rfl⟩
    | inside c hop => exact List.mem_filter.mpr ⟨hr, rfl⟩

theorem exists_step_append (back : List (Task α)) (hm : m.tasks ≠ []) : ∃ back', Waits back back' ∧
    (⟨m.heap, m.tasks ++ back⟩ : Machine α).step = ⟨m.step.heap, m.step.tasks ++ back'⟩ := by
  obtain ⟨h, ts⟩ := m
  cases ts with
  | nil => exact absurd rfl hm
  | cons t ts =>
    by_cases hn : (⟨h, t :: ts⟩ : Machine α).GivesUp
    · exact ⟨_, .inr rfl, step_append_of_givesUp hn⟩
    · exact ⟨back, .inl rfl, step_append hn⟩

theorem fills_discard {x : Option Pointer} {t : Task α} (ht : t ∈ (discard x : List (Task α))) :
    t.fills = none := by
  unfold discard at ht
  split at ht
  · simp at ht
  · rw [List.mem_singleton.mp ht]
    rfl

/-- Each place that waits for a pointer afterwards is one that was claimed. -/
def Outcome.FillsClaimed (h : Heap α) (self : Option CellId) (o : Outcome α) : Prop :=
  ∀ t ∈ o.todo, ∀ p, t.fills = some p → ∃ r, h.claim self r = .ok p

section fills

variable {self : Option CellId} {g : Heap α} {a : Answer α}

theorem fillsClaimed_nil : (⟨g, [], a⟩ : Outcome α).FillsClaimed h self :=
  fun _ ht => absurd ht List.not_mem_nil

theorem fillsClaimed_reply : (h.reply a).FillsClaimed h self :=
  fillsClaimed_nil

/-- Pointers that are dropped, and loans that end, fill no place. -/
theorem fillsClaimed_of_plain {x : Option Pointer} {l : List (Task α)} (hl : ∀ u ∈ l, u.fills = none) :
    (⟨g, discard x ++ l, a⟩ : Outcome α).FillsClaimed h self := by
  intro t ht p hp
  rcases List.mem_append.mp ht with ht | ht
  · simp [fills_discard ht] at hp
  · simp [hl t ht] at hp

theorem fillsClaimed_put {d : Place} {x : Option Pointer} : (g.put d x).FillsClaimed h self := by
  intro t ht p hp
  have ht : t ∈ discard (g.pointer? d) := ht
  simp [fills_discard ht] at hp

theorem fillsClaimed_fill {x : Option Pointer} {r : Ref} {d : Place} {u : Task α} {us : List (Task α)}
    (hd : h.claim self r = .ok d) (hu : u.fills = some d) (hus : ∀ u ∈ us, u.fills = none) :
    (⟨g, discard x ++ u :: us, a⟩ : Outcome α).FillsClaimed h self := by
  intro t ht p hp
  rcases List.mem_append.mp ht with ht | ht
  · simp [fills_discard ht] at hp
  · rcases List.mem_cons.mp ht with rfl | ht
    · obtain rfl : d = p := Option.some.inj (hu.symm.trans hp)
      exact ⟨r, hd⟩
    · simp [hus t ht] at hp

theorem performAssign_fillsClaimed (dst src : Ref) (path : List Hop) :
    (h.performAssign self dst src path).FillsClaimed h self := by
  unfold performAssign
  split
  · exact fillsClaimed_reply
  · exact fillsClaimed_reply
  · rename_i hd _
    split
    · exact fillsClaimed_reply
    · split
      · exact fillsClaimed_reply
      · split
        · exact fillsClaimed_reply
        · exact fillsClaimed_fill hd rfl (by simp [Task.fills])
      · split
        · exact fillsClaimed_reply
        · exact fillsClaimed_of_plain (x := some (.notNull _)) (by simp [Task.fills])
      · exact fillsClaimed_reply

theorem performAdvance_fillsClaimed (dst : Ref) (path : List Hop) :
    (h.performAdvance self dst path).FillsClaimed h self := by
  unfold performAdvance
  split
  · exact fillsClaimed_reply
  · exact fillsClaimed_reply
  · rename_i hd _
    split
    · exact fillsClaimed_reply
    · split
      · exact fillsClaimed_reply
      · split
        · exact fillsClaimed_of_plain (by simp [Task.fills])
        · exact fillsClaimed_fill hd rfl (by simp [Task.fills])
    · exact fillsClaimed_reply

theorem performReplace_fillsClaimed (dst src : Ref) (path : List Hop) :
    (h.performReplace self dst src path).FillsClaimed h self := by
  unfold performReplace
  split
  · exact fillsClaimed_reply
  · exact fillsClaimed_reply
  · rename_i hd _
    split
    · exact fillsClaimed_reply
    · split
      · exact fillsClaimed_reply
      · split
        · exact fillsClaimed_fill hd rfl (by simp [Task.fills])
        · exact fillsClaimed_reply

theorem performStore_fillsClaimed (r : Ref) (path : List Hop) (site : Site) (src : Ref) :
    (h.performStore self r path site src).FillsClaimed h self := by
  unfold performStore
  repeat' split
  all_goals first
    | exact fillsClaimed_nil
    | exact fillsClaimed_of_plain (l := [.unlend _]) (by simp [Task.fills])

/-- **An act leaves no place to be filled but one that it claimed.** -/
theorem perform_fillsClaimed (a : Act α) : (h.perform self a).FillsClaimed h self := by
  cases a with
  | assign dst src path => exact performAssign_fillsClaimed dst src path
  | advance dst path => exact performAdvance_fillsClaimed dst path
  | replace dst src path => exact performReplace_fillsClaimed dst src path
  | store r path site src => exact performStore_fillsClaimed r path site src
  | clear r =>
    simp only [perform, performClear]
    repeat' split
    all_goals first
      | exact fillsClaimed_nil
      | exact fillsClaimed_of_plain (l := [.unlend _]) (by simp [Task.fills])
  | reset | drop | move | clone | convert | make | update =>
    simp only [perform, performReset, performDrop, performMove, performClone, performConvert, performMake,
      performUpdate]
    repeat' split
    all_goals first
      | exact fillsClaimed_nil
      | exact fillsClaimed_put
  | _ => exact fillsClaimed_nil

end fills

namespace Guarded

theorem acting {c : CellId} {a : Act α} {acts : List (Act α)} {last : Answer α}
    (ts : List (Task α)) : Acting (some c) (.script c (a :: acts) last :: ts) := by
  intro c' e
  obtain rfl : c = c' := by simpa using e
  exact ⟨_, _, _, rfl⟩

/-- The tasks of an act that does not give up belong to no destruction, but for the rest of the
destructor. -/
theorem closed_act (hg : Guarded ⟨h, ts⟩ back) {a : Act α} {acts : List (Act α)} {last : Answer α}
    {rest : List (Task α)} (hts : ts = .script c (a :: acts) last :: rest) :
    ∀ c' acts' last', .script c' acts' last' ∈ (Machine.act c a acts last h rest).tasks →
      .dismantle c' ∈ (Machine.act c a acts last h rest).tasks := by
  subst hts
  have hold : ∀ c' acts' last', (c' = c ∨ .script c' acts' last' ∈ rest) → .dismantle c' ∈ rest := by
    intro c' acts' last' hor
    have hmem : Task.dismantle c' ∈ Task.script c (a :: acts) last :: rest := by
      rcases hor with rfl | hmem
      · exact hg.closed _ (a :: acts) last List.mem_cons_self
      · exact hg.closed c' acts' last' (List.mem_cons_of_mem _ hmem)
    simpa using hmem
  have hnext : ∀ (new : List (Task α)) (acts₁ : List (Act α)) (last₁ : Answer α),
      (∀ t ∈ new, t.dying? = none) → ∀ c' acts' last',
      .script c' acts' last' ∈ new ++ .script c acts₁ last₁ :: rest →
        .dismantle c' ∈ new ++ .script c acts₁ last₁ :: rest := by
    intro new acts₁ last₁ hnew c' acts' last' ht
    refine List.mem_append_right _ (List.mem_cons_of_mem _ (hold c' acts' last' ?_))
    rcases List.mem_append.mp ht with ht | ht
    · exact absurd (hnew _ ht) (by simp [Task.dying?])
    · rcases List.mem_cons.mp ht with heq | ht
      · exact .inl (Task.script.inj heq).1
      · exact .inr ht
  have hperform := hnext _ acts (h.perform (some c) a).answer
    (perform_heeds hg.sound (acting _) a).todo
  cases a with
  | skipIf p n => exact hnext [] _ last (by simp)
  | giveUpIf p =>
    unfold Machine.act
    simp only
    split
    · intro c' acts' last' ht
      simp [List.mem_filter, Task.isOwed] at ht
    · exact hnext [] acts last (by simp)
  | report say => exact hnext [] acts last (by simp)
  | _ => exact hperform

/-- A task that is of no destruction goes away. -/
theorem closed_pop {t : Task α} (hg : Guarded ⟨h, t :: ts⟩ back) (ht : t.dying? = none) :
    ∀ c acts last, .script c acts last ∈ ts → .dismantle c ∈ ts := by
  intro c acts last hmem
  rcases List.mem_cons.mp (hg.closed c acts last (List.mem_cons_of_mem _ hmem)) with rfl | hd
  · simp [Task.dying?] at ht
  · exact hd

theorem closed_release {o : Owner} (hg : Guarded ⟨h, .release o :: ts⟩ back) :
    ∀ c acts last, .script c acts last ∈ (Machine.release o h ts).tasks →
      .dismantle c ∈ (Machine.release o h ts).tasks := by
  have hrest := hg.closed_pop rfl
  unfold Machine.release
  split
  · exact hrest
  · split
    · exact hrest
    · intro c acts last hmem
      rcases List.mem_cons.mp hmem with heq | hmem
      · rw [(Task.script.inj heq).1]
        exact List.mem_cons_of_mem _ List.mem_cons_self
      · rcases List.mem_cons.mp hmem with heq | hmem
        · simp at heq
        · exact List.mem_cons_of_mem _ (List.mem_cons_of_mem _ (hrest c acts last hmem))

theorem closed_dismantle (hg : Guarded ⟨h, .dismantle c :: ts⟩ back) :
    ∀ c' acts last, .script c' acts last ∈ (Machine.dismantle c h ts).tasks →
      .dismantle c' ∈ (Machine.dismantle c h ts).tasks := by
  -- no destructor runs any more for a value that is dismantled
  have hgone : ∀ c' acts last, .script c' acts last ∈ ts → .dismantle c' ∈ ts := by
    intro c' acts last hmem
    rcases List.mem_cons.mp (hg.closed c' acts last (List.mem_cons_of_mem _ hmem)) with heq | hd
    · have horder := hg.sound.order
      have hrest : Task.dismantle c ∈ ts ++ back := by
        rw [← (Task.dismantle.inj heq)]
        exact horder.tail.dismantle_mem (List.mem_append_left _ hmem)
      exact absurd hrest (horder.head.keeper (.inside c (.field 0)) rfl)
    · exact hd
  have hkeep : ∀ (new : List (Task α)), (∀ t ∈ new, t.dying? = none) → ∀ c' acts last,
      .script c' acts last ∈ new ++ .dismantle c :: ts →
        .dismantle c' ∈ new ++ .dismantle c :: ts := by
    intro new hnew c' acts last hmem
    rcases List.mem_append.mp hmem with hmem | hmem
    · exact absurd (hnew _ hmem) (by simp [Task.dying?])
    · rcases List.mem_cons.mp hmem with heq | hmem
      · simp at heq
      · exact List.mem_append_right _ (List.mem_cons_of_mem _ (hgone c' acts last hmem))
  unfold Machine.dismantle
  split
  · exact hkeep _ fun _ => dying?_discard
  · exact hkeep _ fun _ => dying?_discard
  · exact hgone
  · exact hgone

theorem closed_step (hg : Guarded m back) : ∀ c acts last, .script c acts last ∈ m.step.tasks →
    .dismantle c ∈ m.step.tasks := by
  obtain ⟨h, ts⟩ := m
  cases ts with
  | nil => exact hg.closed
  | cons t ts =>
    cases t with
    | release o => exact hg.closed_release
    | dismantle c => exact hg.closed_dismantle
    | script c acts last =>
      cases acts with
      | nil =>
        show ∀ c' acts' last', .script c' acts' last' ∈ ts → .dismantle c' ∈ ts
        intro c' acts' last' hmem
        simpa using hg.closed c' acts' last' (List.mem_cons_of_mem _ hmem)
      | cons a acts => exact hg.closed_act rfl
    | _ => exact hg.closed_pop rfl

/-- A step keeps what is guarded, with what is left of the tasks that wait. -/
theorem step (hg : Guarded m back) (hm : m.tasks ≠ []) :
    ∃ back', Waits back back' ∧ Guarded m.step back' := by
  obtain ⟨back', hwaits, hstep⟩ := exists_step_append back hm
  have hs := (step_edits (m := ⟨m.heap, m.tasks ++ back⟩) hg.sound).sound hg.sound
  have hl := LoansHeld.step (m := ⟨m.heap, m.tasks ++ back⟩) hg.loans hg.sound
  rw [hstep] at hs hl
  exact ⟨back', hwaits, hs, hl, hg.closed_step⟩

/-- And if no destructor gives up, they are those that there were. -/
theorem step_of_calm (hg : Guarded m back) (hm : m.tasks ≠ []) (hn : ¬ m.GivesUp) :
    Guarded m.step back := by
  obtain ⟨h, ts⟩ := m
  cases ts with
  | nil => exact absurd rfl hm
  | cons t ts =>
    have hs := (step_edits (m := ⟨h, t :: ts ++ back⟩) hg.sound).sound hg.sound
    have hl := LoansHeld.step (m := ⟨h, t :: ts ++ back⟩) hg.loans hg.sound
    rw [step_append hn] at hs hl
    exact ⟨hs, hl, hg.closed_step⟩

theorem peek_release {o : Owner} (hg : Guarded ⟨h, .release o :: ts⟩ back) (hr : Minded back root)
    (hq : h.Under root q) : (Machine.release o h ts).heap.peek q = h.peek q := by
  have hcalm : ¬ (⟨h, .release o :: ts⟩ : Machine α).GivesUp := by
    rintro ⟨_, _, _, _, _, he, _⟩
    simp at he
  have hheap : (Machine.release o h (ts ++ back)).heap = (Machine.release o h ts).heap := by
    have happend : Machine.release o h (ts ++ back) = _ := step_append hcalm
    rw [happend]
    rfl
  have hs : Sound ⟨h, [], .release o :: (ts ++ back)⟩ := hg.sound
  rw [← hheap]
  rcases hs.release_cases with ⟨v, hn, hv, heq⟩ | ⟨n, hn, heq⟩
  · rw [heq]
    exact peek_condemn hn (hg.ne_inside_of_last hr hq rfl hn)
  · rw [heq]
    exact (samePointers_signOff hn).peek q

theorem peek_act {a : Act α} {acts : List (Act α)} {last : Answer α}
    (hg : Guarded ⟨h, .script c (a :: acts) last :: ts⟩ back) (hr : Minded back root)
    (hroot : (h.peek root).isSome) (hq : h.Under root q) :
    (Machine.act c a acts last h ts).heap.peek q = h.peek q := by
  have hheeds := perform_heeds hg.sound (acting (ts ++ back)) a
  have hperform := hheeds.peek q (hq.isSome_peek hroot) (hg.not_exposed hr List.mem_cons_self hq)
  cases a with
  | giveUpIf p =>
    unfold Machine.act
    simp only
    split <;> rfl
  | _ => exact hperform

theorem peek_dismantle (hg : Guarded ⟨h, .dismantle c :: ts⟩ back) (hr : Minded back root)
    (hq : h.Under root q) : (Machine.dismantle c h ts).heap.peek q = h.peek q := by
  have hdying : h.status c = some .dying := (hg.sound.dying c).mpr List.mem_cons_self
  have hne : ∀ hop, q ≠ .inside c hop := by
    intro hop he
    cases hq with
    | root => exact (hg.dying_of_minded hr he).2 List.mem_cons_self
    | inside _ ho _ =>
      injection he with hcell _
      have hlive := hg.sound.live_of_ownerAt ho
      simp only [hcell, hdying, Option.some.injEq, reduceCtorEq] at hlive
  unfold Machine.dismantle
  split
  · exact peek_modifyCell _ hne
  · exact peek_modifyCell _ hne
  · show (h.setContent c .freed).peek q = _
    exact peek_setContent hne
  · rfl

/-- A destructor leaves no task that fills a minded place. -/
theorem open_act {a : Act α} {acts : List (Act α)} {last : Answer α}
    (hg : Guarded ⟨h, .script c (a :: acts) last :: ts⟩ back) (hr : Minded back root)
    (hopen : Open ts root) : Open (Machine.act c a acts last h ts).tasks root := by
  have hscript : ∀ acts last, Open (.script c acts last :: ts) root := fun acts last =>
    open_cons.mpr ⟨by simp [Task.fills], hopen⟩
  have hperform : Open ((h.perform (some c) a).todo ++
      .script c acts (h.perform (some c) a).answer :: ts) root := by
    intro t ht hp
    rcases List.mem_append.mp ht with ht | ht
    · obtain ⟨r, hr'⟩ := perform_fillsClaimed a t ht root hp
      exact hg.claim_ne hr List.mem_cons_self hr'
    · exact hscript _ _ t ht hp
  cases a with
  | skipIf p n => exact hscript _ _
  | giveUpIf p =>
    unfold Machine.act
    simp only
    split
    · exact hopen.subset fun t ht => (List.mem_filter.mp ht).1
    · exact hscript _ _
  | report say => exact hscript _ _
  | _ => exact hperform

/-- **What a borrowed pointer leads to is the same after a step.** -/
theorem peek_step (hg : Guarded m back) (hr : Minded back root) (hroot : (m.heap.peek root).isSome)
    (hopen : Open m.tasks root) (hq : m.heap.Under root q) :
    m.step.heap.peek q = m.heap.peek q := by
  obtain ⟨h, ts⟩ := m
  cases ts with
  | nil => rfl
  | cons t ts =>
    have hfill : ∀ {g : Heap α} {p : Place} (x : Option Pointer), t.fills = some p →
        SamePointers h g → (g.poke p x).peek q = h.peek q := fun x hp hs =>
      (peek_poke_ne (hg.ne_of_fills hr hq hopen List.mem_cons_self hp) x).trans (hs.peek q)
    cases t with
    | release o => exact hg.peek_release hr hq
    | adopt dst src =>
      show (Machine.adopt dst src h).peek q = _
      unfold Machine.adopt
      split
      · rfl
      · exact hfill _ rfl (samePointers_duplicate h _)
    | follow dst o => exact hfill _ rfl (samePointers_acquire h o.cell)
    | place dst x => exact hfill _ rfl (samePointers_refl h)
    | unlend p => exact (samePointers_unlend h p).peek q
    | unshare p => exact (samePointers_unshare h p).peek q
    | script c acts last =>
      cases acts with
      | nil => rfl
      | cons a acts => exact hg.peek_act hr hroot hq
    | dismantle c => exact hg.peek_dismantle hr hq

/-- No task comes to fill a minded place. -/
theorem open_step (hg : Guarded m back) (hr : Minded back root) (hopen : Open m.tasks root) :
    Open m.step.tasks root := by
  obtain ⟨h, ts⟩ := m
  cases ts with
  | nil => exact hopen
  | cons t ts =>
    have hrest : Open ts root := (open_cons.mp hopen).2
    have hmore : ∀ {l : List (Task α)}, (∀ t ∈ l, t.fills = none) → Open (l ++ ts) root :=
      fun hnew t ht hp => (List.mem_append.mp ht).elim (fun ht => by simp [hnew t ht] at hp)
        fun ht => hrest t ht hp
    cases t with
    | release o =>
      show Open (Machine.release o h ts).tasks root
      unfold Machine.release
      split
      · exact hrest
      · split
        · exact hrest
        · exact hmore (l := [.script _ _ _, .dismantle _]) (by simp [Task.fills])
    | dismantle c =>
      have hstrip : ∀ x, Open (discard x ++ .dismantle c :: ts) root := fun x => by
        rw [List.append_cons]
        exact hmore fun t ht => (List.mem_append.mp ht).elim fills_discard fun ht => by
          rw [List.mem_singleton.mp ht]
          rfl
      show Open (Machine.dismantle c h ts).tasks root
      unfold Machine.dismantle
      split
      · exact hstrip _
      · exact hstrip _
      · exact hrest
      · exact hrest
    | script c acts last =>
      cases acts with
      | nil => exact hrest
      | cons a acts => exact hg.open_act hr hrest
    | _ => exact hrest

end Guarded

end Custody.Heap
