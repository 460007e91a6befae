/-
# Edits, and what they all preserve

A draft is a heap while it is being changed: besides what is stored there are
owners in hand, taken out of one place and not yet put into another, and tasks
that are still to do. All that acts and tasks do to a heap is done by a few edits
(`Edit`), each with the condition under which it is made. So a property of every
moment of every run is proved by one look at each kind of edit.

`Sound` is the first such property. It says that the counts tell how many owners
there are, that exactly the live cells have owners, and that the tasks agree with
the heap: each cell whose destruction goes on is still to be dismantled, each
variable that is lent is still to be given back, and each place that waits for a
pointer is vacant.

Key definitions: `Draft`, `Edit`, `Sound`.
Key theorems: `Edit.sound`, `Edits.sound`, `Edits.induct`.
-/
import Custody.Proofs.Steps
import Custody.Proofs.Heap.Order

namespace Custody.Heap

variable {α : Type}

/-- A heap, the owners in hand, and what is to do. -/
structure Draft (α : Type) where
  heap : Heap α
  hand : List Owner
  tasks : List (Task α)

/-- All owners there are: stored, in hand, or in the care of a task. -/
def Draft.owners (d : Draft α) : List Owner :=
  d.heap.owners ++ d.hand ++ d.tasks.flatMap Task.owners

/-- Whether the owner is one of that cell. -/
def Owner.isOf (c : CellId) (o : Owner) : Bool :=
  o.cell = c

/-- A remark in the log that tells what a destructor saw or that it gave up. -/
def Event.isRemark : Event α → Bool
  | .reported _ _ _ => true
  | .gaveUp _ => true
  | _ => false

/-- One change of a draft. -/
inductive Edit : Draft α → Draft α → Prop
  /-- The order of the owners in hand does not matter. -/
  | reorder {h : Heap α} {hand hand' : List Owner} {ts : List (Task α)} :
      hand.Perm hand' → Edit ⟨h, hand, ts⟩ ⟨h, hand', ts⟩
  | remark {h : Heap α} {hand : List Owner} {ts : List (Task α)} {e : Event α} :
      e.isRemark = true → Edit ⟨h, hand, ts⟩ ⟨h.note e, hand, ts⟩
  /-- What is put into a place comes out of the hand, and what was there goes into it. -/
  | poke {h : Heap α} {hand : List Owner} {ts : List (Task α)} {p : Place} {old : Option Pointer}
      (x : Option Pointer) : h.peek p = some old → Open ts p →
      Edit ⟨h, held x ++ hand, ts⟩ ⟨h.poke p x, held old ++ hand, ts⟩
  /-- One owner more of a live cell. -/
  | acquire {h : Heap α} {hand : List Owner} {ts : List (Task α)} {c : CellId} :
      h.status c = some .live → Edit ⟨h, hand, ts⟩ ⟨(h.acquire c).2, (h.acquire c).1 :: hand, ts⟩
  /-- A new cell takes the owners of its value out of the hand. -/
  | allocate {h : Heap α} {hand : List Owner} {ts : List (Task α)} (near : Nat) (v : Value α) :
      Edit ⟨h, v.owners ++ hand, ts⟩ ⟨(h.allocate near v).2, (h.allocate near v).1 :: hand, ts⟩
  /-- A live cell gets another value, with pointers out of the hand. -/
  | rewrite {h : Heap α} {hand hand' : List Owner} {ts : List (Task α)} {c : CellId} {v v' : Value α} :
      h.live? c = some v →
      (∀ P : Owner → Bool, (v'.owners ++ hand').countP P = (v.owners ++ hand).countP P) →
      Edit ⟨h, hand, ts⟩ ⟨h.setLive c v', hand', ts⟩
  | lend {h : Heap α} {hand : List Owner} {ts : List (Task α)} {p : Place} :
      (h.peek p).isSome → h.writable p = true →
      Edit ⟨h, hand, ts⟩ ⟨h.lend p, hand, .unlend p :: ts⟩
  | unlend {h : Heap α} {hand : List Owner} {ts : List (Task α)} {p : Place} :
      Edit ⟨h, hand, .unlend p :: ts⟩ ⟨h.unlend p, hand, ts⟩
  | share {h : Heap α} {hand : List Owner} {ts : List (Task α)} {p : Place} :
      (h.peek p).isSome → Edit ⟨h, hand, ts⟩ ⟨h.share p, hand, .unshare p :: ts⟩
  | unshare {h : Heap α} {hand : List Owner} {ts : List (Task α)} {p : Place} :
      Edit ⟨h, hand, .unshare p :: ts⟩ ⟨h.unshare p, hand, ts⟩
  /-- A task is left for later, with the owner that it has to take care of. -/
  | postpone {h : Heap α} {hand : List Owner} {ts : List (Task α)} {t : Task α} :
      t.Fits ts → (∀ p : Place, t ≠ p.keeper) → (∀ p, t.fills = some p → h.Vacant p) →
      Edit ⟨h, t.owners ++ hand, ts⟩ ⟨h, hand, t :: ts⟩
  /-- The pointer that was to be put into a place is taken in hand. -/
  | pick {h : Heap α} {hand : List Owner} {ts : List (Task α)} {p : Place} {q : Pointer} :
      Edit ⟨h, hand, .place p q :: ts⟩ ⟨h, held (some q) ++ hand, ts⟩
  /-- A task that is not owed is left out. -/
  | skip {h : Heap α} {hand : List Owner} {ts : List (Task α)} {t : Task α} :
      t.isOwed = false → Edit ⟨h, hand, t :: ts⟩ ⟨h, hand, ts⟩
  | giveUp {h : Heap α} {hand : List Owner} {ts : List (Task α)} :
      Edit ⟨h, hand, ts⟩ ⟨h, hand, ts.filter Task.isOwed⟩
  /-- A destructor goes on. -/
  | advance {h : Heap α} {hand : List Owner} {ts : List (Task α)} {c : CellId}
      {acts : List (Act α)} {last : Answer α} (acts' : List (Act α)) (last' : Answer α) :
      Edit ⟨h, hand, .script c acts last :: ts⟩ ⟨h, hand, .script c acts' last' :: ts⟩
  /-- An owner signs off that is not the last. -/
  | signOff {h : Heap α} {hand : List Owner} {ts : List (Task α)} {o : Owner} {n : Nat} :
      (h.count o.cell).owners = n + 2 → Edit ⟨h, hand, .release o :: ts⟩ ⟨(h.signOff o).2, hand, ts⟩
  /-- The last owner signs off, and the destruction of the value begins. -/
  | destroy {h : Heap α} {hand : List Owner} {ts : List (Task α)} {o : Owner} {v : Value α} :
      (h.count o.cell).owners = 1 → h.live? o.cell = some v →
      Edit ⟨h, hand, .release o :: ts⟩
        ⟨h.condemn o v, hand, .script o.cell v.script .done :: .dismantle o.cell :: ts⟩
  /-- The next pointer of a dying value is taken out. -/
  | strip {h : Heap α} {hand : List Owner} {ts : List (Task α)} {c : CellId} {cell : Cell α}
      {v v' : Value α} {o : Option Owner} :
      h.cells[c]? = some cell → cell.content = .dying v → v.pointers = o :: v'.pointers →
      Edit ⟨h, hand, .dismantle c :: ts⟩
        ⟨h.setContent c (.dying v'), o.toList ++ hand, .dismantle c :: ts⟩
  /-- A dying value without pointers is gone, and its cell is freed. -/
  | free {h : Heap α} {hand : List Owner} {ts : List (Task α)} {c : CellId} {cell : Cell α}
      {v : Value α} :
      h.cells[c]? = some cell → cell.content = .dying v → v.pointers = [] →
      Edit ⟨h, hand, .dismantle c :: ts⟩
        ⟨(h.setContent c .freed).note (.freed c), hand, ts⟩

/-- Some edits, one after the other. -/
abbrev Edits : Draft α → Draft α → Prop :=
  Relation.ReflTransGen Edit

/-- What holds of a draft at all times. -/
structure Sound (d : Draft α) : Prop where
  /-- The counts tell how many owners there are. -/
  census : ∀ c, (d.heap.count c).owners = d.owners.countP (Owner.isOf c)
  /-- Exactly the live cells have owners. -/
  alive : ∀ c, 0 < (d.heap.count c).owners ↔ d.heap.status c = some .live
  dying : ∀ c, d.heap.status c = some .dying ↔ .dismantle c ∈ d.tasks
  lent : ∀ i, d.heap.isLent i = true ↔ .unlend (.var i) ∈ d.tasks
  order : InOrder d.tasks
  vacant : ∀ t ∈ d.tasks, ∀ p, t.fills = some p → d.heap.Vacant p

variable {h : Heap α} {hand : List Owner} {ts : List (Task α)}

/-! ### What soundness says of owners and places -/

/-- The census, with the owners counted where they are. -/
theorem Sound.count_eq (hs : Sound ⟨h, hand, ts⟩) (c : CellId) :
    (h.count c).owners = h.owners.countP (Owner.isOf c) + hand.countP (Owner.isOf c) +
      (ts.flatMap Task.owners).countP (Owner.isOf c) := by
  rw [hs.census c]
  simp only [Draft.owners, List.countP_append]

/-- When nothing is left to do, all owners are stored. -/
theorem Sound.count_eq_owners (hs : Sound ⟨h, [], []⟩) (c : CellId) :
    (h.count c).owners = h.owners.countP (Owner.isOf c) := by
  simpa using hs.count_eq c

theorem sound_of_count_eq
    (census : ∀ c, (h.count c).owners = h.owners.countP (Owner.isOf c) +
      hand.countP (Owner.isOf c) + (ts.flatMap Task.owners).countP (Owner.isOf c))
    (alive : ∀ c, 0 < (h.count c).owners ↔ h.status c = some .live)
    (dying : ∀ c, h.status c = some .dying ↔ .dismantle c ∈ ts)
    (lent : ∀ i, h.isLent i = true ↔ .unlend (.var i) ∈ ts)
    (order : InOrder ts)
    (vacant : ∀ t ∈ ts, ∀ p, t.fills = some p → h.Vacant p) : Sound ⟨h, hand, ts⟩ :=
  ⟨fun c => by rw [census c]; simp only [Draft.owners, List.countP_append],
    alive, dying, lent, order, vacant⟩

/-- Whoever is an owner is one of a live cell. -/
theorem Sound.live_of_mem (hs : Sound ⟨h, hand, ts⟩) {o : Owner}
    (ho : o ∈ (⟨h, hand, ts⟩ : Draft α).owners) : h.status o.cell = some .live := by
  refine (hs.alive o.cell).mp ?_
  rw [hs.census]
  exact List.countP_pos_iff.mpr ⟨o, ho, by simp [Owner.isOf]⟩

/-- A place that waits for a pointer is in no live cell. -/
theorem Sound.not_inside_of_fills (hs : Sound ⟨h, hand, ts⟩) {t : Task α} (ht : t ∈ ts) {p : Place}
    (hp : t.fills = some p) {c : CellId} (hc : h.status c = some .live) (hop : Hop) :
    p ≠ .inside c hop := by
  rintro rfl
  have hd := (hs.dying c).mpr (hs.order.keeper_mem ht hp)
  rw [hc] at hd
  simp at hd

/-! ### Each edit preserves it -/

theorem Sound.reorder {hand' : List Owner} (hs : Sound ⟨h, hand, ts⟩) (hp : hand.Perm hand') :
    Sound ⟨h, hand', ts⟩ := by
  refine sound_of_count_eq (fun c => ?_) hs.alive hs.dying hs.lent hs.order hs.vacant
  rw [hs.count_eq c, hp.countP_eq]

theorem Sound.remark (hs : Sound ⟨h, hand, ts⟩) (e : Event α) : Sound ⟨h.note e, hand, ts⟩ :=
  ⟨hs.census, hs.alive, hs.dying, hs.lent, hs.order, hs.vacant⟩

theorem Sound.poke {p : Place} {old x : Option Pointer} (hs : Sound ⟨h, held x ++ hand, ts⟩)
    (hp : h.peek p = some old) (ho : Open ts p) : Sound ⟨h.poke p x, held old ++ hand, ts⟩ := by
  refine sound_of_count_eq (fun c => ?_) (fun c => ?_) (fun c => ?_) (fun i => ?_) hs.order
    (fun t ht q hq => ?_)
  · have hcount := hs.count_eq c
    have howners := owners_poke (Owner.isOf c) hp x
    rw [count_poke]
    simp only [List.countP_append] at hcount ⊢
    omega
  · simpa using hs.alive c
  · simpa using hs.dying c
  · simpa using hs.lent i
  · obtain ⟨y, hy, hh⟩ := hs.vacant t ht q hq
    have hne : p ≠ q := fun e => ho t ht (by rw [hq, e])
    exact ⟨y, (peek_poke_ne hne x).trans hy, hh⟩

theorem Sound.acquire {c : CellId} (hs : Sound ⟨h, hand, ts⟩) (hc : h.status c = some .live) :
    Sound ⟨(h.acquire c).2, (h.acquire c).1 :: hand, ts⟩ := by
  have hsame := samePointers_acquire h c
  refine sound_of_count_eq (fun c' => ?_) (fun c' => ?_) (fun c' => ?_) hs.lent hs.order
    (fun t ht q hq => hsame.vacant (hs.vacant t ht q hq))
  · have hcount := hs.count_eq c'
    rw [count_acquire hc, hsame.owners, List.countP_cons]
    by_cases hcc : c' = c
    · simp only [hcc, if_true, Owner.isOf, Heap.acquire, decide_true] at hcount ⊢
      omega
    · have : ¬ c = c' := fun e => hcc e.symm
      simp only [hcc, this, if_false, Owner.isOf, Heap.acquire, decide_false] at hcount ⊢
      simpa using hcount
  · rw [count_acquire hc, hsame.status]
    by_cases hcc : c' = c
    · subst hcc
      simp [hc]
    · simpa [hcc] using hs.alive c'
  · rw [hsame.status]
    exact hs.dying c'

theorem Sound.allocate {near : Nat} {v : Value α} (hs : Sound ⟨h, v.owners ++ hand, ts⟩) :
    Sound ⟨(h.allocate near v).2, (h.allocate near v).1 :: hand, ts⟩ := by
  have hnew : h.status h.cells.length = none := by simp [status]
  refine sound_of_count_eq (fun c => ?_) (fun c => ?_) (fun c => ?_) hs.lent hs.order
    (fun t ht q hq => ?_)
  · have hcount := hs.count_eq c
    rw [count_allocate, owners_allocate, List.countP_cons]
    simp only [List.countP_append] at hcount
    by_cases hc : c = h.cells.length
    · simp only [hc, if_true, Owner.isOf, Heap.allocate, decide_true] at hcount ⊢
      omega
    · have : ¬ h.cells.length = c := fun e => hc e.symm
      simp only [hc, this, if_false, Owner.isOf, Heap.allocate, decide_false] at hcount ⊢
      simp
      omega
  · rw [count_allocate, status_allocate]
    by_cases hc : c = h.cells.length
    · simp [hc]
    · simpa [hc] using hs.alive c
  · rw [status_allocate]
    split
    · rename_i hc
      have := hs.dying c
      simp only [hc, hnew] at this
      simpa [hc] using this
    · exact hs.dying c
  · obtain ⟨y, hy, hh⟩ := hs.vacant t ht q hq
    exact ⟨y, peek_allocate hy, hh⟩

theorem Sound.rewrite {hand' : List Owner} {c : CellId} {v v' : Value α}
    (hs : Sound ⟨h, hand, ts⟩) (hv : h.live? c = some v)
    (heq : ∀ P : Owner → Bool, (v'.owners ++ hand').countP P = (v.owners ++ hand).countP P) :
    Sound ⟨h.setLive c v', hand', ts⟩ := by
  refine sound_of_count_eq (fun c' => ?_) (fun c' => ?_) (fun c' => ?_) hs.lent hs.order
    (fun t ht q hq => ?_)
  · have hcount := hs.count_eq c'
    have howners := owners_setLive (Owner.isOf c') hv v'
    have hhand := heq (Owner.isOf c')
    rw [setLive_eq, count_setContent, ← setLive_eq]
    simp only [List.countP_append] at hhand
    omega
  · rw [status_setLive hv, setLive_eq, count_setContent]
    exact hs.alive c'
  · rw [status_setLive hv]
    exact hs.dying c'
  · obtain ⟨y, hy, hh⟩ := hs.vacant t ht q hq
    have hne := hs.not_inside_of_fills ht hq (status_of_live? hv)
    exact ⟨y, (peek_setContent hne).trans hy, hh⟩

/-- A change of what is borrowed, with a task that holds no owner put before or taken from the others. -/
theorem Sound.of_samePointers {h' : Heap α} {ts' : List (Task α)} (hs : Sound ⟨h, hand, ts⟩)
    (same : SamePointers h h') (hcount : ∀ c, h'.count c = h.count c)
    (howners : ts'.flatMap Task.owners = ts.flatMap Task.owners)
    (hdying : ∀ c, .dismantle c ∈ ts' ↔ .dismantle c ∈ ts)
    (lent : ∀ i, h'.isLent i = true ↔ .unlend (.var i) ∈ ts') (order : InOrder ts')
    (hfill : ∀ t ∈ ts', ∀ p, t.fills = some p → t ∈ ts) : Sound ⟨h', hand, ts'⟩ := by
  refine sound_of_count_eq (fun c => ?_) (fun c => ?_) (fun c => ?_) lent order
    (fun t ht q hq => same.vacant (hs.vacant t (hfill t ht q hq) q hq))
  · rw [hcount, same.owners, howners]
    exact hs.count_eq c
  · rw [hcount, same.status]
    exact hs.alive c
  · rw [same.status, hdying]
    exact hs.dying c

theorem Sound.lend {p : Place} (hs : Sound ⟨h, hand, ts⟩) (hp : (h.peek p).isSome)
    (hw : h.writable p = true) : Sound ⟨h.lend p, hand, .unlend p :: ts⟩ := by
  refine hs.of_samePointers (samePointers_lend h p) (fun c => count_lend h p c) (by simp [Task.owners])
    (fun c => by simp) (fun i => ?_) ?_ (fun t ht q hq => ?_)
  · cases p with
    | var j =>
      rw [isLent_lend hp]
      by_cases hij : i = j
      · simp [hij]
      · simpa [hij] using hs.lent i
    | inside c hop => simpa [Heap.lend] using hs.lent i
  · cases p with
    | var j =>
      have hj : Task.unlend (.var j) ∉ ts := by
        rw [← hs.lent j, isLent_of_writable hw]
        simp
      exact .cons (Task.fits_keeper (p := .var j) hj) hs.order
    | inside c hop => exact .cons (Task.fits_unlend_inside c hop ts) hs.order
  · rcases List.mem_cons.mp ht with rfl | ht
    · simp [Task.fills] at hq
    · exact ht

theorem Sound.unlend {p : Place} (hs : Sound ⟨h, hand, .unlend p :: ts⟩) :
    Sound ⟨h.unlend p, hand, ts⟩ := by
  refine hs.of_samePointers (samePointers_unlend h p) (fun c => count_unlend h p c)
    (by simp [Task.owners]) (fun c => by simp) (fun i => ?_) hs.order.tail
    (fun t ht _ _ => List.mem_cons_of_mem _ ht)
  have hlent := hs.lent i
  cases p with
  | var j =>
    rw [isLent_unlend]
    by_cases hij : i = j
    · have := hs.order.head.keeper (.var j) rfl
      simpa [hij] using this
    · simpa [hij] using hlent
  | inside c hop => simpa [Heap.unlend] using hlent

theorem Sound.share {p : Place} (hs : Sound ⟨h, hand, ts⟩) :
    Sound ⟨h.share p, hand, .unshare p :: ts⟩ := by
  refine hs.of_samePointers (samePointers_share h p) (fun c => count_share h p c) (by simp [Task.owners])
    (fun c => by simp) (fun i => ?_) (.cons (Task.fits_unshare p ts) hs.order) (fun t ht q hq => ?_)
  · rw [isLent_share]
    simpa using hs.lent i
  · rcases List.mem_cons.mp ht with rfl | ht
    · simp [Task.fills] at hq
    · exact ht

theorem Sound.unshare {p : Place} (hs : Sound ⟨h, hand, .unshare p :: ts⟩) :
    Sound ⟨h.unshare p, hand, ts⟩ := by
  refine hs.of_samePointers (samePointers_unshare h p) (fun c => count_unshare h p c)
    (by simp [Task.owners]) (fun c => by simp) (fun i => ?_) hs.order.tail
    (fun t ht _ _ => List.mem_cons_of_mem _ ht)
  rw [isLent_unshare]
  simpa using hs.lent i

theorem Sound.postpone {t : Task α} (hs : Sound ⟨h, t.owners ++ hand, ts⟩) (hf : t.Fits ts)
    (hk : ∀ p : Place, t ≠ p.keeper) (hv : ∀ p, t.fills = some p → h.Vacant p) :
    Sound ⟨h, hand, t :: ts⟩ := by
  refine sound_of_count_eq (fun c => ?_) hs.alive (fun c => ?_) (fun i => ?_) (.cons hf hs.order)
    (fun u hu q hq => ?_)
  · have hcount := hs.count_eq c
    simp only [List.flatMap_cons, List.countP_append] at hcount ⊢
    omega
  · have : Task.dismantle c ≠ t := fun e => hk (.inside c (.field 0)) e.symm
    simpa [this] using hs.dying c
  · have : Task.unlend (.var i) ≠ t := fun e => hk (.var i) e.symm
    simpa [this] using hs.lent i
  · rcases List.mem_cons.mp hu with rfl | hu
    · exact hv q hq
    · exact hs.vacant u hu q hq

/-- The first task is done with; it was no keeper, and its owner is in hand now. -/
theorem Sound.pop {t : Task α} (hs : Sound ⟨h, hand, t :: ts⟩) (hk : ∀ p : Place, t ≠ p.keeper) :
    Sound ⟨h, t.owners ++ hand, ts⟩ := by
  refine sound_of_count_eq (fun c => ?_) hs.alive (fun c => ?_) (fun i => ?_) hs.order.tail
    (fun u hu => hs.vacant u (List.mem_cons_of_mem _ hu))
  · have hcount := hs.count_eq c
    simp only [List.flatMap_cons, List.countP_append] at hcount ⊢
    omega
  · have : Task.dismantle c ≠ t := fun e => hk (.inside c (.field 0)) e.symm
    simpa [this] using hs.dying c
  · have : Task.unlend (.var i) ≠ t := fun e => hk (.var i) e.symm
    simpa [this] using hs.lent i

theorem Sound.skip {t : Task α} (hs : Sound ⟨h, hand, t :: ts⟩) (ht : t.isOwed = false) :
    Sound ⟨h, hand, ts⟩ := by
  have hk : ∀ p : Place, t ≠ p.keeper := by
    rintro p rfl
    simp at ht
  simpa [Task.owners_of_not_isOwed ht] using hs.pop hk

theorem Sound.giveUp (hs : Sound ⟨h, hand, ts⟩) : Sound ⟨h, hand, ts.filter Task.isOwed⟩ := by
  have howners : ∀ l : List (Task α),
      (l.filter Task.isOwed).flatMap Task.owners = l.flatMap Task.owners := by
    intro l
    induction l with
    | nil => rfl
    | cons t l ih =>
      cases ht : t.isOwed with
      | true => simp [ht, ih]
      | false => simp [ht, ih, Task.owners_of_not_isOwed ht]
  have hkeeper : ∀ p : Place, p.keeper ∈ ts.filter Task.isOwed ↔ p.keeper ∈ ts := by simp
  refine sound_of_count_eq (fun c => ?_) hs.alive (fun c => ?_) (fun i => ?_)
    hs.order.filter_isOwed (fun t ht => hs.vacant t (List.mem_filter.mp ht).1)
  · rw [howners]
    exact hs.count_eq c
  · exact (hs.dying c).trans (hkeeper (.inside c (.field 0))).symm
  · exact (hs.lent i).trans (hkeeper (.var i)).symm

theorem Sound.advance {c : CellId} {acts acts' : List (Act α)} {last last' : Answer α}
    (hs : Sound ⟨h, hand, .script c acts last :: ts⟩) :
    Sound ⟨h, hand, .script c acts' last' :: ts⟩ := by
  obtain ⟨hd, hopen⟩ := hs.order.head.script c acts last rfl
  have hk : ∀ p : Place, Task.script c acts' last' ≠ p.keeper := fun p => by
    cases p <;> simp [Place.keeper]
  refine Sound.postpone (hs.skip rfl) (Task.fits_script hd hopen acts' last') hk (fun p hp => ?_)
  simp [Task.fills] at hp

/-! ### Owners that sign off -/

theorem Sound.signOff {o : Owner} {n : Nat} (hs : Sound ⟨h, hand, .release o :: ts⟩)
    (hn : (h.count o.cell).owners = n + 2) : Sound ⟨(h.signOff o).2, hand, ts⟩ := by
  have hsame := samePointers_signOff hn
  have hcount : ∀ c, ((h.signOff o).2.count c).owners + (if c = o.cell then 1 else 0) =
      (h.count c).owners := count_signOff hn
  have hlent : ∀ i, (h.signOff o).2.isLent i = h.isLent i := fun i => by rw [signOff_eq hn]; rfl
  refine sound_of_count_eq (fun c => ?_) (fun c => ?_) (fun c => ?_) (fun i => ?_) hs.order.tail
    (fun t ht q hq => hsame.vacant (hs.vacant t (List.mem_cons_of_mem _ ht) q hq))
  · have h1 := hs.count_eq c
    have h2 := hcount c
    rw [hsame.owners]
    simp only [List.flatMap_cons, Task.owners, List.countP_append, List.countP_cons, List.countP_nil,
      Owner.isOf, decide_eq_true_eq] at h1 ⊢
    have hcomm : (o.cell = c) = (c = o.cell) := propext eq_comm
    simp only [hcomm] at h1
    omega
  · have halive : 0 < (h.count c).owners ↔ h.status c = some .live := hs.alive c
    rw [hsame.status, ← halive]
    have h2 := hcount c
    by_cases hc : c = o.cell
    · subst hc
      simp only [if_true] at h2
      omega
    · simp only [hc, if_false] at h2
      omega
  · rw [hsame.status]
    simpa using hs.dying c
  · rw [hlent]
    simpa using hs.lent i

theorem Sound.destroy {o : Owner} {v : Value α} (hs : Sound ⟨h, hand, .release o :: ts⟩)
    (hn : (h.count o.cell).owners = 1) (hv : h.live? o.cell = some v) :
    Sound ⟨h.condemn o v, hand, .script o.cell v.script .done :: .dismantle o.cell :: ts⟩ := by
  have hnew : Task.dismantle o.cell ∉ ts := fun hm => by
    have hd := (hs.dying o.cell).mpr (List.mem_cons_of_mem _ hm)
    rw [status_of_live? hv] at hd
    simp at hd
  have hopen : ∀ hop, Open ts (.inside o.cell hop) := fun hop =>
    hs.order.tail.open_of_keeper (p := .inside o.cell hop) hnew
  have horder : InOrder (.script o.cell v.script .done :: .dismantle o.cell :: ts) :=
    .cons (Task.fits_script List.mem_cons_self
        (fun hop => open_cons.mpr ⟨by simp [Task.fills], hopen hop⟩) _ _)
      (.cons (Task.fits_keeper (p := .inside o.cell (.field 0)) hnew) hs.order.tail)
  refine sound_of_count_eq (fun c => ?_) (fun c => ?_) (fun c => ?_) (fun i => ?_) horder
    (fun t ht q hq => ?_)
  · have h1 := hs.count_eq c
    have h2 := count_condemn (v := v) hn c
    rw [owners_condemn _ hn hv]
    simp only [List.flatMap_cons, Task.owners, List.countP_append, List.countP_cons, List.countP_nil,
      Owner.isOf, decide_eq_true_eq, List.nil_append, eq_comm (a := o.cell)] at h1 ⊢
    omega
  · have halive : 0 < (h.count c).owners ↔ h.status c = some .live := hs.alive c
    have h2 := count_condemn (v := v) hn c
    rw [status_condemn hn hv]
    by_cases hc : c = o.cell
    · subst hc
      simp only [if_true] at h2 ⊢
      simp
      omega
    · simp only [hc, if_false, Nat.add_zero] at h2 ⊢
      rw [h2, halive]
  · have hdying : h.status c = some .dying ↔ Task.dismantle c ∈ Task.release o :: ts := hs.dying c
    rw [status_condemn hn hv]
    by_cases hc : c = o.cell
    · simp [hc]
    · simpa [hc] using hdying
  · rw [isLent_condemn hn]
    simpa using hs.lent i
  · simp only [List.mem_cons] at ht
    rcases ht with rfl | rfl | ht
    · simp [Task.fills] at hq
    · simp [Task.fills] at hq
    · obtain ⟨y, hy, hh⟩ := hs.vacant t (List.mem_cons_of_mem _ ht) q hq
      have hne : ∀ hop, q ≠ .inside o.cell hop := fun hop e => hopen hop t ht (by rw [hq, e])
      exact ⟨y, (peek_condemn hn hne).trans hy, hh⟩

/-! ### Values that are dismantled -/

/-- A dying value is changed: whatever owner it loses is in hand now, and its cell is freed
only if it is not to be dismantled any more. -/
theorem Sound.dismantle {c : CellId} {cell : Cell α} {v : Value α} {k : Content α}
    {hand' : List Owner} {ts' : List (Task α)} (hs : Sound ⟨h, hand, .dismantle c :: ts⟩)
    (hc : h.cells[c]? = some cell) (hcon : cell.content = .dying v)
    (howners : ∀ P : Owner → Bool,
      (k.owners ++ hand').countP P = (v.owners ++ hand).countP P)
    (hk : k.status = .dying ∧ ts' = .dismantle c :: ts ∨ k.status = .freed ∧ ts' = ts) :
    Sound ⟨h.setContent c k, hand', ts'⟩ := by
  have hlive : k.status ≠ .live := by
    rcases hk with ⟨hk, -⟩ | ⟨hk, -⟩ <;> simp [hk]
  have hnew : Task.dismantle c ∉ ts := hs.order.head.keeper (.inside c (.field 0)) rfl
  have hopen : ∀ hop, Open ts (.inside c hop) := fun hop =>
    hs.order.tail.open_of_keeper (p := .inside c hop) hnew
  have hsub : ∀ t ∈ ts', t.fills ≠ none → t ∈ ts := by
    rcases hk with ⟨-, rfl⟩ | ⟨-, rfl⟩
    · intro t ht hf
      rcases List.mem_cons.mp ht with rfl | ht
      · simp [Task.fills] at hf
      · exact ht
    · exact fun t ht _ => ht
  refine sound_of_count_eq (fun c' => ?_) (fun c' => ?_) (fun c' => ?_) (fun i => ?_) ?_
    (fun t ht q hq => ?_)
  · have h1 := hs.count_eq c'
    have h2 := owners_setContent (Owner.isOf c') hc k
    have h3 := howners (Owner.isOf c')
    have h4 : ts'.flatMap Task.owners = ts.flatMap Task.owners := by
      rcases hk with ⟨-, rfl⟩ | ⟨-, rfl⟩ <;> simp [Task.owners]
    rw [count_setContent, h4]
    rw [hcon, Content.owners_dying] at h2
    simp only [List.flatMap_cons, Task.owners, List.nil_append, List.countP_append] at h1 h3 ⊢
    omega
  · have halive : 0 < (h.count c').owners ↔ h.status c' = some .live := hs.alive c'
    rw [count_setContent, status_setContent hc, halive]
    by_cases h' : c' = c
    · subst h'
      simp [hlive, status, hc, hcon]
    · simp [h']
  · have hdying : h.status c' = some .dying ↔ Task.dismantle c' ∈ Task.dismantle c :: ts := hs.dying c'
    rw [status_setContent hc]
    by_cases h' : c' = c
    · subst h'
      rcases hk with ⟨hk, rfl⟩ | ⟨hk, rfl⟩ <;> simp [hk, hnew]
    · rcases hk with ⟨-, rfl⟩ | ⟨-, rfl⟩ <;> simpa [h'] using hdying
  · have hlent : h.isLent i = true ↔ Task.unlend (.var i) ∈ Task.dismantle c :: ts := hs.lent i
    rcases hk with ⟨-, rfl⟩ | ⟨-, rfl⟩ <;> simpa using hlent
  · rcases hk with ⟨-, rfl⟩ | ⟨-, rfl⟩
    · exact hs.order
    · exact hs.order.tail
  · have hmem := hsub t ht (by simp [hq])
    obtain ⟨y, hy, hh⟩ := hs.vacant t (List.mem_cons_of_mem _ hmem) q hq
    have hne : ∀ hop, q ≠ .inside c hop := fun hop e => hopen hop t hmem (by rw [hq, e])
    exact ⟨y, (peek_setContent hne).trans hy, hh⟩

/-- **Every edit preserves soundness.** -/
theorem Edit.sound {d d' : Draft α} (he : Edit d d') (hs : Sound d) : Sound d' := by
  cases he with
  | reorder hp => exact hs.reorder hp
  | remark _ => exact hs.remark _
  | poke x hp ho => exact hs.poke hp ho
  | acquire hc => exact hs.acquire hc
  | allocate near v => exact hs.allocate
  | rewrite hv heq => exact hs.rewrite hv heq
  | lend hp hw => exact hs.lend hp hw
  | unlend => exact hs.unlend
  | share _ => exact hs.share
  | unshare => exact hs.unshare
  | postpone hf hk hv => exact hs.postpone hf hk hv
  | pick => exact hs.pop fun p => by cases p <;> simp [Place.keeper]
  | skip ht => exact hs.skip ht
  | giveUp => exact hs.giveUp
  | advance acts' last' => exact hs.advance
  | signOff hn => exact hs.signOff hn
  | destroy hn hv => exact hs.destroy hn hv
  | @strip _ hand _ c cell v v' o hc hcon hp =>
    refine hs.dismantle hc hcon (fun P => ?_) (.inl ⟨rfl, rfl⟩)
    simp only [Content.owners_dying, Value.owners, hp, List.countP_append]
    cases o with
    | none => simp
    | some o =>
      simp only [List.filterMap_cons, id_eq, List.countP_cons, Option.toList_some, List.countP_nil]
      omega
  | free hc hcon hp =>
    refine (hs.dismantle (k := .freed) hc hcon (fun P => ?_) (.inr ⟨rfl, rfl⟩)).remark _
    simp [Value.owners, hp]

theorem Edits.sound {d d' : Draft α} (he : Edits d d') (hs : Sound d) : Sound d' :=
  kept_of_steps (R := Edit) Edit.sound he hs

/-- What each edit of a sound draft preserves, all edits together preserve. -/
theorem Edits.induct {Q : Draft α → Prop}
    (hedit : ∀ {d d' : Draft α}, Sound d → Edit d d' → Q d → Q d') {d d' : Draft α}
    (he : Edits d d') (hs : Sound d) (hq : Q d) : Q d' :=
  kept_of_steps_of_kept (R := Edit) Edit.sound hedit he hs hq

end Custody.Heap
