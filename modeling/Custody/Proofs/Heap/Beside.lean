/-
# Heaps that are alike but for one owner

Two heaps are beside each other if they have the same cells and variables, whatever the
tokens of the pointers are, but for what is odd: one cell may have an owner more in the
second heap; one place, which nobody looks into, may have something else in it there; and
some variables may there have pointers that always have a target. Who cannot get at what is
odd sees the same in both.

Key definitions: `Value.Alike`, `Act.Fair`, `Odds`, `Heap.Beside`.
Key theorems: `Beside.peek`, `Beside.through_cases`, `Beside.walk`, `Beside.find_cases`.
-/
import Mathlib.Data.List.Forall2
import Custody.Proofs.Heap.Borrow
import Custody.Proofs.Heap.Sight

namespace Custody.Heap

variable {α : Type}

/-! ### What is alike -/

/-- The same value, whatever the tokens of its pointers are. -/
structure Value.Alike (v v' : Value α) : Prop where
  data : v'.data = v.data
  script : v'.script = v.script
  fields : v'.fields.map (Option.map Owner.cell) = v.fields.map (Option.map Owner.cell)
  links : v'.links.map (Option.map Owner.cell) = v.links.map (Option.map Owner.cell)

/-- The same answer, but that a pointer may be the only owner of its target in the first case
and not in the second. -/
inductive Answer.Alike : Answer α → Answer α → Prop
  | refl (a : Answer α) : Alike a a
  | unique : Alike (.unique true) (.unique false)

/-- The same event, but that such an answer may be recorded. -/
inductive Event.Alike : Event α → Event α → Prop
  | refl (e : Event α) : Alike e e
  | reported (c : CellId) (text text' : String) :
      Alike (.reported c (.unique true) text) (.reported c (.unique false) text')

/-- Whether the event is more than that a token went from one hand to another. -/
def Event.isTold : Event α → Bool
  | .issued _ => false
  | .returned _ _ => false
  | _ => true

/-- The variable whose own pointer an act copies, if it does so. -/
def Act.copied? : Act α → Option Nat
  | .clone (.var i) [] _ => some i
  | .assign _ (.var i) [] => some i
  | .replace _ (.var i) [] => some i
  | _ => none

mutual

/-- Whether the act chooses nothing from whether a pointer is the only owner of its target, does
not give up, and does not copy the pointer in one of those variables. What holds of an act that
makes a value holds of the value's destructor. -/
def Act.Fair (sure : List Nat) : Act α → Prop
  | .skipIf p _ => p (.unique true) = p (.unique false)
  | .giveUpIf p => ∀ a, p a = false
  | .make _ _ _ script _ _ _ => Act.AllFair sure script
  | a => ∀ i, a.copied? = some i → i ∉ sure

/-- Whether all acts of a destructor are like that. -/
def Act.AllFair (sure : List Nat) : List (Act α) → Prop
  | [] => True
  | a :: acts => a.Fair sure ∧ Act.AllFair sure acts

end

theorem Act.AllFair.drop {sure : List Nat} (n : Nat) :
    ∀ {acts : List (Act α)}, Act.AllFair sure acts → Act.AllFair sure (acts.drop n) := by
  induction n with
  | zero => exact fun h => h
  | succ n ih =>
    intro acts h
    cases acts with
    | nil => exact h
    | cons a acts => exact ih h.2

theorem Answer.Alike.eq_of_fair {a a' : Answer α} (ha : a.Alike a') {p : Answer α → Bool}
    (hp : p (.unique true) = p (.unique false)) : p a' = p a := by
  cases ha with
  | refl => rfl
  | unique => exact hp.symm

/-! ### Nothing or something on both sides -/

/-- Either nothing is on both sides, or something that is related. -/
theorem rel_cases {β γ : Type} {r : β → γ → Prop} {x : Option β} {x' : Option γ}
    (hr : Option.Rel r x x') : x = none ∧ x' = none ∨ ∃ a a', x = some a ∧ x' = some a' ∧ r a a' := by
  cases hr with
  | none => exact .inl ⟨rfl, rfl⟩
  | some ha => exact .inr ⟨_, _, rfl, rfl, ha⟩

theorem map_cases {β γ δ : Type} {f : γ → δ} {g : β → δ} {x : Option β} {x' : Option γ}
    (hx : x'.map f = x.map g) :
    x = none ∧ x' = none ∨ ∃ a a', x = some a ∧ x' = some a' ∧ f a' = g a := by
  cases x with
  | none => exact .inl ⟨rfl, Option.map_eq_none_iff.mp hx⟩
  | some a =>
    obtain ⟨a', ha', heq⟩ := Option.map_eq_some_iff.mp hx
    exact .inr ⟨a, a', rfl, ha', heq⟩

/-! ### Arrows and targets -/

/-- The pointer as one that always has a target, if it has one. -/
def Arrow.sure : Arrow → Arrow
  | .nullable (some c) => .notNull c
  | a => a

@[simp] theorem Arrow.target?_sure (a : Arrow) : a.sure.target? = a.target? := by
  rcases a with (_ | c) | c | c <;> rfl

theorem cell_eq_of_arrow {q q' : Pointer} (hq : q'.arrow = q.arrow) :
    q'.owner?.map Owner.cell = q.owner?.map Owner.cell := by
  have htarget := congrArg Arrow.target? hq
  rwa [q'.target?_arrow, q.target?_arrow] at htarget

theorem kind_eq_of_arrow {q q' : Pointer} (hq : q'.arrow = q.arrow) : q'.kind = q.kind := by
  have hkind := congrArg Arrow.kind hq
  rwa [q'.kind_arrow, q.kind_arrow] at hkind

/-- Pointers with the same arrow are of one kind and have the same target. -/
theorem arrow_cases {q q' : Pointer} (hq : q'.arrow = q.arrow) :
    (∃ o o', q = .nullable o ∧ q' = .nullable o' ∧ o'.map Owner.cell = o.map Owner.cell) ∨
    (∃ o o', q = .notNull o ∧ q' = .notNull o' ∧ o'.cell = o.cell) ∨
    ∃ o o', q = .fixed o ∧ q' = .fixed o' ∧ o'.cell = o.cell := by
  rcases q with o | o | o <;> rcases q' with o' | o' | o' <;>
    simp only [Pointer.arrow, reduceCtorEq] at hq
  · exact .inl ⟨o, o', rfl, rfl, Arrow.nullable.inj hq⟩
  · exact .inr (.inl ⟨o, o', rfl, rfl, Arrow.notNull.inj hq⟩)
  · exact .inr (.inr ⟨o, o', rfl, rfl, Arrow.fixed.inj hq⟩)

theorem cell_eq_of_map_arrow {x x' : Option Pointer}
    (hx : x'.map Pointer.arrow = x.map Pointer.arrow) :
    (x'.bind Pointer.owner?).map Owner.cell = (x.bind Pointer.owner?).map Owner.cell := by
  rcases map_cases hx with ⟨rfl, rfl⟩ | ⟨q, q', rfl, rfl, hq⟩
  · rfl
  · exact cell_eq_of_arrow hq

/-- They are converted alike. -/
theorem convert_cases {q q' : Pointer} (hq : q'.arrow = q.arrow) (k : Kind) :
    (∃ e : Answer α, q.convert k = .error e ∧ q'.convert k = .error e) ∨
    ∃ x x', q.convert (α := α) k = .ok x ∧ q'.convert (α := α) k = .ok x' ∧ x'.arrow = x.arrow := by
  have hconvert : (q'.convert (α := α) k).map Pointer.arrow = (q.convert k).map Pointer.arrow := by
    rw [← Pointer.convert_arrow, ← Pointer.convert_arrow, hq]
  cases hx : q.convert (α := α) k <;> cases hx' : q'.convert (α := α) k <;>
    simp only [hx, hx', Except.map, reduceCtorEq, Except.error.injEq, Except.ok.injEq] at hconvert
  · exact .inl ⟨_, rfl, by rw [hconvert]⟩
  · exact .inr ⟨_, _, rfl, rfl, hconvert⟩

theorem admits_eq {x x' : Option Pointer} (hx : x'.map Pointer.arrow = x.map Pointer.arrow) (p : Place) :
    p.admits x' = p.admits x := by
  rcases map_cases hx with ⟨rfl, rfl⟩ | ⟨q, q', rfl, rfl, hq⟩
  · rfl
  · rcases arrow_cases hq with ⟨o, o', rfl, rfl, -⟩ | ⟨o, o', rfl, rfl, -⟩ | ⟨o, o', rfl, rfl, -⟩ <;>
      cases p <;> rfl

namespace Value

variable {v v' : Value α}

theorem Alike.refl (v : Value α) : v.Alike v := ⟨rfl, rfl, rfl, rfl⟩

/-- The same fields and links have the same targets. -/
theorem Alike.get? (ha : v.Alike v') (hop : Hop) :
    (v'.get? hop).map (Option.map Owner.cell) = (v.get? hop).map (Option.map Owner.cell) := by
  cases hop with
  | field k => simpa [Value.get?] using congrArg (·[k]?) ha.fields
  | link k => simpa [Value.get?] using congrArg (·[k]?) ha.links

theorem Alike.set (ha : v.Alike v') (hop : Hop) {o o' : Option Owner}
    (ho : o'.map Owner.cell = o.map Owner.cell) : (v.set hop o).Alike (v'.set hop o') where
  data := by cases hop <;> exact ha.data
  script := by cases hop <;> exact ha.script
  fields := by
    cases hop with
    | field k => simp only [Value.set, List.map_set, ha.fields, ho]
    | link k => exact ha.fields
  links := by
    cases hop with
    | field k => exact ha.links
    | link k => simp only [Value.set, List.map_set, ha.links, ho]

end Value

/-! ### What is odd -/

/-- In what the second of two heaps differs from the first. -/
structure Odds where
  /-- The cell that has an owner more. -/
  extra : Option CellId
  /-- The place that has something else in it. -/
  gap : Option Place
  /-- What that place has in it. -/
  fill : Option Arrow
  /-- The variables that have a pointer that always has a target. -/
  sure : List Nat

namespace Odds

variable (D : Odds)

/-- A pointer of the first heap as it is in the second. -/
def arrow : Place → Pointer → Arrow
  | .var i, q => if i ∈ D.sure then q.arrow.sure else q.arrow
  | .inside _ _, q => q.arrow

/-- What the second heap has in a place, for what the first has in it. -/
def seen (p : Place) (x : Option Pointer) : Option Arrow :=
  if D.gap = some p then D.fill else x.map (D.arrow p)

/-- The target of a field in the second heap, for what the first has in it. -/
def target (p : Place) (o : Option Owner) : Option CellId :=
  (D.seen p (some (.nullable o))).bind Arrow.target?

/-- Whether nothing is odd about the place. -/
structure Plain (p : Place) : Prop where
  gap : D.gap ≠ some p
  sure : ∀ i ∈ D.sure, p ≠ .var i

/-- What became of a value in both heaps. -/
inductive Contents (c : CellId) : Content α → Content α → Prop
  | live {v v' : Value α} : v.Alike v' → Act.AllFair D.sure v.script →
      (∀ hop, D.gap ≠ some (.inside c hop)) → Contents c (.live v) (.live v')
  | dying {v v' : Value α} :
      (∀ hop, (v'.get? hop).map (Option.map Owner.cell) =
        (v.get? hop).map (D.target (.inside c hop))) → Contents c (.dying v) (.dying v')
  | freed : Contents c .freed .freed

/-- Which cell has an owner more does not matter for that. -/
theorem Contents.congr {D} {c : CellId} {k k' : Content α} (hk : Contents D c k k')
    (e : Option CellId) : Contents ⟨e, D.gap, D.fill, D.sure⟩ c k k' := by
  cases hk with
  | live hv hfair hout => exact .live hv hfair hout
  | dying hv => exact .dying hv
  | freed => exact .freed

/-- A cell in both heaps. -/
structure Cells (c : CellId) (x x' : Cell α) : Prop where
  address : x'.address = x.address
  count : x'.count.owners = x.count.owners + if D.extra = some c then 1 else 0
  content : D.Contents c x.content x'.content

/-- A variable in both heaps. -/
structure Vars (i : Nat) (v v' : Variable) : Prop where
  pointer : v'.pointer.map Pointer.arrow = D.seen (.var i) v.pointer
  readers : v'.readers = v.readers
  writer : v'.writer = v.writer

end Odds

/-- The heaps are alike but for what is odd. -/
structure Beside (D : Odds) (h h' : Heap α) : Prop where
  cells : ∀ c, Option.Rel (D.Cells c) h.cells[c]? h'.cells[c]?
  vars : ∀ i, Option.Rel (D.Vars i) h.vars[i]? h'.vars[i]?
  told : List.Forall₂ Event.Alike (h.log.filter Event.isTold) (h'.log.filter Event.isTold)

variable {D : Odds} {h h' : Heap α} {self : Option CellId} {p q : Place} {c : CellId}

/-! ### Views -/

theorem Odds.target?_arrow (p : Place) (q : Pointer) :
    (D.arrow p q).target? = q.owner?.map Owner.cell := by
  cases p with
  | var i =>
    show (if i ∈ D.sure then q.arrow.sure else q.arrow).target? = _
    split
    · exact q.arrow.target?_sure.trans q.target?_arrow
    · exact q.target?_arrow
  | inside c hop => exact q.target?_arrow

theorem Odds.cell_eq {q q' : Pointer} (hq : q'.arrow = D.arrow p q) :
    q'.owner?.map Owner.cell = q.owner?.map Owner.cell := by
  have htarget := congrArg Arrow.target? hq
  rwa [q'.target?_arrow, D.target?_arrow] at htarget

theorem Odds.Plain.arrow (hp : D.Plain p) (q : Pointer) : D.arrow p q = q.arrow := by
  cases p with
  | var i =>
    have hi : i ∉ D.sure := fun hi => hp.sure i hi rfl
    simp only [Odds.arrow, if_neg hi]
  | inside c hop => rfl

theorem Odds.Plain.seen (hp : D.Plain p) (x : Option Pointer) : D.seen p x = x.map Pointer.arrow := by
  unfold Odds.seen
  rw [if_neg hp.gap]
  congr 1
  funext q
  exact hp.arrow q

theorem Odds.seen_of_ne (hp : D.gap ≠ some p) (x : Option Pointer) :
    D.seen p x = x.map (D.arrow p) :=
  if_neg hp

theorem Odds.target_of_ne (hp : D.gap ≠ some p) (o : Option Owner) :
    D.target p o = o.map Owner.cell := by
  unfold Odds.target
  rw [Odds.seen_of_ne hp, Option.map_some, Option.bind_some, D.target?_arrow]
  rfl

/-- What a place in a value has in the second heap if something is put there. -/
theorem Odds.target_bind (p : Place) (x : Option Pointer) :
    D.target p (x.bind Pointer.owner?) = (D.seen p x).bind Arrow.target? := by
  by_cases hp : D.gap = some p
  · simp only [Odds.target, Odds.seen, if_pos hp]
  · rw [Odds.target_of_ne hp, Odds.seen_of_ne hp]
    cases x with
    | none => rfl
    | some q => exact (D.target?_arrow p q).symm

theorem ne_none_of_status {x : Status} (hs : h.status c = some x) : h.cells[c]? ≠ none := fun hnone => by
  simp [Heap.status, hnone] at hs

namespace Beside

variable (hb : Beside D h h')
include hb

theorem length : h'.cells.length = h.cells.length := by
  have hnone : ∀ c : Nat, h.cells[c]? = none ↔ h'.cells[c]? = none := by
    intro c
    rcases rel_cases (hb.cells c) with ⟨hc, hc'⟩ | ⟨x, x', hc, hc', -⟩
    · simp only [hc, hc']
    · simp only [hc, hc', reduceCtorEq]
  apply Nat.le_antisymm
  · exact List.getElem?_eq_none_iff.mp ((hnone _).mp (List.getElem?_eq_none (Nat.le_refl _)))
  · exact List.getElem?_eq_none_iff.mp ((hnone _).mpr (List.getElem?_eq_none (Nat.le_refl _)))

theorem status (c : CellId) : h'.status c = h.status c := by
  rcases rel_cases (hb.cells c) with ⟨hc, hc'⟩ | ⟨⟨_, _, k⟩, ⟨_, _, k'⟩, hc, hc', -, -, hk⟩
  · simp only [Heap.status, hc, hc']
  · simp only [Heap.status, hc, hc', Option.map_some]
    cases hk <;> rfl

theorem count_le (c : CellId) : (h.count c).owners ≤ (h'.count c).owners := by
  rcases rel_cases (hb.cells c) with ⟨hc, hc'⟩ | ⟨x, x', hc, hc', hx⟩
  · simp only [Custody.Heap.count_eq, hc, hc', Nat.le_refl]
  · rw [count_of_getElem? hc, count_of_getElem? hc', hx.count]
    exact Nat.le_add_right _ _

theorem count_eq (hc : h.cells[c]? ≠ none) :
    (h'.count c).owners = (h.count c).owners + if D.extra = some c then 1 else 0 := by
  rcases rel_cases (hb.cells c) with ⟨hnone, -⟩ | ⟨x, x', hc, hc', hx⟩
  · exact absurd hnone hc
  · rw [count_of_getElem? hc, count_of_getElem? hc', hx.count]

theorem count_of_ne (hne : D.extra ≠ some c) : h'.count c = h.count c := by
  rcases rel_cases (hb.cells c) with ⟨hc, hc'⟩ | ⟨x, x', hc, hc', hx⟩
  · simp only [Custody.Heap.count_eq, hc, hc']
  · rw [count_of_getElem? hc, count_of_getElem? hc']
    have hcount := hx.count
    rw [if_neg hne, Nat.add_zero] at hcount
    exact congrArg Count.mk hcount

theorem isSome_peek (p : Place) : (h'.peek p).isSome = (h.peek p).isSome := by
  cases p with
  | var i =>
    rcases rel_cases (hb.vars i) with ⟨hv, hv'⟩ | ⟨v, v', hv, hv', -⟩
    · simp only [Heap.peek, hv, hv']
    · simp only [Heap.peek, hv, hv', Option.map_some, Option.isSome_some]
  | inside c hop =>
    rcases rel_cases (hb.cells c) with ⟨hc, hc'⟩ | ⟨⟨_, _, k⟩, ⟨_, _, k'⟩, hc, hc', -, -, hk⟩
    · simp only [Heap.peek, hc, hc']
    · simp only [Heap.peek, hc, hc', Option.bind_some, Option.isSome_map]
      cases hk with
      | live hv _ _ => simpa [Content.value?] using congrArg Option.isSome (hv.get? hop)
      | dying hv => simpa [Content.value?] using congrArg Option.isSome (hv hop)
      | freed => rfl

/-- What is in a place of the second heap. -/
theorem peek (hp : D.gap ≠ some p) :
    (h'.peek p).map (Option.map Pointer.arrow) = (h.peek p).map (Option.map (D.arrow p)) := by
  cases p with
  | var i =>
    rcases rel_cases (hb.vars i) with ⟨hv, hv'⟩ | ⟨v, v', hv, hv', hvar⟩
    · simp only [Heap.peek, hv, hv', Option.map_none]
    · simp only [Heap.peek, hv, hv', Option.map_some, hvar.pointer, D.seen_of_ne hp]
  | inside c hop =>
    have hlift : ∀ {x x' : Option (Option Owner)},
        x'.map (Option.map Owner.cell) = x.map (Option.map Owner.cell) →
        (x'.map fun o => some (Pointer.nullable o)).map (Option.map Pointer.arrow) =
          (x.map fun o => some (Pointer.nullable o)).map (Option.map (D.arrow (.inside c hop))) := by
      intro x x' hx
      simpa [Function.comp_def, Pointer.arrow, Odds.arrow] using
        congrArg (Option.map fun t => some (Arrow.nullable t)) hx
    rcases rel_cases (hb.cells c) with ⟨hc, hc'⟩ | ⟨⟨_, _, k⟩, ⟨_, _, k'⟩, hc, hc', -, -, hk⟩
    · simp only [Heap.peek, hc, hc', Option.bind_none, Option.map_none]
    · simp only [Heap.peek, hc, hc', Option.bind_some]
      cases hk with
      | live hv _ _ => exact hlift (hv.get? hop)
      | dying hv =>
        have hget := hv hop
        rw [funext (D.target_of_ne hp)] at hget
        exact hlift hget
      | freed => rfl

/-- The pointer in a place of the second heap. -/
theorem pointer? (hp : D.gap ≠ some p) :
    (h'.pointer? p).map Pointer.arrow = (h.pointer? p).map (D.arrow p) := by
  have hpeek := congrArg Option.join (hb.peek hp)
  rwa [Option.join_map_eq_map_join, Option.join_map_eq_map_join] at hpeek

theorem pointer?_of_plain (hp : D.Plain p) :
    (h'.pointer? p).map Pointer.arrow = (h.pointer? p).map Pointer.arrow := by
  rw [hb.pointer? hp.gap]
  congr 1
  funext q
  exact hp.arrow q

theorem readable (p : Place) : h'.readable p = h.readable p := by
  cases p with
  | inside c hop => rfl
  | var i =>
    rcases rel_cases (hb.vars i) with ⟨hv, hv'⟩ | ⟨v, v', hv, hv', hvar⟩
    · simp only [Heap.readable, hv, hv']
    · simp only [Heap.readable, hv, hv', hvar.writer]

theorem writable (p : Place) : h'.writable p = h.writable p := by
  cases p with
  | inside c hop => rfl
  | var i =>
    rcases rel_cases (hb.vars i) with ⟨hv, hv'⟩ | ⟨v, v', hv, hv', hvar⟩
    · simp only [Heap.writable, hv, hv']
    · simp only [Heap.writable, hv, hv', hvar.writer, hvar.readers]

theorem isNone_peek (p : Place) : (h'.peek p).isNone = (h.peek p).isNone := by
  rw [← Option.not_isSome, ← Option.not_isSome, hb.isSome_peek]

theorem view (self : Option CellId) (r : Ref) : h'.view self r = h.view self r := by
  simp only [Heap.view, hb.isNone_peek, hb.readable]

theorem claim (self : Option CellId) (r : Ref) : h'.claim self r = h.claim self r := by
  simp only [Heap.claim, hb.isNone_peek, hb.writable]

/-- A live value has nothing odd in it. -/
theorem live_cases (c : CellId) : (h.live? c = none ∧ h'.live? c = none) ∨
    ∃ v v', h.live? c = some v ∧ h'.live? c = some v' ∧ v.Alike v' ∧ Act.AllFair D.sure v.script ∧
      ∀ hop, D.gap ≠ some (.inside c hop) := by
  rcases rel_cases (hb.cells c) with ⟨hc, hc'⟩ | ⟨⟨_, _, k⟩, ⟨_, _, k'⟩, hc, hc', -, -, hk⟩
  · exact .inl ⟨by simp only [Heap.live?, hc], by simp only [Heap.live?, hc']⟩
  · simp only [Heap.live?, hc, hc']
    cases hk with
    | live hv hfair hgap => exact .inr ⟨_, _, rfl, rfl, hv, hfair, hgap⟩
    | dying hv => exact .inl ⟨rfl, rfl⟩
    | freed => exact .inl ⟨rfl, rfl⟩

theorem identity {o o' : Option Owner} (ho : o'.map Owner.cell = o.map Owner.cell) :
    h'.identity o' = h.identity o := by
  have hbind : ∀ (g : Heap α) (o : Option Owner),
      (o.bind fun o => g.cells[o.cell]?) = (o.map Owner.cell).bind fun c => g.cells[c]? :=
    fun g o => by cases o <;> rfl
  unfold Heap.identity
  rw [hbind, hbind, ho]
  cases o with
  | none => rfl
  | some o =>
    rw [Option.map_some, Option.bind_some, Option.bind_some]
    rcases rel_cases (hb.cells o.cell) with ⟨hc, hc'⟩ | ⟨x, x', hc, hc', hx⟩
    · rw [hc, hc']
    · rw [hc, hc']
      exact congrArg Identity.mk hx.address

theorem taken : h'.taken = h.taken := by
  have hcells : h'.cells.map (fun x => (x.occupies, x.address)) =
      h.cells.map fun x => (x.occupies, x.address) := by
    apply List.ext_getElem? fun c => ?_
    rw [List.getElem?_map, List.getElem?_map]
    rcases rel_cases (hb.cells c) with ⟨hc, hc'⟩ | ⟨⟨a, _, k⟩, ⟨a', _, k'⟩, hc, hc', haddr, -, hk⟩
    · rw [hc, hc']
    · rw [hc, hc']
      obtain rfl : a' = a := haddr
      cases hk <;> rfl
  have htaken : ∀ g : Heap α, g.taken =
      ((g.cells.map fun x => (x.occupies, x.address)).filter (·.1)).map (·.2) := fun g => by
    simp [Heap.taken, List.filter_map, Function.comp_def]
  rw [htaken, htaken, hcells]

/-- If the cell with an owner more has other owners too, no pointer is the only owner of it in
either heap. -/
theorem isUnique {o o' : Option Owner} (ho : o'.map Owner.cell = o.map Owner.cell)
    (hshared : ∀ a, o = some a → D.extra = some a.cell → 1 < (h.count a.cell).owners) :
    h'.isUnique o' = h.isUnique o := by
  rcases map_cases ho with ⟨rfl, rfl⟩ | ⟨a, a', rfl, rfl, ha⟩
  · rfl
  · simp only [Heap.isUnique, ha]
    by_cases hextra : D.extra = some a.cell
    · have hone := hshared a rfl hextra
      have hle := hb.count_le a.cell
      have hfalse : ∀ n : Count, 1 < n.owners → n.isUnique = false := fun n hn =>
        decide_eq_false (Nat.ne_of_gt hn)
      rw [hfalse _ hone, hfalse _ (Nat.lt_of_lt_of_le hone hle)]
    · rw [hb.count_of_ne hextra]

/-- What the pointer in a place leads to in both heaps. -/
theorem through_cases {alone : Bool} (hp : D.gap ≠ some p)
    (hshared : alone = true → ∀ o, h.ownerAt p = some o → D.extra = some o.cell →
      1 < (h.count o.cell).owners) :
    (∃ e, h.through alone p = .error e ∧ h'.through alone p = .error e) ∨
    ∃ c v v', h.through alone p = .ok (c, v) ∧ h'.through alone p = .ok (c, v') ∧ v.Alike v' ∧
      Act.AllFair D.sure v.script ∧ ∀ hop, D.gap ≠ some (.inside c hop) := by
  have hpeek := hb.peek hp
  have howner : ∀ {q o}, h.peek p = some (some q) → q.owner? = some o → h.ownerAt p = some o :=
    fun hq ho => ownerAt_eq_some.mpr ⟨_, by simp [Heap.pointer?, hq], ho⟩
  unfold Heap.through
  rcases map_cases hpeek with ⟨hx, hx'⟩ | ⟨x, x', hx, hx', hpointer⟩
  · rw [hx, hx']
    exact .inl ⟨_, rfl, rfl⟩
  rw [hx, hx']
  rcases map_cases hpointer with ⟨rfl, rfl⟩ | ⟨q, q', rfl, rfl, hq⟩
  · exact .inl ⟨_, rfl, rfl⟩
  simp only
  rcases map_cases (Odds.cell_eq hq) with ⟨ho, ho'⟩ | ⟨o, o', ho, ho', hc⟩
  · rw [ho, ho']
    exact .inl ⟨_, rfl, rfl⟩
  rw [ho, ho']
  have hunique : (alone && !h'.isUnique (some o')) = (alone && !h.isUnique (some o)) := by
    cases alone with
    | false => rfl
    | true =>
      have hsame : (some o').map Owner.cell = (some o).map Owner.cell := congrArg some hc
      rw [hb.isUnique hsame fun a hoa => ?_]
      obtain rfl := Option.some.inj hoa
      exact hshared rfl o (howner hx ho)
  simp only [hunique, hc]
  split
  · exact .inl ⟨_, rfl, rfl⟩
  · rcases hb.live_cases o.cell with ⟨hv, hv'⟩ | ⟨v, v', hv, hv', hlike, hfair, hgap⟩
    · rw [hv, hv']
      exact .inl ⟨_, rfl, rfl⟩
    · rw [hv, hv']
      exact .inr ⟨_, _, _, rfl, rfl, hlike, hfair, hgap⟩

/-- A path leads to the same place if it stays among places where nothing is odd. -/
theorem walk {alone : Bool} {Q : Place → Prop} (hgap : ∀ p, Q p → D.gap ≠ some p)
    (hshared : alone = true → ∀ p o, Q p → h.ownerAt p = some o → D.extra = some o.cell →
      1 < (h.count o.cell).owners)
    (hclosed : ∀ p c v hop, Q p → h.through alone p = .ok (c, v) →
      D.gap ≠ some (.inside c hop) → Q (.inside c hop)) :
    ∀ {path : List Hop} {p : Place}, Q p → h'.walk alone p path = h.walk alone p path
  | [], p, hp => by
    unfold Heap.walk
    rcases map_cases (hb.peek (hgap p hp)) with ⟨hx, hx'⟩ | ⟨x, x', hx, hx', hpointer⟩
    · rw [hx, hx']
    · rw [hx, hx']
      rcases map_cases hpointer with ⟨rfl, rfl⟩ | ⟨q, q', rfl, rfl, -⟩ <;> rfl
  | hop :: path, p, hp => by
    unfold Heap.walk
    rcases hb.through_cases (hgap p hp) (fun ha o => hshared ha p o hp) with
      ⟨e, he, he'⟩ | ⟨c, v, v', hv, hv', hlike, -, hout⟩
    · rw [he, he']
    · rw [hv, hv']
      simp only
      rcases map_cases (hlike.get? hop) with ⟨ho, ho'⟩ | ⟨o, o', ho, ho', -⟩
      · rw [ho, ho']
      · rw [ho, ho']
        exact walk hgap hshared hclosed (hclosed p c v hop hp hv (hout hop))

/-- A path over which one only looks never ends in the gap. -/
theorem walk_of_ne {path : List Hop} (hp : D.gap ≠ some p) :
    h'.walk false p path = h.walk false p path :=
  hb.walk (Q := fun p => D.gap ≠ some p) (fun _ hp => hp) (by simp) (fun _ _ _ _ _ _ hout => hout) hp

theorem ne_of_through {alone : Bool} {v : Value α} (ht : h.through alone p = .ok (c, v)) (hop : Hop) :
    D.gap ≠ some (.inside c hop) := by
  obtain ⟨-, -, -, -, -, hv, -⟩ := through_eq_ok ht
  rcases hb.live_cases c with ⟨hnone, -⟩ | ⟨-, -, -, -, -, -, hout⟩
  · simp [hv] at hnone
  · exact hout hop

theorem ne_of_walk {alone : Bool} {path : List Hop} (hp : D.gap ≠ some p)
    (hw : h.walk alone p path = .ok q) : D.gap ≠ some q :=
  walk_induct (P := fun q => D.gap ≠ some q) (fun _ _ _ hop _ ht _ => hb.ne_of_through ht hop) hp hw

/-- What is found at the end of a path in both heaps. -/
theorem find_cases {r : Ref} (path : List Hop) (hview : ∀ p, h.view self r = .ok p → D.gap ≠ some p) :
    (∃ e, h.find self r path = .error e ∧ h'.find self r path = .error e) ∨
    ∃ root p q q', h.find self r path = .ok (root, p, q) ∧ h'.find self r path = .ok (root, p, q') ∧
      D.gap ≠ some p ∧ q'.arrow = D.arrow p q := by
  unfold Heap.find
  rw [hb.view]
  cases hroot : h.view self r with
  | error e => exact .inl ⟨e, rfl, rfl⟩
  | ok root =>
    have hne := hview root hroot
    simp only [hb.walk_of_ne hne]
    cases hp : h.walk false root path with
    | error e => exact .inl ⟨e, rfl, rfl⟩
    | ok p =>
      have hgap := hb.ne_of_walk hne hp
      simp only
      rcases map_cases (hb.pointer? hgap) with ⟨hq, hq'⟩ | ⟨q, q', hq, hq', harrow⟩
      · rw [hq, hq']
        exact .inl ⟨_, rfl, rfl⟩
      · rw [hq, hq']
        exact .inr ⟨root, p, q, q', rfl, rfl, hgap, harrow⟩

end Beside

end Custody.Heap
