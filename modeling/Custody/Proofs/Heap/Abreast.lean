/-
# Acts that do the same in both heaps

Who acts in two heaps that are beside each other, and cannot get at what is odd, does the same
in both: what he claims, what he comes to and what he is answered is the same, and so is what is
left to do. Only the question whether a pointer is the only owner of its target may be answered
otherwise, if the target is the cell with an owner more.

Key definitions: `Hidden`, `Odds.Tasks`, `Outcome.Abreast`.
Key theorems: `Beside.query`, `Beside.perform`.
-/
import Custody.Proofs.Heap.Tandem

namespace Custody.Heap

variable {α : Type} {D : Odds} {h h' : Heap α} {me : Option CellId} {Q : Place → Prop} {p : Place}
  {c : CellId}

/-- Who acts cannot get at what is odd. The places that he may change are among those that
satisfy `Q`, and so is what he comes to from them by pointers without others to share their
targets; none of these is the only owner of the cell that has an owner more. -/
structure Hidden (D : Odds) (h : Heap α) (me : Option CellId) (Q : Place → Prop) : Prop where
  claimed : ∀ r p, h.claim me r = .ok p → D.Plain p ∧ Q p
  viewed : ∀ r p, h.view me r = .ok p → D.gap ≠ some p
  closed : ∀ p c v hop, Q p → h.through true p = .ok (c, v) → Q (.inside c hop)
  shared : ∀ p o, Q p → h.ownerAt p = some o → D.extra = some o.cell → 1 < (h.count o.cell).owners
  extra : D.extra ≠ some h.cells.length
  gap : ∀ hop, D.gap ≠ some (.inside h.cells.length hop)

/-- A task in both heaps. -/
inductive Odds.Tasks (D : Odds) : Task α → Task α → Prop
  | release {o o' : Owner} : o'.cell = o.cell → Tasks D (.release o) (.release o')
  | adopt {dst src : Place} : D.Plain dst → D.Plain src → Tasks D (.adopt dst src) (.adopt dst src)
  | follow {dst : Place} {o o' : Owner} : D.Plain dst → o'.cell = o.cell →
      Tasks D (.follow dst o) (.follow dst o')
  | place {dst : Place} {q q' : Pointer} : D.Plain dst → q'.arrow = q.arrow →
      Tasks D (.place dst q) (.place dst q')
  | unlend (p : Place) : Tasks D (.unlend p) (.unlend p)
  | unshare (p : Place) : Tasks D (.unshare p) (.unshare p)
  | script (c : CellId) {acts : List (Act α)} {last last' : Answer α} : Act.AllFair D.sure acts →
      last.Alike last' → Tasks D (.script c acts last) (.script c acts last')
  | dismantle (c : CellId) : Tasks D (.dismantle c) (.dismantle c)

/-- An act did the same in both heaps. -/
structure Outcome.Abreast (D : Odds) (o o' : Outcome α) : Prop where
  heap : Beside D o.heap o'.heap
  todo : List.Forall₂ D.Tasks o.todo o'.todo
  answer : o'.answer = o.answer

theorem discard_abreast {x x' : Option Pointer}
    (hx : (x'.bind Pointer.owner?).map Owner.cell = (x.bind Pointer.owner?).map Owner.cell) :
    List.Forall₂ (D.Tasks (α := α)) (discard x) (discard x') := by
  unfold discard
  rcases map_cases hx with ⟨ho, ho'⟩ | ⟨o, o', ho, ho', hc⟩
  · rw [ho, ho']
    exact .nil
  · rw [ho, ho']
    exact .cons (.release hc) .nil

theorem discard_some {q q' : Pointer} (hq : q'.arrow = q.arrow) :
    List.Forall₂ (D.Tasks (α := α)) (discard (some q)) (discard (some q')) := by
  apply discard_abreast
  exact cell_eq_of_arrow hq

theorem discard_nullable {o o' : Option Owner} (ho : o'.map Owner.cell = o.map Owner.cell) :
    List.Forall₂ (D.Tasks (α := α)) (discard (some (.nullable o))) (discard (some (.nullable o'))) := by
  apply discard_abreast
  exact ho

/-- A path of at least one hop ends in a value. -/
theorem walk_eq_var {alone : Bool} {i : Nat} {path : List Hop}
    (hw : h.walk alone p path = .ok (.var i)) : path = [] ∧ p = .var i := by
  unfold Heap.walk at hw
  split at hw
  · split at hw
    · simp at hw
    · simp at hw
    · exact ⟨rfl, by simpa using hw⟩
  · split at hw
    · simp at hw
    · split at hw
      · simp at hw
      · have hinside := walk_induct (P := fun q => ∃ c hop, q = .inside c hop)
          (fun _ c _ hop _ _ _ => ⟨c, hop, rfl⟩) ⟨_, _, rfl⟩ hw
        simp at hinside

/-- Nothing is odd about a pointer that is found, unless it is that of an odd variable. -/
theorem Hidden.plain_of_find (_ : Hidden D h me Q) {r : Ref} {path : List Hop} {root : Place}
    {q : Pointer} (hf : h.find me r path = .ok (root, p, q)) (hgap : D.gap ≠ some p)
    (hsure : ∀ i, r = .var i → path = [] → i ∉ D.sure) : D.Plain p where
  gap := hgap
  sure := by
    rintro i hi rfl
    obtain ⟨rfl, rfl⟩ := walk_eq_var (find_eq_ok hf).2.2.1
    have hplace := view_eq_place (view_of_find hf)
    cases r with
    | var j =>
      obtain rfl : j = i := by simpa [place?] using hplace
      exact hsure j rfl rfl hi
    | own hop => simp [place?] at hplace

theorem length_poke (h : Heap α) (p : Place) (x : Option Pointer) :
    (h.poke p x).cells.length = h.cells.length := by
  cases p with
  | var i => rfl
  | inside c hop => exact List.length_modify _ _ _

/-- The same pointers are taken out of the places named, one after the other. -/
theorem Hidden.gather (hh : Hidden D h me Q) : ∀ {rs : List (Option Ref)} {g g' : Heap α}, Beside D g g' →
    (∀ r, g.claim me r = h.claim me r) →
    (∃ e, Heap.gather me g rs = .error e ∧ Heap.gather me g' rs = .error e) ∨
    ∃ os os' k k', Heap.gather me g rs = .ok (os, k) ∧ Heap.gather me g' rs = .ok (os', k') ∧
      os'.map (Option.map Owner.cell) = os.map (Option.map Owner.cell) ∧ Beside D k k' ∧
      k.cells.length = g.cells.length
  | [], g, g', hg, _ => .inr ⟨[], [], g, g', rfl, rfl, rfl, hg, rfl⟩
  | none :: rs, g, g', hg, hclaim => by
    unfold Heap.gather
    rcases hh.gather hg hclaim with ⟨e, he, he'⟩ | ⟨os, os', k, k', hos, hos', hlike, hk, hlen⟩
    · rw [he, he']
      exact .inl ⟨e, rfl, rfl⟩
    · rw [hos, hos']
      exact .inr ⟨_, _, k, k', rfl, rfl, congrArg (none :: ·) hlike, hk, hlen⟩
  | some r :: rs, g, g', hg, hclaim => by
    unfold Heap.gather
    rw [hg.claim]
    cases hp : g.claim me r with
    | error e => exact .inl ⟨e, rfl, rfl⟩
    | ok p =>
      have hplain := (hh.claimed r p ((hclaim r).symm.trans hp)).1
      simp only
      rcases map_cases (hg.pointer?_of_plain hplain) with ⟨hq, hq'⟩ | ⟨q, q', hq, hq', harrow⟩
      · rw [hq, hq']
        exact .inl ⟨_, rfl, rfl⟩
      rw [hq, hq']
      rcases arrow_cases harrow with ⟨o, o', rfl, rfl, ho⟩ | ⟨o, o', rfl, rfl, -⟩ | ⟨o, o', rfl, rfl, -⟩
      · have hclaim' : ∀ r, (g.poke p p.vacated).claim me r = h.claim me r := fun r =>
          (claim_poke (pointer?_eq_some hq) r).trans (hclaim r)
        simp only
        rcases hh.gather (hg.poke hplain rfl) hclaim' with
          ⟨e, he, he'⟩ | ⟨os, os', k, k', hos, hos', hlike, hk, hlen⟩
        · rw [he, he']
          exact .inl ⟨e, rfl, rfl⟩
        · rw [hos, hos']
          refine .inr ⟨_, _, k, k', rfl, rfl, ?_, hk, hlen.trans (length_poke g p _)⟩
          rw [List.map_cons, List.map_cons, ho, hlike]
      · exact .inl ⟨_, rfl, rfl⟩
      · exact .inl ⟨_, rfl, rfl⟩

namespace Beside

variable (hb : Beside D h h')
include hb

theorem reply (a : Answer α) : (h.reply a).Abreast D (h'.reply a) := ⟨hb, .nil, rfl⟩

/-- What is dropped has the same target. -/
theorem discard (hp : D.Plain p) :
    List.Forall₂ (D.Tasks (α := α)) (Custody.Heap.discard (h.pointer? p))
      (Custody.Heap.discard (h'.pointer? p)) :=
  discard_abreast (cell_eq_of_map_arrow (hb.pointer?_of_plain hp))

theorem put (hp : D.Plain p) {x x' : Option Pointer} (hx : x'.map Pointer.arrow = x.map Pointer.arrow) :
    (h.put p x).Abreast D (h'.put p x') :=
  ⟨hb.poke hp hx, hb.discard hp, rfl⟩

/-- Whether a pointer is the only owner of its target is answered alike; if not, the target is
the cell that has an owner more in the second heap. -/
theorem isUnique_cases {o o' : Option Owner} (ho : o'.map Owner.cell = o.map Owner.cell)
    (hpos : ∀ a, o = some a → 0 < (h.count a.cell).owners) :
    h'.isUnique o' = h.isUnique o ∨ ∃ a, o = some a ∧ D.extra = some a.cell ∧
      (h.count a.cell).owners = 1 ∧ h.isUnique o = true ∧ h'.isUnique o' = false := by
  rcases map_cases ho with ⟨rfl, rfl⟩ | ⟨a, a', rfl, rfl, ha⟩
  · exact .inl rfl
  by_cases hextra : D.extra = some a.cell
  · by_cases hone : (h.count a.cell).owners = 1
    · have hcell : h.cells[a.cell]? ≠ none := fun hnone => by
        simp [Custody.Heap.count_eq, hnone] at hone
      have htwo : (h'.count a'.cell).owners = 2 := by
        rw [ha, hb.count_eq hcell, hone, if_pos hextra]
      exact .inr ⟨a, rfl, hextra, hone, decide_eq_true hone, decide_eq_false (by omega)⟩
    · refine .inl (hb.isUnique ho fun b hba _ => ?_)
      obtain rfl := Option.some.inj hba
      have := hpos a rfl
      omega
  · exact .inl (hb.isUnique ho fun b hba hb => absurd (Option.some.inj hba ▸ hb) hextra)

variable (hh : Hidden D h me Q)
include hh

theorem performReset (dst : Ref) : (h.performReset me dst).Abreast D (h'.performReset me dst) := by
  unfold Heap.performReset
  rw [hb.claim]
  cases hd : h.claim me dst with
  | error e => exact hb.reply e
  | ok d => exact hb.put (hh.claimed dst d hd).1 rfl

theorem performDrop (r : Ref) : (h.performDrop me r).Abreast D (h'.performDrop me r) := by
  unfold Heap.performDrop
  rw [hb.claim]
  cases hp : h.claim me r with
  | error e => exact hb.reply e
  | ok p => exact hb.put (hh.claimed r p hp).1 rfl

theorem performClear (r : Ref) : (h.performClear me r).Abreast D (h'.performClear me r) := by
  unfold Heap.performClear
  rw [hb.claim]
  cases hp : h.claim me r with
  | error e => exact hb.reply e
  | ok p =>
    have hplain := (hh.claimed r p hp).1
    simp only
    rcases map_cases (hb.pointer?_of_plain hplain) with ⟨hq, hq'⟩ | ⟨q, q', hq, hq', harrow⟩
    · rw [hq, hq']
      exact hb.reply _
    · rw [hq, hq']
      rcases arrow_cases harrow with ⟨o, o', rfl, rfl, ho⟩ | ⟨o, o', rfl, rfl, -⟩ | ⟨o, o', rfl, rfl, -⟩
      · refine ⟨(hb.poke hplain rfl).lend p, ?_, rfl⟩
        exact List.rel_append (discard_nullable ho) (.cons (.unlend p) .nil)
      · exact hb.reply _
      · exact hb.reply _

theorem performMove (src dst : Ref) : (h.performMove me src dst).Abreast D (h'.performMove me src dst) := by
  unfold Heap.performMove
  rw [hb.claim, hb.claim]
  cases hs : h.claim me src with
  | error e => exact hb.reply e
  | ok s =>
    cases hd : h.claim me dst with
    | error e => exact hb.reply e
    | ok d =>
      have hplain := (hh.claimed src s hs).1
      have hpointer := hb.pointer?_of_plain hplain
      simp only
      rw [admits_eq hpointer d]
      split
      · exact (hb.poke hplain rfl).put (hh.claimed dst d hd).1 hpointer
      · exact hb.reply _

/-- What is found to be copied. -/
theorem find_copied {r : Ref} {path : List Hop} (hsure : ∀ i, r = .var i → path = [] → i ∉ D.sure) :
    (∃ e, h.find me r path = .error e ∧ h'.find me r path = .error e) ∨
    ∃ root p q q', h.find me r path = .ok (root, p, q) ∧ h'.find me r path = .ok (root, p, q') ∧
      D.Plain p ∧ q'.arrow = q.arrow := by
  rcases hb.find_cases path (hh.viewed r) with herror | ⟨root, p, q, q', hf, hf', hgap, harrow⟩
  · exact .inl herror
  · have hplain := hh.plain_of_find hf hgap hsure
    exact .inr ⟨root, p, q, q', hf, hf', hplain, harrow.trans (hplain.arrow q)⟩

theorem performClone (src : Ref) (path : List Hop) (dst : Ref)
    (hsure : ∀ i, src = .var i → path = [] → i ∉ D.sure) :
    (h.performClone me src path dst).Abreast D (h'.performClone me src path dst) := by
  unfold Heap.performClone
  rw [hb.claim]
  rcases hb.find_copied hh hsure with ⟨e, hf, hf'⟩ | ⟨root, p, q, q', hf, hf', -, hq⟩
  · rw [hf, hf']
    exact hb.reply e
  · rw [hf, hf']
    cases hd : h.claim me dst with
    | error e => exact hb.reply e
    | ok d =>
      have hsome : (some q').map Pointer.arrow = (some q).map Pointer.arrow := congrArg some hq
      simp only [admits_eq hsome d]
      split
      · refine (hb.duplicate hq).put (hh.claimed dst d hd).1 (congrArg some ?_)
        rw [arrow_duplicate, arrow_duplicate, hq]
      · exact hb.reply _

theorem performAssign (dst src : Ref) (path : List Hop)
    (hsure : ∀ i, src = .var i → path = [] → i ∉ D.sure) :
    (h.performAssign me dst src path).Abreast D (h'.performAssign me dst src path) := by
  unfold Heap.performAssign
  rw [hb.claim]
  cases hd : h.claim me dst with
  | error e => exact hb.reply e
  | ok d =>
    rcases hb.find_copied hh hsure with ⟨e, hf, hf'⟩ | ⟨s, p, q, q', hf, hf', hp, hq⟩
    · rw [hf, hf']
      exact hb.reply e
    rw [hf, hf']
    have hplain := (hh.claimed dst d hd).1
    simp only
    split
    · exact hb.reply _
    rcases map_cases (hb.pointer?_of_plain hplain) with ⟨ha, ha'⟩ | ⟨a, a', ha, ha', harrow⟩
    · rw [ha, ha']
      exact hb.reply _
    rw [ha, ha']
    rcases arrow_cases harrow with ⟨a, a', rfl, rfl, hac⟩ | ⟨a, a', rfl, rfl, hac⟩ | ⟨a, a', rfl, rfl, -⟩ <;>
      rcases arrow_cases hq with ⟨b, b', rfl, rfl, hbc⟩ | ⟨b, b', rfl, rfl, hbc⟩ | ⟨b, b', rfl, rfl, -⟩ <;>
      try exact hb.reply _
    · simp only [hb.identity hac, hb.identity hbc]
      split
      · exact hb.reply _
      · refine ⟨((hb.poke hplain rfl).lend d).share s, ?_, rfl⟩
        exact List.rel_append (discard_nullable hac)
          (.cons (.adopt hplain hp) (.cons (.unshare s) (.cons (.unlend d) .nil)))
    · have hac' : (some a').map Owner.cell = (some a).map Owner.cell := congrArg some hac
      have hbc' : (some b').map Owner.cell = (some b).map Owner.cell := congrArg some hbc
      simp only [hb.identity hac', hb.identity hbc', hbc]
      split
      · exact hb.reply _
      · have hcopy : (some (Pointer.notNull (h'.acquire b.cell).1)).map Pointer.arrow =
            (some (Pointer.notNull (h.acquire b.cell).1)).map Pointer.arrow := rfl
        exact ⟨(((hb.acquire b.cell).poke hplain hcopy).lend d).share s,
          .cons (.release hac) (.cons (.unshare s) (.cons (.unlend d) .nil)), rfl⟩

theorem performAdvance (dst : Ref) (path : List Hop) :
    (h.performAdvance me dst path).Abreast D (h'.performAdvance me dst path) := by
  unfold Heap.performAdvance
  rw [hb.claim]
  cases hd : h.claim me dst with
  | error e => exact hb.reply e
  | ok d =>
    have hplain := (hh.claimed dst d hd).1
    have hsure : ∀ i, dst = .var i → path = [] → i ∉ D.sure := by
      rintro i rfl - hi
      obtain rfl : .var i = d := by simpa [place?] using (claim_eq_ok hd).1
      exact hplain.sure i hi rfl
    rcases hb.find_copied hh hsure with ⟨e, hf, hf'⟩ | ⟨root, p, q, q', hf, hf', hp, hq⟩
    · rw [hf, hf']
      exact hb.reply e
    rw [hf, hf']
    simp only
    rcases map_cases (hb.pointer?_of_plain hplain) with ⟨ha, ha'⟩ | ⟨a, a', ha, ha', harrow⟩
    · rw [ha, ha']
      exact hb.reply _
    rw [ha, ha']
    rcases arrow_cases harrow with ⟨a, a', rfl, rfl, hac⟩ | ⟨a, a', rfl, rfl, -⟩ | ⟨a, a', rfl, rfl, -⟩ <;>
      rcases arrow_cases hq with ⟨b, b', rfl, rfl, hbc⟩ | ⟨b, b', rfl, rfl, -⟩ | ⟨b, b', rfl, rfl, -⟩ <;>
      try exact hb.reply _
    simp only [hb.identity hac, hb.identity hbc]
    split
    · exact hb.reply _
    · rcases map_cases hbc with ⟨rfl, rfl⟩ | ⟨b, b', rfl, rfl, hc⟩
      · exact ⟨(hb.poke hplain rfl).lend d,
          List.rel_append (discard_nullable hac) (.cons (.unlend d) .nil), rfl⟩
      · simp only [hc]
        refine ⟨((hb.acquire b.cell).poke hplain rfl).lend d, ?_, rfl⟩
        exact List.rel_append (discard_nullable hac)
          (.cons (.follow hplain rfl) (.cons (.release rfl) (.cons (.unlend d) .nil)))

theorem performReplace (dst src : Ref) (path : List Hop)
    (hsure : ∀ i, src = .var i → path = [] → i ∉ D.sure) :
    (h.performReplace me dst src path).Abreast D (h'.performReplace me dst src path) := by
  unfold Heap.performReplace
  rw [hb.claim]
  cases hd : h.claim me dst with
  | error e => exact hb.reply e
  | ok d =>
    rcases hb.find_copied hh hsure with ⟨e, hf, hf'⟩ | ⟨s, p, q, q', hf, hf', -, hq⟩
    · rw [hf, hf']
      exact hb.reply e
    rw [hf, hf']
    have hplain := (hh.claimed dst d hd).1
    simp only
    split
    · exact hb.reply _
    rcases map_cases (hb.pointer?_of_plain hplain) with ⟨ha, ha'⟩ | ⟨a, a', ha, ha', harrow⟩
    · rw [ha, ha']
      exact hb.reply _
    rw [ha, ha']
    simp only [kind_eq_of_arrow harrow, kind_eq_of_arrow hq]
    split
    · have hcopy : (h'.duplicate q').1.arrow = (h.duplicate q).1.arrow := by
        rw [arrow_duplicate, arrow_duplicate, hq]
      refine ⟨(((hb.duplicate hq).poke hplain rfl).lend d).share s, ?_, rfl⟩
      exact List.rel_append (discard_some harrow)
        (.cons (.place hplain hcopy) (.cons (.unshare s) (.cons (.unlend d) .nil)))
    · exact hb.reply _

theorem performConvert (src dst : Ref) (kind : Kind) :
    (h.performConvert me src dst kind).Abreast D (h'.performConvert me src dst kind) := by
  unfold Heap.performConvert
  rw [hb.claim, hb.claim]
  cases hs : h.claim me src with
  | error e => exact hb.reply e
  | ok s =>
    cases hd : h.claim me dst with
    | error e => exact hb.reply e
    | ok d =>
      have hplain := (hh.claimed src s hs).1
      simp only
      rcases map_cases (hb.pointer?_of_plain hplain) with ⟨hq, hq'⟩ | ⟨q, q', hq, hq', harrow⟩
      · rw [hq, hq']
        exact hb.reply _
      rw [hq, hq']
      simp only
      rcases convert_cases (α := α) harrow kind with ⟨e, he, he'⟩ | ⟨x, x', hx, hx', hconverted⟩
      · simp only [he, he']
        cases e <;> first | exact hb.reply _ | exact ⟨hb.poke hplain rfl, .nil, rfl⟩
      · have hsome : (some x').map Pointer.arrow = (some x).map Pointer.arrow := congrArg some hconverted
        simp only [hx, hx', admits_eq hsome d]
        split
        · exact (hb.poke hplain rfl).put (hh.claimed dst d hd).1 hsome
        · exact hb.reply _

theorem performMake (dst : Ref) (kind : Kind) (data : α) (script : List (Act α))
    (fields links : List (Option Ref)) (near : Nat) (hfair : Act.AllFair D.sure script) :
    (h.performMake me dst kind data script fields links near).Abreast D
      (h'.performMake me dst kind data script fields links near) := by
  unfold Heap.performMake
  rw [hb.claim]
  cases hd : h.claim me dst with
  | error e => exact hb.reply e
  | ok d =>
    rcases hh.gather hb (fun _ => rfl) with
      ⟨e, he, he'⟩ | ⟨os, os', k, k', hos, hos', hlike, hk, hlen⟩
    · rw [he, he']
      exact hb.reply e
    rw [hos, hos']
    have hvalue : (⟨data, script, os.take fields.length, os.drop fields.length⟩ : Value α).Alike
        ⟨data, script, os'.take fields.length, os'.drop fields.length⟩ :=
      ⟨rfl, rfl, by simp only [List.map_take, hlike], by simp only [List.map_drop, hlike]⟩
    have hmade := hk.allocate near hvalue hfair (by rw [hlen]; exact hh.extra) (by rw [hlen]; exact hh.gap)
    have hpointer : (some (kind.pointer (k'.allocate near
          ⟨data, script, os'.take fields.length, os'.drop fields.length⟩).1)).map Pointer.arrow =
        (some (kind.pointer (k.allocate near
          ⟨data, script, os.take fields.length, os.drop fields.length⟩).1)).map Pointer.arrow := by
      simp only [Option.map_some, Kind.arrow_pointer, Heap.allocate, hk.length]
    simp only [admits_eq hpointer d]
    split
    · exact hmade.put (hh.claimed dst d hd).1 hpointer
    · exact hb.reply _

/-- By pointers without others to share their targets one comes to the same places. -/
theorem walk_alone {root : Place} (path : List Hop) (hroot : D.Plain root ∧ Q root) :
    h'.walk true root path = h.walk true root path ∧
      ∀ p, h.walk true root path = .ok p → D.gap ≠ some p ∧ Q p :=
  ⟨hb.walk (Q := fun p => D.gap ≠ some p ∧ Q p) (fun _ hp => hp.1) (fun _ p o hp => hh.shared p o hp.2)
      (fun p c v hop hp ht hout => ⟨hout, hh.closed p c v hop hp.2 ht⟩) ⟨hroot.1.gap, hroot.2⟩,
    fun _ hw => walk_induct (P := fun p => D.gap ≠ some p ∧ Q p)
      (fun p c v hop hp ht _ => ⟨hb.ne_of_through ht hop, hh.closed p c v hop hp.2 ht⟩)
      ⟨hroot.1.gap, hroot.2⟩ hw⟩

theorem through_alone (hgap : D.gap ≠ some p) (hq : Q p) :
    (∃ e, h.through true p = .error e ∧ h'.through true p = .error e) ∨
    ∃ c v v', h.through true p = .ok (c, v) ∧ h'.through true p = .ok (c, v') ∧ v.Alike v' ∧
      Act.AllFair D.sure v.script ∧ ∀ hop, D.gap ≠ some (.inside c hop) :=
  hb.through_cases hgap fun _ o => hh.shared p o hq

theorem performUpdate (r : Ref) (path : List Hop) (f : α → α) :
    (h.performUpdate me r path f).Abreast D (h'.performUpdate me r path f) := by
  unfold Heap.performUpdate
  rw [hb.claim]
  cases hr : h.claim me r with
  | error e => exact hb.reply e
  | ok root =>
    obtain ⟨hwalk, hend⟩ := hb.walk_alone hh path (hh.claimed r root hr)
    simp only [hwalk]
    cases hp : h.walk true root path with
    | error e => exact hb.reply e
    | ok p =>
      obtain ⟨hgap, hq⟩ := hend p hp
      simp only
      rcases hb.through_alone hh hgap hq with
        ⟨e, he, he'⟩ | ⟨c, v, v', hv, hv', hlike, hfair, hout⟩
      · rw [he, he']
        exact hb.reply e
      · rw [hv, hv']
        have hdata : (⟨f v.data, v.script, v.fields, v.links⟩ : Value α).Alike
            ⟨f v'.data, v'.script, v'.fields, v'.links⟩ :=
          ⟨congrArg f hlike.data, hlike.script, hlike.fields, hlike.links⟩
        exact ⟨hb.setContent c (.live hdata hfair hout), .nil,
        congrArg (fun d => Answer.value (f d)) hlike.data⟩

theorem performStore (r : Ref) (path : List Hop) (site : Site) (src : Ref) :
    (h.performStore me r path site src).Abreast D (h'.performStore me r path site src) := by
  unfold Heap.performStore
  rw [hb.claim, hb.claim]
  cases hr : h.claim me r with
  | error e => exact hb.reply e
  | ok root =>
    cases hs : h.claim me src with
    | error e => exact hb.reply e
    | ok s =>
      obtain ⟨hwalk, hend⟩ := hb.walk_alone hh path (hh.claimed r root hr)
      have hplain := (hh.claimed src s hs).1
      simp only [hwalk]
      split
      · exact hb.reply _
      rcases map_cases (hb.pointer?_of_plain hplain) with ⟨hq, hq'⟩ | ⟨q, q', hq, hq', harrow⟩
      · rw [hq, hq']
        exact hb.reply _
      rw [hq, hq']
      rcases arrow_cases harrow with ⟨o, o', rfl, rfl, ho⟩ | ⟨o, o', rfl, rfl, -⟩ | ⟨o, o', rfl, rfl, -⟩
      · cases hp : h.walk true root path with
        | error e => exact hb.reply e
        | ok p =>
          obtain ⟨hgap, hq⟩ := hend p hp
          simp only
          rcases hb.through_alone hh hgap hq with
            ⟨e, he, he'⟩ | ⟨c, v, v', hv, hv', hlike, hfair, hout⟩
          · rw [he, he']
            exact hb.reply e
          rw [hv, hv']
          have htaken : Beside D (h.poke s s.vacated) (h'.poke s s.vacated) := hb.poke hplain rfl
          rcases site with hop | _
          · simp only
            rcases map_cases (hlike.get? hop) with ⟨hold, hold'⟩ | ⟨old, old', hold, hold', hcell⟩
            · rw [hold, hold']
              exact hb.reply _
            · rw [hold, hold']
              have hset := hlike.set hop ho
              have hfair' : Act.AllFair D.sure (v.set hop o).script := by cases hop <;> exact hfair
              exact ⟨(htaken.setContent c (.live hset hfair' hout)).lend root,
                List.rel_append (discard_nullable hcell) (.cons (.unlend root) .nil), rfl⟩
          · have hmore : (⟨v.data, v.script, v.fields ++ [o], v.links⟩ : Value α).Alike
                ⟨v'.data, v'.script, v'.fields ++ [o'], v'.links⟩ :=
              ⟨hlike.data, hlike.script, by simp only [List.map_append, hlike.fields, List.map_cons, ho],
                hlike.links⟩
            exact ⟨htaken.setContent c (.live hmore hfair hout), .nil, rfl⟩
      · exact hb.reply _
      · exact hb.reply _

/-- A question is answered alike; if not, it was whether the pointer in some place is the only
owner of the cell that has an owner more in the second heap, and it is in the first. -/
theorem query (hpos : ∀ p o, h.ownerAt p = some o → 0 < (h.count o.cell).owners) (q : Query) :
    h'.query me q = h.query me q ∨
    ∃ r path root p x o, q = .isUnique r path ∧ h.find me r path = .ok (root, p, x) ∧
      x.owner? = some o ∧ D.extra = some o.cell ∧ (h.count o.cell).owners = 1 ∧
      h.query me q = .unique true ∧ h'.query me q = .unique false := by
  cases q with
  | isNull r path =>
    refine .inl ?_
    unfold Heap.query
    rcases hb.find_cases path (hh.viewed r) with ⟨e, hf, hf'⟩ | ⟨root, p, x, x', hf, hf', -, hx⟩
    · simp only [hf, hf']
    · have hnone := congrArg Option.isNone (Odds.cell_eq hx)
      simp only [Option.isNone_map] at hnone
      simp only [hf, hf', hnone]
  | isUnique r path =>
    unfold Heap.query
    rcases hb.find_cases path (hh.viewed r) with ⟨e, hf, hf'⟩ | ⟨root, p, x, x', hf, hf', -, hx⟩
    · exact .inl (by simp only [hf, hf'])
    · have hpointer := (find_eq_ok hf).2.2.2
      rcases hb.isUnique_cases (Odds.cell_eq hx) fun a ha =>
        hpos p a (ownerAt_eq_some.mpr ⟨x, hpointer, ha⟩) with hsame | ⟨a, ha, hextra, hone, htrue, hfalse⟩
      · exact .inl (by simp only [hf, hf', hsame])
      · exact .inr ⟨r, path, root, p, x, a, rfl, hf, ha, hextra, hone, by simp only [hf, htrue],
          by simp only [hf', hfalse]⟩
  | read r path =>
    refine .inl ?_
    unfold Heap.query
    rcases hb.find_cases path (hh.viewed r) with ⟨e, hf, hf'⟩ | ⟨root, p, x, x', hf, hf', hgap, -⟩
    · simp only [hf, hf']
    · simp only [hf, hf']
      rcases hb.through_cases hgap (fun ha : false = true => absurd ha Bool.false_ne_true) with
          ⟨e, he, he'⟩ | ⟨c, v, v', hv, hv', hlike, -, -⟩
      · simp only [he, he']
      · simp only [hv, hv', hlike.data]
  | same a b =>
    refine .inl ?_
    unfold Heap.query
    rcases hb.find_cases [] (hh.viewed a) with ⟨e, hf, hf'⟩ | ⟨_, p, x, x', hf, hf', -, hx⟩
    · simp only [hf, hf']
    · rcases hb.find_cases [] (hh.viewed b) with ⟨e, hg, hg'⟩ | ⟨_, q, y, y', hg, hg', -, hy⟩
      · simp only [hf, hf', hg, hg']
      · simp only [hf, hf', hg, hg', hb.identity (Odds.cell_eq hx), hb.identity (Odds.cell_eq hy)]

/-- **An act that asks nothing does the same in both heaps.** -/
theorem perform {a : Act α} (hfair : a.Fair D.sure) (hask : ∀ q, a ≠ .ask q) :
    (h.perform me a).Abreast D (h'.perform me a) := by
  cases a with
  | ask q => exact absurd rfl (hask q)
  | reset dst => exact hb.performReset hh dst
  | drop r => exact hb.performDrop hh r
  | clear r => exact hb.performClear hh r
  | move src dst => exact hb.performMove hh src dst
  | clone src path dst =>
    refine hb.performClone hh src path dst ?_
    rintro i rfl rfl
    exact hfair i rfl
  | assign dst src path =>
    refine hb.performAssign hh dst src path ?_
    rintro i rfl rfl
    exact hfair i rfl
  | advance dst path => exact hb.performAdvance hh dst path
  | replace dst src path =>
    refine hb.performReplace hh dst src path ?_
    rintro i rfl rfl
    exact hfair i rfl
  | convert src dst kind => exact hb.performConvert hh src dst kind
  | make dst kind data script fields links near =>
    exact hb.performMake hh dst kind data script fields links near hfair
  | update r path f => exact hb.performUpdate hh r path f
  | store r path site src => exact hb.performStore hh r path site src
  | skipIf p n => exact hb.reply _
  | giveUpIf p => exact hb.reply _
  | report say => exact hb.reply _

end Beside

end Custody.Heap
