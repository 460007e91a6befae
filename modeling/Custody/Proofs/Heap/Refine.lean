/-
# Counts say what looking at all variables would

Whatever a caller does with pointers to plain values, in any number of variables and in
any order, is answered as by a register that counts nothing, and destroys the same
values in the same step.

Each call is taken by itself: the heap is at rest and has some register, the call is
answered as by that register, and the heap that is left has the register that is left.

Key definitions: `Rest`, `Ready`, `Agrees`.
Key theorems: `Ready.serve`, `Rest.serve`, `Shows.transcript`, `Shows.value_iff`.
-/
import Custody.Proofs.Heap.Addresses
import Custody.Proofs.Heap.Sight

namespace Custody.Heap

variable {α : Type} {h g : Heap α} {r : Register α} {ds : List (CellId × α)} {i j : Nat}

/-! ### Heaps at rest -/

/-- The draft is sound, its loans end, and addresses tell its cells apart. -/
structure Orderly (d : Draft α) : Prop where
  sound : Sound d
  loans : LoansEnd d
  apart : Apart d.heap

theorem Edit.orderly {d d' : Draft α} (he : Edit d d') (ho : Orderly d) : Orderly d' :=
  ⟨he.sound ho.sound, he.loansEnd ho.loans, he.apart ho.apart⟩

/-- Nothing is left to do. -/
abbrev Rest (h : Heap α) : Prop := Orderly ⟨h, [], []⟩

theorem rest_empty (n : Nat) : Rest (.empty n : Heap α) where
  sound := sound_empty n
  loans := Moment.loansEnd .empty
  apart := apart_empty n

/-- A heap is at rest again after each operation. -/
theorem Rest.exec (hr : Rest h) (op : Op α) : Rest (h.exec op).1 := by
  have hstart : Orderly (Machine.start h op).draft :=
    kept_of_steps Edit.orderly (operate_edits hr.sound op) hr
  have hend : Orderly (Machine.start h op).settle.draft :=
    settle_induct (R := fun m => Orderly m.draft)
      (fun {m} hm => kept_of_steps Edit.orderly (step_edits hm.sound) hm) hstart
  rwa [← exec_eq] at hend

/-- The log does not matter. -/
theorem Rest.forget (hr : Rest h) : Rest h.forget where
  sound := ⟨hr.sound.census, hr.sound.alive, hr.sound.dying, hr.sound.lent, hr.sound.order,
    hr.sound.vacant⟩
  loans := hr.loans
  apart := hr.apart.of_cells rfl

theorem Shows.forget (hsh : Shows h r ds) : Shows h.forget r [] :=
  ⟨hsh.plain, hsh.register, rfl⟩

/-- The heap is at rest and has that register, and those were destroyed. -/
structure Ready (h : Heap α) (r : Register α) (ds : List (CellId × α)) : Prop where
  rest : Rest h
  shows : Shows h r ds

namespace Ready

theorem slot (hr : Ready h r ds) (i : Nat) :
    r.slots[i]?.join = (h.pointer? (.var i)).map Pointer.arrow := by
  rw [← hr.shows.register, slot_register]

theorem length (hr : Ready h r ds) : r.slots.length = h.vars.length := by
  rw [← hr.shows.register, length_slots_register]

theorem claim (hr : Ready h r ds) (i : Nat) :
    h.claim none (.var i) = if i < r.slots.length then .ok (.var i) else .error .absent := by
  rw [claim_var (hr.rest.loans.writable hr.rest.sound _), hr.length]
  by_cases hlt : i < h.vars.length <;> simp [hlt]

theorem claim_of_pointer? (hr : Ready h r ds) {q : Pointer} (hq : h.pointer? (.var i) = some q) :
    h.claim none (.var i) = .ok (.var i) := by
  obtain ⟨v, hv, -⟩ := peek_var_eq_some (pointer?_eq_some hq)
  rw [claim_var (hr.rest.loans.writable hr.rest.sound _), hv]
  rfl

theorem target (hr : Ready h r ds) {q : Pointer} (hq : h.pointer? (.var i) = some q) :
    r.target? i = q.owner?.map (·.cell) := by
  rw [← hr.shows.register, target?_register, hq]
  rfl

/-- What the pointer in a variable loses when something else is put there. -/
theorem put (hr : Ready h r ds) {q : Pointer} (hq : h.pointer? (.var i) = some q) (x : Option Arrow) :
    r.put i x = (r.set i x).lose (q.owner?.map (·.cell)) := by
  unfold Register.put
  rw [hr.target hq]

theorem find_absent (hi : ¬ i < r.slots.length) : r.find i = .error .absent := by
  unfold Register.find
  rw [List.getElem?_eq_none (Nat.not_lt.mp hi)]

/-- What is seen in a variable that is there. -/
theorem find_cases (hr : Ready h r ds) (hi : i < r.slots.length) :
    (r.find i = .error .vacant ∧ h.peek (.var i) = some none) ∨
    ∃ q, r.find i = .ok q.arrow ∧ h.pointer? (.var i) = some q := by
  have hslot := slots_register h i
  rw [hr.shows.register] at hslot
  rw [hr.length] at hi
  have hv := List.getElem?_eq_getElem hi
  rw [hv] at hslot
  unfold Register.find
  rw [hslot]
  cases hp : h.vars[i].pointer with
  | none => exact .inl ⟨by simp [hp], by simp [peek, hv, hp]⟩
  | some q => exact .inr ⟨q, by simp [hp], by simp [pointer?, peek, hv, hp]⟩

theorem readable (hr : Ready h r ds) (p : Place) : h.readable p = true := by
  have hwritable := hr.rest.loans.writable hr.rest.sound p
  cases p with
  | inside c hop => rfl
  | var i =>
    simp only [Heap.writable] at hwritable
    simp only [Heap.readable]
    cases hv : h.vars[i]? with
    | none => rfl
    | some v =>
      simp only [hv, Bool.and_eq_true] at hwritable
      exact hwritable.1

theorem view (hr : Ready h r ds) {x : Option Pointer} (hp : h.peek (.var i) = some x) :
    h.view none (.var i) = .ok (.var i) := by
  simp [Heap.view, place?, hp, hr.readable]

theorem find_of_pointer? (hr : Ready h r ds) {q : Pointer} (hq : h.pointer? (.var i) = some q) :
    h.find none (.var i) [] = .ok (.var i, .var i, q) := by
  have hpeek := pointer?_eq_some hq
  unfold Heap.find
  simp only [hr.view hpeek, walk, hpeek, hq]

/-- What is found in a variable is what is seen in it. -/
theorem find (hr : Ready h r ds) (i : Nat) :
    (∃ e, r.find i = .error e ∧ h.find none (.var i) [] = .error e) ∨
    ∃ q, r.find i = .ok q.arrow ∧ h.pointer? (.var i) = some q := by
  by_cases hi : i < r.slots.length
  · rcases hr.find_cases hi with ⟨hseen, hvacant⟩ | hsome
    · refine .inl ⟨.vacant, hseen, ?_⟩
      unfold Heap.find
      simp only [hr.view hvacant, walk, hvacant]
    · exact .inr hsome
  · refine .inl ⟨.absent, find_absent hi, ?_⟩
    have hpeek : h.peek (.var i) = none := by
      rw [hr.length] at hi
      simp [peek, Nat.not_lt.mp hi]
    simp [Heap.find, Heap.view, place?, hpeek]

/-- The target of a pointer in a variable is live. -/
theorem live (hr : Ready h r ds) {q : Pointer} (hq : h.pointer? (.var i) = some q) :
    ∀ o, q.owner? = some o → h.status o.cell = some .live :=
  fun _ ho => hr.rest.sound.live_of_pointer? hq ho

/-- Identities of pointers agree with their targets. -/
theorem identity_eq_iff (hr : Ready h r ds) {q q' : Pointer} (hq : h.pointer? (.var i) = some q)
    (hq' : h.pointer? (.var j) = some q') :
    h.identity q.owner? = h.identity q'.owner? ↔ q.arrow.target? = q'.arrow.target? := by
  rw [q.target?_arrow, q'.target?_arrow]
  exact hr.rest.apart.identity_eq_iff (hr.live hq) (hr.live hq')

end Ready

/-! ### Calls that are answered alike -/

/-- The heap gives the answer, and shows what comes of the call, after those were destroyed. -/
structure Agrees (ds : List (CellId × α)) (o : Heap α × Reply α) (s : Register.Outcome α) : Prop where
  shows : Shows o.1 s.register (ds ++ s.destroyed)
  reply : o.2 = s.reply

/-- Nothing more is destroyed. -/
theorem Shows.agrees (hsh : Shows h r ds) (e : Reply α) : Agrees ds (h, e) ⟨r, e, []⟩ where
  shows := by
    rw [List.append_nil]
    exact hsh
  reply := rfl

theorem act_eq {a : Act α} {o : Outcome α} (ho : h.perform none a = o) :
    h.act a = ((Machine.settle ⟨o.heap, o.todo⟩).heap, .answer o.answer) := by
  subst ho
  rfl

/-- An act that changes nothing. -/
theorem Ready.say {a : Act α} {e : Answer α} (hr : Ready h r ds) (ha : h.perform none a = h.reply e) :
    Agrees ds (h.act a) (r.say e) := by
  rw [act_eq ha]
  exact hr.shows.agrees _

theorem sound_of_perform (hr : Ready h r ds) {a : Act α} {o : Outcome α} (ho : h.perform none a = o) :
    Sound ⟨o.heap, [], o.todo⟩ := by
  subst ho
  exact (operate_edits hr.rest.sound (.act a)).sound hr.rest.sound

/-- An act that puts something into a variable, after it changed what is shown. -/
theorem Ready.done {a : Act α} {x : Option Pointer} {r' : Register α} (hr : Ready h r ds)
    (ha : h.perform none a = g.put (.var i) x) (hg : Shows g r' ds) :
    Agrees ds (h.act a) (Register.done (r'.put i (x.map Pointer.arrow))) := by
  rw [act_eq ha]
  refine ⟨?_, rfl⟩
  exact hg.put (sound_of_perform hr ha)

theorem Ready.make (hr : Ready h r ds) (i : Nat) (kind : Kind) (a : α) (near : Nat) :
    Agrees ds (h.act (.make (.var i) kind a [] [] [] near)) (r.make i kind a) := by
  have hmake : h.perform none (.make (.var i) kind a [] [] [] near) =
      h.performMake none (.var i) kind a [] [] [] near := rfl
  unfold performMake at hmake
  rw [hr.claim] at hmake
  unfold Register.make
  by_cases hlt : i < r.slots.length
  · rw [if_pos hlt] at hmake ⊢
    have hput : h.perform none (.make (.var i) kind a [] [] [] near) =
        (h.allocate near ⟨a, [], [], []⟩).2.put (.var i)
          (some (kind.pointer (h.allocate near ⟨a, [], [], []⟩).1)) := hmake
    have hdone := hr.done hput (hr.shows.allocate near a)
    have hcell : (h.allocate near ⟨a, [], [], []⟩).1.cell = r.values.length := by
      rw [← hr.shows.register, length_values_register]
      rfl
    rw [Option.map_some, Kind.arrow_pointer, hcell] at hdone
    exact hdone
  · rw [if_neg hlt] at hmake ⊢
    exact hr.say hmake

/-- An act that puts something into a variable if this can be claimed. -/
theorem Ready.store {a : Act α} {f : Place → Option Pointer} (hr : Ready h r ds)
    (ha : h.perform none a = match h.claim none (.var i) with
      | .error e => h.reply e
      | .ok p => h.put p (f p)) :
    Agrees ds (h.act a) (r.store i ((f (.var i)).map Pointer.arrow)) := by
  rw [hr.claim] at ha
  unfold Register.store
  by_cases hlt : i < r.slots.length
  · rw [if_pos hlt] at ha ⊢
    exact hr.done ha hr.shows
  · rw [if_neg hlt] at ha ⊢
    exact hr.say ha

theorem Ready.clone (hr : Ready h r ds) (src dst : Nat) :
    Agrees ds (h.act (.clone (.var src) [] (.var dst))) (r.clone src dst) := by
  have hclone : h.perform none (.clone (.var src) [] (.var dst)) =
      h.performClone none (.var src) [] (.var dst) := rfl
  unfold performClone at hclone
  rw [hr.claim] at hclone
  unfold Register.clone
  rcases hr.find src with ⟨e, hseen, hfind⟩ | ⟨q, hseen, hq⟩
  · rw [hfind] at hclone
    rw [hseen]
    exact hr.say hclone
  · rw [hr.find_of_pointer? hq] at hclone
    rw [hseen]
    show Agrees ds _ (r.store dst (some q.arrow))
    unfold Register.store
    by_cases hlt : dst < r.slots.length
    · rw [if_pos hlt] at hclone ⊢
      have hput : h.perform none (.clone (.var src) [] (.var dst)) =
          (h.duplicate q).2.put (.var dst) (some (h.duplicate q).1) := hclone
      have hdone := hr.done hput (hr.shows.duplicate q)
      rw [Option.map_some, arrow_duplicate] at hdone
      exact hdone
    · rw [if_neg hlt] at hclone ⊢
      exact hr.say hclone

/-- An act on two variables, if both can be claimed. -/
theorem Ready.both {a : Act α} {src dst : Nat} {f : Place → Place → Outcome α}
    {s : Register.Outcome α} (hr : Ready h r ds)
    (ha : h.perform none a = match h.claim none (.var src), h.claim none (.var dst) with
      | .error e, _ => h.reply e
      | .ok _, .error e => h.reply e
      | .ok p, .ok q => f p q)
    (hs : src < r.slots.length → h.perform none a = f (.var src) (.var dst) → Agrees ds (h.act a) s) :
    Agrees ds (h.act a) (if src < r.slots.length then
      if dst < r.slots.length then s else r.say .absent
      else r.say .absent) := by
  rw [hr.claim, hr.claim] at ha
  by_cases hsrc : src < r.slots.length
  · rw [if_pos hsrc] at ha ⊢
    by_cases hdst : dst < r.slots.length
    · rw [if_pos hdst] at ha ⊢
      exact hs hsrc ha
    · rw [if_neg hdst] at ha ⊢
      exact hr.say ha
  · rw [if_neg hsrc] at ha ⊢
    by_cases hdst : dst < r.slots.length
    · rw [if_pos hdst] at ha
      exact hr.say ha
    · rw [if_neg hdst] at ha
      exact hr.say ha

theorem Ready.move (hr : Ready h r ds) (src dst : Nat) :
    Agrees ds (h.act (.move (.var src) (.var dst))) (r.move src dst) := by
  have hmove : h.perform none (.move (.var src) (.var dst)) =
      h.performMove none (.var src) (.var dst) := rfl
  unfold performMove at hmove
  apply hr.both hmove
  intro _ hput
  have hput : h.perform none (.move (.var src) (.var dst)) =
      (h.poke (.var src) none).put (.var dst) (h.pointer? (.var src)) := hput
  rw [hr.slot]
  exact hr.done hput (hr.shows.poke src none)

/-- An act that leaves something to do after a target was lost. -/
theorem Ready.discard {a : Act α} {q : Option Pointer} {ts : List (Task α)} {e : Answer α}
    {r' : Register α} (hr : Ready h r ds) (ha : h.perform none a = ⟨g, Custody.Heap.discard q ++ ts, e⟩)
    (hg : Shows g r' ds) (hts : ts.flatMap Task.owners = []) :
    ∃ h₁, h.act a = ((Machine.settle ⟨h₁, ts⟩).heap, .answer e) ∧ h₁.vars = g.vars ∧
      Shows h₁ (r'.lose ((q.bind Pointer.owner?).map (·.cell))).1
        (ds ++ (r'.lose ((q.bind Pointer.owner?).map (·.cell))).2) := by
  have hsound := sound_of_perform hr ha
  obtain ⟨h₁, hsettle, hvars, hlost⟩ := hg.discard hsound hts
  refine ⟨h₁, ?_, hvars, hlost⟩
  rw [act_eq ha, hsettle]

theorem Ready.clear (hr : Ready h r ds) (i : Nat) : Agrees ds (h.act (.clear (.var i))) (r.clear i) := by
  have hclear : h.perform none (.clear (.var i)) = h.performClear none (.var i) := rfl
  unfold performClear at hclear
  rw [hr.claim] at hclear
  unfold Register.clear
  by_cases hi : i < r.slots.length
  · rw [if_pos hi] at hclear
    rcases hr.find_cases hi with ⟨hseen, hvacant⟩ | ⟨q, hseen, hp⟩
    · rw [hseen]
      simp only [pointer?, hvacant] at hclear
      exact hr.say hclear
    · rw [hseen]
      simp only [hp] at hclear
      cases q with
      | notNull o => exact hr.say hclear
      | fixed o => exact hr.say hclear
      | nullable o =>
        obtain ⟨h₁, hact, -, hlost⟩ := hr.discard hclear ((hr.shows.poke i (some .null)).lend _) rfl
        rw [hact, settle_unlend]
        refine ⟨?_, rfl⟩
        show Shows (h₁.unlend (.var i)) (r.put i (some (.nullable none))).1
          (ds ++ (r.put i (some (.nullable none))).2)
        rw [hr.put hp]
        exact hlost.unlend (.var i)
  · rw [if_neg hi] at hclear
    rw [find_absent hi]
    exact hr.say hclear

theorem Ready.convert (hr : Ready h r ds) (src dst : Nat) (kind : Kind) :
    Agrees ds (h.act (.convert (.var src) (.var dst) kind)) (r.convert src dst kind) := by
  have hconvert : h.perform none (.convert (.var src) (.var dst) kind) =
      h.performConvert none (.var src) (.var dst) kind := rfl
  unfold performConvert at hconvert
  apply hr.both hconvert
  intro hsrc hconvert
  rcases hr.find_cases hsrc with ⟨hseen, hvacant⟩ | ⟨q, hseen, hp⟩
  · rw [hseen]
    simp only [pointer?, hvacant] at hconvert
    exact hr.say hconvert
  · rw [hseen]
    simp only [hp] at hconvert
    simp only [q.convert_arrow]
    cases hq : q.convert (α := α) kind with
    | ok q' =>
      simp only [hq] at hconvert
      have hput : h.perform none (.convert (.var src) (.var dst) kind) =
          (h.poke (.var src) none).put (.var dst) (some q') := hconvert
      exact hr.done hput (hr.shows.poke src none)
    | error e =>
      simp only [hq] at hconvert
      by_cases he : e = .null
      · -- the pointer is taken out all the same
        subst he
        rw [act_eq hconvert]
        exact (hr.shows.poke src none).agrees _
      · have hsay : h.perform none (.convert (.var src) (.var dst) kind) = h.reply e := by
          rw [hconvert]
          cases e <;> first | rfl | exact absurd rfl he
        have hagrees := hr.say hsay
        cases e <;> first | exact hagrees | exact absurd rfl he

/-! ### Questions -/

theorem through_null {alone : Bool} {q : Pointer} (hq : h.pointer? (.var i) = some q)
    (ho : q.owner? = none) :
    h.through alone (.var i) = .error (if alone then .denied else .null) := by
  have hpeek := pointer?_eq_some hq
  simp only [through, hpeek, ho]

theorem through_live {alone : Bool} {q : Pointer} {o : Owner} {v : Value α}
    (hq : h.pointer? (.var i) = some q) (ho : q.owner? = some o) (hv : h.live? o.cell = some v) :
    h.through alone (.var i) =
      if alone && !h.isUnique (some o) then .error .denied else .ok (o.cell, v) := by
  have hpeek := pointer?_eq_some hq
  simp only [through, hpeek, ho, hv]

/-- The value of the target of a pointer in a variable. -/
theorem Ready.exists_value (hr : Ready h r ds) {q : Pointer} (hq : h.pointer? (.var i) = some q)
    {o : Owner} (ho : q.owner? = some o) :
    ∃ v, h.live? o.cell = some v ∧ r.values[o.cell]?.join = some v.data := by
  obtain ⟨v, hv⟩ := exists_live? (hr.live hq o ho)
  refine ⟨v, hv, ?_⟩
  rw [← hr.shows.register, value_register, hv]
  rfl

/-- The value that is read through a pointer in a variable. -/
theorem Ready.read (hr : Ready h r ds) {q : Pointer} (hq : h.pointer? (.var i) = some q) :
    (h.query none (.read (.var i) [])).value? = r.value? q.arrow := by
  simp only [query, hr.find_of_pointer? hq, Register.value?, Pointer.target?_arrow]
  cases ho : q.owner? with
  | none =>
    simp only [through_null hq ho]
    rfl
  | some o =>
    obtain ⟨v, hv, hvalue⟩ := hr.exists_value hq ho
    simp only [through_live hq ho hv, Bool.false_and, Bool.false_eq_true, if_false,
      Option.map_some, Option.bind_some, hvalue]
    rfl

theorem Ready.isUnique (hr : Ready h r ds) {q : Pointer} (hq : h.pointer? (.var i) = some q) :
    h.isUnique q.owner? = r.alone i q.arrow := by
  simp only [Register.alone, Pointer.target?_arrow]
  cases ho : q.owner? with
  | none => rfl
  | some o =>
    rw [hr.shows.isUnique_iff hr.rest.sound hq ho]
    rfl

/-- What the heap finds at a pointer is what is seen of it. -/
theorem Ready.seen (hr : Ready h r ds) {q : Pointer} (hq : h.pointer? (.var i) = some q) (l : Look) :
    (if l.nullableOnly && q.kind ≠ .nullable then .answer .refused
      else l.reply q.owner?.isNone (h.isUnique q.owner?) (h.query none (.read (.var i) [])).value?) =
      r.seen i l q.arrow := by
  rw [hr.read hq, hr.isUnique hq]
  rcases q with (_ | o) | o | o
  · cases l <;> rfl
  all_goals
    obtain ⟨v, -, hvalue⟩ := hr.exists_value hq rfl
    cases l <;> simp [Look.nullableOnly, Look.reply, Register.seen, Register.give, Register.value?,
      Pointer.kind, Pointer.owner?, Pointer.arrow, Arrow.target?, hvalue]

theorem Ready.look (hr : Ready h r ds) (i : Nat) (l : Look) :
    Agrees ds (h, h.look i l) (r.look i l) := by
  unfold Heap.look Register.look
  rcases hr.find i with ⟨e, hseen, hfind⟩ | ⟨q, hseen, hq⟩
  · rw [hseen, hfind]
    exact hr.shows.agrees _
  · rw [hseen, hr.find_of_pointer? hq]
    simp only [hr.seen hq]
    exact hr.shows.agrees _

theorem Ready.update (hr : Ready h r ds) (i : Nat) (f : α → α) :
    Agrees ds (h.act (.update (.var i) [] f)) (r.update i f) := by
  have hupdate : h.perform none (.update (.var i) [] f) = h.performUpdate none (.var i) [] f := rfl
  unfold performUpdate at hupdate
  rw [hr.claim] at hupdate
  unfold Register.update
  by_cases hi : i < r.slots.length
  · rw [if_pos hi] at hupdate
    rcases hr.find_cases hi with ⟨hseen, hvacant⟩ | ⟨q, hseen, hq⟩
    · have hwalk : h.walk true (.var i) [] = .error .vacant := by
        unfold walk
        rw [hvacant]
      rw [hseen]
      simp only [hwalk] at hupdate
      exact hr.say hupdate
    · have hwalk : h.walk true (.var i) [] = .ok (.var i) := by
        unfold walk
        rw [pointer?_eq_some hq]
      rw [hseen]
      simp only [hwalk] at hupdate
      simp only [Pointer.target?_arrow]
      cases ho : q.owner? with
      | none =>
        simp only [through_null hq ho] at hupdate
        exact hr.say hupdate
      | some o =>
        obtain ⟨v, hv, hvalue⟩ := hr.exists_value hq ho
        simp only [through_live hq ho hv, hr.shows.isUnique_iff hr.rest.sound hq ho, Bool.true_and,
          Bool.not_not] at hupdate
        simp only [Option.map_some]
        by_cases hshared : r.shared i o.cell = true
        · simp only [if_pos hshared] at hupdate ⊢
          exact hr.say hupdate
        · simp only [if_neg hshared] at hupdate ⊢
          simp only [hvalue]
          rw [act_eq hupdate]
          have hplain := hr.shows.plain_of_live? hv
          have hset := hr.shows.setContent o.cell (k := .live { v with data := f v.data })
            fun w hw => by
              obtain rfl := Option.some.inj hw
              exact ⟨hplain.script, hplain.fields, hplain.links⟩
          exact hset.agrees _
  · rw [if_neg hi] at hupdate
    rw [find_absent hi]
    exact hr.say hupdate

theorem Ready.same (hr : Ready h r ds) (i j : Nat) :
    Agrees ds (h.act (.ask (.same (.var i) (.var j)))) (r.same i j) := by
  unfold Register.same
  rcases hr.find i with ⟨e, hseen, hfind⟩ | ⟨p, hseen, hp⟩
  · rw [hseen]
    apply hr.say
    show h.reply (h.query none (.same (.var i) (.var j))) = h.reply e
    simp only [query, hfind]
  · rw [hseen]
    have hfind := hr.find_of_pointer? hp
    rcases hr.find j with ⟨e, hseen', hfind'⟩ | ⟨p', hseen', hp'⟩
    · rw [hseen']
      apply hr.say
      show h.reply (h.query none (.same (.var i) (.var j))) = h.reply e
      simp only [query, hfind, hfind']
    · rw [hseen']
      apply hr.say
      show h.reply (h.query none (.same (.var i) (.var j))) =
        h.reply (.flag (p.arrow.target? = p'.arrow.target?))
      simp only [query, hfind, hr.find_of_pointer? hp', hr.identity_eq_iff hp hp']

/-- All that is said of two pointers is said of their targets. -/
theorem Ready.comparison (hr : Ready h r ds) {q q' : Pointer} (hq : h.pointer? (.var i) = some q)
    (hq' : h.pointer? (.var j) = some q') :
    (h.identity q.owner?).comparison (h.identity q'.owner?) =
      Register.comparison q.arrow.target? q'.arrow.target? := by
  have hnull := hr.rest.apart.isNull_identity (hr.live hq)
  have hnull' := hr.rest.apart.isNull_identity (hr.live hq')
  have hsame : decide (h.identity q.owner? = h.identity q'.owner?) =
      decide (q.arrow.target? = q'.arrow.target?) :=
    decide_eq_decide.mpr (hr.identity_eq_iff hq hq')
  rw [Identity.comparison_eq_said, hnull, hnull', hsame]
  simp only [Identity.said, Register.comparison, Pointer.target?_arrow, Option.isNone_map,
    decide_eq_true_eq, ne_eq, decide_not]

theorem Ready.compare (hr : Ready h r ds) (i j : Nat) :
    Agrees ds (h, h.compare i j) (r.compare i j) := by
  unfold Heap.compare Register.compare
  rw [hr.slot, hr.slot]
  cases hq : h.pointer? (.var i) with
  | none => exact hr.shows.agrees _
  | some q =>
    cases hq' : h.pointer? (.var j) with
    | none => exact hr.shows.agrees _
    | some q' =>
      simp only [Option.map_some, Pointer.kind_arrow]
      split
      · rw [hr.comparison hq hq']
        exact hr.shows.agrees _
      · exact hr.shows.agrees _

/-! ### Assignment -/

/-- What is in one variable does not change while another is emptied and lent. -/
theorem peek_aside {h₁ : Heap α} {dst src : Nat} {x : Option Pointer}
    (hvars : h₁.vars = (((h.poke (.var dst) x).lend (.var dst)).share (.var src)).vars)
    (hne : Place.var dst ≠ .var src) : h₁.peek (.var src) = h.peek (.var src) := by
  calc h₁.peek (.var src)
      = (((h.poke (.var dst) x).lend (.var dst)).share (.var src)).peek (.var src) := by
        simp only [peek, hvars]
    _ = ((h.poke (.var dst) x).lend (.var dst)).peek (.var src) :=
        (samePointers_share _ (.var src)).peek (.var src)
    _ = (h.poke (.var dst) x).peek (.var src) := (samePointers_lend _ (.var dst)).peek (.var src)
    _ = h.peek (.var src) := peek_poke_ne hne x

/-- A nullable pointer in another variable gets a target. -/
theorem Ready.assign_nullable (hr : Ready h r ds) {dst src : Nat} (hne : dst ≠ src) {a b : Option Owner}
    (ha : h.pointer? (.var dst) = some (.nullable a))
    (hb : h.pointer? (.var src) = some (.nullable b)) :
    Agrees ds (h.act (.assign (.var dst) (.var src) []))
      (Register.done (r.put dst (some (.nullable (b.map (·.cell)))))) := by
  have hassign : h.perform none (.assign (.var dst) (.var src) []) =
      h.performAssign none (.var dst) (.var src) [] := rfl
  have hplace : Place.var dst ≠ Place.var src := fun e => hne (Place.var.inj e)
  unfold performAssign at hassign
  simp only [hr.claim_of_pointer? ha, hr.find_of_pointer? hb, if_neg hplace, ha] at hassign
  by_cases hsame : h.identity a = h.identity b
  · rw [if_pos hsame] at hassign
    -- it has that target already
    have htarget : a.map (·.cell) = b.map (·.cell) := (hr.identity_eq_iff ha hb).mp hsame
    have hslot : r.slots[dst]?.join = some (.nullable (b.map (·.cell))) := by
      rw [hr.slot, ha, ← htarget]
      rfl
    rw [put_self hslot]
    exact hr.say hassign
  · rw [if_neg hsame] at hassign
    have htarget : a.map (·.cell) ≠ b.map (·.cell) := fun e =>
      hsame ((hr.identity_eq_iff ha hb).mpr e)
    have hshows := ((hr.shows.poke dst (some .null)).lend (.var dst)).share (.var src)
    obtain ⟨h₁, hact, hvars, hlost⟩ := hr.discard hassign hshows rfl
    have hb₁ : h₁.pointer? (.var src) = some (.nullable b) := by
      rw [pointer?, peek_aside hvars hplace]
      exact hb
    rw [hact, settle_adopt hb₁]
    refine ⟨?_, rfl⟩
    have hadopted := (((hlost.duplicate (.nullable b)).poke dst
      (some (h₁.duplicate (.nullable b)).1)).unshare (.var src)).unlend (.var dst)
    rw [Option.map_some, arrow_duplicate] at hadopted
    have hlose := set_lose (r := r) (i := dst) (x := some (.nullable (b.map (·.cell))))
      (y := some (.nullable none)) (c := a.map (·.cell))
      (fun e => absurd e.symm htarget) (fun e => e.symm)
    have hput : r.put dst (some (.nullable (b.map (·.cell)))) =
        (r.set dst (some (.nullable (b.map (·.cell))))).lose (a.map (·.cell)) := hr.put ha _
    rw [hput, ← hlose]
    exact hadopted

/-- A `notNull` pointer in another variable gets a target. -/
theorem Ready.assign_notNull (hr : Ready h r ds) {dst src : Nat} (hne : dst ≠ src) {a b : Owner}
    (ha : h.pointer? (.var dst) = some (.notNull a))
    (hb : h.pointer? (.var src) = some (.notNull b)) :
    Agrees ds (h.act (.assign (.var dst) (.var src) []))
      (Register.done (r.put dst (some (.notNull b.cell)))) := by
  have hassign : h.perform none (.assign (.var dst) (.var src) []) =
      h.performAssign none (.var dst) (.var src) [] := rfl
  have hplace : Place.var dst ≠ Place.var src := fun e => hne (Place.var.inj e)
  unfold performAssign at hassign
  simp only [hr.claim_of_pointer? ha, hr.find_of_pointer? hb, if_neg hplace, ha] at hassign
  by_cases hsame : h.identity (some a) = h.identity (some b)
  · rw [if_pos hsame] at hassign
    have htarget : (some a).map (·.cell) = (some b).map (·.cell) :=
      (hr.identity_eq_iff ha hb).mp hsame
    have hcell : a.cell = b.cell := Option.some.inj htarget
    have hslot : r.slots[dst]?.join = some (.notNull b.cell) := by
      rw [hr.slot, ha, ← hcell]
      rfl
    rw [put_self hslot]
    exact hr.say hassign
  · rw [if_neg hsame] at hassign
    have hdrop : h.perform none (.assign (.var dst) (.var src) []) =
        ⟨(((h.acquire b.cell).2.poke (.var dst) (some (.notNull (h.acquire b.cell).1))).lend
            (.var dst)).share (.var src),
          Custody.Heap.discard (some (.notNull a)) ++ [.unshare (.var src), .unlend (.var dst)],
          .done⟩ := hassign
    have hshows := (((hr.shows.acquire b.cell).poke dst (some (.notNull (h.acquire b.cell).1))).lend
      (.var dst)).share (.var src)
    obtain ⟨h₁, hact, -, hlost⟩ := hr.discard hdrop hshows rfl
    have hput : r.put dst (some (.notNull b.cell)) =
        (r.set dst (some (.notNull b.cell))).lose (some a.cell) := hr.put ha _
    rw [hact, settle_loans, hput]
    refine ⟨?_, rfl⟩
    exact (hlost.unshare (.var src)).unlend (.var dst)

/-- A pointer that is assigned to itself stays as it is. -/
theorem Ready.assign_self (hr : Ready h r ds) {q : Pointer} (hq : h.pointer? (.var i) = some q) :
    Agrees ds (h, .answer .done) (Register.done (r.put i (some q.arrow))) := by
  have hslot : r.slots[i]?.join = some q.arrow := by
    rw [hr.slot, hq]
    rfl
  rw [put_self hslot]
  exact hr.shows.agrees _

/-- A target is given to a pointer of the same kind that may have another. -/
theorem Ready.assign (hr : Ready h r ds) (dst src : Nat) :
    Agrees ds ((h.give dst src).1, .answer (h.give dst src).2) (r.assign dst src) := by
  have hrefused : Agrees ds (h, .answer .refused) (r.say .refused) := hr.shows.agrees _
  unfold Heap.give Register.assign
  rw [hr.slot, hr.slot]
  cases ha : h.pointer? (.var dst) with
  | none => exact hrefused
  | some q =>
    cases hb : h.pointer? (.var src) with
    | none => cases q <;> exact hrefused
    | some q' =>
      cases q with
      | fixed a => exact hrefused
      | nullable a =>
        cases q' with
        | notNull b => exact hrefused
        | fixed b => exact hrefused
        | nullable b =>
          by_cases hsame : src = dst
          · subst hsame
            simp only [if_true]
            exact hr.assign_self hb
          · simp only [if_neg hsame]
            exact hr.assign_nullable (Ne.symm hsame) ha hb
      | notNull a =>
        cases q' with
        | nullable b => exact hrefused
        | fixed b => exact hrefused
        | notNull b =>
          by_cases hsame : src = dst
          · subst hsame
            simp only [if_true]
            exact hr.assign_self hb
          · simp only [if_neg hsame]
            exact hr.assign_notNull (Ne.symm hsame) ha hb

/-! ### Sessions -/

/-- One call is answered as by the register, and destroys the same. -/
theorem Ready.serve (hr : Ready h r ds) (call : Call α) : Agrees ds (h.serve call) (r.step call) := by
  cases call with
  | make i kind a near => exact hr.make i kind a near
  | null i => exact hr.store (f := fun _ => some .null) rfl
  | clone src dst => exact hr.clone src dst
  | move src dst => exact hr.move src dst
  | drop i => exact hr.store (f := Place.vacated) rfl
  | assign dst src => exact hr.assign dst src
  | clear i => exact hr.clear i
  | convert src dst kind => exact hr.convert src dst kind
  | look i l => exact hr.look i l
  | update i f => exact hr.update i f
  | same i j => exact hr.same i j
  | compare i j => exact hr.compare i j

/-- A heap is at rest again after each call. -/
theorem Rest.serve (hr : Rest h) (call : Call α) : Rest (h.serve call).1 := by
  cases call with
  | look i l => exact hr
  | compare i j => exact hr
  | assign dst src =>
    show Rest (h.give dst src).1
    unfold give
    split
    · split
      · exact hr
      · exact hr.exec _
    · split
      · exact hr
      · exact hr.exec _
    · exact hr
  | _ => exact hr.exec _

/-- From a heap at rest, calls are answered as by its register. -/
theorem Shows.transcript (calls : List (Call α)) {h : Heap α} {r : Register α} {ds : List (CellId × α)}
    (hr : Rest h) (hsh : Shows h r ds) :
    (h.transcript calls).1 = (r.transcript calls).1 ∧ Rest (h.transcript calls).2 ∧
      ∃ ds, Shows (h.transcript calls).2 (r.transcript calls).2 ds := by
  induction calls generalizing h r ds with
  | nil => exact ⟨rfl, hr, ds, hsh⟩
  | cons call calls ih =>
    have hready : Ready h.forget r [] := ⟨hr.forget, hsh.forget⟩
    have hagrees := hready.serve call
    obtain ⟨htold, hrest, hshows⟩ := ih (hr.forget.serve call) hagrees.shows
    refine ⟨?_, hrest, hshows⟩
    calc ((h.forget.serve call).2, (h.forget.serve call).1.deaths) ::
          ((h.forget.serve call).1.transcript calls).1
        = ((r.step call).reply, (r.step call).destroyed) ::
          ((r.step call).register.transcript calls).1 := by
          rw [hagrees.reply, hagrees.shows.deaths, htold, List.nil_append]

theorem shows_empty (n : Nat) : Shows (.empty n : Heap α) (.empty n) [] where
  plain cell hmem := by simp [Heap.empty] at hmem
  register := by simp [Heap.register, Heap.empty, Register.empty, Variable.fresh]
  tale := rfl

theorem isSome_live? {c : CellId} : (h.live? c).isSome = true ↔ h.status c = some .live := by
  constructor
  · intro hv
    obtain ⟨v, hv⟩ := Option.isSome_iff_exists.mp hv
    exact status_of_live? hv
  · intro hs
    obtain ⟨v, hv⟩ := exists_live? hs
    rw [hv]
    rfl

/-- At rest, the cells that have a value are those that some variable targets. -/
theorem Shows.value_iff (hsh : Shows h r ds) (hr : Rest h) (c : CellId) :
    r.values[c]?.join.isSome = r.targeted c := by
  have hcount := hr.sound.count_eq_owners c
  apply Bool.eq_iff_iff.mpr
  rw [hsh.targeted_iff, ← hcount, hr.sound.alive, ← hsh.register, value_register, Option.isSome_map]
  exact isSome_live?

end Custody.Heap
