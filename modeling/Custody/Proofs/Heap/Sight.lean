/-
# What a caller sees of a heap of plain values

The register of a heap has what is in its variables and the values that are live. A heap
shows a register, and that some values were destroyed, if all its values are plain. Each
change of a heap is a change of what it shows; that a cell lost its last pointer is read
off its count in the heap, and off all variables in the register.

Key definitions: `Heap.register`, `Shows`.
Key theorems: `Shows.poke`, `Shows.release`, `Shows.put`, `isUnique_iff`.
-/
import Custody.Proofs.Heap.Register
import Custody.Proofs.Heap.Weight

namespace Custody.Heap

variable {α : Type} {h h' : Heap α} {r : Register α} {ds : List (CellId × α)} {ts : List (Task α)}
  {i : Nat} {c : CellId}

/-! ### Pointers and arrows -/

/-- The pointer, without the token that it is registered by. -/
def Pointer.arrow : Pointer → Arrow
  | .nullable o => .nullable (o.map (·.cell))
  | .notNull o => .notNull o.cell
  | .fixed o => .fixed o.cell

@[simp] theorem Pointer.target?_arrow (q : Pointer) : q.arrow.target? = q.owner?.map (·.cell) := by
  cases q <;> rfl

@[simp] theorem Pointer.kind_arrow (q : Pointer) : q.arrow.kind = q.kind := by
  cases q <;> rfl

@[simp] theorem Kind.arrow_pointer (k : Kind) (o : Owner) : (k.pointer o).arrow = k.arrow o.cell := by
  cases k <;> rfl

theorem arrow_duplicate (h : Heap α) (q : Pointer) : (h.duplicate q).1.arrow = q.arrow := by
  unfold Heap.duplicate
  rcases q with (_ | o) | o | o <;> rfl

/-- A pointer is converted as its arrow is. -/
theorem Pointer.convert_arrow (q : Pointer) (k : Kind) :
    q.arrow.convert (α := α) k = (q.convert k).map Pointer.arrow := by
  rcases q with (_ | o) | o | o <;> cases k <;> rfl

/-! ### The register of a heap -/

/-- What is in the variables, and the values that are live. -/
def register (h : Heap α) : Register α where
  slots := h.vars.map fun v => v.pointer.map Pointer.arrow
  values := h.cells.map fun cell => cell.content.live?.map (·.data)

theorem slots_register (h : Heap α) (i : Nat) :
    h.register.slots[i]? = h.vars[i]?.map fun v => v.pointer.map Pointer.arrow :=
  List.getElem?_map ..

@[simp] theorem length_slots_register (h : Heap α) : h.register.slots.length = h.vars.length :=
  List.length_map ..

@[simp] theorem length_values_register (h : Heap α) :
    h.register.values.length = h.cells.length :=
  List.length_map ..

/-- The arrow of the pointer in a variable. -/
theorem slot_register (h : Heap α) (i : Nat) :
    h.register.slots[i]?.join = (h.pointer? (.var i)).map Pointer.arrow := by
  rw [slots_register]
  simp only [pointer?, peek]
  cases h.vars[i]? <;> rfl

theorem target?_register (h : Heap α) (i : Nat) :
    h.register.target? i = ((h.pointer? (.var i)).bind Pointer.owner?).map (·.cell) := by
  unfold Register.target?
  rw [slot_register]
  cases h.pointer? (.var i) with
  | none => rfl
  | some q => exact q.target?_arrow

theorem value_register (h : Heap α) (c : CellId) :
    h.register.values[c]?.join = (h.live? c).map (·.data) := by
  show (h.cells.map fun cell => cell.content.live?.map (·.data))[c]?.join = _
  rw [live?_eq_bind, List.getElem?_map]
  cases h.cells[c]? <;> rfl

theorem register_of_same (hs : SamePointers h h') : h'.register = h.register := by
  have hslots : h'.register.slots = h.register.slots := by
    simpa [register, Function.comp_def] using congrArg (List.map (Option.map Pointer.arrow)) hs.vars
  have hvalues : h'.register.values = h.register.values := by
    simpa [register, Function.comp_def] using
      congrArg (List.map fun k : Content α => k.live?.map (·.data)) hs.contents
  calc h'.register = ⟨h'.register.slots, h'.register.values⟩ := rfl
    _ = h.register := by rw [hslots, hvalues]

/-! ### What is shown -/

/-- Whether the value has neither a destructor nor pointers. -/
structure Value.Plain (v : Value α) : Prop where
  script : v.script = []
  fields : v.fields = []
  links : v.links = []

/-- What an event says of destructors: a value is destroyed, or a destructor does something
that only those of values that are not plain do. -/
def Event.news? : Event α → Option (Option (CellId × α))
  | .destroyed c data => some (some (c, data))
  | .reported _ _ _ => some none
  | .gaveUp _ => some none
  | _ => none

/-- What the log says of destructors, the first of it first. -/
def tale (h : Heap α) : List (Option (CellId × α)) :=
  h.log.reverse.filterMap Event.news?

/-- The heap has plain values only, its register is that one, and those were destroyed, and
nothing else came of it. -/
structure Shows (h : Heap α) (r : Register α) (ds : List (CellId × α)) : Prop where
  plain : ∀ cell ∈ h.cells, ∀ v, cell.content.value? = some v → v.Plain
  register : h.register = r
  tale : h.tale = ds.map some

theorem Shows.deaths (hsh : Shows h r ds) : h.deaths = ds := by
  have hdeath : ∀ e : Event α, e.death? = e.news?.bind id := by
    intro e
    cases e <;> rfl
  calc h.deaths = h.tale.filterMap id := by
        rw [Heap.deaths, Heap.tale, List.filterMap_filterMap]
        exact congrArg (List.filterMap · _) (funext hdeath)
    _ = ds := by rw [hsh.tale, List.filterMap_map, Function.id_comp, List.filterMap_some]

/-- No destructor does anything. -/
theorem Shows.silent (hsh : Shows h r ds) {e : Event α} (he : e ∈ h.log) : e.news? ≠ some none := by
  intro hnews
  have hmem : none ∈ h.tale := List.mem_filterMap.mpr ⟨e, List.mem_reverse.mpr he, hnews⟩
  rw [hsh.tale] at hmem
  simp at hmem

theorem Shows.plain_of_live? (hsh : Shows h r ds) {v : Value α} (hv : h.live? c = some v) :
    v.Plain := by
  obtain ⟨cell, hc, hlive⟩ := live?_eq_some.mp hv
  exact hsh.plain cell (List.mem_of_getElem? hc) v (by rw [hlive]; rfl)

/-- Loans and counts are not seen. -/
theorem Shows.of_same (hsh : Shows h r ds) (hs : SamePointers h h') (ht : h'.tale = h.tale) :
    Shows h' r ds where
  plain cell' hmem v hv := by
    have hmem' : cell'.content ∈ h.cells.map (·.content) := by
      rw [← hs.contents]
      exact List.mem_map_of_mem hmem
    obtain ⟨cell, hcell, heq⟩ := List.mem_map.mp hmem'
    rw [← heq] at hv
    exact hsh.plain cell hcell v hv
  register := (register_of_same hs).trans hsh.register
  tale := ht.trans hsh.tale

theorem Shows.poke (hsh : Shows h r ds) (i : Nat) (x : Option Pointer) :
    Shows (h.poke (.var i) x) (r.set i (x.map Pointer.arrow)) ds where
  plain := hsh.plain
  register := by
    have hslots : (h.poke (.var i) x).register.slots = h.register.slots.set i (x.map Pointer.arrow) := by
      apply List.ext_getElem?
      intro j
      rw [slots_register, List.getElem?_set, length_slots_register, slots_register]
      show ((h.vars.modify i fun v => { v with pointer := x })[j]?).map _ = _
      rw [List.getElem?_modify]
      by_cases hij : i = j
      · subst hij
        by_cases hlt : i < h.vars.length
        · simp [hlt]
        · simp [hlt]
      · simp [hij]
    calc (h.poke (.var i) x).register = ⟨(h.poke (.var i) x).register.slots, h.register.values⟩ := rfl
      _ = h.register.set i (x.map Pointer.arrow) := by
        rw [hslots]
        rfl
      _ = r.set i (x.map Pointer.arrow) := by rw [hsh.register]
  tale := hsh.tale

theorem tale_note {e : Event α} (he : e.news? = none) (h : Heap α) :
    (h.note e).tale = h.tale := by
  simp [Heap.tale, note, he]

theorem Shows.acquire (hsh : Shows h r ds) (c : CellId) : Shows (h.acquire c).2 r ds := by
  apply hsh.of_same (samePointers_acquire h c)
  exact tale_note (e := .issued ⟨c, h.issued⟩) rfl h

theorem Shows.duplicate (hsh : Shows h r ds) (q : Pointer) : Shows (h.duplicate q).2 r ds := by
  unfold Heap.duplicate
  split
  · exact hsh
  · exact hsh.acquire _

theorem Shows.lend (hsh : Shows h r ds) (p : Place) : Shows (h.lend p) r ds :=
  hsh.of_same (samePointers_lend h p) (by cases p <;> rfl)

theorem Shows.unlend (hsh : Shows h r ds) (p : Place) : Shows (h.unlend p) r ds :=
  hsh.of_same (samePointers_unlend h p) (by cases p <;> rfl)

theorem Shows.share (hsh : Shows h r ds) (p : Place) : Shows (h.share p) r ds :=
  hsh.of_same (samePointers_share h p) (by cases p <;> rfl)

theorem Shows.unshare (hsh : Shows h r ds) (p : Place) : Shows (h.unshare p) r ds :=
  hsh.of_same (samePointers_unshare h p) (by cases p <;> rfl)

theorem Shows.allocate (hsh : Shows h r ds) (near : Nat) (a : α) :
    Shows (h.allocate near ⟨a, [], [], []⟩).2 { r with values := r.values ++ [some a] } ds where
  plain cell hmem v hv := by
    rcases List.mem_append.mp hmem with hold | hnew
    · exact hsh.plain cell hold v hv
    · obtain rfl := List.mem_singleton.mp hnew
      obtain rfl := Option.some.inj hv
      exact ⟨rfl, rfl, rfl⟩
  register := by
    rw [← hsh.register]
    simp [Heap.register, Heap.allocate, Content.live?]
  tale := by
    rw [← hsh.tale]
    exact tale_note (e := .issued ⟨h.cells.length, h.issued⟩) rfl h

/-- Another content of a cell. -/
theorem Shows.setContent (hsh : Shows h r ds) (c : CellId) {k : Content α}
    (hk : ∀ v, k.value? = some v → v.Plain) :
    Shows (h.setContent c k) { r with values := r.values.set c (k.live?.map (·.data)) } ds where
  plain cell hmem v hv := by
    obtain ⟨c', hc'⟩ := List.getElem?_of_mem hmem
    simp only [Heap.setContent, modifyCell, List.getElem?_modify] at hc'
    obtain ⟨cell₀, hcell₀, hf⟩ := Option.map_eq_some_iff.mp hc'
    by_cases hcc : c = c'
    · rw [if_pos hcc] at hf
      subst hf
      exact hk v hv
    · rw [if_neg hcc] at hf
      subst hf
      exact hsh.plain cell₀ (List.mem_of_getElem? hcell₀) v hv
  register := by
    have hvalues : (h.setContent c k).register.values =
        h.register.values.set c (k.live?.map (·.data)) := by
      apply List.ext_getElem?
      intro c'
      simp only [Heap.register, Heap.setContent, modifyCell, List.getElem?_map, List.getElem?_modify,
        List.getElem?_set, List.length_map]
      by_cases hcc : c = c'
      · subst hcc
        by_cases hlt : c < h.cells.length
        · simp [hlt]
        · simp [hlt]
      · simp [hcc]
    calc (h.setContent c k).register = ⟨h.register.slots, (h.setContent c k).register.values⟩ := rfl
      _ = { r with values := r.values.set c (k.live?.map (·.data)) } := by
        rw [hvalues, hsh.register]
  tale := hsh.tale

/-! ### Who has a target, and who shares it -/

/-- All owners are in variables. -/
theorem Shows.owners (hsh : Shows h r ds) : h.owners = h.vars.flatMap fun v => held v.pointer := by
  have hnone : h.cells.flatMap (fun cell => cell.content.owners) = [] := by
    apply List.flatMap_eq_nil_iff.mpr
    intro cell hmem
    cases hk : cell.content with
    | freed => rfl
    | live v =>
      have hv := hsh.plain cell hmem v (by rw [hk]; rfl)
      simp [Value.owners, Value.pointers, hv.fields, hv.links]
    | dying v =>
      have hv := hsh.plain cell hmem v (by rw [hk]; rfl)
      simp [Value.owners, Value.pointers, hv.fields, hv.links]
  unfold Heap.owners
  rw [hnone, List.append_nil]

theorem targeted_iff : r.targeted c = true ↔ ∃ i, r.target? i = some c := by
  unfold Register.targeted
  rw [List.any_eq_true]
  constructor
  · rintro ⟨i, -, hi⟩
    exact ⟨i, of_decide_eq_true hi⟩
  · rintro ⟨i, hi⟩
    refine ⟨i, List.mem_range.mpr ?_, decide_eq_true hi⟩
    -- a variable that is not there has no target
    apply Nat.lt_of_not_le
    intro hle
    rw [Register.target?, List.getElem?_eq_none hle] at hi
    simp at hi

/-- A cell is targeted if and only if it has an owner. -/
theorem Shows.targeted_iff (hsh : Shows h r ds) :
    r.targeted c = true ↔ 0 < h.owners.countP (Owner.isOf c) := by
  rw [Custody.Heap.targeted_iff, List.countP_pos_iff, hsh.owners, ← hsh.register]
  constructor
  · rintro ⟨i, hi⟩
    rw [target?_register] at hi
    obtain ⟨o, ho, hc⟩ := Option.map_eq_some_iff.mp hi
    obtain ⟨q, hq, hqo⟩ := Option.bind_eq_some_iff.mp ho
    obtain ⟨v, hv, hp⟩ := peek_var_eq_some (pointer?_eq_some hq)
    refine ⟨o, List.mem_flatMap.mpr ⟨v, List.mem_of_getElem? hv, ?_⟩, by simpa [Owner.isOf] using hc⟩
    simp [hp, held, hqo]
  · rintro ⟨o, hmem, hc⟩
    obtain ⟨v, hv, ho⟩ := List.mem_flatMap.mp hmem
    obtain ⟨i, hi⟩ := List.getElem?_of_mem hv
    refine ⟨i, ?_⟩
    have hpointer : h.pointer? (.var i) = v.pointer := by simp [pointer?, peek, hi]
    have howner : v.pointer.bind Pointer.owner? = some o := by simpa [held] using ho
    rw [target?_register, hpointer, howner]
    simpa [Owner.isOf] using hc

theorem target?_set (r : Register α) (i : Nat) (x : Option Arrow) (j : Nat) :
    (r.set i x).target? j =
      if j = i then if i < r.slots.length then x.bind Arrow.target? else none else r.target? j := by
  unfold Register.target? Register.set
  rw [List.getElem?_set]
  by_cases hij : j = i
  · rw [if_pos hij, if_pos hij.symm]
    split <;> rfl
  · rw [if_neg hij, if_neg (Ne.symm hij)]

/-- Another variable has the target if one has it when this one has another. -/
theorem shared_eq {x : Option Arrow} (hx : x.bind Arrow.target? ≠ some c) :
    (r.set i x).targeted c = r.shared i c := by
  have hlen : (r.set i x).slots.length = r.slots.length := List.length_set ..
  unfold Register.shared Register.targeted
  rw [hlen]
  congr 1
  funext j
  rw [target?_set]
  by_cases hij : j = i
  · rw [if_pos hij]
    split <;> simp [hij, hx]
  · rw [if_neg hij]
    simp [hij]

/-- **A pointer is the only owner of its target if and only if no other variable has it.** -/
theorem Shows.isUnique_iff (hsh : Shows h r ds) (hs : Sound ⟨h, [], []⟩) {q : Pointer} {o : Owner}
    (hq : h.pointer? (.var i) = some q) (ho : q.owner? = some o) :
    h.isUnique (some o) = !r.shared i o.cell := by
  have hcount := hs.count_eq_owners o.cell
  -- the owners that are left when the pointer is taken out
  have hout := owners_poke (Owner.isOf o.cell) (pointer?_eq_some hq) none
  have hone : (held (some q)).countP (Owner.isOf o.cell) = 1 := by
    simp [held, ho, Owner.isOf]
  rw [hone, held_none, List.countP_nil, Nat.add_zero] at hout
  have hrest := (hsh.poke i none).targeted_iff (c := o.cell)
  rw [Option.map_none, shared_eq (by simp)] at hrest
  apply Bool.eq_iff_iff.mpr
  rw [Bool.not_eq_true', ← Bool.not_eq_true, hrest]
  simp only [isUnique, Count.isUnique, decide_eq_true_eq]
  omega

/-- What is put into a variable in place of itself is no change. -/
theorem put_self {q : Arrow} (hq : r.slots[i]?.join = some q) : r.put i (some q) = (r, []) := by
  have hslot : r.slots[i]? = some (some q) := Option.join_eq_some_iff.mp hq
  have hset : r.set i (some q) = r := by
    obtain ⟨hlt, hget⟩ := List.getElem?_eq_some_iff.mp hslot
    unfold Register.set
    rw [← hget, List.set_getElem_self]
  have htarget : r.target? i = q.target? := by
    unfold Register.target?
    rw [hq]
    rfl
  unfold Register.put Register.lose
  rw [hset, htarget]
  cases hc : q.target? with
  | none => rfl
  | some c =>
    have htargeted : r.targeted c = true := targeted_iff.mpr ⟨i, htarget.trans hc⟩
    simp only [htargeted, if_true]

/-- Whether a variable lost its target before it got another, or after that. -/
theorem set_lose {x y : Option Arrow} {c : Option CellId} (hx : x.bind Arrow.target? = c → c = none)
    (hy : y.bind Arrow.target? = c → c = none) :
    (((r.set i y).lose c).1.set i x, ((r.set i y).lose c).2) = (r.set i x).lose c := by
  have hset : ∀ r : Register α, (r.set i y).set i x = r.set i x := by
    intro r
    unfold Register.set
    simp only [List.set_set]
  cases c with
  | none => simp only [Register.lose, hset]
  | some c =>
    have hx' : x.bind Arrow.target? ≠ some c := fun h => by simpa using hx h
    have hy' : y.bind Arrow.target? ≠ some c := fun h => by simpa using hy h
    simp only [Register.lose, shared_eq hx', shared_eq hy']
    split
    · rw [hset]
    · simp only [Register.set, List.set_set]

/-! ### Owners that sign off -/

theorem tale_signOff {o : Owner} {n : Nat} (hn : (h.count o.cell).owners = n + 1) :
    (h.signOff o).2.tale = h.tale := by
  rw [signOff_eq hn]
  exact tale_note (e := .returned o.cell o.token) rfl h

theorem tale_condemn {o : Owner} (hn : (h.count o.cell).owners = 1) (v : Value α) :
    (h.condemn o v).tale = h.tale ++ [some (o.cell, v.data)] := by
  have hsign := tale_signOff hn
  unfold Heap.tale at hsign ⊢
  rw [← hsign]
  simp [condemn, note, Event.news?, Heap.setContent, modifyCell]

/-- A plain value that is destroyed leaves nothing to do, and its cell is freed. -/
theorem settle_condemned {o : Owner} {v : Value α} (hn : (h.count o.cell).owners = 1)
    (hv : h.live? o.cell = some v) (hplain : v.Plain) :
    Machine.settle ⟨h.condemn o v, .script o.cell v.script .done :: .dismantle o.cell :: ts⟩ =
      Machine.settle ⟨((h.condemn o v).setContent o.cell .freed).note (.freed o.cell), ts⟩ := by
  have hv' : (h.signOff o).2.live? o.cell = some v :=
    ((samePointers_signOff hn).live? o.cell).trans hv
  have hscript : (⟨h.condemn o v, .script o.cell v.script .done :: .dismantle o.cell :: ts⟩ :
      Machine α).step = ⟨h.condemn o v, .dismantle o.cell :: ts⟩ := by
    rw [hplain.script]
    rfl
  obtain ⟨cell, hc, hdying⟩ : ∃ cell, (h.condemn o v).cells[o.cell]? = some cell ∧
      cell.content = .dying v := by
    obtain ⟨cell, hc, -⟩ := live?_eq_some.mp hv'
    refine ⟨{ cell with content := .dying v }, ?_, rfl⟩
    simp [condemn, note, Heap.setContent, modifyCell, hc]
  have hdismantle : (⟨h.condemn o v, .dismantle o.cell :: ts⟩ : Machine α).step =
      ⟨((h.condemn o v).setContent o.cell .freed).note (.freed o.cell), ts⟩ := by
    show Machine.dismantle o.cell (h.condemn o v) ts = _
    obtain ⟨a, n, k⟩ := cell
    obtain ⟨data, script, fields, links⟩ := v
    obtain ⟨rfl, rfl, rfl⟩ := hplain
    subst hdying
    unfold Machine.dismantle
    simp only [hc]
    rfl
  calc Machine.settle ⟨h.condemn o v, .script o.cell v.script .done :: .dismantle o.cell :: ts⟩
      = Machine.settle ⟨h.condemn o v, .dismantle o.cell :: ts⟩ := by
        rw [settle_step (by simp), hscript]
    _ = Machine.settle ⟨((h.condemn o v).setContent o.cell .freed).note (.freed o.cell), ts⟩ := by
        rw [settle_step (by simp), hdismantle]

/-- What is shown when a plain value was destroyed and its cell is freed. -/
theorem Shows.condemned {o : Owner} {v : Value α} (hsh : Shows h r ds)
    (hn : (h.count o.cell).owners = 1) (hplain : v.Plain) :
    Shows (((h.condemn o v).setContent o.cell .freed).note (.freed o.cell))
      { r with values := r.values.set o.cell none } (ds ++ [(o.cell, v.data)]) := by
  have hsign : Shows (h.signOff o).2 r ds :=
    hsh.of_same (samePointers_signOff hn) (tale_signOff hn)
  have hdying := hsign.setContent o.cell (k := .dying v) fun w hw => by
    obtain rfl := Option.some.inj hw
    exact hplain
  have hfreed := hdying.setContent o.cell (k := .freed) fun w hw => by simp [Content.value?] at hw
  refine ⟨hfreed.plain, ?_, ?_⟩
  · have hset : (r.values.set o.cell none).set o.cell none = r.values.set o.cell none :=
      List.set_set ..
    calc ((((h.condemn o v).setContent o.cell .freed).note (.freed o.cell))).register
        = ⟨r.slots, (r.values.set o.cell none).set o.cell none⟩ := hfreed.register
      _ = ⟨r.slots, r.values.set o.cell none⟩ := by rw [hset]
  · calc ((((h.condemn o v).setContent o.cell .freed).note (.freed o.cell))).tale
        = ((h.condemn o v).setContent o.cell .freed).tale := tale_note rfl _
      _ = h.tale ++ [some (o.cell, v.data)] := tale_condemn hn v
      _ = (ds ++ [(o.cell, v.data)]).map some := by rw [hsh.tale, List.map_append, List.map_singleton]

/-- **An owner that signs off is seen as a target that is lost.** -/
theorem Shows.release {o : Owner} (hsh : Shows h r ds) (hs : Sound ⟨h, [], .release o :: ts⟩)
    (hts : ts.flatMap Task.owners = []) :
    ∃ h₁, Machine.settle ⟨h, .release o :: ts⟩ = Machine.settle ⟨h₁, ts⟩ ∧ h₁.vars = h.vars ∧
      Shows h₁ (r.lose (some o.cell)).1 (ds ++ (r.lose (some o.cell)).2) := by
  have hcount : (h.count o.cell).owners = h.owners.countP (Owner.isOf o.cell) + 1 := by
    rw [hs.count_eq, List.flatMap_cons, hts]
    simp [Task.owners, Owner.isOf]
  have htargeted := hsh.targeted_iff (c := o.cell)
  have hstep : (⟨h, .release o :: ts⟩ : Machine α).step = Machine.release o h ts := rfl
  rcases hs.release_cases with ⟨v, hn, hv, heq⟩ | ⟨n, hn, heq⟩
  · -- no variable has the target any more
    have hnot : r.targeted o.cell = false := by
      rw [← Bool.not_eq_true, htargeted]
      omega
    have hplain := hsh.plain_of_live? hv
    have hvalue : r.values[o.cell]?.join = some v.data := by
      rw [← hsh.register, value_register, hv]
      rfl
    have hlose : r.lose (some o.cell) =
        ({ r with values := r.values.set o.cell none }, [(o.cell, v.data)]) := by
      simp [Register.lose, hnot, hvalue]
    refine ⟨((h.condemn o v).setContent o.cell .freed).note (.freed o.cell), ?_, ?_, ?_⟩
    · rw [settle_step (by simp), hstep, heq, settle_condemned hn hv hplain]
    · show (h.signOff o).2.vars = h.vars
      rw [signOff_eq hn]
      rfl
    · rw [hlose]
      exact hsh.condemned hn hplain
  · have htrue : r.targeted o.cell = true := by
      rw [htargeted]
      omega
    have hlose : r.lose (some o.cell) = (r, []) := by
      simp [Register.lose, htrue]
    refine ⟨(h.signOff o).2, ?_, ?_, ?_⟩
    · rw [settle_step (by simp), hstep, heq]
    · rw [signOff_eq hn]
      rfl
    · rw [hlose, List.append_nil]
      exact hsh.of_same (samePointers_signOff hn) (tale_signOff hn)

/-- What was in a variable is dropped. -/
theorem Shows.discard {q : Option Pointer} (hsh : Shows h r ds)
    (hs : Sound ⟨h, [], Custody.Heap.discard q ++ ts⟩) (hts : ts.flatMap Task.owners = []) :
    ∃ h₁, Machine.settle ⟨h, Custody.Heap.discard q ++ ts⟩ = Machine.settle ⟨h₁, ts⟩ ∧
      h₁.vars = h.vars ∧
      Shows h₁ (r.lose ((q.bind Pointer.owner?).map (·.cell))).1
        (ds ++ (r.lose ((q.bind Pointer.owner?).map (·.cell))).2) := by
  unfold Custody.Heap.discard at hs ⊢
  cases ho : q.bind Pointer.owner? with
  | none =>
    refine ⟨h, rfl, rfl, ?_⟩
    simp only [Option.map_none, Register.lose, List.append_nil]
    exact hsh
  | some o =>
    simp only [ho] at hs
    exact hsh.release hs hts

/-- **What is put into a variable is seen there, and the target of what was in it is lost.** -/
theorem Shows.put {x : Option Pointer} (hsh : Shows h r ds)
    (hs : Sound ⟨(h.put (.var i) x).heap, [], (h.put (.var i) x).todo⟩) :
    Shows (Machine.settle ⟨(h.put (.var i) x).heap, (h.put (.var i) x).todo⟩).heap
      (r.put i (x.map Pointer.arrow)).1 (ds ++ (r.put i (x.map Pointer.arrow)).2) := by
  have hpoke := hsh.poke i x
  have hs' : Sound ⟨h.poke (.var i) x, [], Custody.Heap.discard (h.pointer? (.var i)) ++ []⟩ := by
    rw [List.append_nil]
    exact hs
  obtain ⟨h₁, hsettle, -, hlost⟩ := hpoke.discard hs' rfl
  rw [List.append_nil] at hsettle
  have hheap : (Machine.settle ⟨(h.put (.var i) x).heap, (h.put (.var i) x).todo⟩).heap = h₁ := by
    show (Machine.settle ⟨h.poke (.var i) x, Custody.Heap.discard (h.pointer? (.var i))⟩).heap = h₁
    rw [hsettle, settle_nil]
  rw [← target?_register, hsh.register] at hlost
  rw [hheap]
  exact hlost

end Custody.Heap
