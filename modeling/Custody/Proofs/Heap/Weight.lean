/-
# Every cascade ends

The weight of a machine bounds the steps that are left: each task weighs as much as
the steps it takes by itself, and each value as much as its destruction will take.
An act weighs more than what it adds to the heap and to the tasks, and a value that
starts to die hands its weight over to its destructor. So each step of the machine
lowers the weight, and what an operation sets off is over when it returns.

Key definitions: `Heap.weight`, `Outcome.weight`.
Key theorems: `perform_weight`, `step_weight`, `settle_tasks`, `Moment.exec`.
-/
import Mathlib.Algebra.GroupWithZero.Nat
import Custody.Proofs.Heap.Run

namespace Custody.Heap

variable {α : Type} {h : Heap α} {self : Option CellId}

/-- The steps that the destructions of all values in the heap may take. -/
def weight (h : Heap α) : Nat :=
  (h.cells.map (·.content.weight)).sum

/-- The weight of what an act leaves. -/
def Outcome.weight (r : Outcome α) : Nat :=
  r.heap.weight + (r.todo.map Task.weight).sum

/-! ### Changes of the heap -/

/-- Changing one item of a list changes a sum over it by the change of that item. -/
theorem sum_map_modify {γ : Type} (g : γ → Nat) (f : γ → γ) :
    ∀ {l : List γ} {i : Nat} {a : γ}, l[i]? = some a →
      ((l.modify i f).map g).sum + g a = (l.map g).sum + g (f a)
  | [], _, _, h => by simp at h
  | b :: l, 0, a, h => by
    obtain rfl : b = a := by simpa using h
    simp only [List.modify_zero_cons, List.map_cons, List.sum_cons]
    omega
  | b :: l, i + 1, a, h => by
    have ih := sum_map_modify g f (l := l) (i := i) (a := a) (by simpa using h)
    simp only [List.modify_succ_cons, List.map_cons, List.sum_cons]
    omega

theorem SamePointers.weight {h h' : Heap α} (s : SamePointers h h') : h'.weight = h.weight := by
  have := congrArg (fun l => (l.map Content.weight).sum) s.contents
  simpa only [Heap.weight, List.map_map, Function.comp_def] using this

theorem weight_modifyCell {c : CellId} {cell : Cell α} (hc : h.cells[c]? = some cell)
    (f : Cell α → Cell α) :
    (h.modifyCell c f).weight + cell.content.weight = h.weight + (f cell).content.weight :=
  sum_map_modify (fun cell => cell.content.weight) f hc

@[simp] theorem weight_note (h : Heap α) (e : Event α) : (h.note e).weight = h.weight := rfl

@[simp] theorem weight_lend (h : Heap α) (p : Place) : (h.lend p).weight = h.weight :=
  (samePointers_lend h p).weight

@[simp] theorem weight_unlend (h : Heap α) (p : Place) : (h.unlend p).weight = h.weight :=
  (samePointers_unlend h p).weight

@[simp] theorem weight_share (h : Heap α) (p : Place) : (h.share p).weight = h.weight :=
  (samePointers_share h p).weight

@[simp] theorem weight_unshare (h : Heap α) (p : Place) : (h.unshare p).weight = h.weight :=
  (samePointers_unshare h p).weight

@[simp] theorem weight_acquire (h : Heap α) (c : CellId) : (h.acquire c).2.weight = h.weight :=
  (samePointers_acquire h c).weight

@[simp] theorem weight_duplicate (h : Heap α) (q : Pointer) : (h.duplicate q).2.weight = h.weight :=
  (samePointers_duplicate h q).weight

theorem samePointers_signOff_any (h : Heap α) (o : Owner) : SamePointers h (h.signOff o).2 := by
  unfold signOff
  simp only
  split
  · exact ⟨rfl, rfl⟩
  · rename_i k _ _
    exact ⟨rfl, (samePointers_modifyCell h o.cell (f := fun cell => { cell with count := k })
      fun _ => rfl).contents⟩

@[simp] theorem weight_signOff (h : Heap α) (o : Owner) : (h.signOff o).2.weight = h.weight :=
  (samePointers_signOff_any h o).weight

theorem Value.length_pointers_set (v : Value α) (hop : Hop) (o : Option Owner) :
    (v.set hop o).pointers.length = v.pointers.length := by
  cases hop <;> simp [Value.set, Value.pointers]

theorem Value.weight_set (v : Value α) (hop : Hop) (o : Option Owner) :
    (v.set hop o).weight = v.weight := by
  unfold Value.weight
  rw [v.length_pointers_set]
  cases hop <;> rfl

theorem Content.weight_modify_set (k : Content α) (hop : Hop) (o : Option Owner) :
    (k.modify fun v => v.set hop o).weight = k.weight := by
  cases k with
  | live v => exact v.weight_set hop o
  | dying v => exact congrArg (2 * ·) (v.length_pointers_set hop o)
  | freed => rfl

@[simp] theorem weight_poke (h : Heap α) (p : Place) (x : Option Pointer) :
    (h.poke p x).weight = h.weight := by
  cases p with
  | var i => rfl
  | inside c hop =>
    cases hc : h.cells[c]? with
    | none =>
      have : h.cells.length ≤ c := List.getElem?_eq_none_iff.mp hc
      simp [poke, modifyCell, weight, List.modify_eq_self this]
    | some cell =>
      have := weight_modifyCell hc
        fun cell => { cell with content := cell.content.modify fun v => v.set hop (x.bind Pointer.owner?) }
      simp only [Content.weight_modify_set] at this
      exact Nat.add_right_cancel this

theorem weight_setLive {c : CellId} {v : Value α} (hv : h.live? c = some v) (v' : Value α) :
    (h.setLive c v').weight + v.weight = h.weight + v'.weight := by
  obtain ⟨cell, hc, hcon⟩ := live?_eq_some.mp hv
  have := weight_modifyCell hc fun cell => { cell with content := .live v' }
  rwa [hcon] at this

@[simp] theorem weight_allocate (h : Heap α) (near : Nat) (v : Value α) :
    (h.allocate near v).2.weight = h.weight + v.weight := by
  simp [allocate, weight, Content.weight]

/-! ### Acts -/

@[simp] theorem weight_reply (h : Heap α) (a : Answer α) : (h.reply a).weight = h.weight := rfl

theorem weight_discard (x : Option Pointer) :
    ((discard x : List (Task α)).map Task.weight).sum ≤ 1 := by
  unfold discard
  split <;> simp [Task.weight]

/-- What is put into a place leaves one task at most. -/
theorem weight_put {h' : Heap α} (hw : h'.weight = h.weight) (p : Place) (x : Option Pointer) :
    (h'.put p x).weight ≤ h.weight + 1 := by
  have : ((discard (h'.pointer? p) : List (Task α)).map Task.weight).sum ≤ 1 := weight_discard _
  simp only [put, Outcome.weight, weight_poke]
  omega

/-- What is dropped is one task at most, besides the others. -/
theorem weight_discard_append {h' : Heap α} (hw : h'.weight = h.weight) (x : Option Pointer)
    {ts : List (Task α)} (ht : (ts.map Task.weight).sum ≤ 3) (a : Answer α) :
    (⟨h', discard x ++ ts, a⟩ : Outcome α).weight ≤ h.weight + 4 := by
  have : ((discard x : List (Task α)).map Task.weight).sum ≤ 1 := weight_discard x
  simp only [Outcome.weight, List.map_append, List.sum_append]
  omega

theorem performReset_weight (dst : Ref) : (h.performReset self dst).weight ≤ h.weight + 1 := by
  unfold performReset
  split
  · simp
  · exact weight_put rfl _ _

theorem performDrop_weight (r : Ref) : (h.performDrop self r).weight ≤ h.weight + 1 := by
  unfold performDrop
  split
  · simp
  · exact weight_put rfl _ _

theorem performClear_weight (r : Ref) : (h.performClear self r).weight ≤ h.weight + 4 := by
  unfold performClear
  split
  · simp
  · split
    · simp
    · exact weight_discard_append (by simp) _ (by simp [Task.weight]) _
    · simp

theorem performMove_weight (src dst : Ref) : (h.performMove self src dst).weight ≤ h.weight + 1 := by
  unfold performMove
  split
  · simp
  · simp
  · simp only
    split
    · exact weight_put (weight_poke h _ _) _ _
    · simp

theorem performClone_weight (src : Ref) (path : List Hop) (dst : Ref) :
    (h.performClone self src path dst).weight ≤ h.weight + 1 := by
  unfold performClone
  split
  · simp
  · simp
  · split
    · exact weight_put (weight_duplicate h _) _ _
    · simp

theorem performAssign_weight (dst src : Ref) (path : List Hop) :
    (h.performAssign self dst src path).weight ≤ h.weight + 4 := by
  unfold performAssign
  split
  · simp
  · simp
  · split
    · simp
    · split
      · simp
      · split
        · simp
        · exact weight_discard_append (by simp) _ (by simp [Task.weight]) _
      · split
        · simp
        · simp [Outcome.weight, Task.weight]
      · simp

theorem performAdvance_weight (dst : Ref) (path : List Hop) :
    (h.performAdvance self dst path).weight ≤ h.weight + 4 := by
  unfold performAdvance
  split
  · simp
  · simp
  · split
    · simp
    · split
      · simp
      · split
        · exact weight_discard_append (by simp) _ (by simp [Task.weight]) _
        · exact weight_discard_append
            ((weight_lend _ _).trans ((weight_poke _ _ _).trans (weight_acquire h _))) _
            (by simp [Task.weight]) _
    · simp

theorem performReplace_weight (dst src : Ref) (path : List Hop) :
    (h.performReplace self dst src path).weight ≤ h.weight + 4 := by
  unfold performReplace
  split
  · simp
  · simp
  · split
    · simp
    · split
      · simp
      · split
        · exact weight_discard_append ((weight_share _ _).trans ((weight_lend _ _).trans
            ((weight_poke _ _ _).trans (weight_duplicate h _)))) _ (by simp [Task.weight]) _
        · simp

theorem performConvert_weight (src dst : Ref) (kind : Kind) :
    (h.performConvert self src dst kind).weight ≤ h.weight + 1 := by
  unfold performConvert
  split
  · simp
  · simp
  · split
    · simp
    · split
      · simp [Outcome.weight]
      · simp
      · split
        · exact weight_put (weight_poke h _ _) _ _
        · simp

/-- As many pointers are gathered as were named, and no value weighs more or less. -/
theorem gather_weight : ∀ {rs : List (Option Ref)} {h h' : Heap α} {os : List (Option Owner)},
    gather self h rs = .ok (os, h') → os.length = rs.length ∧ h'.weight = h.weight
  | [], h, h', os, hg => by
    obtain ⟨rfl, rfl⟩ := by simpa [gather] using hg
    exact ⟨rfl, rfl⟩
  | none :: rs, h, h', os, hg => by
    unfold gather at hg
    split at hg
    · simp at hg
    · rename_i os' h₁ hrest
      obtain ⟨rfl, rfl⟩ := by simpa using hg
      obtain ⟨hlen, hw⟩ := gather_weight hrest
      exact ⟨by simp [hlen], hw⟩
  | some r :: rs, h, h', os, hg => by
    unfold gather at hg
    split at hg
    · simp at hg
    · split at hg
      · simp at hg
      · split at hg
        · simp at hg
        · rename_i os' h₁ hrest
          obtain ⟨rfl, rfl⟩ := by simpa using hg
          obtain ⟨hlen, hw⟩ := gather_weight hrest
          exact ⟨by simp [hlen], hw.trans (weight_poke h _ _)⟩
      · simp at hg

theorem performMake_weight (dst : Ref) (kind : Kind) (data : α) (script : List (Act α))
    (fields links : List (Option Ref)) (near : Nat) :
    (h.performMake self dst kind data script fields links near).weight ≤
      h.weight + 3 + Act.scriptWeight script + 2 * (fields.length + links.length) := by
  unfold performMake
  split
  · simp
    omega
  · simp
    omega
  · rename_i d os h' hdst hgather
    obtain ⟨hlen, hw⟩ := gather_weight hgather
    simp only
    split
    · have : (os.take fields.length ++ os.drop fields.length).length = fields.length + links.length := by
        rw [List.take_append_drop, hlen, List.length_append]
      refine Nat.le_trans (weight_put rfl _ _) ?_
      simp only [weight_allocate, hw, Value.weight, Value.pointers, this]
      omega
    · simp
      omega

theorem performUpdate_weight (r : Ref) (path : List Hop) (f : α → α) :
    (h.performUpdate self r path f).weight ≤ h.weight + 4 := by
  unfold performUpdate
  split
  · simp
  · split
    · simp
    · split
      · simp
      · rename_i c v ht
        obtain ⟨-, -, -, -, -, hv, -⟩ := through_eq_ok ht
        have hset := weight_setLive hv { v with data := f v.data }
        have : ({ v with data := f v.data } : Value α).weight = v.weight := rfl
        simp only [Outcome.weight, List.map_nil, List.sum_nil]
        omega

/-- A pointer that goes from one place into a live value changes what the heap weighs by what
the value does. -/
theorem weight_setLive_poke {c : CellId} {v : Value α} (hv : h.live? c = some v) (s : Place)
    (x : Option Pointer) (v' : Value α) :
    ((h.poke s x).setLive c v').weight + v.weight = h.weight + v'.weight := by
  obtain ⟨w, hw, hweight⟩ : ∃ w, (h.poke s x).live? c = some w ∧ w.weight = v.weight := by
    cases s with
    | var i => exact ⟨v, hv, rfl⟩
    | inside c' hop =>
      by_cases hc : c' = c
      · obtain ⟨cell, hcell, hcon⟩ := live?_eq_some.mp hv
        refine ⟨v.set hop (x.bind Pointer.owner?), live?_eq_some.mpr ?_, v.weight_set _ _⟩
        simp [poke, modifyCell, hc, hcell, hcon, Content.modify]
      · exact ⟨v, (live?_poke (fun hop' e => hc (Place.inside.inj e).1) x).trans hv, rfl⟩
  have := weight_setLive hw v'
  rwa [weight_poke, hweight] at this

theorem performStore_weight (r : Ref) (path : List Hop) (site : Site) (src : Ref) :
    (h.performStore self r path site src).weight ≤ h.weight + 4 := by
  unfold performStore
  split
  · simp
  · simp
  · rename_i root s _ _
    split
    · simp
    · split
      · simp
      · simp
      · rename_i o p _ _
        split
        · simp
        · rename_i c v ht
          obtain ⟨-, -, -, -, -, hv, -⟩ := through_eq_ok ht
          split
          · -- a field more
            have hset := weight_setLive_poke hv s s.vacated { v with fields := v.fields ++ [o] }
            have : ({ v with fields := v.fields ++ [o] } : Value α).weight = v.weight + 2 := by
              simp only [Value.weight, Value.pointers, List.length_append, List.length_singleton]
              omega
            simp only [Outcome.weight, List.map_nil, List.sum_nil]
            omega
          · rename_i hop
            split
            · simp
            · have hset := weight_setLive_poke hv s s.vacated (v.set hop o)
              rw [v.weight_set] at hset
              exact weight_discard_append
                ((weight_lend _ _).trans (Nat.add_right_cancel hset)) _ (by simp [Task.weight]) _
      · simp

/-- **An act weighs more than what it adds.** -/
theorem perform_weight (a : Act α) : (h.perform self a).weight < h.weight + a.weight := by
  cases a with
  | ask q => simp [perform, Act.weight]
  | reset dst => exact Nat.lt_of_le_of_lt (performReset_weight dst) (by simp [Act.weight])
  | drop r => exact Nat.lt_of_le_of_lt (performDrop_weight r) (by simp [Act.weight])
  | clear r => exact Nat.lt_of_le_of_lt (performClear_weight r) (by simp [Act.weight])
  | move src dst => exact Nat.lt_of_le_of_lt (performMove_weight src dst) (by simp [Act.weight])
  | clone src path dst =>
    exact Nat.lt_of_le_of_lt (performClone_weight src path dst) (by simp [Act.weight])
  | assign dst src path =>
    exact Nat.lt_of_le_of_lt (performAssign_weight dst src path) (by simp [Act.weight])
  | advance dst path =>
    exact Nat.lt_of_le_of_lt (performAdvance_weight dst path) (by simp [Act.weight])
  | replace dst src path =>
    exact Nat.lt_of_le_of_lt (performReplace_weight dst src path) (by simp [Act.weight])
  | convert src dst kind =>
    exact Nat.lt_of_le_of_lt (performConvert_weight src dst kind) (by simp [Act.weight])
  | make dst kind data script fields links near =>
    refine Nat.lt_of_le_of_lt (performMake_weight dst kind data script fields links near) ?_
    simp only [Act.weight]
    omega
  | update r path f => exact Nat.lt_of_le_of_lt (performUpdate_weight r path f) (by simp [Act.weight])
  | store r path site src =>
    exact Nat.lt_of_le_of_lt (performStore_weight r path site src) (by simp [Act.weight])
  | skipIf p n => simp [perform, Act.weight]
  | giveUpIf p => simp [perform, Act.weight]
  | report say => simp [perform, Act.weight]

/-! ### Steps -/

theorem Machine.weight_eq (h : Heap α) (ts : List (Task α)) :
    (⟨h, ts⟩ : Machine α).weight = h.weight + (ts.map Task.weight).sum := by
  simp only [Machine.weight, Heap.weight, List.sum_eq_foldr, List.foldr_map]

theorem scriptWeight_drop_le (n : Nat) :
    ∀ acts : List (Act α), Act.scriptWeight (acts.drop n) ≤ Act.scriptWeight acts := by
  induction n with
  | zero => exact fun acts => Nat.le_refl _
  | succ n ih =>
    intro acts
    cases acts with
    | nil => exact Nat.le_refl _
    | cons a acts =>
      refine Nat.le_trans (ih acts) ?_
      rw [Act.scriptWeight]
      omega

theorem weight_filter_le (p : Task α → Bool) :
    ∀ ts : List (Task α), ((ts.filter p).map Task.weight).sum ≤ (ts.map Task.weight).sum
  | [] => Nat.le_refl _
  | t :: ts => by
    have ih := weight_filter_le p ts
    rw [List.filter_cons]
    split <;> simp only [List.map_cons, List.sum_cons] <;> omega

theorem Act.weight_pos (a : Act α) : 0 < a.weight := by
  cases a <;> simp only [Act.weight] <;> omega

variable {ts : List (Task α)}

theorem release_weight (o : Owner) :
    (Machine.release o h ts).weight < (⟨h, .release o :: ts⟩ : Machine α).weight := by
  have hsign := weight_signOff h o
  unfold Machine.release
  generalize h.signOff o = r at hsign ⊢
  obtain ⟨_ | _, h₁⟩ := r
  · simp only [Machine.weight_eq, List.map_cons, List.sum_cons, Task.weight] at hsign ⊢
    omega
  · simp only at hsign ⊢
    split
    · simp only [Machine.weight_eq, weight_note, List.map_cons, List.sum_cons, Task.weight]
      omega
    · -- the value's weight goes to its destructor and to what is left of it
      rename_i v hv
      obtain ⟨cell, hc, hcon⟩ := live?_eq_some.mp hv
      have := weight_modifyCell hc fun cell => { cell with content := .dying v }
      simp only [hcon, Content.weight, Value.weight] at this
      simp only [Machine.weight_eq, weight_note, List.map_cons, List.sum_cons, Task.weight]
      omega

theorem adopt_weight (dst src : Place) : (Machine.adopt dst src h).weight = h.weight := by
  unfold Machine.adopt
  split
  · rfl
  · exact (weight_poke _ _ _).trans (weight_duplicate h _)

/-- A pointer less in a dying value, and a task more at most. -/
theorem strip_weight {c : CellId} {cell : Cell α} {v v' : Value α} {o : Option Owner}
    (hc : h.cells[c]? = some cell) (hv : cell.content = .dying v)
    (hp : v.pointers.length = v'.pointers.length + 1) :
    (⟨h.modifyCell c fun cell => { cell with content := .dying v' },
        discard (some (.nullable o)) ++ .dismantle c :: ts⟩ : Machine α).weight <
      (⟨h, .dismantle c :: ts⟩ : Machine α).weight := by
  have hcell := weight_modifyCell hc fun cell => { cell with content := .dying v' }
  have hdrop : ((discard (some (.nullable o)) : List (Task α)).map Task.weight).sum ≤ 1 :=
    weight_discard _
  simp only [hv, Content.weight, hp] at hcell
  simp only [Machine.weight_eq, List.map_append, List.sum_append, List.map_cons, List.sum_cons]
  omega

theorem dismantle_weight (c : CellId) :
    (Machine.dismantle c h ts).weight < (⟨h, .dismantle c :: ts⟩ : Machine α).weight := by
  unfold Machine.dismantle
  split
  · rename_i hc
    exact strip_weight hc rfl rfl
  · rename_i hc
    exact strip_weight hc rfl rfl
  · rename_i hc
    have := weight_modifyCell hc fun cell => { cell with content := .freed }
    simp only [Content.weight] at this
    simp only [Machine.weight_eq, weight_note, List.map_cons, List.sum_cons, Task.weight]
    omega
  · simp only [Machine.weight_eq, List.map_cons, List.sum_cons, Task.weight]
    omega

theorem act_weight (c : CellId) (a : Act α) (acts : List (Act α)) (last : Answer α) :
    (Machine.act c a acts last h ts).weight <
      (⟨h, .script c (a :: acts) last :: ts⟩ : Machine α).weight := by
  have hpos := a.weight_pos
  have hscript : ∀ l, (Task.script c (a :: acts) l).weight = 1 + (a.weight + Act.scriptWeight acts) :=
    fun l => by rw [Task.weight, Act.scriptWeight]
  have hperform : (⟨(h.perform (some c) a).heap, (h.perform (some c) a).todo ++
        .script c acts (h.perform (some c) a).answer :: ts⟩ : Machine α).weight <
      (⟨h, .script c (a :: acts) last :: ts⟩ : Machine α).weight := by
    have := @perform_weight _ h (some c) a
    simp only [Outcome.weight] at this
    simp only [Machine.weight_eq, List.map_append, List.sum_append, List.map_cons, List.sum_cons,
      hscript]
    simp only [Task.weight]
    omega
  cases a with
  | skipIf p n =>
    have hle : Act.scriptWeight (if p last then acts.drop n else acts) ≤ Act.scriptWeight acts := by
      split
      · exact scriptWeight_drop_le n acts
      · exact Nat.le_refl _
    simp only [Machine.act, Machine.weight_eq, List.map_cons, List.sum_cons, hscript]
    simp only [Task.weight]
    omega
  | giveUpIf p =>
    have hle := weight_filter_le Task.isOwed ts
    unfold Machine.act
    simp only
    split
    · simp only [Machine.weight_eq, weight_note, List.map_cons, List.sum_cons, hscript]
      omega
    · simp only [Machine.weight_eq, List.map_cons, List.sum_cons, hscript]
      simp only [Task.weight]
      omega
  | report say =>
    simp only [Machine.act, Machine.weight_eq, weight_note, List.map_cons, List.sum_cons, hscript]
    simp only [Task.weight]
    omega
  | _ => exact hperform

/-- **Each step lowers the weight.** -/
theorem step_weight {m : Machine α} (hm : m.tasks ≠ []) : m.step.weight < m.weight := by
  obtain ⟨h, ts⟩ := m
  cases ts with
  | nil => exact absurd rfl hm
  | cons t ts =>
    have hpop : ∀ h' : Heap α, h'.weight = h.weight →
        (⟨h', ts⟩ : Machine α).weight < (⟨h, t :: ts⟩ : Machine α).weight := by
      intro h' hw
      have : 0 < t.weight := by cases t <;> simp only [Task.weight] <;> omega
      simp only [Machine.weight_eq, List.map_cons, List.sum_cons]
      omega
    cases t with
    | release o => exact release_weight o
    | adopt dst src => exact hpop _ (adopt_weight dst src)
    | follow dst o => exact hpop _ ((weight_poke _ _ _).trans (weight_acquire h o.cell))
    | place dst q => exact hpop _ (weight_poke h dst _)
    | unlend p => exact hpop _ (weight_unlend h p)
    | unshare p => exact hpop _ (weight_unshare h p)
    | dismantle c => exact dismantle_weight c
    | script c acts last =>
      cases acts with
      | nil => exact hpop h rfl
      | cons a acts => exact act_weight c a acts last

/-! ### Cascades end -/

theorem run_tasks (k : Nat) : ∀ m : Machine α, m.weight ≤ k → (m.run k).tasks = [] := by
  induction k with
  | zero =>
    intro m hm
    cases hts : m.tasks with
    | nil => exact hts
    | cons t ts =>
      have := step_weight (m := m) (by simp [hts])
      omega
  | succ k ih =>
    intro m hm
    unfold Machine.run
    split
    · rename_i hnil
      exact List.isEmpty_iff.mp hnil
    · rename_i hne
      have := step_weight (m := m) (by simpa using hne)
      exact ih m.step (by omega)

/-- **Every cascade ends**, whatever the destructors do. -/
theorem settle_tasks (m : Machine α) : m.settle.tasks = [] := by
  unfold Machine.settle
  split
  · rename_i hnil
    exact List.isEmpty_iff.mp hnil
  · exact run_tasks m.weight m (Nat.le_refl _)

theorem settle_eq (m : Machine α) : m.settle = ⟨m.settle.heap, []⟩ := by
  rw [← settle_tasks m]

/-- What holds now, and is preserved by each step, holds when all is done. -/
theorem settle_induct {R : Machine α → Prop} (hstep : ∀ {m : Machine α}, R m → R m.step)
    {m : Machine α} (hm : R m) : R m.settle := by
  have hrun : ∀ (k : Nat) (m : Machine α), R m → R (m.run k) := by
    intro k
    induction k with
    | zero => exact fun _ hm => hm
    | succ k ih =>
      intro m hm
      unfold Machine.run
      split
      · exact hm
      · exact ih m.step (hstep hm)
  unfold Machine.settle
  split
  · exact hm
  · exact hrun _ m hm

/-- More steps than are left make no difference. -/
theorem run_eq_of_le (k : Nat) : ∀ {m : Machine α} {n : Nat}, m.weight ≤ k → m.weight ≤ n →
    m.run k = m.run n := by
  induction k with
  | zero =>
    intro m n hk hn
    cases hts : m.tasks with
    | nil =>
      cases n with
      | zero => rfl
      | succ n => simp [Machine.run, hts]
    | cons t ts =>
      have := step_weight (m := m) (by simp [hts])
      omega
  | succ k ih =>
    intro m n hk hn
    by_cases hts : m.tasks = []
    · cases n <;> simp [Machine.run, hts]
    · have hlt := step_weight hts
      cases n with
      | zero => omega
      | succ n =>
        have hne : m.tasks.isEmpty = false := by simpa using hts
        simp only [Machine.run, hne]
        exact ih (by omega) (by omega)

/-- All is done after as many steps as the weight. -/
theorem settle_eq_run {m : Machine α} {n : Nat} (hn : m.weight ≤ n) : m.settle = m.run n := by
  unfold Machine.settle
  split
  · rename_i hnil
    cases n <;> simp [Machine.run, hnil]
  · exact run_eq_of_le _ (Nat.le_refl _) hn

/-- What is left to do after the first step settles the same. -/
theorem settle_step {m : Machine α} (hm : m.tasks ≠ []) : m.settle = m.step.settle := by
  have hlt := step_weight hm
  have hne : m.tasks.isEmpty = false := by simpa using hm
  obtain ⟨n, hn⟩ : ∃ n, m.weight = n + 1 := ⟨m.weight - 1, by omega⟩
  calc m.settle = m.run (n + 1) := settle_eq_run (Nat.le_of_eq hn)
    _ = m.step.run n := by simp only [Machine.run, hne, Bool.false_eq_true, if_false]
    _ = m.step.settle := (settle_eq_run (by omega)).symm

theorem settle_nil (h : Heap α) : Machine.settle ⟨h, []⟩ = ⟨h, []⟩ := rfl

theorem settle_unlend (h : Heap α) (p : Place) :
    Machine.settle ⟨h, [.unlend p]⟩ = ⟨h.unlend p, []⟩ := by
  rw [settle_step (by simp)]
  rfl

/-- The loans of an assignment end. -/
theorem settle_loans (h : Heap α) (s d : Place) :
    Machine.settle ⟨h, [.unshare s, .unlend d]⟩ = ⟨(h.unshare s).unlend d, []⟩ := by
  rw [settle_step (by simp)]
  exact settle_unlend _ d

/-- A pointer is put where it belongs, and the loans end. -/
theorem settle_place (h : Heap α) (d s : Place) (q : Pointer) :
    Machine.settle ⟨h, [.place d q, .unshare s, .unlend d]⟩ =
      ⟨((h.poke d (some q)).unshare s).unlend d, []⟩ := by
  rw [settle_step (by simp)]
  exact settle_loans _ s d

/-- A pointer gets its new target, and the loans end. -/
theorem settle_adopt {d s p : Place} {q : Pointer} (hq : h.pointer? p = some q) :
    Machine.settle ⟨h, [.adopt d p, .unshare s, .unlend d]⟩ =
      ⟨(((h.duplicate q).2.poke d (some (h.duplicate q).1)).unshare s).unlend d, []⟩ := by
  have hadopt : Machine.adopt d p h = (h.duplicate q).2.poke d (some (h.duplicate q).1) := by
    unfold Machine.adopt
    rw [hq]
  rw [settle_step (by simp), ← hadopt]
  exact settle_loans _ s d

theorem exec_eq (h : Heap α) (op : Op α) : (⟨(h.exec op).1, []⟩ : Machine α) = (Machine.start h op).settle :=
  (settle_eq (Machine.start h op)).symm

/-- A run comes to the end of each operation, where nothing is left to do. -/
theorem Moment.exec {n : Nat} (hm : Moment n ⟨h, []⟩) (op : Op α) : Moment n ⟨(h.exec op).1, []⟩ := by
  rw [exec_eq]
  exact settle_induct .step (.operate op hm)

end Custody.Heap
