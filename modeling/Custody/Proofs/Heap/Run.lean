/-
# Runs, and what holds at every moment

A run starts with a heap without cells and goes on for ever: whenever nothing is
left to do the caller performs some operation, and otherwise the first task is
done. `Moment n` are the machines that are met in all runs with `n` variables, in
the midst of cascades too. Each step is edits, so what every edit preserves of a
sound draft holds at every moment.

Key definitions: `Moment`, `Later`.
Key theorems: `step_edits`, `Moment.sound`, `Moment.induct`, `Later.induct`.
-/
import Custody.Proofs.Heap.Acts

namespace Custody.Heap

variable {α : Type} {h : Heap α} {ts : List (Task α)}

/-- A machine as a draft with nothing in hand. -/
abbrev Machine.draft (m : Machine α) : Draft α := ⟨m.heap, [], m.tasks⟩

/-! ### A step of the machine -/

/-- A place that waited for a pointer gets it. -/
theorem edit_fill {hand : List Owner} {p : Place} (hv : h.Vacant p) (ho : Open ts p)
    (x : Option Pointer) : Edit ⟨h, held x ++ hand, ts⟩ ⟨h.poke p x, hand, ts⟩ := by
  obtain ⟨old, hp, hold⟩ := hv
  have : Edit ⟨h, held x ++ hand, ts⟩ ⟨h.poke p x, held old ++ hand, ts⟩ := .poke x hp ho
  rwa [hold, List.nil_append] at this

/-- The last owner that signs off leaves a value to be destroyed. -/
theorem release_last {o : Owner} {v : Value α} (hn : (h.count o.cell).owners = 1)
    (hv : h.live? o.cell = some v) : Machine.release o h ts =
      ⟨h.condemn o v, .script o.cell v.script .done :: .dismantle o.cell :: ts⟩ := by
  have hv' : (h.signOff o).2.live? o.cell = some v :=
    ((samePointers_signOff hn).live? o.cell).trans hv
  unfold Machine.release condemn
  rw [signOff_eq hn] at hv' ⊢
  simp only [decide_true, hv']
  rfl

/-- Any other leaves nothing. -/
theorem release_more {o : Owner} {n : Nat} (hn : (h.count o.cell).owners = n + 2) :
    Machine.release o h ts = ⟨(h.signOff o).2, ts⟩ := by
  unfold Machine.release
  rw [signOff_eq hn]
  simp only [Nat.add_eq_zero_iff, Nat.one_ne_zero, and_false, decide_false]

theorem Sound.release_cases {o : Owner} (hs : Sound ⟨h, [], .release o :: ts⟩) :
    (∃ v, (h.count o.cell).owners = 1 ∧ h.live? o.cell = some v ∧ Machine.release o h ts =
      ⟨h.condemn o v, .script o.cell v.script .done :: .dismantle o.cell :: ts⟩) ∨
    ∃ n, (h.count o.cell).owners = n + 2 ∧ Machine.release o h ts = ⟨(h.signOff o).2, ts⟩ := by
  have hlive : h.status o.cell = some .live := hs.live_of_mem (by simp [Draft.owners, Task.owners])
  have hpos : 0 < (h.count o.cell).owners := (hs.alive o.cell).mpr hlive
  obtain ⟨n, hn⟩ := Nat.exists_eq_add_of_lt hpos
  rw [Nat.zero_add] at hn
  cases n with
  | zero =>
    obtain ⟨v, hv⟩ := exists_live? hlive
    exact .inl ⟨v, hn, hv, release_last hn hv⟩
  | succ n => exact .inr ⟨n, hn, release_more hn⟩

theorem release_edits {o : Owner} (hs : Sound ⟨h, [], .release o :: ts⟩) :
    Edits ⟨h, [], .release o :: ts⟩ (Machine.release o h ts).draft := by
  rcases hs.release_cases with ⟨v, hn, hv, heq⟩ | ⟨n, hn, heq⟩
  · rw [heq]
    exact .single (.destroy hn hv)
  · rw [heq]
    exact .single (.signOff hn)

theorem adopt_edits {dst src : Place} (hs : Sound ⟨h, [], .adopt dst src :: ts⟩) :
    Edits ⟨h, [], .adopt dst src :: ts⟩ ⟨Machine.adopt dst src h, [], ts⟩ := by
  have hskip : Edit ⟨h, [], .adopt dst src :: ts⟩ ⟨h, [], ts⟩ := .skip rfl
  have hopen := (hs.order.head.fills dst rfl).1
  have hvac := hs.vacant _ List.mem_cons_self dst rfl
  unfold Machine.adopt
  split
  · exact .single hskip
  · rename_i q hq
    have hcopy := edits_duplicate [] ts (q := q)
      fun o ho => hs.live_of_pointer? hq ho
    exact .head hskip (hcopy.tail
      (edit_fill ((samePointers_duplicate h q).vacant hvac) hopen (some (h.duplicate q).1)))

theorem follow_edits {dst : Place} {o : Owner} (hs : Sound ⟨h, [], .follow dst o :: ts⟩) :
    Edits ⟨h, [], .follow dst o :: ts⟩ ⟨Machine.follow dst o h, [], ts⟩ := by
  have hopen := (hs.order.head.fills dst rfl).1
  have hvac := hs.vacant _ List.mem_cons_self dst rfl
  have hmem : o ∈ (⟨h, [], .follow dst o :: ts⟩ : Draft α).owners := by
    have := hs.order.head.follow dst o rfl
    simp only [Draft.owners, List.append_nil, List.mem_append, List.mem_flatMap]
    exact .inr ⟨_, List.mem_cons_of_mem _ this, by simp [Task.owners]⟩
  refine .head (.skip rfl) (.head (.acquire (hs.live_of_mem hmem)) (.single ?_))
  exact edit_fill ((samePointers_acquire h o.cell).vacant hvac) hopen
    (some (.nullable (some (h.acquire o.cell).1)))

theorem place_edits {dst : Place} {q : Pointer} (hs : Sound ⟨h, [], .place dst q :: ts⟩) :
    Edits ⟨h, [], .place dst q :: ts⟩ ⟨h.poke dst (some q), [], ts⟩ :=
  .head .pick (.single (edit_fill (hs.vacant _ List.mem_cons_self dst rfl)
    (hs.order.head.fills dst rfl).1 (some q)))

theorem dismantle_edits {c : CellId} (hs : Sound ⟨h, [], .dismantle c :: ts⟩) :
    Edits ⟨h, [], .dismantle c :: ts⟩ (Machine.dismantle c h ts).draft := by
  have hdying : h.status c = some .dying := (hs.dying c).mpr List.mem_cons_self
  obtain ⟨⟨a, n, content⟩, hc, hst⟩ := Option.map_eq_some_iff.mp hdying
  have hstrip : ∀ {v v' : Value α} {o : Option Owner}, content = .dying v →
      v.pointers = o :: v'.pointers → Edits ⟨h, [], .dismantle c :: ts⟩
        ⟨h.setContent c (.dying v'), [], discard (some (.nullable o)) ++ .dismantle c :: ts⟩ :=
    fun hv hp => .head (.strip hc hv hp) (edits_discard _ _ _ (some (.nullable _)))
  unfold Machine.dismantle
  cases content with
  | live v => simp at hst
  | freed => simp at hst
  | dying v =>
    obtain ⟨data, script, fields, links⟩ := v
    rcases fields with _ | ⟨o, fields⟩
    · rcases links with _ | ⟨o, links⟩
      · simp only [hc]
        exact .single (.free hc rfl rfl)
      · simp only [hc]
        exact hstrip rfl rfl
    · simp only [hc]
      exact hstrip rfl rfl

theorem act_edits {c : CellId} {a : Act α} {acts : List (Act α)} {last : Answer α}
    (hs : Sound ⟨h, [], .script c (a :: acts) last :: ts⟩) :
    Edits ⟨h, [], .script c (a :: acts) last :: ts⟩ (Machine.act c a acts last h ts).draft := by
  have hnext : ∀ acts' last', Edit ⟨h, [], .script c (a :: acts) last :: ts⟩
      ⟨h, [], .script c acts' last' :: ts⟩ := fun acts' last' => .advance acts' last'
  have hperform : Edits ⟨h, [], .script c (a :: acts) last :: ts⟩
      ⟨(h.perform (some c) a).heap, [],
        (h.perform (some c) a).todo ++ .script c acts (h.perform (some c) a).answer :: ts⟩ := by
    refine .head (hnext acts (h.perform (some c) a).answer) (perform_edits hs.advance ?_ a)
    rintro c' e
    obtain rfl : c = c' := by simpa using e
    exact ⟨_, _, _, rfl⟩
  cases a with
  | skipIf p n => exact .single (hnext _ last)
  | giveUpIf p =>
    unfold Machine.act
    simp only
    split
    · exact .head (.skip rfl) (.head (.remark rfl) (.single .giveUp))
    · exact .single (hnext acts last)
  | report say => exact .head (hnext acts last) (.single (.remark rfl))
  | _ => exact hperform

/-- **A step of the machine is edits.** -/
theorem step_edits {m : Machine α} (hs : Sound m.draft) : Edits m.draft m.step.draft := by
  obtain ⟨h, ts⟩ := m
  cases ts with
  | nil => exact .refl
  | cons t ts =>
    cases t with
    | release o => exact release_edits hs
    | adopt dst src => exact adopt_edits hs
    | follow dst o => exact follow_edits hs
    | place dst q => exact place_edits hs
    | unlend p => exact .single .unlend
    | unshare p => exact .single .unshare
    | dismantle c => exact dismantle_edits hs
    | script c acts last =>
      cases acts with
      | nil => exact .single (.skip rfl)
      | cons a acts => exact act_edits hs

/-! ### Runs -/

/-- What the caller's operation makes of a heap, and what it leaves to do. -/
def Machine.start (h : Heap α) (op : Op α) : Machine α :=
  ⟨(h.operate op).heap, (h.operate op).todo⟩

/-- The moments of all runs with `n` variables. -/
inductive Moment (n : Nat) : Machine α → Prop
  | empty : Moment n ⟨.empty n, []⟩
  /-- Nothing is left to do, and the caller does something. -/
  | operate {h : Heap α} (op : Op α) : Moment n ⟨h, []⟩ → Moment n (.start h op)
  /-- The next part of what is to do is done. -/
  | step {m : Machine α} : Moment n m → Moment n m.step

/-- The moments that follow upon a moment. -/
inductive Later : Machine α → Machine α → Prop
  | refl (m : Machine α) : Later m m
  | operate {m : Machine α} {h : Heap α} (op : Op α) : Later m ⟨h, []⟩ → Later m (.start h op)
  | step {m m' : Machine α} : Later m m' → Later m m'.step

theorem sound_empty (n : Nat) : Sound (⟨.empty n, [], []⟩ : Draft α) := by
  have howners : (⟨.empty n, [], []⟩ : Draft α).owners = [] := by
    simp [Draft.owners, owners, Heap.empty, List.flatMap_replicate, Variable.fresh]
  refine ⟨fun c => ?_, fun c => ?_, fun c => ?_, fun i => ?_, .nil, fun t ht => by simp at ht⟩
  · rw [howners]
    simp [Custody.Heap.count_eq, Heap.empty]
  · simp [Custody.Heap.count_eq, status, Heap.empty]
  · simp [status, Heap.empty]
  · simp only [isLent, Heap.empty, List.getElem?_replicate, List.not_mem_nil, iff_false]
    split <;> simp [Variable.fresh]

/-- **Every moment is sound.** -/
theorem Moment.sound {n : Nat} {m : Machine α} (hm : Moment n m) : Sound m.draft := by
  induction hm with
  | empty => exact sound_empty n
  | operate op _ ih => exact (operate_edits ih op).sound ih
  | step _ ih => exact (step_edits ih).sound ih

/-- What holds at the start, and is preserved by each edit of a sound draft, holds at every moment. -/
theorem Moment.induct {n : Nat} {Q : Draft α → Prop} (hempty : Q ⟨.empty n, [], []⟩)
    (hedit : ∀ {d d' : Draft α}, Sound d → Edit d d' → Q d → Q d') {m : Machine α}
    (hm : Moment n m) : Q m.draft := by
  induction hm with
  | empty => exact hempty
  | operate op h ih => exact Edits.induct hedit (operate_edits h.sound op) h.sound ih
  | step h ih => exact Edits.induct hedit (step_edits h.sound) h.sound ih

theorem Later.moment {n : Nat} {m m' : Machine α} (hl : Later m m') (hm : Moment n m) :
    Moment n m' := by
  induction hl with
  | refl => exact hm
  | operate op _ ih => exact .operate op ih
  | step _ ih => exact .step ih

/-- What holds at a moment, and is preserved by each edit of a sound draft, holds ever after. -/
theorem Later.induct {n : Nat} {Q : Draft α → Prop}
    (hedit : ∀ {d d' : Draft α}, Sound d → Edit d d' → Q d → Q d') {m m' : Machine α}
    (hm : Moment n m) (hl : Later m m') (hq : Q m.draft) : Q m'.draft := by
  induction hl with
  | refl => exact hq
  | operate op h ih => exact Edits.induct hedit (operate_edits (h.moment hm).sound op) (h.moment hm).sound ih
  | step h ih => exact Edits.induct hedit (step_edits (h.moment hm).sound) (h.moment hm).sound ih

end Custody.Heap
