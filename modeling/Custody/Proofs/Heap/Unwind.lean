/-
# Cascades of values without destructors

A dying value drops its pointers one after the other, and nothing depends on which it
drops next. A cascade in which it may be any of them unwinds like one of the machine,
as long as no destructor does anything else: owners sign off, values are
destroyed, and dying values lose their pointers until they are freed.

Key definitions: `Value.without`, `Unwind`, `Decay`.
Key theorems: `Unwind.decay`, `Unwind.weight_lt`, `Decay.sound`, `Decay.deaths`.
-/
import Mathlib.Data.List.Perm.Basic
import Custody.Proofs.Heap.Lifetime

namespace Custody.Heap

variable {α : Type} {h : Heap α} {ts : List (Task α)} {m m' : Machine α}

/-! ### A value without one of its pointers -/

/-- The value without the field or link. -/
def Value.without (v : Value α) : Hop → Value α
  | .field k => { v with fields := v.fields.eraseIdx k }
  | .link k => { v with links := v.links.eraseIdx k }

theorem Value.pointers_without {v : Value α} {hop : Hop} {o : Option Owner}
    (ho : v.get? hop = some o) : v.pointers.Perm (o :: (v.without hop).pointers) := by
  cases hop with
  | field k =>
    obtain ⟨hlt, rfl⟩ := List.getElem?_eq_some_iff.mp ho
    exact (List.getElem_cons_eraseIdx_perm hlt).symm.append_right v.links
  | link k =>
    obtain ⟨hlt, rfl⟩ := List.getElem?_eq_some_iff.mp ho
    exact ((List.getElem_cons_eraseIdx_perm hlt).symm.append_left v.fields).trans List.perm_middle

theorem Value.owners_without (P : Owner → Bool) {v : Value α} {hop : Hop} {o : Option Owner}
    (ho : v.get? hop = some o) :
    (v.without hop).owners.countP P + o.toList.countP P = v.owners.countP P := by
  have hperm := (v.pointers_without ho).filterMap id
  rw [Value.owners, Value.owners, hperm.countP_eq]
  cases o with
  | none => simp
  | some o => simp [List.countP_cons]

/-! ### Steps that unwind -/

/-- A step of the machine, or one that differs from it in which of its pointers a dying
value drops next. -/
inductive Unwind : Machine α → Machine α → Prop
  | step {m : Machine α} : m.tasks ≠ [] → Unwind m m.step
  | strip {h : Heap α} {ts : List (Task α)} {c : CellId} {cell : Cell α} {v : Value α} {hop : Hop}
      {o : Option Owner} : h.cells[c]? = some cell → cell.content = .dying v →
      v.get? hop = some o →
      Unwind ⟨h, .dismantle c :: ts⟩
        ⟨h.setContent c (.dying (v.without hop)), discard (some (.nullable o)) ++ .dismantle c :: ts⟩

/-- **Every cascade ends**, whichever pointer a dying value drops next. -/
theorem Unwind.weight_lt (hu : Unwind m m') : m'.weight < m.weight := by
  cases hu with
  | step ht => exact step_weight ht
  | strip hc hcon ho => exact strip_weight hc hcon (Value.pointers_without ho).length_eq

/-- Whether the task may be left to do while a cascade without destructors unwinds. -/
def Task.isUnwinding : Task α → Bool
  | .release _ => true
  | .script _ [] _ => true
  | .dismantle _ => true
  | _ => false

/-- What a step of a cascade without destructors is. -/
inductive Decay : Machine α → Machine α → Prop
  | signOff {h : Heap α} {ts : List (Task α)} {o : Owner} {k : Nat} :
      (h.count o.cell).owners = k + 2 → Decay ⟨h, .release o :: ts⟩ ⟨(h.signOff o).2, ts⟩
  | destroy {h : Heap α} {ts : List (Task α)} {o : Owner} {v : Value α} :
      (h.count o.cell).owners = 1 → h.live? o.cell = some v →
      Decay ⟨h, .release o :: ts⟩
        ⟨h.condemn o v, .script o.cell v.script .done :: .dismantle o.cell :: ts⟩
  | finish {h : Heap α} {ts : List (Task α)} {c : CellId} {last : Answer α} :
      Decay ⟨h, .script c [] last :: ts⟩ ⟨h, ts⟩
  | strip {h : Heap α} {ts : List (Task α)} {c : CellId} {cell : Cell α} {v : Value α} {hop : Hop}
      {o : Option Owner} : h.cells[c]? = some cell → cell.content = .dying v →
      v.get? hop = some o →
      Decay ⟨h, .dismantle c :: ts⟩
        ⟨h.setContent c (.dying (v.without hop)), discard (some (.nullable o)) ++ .dismantle c :: ts⟩
  | free {h : Heap α} {ts : List (Task α)} {c : CellId} {cell : Cell α} {v : Value α} :
      h.cells[c]? = some cell → cell.content = .dying v → v.pointers = [] →
      Decay ⟨h, .dismantle c :: ts⟩ ⟨(h.setContent c .freed).note (.freed c), ts⟩

theorem release_decay {o : Owner} (hs : Sound ⟨h, [], .release o :: ts⟩) :
    Decay ⟨h, .release o :: ts⟩ (Machine.release o h ts) := by
  rcases hs.release_cases with ⟨v, hn, hv, heq⟩ | ⟨n, hn, heq⟩
  · rw [heq]
    exact .destroy hn hv
  · rw [heq]
    exact .signOff hn

theorem dismantle_decay {c : CellId} (hs : Sound ⟨h, [], .dismantle c :: ts⟩) :
    Decay ⟨h, .dismantle c :: ts⟩ (Machine.dismantle c h ts) := by
  have hdying : h.status c = some .dying := (hs.dying c).mpr List.mem_cons_self
  obtain ⟨⟨a, n, content⟩, hc, hst⟩ := Option.map_eq_some_iff.mp hdying
  unfold Machine.dismantle
  cases content with
  | live v => simp at hst
  | freed => simp at hst
  | dying v =>
    obtain ⟨data, script, fields, links⟩ := v
    rcases fields with _ | ⟨o, fields⟩
    · rcases links with _ | ⟨o, links⟩
      · simp only [hc]
        exact .free hc rfl rfl
      · have hget : (⟨data, script, [], o :: links⟩ : Value α).get? (.link 0) = some o := rfl
        simp only [hc]
        exact .strip hc rfl hget
    · have hget : (⟨data, script, o :: fields, links⟩ : Value α).get? (.field 0) = some o := rfl
      simp only [hc]
      exact .strip hc rfl hget

/-- **Without destructors a cascade does nothing else.** -/
theorem Unwind.decay (hs : Sound m.draft) (ht : ∀ t ∈ m.tasks, t.isUnwinding = true)
    (hu : Unwind m m') : Decay m m' := by
  cases hu with
  | strip hc hcon ho => exact .strip hc hcon ho
  | step hne =>
    obtain ⟨h, ts⟩ := m
    obtain ⟨t, ts, rfl⟩ := List.exists_cons_of_ne_nil hne
    have hhead := ht t List.mem_cons_self
    cases t with
    | release o => exact release_decay hs
    | dismantle c => exact dismantle_decay hs
    | script c acts last =>
      cases acts with
      | nil => exact .finish
      | cons a acts => simp [Task.isUnwinding] at hhead
    | adopt dst src => simp [Task.isUnwinding] at hhead
    | follow dst o => simp [Task.isUnwinding] at hhead
    | place dst q => simp [Task.isUnwinding] at hhead
    | unlend p => simp [Task.isUnwinding] at hhead
    | unshare p => simp [Task.isUnwinding] at hhead

/-! ### What such a step preserves -/

/-- What is dropped signs off later. -/
theorem Sound.discard {x : Option Pointer} (hs : Sound ⟨h, held x ++ [], ts⟩) :
    Sound ⟨h, [], Custody.Heap.discard x ++ ts⟩ :=
  (edits_discard h [] ts x).sound hs

theorem Decay.sound (hd : Decay m m') (hs : Sound m.draft) : Sound m'.draft := by
  cases hd with
  | signOff hk => exact (Edit.signOff hk).sound hs
  | destroy hk hv => exact (Edit.destroy hk hv).sound hs
  | finish => exact (Edit.skip rfl).sound hs
  | @strip h ts c cell v hop o hc hcon ho =>
    have hstrip : Sound ⟨h.setContent c (.dying (v.without hop)), o.toList ++ [], .dismantle c :: ts⟩ := by
      refine Sound.dismantle hs hc hcon (fun P => ?_) (.inl ⟨rfl, rfl⟩)
      have := v.owners_without P ho
      simp only [Content.owners_dying, List.append_nil, List.countP_append]
      exact this
    exact Sound.discard (x := some (.nullable o)) hstrip
  | free hc hcon hp => exact (Edit.free hc hcon hp).sound hs

theorem Decay.deaths (hd : Decay m m') :
    LetsGo m.heap.destroyed m'.heap.destroyed m.heap.Dead m'.heap.Dead := by
  cases hd with
  | @signOff h ts o k hk =>
    have he : Edit ⟨h, [], .release o :: ts⟩ ⟨(h.signOff o).2, [], ts⟩ := .signOff hk
    exact he.deaths
  | @destroy h ts o v hk hv =>
    have he : Edit ⟨h, [], .release o :: ts⟩
        ⟨h.condemn o v, [], .script o.cell v.script .done :: .dismantle o.cell :: ts⟩ := .destroy hk hv
    exact he.deaths
  | finish => exact .inl ⟨rfl, fun _ => Iff.rfl⟩
  | @strip h ts c cell v hop o hc hcon ho =>
    refine .inl ⟨rfl, dead_congr fun c' => (status_setContent hc _ c').trans ?_⟩
    split
    · rename_i h'
      simp [h', status, hc, hcon]
    · rfl
  | @free h ts c cell v hc hcon hp =>
    have he : Edit ⟨h, [], .dismantle c :: ts⟩ ⟨(h.setContent c .freed).note (.freed c), [], ts⟩ :=
      .free hc hcon hp
    exact he.deaths

end Custody.Heap
