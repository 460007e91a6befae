/-
# What an act cannot reach

An act changes the places that it may claim, and the live values that it comes to from
these by pointers without others to share their targets. All other places have the same in
them after it. It leaves each loan to a reader with the task that ends it, and nothing to
do that belongs to a destruction. So, at every moment, a variable has at least as many
readers as there are such tasks.

Key definitions: `Heap.Exposed`, `Heap.Spares`, `Outcome.Heeds`, `LoansHeld`.
Key theorems: `perform_heeds`, `Moment.loansHeld`.
-/
import Custody.Proofs.Heap.Loans

namespace Custody.Heap

variable {α : Type} {h g : Heap α} {self : Option CellId} {p q : Place} {ts : List (Task α)}
  {n : Nat}

/-- The cell whose destruction the task belongs to. -/
def Task.dying? : Task α → Option CellId
  | .script c _ _ => some c
  | .dismantle c => some c
  | _ => none

/-- Whether an act can change what is in the place. -/
inductive Exposed (h : Heap α) (self : Option CellId) : Place → Prop
  | claimed {r : Ref} {p : Place} : h.claim self r = .ok p → Exposed h self p
  | inside {r : Ref} {root p : Place} {path : List Hop} {c : CellId} {v : Value α} (hop : Hop) :
      h.claim self r = .ok root → h.walk true root path = .ok p → h.through true p = .ok (c, v) →
      Exposed h self (.inside c hop)

/-- The heap `g` has the same as `h` in all places that cannot be reached, and is read by as
many. -/
structure Spares (h : Heap α) (me : Option CellId) (g : Heap α) : Prop where
  peek : ∀ p, (h.peek p).isSome → ¬ h.Exposed me p → g.peek p = h.peek p
  there : ∀ p, (h.peek p).isSome → (g.peek p).isSome
  readers : ∀ i, g.readers i = h.readers i

theorem Spares.refl (h : Heap α) (self : Option CellId) : Spares h self h :=
  ⟨fun _ _ _ => rfl, fun _ hp => hp, fun _ => rfl⟩

section spares

variable {g' : Heap α} (hk : Spares h self g)
include hk

theorem Spares.same (hs : SamePointers g g') (hr : ∀ i, g'.readers i = g.readers i) :
    Spares h self g' where
  peek p hp hnot := (hs.peek p).trans (hk.peek p hp hnot)
  there p hp := by
    rw [hs.peek p]
    exact hk.there p hp
  readers i := (hr i).trans (hk.readers i)

theorem Spares.lend (p : Place) : Spares h self (g.lend p) :=
  hk.same (samePointers_lend g p) (readers_lend g p)

theorem Spares.acquire (c : CellId) : Spares h self (g.acquire c).2 :=
  hk.same (samePointers_acquire g c) fun _ => rfl

theorem Spares.duplicate (q : Pointer) : Spares h self (g.duplicate q).2 := by
  unfold Heap.duplicate
  split
  · exact hk
  · exact hk.acquire _

theorem Spares.poke {r : Ref} (hc : h.claim self r = .ok p) (x : Option Pointer) :
    Spares h self (g.poke p x) where
  peek q hq hnot := by
    have hne : p ≠ q := fun e => hnot (e ▸ .claimed hc)
    exact (peek_poke_ne hne x).trans (hk.peek q hq hnot)
  there q hq := by
    obtain ⟨old, hold⟩ := Option.isSome_iff_exists.mp (hk.there p (claim_eq_ok hc).2.1)
    exact isSome_peek_poke hold x (hk.there q hq)
  readers i := (readers_poke g p x i).trans (hk.readers i)

theorem Spares.setLive {r : Ref} {root : Place} {path : List Hop} {c : CellId} {v w : Value α}
    (hc : h.claim self r = .ok root) (hw : h.walk true root path = .ok p)
    (ht : h.through true p = .ok (c, v)) (hget : ∀ hop, (v.get? hop).isSome → (w.get? hop).isSome)
    (hg : g.live? c = some v) : Spares h self (g.setLive c w) where
  peek q hq hnot := by
    have hne : ∀ hop, q ≠ .inside c hop := fun hop e => hnot (e ▸ .inside hop hc hw ht)
    exact (peek_setContent hne).trans (hk.peek q hq hnot)
  there q hq := by
    have hold := hk.there q hq
    by_cases hin : ∃ hop, q = .inside c hop
    · obtain ⟨hop, rfl⟩ := hin
      obtain ⟨cell, hcell, hcon⟩ := live?_eq_some.mp hg
      have hsome : (v.get? hop).isSome := by simpa [Heap.peek, hcell, hcon, Content.value?] using hold
      simpa [Heap.peek, Heap.setLive, Heap.modifyCell, hcell, Content.value?] using hget hop hsome
    · rw [setLive_eq, peek_setContent fun hop e => hin ⟨hop, e⟩]
      exact hold
  readers i := hk.readers i

theorem Spares.allocate (near : Nat) (v : Value α) : Spares h self (g.allocate near v).2 where
  peek p hp hnot := by
    obtain ⟨x, hx⟩ := Option.isSome_iff_exists.mp (hk.there p hp)
    rw [peek_allocate hx, ← hx]
    exact hk.peek p hp hnot
  there p hp := by
    obtain ⟨x, hx⟩ := Option.isSome_iff_exists.mp (hk.there p hp)
    rw [peek_allocate hx]
    rfl
  readers i := hk.readers i

end spares

/-! ### The acts -/

/-- The outcome has the same in all places that cannot be reached, as many loans more as tasks
that end one, and none that belongs to a destruction. -/
structure Outcome.Heeds (h : Heap α) (me : Option CellId) (o : Outcome α) : Prop where
  peek : ∀ p, (h.peek p).isSome → ¬ h.Exposed me p → o.heap.peek p = h.peek p
  readers : ∀ i, o.heap.readers i = h.readers i + o.todo.countP (Task.isLoan i)
  todo : ∀ t ∈ o.todo, t.dying? = none

theorem heeds_of_spares {o : Outcome α} (hk : Spares h self o.heap)
    (hloans : ∀ i, o.todo.countP (Task.isLoan i) = 0) (htodo : ∀ t ∈ o.todo, t.dying? = none) :
    o.Heeds h self where
  peek := hk.peek
  readers i := by rw [hk.readers, hloans, Nat.add_zero]
  todo := htodo

theorem heeds_reply (h : Heap α) (self : Option CellId) (a : Answer α) : (h.reply a).Heeds h self :=
  heeds_of_spares (.refl h self) (fun _ => rfl) (fun _ ht => absurd ht List.not_mem_nil)

theorem countP_isLoan_discard (x : Option Pointer) (i : Nat) :
    (discard x : List (Task α)).countP (Task.isLoan i) = 0 := by
  unfold discard
  split <;> simp [Task.isLoan]

theorem dying?_discard {x : Option Pointer} {t : Task α} (ht : t ∈ (discard x : List (Task α))) :
    t.dying? = none := by
  unfold discard at ht
  split at ht
  · simp at ht
  · rw [List.mem_singleton.mp ht]
    rfl

/-- Something is put into a place that was claimed. -/
theorem Spares.put (hk : Spares h self g) {r : Ref} (hc : h.claim self r = .ok p)
    (x : Option Pointer) : (g.put p x).Heeds h self :=
  heeds_of_spares (hk.poke hc x) (countP_isLoan_discard _) fun _ => dying?_discard

/-- What was dropped signs off before the other tasks. -/
theorem Spares.discard (hk : Spares h self g) (x : Option Pointer) {a : Answer α}
    (hloans : ∀ i, ts.countP (Task.isLoan i) = 0) (htodo : ∀ t ∈ ts, t.dying? = none) :
    Outcome.Heeds h self ⟨g, Custody.Heap.discard x ++ ts, a⟩ :=
  heeds_of_spares hk (fun i => by simp [countP_isLoan_discard, hloans]) fun t ht =>
    (List.mem_append.mp ht).elim dying?_discard (htodo t)

theorem readers_share (hp : (g.peek p).isSome) (i : Nat) :
    (g.share p).readers i = g.readers i + [Task.unshare (α := α) p].countP (Task.isLoan i) := by
  cases p with
  | inside c hop => simp [Heap.share, Task.isLoan]
  | var j =>
    obtain ⟨x, hx⟩ := Option.isSome_iff_exists.mp hp
    obtain ⟨v, hv, -⟩ := peek_var_eq_some hx
    rw [Heap.share, readers_modifyVar]
    by_cases hij : i = j
    · subst hij
      simp [Task.isLoan, Heap.readers, hv]
    · simp [Task.isLoan, hij]

/-- A place is read until the other tasks are done. -/
theorem Spares.share (hk : Spares h self g) (ts : List (Task α)) {s d : Place}
    (hs : (h.peek s).isSome) {a : Answer α} (hloans : ∀ i, ts.countP (Task.isLoan i) = 0)
    (htodo : ∀ t ∈ ts, t.dying? = none) :
    Outcome.Heeds h self ⟨g.share s, ts ++ [.unshare s, .unlend d], a⟩ where
  peek p hp hnot := ((samePointers_share g s).peek p).trans (hk.peek p hp hnot)
  readers i := by
    show (g.share s).readers i = _
    have hunlend : Task.isLoan i (.unlend d : Task α) = false := rfl
    rw [readers_share (hk.there s hs), hk.readers]
    simp [hloans, hunlend, List.countP_cons]
  todo t ht := by
    rcases List.mem_append.mp ht with ht | ht
    · exact htodo t ht
    · simp only [List.mem_cons, List.not_mem_nil, or_false] at ht
      rcases ht with rfl | rfl <;> rfl

theorem Spares.share_discard (hk : Spares h self g) {s d : Place} (hs : (h.peek s).isSome)
    (x : Option Pointer) {t : Task α} {a : Answer α} (hloan : ∀ i, t.isLoan i = false)
    (hdying : t.dying? = none) :
    Outcome.Heeds h self ⟨g.share s, Custody.Heap.discard x ++ [t, .unshare s, .unlend d], a⟩ := by
  have htodo : ∀ u ∈ Custody.Heap.discard x ++ [t], u.dying? = none := by
    intro u hu
    rcases List.mem_append.mp hu with hu | hu
    · exact dying?_discard hu
    · rwa [List.mem_singleton.mp hu]
  have hshare : Outcome.Heeds h self
      ⟨g.share s, (Custody.Heap.discard x ++ [t]) ++ [.unshare s, .unlend d], a⟩ :=
    hk.share _ hs (fun i => by simp [countP_isLoan_discard, hloan]) htodo
  rwa [List.append_assoc] at hshare

theorem performReset_heeds (dst : Ref) : (h.performReset self dst).Heeds h self := by
  unfold performReset
  split
  · exact heeds_reply h self _
  · rename_i d hd
    exact (Spares.refl h self).put hd _

theorem performDrop_heeds (r : Ref) : (h.performDrop self r).Heeds h self := by
  unfold performDrop
  split
  · exact heeds_reply h self _
  · rename_i p hp
    exact (Spares.refl h self).put hp _

theorem performClear_heeds (r : Ref) : (h.performClear self r).Heeds h self := by
  unfold performClear
  split
  · exact heeds_reply h self _
  · rename_i p hp
    split
    · exact heeds_reply h self _
    · exact (((Spares.refl h self).poke hp _).lend p).discard _ (fun _ => rfl)
        (by simp [Task.dying?])
    · exact heeds_reply h self _

theorem performMove_heeds (src dst : Ref) : (h.performMove self src dst).Heeds h self := by
  unfold performMove
  split
  · exact heeds_reply h self _
  · exact heeds_reply h self _
  · rename_i s d hs hd
    simp only
    split
    · exact ((Spares.refl h self).poke hs _).put hd _
    · exact heeds_reply h self _

theorem performClone_heeds (src : Ref) (path : List Hop) (dst : Ref) :
    (h.performClone self src path dst).Heeds h self := by
  unfold performClone
  split
  · exact heeds_reply h self _
  · exact heeds_reply h self _
  · rename_i root p q d hfind hd
    split
    · exact ((Spares.refl h self).duplicate q).put hd _
    · exact heeds_reply h self _

theorem performAssign_heeds (dst src : Ref) (path : List Hop) :
    (h.performAssign self dst src path).Heeds h self := by
  unfold performAssign
  split
  · exact heeds_reply h self _
  · exact heeds_reply h self _
  · rename_i d s p q hd hfind
    have hs := (find_eq_ok hfind).1
    split
    · exact heeds_reply h self _
    · split
      · exact heeds_reply h self _
      · split
        · exact heeds_reply h self _
        · rename_i a b _ _
          exact (((Spares.refl h self).poke hd (some .null)).lend d).share_discard hs
            (some (.nullable a)) (fun _ => rfl) rfl
      · split
        · exact heeds_reply h self _
        · rename_i a b _ _
          exact ((((Spares.refl h self).acquire b.cell).poke hd _).lend d).share [.release a] hs
            (fun _ => rfl) (by simp [Task.dying?])
      · exact heeds_reply h self _

theorem performAdvance_heeds (dst : Ref) (path : List Hop) :
    (h.performAdvance self dst path).Heeds h self := by
  unfold performAdvance
  split
  · exact heeds_reply h self _
  · exact heeds_reply h self _
  · rename_i d root p q hd hfind
    split
    · exact heeds_reply h self _
    · split
      · exact heeds_reply h self _
      · split
        · exact (((Spares.refl h self).poke hd _).lend d).discard _ (fun _ => rfl)
            (by simp [Task.dying?])
        · rename_i b _
          exact ((((Spares.refl h self).acquire b.cell).poke hd _).lend d).discard _ (fun _ => rfl)
            (by simp [Task.dying?])
    · exact heeds_reply h self _

theorem performReplace_heeds (dst src : Ref) (path : List Hop) :
    (h.performReplace self dst src path).Heeds h self := by
  unfold performReplace
  split
  · exact heeds_reply h self _
  · exact heeds_reply h self _
  · rename_i d s p q hd hfind
    have hs := (find_eq_ok hfind).1
    split
    · exact heeds_reply h self _
    · split
      · exact heeds_reply h self _
      · rename_i old _
        split
        · exact ((((Spares.refl h self).duplicate q).poke hd d.vacated).lend d).share_discard hs
            (some old) (fun _ => rfl) rfl
        · exact heeds_reply h self _

theorem performConvert_heeds (src dst : Ref) (kind : Kind) :
    (h.performConvert self src dst kind).Heeds h self := by
  unfold performConvert
  split
  · exact heeds_reply h self _
  · exact heeds_reply h self _
  · rename_i s d hs hd
    have htake := (Spares.refl h self).poke hs s.vacated
    split
    · exact heeds_reply h self _
    · split
      · exact heeds_of_spares htake (fun _ => rfl) (by simp)
      · exact heeds_reply h self _
      · split
        · exact htake.put hd _
        · exact heeds_reply h self _

/-- What may be claimed does not depend on what is in the places. -/
theorem claim_poke {x old : Option Pointer} (hp : h.peek p = some old) (r : Ref) :
    (h.poke p x).claim self r = h.claim self r := by
  unfold Heap.claim
  cases hq : place? self r with
  | none => rfl
  | some q =>
    have hsome : ((h.poke p x).peek q).isNone = (h.peek q).isNone := by
      by_cases hpq : p = q
      · obtain ⟨y, hy, -⟩ := peek_poke_self hp x
        rw [← hpq, hy, hp]
        rfl
      · rw [peek_poke_ne hpq]
    simp only [hsome, writable_poke]

theorem gather_spares : ∀ {rs : List (Option Ref)} {g g' : Heap α} {os : List (Option Owner)},
    Spares h self g → (∀ r, g.claim self r = h.claim self r) → gather self g rs = .ok (os, g') →
    Spares h self g'
  | [], g, g', os, hk, _, hg => by
    obtain ⟨rfl, rfl⟩ := by simpa [gather] using hg
    exact hk
  | none :: rs, g, g', os, hk, hclaim, hg => by
    unfold gather at hg
    split at hg
    · simp at hg
    · rename_i os' g₁ hrest
      obtain ⟨rfl, rfl⟩ := by simpa using hg
      exact gather_spares hk hclaim hrest
  | some r :: rs, g, g', os, hk, hclaim, hg => by
    unfold gather at hg
    split at hg
    · simp at hg
    · rename_i p hp
      rw [hclaim] at hp
      split at hg
      · simp at hg
      · split at hg
        · simp at hg
        · rename_i os' g₁ hrest
          obtain ⟨rfl, rfl⟩ := by simpa using hg
          obtain ⟨old, hold⟩ := Option.isSome_iff_exists.mp (hk.there p (claim_eq_ok hp).2.1)
          exact gather_spares (hk.poke hp _) (fun r => (claim_poke hold r).trans (hclaim r)) hrest
      · simp at hg

theorem performMake_heeds (dst : Ref) (kind : Kind) (data : α) (script : List (Act α))
    (fields links : List (Option Ref)) (near : Nat) :
    (h.performMake self dst kind data script fields links near).Heeds h self := by
  unfold performMake
  split
  · exact heeds_reply h self _
  · exact heeds_reply h self _
  · rename_i d os g hd hgather
    have hk := gather_spares (Spares.refl h self) (fun _ => rfl) hgather
    simp only
    split
    · exact (hk.allocate near _).put hd _
    · exact heeds_reply h self _

theorem performUpdate_heeds (r : Ref) (path : List Hop) (f : α → α) :
    (h.performUpdate self r path f).Heeds h self := by
  unfold performUpdate
  split
  · exact heeds_reply h self _
  · rename_i root hroot
    split
    · exact heeds_reply h self _
    · rename_i p hwalk
      split
      · exact heeds_reply h self _
      · rename_i c v ht
        obtain ⟨-, -, -, -, -, hv, -⟩ := through_eq_ok ht
        refine heeds_of_spares ((Spares.refl h self).setLive hroot hwalk ht (fun hop hs => ?_) hv)
          (fun _ => rfl) (by simp)
        cases hop <;> exact hs

theorem Value.isSome_get?_set (v : Value α) (hop : Hop) (o : Option Owner) {hop' : Hop}
    (hs : (v.get? hop').isSome) : ((v.set hop o).get? hop').isSome := by
  rw [Value.get?_set]
  split
  · rwa [Option.isSome_map]
  · exact hs

theorem performStore_heeds (r : Ref) (path : List Hop) (site : Site) (src : Ref)
    (houter : ∀ r q c, h.claim self r = .ok q → h.status c = some .live → ∀ hop, q ≠ .inside c hop) :
    (h.performStore self r path site src).Heeds h self := by
  unfold performStore
  split
  · exact heeds_reply h self _
  · exact heeds_reply h self _
  · rename_i root s hroot hs
    split
    · exact heeds_reply h self _
    · split
      · exact heeds_reply h self _
      · exact heeds_reply h self _
      · rename_i o p ho hwalk
        split
        · exact heeds_reply h self _
        · rename_i c v ht
          obtain ⟨-, -, -, -, -, hv, -⟩ := through_eq_ok ht
          have hv' : (h.poke s s.vacated).live? c = some v :=
            (live?_poke (houter src s c hs (status_of_live? hv)) _).trans hv
          have htake := (Spares.refl h self).poke hs s.vacated
          split
          · refine heeds_of_spares (htake.setLive hroot hwalk ht (fun hop hsome => ?_) hv')
              (fun _ => rfl) (by simp)
            cases hop with
            | field k =>
              obtain ⟨old, hold⟩ := Option.isSome_iff_exists.mp hsome
              have hlt : k < v.fields.length := (List.getElem?_eq_some_iff.mp hold).1
              simp only [Value.get?, List.getElem?_append_left hlt]
              exact hsome
            | link k => exact hsome
          · rename_i hop
            split
            · exact heeds_reply h self _
            · rename_i old hold
              exact ((htake.setLive hroot hwalk ht
                (fun _ => v.isSome_get?_set hop o) hv').lend root).discard _ (fun _ => rfl)
                (by simp [Task.dying?])
      · exact heeds_reply h self _

/-- **An act changes nothing that it cannot reach**, and leaves a task for each loan. -/
theorem perform_heeds {hand : List Owner} (hs : Sound ⟨h, hand, ts⟩) (ha : Acting self ts)
    (a : Act α) : (h.perform self a).Heeds h self := by
  cases a with
  | ask q => exact heeds_reply h self _
  | reset dst => exact performReset_heeds dst
  | drop r => exact performDrop_heeds r
  | clear r => exact performClear_heeds r
  | move src dst => exact performMove_heeds src dst
  | clone src path dst => exact performClone_heeds src path dst
  | assign dst src path => exact performAssign_heeds dst src path
  | advance dst path => exact performAdvance_heeds dst path
  | replace dst src path => exact performReplace_heeds dst src path
  | convert src dst kind => exact performConvert_heeds src dst kind
  | make dst kind data script fields links near =>
    exact performMake_heeds dst kind data script fields links near
  | update r path f => exact performUpdate_heeds r path f
  | store r path site src =>
    refine performStore_heeds r path site src fun r q c hc hlive hop e => ?_
    exact (hs.claimed ha hc).outside c hop e hlive
  | skipIf p n => exact heeds_reply h self _
  | giveUpIf p => exact heeds_reply h self _
  | report say => exact heeds_reply h self _

/-! ### Loans are held -/

/-- A variable has at least as many readers as there are tasks that end a loan of it. -/
def LoansHeld (h : Heap α) (ts : List (Task α)) : Prop :=
  ∀ i, ts.countP (Task.isLoan i) ≤ h.readers i

theorem LoansHeld.of_heeds {o : Outcome α} (hl : LoansHeld h ts) (ho : o.Heeds h self) :
    LoansHeld o.heap (o.todo ++ ts) := by
  intro i
  rw [List.countP_append, ho.readers, Nat.add_comm]
  exact Nat.add_le_add_right (hl i) _

theorem LoansHeld.of_same {ts' : List (Task α)} (hl : LoansHeld h ts)
    (hr : ∀ i, g.readers i = h.readers i)
    (ht : ∀ i, ts'.countP (Task.isLoan i) ≤ ts.countP (Task.isLoan i)) : LoansHeld g ts' := by
  intro i
  rw [hr i]
  exact Nat.le_trans (ht i) (hl i)

theorem readers_release (o : Owner) (i : Nat) :
    (Machine.release o h ts).heap.readers i = h.readers i := by
  have hsign := readers_signOff h o i
  unfold Machine.release
  split
  · rename_i g heq
    rwa [heq] at hsign
  · rename_i g heq
    rw [heq] at hsign
    split <;> exact hsign

theorem countP_isLoan_release (o : Owner) (i : Nat) :
    (Machine.release o h ts).tasks.countP (Task.isLoan i) = ts.countP (Task.isLoan i) := by
  unfold Machine.release
  split
  · rfl
  · split
    · rfl
    · simp [Task.isLoan]

theorem readers_duplicate (h : Heap α) (q : Pointer) (i : Nat) :
    (h.duplicate q).2.readers i = h.readers i := by
  unfold duplicate
  split <;> rfl

theorem readers_adopt (dst src : Place) (i : Nat) :
    (Machine.adopt dst src h).readers i = h.readers i := by
  unfold Machine.adopt
  split
  · rfl
  · exact (readers_poke _ _ _ i).trans (readers_duplicate h _ i)

theorem readers_dismantle (c : CellId) (i : Nat) :
    (Machine.dismantle c h ts).heap.readers i = h.readers i := by
  unfold Machine.dismantle
  split <;> rfl

theorem countP_isLoan_dismantle (c : CellId) (i : Nat) :
    (Machine.dismantle c h ts).tasks.countP (Task.isLoan i) = ts.countP (Task.isLoan i) := by
  unfold Machine.dismantle
  split <;> simp [countP_isLoan_discard, Task.isLoan]

theorem readers_unshare (h : Heap α) (p : Place) (i : Nat) :
    (h.unshare p).readers i = h.readers i - [Task.unshare (α := α) p].countP (Task.isLoan i) := by
  cases p with
  | inside c hop => simp [Heap.unshare, Task.isLoan]
  | var j =>
    rw [Heap.unshare, readers_modifyVar]
    by_cases hij : i = j
    · subst hij
      cases hv : h.vars[i]? <;> simp [Task.isLoan, Heap.readers, hv]
    · simp [Task.isLoan, hij]

theorem LoansHeld.act {c : CellId} {a : Act α} {acts : List (Act α)} {last : Answer α}
    (hl : LoansHeld h (.script c (a :: acts) last :: ts))
    (ho : (h.perform (some c) a).Heeds h (some c)) :
    LoansHeld (Machine.act c a acts last h ts).heap (Machine.act c a acts last h ts).tasks := by
  have hnext : ∀ acts' last', LoansHeld h (.script c acts' last' :: ts) := fun _ _ => hl
  cases a with
  | skipIf p n => exact hnext _ _
  | giveUpIf p =>
    unfold Machine.act
    simp only
    split
    · exact hl.of_same (fun _ => rfl) fun i => by
        rw [countP_isLoan_filter, countP_isLoan_cons]
        exact Nat.le_add_right _ _
    · exact hnext _ _
  | report say => exact (hnext acts last).of_same (fun _ => rfl) fun _ => Nat.le_refl _
  | _ => exact (hnext acts _).of_heeds ho

/-- A step of the machine keeps them. -/
theorem LoansHeld.step {m : Machine α} (hl : LoansHeld m.heap m.tasks) (hs : Sound m.draft) :
    LoansHeld m.step.heap m.step.tasks := by
  obtain ⟨h, ts⟩ := m
  have hpop : ∀ {t : Task α} {ts : List (Task α)} (i : Nat),
      ts.countP (Task.isLoan i) ≤ (t :: ts).countP (Task.isLoan i) := by
    intro t ts i
    rw [countP_isLoan_cons]
    exact Nat.le_add_right _ _
  cases ts with
  | nil => exact hl
  | cons t ts =>
    cases t with
    | release o =>
      refine hl.of_same (readers_release o) fun i => ?_
      show (Machine.release o h ts).tasks.countP _ ≤ _
      rw [countP_isLoan_release]
      exact hpop i
    | adopt dst src => exact hl.of_same (readers_adopt dst src) hpop
    | follow dst o => exact hl.of_same (readers_poke _ dst _) hpop
    | place dst q => exact hl.of_same (readers_poke h dst _) hpop
    | unlend p => exact hl.of_same (readers_unlend h p) hpop
    | unshare p =>
      intro i
      have hi : (Task.unshare p :: ts).countP (Task.isLoan i) ≤ h.readers i := hl i
      rw [countP_isLoan_cons] at hi
      show ts.countP _ ≤ (h.unshare p).readers i
      rw [readers_unshare]
      omega
    | dismantle c =>
      refine hl.of_same (readers_dismantle c) fun i => ?_
      show (Machine.dismantle c h ts).tasks.countP _ ≤ _
      rw [countP_isLoan_dismantle]
      exact hpop i
    | script c acts last =>
      cases acts with
      | nil => exact hl.of_same (fun _ => rfl) hpop
      | cons a acts =>
        exact hl.act (perform_heeds hs (fun c' e => by
          obtain rfl : c = c' := by simpa using e
          exact ⟨_, _, _, rfl⟩) a)

theorem performRelink_readers (r : Ref) (path : List Hop) (k : Nat) (src : Ref) (i : Nat) :
    (h.performRelink r path k src).heap.readers i = h.readers i ∧
      (h.performRelink r path k src).todo.countP (Task.isLoan i) = 0 := by
  unfold performRelink
  split
  · exact ⟨rfl, rfl⟩
  · rename_i s hs
    split
    · exact ⟨rfl, rfl⟩
    · exact ⟨rfl, rfl⟩
    · split
      · exact ⟨rfl, rfl⟩
      · split
        · exact ⟨rfl, rfl⟩
        · split
          · exact ⟨rfl, rfl⟩
          · split
            · exact ⟨rfl, rfl⟩
            · exact ⟨readers_poke h s _ i, countP_isLoan_discard _ i⟩
    · exact ⟨rfl, rfl⟩

/-- **At every moment there is a reader for each task that ends a loan.** -/
theorem Moment.loansHeld {m : Machine α} (hm : Moment n m) : LoansHeld m.heap m.tasks := by
  induction hm with
  | empty => exact fun i => Nat.zero_le _
  | @operate h op hm ih =>
    cases op with
    | act a =>
      have hheeds : (h.perform none a).Heeds h none := perform_heeds hm.sound (fun _ e => by simp at e) a
      have hheld := LoansHeld.of_heeds ih hheeds
      rwa [List.append_nil] at hheld
    | relink r path k src =>
      intro i
      obtain ⟨hr, ht⟩ := performRelink_readers (h := h) r path k src i
      show (h.performRelink r path k src).todo.countP _ ≤ _
      rw [ht]
      exact Nat.zero_le _
  | step hm ih => exact ih.step hm.sound

end Custody.Heap
