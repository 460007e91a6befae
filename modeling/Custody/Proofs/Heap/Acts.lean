/-
# What acts do is edits

Whatever the caller or a destructor does, the heap goes through edits only, and
the tasks it leaves are put before those there are. A place that was claimed may
be changed: no task waits to fill it, and after it is lent it has its keeper.

Key definitions: `Acting`, `Claimed`.
Key theorems: `perform_edits`, `operate_edits`.
-/
import Custody.Proofs.Heap.Edit

namespace Custody.Heap

variable {α : Type} {h : Heap α} {hand : List Owner} {ts : List (Task α)} {self : Option CellId}

/-! ### Places that were claimed -/

/-- A destructor acts among tasks the first of which is what is left of it. -/
def Acting (self : Option CellId) (ts : List (Task α)) : Prop :=
  ∀ c, self = some c → ∃ acts last rest, ts = .script c acts last :: rest

/-- What is known of a place that may be changed now. -/
structure Claimed (h : Heap α) (ts : List (Task α)) (p : Place) : Prop where
  there : (h.peek p).isSome
  writable : h.writable p = true
  isOpen : Open ts p
  keeper : p.keeper ∈ .unlend p :: ts
  outside : ∀ c hop, p = .inside c hop → h.status c ≠ some .live

theorem claim_eq_ok {r : Ref} {p : Place} (hc : h.claim self r = .ok p) :
    place? self r = some p ∧ (h.peek p).isSome ∧ h.writable p = true := by
  unfold claim at hc
  split at hc
  · simp at hc
  · rename_i q hq
    split at hc
    · simp at hc
    · rename_i hnone
      split at hc
      · rename_i hw
        obtain rfl : q = p := by simpa using hc
        exact ⟨hq, by simpa [Option.isSome_iff_ne_none] using hnone, hw⟩
      · simp at hc

theorem Sound.claimed (hs : Sound ⟨h, hand, ts⟩) (ha : Acting self ts) {r : Ref} {p : Place}
    (hc : h.claim self r = .ok p) : Claimed h ts p := by
  obtain ⟨hp, hthere, hw⟩ := claim_eq_ok hc
  cases r with
  | var i =>
    obtain rfl : .var i = p := by simpa [place?] using hp
    have hk : Place.keeper (.var i) ∉ ts := fun hm => by
      have hl := (hs.lent i).mpr hm
      rw [isLent_of_writable hw] at hl
      simp at hl
    exact ⟨hthere, hw, hs.order.open_of_keeper hk, List.mem_cons_self, fun _ _ e => by simp at e⟩
  | own hop =>
    obtain ⟨c, rfl, rfl⟩ : ∃ c, self = some c ∧ .inside c hop = p := by
      simpa [place?, Option.map_eq_some_iff] using hp
    obtain ⟨acts, last, rest, rfl⟩ := ha c rfl
    obtain ⟨hd, hopen⟩ := hs.order.head.script c acts last rfl
    have hdying := (hs.dying c).mpr (List.mem_cons_of_mem _ hd)
    refine ⟨hthere, hw, open_cons.mpr ⟨by simp [Task.fills], hopen hop⟩, ?_, ?_⟩
    · exact List.mem_cons_of_mem _ (List.mem_cons_of_mem _ hd)
    · rintro c' hop' e
      obtain ⟨rfl, -⟩ : c = c' ∧ hop = hop' := by simpa using e
      rw [show h.status c = some .dying from hdying]
      simp

theorem Claimed.poke {p q : Place} (hp : Claimed h ts p) {old : Option Pointer}
    (hq : h.peek q = some old) (x : Option Pointer) : Claimed (h.poke q x) ts p where
  there := isSome_peek_poke hq x hp.there
  writable := by simpa using hp.writable
  isOpen := hp.isOpen
  keeper := hp.keeper
  outside c hop e := by simpa using hp.outside c hop e

theorem Claimed.peek_eq {p : Place} (hp : Claimed h ts p) : h.peek p = some (h.pointer? p) := by
  obtain ⟨x, hx⟩ := Option.isSome_iff_exists.mp hp.there
  simp [pointer?, hx]

theorem Claimed.acquire {p : Place} (hp : Claimed h ts p) (c : CellId) :
    Claimed (h.acquire c).2 ts p where
  there := by simpa [(samePointers_acquire h c).peek p] using hp.there
  writable := by
    have := hp.writable
    cases p <;> exact this
  isOpen := hp.isOpen
  keeper := hp.keeper
  outside c' hop e := by simpa [(samePointers_acquire h c).status c'] using hp.outside c' hop e

theorem Claimed.allocate {p : Place} (hp : Claimed h ts p) (near : Nat) (v : Value α) :
    Claimed (h.allocate near v).2 ts p where
  there := by simp [peek_allocate hp.peek_eq]
  writable := by
    have := hp.writable
    cases p <;> exact this
  isOpen := hp.isOpen
  keeper := hp.keeper
  outside c hop e := by
    -- the place is in a cell that was there before
    obtain ⟨cell, -, -, hc, -⟩ := peek_inside_eq_some (e ▸ hp.peek_eq)
    have hlt := (List.getElem?_eq_some_iff.mp hc).1
    rw [status_allocate, if_neg (Nat.ne_of_lt hlt)]
    exact hp.outside c hop e

/-! ### Owners that are somewhere -/

/-- What is in a place is one of the owners stored. -/
theorem mem_owners_of_peek {p : Place} {x : Option Pointer} (hp : h.peek p = some x) {o : Owner}
    (ho : o ∈ held x) : o ∈ h.owners := by
  have hcount := owners_poke (fun o' => o' = o) hp none
  have hpos : 0 < (held x).countP (fun o' => o' = o) :=
    List.countP_pos_iff.mpr ⟨o, ho, by simp⟩
  have : 0 < h.owners.countP (fun o' => o' = o) := by
    simp only [held_none, List.countP_nil] at hcount
    omega
  obtain ⟨o', ho', he⟩ := List.countP_pos_iff.mp this
  obtain rfl : o' = o := by simpa using he
  exact ho'

theorem pointer?_eq_some {p : Place} {q : Pointer} (hq : h.pointer? p = some q) :
    h.peek p = some (some q) := by
  unfold pointer? at hq
  cases hp : h.peek p with
  | none => simp [hp] at hq
  | some x => simpa [hp] using hq

/-- The target of a pointer that is in a place is live. -/
theorem Sound.live_of_pointer? (hs : Sound ⟨h, hand, ts⟩) {p : Place} {q : Pointer}
    (hq : h.pointer? p = some q) {o : Owner} (ho : q.owner? = some o) :
    h.status o.cell = some .live := by
  have hmem := mem_owners_of_peek (o := o) (pointer?_eq_some hq) (by simp [held, ho])
  exact hs.live_of_mem (by simp [Draft.owners, hmem])

theorem view_eq_ok {r : Ref} {p : Place} (hv : h.view self r = .ok p) :
    (h.peek p).isSome ∧ h.readable p = true := by
  unfold view at hv
  split at hv
  · simp at hv
  · split at hv
    · simp at hv
    · rename_i hnone
      split at hv
      · rename_i hr
        obtain rfl := by simpa using hv
        exact ⟨by simpa [Option.isSome_iff_ne_none] using hnone, hr⟩
      · simp at hv

theorem view_eq_place {r : Ref} {p : Place} (hv : h.view self r = .ok p) : place? self r = some p := by
  unfold view at hv
  split at hv
  · simp at hv
  · rename_i q hq
    split at hv
    · simp at hv
    · split at hv
      · obtain rfl := by simpa using hv
        exact hq
      · simp at hv

theorem find_eq_ok {r : Ref} {path : List Hop} {root p : Place} {q : Pointer}
    (hf : h.find self r path = .ok (root, p, q)) :
    (h.peek root).isSome ∧ h.readable root = true ∧ h.walk false root path = .ok p ∧
      h.pointer? p = some q := by
  unfold find at hf
  split at hf
  · simp at hf
  · rename_i root' hview
    split at hf
    · simp at hf
    · rename_i p' hwalk
      split at hf
      · simp at hf
      · rename_i q' hq
        simp only [Except.ok.injEq, Prod.mk.injEq] at hf
        obtain ⟨rfl, rfl, rfl⟩ := hf
        obtain ⟨hthere, hr⟩ := view_eq_ok hview
        exact ⟨hthere, hr, hwalk, hq⟩

theorem view_of_find {r : Ref} {path : List Hop} {root p : Place} {q : Pointer}
    (hf : h.find self r path = .ok (root, p, q)) : h.view self r = .ok root := by
  unfold find at hf
  split at hf
  · simp at hf
  · rename_i root' hview
    split at hf
    · simp at hf
    · split at hf
      · simp at hf
      · simp only [Except.ok.injEq, Prod.mk.injEq] at hf
        rw [hview, hf.1]

/-! ### Edits that go together -/

/-- Taking what is in a place and leaving nothing with an owner there. -/
theorem Claimed.take {p : Place} (hp : Claimed h ts p) (hand : List Owner) {x : Option Pointer}
    (hx : held x = []) :
    Edits ⟨h, hand, ts⟩ ⟨h.poke p x, held (h.pointer? p) ++ hand, ts⟩ := by
  have : Edit ⟨h, held x ++ hand, ts⟩ ⟨h.poke p x, held (h.pointer? p) ++ hand, ts⟩ :=
    .poke x hp.peek_eq hp.isOpen
  rw [hx] at this
  exact .single this

/-- What was dropped signs off later. -/
theorem edits_discard (h : Heap α) (hand : List Owner) (ts : List (Task α)) (x : Option Pointer) :
    Edits ⟨h, held x ++ hand, ts⟩ ⟨h, hand, discard x ++ ts⟩ := by
  unfold held discard
  cases x.bind Pointer.owner? with
  | none => exact .refl
  | some o =>
    have hk : ∀ p : Place, Task.release o ≠ (p.keeper : Task α) := fun p => by
      cases p <;> simp [Place.keeper]
    exact .single (.postpone (Task.fits_release o ts) hk fun p hp => by simp [Task.fills] at hp)

/-- Putting what is in hand into a place; what was there signs off later. -/
theorem Claimed.put {p : Place} (hp : Claimed h ts p) (hand : List Owner) (x : Option Pointer) :
    Edits ⟨h, held x ++ hand, ts⟩ ⟨(h.put p x).heap, hand, (h.put p x).todo ++ ts⟩ :=
  .head (.poke x hp.peek_eq hp.isOpen) (edits_discard _ _ _ _)

/-- A copy of a pointer with a live target, if it has one. -/
theorem edits_duplicate (hand : List Owner) (ts : List (Task α)) {q : Pointer}
    (hq : ∀ o, q.owner? = some o → h.status o.cell = some .live) :
    Edits ⟨h, hand, ts⟩ ⟨(h.duplicate q).2, held (some (h.duplicate q).1) ++ hand, ts⟩ := by
  unfold duplicate
  cases ho : q.owner? with
  | none =>
    have : held (some q) = [] := by simp [held, ho]
    simp only [this, List.nil_append]
    exact .refl
  | some o =>
    simp only [held_pointer]
    exact .single (.acquire (hq o ho))

theorem samePointers_duplicate (h : Heap α) (q : Pointer) : SamePointers h (h.duplicate q).2 := by
  unfold duplicate
  cases q.owner? with
  | none => exact samePointers_refl h
  | some o => exact samePointers_acquire h o.cell

theorem Claimed.duplicate {p : Place} (hp : Claimed h ts p) (q : Pointer) :
    Claimed (h.duplicate q).2 ts p := by
  unfold Heap.duplicate
  cases q.owner? with
  | none => exact hp
  | some o => exact hp.acquire o.cell

/-- A claimed place is lent. -/
theorem Claimed.lend {p : Place} (hp : Claimed h ts p) :
    Edits ⟨h, hand, ts⟩ ⟨h.lend p, hand, .unlend p :: ts⟩ :=
  .single (.lend hp.there hp.writable)

/-- A place that was claimed and emptied may wait for a pointer once it is lent. -/
theorem Claimed.fits {p : Place} (hp : Claimed h ts p) {t : Task α} (ht : t.fills = some p)
    (rest : List (Task α)) (hr : ∀ u ∈ rest, u.fills = none)
    (hf : ∀ q o, t = .follow q o → .release o ∈ rest) : t.Fits (rest ++ .unlend p :: ts) := by
  refine Task.fits_of_fills ht ⟨fun u hu hup => ?_, List.mem_append_right _ hp.keeper⟩
    fun q o e => List.mem_append_left _ (hf q o e)
  rcases List.mem_append.mp hu with hu | hu
  · simp [hr u hu] at hup
  · rcases List.mem_cons.mp hu with rfl | hu
    · simp [Task.fills] at hup
    · exact hp.isOpen u hu hup

theorem vacant_lend {p : Place} (hv : h.Vacant p) (q : Place) : (h.lend q).Vacant p :=
  (samePointers_lend h q).vacant hv

/-- Lending the place `p` while the place `s` is read. -/
theorem Claimed.lend_share {p s : Place} (hp : Claimed h ts p) (hs : (h.peek s).isSome) :
    Edits ⟨h, hand, ts⟩ ⟨(h.lend p).share s, hand, .unshare s :: .unlend p :: ts⟩ :=
  hp.lend.trans (.single (.share (by rwa [(samePointers_lend h p).peek s])))

/-- A place that was claimed and emptied is lent, and waits for the pointer of the task `t`. -/
theorem Claimed.wait {p s : Place} (hp : Claimed h ts p) (hv : h.Vacant p) (hs : (h.peek s).isSome)
    {t : Task α} (ht : t.fills = some p) (hf : ∀ q o, t ≠ .follow q o) :
    Edits ⟨h, t.owners ++ hand, ts⟩
      ⟨(h.lend p).share s, hand, t :: .unshare s :: .unlend p :: ts⟩ := by
  refine (hp.lend_share hs).trans (.single (.postpone ?_ (fun q e => by simp [e] at ht) fun q hq => ?_))
  · exact hp.fits ht [.unshare s] (by simp [Task.fills]) fun q o e => absurd e (hf q o)
  · obtain rfl : p = q := by simpa [ht] using hq
    exact (samePointers_share _ s).vacant (vacant_lend hv p)

/-- A place that was claimed and emptied is lent, and waits for the target of an owner that is
dropped after that. -/
theorem Claimed.follow {p : Place} (hp : Claimed h ts p) (hv : h.Vacant p) (o : Owner) :
    Edits ⟨h, o :: hand, ts⟩
      ⟨h.lend p, hand, .follow p o :: .release o :: .unlend p :: ts⟩ := by
  have hdrop : Edits ⟨h.lend p, o :: hand, .unlend p :: ts⟩
      ⟨h.lend p, hand, .release o :: .unlend p :: ts⟩ := edits_discard _ _ _ (some (.notNull o))
  refine (hp.lend.trans hdrop).tail (.postpone (t := .follow p o)
    (hp.fits rfl [.release o] (by simp [Task.fills]) fun q o' e => ?_)
    (fun q e => by cases q <;> simp [Place.keeper] at e) fun q hq => ?_)
  · obtain ⟨-, rfl⟩ := by simpa using e
    exact List.mem_singleton.mpr rfl
  · obtain rfl : p = q := by simpa [Task.fills] using hq
    exact vacant_lend hv p

/-! ### Each act -/

theorem performReset_edits (hs : Sound ⟨h, [], ts⟩) (ha : Acting self ts) (dst : Ref) :
    Edits ⟨h, [], ts⟩ ⟨(h.performReset self dst).heap, [], (h.performReset self dst).todo ++ ts⟩ := by
  unfold performReset
  split
  · exact .refl
  · rename_i d hd
    exact (hs.claimed ha hd).put [] (some .null)

theorem performDrop_edits (hs : Sound ⟨h, [], ts⟩) (ha : Acting self ts) (r : Ref) :
    Edits ⟨h, [], ts⟩ ⟨(h.performDrop self r).heap, [], (h.performDrop self r).todo ++ ts⟩ := by
  unfold performDrop
  split
  · exact .refl
  · rename_i p hp
    have := (hs.claimed ha hp).put [] p.vacated
    rwa [held_vacated] at this

theorem performClear_edits (hs : Sound ⟨h, [], ts⟩) (ha : Acting self ts) (r : Ref) :
    Edits ⟨h, [], ts⟩ ⟨(h.performClear self r).heap, [], (h.performClear self r).todo ++ ts⟩ := by
  unfold performClear
  split
  · exact .refl
  · rename_i p hp
    have hcl := hs.claimed ha hp
    split
    · exact .refl
    · rename_i o ho
      have hclp := hcl.poke hcl.peek_eq (some .null)
      rw [List.append_assoc, ← ho]
      exact (hcl.take [] held_null).trans (hclp.lend.trans (edits_discard _ _ _ _))
    · exact .refl

theorem performMove_edits (hs : Sound ⟨h, [], ts⟩) (ha : Acting self ts) (src dst : Ref) :
    Edits ⟨h, [], ts⟩
      ⟨(h.performMove self src dst).heap, [], (h.performMove self src dst).todo ++ ts⟩ := by
  unfold performMove
  split
  · exact .refl
  · exact .refl
  · rename_i s d hsrc hdst
    have hcs := hs.claimed ha hsrc
    have hcd := (hs.claimed ha hdst).poke hcs.peek_eq s.vacated
    simp only
    split
    · exact (hcs.take [] (held_vacated s)).trans (hcd.put [] _)
    · exact .refl

theorem performClone_edits (hs : Sound ⟨h, [], ts⟩) (ha : Acting self ts) (src : Ref)
    (path : List Hop) (dst : Ref) :
    Edits ⟨h, [], ts⟩
      ⟨(h.performClone self src path dst).heap, [], (h.performClone self src path dst).todo ++ ts⟩ := by
  unfold performClone
  split
  · exact .refl
  · exact .refl
  · rename_i root p q d hfind hdst
    obtain ⟨-, -, -, hq⟩ := find_eq_ok hfind
    split
    · exact (edits_duplicate [] ts fun o ho => hs.live_of_pointer? hq ho).trans
        (((hs.claimed ha hdst).duplicate q).put [] _)
    · exact .refl

theorem performAssign_edits (hs : Sound ⟨h, [], ts⟩) (ha : Acting self ts) (dst src : Ref)
    (path : List Hop) :
    Edits ⟨h, [], ts⟩
      ⟨(h.performAssign self dst src path).heap, [],
        (h.performAssign self dst src path).todo ++ ts⟩ := by
  unfold performAssign
  split
  · exact .refl
  · exact .refl
  · rename_i d s p q hdst hfind
    have hcl := hs.claimed ha hdst
    obtain ⟨hroot, -, -, hq⟩ := find_eq_ok hfind
    split
    · exact .refl
    · split
      · exact .refl
      · -- a nullable pointer is emptied first, and waits for the new target
        rename_i a b hd
        split
        · exact .refl
        · have hclp := hcl.poke hcl.peek_eq (some .null)
          have hvac : (h.poke d (some .null)).Vacant d := vacant_poke hcl.peek_eq held_null
          have hsome := isSome_peek_poke hcl.peek_eq (some .null) hroot
          rw [List.append_assoc, ← hd]
          exact (hcl.take [] held_null).trans
            ((hclp.wait hvac hsome (t := .adopt d p) rfl fun _ _ => by simp).trans
              (edits_discard _ _ _ _))
      · -- the other kind gets the new target before the old one is released
        rename_i a b hd
        split
        · exact .refl
        · have hlive : h.status b.cell = some .live := hs.live_of_pointer? hq rfl
          have hcla := hcl.acquire b.cell
          have hpeek : (h.acquire b.cell).2.peek d = some (some (.notNull a)) :=
            ((samePointers_acquire h b.cell).peek d).trans (pointer?_eq_some hd)
          have hclp := hcla.poke hpeek (some (.notNull (h.acquire b.cell).1))
          have hsome : (((h.acquire b.cell).2.poke d (some (.notNull (h.acquire b.cell).1))).peek
              s).isSome :=
            isSome_peek_poke hpeek _ (by rwa [(samePointers_acquire h b.cell).peek s])
          refine Relation.ReflTransGen.head (.acquire hlive) ?_
          refine Relation.ReflTransGen.head (.poke (some (.notNull _)) hpeek hcla.isOpen) ?_
          exact (hclp.lend_share hsome).trans (edits_discard _ _ _ (some (.notNull a)))
      · exact .refl

theorem performAdvance_edits (hs : Sound ⟨h, [], ts⟩) (ha : Acting self ts) (dst : Ref)
    (path : List Hop) :
    Edits ⟨h, [], ts⟩
      ⟨(h.performAdvance self dst path).heap, [], (h.performAdvance self dst path).todo ++ ts⟩ := by
  unfold performAdvance
  split
  · exact .refl
  · exact .refl
  · rename_i d root p q hdst hfind
    have hcl := hs.claimed ha hdst
    obtain ⟨-, -, -, hq⟩ := find_eq_ok hfind
    split
    · exact .refl
    · rename_i a b hd
      split
      · exact .refl
      · split
        · have hclp := hcl.poke hcl.peek_eq (some .null)
          rw [List.append_assoc, ← hd]
          exact (hcl.take [] held_null).trans (hclp.lend.trans (edits_discard _ _ _ _))
        · rename_i b _
          have hlive : h.status b.cell = some .live := hs.live_of_pointer? hq rfl
          have hcopy : Edit ⟨h, [], ts⟩ ⟨(h.acquire b.cell).2, [(h.acquire b.cell).1], ts⟩ :=
            .acquire hlive
          have hcla := hcl.acquire b.cell
          have hsame := samePointers_acquire h b.cell
          generalize h.acquire b.cell = r at hcopy hcla hsame ⊢
          obtain ⟨copy, h₁⟩ := r
          have hd' : h₁.pointer? d = h.pointer? d := by simp only [pointer?, hsame.peek d]
          have hclp := hcla.poke hcla.peek_eq (some .null)
          have hvac := vacant_poke hcla.peek_eq held_null
          have htake : Edits ⟨h₁, [copy], ts⟩ ⟨h₁.poke d (some .null), copy :: held (h.pointer? d), ts⟩ :=
            (hd' ▸ hcla.take [copy] held_null).tail (.reorder (List.perm_append_singleton _ _))
          have hlast := edits_discard ((h₁.poke d (some .null)).lend d) []
            (.follow d copy :: .release copy :: .unlend d :: ts) (h.pointer? d)
          rw [List.append_nil] at hlast
          rw [List.append_assoc, ← hd]
          exact .head hcopy (htake.trans ((hclp.follow hvac copy).trans hlast))
    · exact .refl

theorem performReplace_edits (hs : Sound ⟨h, [], ts⟩) (ha : Acting self ts) (dst src : Ref)
    (path : List Hop) :
    Edits ⟨h, [], ts⟩
      ⟨(h.performReplace self dst src path).heap, [],
        (h.performReplace self dst src path).todo ++ ts⟩ := by
  unfold performReplace
  split
  · exact .refl
  · exact .refl
  · rename_i d s p q hdst hfind
    have hcl := hs.claimed ha hdst
    obtain ⟨hroot, -, -, hq⟩ := find_eq_ok hfind
    split
    · exact .refl
    · split
      · exact .refl
      · rename_i old hd
        split
        · have hcopy := edits_duplicate [] ts (q := q)
            fun o ho => hs.live_of_pointer? hq ho
          have hcld := hcl.duplicate q
          have hsame := samePointers_duplicate h q
          generalize h.duplicate q = r at hcopy hcld hsame ⊢
          obtain ⟨copy, h₁⟩ := r
          have hd' : h₁.pointer? d = h.pointer? d := by simp only [pointer?, hsame.peek d]
          have hclp := hcld.poke hcld.peek_eq d.vacated
          have hvac := vacant_poke hcld.peek_eq (held_vacated d)
          have hsome := isSome_peek_poke hcld.peek_eq d.vacated (q := s) (by rwa [hsame.peek s])
          have htake : Edits ⟨h₁, held (some copy) ++ [], ts⟩
              ⟨h₁.poke d d.vacated, held (some copy) ++ (held (h.pointer? d) ++ []), ts⟩ := by
            refine (hd' ▸ hcld.take (held (some copy) ++ []) (held_vacated d)).tail
              (.reorder ?_)
            rw [List.append_nil, List.append_nil]
            exact List.perm_append_comm
          rw [List.append_assoc, ← hd]
          exact hcopy.trans (htake.trans ((hclp.wait hvac hsome (t := .place d copy) rfl
            fun _ _ => by simp).trans (edits_discard _ _ _ _)))
        · exact .refl

/-- Another kind of pointer is the same owner. -/
theorem Pointer.owner?_convert {q q' : Pointer} {k : Kind}
    (hq : q.convert (α := α) k = .ok q') : q'.owner? = q.owner? := by
  unfold Pointer.convert at hq
  split at hq <;> simp only [Except.ok.injEq, reduceCtorEq] at hq <;> rw [← hq] <;> rfl

/-- Only a pointer without target cannot become one that must have a target. -/
theorem Pointer.owner?_of_convert_null {q : Pointer} {k : Kind}
    (hq : q.convert (α := α) k = .error .null) : q.owner? = none := by
  unfold Pointer.convert at hq
  split at hq <;> first | rfl | simp at hq

theorem performConvert_edits (hs : Sound ⟨h, [], ts⟩) (ha : Acting self ts) (src dst : Ref)
    (kind : Kind) :
    Edits ⟨h, [], ts⟩
      ⟨(h.performConvert self src dst kind).heap, [],
        (h.performConvert self src dst kind).todo ++ ts⟩ := by
  unfold performConvert
  split
  · exact .refl
  · exact .refl
  · rename_i s d hsrc hdst
    have hcs := hs.claimed ha hsrc
    have htake := hcs.take [] (held_vacated s)
    split
    · exact .refl
    · rename_i q hq
      rw [hq, List.append_nil] at htake
      split
      · rename_i hnull
        have : held (some q) = [] := by simp [held, Pointer.owner?_of_convert_null hnull]
        rwa [this] at htake
      · exact .refl
      · rename_i q' hq'
        have : held (some q') = held (some q) := by simp [held, Pointer.owner?_convert hq']
        have hcd := (hs.claimed ha hdst).poke hcs.peek_eq s.vacated
        split
        · have hput := hcd.put [] (some q')
          rw [this, List.append_nil] at hput
          exact htake.trans hput
        · exact .refl

/-! ### Making cells -/

/-- The pointers that are gathered are taken in hand, and claimed places stay so. -/
theorem gather_edits (ha : Acting self ts) : ∀ {rs : List (Option Ref)} {h h' : Heap α}
    {hand : List Owner} {os : List (Option Owner)}, Sound ⟨h, hand, ts⟩ →
    gather self h rs = .ok (os, h') →
    Edits ⟨h, hand, ts⟩ ⟨h', os.filterMap id ++ hand, ts⟩ ∧
      ∀ p, Claimed h ts p → Claimed h' ts p
  | [], h, h', hand, os, _, hg => by
    obtain ⟨rfl, rfl⟩ := by simpa [gather] using hg
    exact ⟨.refl, fun _ hp => hp⟩
  | none :: rs, h, h', hand, os, hs, hg => by
    unfold gather at hg
    split at hg
    · simp at hg
    · rename_i os' h₁ hrest
      obtain ⟨rfl, rfl⟩ := by simpa using hg
      simpa using gather_edits ha hs hrest
  | some r :: rs, h, h', hand, os, hs, hg => by
    unfold gather at hg
    split at hg
    · simp at hg
    · rename_i p hclaim
      have hcl := hs.claimed ha hclaim
      split at hg
      · simp at hg
      · rename_i o ho
        split at hg
        · simp at hg
        · rename_i os' h₁ hrest
          obtain ⟨rfl, rfl⟩ := by simpa using hg
          have htake := hcl.take hand (held_vacated p)
          rw [ho, held_nullable] at htake
          obtain ⟨hedits, hkeep⟩ := gather_edits ha (htake.sound hs) hrest
          refine ⟨(htake.trans hedits).tail (.reorder ?_),
            fun q hq => hkeep q (hq.poke hcl.peek_eq p.vacated)⟩
          cases o with
          | none => simp
          | some o => simp
      · simp at hg

theorem performMake_edits (hs : Sound ⟨h, [], ts⟩) (ha : Acting self ts) (dst : Ref) (kind : Kind)
    (data : α) (script : List (Act α)) (fields links : List (Option Ref)) (near : Nat) :
    Edits ⟨h, [], ts⟩
      ⟨(h.performMake self dst kind data script fields links near).heap, [],
        (h.performMake self dst kind data script fields links near).todo ++ ts⟩ := by
  unfold performMake
  split
  · exact .refl
  · exact .refl
  · rename_i d os h' hdst hgather
    obtain ⟨hedits, hkeep⟩ := gather_edits ha hs hgather
    have hcl := hkeep d (hs.claimed ha hdst)
    simp only
    split
    · -- the value has all the pointers that were gathered
      generalize hv : (⟨data, script, os.take fields.length, os.drop fields.length⟩ : Value α) = v
      have howners : v.owners = os.filterMap id := by
        simp [← hv, Value.owners, Value.pointers]
      have hmake : Edit ⟨h', v.owners ++ [], ts⟩
          ⟨(h'.allocate near v).2, [(h'.allocate near v).1], ts⟩ := .allocate near v
      rw [howners] at hmake
      have hput := (hcl.allocate near v).put [] (some (kind.pointer (h'.allocate near v).1))
      rw [held_pointer] at hput
      exact (hedits.tail hmake).trans hput
    · exact .refl

/-! ### Changing values -/

/-- What is reached through a pointer is a live cell's value. -/
theorem through_eq_ok {alone : Bool} {p : Place} {c : CellId} {v : Value α}
    (ht : h.through alone p = .ok (c, v)) :
    ∃ q o, h.pointer? p = some q ∧ q.owner? = some o ∧ o.cell = c ∧ h.live? c = some v ∧
      (alone = true → (h.count c).owners = 1) := by
  unfold through at ht
  split at ht
  · simp at ht
  · simp at ht
  · rename_i q hq
    split at ht
    · simp at ht
    · rename_i o ho
      split at ht
      · simp at ht
      · rename_i hunique
        split at ht
        · simp at ht
        · rename_i v' hv
          obtain ⟨rfl, rfl⟩ := by simpa using ht
          refine ⟨q, o, by simp [pointer?, hq], ho, rfl, hv, fun hal => ?_⟩
          simpa [hal, isUnique, Count.isUnique] using hunique

/-- Whether the answer tells that a path leads nowhere, or that the way is barred. -/
def Answer.isRefusal : Answer α → Bool
  | .absent | .vacant | .null | .denied | .dangling => true
  | _ => false

theorem through_isRefusal {alone : Bool} {p : Place} {e : Answer α}
    (he : h.through alone p = .error e) : e.isRefusal = true := by
  unfold through at he
  split at he
  · obtain rfl := Except.error.inj he
    rfl
  · obtain rfl := Except.error.inj he
    rfl
  · split at he
    · obtain rfl := Except.error.inj he
      cases alone <;> rfl
    · split at he
      · obtain rfl := Except.error.inj he
        rfl
      · split at he
        · obtain rfl := Except.error.inj he
          rfl
        · simp at he

theorem walk_isRefusal {alone : Bool} : ∀ {path : List Hop} {p : Place} {e : Answer α},
    h.walk alone p path = .error e → e.isRefusal = true
  | [], p, e, he => by
    unfold walk at he
    split at he
    · obtain rfl := Except.error.inj he
      rfl
    · obtain rfl := Except.error.inj he
      rfl
    · simp at he
  | hop :: path, p, e, he => by
    unfold walk at he
    split at he
    · rename_i e' hthrough
      obtain rfl := Except.error.inj he
      exact through_isRefusal hthrough
    · split at he
      · obtain rfl := Except.error.inj he
        rfl
      · exact walk_isRefusal he

theorem performUpdate_edits (r : Ref) (path : List Hop) (f : α → α) :
    Edits ⟨h, [], ts⟩
      ⟨(h.performUpdate self r path f).heap, [], (h.performUpdate self r path f).todo ++ ts⟩ := by
  unfold performUpdate
  split
  · exact .refl
  · split
    · exact .refl
    · split
      · exact .refl
      · rename_i c v ht
        obtain ⟨-, -, -, -, -, hv, -⟩ := through_eq_ok ht
        exact .single (.rewrite hv fun _ => rfl)

/-- A pointer that is taken out of one place is put into a live value instead of another. -/
theorem Claimed.exchange {s : Place} (hcl : Claimed h ts s) {o : Option Owner}
    (ho : h.pointer? s = some (.nullable o)) {c : CellId} {v : Value α} (hv : h.live? c = some v)
    {hop : Hop} {old : Option Owner} (hold : v.get? hop = some old) :
    Edits ⟨h, [], ts⟩ ⟨(h.poke s s.vacated).setLive c (v.set hop o), old.toList, ts⟩ := by
  have htake := hcl.take [] (held_vacated s)
  rw [ho, held_nullable, List.append_nil] at htake
  have hne : ∀ hop, s ≠ .inside c hop := fun hop e => hcl.outside c hop e (status_of_live? hv)
  have hv' : (h.poke s s.vacated).live? c = some v := (live?_poke hne _).trans hv
  refine htake.tail (.rewrite hv' fun P => ?_)
  have := Value.owners_set P hold o
  simp only [List.countP_append]
  omega

theorem performStore_edits (hs : Sound ⟨h, [], ts⟩) (ha : Acting self ts) (r : Ref)
    (path : List Hop) (site : Site) (src : Ref) :
    Edits ⟨h, [], ts⟩
      ⟨(h.performStore self r path site src).heap, [],
        (h.performStore self r path site src).todo ++ ts⟩ := by
  unfold performStore
  split
  · exact .refl
  · exact .refl
  · rename_i root s hroot hsrc
    have hcr := hs.claimed ha hroot
    have hcs := hs.claimed ha hsrc
    split
    · exact .refl
    · split
      · exact .refl
      · exact .refl
      · rename_i o p ho hwalk
        split
        · exact .refl
        · rename_i c v ht
          obtain ⟨-, -, -, -, -, hv, -⟩ := through_eq_ok ht
          have hne : ∀ q : Place, Claimed h ts q → ∀ hop, q ≠ .inside c hop :=
            fun q hq hop e => hq.outside c hop e (status_of_live? hv)
          split
          · -- the pointer goes into a new field
            have htake := hcs.take [] (held_vacated s)
            rw [ho, held_nullable, List.append_nil] at htake
            refine htake.tail (.rewrite ((live?_poke (hne s hcs) _).trans hv) fun P => ?_)
            cases o with
            | none => simp [Value.owners, Value.pointers]
            | some o =>
              simp only [Value.owners, Value.pointers, List.filterMap_append, List.filterMap_cons, id_eq,
                List.filterMap_nil, List.countP_append, List.countP_cons, List.countP_nil,
                Option.toList_some]
              omega
          · rename_i hop
            split
            · exact .refl
            · rename_i old hold
              have hcr' := hcr.poke hcs.peek_eq s.vacated
              have hpeek : ((h.poke s s.vacated).setLive c (v.set hop o)).peek root =
                  (h.poke s s.vacated).peek root := peek_setContent (hne root hcr)
              have hwritable : ((h.poke s s.vacated).setLive c (v.set hop o)).writable root = true := by
                have := hcr'.writable
                cases root <;> exact this
              refine (hcs.exchange ho hv hold).trans ?_
              refine .head (.lend (by rw [hpeek]; exact hcr'.there) hwritable) ?_
              have hlast := edits_discard (((h.poke s s.vacated).setLive c (v.set hop o)).lend root) []
                (.unlend root :: ts) (some (.nullable old))
              rw [List.append_nil, held_nullable] at hlast
              rw [List.append_assoc]
              exact hlast
      · exact .refl

theorem performRelink_edits (hs : Sound ⟨h, [], ts⟩) (r : Ref) (path : List Hop) (k : Nat)
    (src : Ref) :
    Edits ⟨h, [], ts⟩
      ⟨(h.performRelink r path k src).heap, [], (h.performRelink r path k src).todo ++ ts⟩ := by
  unfold performRelink
  split
  · exact .refl
  · rename_i s hsrc
    have hcs := hs.claimed (fun _ e => by simp at e) hsrc
    split
    · exact .refl
    · exact .refl
    · rename_i o root p q ho hfind
      split
      · exact .refl
      · split
        · exact .refl
        · rename_i c v ht
          obtain ⟨-, -, -, -, -, hv, -⟩ := through_eq_ok ht
          split
          · exact .refl
          · rename_i old hold
            split
            · exact .refl
            · have hlast := edits_discard ((h.poke s s.vacated).setLive c (v.set (.link k) o)) [] ts
                (some (.nullable old))
              rw [List.append_nil, held_nullable] at hlast
              exact (hcs.exchange ho hv hold).trans hlast
    · exact .refl

/-- **What an act does is edits**, with its tasks put before the others. -/
theorem perform_edits (hs : Sound ⟨h, [], ts⟩) (ha : Acting self ts) (a : Act α) :
    Edits ⟨h, [], ts⟩ ⟨(h.perform self a).heap, [], (h.perform self a).todo ++ ts⟩ := by
  cases a with
  | ask q => exact .refl
  | reset dst => exact performReset_edits hs ha dst
  | drop r => exact performDrop_edits hs ha r
  | clear r => exact performClear_edits hs ha r
  | move src dst => exact performMove_edits hs ha src dst
  | clone src path dst => exact performClone_edits hs ha src path dst
  | assign dst src path => exact performAssign_edits hs ha dst src path
  | advance dst path => exact performAdvance_edits hs ha dst path
  | replace dst src path => exact performReplace_edits hs ha dst src path
  | convert src dst kind => exact performConvert_edits hs ha src dst kind
  | make dst kind data script fields links near =>
    exact performMake_edits hs ha dst kind data script fields links near
  | update r path f => exact performUpdate_edits r path f
  | store r path site src => exact performStore_edits hs ha r path site src
  | skipIf p n => exact .refl
  | giveUpIf p => exact .refl
  | report say => exact .refl

theorem operate_edits (hs : Sound ⟨h, [], []⟩) (op : Op α) :
    Edits ⟨h, [], []⟩ ⟨(h.operate op).heap, [], (h.operate op).todo⟩ := by
  cases op with
  | act a =>
    have hcaller : Acting none ([] : List (Task α)) := fun _ e => by simp at e
    have := perform_edits hs hcaller a
    rwa [List.append_nil] at this
  | relink r path k src =>
    have := performRelink_edits hs r path k src
    rwa [List.append_nil] at this

end Custody.Heap
