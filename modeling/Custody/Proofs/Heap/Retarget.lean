/-
# All ways of retargeting agree

A pointer can be given another target in three ways. A nullable pointer that is assigned to
gives up its old target before it owns the new one; a pointer that always has a target owns the
new one before it gives up the old one; and a copy of another pointer can be put in its place.
Destructors that run meanwhile, and do not give up, cannot tell these apart unless they ask
whether the pointer that is copied is the only owner of its target, and it all comes to the same.

Key definitions: `Heap.asNotNull`, `Heap.switch`, `Retarget`.
Key theorem: `Moment.retargets_agree`.
-/
import Custody.Proofs.Heap.Assign
import Custody.Proofs.Heap.Matches

namespace Custody.Heap

variable {α : Type} {h h' g : Heap α} {m m' : Machine α} {n : Nat} {self : Option CellId}
  {dst src : Ref} {path : List Hop} {d s p : Place} {a b : Owner} {sure : List Nat}

/-! ### The ways -/

/-- The pointer as one that always has a target, if it has one. -/
def Pointer.asNotNull : Pointer → Pointer
  | .nullable (some o) => .notNull o
  | q => q

/-- The heap with pointers that always have targets in some variables. -/
def asNotNull (is : List Nat) (h : Heap α) : Heap α :=
  { h with vars := h.vars.mapIdx fun i v =>
      if i ∈ is then { v with pointer := v.pointer.map Pointer.asNotNull } else v }

theorem Pointer.arrow_asNotNull (q : Pointer) : q.asNotNull.arrow = q.arrow.sure := by
  rcases q with (_ | o) | o | o <;> rfl

/-- Nothing is odd about that heap but the kinds of those pointers. -/
theorem beside_asNotNull {is : List Nat}
    (hfair : ∀ c v, h.live? c = some v → Act.AllFair is v.script) :
    Beside ⟨none, none, none, is⟩ h (h.asNotNull is) where
  cells c := by
    show Option.Rel _ h.cells[c]? h.cells[c]?
    cases hc : h.cells[c]? with
    | none => exact .none
    | some cell =>
      obtain ⟨address, count, content⟩ := cell
      refine .some ⟨rfl, rfl, ?_⟩
      cases content with
      | live v =>
        have hv : h.live? c = some v := by simp only [live?, hc]
        exact .live (.refl v) (hfair c v hv) (by simp)
      | dying v =>
        refine .dying fun hop => ?_
        rw [funext (Odds.target_of_ne (p := .inside c hop) (by simp))]
      | freed => exact .freed
  vars i := by
    show Option.Rel _ h.vars[i]? (h.asNotNull is).vars[i]?
    rw [asNotNull, List.getElem?_mapIdx]
    cases hv : h.vars[i]? with
    | none => exact .none
    | some v =>
      by_cases hi : i ∈ is
      · rw [Option.map_some, if_pos hi]
        refine .some ⟨?_, rfl, rfl⟩
        have harrow : (Odds.mk none none none is).arrow (.var i) = fun q => q.arrow.sure := by
          funext q
          exact if_pos hi
        rw [Odds.seen_of_ne (by simp), harrow, Option.map_map]
        congr 1
        funext q
        exact q.arrow_asNotNull
      · rw [Option.map_some, if_neg hi]
        have hplain : (Odds.mk none none none is).Plain (.var i) :=
          ⟨by simp, fun j hj he => hi (by rwa [Place.var.inj he])⟩
        exact .some ⟨(hplain.seen _).symm, rfl, rfl⟩
  told := List.forall₂_same.mpr fun e _ => .refl e

theorem beside_self (hfair : ∀ c v, h.live? c = some v → Act.AllFair [] v.script) :
    Beside ⟨none, none, none, []⟩ h h := by
  have hsame : h.asNotNull [] = h := by
    have hvars : ∀ l : List Variable, l.mapIdx (fun i v =>
        if i ∈ ([] : List Nat) then { v with pointer := v.pointer.map Pointer.asNotNull } else v) = l := by
      intro l
      apply List.ext_getElem? fun i => ?_
      simp
    simp only [asNotNull, hvars]
  have hb := beside_asNotNull hfair
  rwa [hsame] at hb

/-- Gives the pointer `q` in `d` the target of `b`, which it owns before it gives up the one it
has. -/
def switch (h : Heap α) (d s : Place) (q : Pointer) (b : Owner) : Outcome α :=
  if h.identity q.owner? = h.identity (some b) then h.reply .done
  else
    let (b, h) := h.acquire b.cell
    ⟨((h.poke d (some (q.kind.pointer b))).lend d).share s,
      discard (some q) ++ [.unshare s, .unlend d], .done⟩

/-- The pointer in `d`, which is the owner `a`, can be given the target of the one in `p`, which
is the owner `b`: the first may be changed, and the second may be read, starting from `s`. -/
structure Retarget (h : Heap α) (me : Option CellId) (dst src : Ref) (path : List Hop)
    (d s p : Place) (a b : Owner) : Prop where
  claimed : h.claim me dst = .ok d
  found : h.find me src path = .ok (s, p, .nullable (some b))
  apart : d ≠ s
  old : h.pointer? d = some (.nullable (some a))

namespace Retarget

variable (hr : Retarget h self dst src path d s p a b)
include hr

theorem assignable : Assignable h self dst [] src path d d s p (some a) (some b) where
  claimed := hr.claimed
  reached := by
    unfold walk
    rw [pointer?_eq_some hr.old]
  old := hr.old
  found := hr.found
  apart := hr.apart

theorem perform_assign (hne : h.identity (some a) ≠ h.identity (some b)) :
    h.perform self (.assign dst src path) = ⟨((h.poke d (some .null)).lend d).share s,
      [.release a] ++ [.adopt d p, .unshare s, .unlend d], .done⟩ :=
  (hr.assignable.perform_assign rfl).trans (if_neg hne)

theorem perform_assign_of_eq (heq : h.identity (some a) = h.identity (some b)) :
    h.perform self (.assign dst src path) = h.reply .done :=
  (hr.assignable.perform_assign rfl).trans (if_pos heq)

theorem perform_replace : h.perform self (.replace dst src path) =
    ⟨(((h.acquire b.cell).2.poke d d.vacated).lend d).share s, [.release a] ++
      [.place d (.nullable (some (h.acquire b.cell).1)), .unshare s, .unlend d], .done⟩ := by
  show h.performReplace self dst src path = _
  unfold performReplace
  simp only [hr.claimed, hr.found, hr.old, if_neg hr.apart]
  rfl

end Retarget

/-- **A pointer that always has a target is given another so.** -/
theorem perform_assign_notNull (hd : h.claim self dst = .ok d)
    (hs : h.find self src path = .ok (s, p, .notNull b)) (hne : d ≠ s)
    (hold : h.pointer? d = some (.notNull a)) :
    h.perform self (.assign dst src path) = h.switch d s (.notNull a) b := by
  show h.performAssign self dst src path = _
  unfold performAssign switch
  simp only [hd, hs, hold, if_neg hne]
  rfl

/-! ### While the old target is released -/

namespace Retarget

variable (hr : Retarget m.heap self dst src path d s p a b) (hm : Moment n m)
  (ha : Acting self m.tasks)
include hr hm ha

theorem claimed_spec : Claimed m.heap m.tasks d :=
  hm.sound.claimed ha hr.claimed

/-- The pointer that is copied stays borrowed, or belongs to the value whose destructor acts. -/
theorem minded : Minded ([.adopt d p, .unshare s, .unlend d] ++ m.tasks) s :=
  (hr.assignable.minded hm.sound ha).cons _

/-- So does the one that is given another target. -/
theorem keeper_mem : d.keeper ∈ [.adopt d p, .unshare s, .unlend d] ++ m.tasks :=
  List.mem_cons_of_mem _ (List.mem_cons_of_mem _ (hr.claimed_spec hm ha).keeper)

theorem peek_of_under {q : Place} (hq : m.heap.Under s q) :
    (((m.heap.poke d (some .null)).lend d).share s).peek q = m.heap.peek q :=
  hr.assignable.peek_opened hm.sound ha hq

/-- **The ways do the same while the old target is released.** -/
theorem lockstep (hne : m.heap.identity (some a) ≠ m.heap.identity (some b))
    (hb : Beside ⟨none, none, none, sure⟩ m.heap g) (hsure : ∀ i ∈ sure, .var i = d ∨ .var i = s)
    {a' : Owner} (hcell : a'.cell = a.cell) (x : Option Pointer) :
    Lockstep ⟨some b.cell, some d, x.map Pointer.arrow, sure⟩ s p b
      ([.adopt d p, .unshare s, .unlend d] ++ m.tasks)
      ⟨((m.heap.poke d (some .null)).lend d).share s, [.release a]⟩
      ⟨(((g.acquire b.cell).2.poke d x).lend d).share s, [.release a']⟩ where
  paired := by
    have hclaimed := hr.claimed_spec hm ha
    have hopen := (hb.acquire_right rfl b.cell).open_gap rfl (some .null) x hclaimed.outside
    exact ⟨(hopen.lend d).share s, .cons (.release hcell) .nil⟩
  guarded := by
    have hedits := perform_edits hm.sound ha (.assign dst src path)
    have hloans := hm.loansHeld.of_heeds (perform_heeds hm.sound ha (.assign dst src path))
    rw [hr.perform_assign hne] at hedits hloans
    refine ⟨?_, ?_, by simp⟩
    · have hs := hedits.sound hm.sound
      rwa [List.append_assoc] at hs
    · rwa [List.append_assoc] at hloans
  minded := hr.minded hm ha
  under := hr.assignable.under.congr fun q hq => hr.peek_of_under hm ha hq
  source := (congrArg Option.join (hr.peek_of_under hm ha hr.assignable.under)).trans
    hr.assignable.pointer?_new
  extra := rfl
  gap q hq := by
    obtain rfl := Option.some.inj hq
    exact hr.keeper_mem hm ha
  sure i hi := by
    rcases hsure i hi with rfl | rfl
    · exact minded_of_keeper (hr.keeper_mem hm ha)
    · exact hr.minded hm ha

end Retarget

/-! ### After the old target is released -/

/-- A pointer that is given another target stays of its kind. -/
theorem Odds.arrow_regain {D : Odds} {q : Pointer} {o : Owner}
    (hq : q.arrow = D.arrow d (.nullable (some a))) (ho : o.cell = b.cell) :
    D.arrow d (.nullable (some b)) = (q.kind.pointer o).arrow := by
  rw [← q.kind_arrow, hq]
  cases d with
  | var i =>
    by_cases hi : i ∈ D.sure <;>
      simp [Odds.arrow, hi, Arrow.sure, Pointer.arrow, Arrow.kind, Kind.pointer, ho]
  | inside c hop => simp [Odds.arrow, Pointer.arrow, Arrow.kind, Kind.pointer, ho]

/-- The pointer gets its target in the first heap too, and the loans end. -/
theorem Beside.close {t : Arrow} (hb : Beside ⟨some b.cell, some d, some t, sure⟩ h h')
    (ht : (Odds.mk none none none sure).arrow d (.nullable (some b)) = t) (hd : (h.peek d).isSome)
    (hp : h.pointer? p = some (.nullable (some b))) (s : Place) :
    Beside ⟨none, none, none, sure⟩
      (⟨h, [.adopt d p, .unshare s, .unlend d]⟩ : Machine α).settle.heap
      ((h'.unshare s).unlend d) := by
  have hd' : ((h.acquire b.cell).2.peek d).isSome := by
    rwa [(samePointers_acquire h b.cell).peek d]
  have hnew : (some (Pointer.nullable (some (h.acquire b.cell).1))).map
      ((Odds.mk none (some d) (some t) sure).arrow d) = some t := by
    rw [← ht]
    cases d <;> rfl
  have hclosed := (hb.acquire_left rfl).close_gap rfl hnew (fun _ _ _ => ⟨_, rfl⟩) hd'
  rw [settle_adopt hp]
  exact (hclosed.unshare s).unlend d

namespace Retarget

variable (hr : Retarget m.heap self dst src path d s p a b) (hm : Moment n m)
  (ha : Acting self m.tasks)
include hr hm ha

/-- **A way matches the assignment of a nullable pointer** if it does the same after the old
target is released. -/
theorem matches_of_end (hne : m.heap.identity (some a) ≠ m.heap.identity (some b))
    (hb : Beside ⟨none, none, none, sure⟩ m.heap g) (hsure : ∀ i ∈ sure, .var i = d ∨ .var i = s)
    {a' : Owner} (hcell : a'.cell = a.cell) (x : Option Pointer) {w : List (Task α)}
    (hw : ∀ t ∈ w, t.isClosing = true)
    (hend : ∀ k k', Beside ⟨some b.cell, some d, x.map Pointer.arrow, sure⟩ k k' →
      (k.peek d).isSome → k.pointer? p = some (.nullable (some b)) →
      Beside ⟨none, none, none, sure⟩
        (⟨k, [.adopt d p, .unshare s, .unlend d]⟩ : Machine α).settle.heap
        (⟨k', w⟩ : Machine α).settle.heap) :
    Machine.Matches p (m.heap.perform self (.assign dst src path)).machine
      ⟨(((g.acquire b.cell).2.poke d x).lend d).share s, [.release a'] ++ w⟩ := by
  rw [hr.perform_assign hne]
  have hclosing : ∀ t ∈ ([.adopt d p, .unshare s, .unlend d] : List (Task α)), t.isClosing = true := by
    simp [Task.isClosing]
  have hl := hr.lockstep hm ha hne hb hsure hcell x
  have hlast := hl.settle
  have hadopt : (.adopt d p : Task α) ∈ [.adopt d p, .unshare s, .unlend d] ++ m.tasks :=
    List.mem_cons_self
  obtain ⟨old, hold, -⟩ := hlast.guarded.sound.vacant _ (List.mem_append_right _ hadopt) d rfl
  exact hl.matches hclosing hw
    (hend _ _ hlast.paired.heap (Option.isSome_of_eq_some hold) hlast.source).alike

end Retarget

/-! ### Loans that end -/

theorem unshare_share (h : Heap α) : ∀ s : Place, (h.share s).unshare s = h
  | .var i => by
    show { h with vars := (h.vars.modify i _).modify i _ } = h
    rw [List.modify_modify_eq]
    exact congrArg (fun l => { h with vars := l }) (List.modify_id i h.vars)
  | .inside _ _ => rfl

theorem unlend_lend : ∀ {d : Place}, h.writable d = true → (h.lend d).unlend d = h
  | .var i, hd => by
    show { h with vars := (h.vars.modify i _).modify i _ } = h
    rw [List.modify_modify_eq]
    refine congrArg (fun l => { h with vars := l }) ?_
    cases hv : h.vars[i]? with
    | none => exact List.modify_eq_self (List.getElem?_eq_none_iff.mp hv)
    | some v =>
      have hwriter : v.writer = false := by
        simp only [writable, hv, Bool.and_eq_true, Bool.not_eq_true'] at hd
        exact hd.1
      exact modify_eq_self hv (by rw [← hwriter]; rfl)
  | .inside _ _, _ => rfl

namespace Retarget

variable (hr : Retarget m.heap self dst src path d s p a b) (hm : Moment n m)
  (ha : Acting self m.tasks)
include hr hm ha

omit ha in
/-- Equal identities are those of one target. -/
theorem cell_eq (heq : m.heap.identity (some a) = m.heap.identity (some b)) : a.cell = b.cell :=
  Option.some.inj ((hr.assignable.identity_eq_iff hm.apart hm.sound).mp heq)

/-- **To own the new target first is the same**, whether the pointers may be without target or
always have one. -/
theorem matches_switch (hb : Beside ⟨none, none, none, sure⟩ m.heap g)
    (hsure : ∀ i ∈ sure, .var i = d ∨ .var i = s)
    {q : Pointer} (hq : q.arrow = (Odds.mk none none none sure).arrow d (.nullable (some a))) {b' : Owner}
    (hcell : b'.cell = b.cell) :
    Machine.Matches p (m.heap.perform self (.assign dst src path)).machine (g.switch d s q b').machine := by
  obtain ⟨a', ha', hacell⟩ := Option.map_eq_some_iff.mp (Odds.cell_eq hq)
  have hold : g.identity q.owner? = m.heap.identity (some a) := hb.identity (Odds.cell_eq hq)
  have hnew : g.identity (some b') = m.heap.identity (some b) := hb.identity (congrArg some hcell)
  unfold switch
  rw [hold, hnew]
  by_cases heq : m.heap.identity (some a) = m.heap.identity (some b)
  · rw [if_pos heq, hr.perform_assign_of_eq heq]
    exact matches_of_quiet (ne_script_of_closing (by simp [Outcome.machine, reply]))
      (ne_script_of_closing (by simp [Outcome.machine, reply])) hb.alike
  · have hdiscard : Custody.Heap.discard (α := α) (some q) = [.release a'] := by
      simp only [Custody.Heap.discard, Option.bind_some, ha']
    rw [if_neg heq, hcell, hdiscard]
    refine hr.matches_of_end hm ha heq hb hsure hacell _ (by simp [Task.isClosing]) ?_
    intro k k' hk hd hp
    rw [settle_loans]
    exact hk.close (Odds.arrow_regain hq rfl) hd hp s

/-- Before the pointer that is replaced is dropped, it is missing, and its copy is one owner more. -/
theorem beside_copied (hfair : ∀ c v, m.heap.live? c = some v → Act.AllFair [] v.script) :
    Beside ⟨some b.cell, some d, d.vacated.map Pointer.arrow, []⟩ ((m.heap.lend d).share s)
      ((((m.heap.acquire b.cell).2.poke d d.vacated).lend d).share s) := by
  have hopen := ((beside_self hfair).acquire_right rfl b.cell).open_gap rfl (some (.nullable (some a)))
    d.vacated (hr.claimed_spec hm ha).outside
  rw [poke_eq_self (pointer?_eq_some hr.old)] at hopen
  exact (hopen.lend d).share s

omit ha in
theorem status_lent (hcell : a.cell = b.cell) :
    ((m.heap.lend d).share s).status b.cell = some .live := by
  rw [(samePointers_share _ s).status, (samePointers_lend _ d).status, ← hcell]
  exact hm.sound.live_of_ownerAt (ownerAt_eq_some.mpr ⟨_, hr.old, rfl⟩)

/-- So if the target is the same, the owner that is replaced is not the last. -/
theorem count_copied (hfair : ∀ c v, m.heap.live? c = some v → Act.AllFair [] v.script)
    (hcell : a.cell = b.cell) : ∃ n, (((((m.heap.acquire b.cell).2.poke d d.vacated).lend d).share
      s).count a.cell).owners = n + 2 := by
  have hlive := hr.status_lent hm hcell
  have hcount := (hr.beside_copied hm ha hfair).count_eq (ne_none_of_status hlive)
  rw [(samePointers_share _ s).status, (samePointers_lend _ d).status] at hlive
  have hpos : 0 < (m.heap.count b.cell).owners := (hm.sound.alive b.cell).mpr hlive
  simp only [if_true, count_share, count_lend] at hcount
  simp only [count_share, count_lend]
  rw [hcell, hcount]
  exact ⟨(m.heap.count b.cell).owners - 1, by omega⟩

/-- And in the end all is as it was. -/
theorem beside_replaced (hfair : ∀ c v, m.heap.live? c = some v → Act.AllFair [] v.script)
    (hcell : a.cell = b.cell) : Beside ⟨none, none, none, []⟩ m.heap
      ((((((((m.heap.acquire b.cell).2.poke d d.vacated).lend d).share s).signOff a).2.poke d
        (some (.nullable (some (m.heap.acquire b.cell).1)))).unshare s).unlend d) := by
  have hpeek : ((m.heap.lend d).share s).peek d = some (some (.nullable (some a))) := by
    rw [(samePointers_share _ s).peek d, (samePointers_lend _ d).peek d]
    exact pointer?_eq_some hr.old
  have hsame : (some (Pointer.nullable (some a))).map ((Odds.mk none (some d) none []).arrow d) =
      some (.nullable (some b.cell)) := by
    rw [← hcell]
    cases d <;> simp [Odds.arrow, Pointer.arrow]
  have hcells : ((m.heap.lend d).share s).cells[a.cell]? ≠ none := by
    rw [hcell]
    exact ne_none_of_status (hr.status_lent hm hcell)
  have hgone := (hr.beside_copied hm ha hfair).signOff_right (o := a) (by rw [hcell]) hcells
  have hfilled := hgone.fill_gap rfl (Option.isSome_of_eq_some hpeek)
    (some (.nullable (some (m.heap.acquire b.cell).1)))
  have hclosed := hfilled.close_gap rfl hsame (fun _ _ _ => ⟨_, rfl⟩) (Option.isSome_of_eq_some hpeek)
  rw [poke_eq_self hpeek] at hclosed
  have hend := (hclosed.unshare s).unlend d
  rwa [unshare_share, unlend_lend (hr.claimed_spec hm ha).writable] at hend

theorem matches_replace_same (hfair : ∀ c v, m.heap.live? c = some v → Act.AllFair [] v.script)
    (heq : m.heap.identity (some a) = m.heap.identity (some b)) :
    Machine.Matches p (m.heap.perform self (.assign dst src path)).machine
      (m.heap.perform self (.replace dst src path)).machine := by
  have hcell := hr.cell_eq hm heq
  obtain ⟨n, hn⟩ := hr.count_copied hm ha hfair hcell
  have hsettle : ∀ w, (⟨_, .release a :: w⟩ : Machine α).settle = _ := fun w => by
    rw [settle_step (by simp), step_release hn]
  rw [hr.perform_assign_of_eq heq, hr.perform_replace]
  refine matches_of_quiet (ne_script_of_closing (by simp [Outcome.machine, reply]))
    (ne_script_of_release hn (by simp [Task.isClosing])) ?_
  show m.heap.Alike (Machine.settle ⟨_, .release a :: [.place d _, .unshare s, .unlend d]⟩).heap
  rw [hsettle, settle_place]
  exact (hr.beside_replaced hm ha hfair hcell).alike

/-- **To replace the pointer by a copy is the same.** -/
theorem matches_replace (hfair : ∀ c v, m.heap.live? c = some v → Act.AllFair [] v.script) :
    Machine.Matches p (m.heap.perform self (.assign dst src path)).machine
      (m.heap.perform self (.replace dst src path)).machine := by
  by_cases heq : m.heap.identity (some a) = m.heap.identity (some b)
  · exact hr.matches_replace_same hm ha hfair heq
  · rw [hr.perform_replace]
    refine hr.matches_of_end hm ha heq (beside_self hfair) (by simp) rfl _ (by simp [Task.isClosing]) ?_
    intro k k' hk hd hp
    rw [settle_place]
    have hfilled : Beside ⟨some b.cell, some d, some (.nullable (some b.cell)), []⟩ k _ :=
      hk.fill_gap rfl hd (some (.nullable (some (m.heap.acquire b.cell).1)))
    exact hfilled.close (Odds.Plain.arrow ⟨by simp, by simp⟩ _) hd hp s

end Retarget

/-! ### Pointers that always have targets -/

/-- A variable with a pointer that always has a target has the same target. -/
theorem notNull_of_sure {D : Odds} {i : Nat} (hi : i ∈ D.sure) {q : Pointer} {o : Owner}
    (hq : q.arrow = D.arrow (.var i) (.nullable (some o))) : ∃ o', q = .notNull o' ∧ o'.cell = o.cell := by
  have harrow : q.arrow = .notNull o.cell := hq.trans (if_pos hi)
  rcases q with o' | o' | o'
  · simp [Pointer.arrow] at harrow
  · exact ⟨o', rfl, by simpa [Pointer.arrow] using harrow⟩
  · simp [Pointer.arrow] at harrow

/-- **The pointer in a variable that always has a target is assigned to so.** -/
theorem Retarget.perform_asNotNull {i j : Nat} (hr : Retarget h self (.var i) (.var j) path d s p a b)
    (hpath : path = []) (hfair : ∀ c v, h.live? c = some v → Act.AllFair [i, j] v.script) :
    ∃ a' b', (h.asNotNull [i, j]).perform self (.assign (.var i) (.var j) path) =
      (h.asNotNull [i, j]).switch d s (.notNull a') b' ∧ d = .var i ∧ s = .var j ∧
      a'.cell = a.cell ∧ b'.cell = b.cell := by
  have hb := beside_asNotNull hfair
  obtain rfl : Place.var i = d := by simpa [place?] using (claim_eq_ok hr.claimed).1
  obtain rfl : Place.var j = s := by simpa [place?] using view_eq_place (view_of_find hr.found)
  subst hpath
  obtain rfl : p = .var j := eq_of_walk_nil (find_eq_ok hr.found).2.2.1
  have hclaim := (hb.claim self (.var i)).trans hr.claimed
  have hview : ∀ q, h.view self (.var j) = .ok q → (Odds.mk none none none [i, j]).gap ≠ some q := by
    simp
  rcases hb.find_cases [] hview with
    ⟨e, he, -⟩ | ⟨root, q, x, x', hf, hf', -, harrow⟩
  · simp [hr.found] at he
  obtain ⟨rfl, rfl, rfl⟩ : root = .var j ∧ q = .var j ∧ x = .nullable (some b) := by
    simpa [hr.found, eq_comm] using hf
  obtain ⟨b', rfl, hbcell⟩ := notNull_of_sure (by simp) harrow
  rcases map_cases (hb.pointer? (p := .var i) (by simp)) with ⟨hnone, -⟩ | ⟨y, y', hy, hy', harrow'⟩
  · simp [hr.old] at hnone
  obtain rfl : Pointer.nullable (some a) = y := Option.some.inj (hr.old.symm.trans hy)
  obtain ⟨a', rfl, hacell⟩ := notNull_of_sure (by simp) harrow'
  exact ⟨a', b', perform_assign_notNull hclaim hf' hr.apart hy', rfl, rfl, hacell, hbcell⟩

/-! ### All ways -/

theorem Retarget.answer_assign (hr : Retarget h self dst src path d s p a b) :
    (h.perform self (.assign dst src path)).answer = .done := by
  by_cases heq : h.identity (some a) = h.identity (some b)
  · rw [hr.perform_assign_of_eq heq]
    rfl
  · rw [hr.perform_assign heq]

theorem switch_answer (h : Heap α) (d s : Place) (q : Pointer) (b : Owner) :
    (h.switch d s q b).answer = .done := by
  unfold switch
  split
  · rfl
  · rfl

/-- **All ways of retargeting agree.** At any moment, whoever acts, a pointer with a target that
may be changed is given the target of another one: it may be assigned to as one that gives up
its target first, or be replaced by a copy, or own the new target first; and if both pointers
are in variables that no destructor copies from, they may be ones that always have targets. If
no destructor gives up, or chooses anything from whether a pointer is the only owner of its target,
it all comes to the same. -/
theorem Moment.retargets_agree (hm : Moment n m) (ha : Acting self m.tasks)
    (hr : Retarget m.heap self dst src path d s p a b)
    (hfair : ∀ c v, m.heap.live? c = some v → Act.AllFair [] v.script) :
    (m.heap.perform self (.assign dst src path)).Matches p
      (m.heap.perform self (.replace dst src path)) ∧
    (m.heap.perform self (.assign dst src path)).Matches p
      (m.heap.switch d s (.nullable (some a)) b) ∧
    ∀ i j, dst = .var i → src = .var j → path = [] →
      (∀ c v, m.heap.live? c = some v → Act.AllFair [i, j] v.script) →
      (m.heap.perform self (.assign dst src path)).Matches p
        ((m.heap.asNotNull [i, j]).perform self (.assign dst src path)) := by
  have hanswer := hr.answer_assign
  refine ⟨⟨?_, hr.matches_replace hm ha hfair⟩, ⟨?_, ?_⟩, ?_⟩
  · rw [hanswer, hr.perform_replace]
  · rw [hanswer, switch_answer]
  · exact hr.matches_switch hm ha (beside_self hfair) (by simp)
      (Odds.Plain.arrow ⟨by simp, by simp⟩ _).symm rfl
  · rintro i j rfl rfl hpath hsure
    obtain ⟨a', b', hperform, hd, hs, hacell, hbcell⟩ := hr.perform_asNotNull hpath hsure
    rw [hperform]
    refine ⟨by rw [hanswer, switch_answer], ?_⟩
    refine hr.matches_switch hm ha (beside_asNotNull hsure) ?_ ?_ hbcell
    · intro k hk
      rcases List.mem_pair.mp hk with rfl | rfl
      · exact .inl hd.symm
      · exact .inr hs.symm
    · rw [hd]
      show Arrow.notNull a'.cell = if i ∈ [i, j] then Arrow.notNull a.cell else _
      rw [if_pos List.mem_cons_self, hacell]

/-! ### A destructor that asks

The old target owns the new one too. Its destructor gives that up, and asks whether the pointer
that is copied is now the only owner: it is if that pointer has not been copied yet. -/

/-- A destructor that clears its first field, records whether the pointer in the first variable
is the only owner of its target, and changes what the one in the third leads to. -/
def curious : List (Act Nat) :=
  [.clear (.own (.field 0)), .ask (.isUnique (.var 0) []), .report fun _ => "",
    .update (.var 2) [] (· + 1)]

/-- The pointer in the first variable shares its target with the field of a value with that
destructor, and the one in the second is the only owner of that value. -/
def curiousHeap : Heap Nat :=
  [.make (.var 0) .nullable 1 [] [] [] 8, .clone (.var 0) [] (.var 3),
    .make (.var 2) .nullable 3 [] [] [] 40, .make (.var 1) .nullable 2 curious [some (.var 3)] [] 24].foldl
    (fun h a => (h.exec (.act a)).1) (.empty 4)

theorem curiousHeap_moment : Moment 4 (⟨curiousHeap, []⟩ : Machine Nat) :=
  (((Moment.empty.exec _).exec _).exec _).exec _

theorem curiousHeap_fair {is : List Nat} : ∀ c v, curiousHeap.live? c = some v → Act.AllFair is v.script
  | 0, v, hv => by
    obtain rfl : (⟨1, [], [], []⟩ : Value Nat) = v := Option.some.inj hv
    trivial
  | 1, v, hv => by
    obtain rfl : (⟨3, [], [], []⟩ : Value Nat) = v := Option.some.inj hv
    trivial
  | 2, v, hv => by
    obtain rfl : (⟨2, curious, [some ⟨0, ⟨0, 1⟩⟩], []⟩ : Value Nat) = v := Option.some.inj hv
    simp [curious, Act.AllFair, Act.Fair, Act.copied?]
  | c + 3, v, hv => by
    have hnone : curiousHeap.live? (c + 3) = none := rfl
    simp [hnone] at hv

theorem curiousHeap_agrees :
    (curiousHeap.perform none (.assign (.var 1) (.var 0) [])).machine.settle.heap.log.filter
        Event.isTold = [.freed 2, .reported 2 (.unique true) "", .destroyed 2 2] ∧
    (curiousHeap.perform none (.replace (.var 1) (.var 0) [])).machine.settle.heap.log.filter
        Event.isTold = [.freed 2, .reported 2 (.unique false) "", .destroyed 2 2] ∧
    (curiousHeap.perform none (.assign (.var 1) (.var 0) [])).Matches (.var 0)
      (curiousHeap.perform none (.replace (.var 1) (.var 0) [])) ∧
    (curiousHeap.perform none (.assign (.var 1) (.var 0) [])).Matches (.var 0)
      ((curiousHeap.asNotNull [1, 0]).perform none (.assign (.var 1) (.var 0) [])) := by
  have hretarget : Retarget curiousHeap none (.var 1) (.var 0) [] (.var 1) (.var 0) (.var 0)
      ⟨2, ⟨2, 3⟩⟩ ⟨0, ⟨0, 0⟩⟩ := ⟨rfl, rfl, by decide, rfl⟩
  have hagree := Moment.retargets_agree curiousHeap_moment (by rintro c ⟨⟩) hretarget curiousHeap_fair
  exact ⟨rfl, rfl, hagree.1, hagree.2.2 1 0 rfl rfl rfl curiousHeap_fair⟩

end Custody.Heap
