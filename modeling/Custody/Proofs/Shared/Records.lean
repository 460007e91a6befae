/-
# The records of requests are true

A request is refused at first if somebody is in its way, and only then is it recorded that it
waits. Whether it is let in at once or after it has waited, there is one handle more for it, of
the kind and on the cell that it asks for, which holds the lock as such handles do. Where there
is no lock nobody is refused, and nothing but a request takes a lock.

Key definitions: `World.Hears`, `World.docketRun`.
Key theorems: `Docketed.hears`, `Docketed.lockFree`, `Docketed.records_tell`.
-/
import Custody.Proofs.Shared.Docket
import Custody.Proofs.Shared.Quiet

namespace Custody.Shared

variable {α : Type} {w : World α} {P : Policy} {s : World.Step α} {r : Request} {t : ThreadId}
  {c : CellId} {k : HandleKind}

/-! ### What is granted -/

/-- What a step does, seen from the requests: who is refused and who is let in, and what those have
then who are. -/
structure World.Hears (P : Policy) (w : World α) (D : List Petition) (s : World.Step α) : Prop where
  /-- Who asks, asks for what the requester has; at the first attempt he is refused if somebody is in
  the way, and let in if not. -/
  first : ∀ t name access n r, s = .attempt t name access n → w.isBlocked t = false →
    w.asked? s = some r → r.thread = t ∧ r.name = n ∧ w.requesters.get? name = some r.cell ∧
      (w.flavour? r.cell).bind (·.handle? access) = some r.kind ∧
      (∃ refused, w.docket s D = D ++ [⟨t, n, r.cell, r.kind, refused, !refused⟩] ∧
        (refused = true ↔ w.Barred r.cell r.kind)) ∧
      ((w.step P s).2 = .contended ↔ w.Barred r.cell r.kind) ∧
      ((w.step P s).2 = .granted ↔ ¬ w.Barred r.cell r.kind)
  /-- Who asks again is let in if nobody is in the way but those who wait as well. -/
  again : ∀ r ∈ w.requests, s = r.again →
    ((w.step P s).2 = .granted ↔ ¬ (w.withdraw r).Barred r.cell r.kind)
  /-- Who is let in has one handle more, of the kind and on the cell that were asked for, which holds
  the lock, and no request any more. -/
  granted : (w.step P s).2 = .granted → ∃ r, w.asked? s = some r ∧
    (∀ key, (w.step P s).1.handles.get? key =
      if key = (r.thread, r.name) then some ⟨r.kind, some r.cell⟩ else w.handles.get? key) ∧
    (∀ cell, (w.step P s).1.cells[r.cell]? = some cell → cell.hold.HeldAs r.kind.demand?) ∧
    (w.step P s).1.isBlocked r.thread = false ∧
    (w.docket s D).countP (·.granted) = D.countP (·.granted) + 1
  /-- Nobody else has access who had none, or takes a lock. -/
  refused : (w.step P s).2 ≠ .granted → w.Loosens (w.step P s).1 ∧
    (∀ key h, (w.step P s).1.handles.get? key = some h → h.isValid = true →
      ∃ key', w.handles.get? key' = some h) ∧
    (w.docket s D).countP (·.granted) = D.countP (·.granted)
  /-- Nothing is recorded of anything else. -/
  silent : s.asks = false → w.docket s D = D ∧ ∀ t, (w.step P s).1.records t = w.records t

section hears

variable {D : List Petition}

theorem asked_again (hw : w.Reachable) (hr : r ∈ w.requests) :
    w.asked? (r.again : World.Step α) = some r := by
  have hrequest := hw.request?_eq hr
  unfold Request.again
  cases hphase : r.phase <;> rw [hphase] at hrequest <;> exact hrequest

theorem countP_map_serve (t : ThreadId) (D : List Petition) :
    (D.map (Petition.serve t)).countP (·.granted) =
      D.countP (·.granted) + (D.filter (·.thread = t)).countP (!·.granted) := by
  induction D with
  | nil => rfl
  | cons p D ih =>
    rw [List.map_cons, List.countP_cons, List.countP_cons, List.filter_cons, ih]
    unfold Petition.serve
    by_cases ht : p.thread = t <;> cases hg : p.granted <;>
      simp only [ht, hg, if_true, if_false, decide_true, decide_false, Bool.false_eq_true,
        List.countP_cons, Bool.not_false, Bool.not_true] <;> omega

/-- A request that is granted after it was refused is one more that is. -/
theorem countP_serve (hst : w.Standing r.thread (D.filter (·.thread = r.thread)))
    (hr : r ∈ w.requests) :
    (D.map (Petition.serve r.thread)).countP (·.granted) = D.countP (·.granted) + 1 := by
  obtain ⟨-, qs, p, hps, hqs, -, -, hopen⟩ := hst.of_mem hr
  have hnone : qs.countP (!·.granted) = 0 := by
    rw [List.countP_eq_zero]
    intro q hq
    simp [hqs q hq]
  rw [countP_map_serve, hps, List.countP_append, hnone]
  simp [hopen]

theorem granted_handles (hr : w.asked? s = some r) (hg : (w.step P s).2 = .granted) (key : HandleKey) :
    (w.step P s).1.handles.get? key =
      if key = (r.thread, r.name) then some ⟨r.kind, some r.cell⟩ else w.handles.get? key := by
  rw [step_handles P w s, deed_of_granted hg, hr, Option.elim_some, Deed.apply, Table.get?_put]

/-- A handle that has access after a step that grants nothing had it before. -/
theorem valid_of_not_granted (hnot : (w.step P s).2 ≠ .granted) {key : HandleKey} {h : Handle}
    (hh : (w.step P s).1.handles.get? key = some h) (hvalid : h.isValid = true) :
    ∃ key', w.handles.get? key' = some h := by
  rcases step_origin hh with ⟨key', h₀, gone, hh₀, -, rfl⟩ | hborn
  · cases gone with
    | false => exact ⟨key', hh₀⟩
    | true => cases hvalid
  · cases born_of_deed hborn with
    | granted hg _ => exact absurd hg hnot
    | taken _ hh₀ => exact ⟨_, hh₀⟩

theorem attempt_ne_again {name : String} {access : Access} {n : HandleName} :
    (.attempt t name access n : World.Step α) ≠ r.again := by
  unfold Request.again
  cases r.phase <;> simp

theorem World.Docketed.hears_first (hw : w.Docketed D) (hP : P.Exact) {name : String}
    {access : Access} {n : HandleName} (hfree : w.isBlocked t = false)
    (hr : w.asked? (.attempt t name access n) = some r) :
    r.thread = t ∧ r.name = n ∧ w.requesters.get? name = some r.cell ∧
      (w.flavour? r.cell).bind (·.handle? access) = some r.kind ∧
      (∃ refused, w.docket (.attempt t name access n) D =
          D ++ [⟨t, n, r.cell, r.kind, refused, !refused⟩] ∧
        (refused = true ↔ w.Barred r.cell r.kind)) ∧
      ((w.step P (.attempt t name access n)).2 = .contended ↔ w.Barred r.cell r.kind) ∧
      ((w.step P (.attempt t name access n)).2 = .granted ↔ ¬ w.Barred r.cell r.kind) := by
  obtain ⟨cell, hcell⟩ := hw.reachable.cell_of_asked hr
  have hadmits := hw.reachable.admits_iff hP rfl rfl hcell r.kind
  have htries := step_tries P hr
  have hdocket := docket_of_attempt hr rfl hfree D
  have hbarred : w.barred r.cell r.kind = true ↔ w.Barred r.cell r.kind :=
    World.barred_iff hw.reachable.sound.handles
  obtain ⟨c, hc, hkind⟩ := Option.bind_eq_some_iff.mp hr
  obtain ⟨k, hk, rfl⟩ := Option.map_eq_some_iff.mp hkind
  refine ⟨rfl, rfl, hc, hk, ⟨_, hdocket, hbarred⟩, ?_⟩
  cases htries with
  | blocked _ hblocked _ => simp [hfree] at hblocked
  | enters _ _ hyes hstep =>
    rw [hstep]
    have hnot := hadmits.mp hyes
    exact ⟨by simp [hnot], by simp [hnot]⟩
  | contends _ _ hno _ hstep =>
    rw [hstep]
    have hin : w.Barred c k := by
      rw [hno] at hadmits
      simpa using hadmits
    exact ⟨by simp [hin], by simp [hin]⟩
  | entersLater hs | queues hs | waits hs => exact absurd hs attempt_ne_again

theorem World.Docketed.hears_again (hw : w.Docketed D) (hP : P.Exact) (hr : r ∈ w.requests) :
    (w.step P r.again).2 = .granted ↔ ¬ (w.withdraw r).Barred r.cell r.kind := by
  have hasked := asked_again hw.reachable hr
  obtain ⟨cell, hcell⟩ := hw.reachable.cell_of_asked hasked
  rw [← hw.reachable.admits_iff hP (v := w.withdraw r) rfl rfl hcell r.kind]
  cases step_tries P hasked with
  | blocked hs | enters hs | contends hs => exact absurd hs.symm attempt_ne_again
  | entersLater _ _ hadmits hstep => simp [hstep, hadmits]
  | queues _ _ hadmits _ hstep => simp [hstep, hadmits]
  | waits _ _ hadmits _ hstep => simp [hstep, hadmits]

theorem World.Docketed.countP_of_granted (hw : w.Docketed D) (hP : P.Exact)
    (hr : w.asked? s = some r) (hg : (w.step P s).2 = .granted) :
    (w.docket s D).countP (·.granted) = D.countP (·.granted) + 1 := by
  obtain ⟨hfirst, hlater⟩ := hw.reachable.barred_asked hP hr
  rcases step_granted hr hg with ⟨⟨name, access, hs⟩, hfree, hadmits, -⟩ | ⟨hs, hmem, hadmits, -⟩
  · rw [docket_of_attempt hr (by rw [hs]; rfl) hfree, hfirst, hadmits, List.countP_append]
    rfl
  · rw [docket_of_again hr hs, hlater, hadmits]
    exact countP_serve (hw.accounts r.thread).standing hmem

/-- A thread whose request is granted has no other. -/
theorem World.Docketed.free_of_granted (hw : w.Docketed D) (hr : w.asked? s = some r)
    (hg : (w.step P s).2 = .granted) : (w.step P s).1.isBlocked r.thread = false := by
  have hnone : (w.step P s).1.requests.filter (·.thread = r.thread) = [] := by
    rcases step_granted hr hg with ⟨-, hfree, -, hstep⟩ | ⟨-, hmem, -, hstep⟩
    · rw [hstep, (sameRefs_letIn _ _ _ _ _).requests]
      exact filter_of_free hfree
    · rw [hstep, (sameRefs_letIn _ _ _ _ _).requests]
      obtain ⟨hone, -⟩ := (hw.accounts r.thread).standing.of_mem hmem
      show (w.requests.erase r).filter (·.thread = r.thread) = []
      rw [← List.erase_filter, hone]
      simp
  rw [← Bool.not_eq_true, isBlocked_iff]
  rintro ⟨r', hmem, ht⟩
  exact List.filter_eq_nil_iff.mp hnone r' hmem (by simpa using ht)

theorem World.Docketed.countP_of_not_granted (hw : w.Docketed D) (hP : P.Exact)
    (hnot : (w.step P s).2 ≠ .granted) :
    (w.docket s D).countP (·.granted) = D.countP (·.granted) := by
  cases hr : w.asked? s with
  | none => rw [docket_of_unasked hr]
  | some r =>
    obtain ⟨hfirst, hlater⟩ := hw.reachable.barred_asked hP hr
    cases step_tries P hr with
    | blocked hs hblocked _ => rw [docket_of_blocked (by rw [hs]; rfl) hblocked]
    | contends hs hfree hadmits _ _ =>
      rw [docket_of_attempt hr (by rw [hs]; rfl) hfree, hfirst, hadmits, List.countP_append]
      rfl
    | queues hs _ hadmits _ _ | waits hs _ hadmits _ _ =>
      rw [docket_of_again hr hs, hlater, hadmits]
      rfl
    | enters _ _ _ hstep | entersLater _ _ _ hstep =>
      rw [hstep] at hnot
      exact absurd rfl hnot

theorem World.Docketed.hears (hw : w.Docketed D) (hP : P.Exact) (s : World.Step α) :
    w.Hears P D s where
  first t name access n r hs hfree hr := by
    subst hs
    exact hw.hears_first hP hfree hr
  again r hr hs := by
    subst hs
    exact hw.hears_again hP hr
  granted hg := by
    obtain ⟨r, hr⟩ := asked_of_granted hg
    have hhandles := granted_handles hr hg
    refine ⟨r, hr, hhandles, fun cell hc => ?_, hw.free_of_granted hr hg,
      hw.countP_of_granted hP hr hg⟩
    have hh : (w.step P s).1.handles.get? (r.thread, r.name) = some ⟨r.kind, some r.cell⟩ := by
      rw [hhandles, if_pos rfl]
    exact (hw.reachable.step P s).heldAs hc hh rfl
  refused hnot :=
    ⟨step_loosens hnot, fun _ _ hh hvalid => valid_of_not_granted hnot hh hvalid,
      hw.countP_of_not_granted hP hnot⟩
  silent hs := ⟨docket_of_not_asks hs D, (step_calm P w hs).records⟩

/-- Nobody is in the way of who needs no lock. -/
theorem barred_of_lockFree (w : World α) (c : CellId) (hd : k.demand? = none) :
    w.barred c k = false := by
  have hx : ∀ k' : HandleKind, k'.excludes k = false := by
    intro k'
    unfold HandleKind.excludes
    rw [hd]
    cases k'.demand? <;> rfl
  unfold World.barred
  simp [hx, hd]

/-- **No request for what has no lock is refused**, and each is granted at once. -/
theorem World.Docketed.lockFree (hw : w.Docketed D) :
    ∀ p ∈ D, p.kind.demand? = none → p.refused = false ∧ p.granted = true := by
  induction hw with
  | empty => simp
  | @step w D P hP s hw ih =>
    intro p hp hd
    unfold World.docket at hp
    split at hp
    · exact ih p hp hd
    · split at hp
      · split at hp
        · exact ih p hp hd
        · rcases List.mem_append.mp hp with hp | hp
          · exact ih p hp hd
          · obtain rfl := List.mem_singleton.mp hp
            exact ⟨barred_of_lockFree w _ hd, congrArg not (barred_of_lockFree w _ hd)⟩
      · split at hp
        · exact ih p hp hd
        · obtain ⟨q, hq, rfl⟩ := List.mem_map.mp hp
          rw [Petition.kind_serve] at hd
          have hq := ih q hq hd
          rwa [Petition.serve_of_granted hq.2]

/-- Handles of cells that have no lock need none. -/
theorem demand?_of_lockFree {f : Flavour} {access : Access}
    (hf : f = .immutable ∨ f = .uncheckedImmutable) (hk : f.handle? access = some k) :
    k.demand? = none := by
  rcases hf with rfl | rfl <;> cases access <;> cases hk <;> rfl

/-- **The records of requests are true**, and it makes no difference to a request whether it had to
wait. In whatever order threads take turns, what is recorded of the requests of a thread is
what became of them: of each that was refused at first that it waits, and after that of each
that was granted that it is. It is refused if somebody is in its way and not otherwise, and never
where there is no lock. One that is granted has one handle for it, of its kind, on its cell
and with the lock held accordingly. Nothing else takes a lock, or is recorded of a request; who
only looks at requesters and handles changes nothing. And the log has a line of a wait for
what is recorded as one, and for nothing else. -/
theorem World.Docketed.records_tell (hw : w.Docketed D) :
    (∀ t, w.records t = (D.filter (·.thread = t)).flatMap Petition.records ∧
      w.Standing t (D.filter (·.thread = t))) ∧
    (∀ P, P.Exact → ∀ s, w.Hears P D s) ∧
    (∀ p ∈ D, p.kind.demand? = none → p.refused = false ∧ p.granted = true) ∧
    (∀ (f : Flavour) access k c, f = .immutable ∨ f = .uncheckedImmutable →
      f.handle? access = some k → ¬ w.Barred c k) ∧
    (∀ shape S m, m.textAt "o" ∉ Session.askers → Session.CalmResult S (Session.result shape S m)) ∧
    (∀ shape S m, m.textAt "o" ∈ Session.lookers →
      Session.Leaves (Session.result shape S m) (· = S)) ∧
    ∀ shape e k, Session.logLine? shape e = some (Session.contendedLine k) ↔
      ∃ t c k', e = .contended t c k' ∧ k'.accessName = k.accessName := by
  refine ⟨fun t => ?_, fun P hP s => hw.hears hP s, hw.lockFree, fun f access k c hf hk => ?_,
    fun shape S m ho => Session.result_calm ho, fun shape S m ho => Session.result_of_looker ho,
    fun shape e k => Session.logLine?_eq_iff e k⟩
  · obtain ⟨hrecords, hstanding⟩ := hw.accounts t
    exact ⟨hrecords, hstanding⟩
  · rw [← World.barred_iff hw.reachable.sound.handles,
      barred_of_lockFree w c (demand?_of_lockFree hf hk)]
    simp

end hears

/-- The world and its docket after some steps. -/
def World.docketRun (P : Policy) : List (World.Step α) → World α × List Petition →
    World α × List Petition
  | [], o => o
  | s :: ss, (w, D) => docketRun P ss ((w.step P s).1, w.docket s D)

theorem World.Docketed.run (hP : P.Exact) : ∀ (ss : List (World.Step α)) {w : World α}
    {D : List Petition}, w.Docketed D → (World.docketRun P ss (w, D)).1.Docketed
      (World.docketRun P ss (w, D)).2
  | [], _, _, hw => hw
  | s :: ss, _, _, hw => World.Docketed.run hP ss (.step hP s hw)

/-- A reader waits for a writer, and is let in after it; a second writer waits for the reader still,
and a second reader for the second writer. What has no lock is read meanwhile. -/
def queue : World Nat × List Petition :=
  World.docketRun .taskFair
    [.create "a" .readWrite 7 1, .create "b" .immutable 5 2, .attempt 0 "a" .write (.named "h"),
      .attempt 1 "a" .read (.named "h"), .attempt 0 "b" .read (.named "k"), .block 1,
      .release 0 (.named "h"), .grant 1, .attempt 2 "a" .write (.named "h"), .block 2,
      .attempt 3 "a" .read (.named "h")]
    (.empty, [])

theorem queue_records :
    queue.1.records 0 = [.granted 0 .write, .granted 1 .immutable] ∧
    queue.1.records 1 = [.contended 0 .read, .granted 0 .read] ∧
    queue.1.records 2 = [.contended 0 .write] ∧
    queue.1.records 3 = [.contended 0 .read] ∧
    (queue.1.step .taskFair (.attempt 4 "b" .read (.named "h"))).2 = .granted ∧
    (queue.1.step .taskFair (.attempt 4 "a" .read (.named "h"))).2 = .contended := by
  have htell := World.Docketed.records_tell (.run taskFair_exact _ .empty : queue.1.Docketed queue.2)
  have hears := htell.2.1 _ taskFair_exact
  refine ⟨(htell.1 0).1.trans rfl, (htell.1 1).1.trans rfl, (htell.1 2).1.trans rfl,
    (htell.1 3).1.trans rfl, ?_, ?_⟩
  · have hfirst := (hears _).first 4 "b" .read (.named "h") _ rfl rfl rfl
    exact hfirst.2.2.2.2.2.2.mpr (htell.2.2.2.1 .immutable .read .immutable 1 (.inl rfl) rfl)
  · have hfirst := (hears _).first 4 "a" .read (.named "h") _ rfl rfl rfl
    refine hfirst.2.2.2.2.2.1.mpr (.inr ⟨rfl, ⟨2, .named "h", 0, .write, .waiting⟩, ?_⟩)
    decide

end Custody.Shared
