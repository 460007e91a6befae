/-
# A docket of requests

Under the policy that lets in a writer if nobody holds the lock, and a reader if no writer holds it
or waits for it, a request is let in if and only if no locked handle is in its way and, if
it reads, no writer waits. A docket is kept beside a run, of all requests that are made: by the
handles and the requests that are there, and without a look at the locks, it says whether they
were refused at first, and whether they were granted since. What a thread has on record is
just what the docket says of its requests.

Key definitions: `Policy.Exact`, `World.Barred`, `Petition`, `World.docket`, `World.Docketed`.
Key theorems: `Reachable.admits_iff`, `Accounts.step`, `Docketed.accounts`.
-/
import Custody.Proofs.Shared.Calm
import Custody.Proofs.Shared.Deadlock

namespace Custody.Shared

variable {α : Type} {w : World α} {P : Policy} {s : World.Step α} {r : Request} {t : ThreadId}
  {c : CellId} {cell : Cell α} {k : HandleKind}

/-! ### Who is in the way -/

/-- The policy lets a reader in if and only if no writer holds the lock or waits for it, and a writer
if and only if nobody holds it. -/
structure Policy.Exact (P : Policy) : Prop where
  readers : P.HoldsBackReaders
  writers : ∀ h waiting, P.admits h waiting .exclusive = true ↔ h.allows .exclusive = true

theorem taskFair_exact : Policy.taskFair.Exact :=
  ⟨taskFair_holdsBackReaders, fun _ _ => Iff.rfl⟩

/-- Whether a locked handle is in the way of who wants such a handle on that cell, or, if that one
only reads, a writer waits. -/
def World.Barred (w : World α) (c : CellId) (k : HandleKind) : Prop :=
  (∃ key h, w.handles.get? key = some h ∧ h.grant = some c ∧ h.kind.excludes k = true) ∨
    k.demand? = some .shared ∧
      ∃ r ∈ w.requests, r.cell = c ∧ r.phase = .waiting ∧ r.kind.demand? = some .exclusive

/-- The same, to be evaluated. -/
def World.barred (w : World α) (c : CellId) (k : HandleKind) : Bool :=
  (w.handles.values.any fun h => h.grant = some c && h.kind.excludes k) ||
    k.demand? = some .shared && w.requests.any fun r =>
      r.cell = c && r.phase = .waiting && r.kind.demand? = some .exclusive

theorem World.barred_iff (hk : w.handles.keys.Nodup) : w.barred c k = true ↔ w.Barred c k := by
  have hhandles : (w.handles.values.any fun h => h.grant = some c && h.kind.excludes k) = true ↔
      ∃ key h, w.handles.get? key = some h ∧ h.grant = some c ∧ h.kind.excludes k = true := by
    rw [List.any_eq_true]
    constructor
    · rintro ⟨h, hh, hx⟩
      obtain ⟨key, hkey⟩ := Table.exists_get?_of_mem hk hh
      obtain ⟨hg, hx⟩ : h.grant = some c ∧ h.kind.excludes k = true := by simpa using hx
      exact ⟨key, h, hkey, hg, hx⟩
    · rintro ⟨key, h, hh, hg, hx⟩
      exact ⟨h, Table.mem_values_of_get? hh, by simp [hg, hx]⟩
  unfold World.barred World.Barred
  rw [Bool.or_eq_true, hhandles]
  simp [and_assoc]

theorem mem_waiting : .exclusive ∈ w.waiting c ↔
    ∃ r ∈ w.requests, r.cell = c ∧ r.phase = .waiting ∧ r.kind.demand? = some .exclusive := by
  simp [World.waiting, and_assoc]

/-- A lock that is held exclusively is held by a handle. -/
theorem World.Reachable.exists_of_exclusive (hw : w.Reachable) (hc : w.cells[c]? = some cell)
    (hhold : cell.hold = .exclusive) :
    ∃ key h, w.handles.get? key = some h ∧ h.grant = some c ∧ h.kind.demand? = some .exclusive := by
  have hone := ((hw.hold_fits hc).exclusive_iff.mp hhold).1
  rw [holders_eq, List.countP_nil, Nat.add_zero] at hone
  obtain ⟨h, hh, hholds⟩ := List.countP_pos_iff.mp (hone ▸ Nat.one_pos)
  obtain ⟨key, hkey⟩ := Table.exists_get?_of_mem hw.sound.handles hh
  obtain ⟨hg, hd⟩ : h.grant = some c ∧ h.kind.demand? = some .exclusive := by
    simpa [Handle.holds] using hholds
  exact ⟨key, h, hkey, hg, hd⟩

section admits

variable {v : World α}

theorem World.Reachable.admits_exclusive_iff (hw : w.Reachable) (hhandles : v.handles = w.handles)
    (hc : w.cells[c]? = some cell) (hd : k.demand? = some .exclusive) :
    cell.hold.allows .exclusive = true ↔ ¬ v.Barred c k := by
  constructor
  · intro hallows hb
    have hfree : cell.hold = .free := by
      cases hhold : cell.hold <;> rw [hhold] at hallows <;> first | rfl | cases hallows
    rcases hb with ⟨key, h, hh, hg, hx⟩ | ⟨hs, -⟩
    · obtain ⟨d, -, hdh, -, -⟩ := HandleKind.excludes_iff.mp hx
      have hnone := (hw.free_iff hc).mp hfree key h (by rw [← hhandles, hh]) hg
      simp [hdh] at hnone
    · simp [hd] at hs
  · intro hb
    have hfree : cell.hold = .free := by
      refine (hw.free_iff hc).mpr fun key h hh hg => ?_
      cases hdh : h.kind.demand? with
      | none => rfl
      | some d =>
        have hx : h.kind.excludes k = true :=
          HandleKind.excludes_iff.mpr ⟨d, .exclusive, hdh, hd, .inr rfl⟩
        exact absurd (.inl ⟨key, h, by rw [hhandles, hh], hg, hx⟩) hb
    rw [hfree]
    rfl

theorem World.Reachable.admits_shared_iff (hw : w.Reachable) (hhandles : v.handles = w.handles)
    (hc : w.cells[c]? = some cell) (hd : k.demand? = some .shared) :
    cell.hold.allows .shared = true ∧ .exclusive ∉ v.waiting c ↔ ¬ v.Barred c k := by
  constructor
  · rintro ⟨hallows, hwaiting⟩ hb
    rcases hb with ⟨key, h, hh, hg, hx⟩ | ⟨-, hasked⟩
    · obtain ⟨d, d', hdh, hdk, hor⟩ := HandleKind.excludes_iff.mp hx
      obtain rfl : d' = .shared := Option.some.inj (hdk.symm.trans hd)
      obtain rfl : d = .exclusive := hor.resolve_right (by simp)
      rw [hw.hold_of_exclusive hc (by rw [← hhandles, hh]) hg hdh] at hallows
      cases hallows
    · exact hwaiting (mem_waiting.mpr hasked)
  · intro hb
    refine ⟨?_, fun hmem => hb (.inr ⟨hd, mem_waiting.mp hmem⟩)⟩
    cases hhold : cell.hold with
    | free => rfl
    | shared n => rfl
    | exclusive =>
      obtain ⟨key, h, hh, hg, hdh⟩ := hw.exists_of_exclusive hc hhold
      have hx : h.kind.excludes k = true :=
        HandleKind.excludes_iff.mpr ⟨.exclusive, .shared, hdh, hd, .inl rfl⟩
      exact absurd (.inl ⟨key, h, by rw [hhandles, hh], hg, hx⟩) hb

/-- **Who is let in**, at the first attempt and at each that follows: those in whose way nobody
is. -/
theorem World.Reachable.admits_iff (hw : w.Reachable) (hP : P.Exact) (hcells : v.cells = w.cells)
    (hhandles : v.handles = w.handles) (hc : w.cells[c]? = some cell) (k : HandleKind) :
    v.admits P c k = true ↔ ¬ v.Barred c k := by
  cases hd : k.demand? with
  | none =>
    have hadmits : v.admits P c k = true := by
      unfold World.admits
      rw [hd]
    refine ⟨fun _ hb => ?_, fun _ => hadmits⟩
    rcases hb with ⟨key, h, -, -, hx⟩ | ⟨hs, -⟩
    · obtain ⟨-, d', -, hdk, -⟩ := HandleKind.excludes_iff.mp hx
      simp [hd] at hdk
    · simp [hd] at hs
  | some d =>
    have hadmits : v.admits P c k = P.admits cell.hold (v.waiting c) d := by
      unfold World.admits
      rw [hd, hcells, hc]
    rw [hadmits]
    cases d with
    | exclusive => rw [hP.writers, hw.admits_exclusive_iff hhandles hc hd]
    | shared => rw [hP.readers, hw.admits_shared_iff hhandles hc hd]

end admits

/-! ### The docket -/

/-- A request for a handle, whether it was refused at first, and whether it was granted. -/
structure Petition where
  thread : ThreadId
  name : HandleName
  cell : CellId
  kind : HandleKind
  refused : Bool
  granted : Bool
  deriving DecidableEq

/-- What is to be recorded of a request. -/
def Petition.records (p : Petition) : List Record :=
  (if p.refused then [.contended p.cell p.kind] else []) ++
    if p.granted then [.granted p.cell p.kind] else []

/-- The request is granted, if it is one of that thread. -/
def Petition.serve (t : ThreadId) (p : Petition) : Petition :=
  if p.thread = t then { p with granted := true } else p

/-- The docket after a step: a request that is made is entered, with what comes of its first
attempt; one that is made again is granted if nobody is in its way. -/
def World.docket (w : World α) (s : World.Step α) (D : List Petition) : List Petition :=
  match w.asked? s with
  | none => D
  | some r =>
    match s.thread? with
    | some t =>
      if w.isBlocked t then D
      else
        let refused := w.barred r.cell r.kind
        D ++ [⟨r.thread, r.name, r.cell, r.kind, refused, !refused⟩]
    | none =>
      if (w.withdraw r).barred r.cell r.kind then D else D.map (Petition.serve r.thread)

/-- The worlds that are met when threads take turns in any order, with the docket of all requests
that were made. -/
inductive World.Docketed : World α → List Petition → Prop
  | empty : Docketed .empty []
  | step {w : World α} {D : List Petition} {P : Policy} (hP : P.Exact) (s : World.Step α) :
      Docketed w D → Docketed (w.step P s).1 (w.docket s D)

theorem World.Docketed.reachable {D : List Petition} (hw : w.Docketed D) : w.Reachable := by
  induction hw with
  | empty => exact .empty
  | step _ s _ ih => exact ih.step _ s

/-- Whether the petition is that request, however far it has got. -/
structure Petition.Concerns (p : Petition) (r : Request) : Prop where
  thread : p.thread = r.thread
  name : p.name = r.name
  cell : p.cell = r.cell
  kind : p.kind = r.kind

/-- How a thread stands that has made those petitions: all were granted, and it has no request; or
all were but the last, which was refused and is the request that it has. -/
inductive World.Standing (w : World α) (t : ThreadId) : List Petition → Prop
  | free {ps : List Petition} : w.requests.filter (·.thread = t) = [] →
      (∀ p ∈ ps, p.granted = true) → Standing w t ps
  | waits {ps : List Petition} {p : Petition} {r : Request} :
      w.requests.filter (·.thread = t) = [r] → (∀ p ∈ ps, p.granted = true) → p.Concerns r →
      p.refused = true → p.granted = false → Standing w t (ps ++ [p])

section docket

variable {D ps : List Petition} {w' : World α}

@[simp] theorem Petition.thread_serve (t : ThreadId) (p : Petition) : (p.serve t).thread = p.thread := by
  unfold Petition.serve
  split <;> rfl

@[simp] theorem Petition.kind_serve (t : ThreadId) (p : Petition) : (p.serve t).kind = p.kind := by
  unfold Petition.serve
  split <;> rfl

theorem Petition.serve_of_granted {p : Petition} (hp : p.granted = true) (t : ThreadId) : p.serve t = p := by
  unfold Petition.serve
  split
  · rw [← hp]
  · rfl

theorem filter_concat (D : List Petition) (p : Petition) (t : ThreadId) :
    (D ++ [p]).filter (·.thread = t) =
      D.filter (·.thread = t) ++ if p.thread = t then [p] else [] := by
  rw [List.filter_append, List.filter_cons]
  split <;> simp_all

theorem filter_serve (D : List Petition) (t t' : ThreadId) :
    (D.map (Petition.serve t')).filter (·.thread = t) =
      if t' = t then (D.filter (·.thread = t)).map (Petition.serve t')
      else D.filter (·.thread = t) := by
  have hkeep : (D.map (Petition.serve t')).filter (·.thread = t) =
      (D.filter (·.thread = t)).map (Petition.serve t') := by
    rw [List.filter_map]
    congr 1
    apply List.filter_congr
    intro p _
    simp
  rw [hkeep]
  split
  · rfl
  · rename_i hne
    -- petitions of other threads are not concerned
    refine (List.map_congr_left fun p hp => ?_).trans (List.map_id _)
    have hp : p.thread = t := by simpa using (List.mem_filter.mp hp).2
    unfold Petition.serve
    rw [if_neg (by rw [hp]; exact Ne.symm hne)]
    rfl

/-! ### What a step does with the docket -/

theorem docket_of_unasked (hr : w.asked? s = none) (D : List Petition) : w.docket s D = D := by
  unfold World.docket
  rw [hr]

theorem docket_of_not_asks (hs : s.asks = false) (D : List Petition) : w.docket s D = D :=
  docket_of_unasked (asked?_of_not_asks hs) D

theorem docket_of_blocked (hs : s.thread? = some t) (hblocked : w.isBlocked t = true)
    (D : List Petition) : w.docket s D = D := by
  unfold World.docket
  split
  · rfl
  · rw [hs]
    simp only [hblocked, if_true]

theorem docket_of_attempt (hr : w.asked? s = some r) (hs : s.thread? = some t)
    (hfree : w.isBlocked t = false) (D : List Petition) : w.docket s D =
      D ++ [⟨r.thread, r.name, r.cell, r.kind, w.barred r.cell r.kind, !w.barred r.cell r.kind⟩] := by
  unfold World.docket
  rw [hr, hs]
  simp only [hfree, Bool.false_eq_true, if_false]

theorem docket_of_again (hr : w.asked? s = some r) (hs : s = r.again) (D : List Petition) :
    w.docket s D =
      if (w.withdraw r).barred r.cell r.kind then D else D.map (Petition.serve r.thread) := by
  have hthread : s.thread? = none := by
    rw [hs]
    unfold Request.again
    cases r.phase <;> rfl
  unfold World.docket
  rw [hr, hthread]

theorem filter_of_free (hfree : w.isBlocked t = false) : w.requests.filter (·.thread = t) = [] := by
  rw [List.filter_eq_nil_iff]
  intro r hr ht
  rw [isBlocked_iff.mpr ⟨r, hr, by simpa using ht⟩] at hfree
  cases hfree

/-- The other threads have the requests that they had. -/
theorem filter_erase_of_ne {l : List Request} (hne : r.thread ≠ t) :
    (l.erase r).filter (·.thread = t) = l.filter (·.thread = t) := by
  rw [← List.erase_filter, List.erase_of_not_mem]
  intro hmem
  exact hne (by simpa using (List.mem_filter.mp hmem).2)

theorem World.Standing.congr (hst : w.Standing t ps)
    (hsame : w'.requests.filter (·.thread = t) = w.requests.filter (·.thread = t)) :
    w'.Standing t ps := by
  cases hst with
  | free hnone hps => exact .free (hsame.trans hnone) hps
  | waits hone hps hp hrefused hopen => exact .waits (hsame.trans hone) hps hp hrefused hopen

theorem World.Standing.of_free (hst : w.Standing t ps) (hfree : w.isBlocked t = false) :
    ∀ p ∈ ps, p.granted = true := by
  cases hst with
  | free _ hps => exact hps
  | waits hone => simp [filter_of_free hfree] at hone

theorem World.Standing.of_mem (hst : w.Standing r.thread ps) (hr : r ∈ w.requests) :
    w.requests.filter (·.thread = r.thread) = [r] ∧ ∃ qs p, ps = qs ++ [p] ∧
      (∀ q ∈ qs, q.granted = true) ∧ p.Concerns r ∧ p.refused = true ∧ p.granted = false := by
  have hmem : r ∈ w.requests.filter (·.thread = r.thread) := List.mem_filter.mpr ⟨hr, by simp⟩
  cases hst with
  | free hnone _ =>
    rw [hnone] at hmem
    cases hmem
  | waits hone hps hp hrefused hopen =>
    rw [hone] at hmem
    obtain rfl := List.mem_singleton.mp hmem
    exact ⟨hone, _, _, rfl, hps, hp, hrefused, hopen⟩

theorem World.Reachable.cell_of_asked (hw : w.Reachable) (hr : w.asked? s = some r) :
    ∃ cell, w.cells[r.cell]? = some cell := by
  have hkept : w.Kept r.cell := by
    cases s with
    | attempt t name access h =>
      obtain ⟨c, hc, hkind⟩ := Option.bind_eq_some_iff.mp hr
      obtain ⟨k, -, rfl⟩ := Option.map_eq_some_iff.mp hkind
      exact .inl (.inl ⟨name, hc⟩)
    | block t => exact .inr ⟨r, List.mem_of_find?_eq_some hr, rfl⟩
    | grant t => exact .inr ⟨r, List.mem_of_find?_eq_some hr, rfl⟩
    | _ => cases hr
  exact ⟨_, List.getElem?_eq_getElem (hw.lt_of_kept hkept)⟩

/-- The docket goes by what is in the way, the locks by their policy, and they agree. -/
theorem World.Reachable.barred_eq (hw : w.Reachable) (hP : P.Exact) {v : World α}
    (hcells : v.cells = w.cells) (hhandles : v.handles = w.handles) (hc : w.cells[c]? = some cell)
    (k : HandleKind) : v.barred c k = !v.admits P c k := by
  have hnodup : v.handles.keys.Nodup := by
    rw [hhandles]
    exact hw.sound.handles
  rw [Bool.eq_not, ne_eq, Bool.eq_iff_iff, World.barred_iff hnodup, hw.admits_iff hP hcells hhandles hc]
  tauto

theorem World.Reachable.barred_asked (hw : w.Reachable) (hP : P.Exact) (hr : w.asked? s = some r) :
    w.barred r.cell r.kind = (!w.admits P r.cell r.kind) ∧
      (w.withdraw r).barred r.cell r.kind = !(w.withdraw r).admits P r.cell r.kind := by
  obtain ⟨cell, hc⟩ := hw.cell_of_asked hr
  exact ⟨hw.barred_eq hP rfl rfl hc r.kind, hw.barred_eq hP (v := w.withdraw r) rfl rfl hc r.kind⟩

/-- What is in the docket of a thread's requests is what is recorded of them, and tells how the
thread stands. -/
structure World.Accounts (w : World α) (D : List Petition) (t : ThreadId) : Prop where
  records : w.records t = (D.filter (·.thread = t)).flatMap Petition.records
  standing : w.Standing t (D.filter (·.thread = t))

theorem World.Accounts.of_same (ha : w.Accounts D t) {D' : List Petition}
    (hdocket : D'.filter (·.thread = t) = D.filter (·.thread = t)) (hrecords : w'.records t = w.records t)
    (hrequests : w'.requests.filter (·.thread = t) = w.requests.filter (·.thread = t)) :
    w'.Accounts D' t where
  records := by rw [hrecords, hdocket, ha.records]
  standing := by
    rw [hdocket]
    exact ha.standing.congr hrequests

/-- A request that is made is entered, and so is what is recorded of it. -/
theorem World.Accounts.enter (ha : w.Accounts D t) (hfree : w.isBlocked r.thread = false)
    (refused : Bool)
    (hrecords : w'.records t = w.records t ++ if r.thread = t then
      (⟨r.thread, r.name, r.cell, r.kind, refused, !refused⟩ : Petition).records else [])
    (hrequests : w'.requests = w.requests ++ if refused then [r] else []) :
    w'.Accounts (D ++ [⟨r.thread, r.name, r.cell, r.kind, refused, !refused⟩]) t := by
  by_cases ht : r.thread = t
  · subst ht
    have hps := ha.standing.of_free hfree
    rw [if_pos rfl] at hrecords
    refine ⟨?_, ?_⟩
    · rw [filter_concat, if_pos rfl, List.flatMap_append, hrecords, ha.records]
      simp
    · rw [filter_concat, if_pos rfl]
      have hnone := filter_of_free hfree
      cases refused with
      | false =>
        refine .free ?_ fun p hp => ?_
        · simpa [hrequests] using hnone
        · rcases List.mem_append.mp hp with hp | hp
          · exact hps p hp
          · rw [List.mem_singleton.mp hp]
            rfl
      | true =>
        refine .waits ?_ hps ⟨rfl, rfl, rfl, rfl⟩ rfl rfl
        rw [hrequests, List.filter_append, hnone]
        simp
  · refine ha.of_same ?_ ?_ ?_
    · rw [filter_concat, if_neg ht, List.append_nil]
    · rw [hrecords, if_neg ht, List.append_nil]
    · rw [hrequests, List.filter_append]
      cases refused <;> simp [ht]

/-- A request that is granted after it was refused. -/
theorem World.Accounts.serve (ha : w.Accounts D t) (hr : r ∈ w.requests)
    (hrecords : w'.records t = w.records t ++ if r.thread = t then [.granted r.cell r.kind] else [])
    (hrequests : w'.requests = w.requests.erase r) :
    w'.Accounts (D.map (Petition.serve r.thread)) t := by
  by_cases ht : r.thread = t
  · subst ht
    rw [if_pos rfl] at hrecords
    obtain ⟨hone, qs, p, hps, hqs, hp, hrefused, hopen⟩ := ha.standing.of_mem hr
    have hserved : (D.map (Petition.serve r.thread)).filter (·.thread = r.thread) =
        qs ++ [{ p with granted := true }] := by
      have hkept : qs.map (Petition.serve r.thread) = qs :=
        (List.map_congr_left fun q hq => Petition.serve_of_granted (hqs q hq) _).trans (List.map_id _)
      rw [filter_serve, if_pos rfl, hps, List.map_append, hkept]
      simp [Petition.serve, hp.thread]
    refine ⟨?_, ?_⟩
    · rw [hrecords, ha.records, hps, hserved, List.flatMap_append, List.flatMap_append]
      simp [Petition.records, hrefused, hopen, hp.cell, hp.kind]
    · rw [hserved]
      refine .free ?_ fun q hq => ?_
      · rw [hrequests, ← List.erase_filter, hone]
        simp
      · rcases List.mem_append.mp hq with hq | hq
        · exact hqs q hq
        · rw [List.mem_singleton.mp hq]
  · refine ha.of_same ?_ ?_ ?_
    · rw [filter_serve, if_neg ht]
    · rw [hrecords, if_neg ht, List.append_nil]
    · rw [hrequests, filter_erase_of_ne ht]

/-- A request that goes on waiting. -/
theorem World.Accounts.wait (ha : w.Accounts D t) (hr : r ∈ w.requests)
    (hrecords : w'.records t = w.records t)
    (hrequests : w'.requests = w.requests.erase r ++ [{ r with phase := .waiting }]) :
    w'.Accounts D t := by
  refine ⟨hrecords.trans ha.records, ?_⟩
  by_cases ht : r.thread = t
  · subst ht
    obtain ⟨hone, qs, p, hps, hqs, hp, hrefused, hopen⟩ := ha.standing.of_mem hr
    rw [hps]
    refine .waits (r := { r with phase := .waiting }) ?_ hqs ⟨hp.thread, hp.name, hp.cell, hp.kind⟩
      hrefused hopen
    rw [hrequests, List.filter_append, ← List.erase_filter, hone]
    simp
  · refine ha.standing.congr ?_
    rw [hrequests, List.filter_append, filter_erase_of_ne ht]
    simp [ht]

/-- The accounts are kept by a step that asks for a handle, whatever comes of it. -/
theorem World.Accounts.tries (hw : w.Reachable) (hP : P.Exact) (ha : w.Accounts D t)
    (hr : w.asked? s = some r) : (w.step P s).1.Accounts (w.docket s D) t := by
  obtain ⟨hfirst, hlater⟩ := hw.barred_asked hP hr
  cases step_tries P hr with
  | blocked hs hblocked hstep =>
    rw [docket_of_blocked (by rw [hs]; rfl) hblocked, hstep]
    exact ha
  | enters hs hfree hadmits hstep =>
    rw [docket_of_attempt hr (by rw [hs]; rfl) hfree, hstep, hfirst, hadmits]
    refine ha.enter hfree false ?_ ?_
    · exact records_letIn _ _ _ _ _ _
    · exact (sameRefs_letIn _ _ _ _ _).requests.trans (List.append_nil _).symm
  | contends hs hfree hadmits _ hstep =>
    rw [docket_of_attempt hr (by rw [hs]; rfl) hfree, hstep, hfirst, hadmits]
    refine ha.enter hfree true ?_ rfl
    rw [records_note, Event.record?]
    split <;> rfl
  | entersLater hs hmem hadmits hstep =>
    rw [docket_of_again hr hs, hstep, hlater, hadmits]
    refine ha.serve hmem ?_ ?_
    · exact records_letIn _ _ _ _ _ _
    · exact (sameRefs_letIn _ _ _ _ _).requests
  | queues hs hmem hadmits _ hstep =>
    rw [docket_of_again hr hs, hstep, hlater, hadmits]
    exact ha.wait hmem rfl rfl
  | waits hs hmem hadmits _ hstep =>
    rw [docket_of_again hr hs, hstep, hlater, hadmits]
    exact ha

/-- **A step keeps the accounts.** -/
theorem World.Accounts.step (hw : w.Reachable) (hP : P.Exact) (ha : w.Accounts D t)
    (s : World.Step α) : (w.step P s).1.Accounts (w.docket s D) t := by
  cases hasks : s.asks with
  | false =>
    rw [docket_of_not_asks hasks]
    exact ha.of_same rfl ((step_calm P w hasks).records t) (by rw [requests_of_not_asks P w hasks])
  | true =>
    cases hr : w.asked? s with
    | none =>
      rw [docket_of_unasked hr, (step_unasked P hasks hr).1]
      exact ha
    | some r => exact ha.tries hw hP hr

/-- **In every world the docket accounts for what is recorded.** -/
theorem World.Docketed.accounts (hw : w.Docketed D) (t : ThreadId) : w.Accounts D t := by
  induction hw with
  | empty => exact ⟨rfl, .free rfl fun p hp => by cases hp⟩
  | step hP s hw ih => exact ih.step hw.reachable hP s

end docket

end Custody.Shared
