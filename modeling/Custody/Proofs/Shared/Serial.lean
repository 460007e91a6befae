/-
# Access is serializable

One who holds a lock exclusively is alone with the cell from the grant until the access is
given up. So the changes of a tenure come after those of all earlier ones and before
those of all later ones, however the threads take turns, and values are as if the
tenures had followed one another in the order in which they were granted.

Key definitions: `Settled`, `World.Onward`, `Annals.Shows`.
Key theorems: `Settled.turn`, `Told.shows`, `History.serializable`.
-/
import Custody.Proofs.Shared.Told

namespace Custody.Shared

variable {α : Type} {w w' : World α} {A A' : Annals α} {key key' : ThreadId × HandleName}
  {c : CellId} {k k' : HandleKind} {i : Nat} {T : Tenure α}

/-! ### What is noted of grants and changes -/

theorem chronicle_onGrant (A : Annals α) (o : World α × World.Reply α) (key : ThreadId × HandleName)
    (c : CellId) : chronicle c (A.onGrant o key).tenures = chronicle c A.tenures := by
  unfold Annals.onGrant
  split
  · unfold Annals.grant
    split
    · exact Annals.chronicle_enroll ..
    · rfl
  · rfl

theorem chronicle_onDone (A : Annals α) (o : World α × World.Reply α) {B : Annals α}
    (hB : B.tenures = A.tenures) (c : CellId) :
    chronicle c (A.onDone o B).tenures = chronicle c A.tenures := by
  unfold Annals.onDone
  split
  · rw [hB]
  · rfl

theorem onChange_of_ne {o : World α × World.Reply α} (ho : ∀ v, o.2 ≠ .value v)
    (key : ThreadId × HandleName) (f : α → α) : A.onChange o key f = A := by
  unfold Annals.onChange
  split
  · rename_i v hv
    exact absurd hv (ho v)
  · rfl

theorem access?_letIn (w : World α) (t : ThreadId) (name : HandleName) (c : CellId) (k : HandleKind) :
    (w.letIn t name c k).access? (t, name) = some (c, k) := by
  rw [World.access?_eq_some, handles_letIn rfl, Table.get?_put, if_pos rfl]

theorem stepAttempt_granted {P : Policy} {t : ThreadId} {name : String} {access : Access}
    {h : HandleName}
    (hr : (w.stepAttempt P t name access h).2 = .granted) :
    ∃ w₀ c k, (w.stepAttempt P t name access h).1 = World.letIn t h c k w₀ := by
  unfold World.stepAttempt at hr ⊢
  split at hr
  · simp at hr
  · rename_i c _
    split at hr
    · simp at hr
    · rename_i k hk
      simp only at hr
      split at hr
      · rename_i hadmits
        exact ⟨w.own c, c, k, by simp only [if_pos hadmits]⟩
      · simp at hr

theorem stepEnter_granted {P : Policy} {t : ThreadId} {phase : Phase}
    (hr : (w.stepEnter P t phase).2 = .granted) : ∃ r w₀, w.request? t phase = some r ∧
      (w.stepEnter P t phase).1 = World.letIn t r.name r.cell r.kind w₀ := by
  unfold World.stepEnter at hr ⊢
  cases hreq : w.request? t phase with
  | none => simp [hreq] at hr
  | some r =>
    simp only [hreq] at hr ⊢
    split at hr
    · rename_i hadmits
      exact ⟨r, w.withdraw r, rfl, by simp only [if_pos hadmits]⟩
    · cases phase <;> simp at hr

/-- Only steps of requests are answered that they are granted. -/
theorem withHandle_ne_granted {t : ThreadId} {h : HandleName} {f : Handle → World α × World.Reply α}
    (hf : ∀ handle, (f handle).2 ≠ .granted) : (w.withHandle t h f).2 ≠ .granted := by
  unfold World.withHandle
  split
  · simp
  · exact hf _

theorem stepAccess_ne_granted (w : World α) (u : World.Use) (f : α → α) (h : Handle) :
    (w.stepAccess u f h).2 ≠ .granted := by
  unfold World.stepAccess
  split
  · simp
  · split
    · simp
    · split
      · simp
      · split <;> simp

theorem stepThread_ne_granted {P : Policy} {s : World.Step α}
    (hs : ∀ t name access h, s ≠ .attempt t name access h) : (w.stepThread P s).2 ≠ .granted := by
  cases s with
  | attempt t name access h => exact absurd rfl (hs t name access h)
  | read t h => exact withHandle_ne_granted fun _ => stepAccess_ne_granted _ _ _ _
  | update t h f => exact withHandle_ne_granted fun _ => stepAccess_ne_granted _ _ _ _
  | overwrite t h f => exact withHandle_ne_granted fun _ => stepAccess_ne_granted _ _ _ _
  | release t h => exact withHandle_ne_granted fun _ => by simp
  | take t h new => exact withHandle_ne_granted fun _ => by simp
  | move t h new =>
    apply withHandle_ne_granted
    intro handle
    split <;> simp
  | drop t h => exact withHandle_ne_granted fun _ => by simp
  | _ => simp [World.stepThread]

/-- A tenure begins when a request is granted that was refused before, or that waited. -/
theorem enter_granted {P : Policy} {t : ThreadId} {phase : Phase}
    (hr : (w.stepEnter P t phase).2 = .granted) : ∃ key c k,
      ((w.request? t phase).elim A fun r => A.onGrant (w.stepEnter P t phase) (t, r.name)) =
        A.enroll key c k ∧ (w.stepEnter P t phase).1.access? key = some (c, k) := by
  obtain ⟨r, w₀, hreq, heq⟩ := stepEnter_granted hr
  refine ⟨(t, r.name), r.cell, r.kind, ?_, ?_⟩
  · rw [hreq, Option.elim_some]
    unfold Annals.onGrant
    rw [hr, heq]
    exact grant_letIn ..
  · rw [heq]
    exact access?_letIn ..

/-- A tenure begins when a first attempt is granted. -/
theorem attempt_granted {P : Policy} {t : ThreadId} {name : String} {access : Access} {h : HandleName}
    (hr : (w.stepAttempt P t name access h).2 = .granted) : ∃ key c k,
      A.onGrant (w.stepAttempt P t name access h) (t, h) = A.enroll key c k ∧
        (w.stepAttempt P t name access h).1.access? key = some (c, k) := by
  obtain ⟨w₀, c, k, heq⟩ := stepAttempt_granted hr
  refine ⟨(t, h), c, k, ?_, ?_⟩
  · unfold Annals.onGrant
    rw [hr, heq]
    exact grant_letIn ..
  · rw [heq]
    exact access?_letIn ..

/-- A thread that is not answered that it is blocked does what it wants. -/
theorem step_of_answer {P : Policy} {s : World.Step α} {t : ThreadId} (hs : s.thread? = some t)
    (hr : (w.step P s).2 ≠ .blocked) : w.step P s = w.stepThread P s := by
  rw [step_of_thread P w hs] at hr ⊢
  split at hr
  · exact absurd rfl hr
  · rename_i hfree
    rw [if_neg hfree]

/-- A tenure begins with each grant, after all others. -/
theorem next_of_granted {P : Policy} {s : World.Step α} (hr : (w.step P s).2 = .granted) :
    ∃ key c k, A.next P w s = A.enroll key c k ∧ (w.step P s).1.access? key = some (c, k) := by
  have hfree : (w.step P s).2 ≠ .blocked := by
    rw [hr]
    simp
  cases ht : s.thread? with
  | some t =>
    have hstep := step_of_answer ht hfree
    rw [hstep] at hr
    unfold Annals.next
    rw [hstep]
    cases s with
    | attempt t name access h => exact attempt_granted hr
    | _ => exact absurd hr (stepThread_ne_granted (by simp))
  | none =>
    cases s with
    | block t => exact enter_granted hr
    | grant t => exact enter_granted hr
    | create name f v near => simp [World.step, World.Step.thread?, World.stepCreate] at hr
    | cloneRequester name copy =>
      exfalso
      have hr : (w.stepClone name copy).2 = .granted := hr
      unfold World.stepClone at hr
      split at hr <;> simp at hr
    | dropRequester name =>
      exfalso
      have hr : (w.stepDropRequester name).2 = .granted := hr
      unfold World.stepDropRequester at hr
      split at hr <;> simp at hr
    | _ => simp [World.Step.thread?] at ht

/-- A step that is no change adds nothing to what was changed. -/
theorem chronicle_next (P : Policy) (w : World α) (A : Annals α) {s : World.Step α}
    (hs : ∀ v, (w.step P s).2 = .value v → ∃ t h, s = .read t h) (c : CellId) :
    chronicle c (A.next P w s).tenures = chronicle c A.tenures := by
  have hchange : ∀ t h f, s = .update t h f ∨ s = .overwrite t h f →
      chronicle c (A.onChange (w.step P s) (t, h) f).tenures = chronicle c A.tenures := by
    intro t h f hs'
    rw [onChange_of_ne]
    intro v hv
    obtain ⟨t', h', rfl⟩ := hs v hv
    simp at hs'
  unfold Annals.next
  cases s with
  | attempt t name access h => exact chronicle_onGrant ..
  | block t =>
    show chronicle c ((w.request? t .refused).elim A _).tenures = _
    cases w.request? t .refused with
    | none => rfl
    | some r => exact chronicle_onGrant ..
  | grant t =>
    show chronicle c ((w.request? t .waiting).elim A _).tenures = _
    cases w.request? t .waiting with
    | none => rfl
    | some r => exact chronicle_onGrant ..
  | update t h f => exact hchange t h f (.inl rfl)
  | overwrite t h f => exact hchange t h f (.inr rfl)
  | release t h => exact chronicle_onDone A _ (Annals.tenures_finish ..) c
  | drop t h => exact chronicle_onDone A _ (Annals.tenures_finish ..) c
  | take t h new => exact chronicle_onDone A _ (Annals.tenures_pass ..) c
  | move t h new => exact chronicle_onDone A _ (Annals.tenures_pass ..) c
  | _ => rfl

/-- What is answered is what the step made of the value that was there. -/
theorem withHandle_value {t : ThreadId} {h : HandleName} {how : World.Use} {f : α → α}
    {v : α} (hv : (w.withHandle t h (w.stepAccess how f)).2 = .value v) :
    ∃ c k u, w.access? (t, h) = some (c, k) ∧ w.value? c = some u ∧ v = f u ∧
      how.allows k = true := by
  unfold World.withHandle at hv
  split at hv
  · simp at hv
  · rename_i handle hh
    rcases w.stepAccess_cases how f handle with ⟨r, heq, hr⟩ | ⟨c, u, hk, hg, hu, heq⟩
    · rw [heq] at hv
      exact absurd hv (hr v)
    · rw [heq] at hv
      have haccess : w.access? (t, h) = some (c, handle.kind) := by
        rw [World.access?_eq_some, hh, ← hg]
      exact ⟨c, handle.kind, u, haccess, hu, (World.Reply.value.inj hv).symm, hk⟩

theorem step_read_value {P : Policy} {t : ThreadId} {h : HandleName} {v : α}
    (hv : (w.step P (.read t h)).2 = .value v) :
    ∃ c k, w.access? (t, h) = some (c, k) ∧ w.value? c = some v := by
  rw [step_of_answer rfl (by simp [hv])] at hv
  obtain ⟨c, k, u, hkey, hu, rfl, -⟩ := withHandle_value hv
  exact ⟨c, k, hkey, hu⟩

/-- The change of a value, through a handle that may write or that is serialized. -/
theorem step_change_value {P : Policy} {s : World.Step α} {t : ThreadId} {h : HandleName} {f : α → α}
    {v : α} (hs : s = .update t h f ∨ s = .overwrite t h f) (hv : (w.step P s).2 = .value v) :
    (∃ c k u, w.access? (t, h) = some (c, k) ∧ w.value? c = some u ∧ v = f u ∧
      k.demand? = some .exclusive) ∧ A.next P w s = A.record (t, h) f := by
  have hnext : A.next P w s = A.onChange (w.step P s) (t, h) f := by
    rcases hs with rfl | rfl <;> rfl
  refine ⟨?_, ?_⟩
  · rcases hs with rfl | rfl
    · rw [step_of_answer rfl (by simp [hv])] at hv
      obtain ⟨c, k, u, hkey, hu, heq, hk⟩ := withHandle_value hv
      exact ⟨c, k, u, hkey, hu, heq, demand?_of_mayWrite hk⟩
    · rw [step_of_answer rfl (by simp [hv])] at hv
      obtain ⟨c, k, u, hkey, hu, heq, hk⟩ := withHandle_value hv
      exact ⟨c, k, u, hkey, hu, heq, demand?_of_isSerialized hk⟩
  · rw [hnext]
    unfold Annals.onChange
    rw [hv]

/-! ### What was before a tenure -/

/-- What a tenure begins with is settled: its cell and the value that this was made with, and
what was changed in earlier tenures, for none of these that was exclusive goes on. -/
structure Settled (i : Nat) (c : CellId) (k : HandleKind) (a : α) (fs : List (α → α))
    (A : Annals α) : Prop where
  origin : A.origins[c]? = some a
  tenure : (A.tenures[i]?).map (fun T => (T.cell, T.kind)) = some (c, k)
  before : chronicle c (A.tenures.take i) = fs
  ended : ∀ key j T, A.current.get? key = some j → j < i → A.tenures[j]? = some T → T.cell = c →
    T.kind.demand? ≠ some .exclusive

theorem Settled.lt {a : α} {fs : List (α → α)} (h : Settled i c k a fs A) : i < A.tenures.length := by
  obtain ⟨T, hT, -⟩ := Option.map_eq_some_iff.mp h.tenure
  exact (List.getElem?_eq_some_iff.mp hT).1

/-- What a tenure that goes on began with is settled. -/
theorem Told.settled (h : Told w A) (hw : w.Reachable) (hi : A.current.get? key = some i)
    (hT : A.tenures[i]? = some T) {a : α} (ha : A.origins[T.cell]? = some a) :
    Settled i T.cell T.kind a (chronicle T.cell (A.tenures.take i)) A where
  origin := ha
  tenure := by rw [hT]; rfl
  before := rfl
  ended key' j T' hj hlt hT' hc hd := by
    have hkey := h.access?_of_tenure hi hT
    have hkey' := h.access?_of_tenure hj hT'
    rw [hc] at hkey'
    obtain rfl := hw.alone hkey' hd hkey
    rw [hi] at hj
    obtain rfl := Option.some.inj hj
    exact absurd hlt (Nat.lt_irrefl _)

/-- What is settled stays so if fewer tenures go on. -/
theorem Settled.of_tenures {a : α} {fs : List (α → α)} (h : Settled i c k a fs A)
    (horigins : A'.origins = A.origins) (htenures : A'.tenures = A.tenures)
    (hcurrent : ∀ key j, A'.current.get? key = some j → ∃ key, A.current.get? key = some j) :
    Settled i c k a fs A' where
  origin := by rw [horigins, h.origin]
  tenure := by rw [htenures, h.tenure]
  before := by rw [htenures, h.before]
  ended key j T hj hlt hT := by
    obtain ⟨key', hj'⟩ := hcurrent key j hj
    rw [htenures] at hT
    exact h.ended key' j T hj' hlt hT

/-- **What is settled stays so after each turn.** -/
theorem Settled.turn {a : α} {fs : List (α → α)} (h : Settled i c k a fs A) (ht : Told w A)
    (hturn : Turn w A w' A') : Settled i c k a fs A' := by
  cases hturn with
  | idle _ _ => exact h
  | create v _ _ _ _ =>
    have hlt : c < A.origins.length := (List.getElem?_eq_some_iff.mp h.origin).1
    exact { h with origin := by rw [List.getElem?_append_left hlt, h.origin] }
  | grant key c' k' _ _ =>
    have hi := h.lt
    refine ⟨h.origin, ?_, ?_, fun key' j T hj hlt hT => ?_⟩
    · rw [Annals.tenures_enroll, List.getElem?_append_left hi, h.tenure]
    · rw [Annals.tenures_enroll, List.take_append_of_le_length (Nat.le_of_lt hi), h.before]
    · rw [Annals.get?_enroll] at hj
      rw [Annals.tenures_enroll, List.getElem?_append_left (Nat.lt_trans hlt hi)] at hT
      split at hj
      · obtain rfl := Option.some.inj hj
        exact absurd hi (Nat.not_lt.mpr (Nat.le_of_lt hlt))
      · exact h.ended key' j T hj hlt hT
  | @change key c' k' v f hkey hd hv _ _ _ _ =>
    obtain ⟨j, T, hj, hT, rfl, rfl⟩ := ht.exists_tenure hkey
    rw [Annals.record_of_current hj]
    refine ⟨h.origin, ?_, ?_, fun key' j' T' hj' hlt hT' hc => ?_⟩
    · rw [Annals.map_modify_record, h.tenure]
    · show chronicle c ((A.tenures.modify j (Tenure.record f)).take i) = fs
      rw [List.take_modify]
      by_cases hji : j < i
      · -- an earlier tenure that goes on is of another cell
        have hother : T.cell ≠ c := fun hc => h.ended key j T hj hji hT hc hd
        rw [chronicle_modify_of_ne (by rw [List.getElem?_take_of_lt hji, hT]) hother, h.before]
      · have hlen : (A.tenures.take i).length ≤ j :=
          Nat.le_trans (List.length_take_le ..) (Nat.not_lt.mp hji)
        rw [List.modify_eq_self hlen, h.before]
    · obtain ⟨T₀, hT₀, hcell, hkind⟩ := Annals.exists_of_modify_record hT'
      rw [← hkind]
      exact h.ended key' j' T₀ hj' hlt hT₀ (hcell.trans hc)
  | finish key _ _ =>
    have horigins : (A.finish key).origins = A.origins := rfl
    exact h.of_tenures horigins (Annals.tenures_finish ..) fun key' j hj => Annals.current_of_finish hj
  | pass key new _ _ =>
    exact h.of_tenures (Annals.origins_pass ..) (Annals.tenures_pass ..)
      fun key' j hj => Annals.current_of_pass hj

/-! ### Histories that go on -/

/-- The worlds that are met after one, with their annals. -/
inductive World.Onward (w : World α) (A : Annals α) : World α → Annals α → Prop
  | refl : Onward w A w A
  | step {w' : World α} {A' : Annals α} (P : Policy) (s : World.Step α) :
      Onward w A w' A' → Onward w A (w'.step P s).1 (A'.next P w' s)

theorem World.Onward.history (h : World.Onward w A w' A') (hw : w.History A) : w'.History A' := by
  induction h with
  | refl => exact hw
  | step P s _ ih => exact .step P s ih

theorem World.Onward.settled {a : α} {fs : List (α → α)} (h : World.Onward w A w' A')
    (hw : w.History A) (hs : Settled i c k a fs A) : Settled i c k a fs A' := by
  induction h with
  | refl => exact hs
  | step P s hon ih => exact ih.turn (hon.history hw).told (step_turn P _ _ s)

/-! ### What a tenure shows -/

/-- A handle has the tenure, and the value is what there is in it: what the changes in all
earlier exclusive tenures of the cell made of the value that this was made with, and then
those of its own. -/
structure Annals.Shows (A : Annals α) (key : ThreadId × HandleName) (i : Nat) (T : Tenure α) (v : α) :
    Prop where
  current : A.current.get? key = some i
  tenure : A.tenures[i]? = some T
  value : ∃ a, A.origins[T.cell]? = some a ∧
    v = replay a (chronicle T.cell (A.tenures.take i) ++ T.updates)

/-- What is there is what the tenure shows. -/
theorem Told.shows (h : Told w A) (hkey : w.access? key = some (c, k)) {v : α}
    (hv : w.value? c = some v) : ∃ i T, A.Shows key i T v ∧ T.cell = c ∧ T.kind = k := by
  obtain ⟨i, T, hi, hT, rfl, rfl⟩ := h.exists_tenure hkey
  obtain ⟨a, ha, heq⟩ := h.value T.cell v (.inl hv)
  have hall : chronicle T.cell A.tenures = chronicle T.cell (A.tenures.take i) ++ T.updates :=
    chronicle_of_last hT (h.shared T (List.mem_of_getElem? hT)) (h.later key i T hi hT)
  rw [hall] at heq
  exact ⟨i, T, ⟨hi, hT, a, ha, heq⟩, rfl, rfl⟩

/-- A tenure that is read later shows the same value, if nothing was changed in it since. -/
theorem Annals.Shows.eq_of_onward {T' : Tenure α} {v v' : α} (h : A.Shows key i T v)
    (h' : A'.Shows key' i T' v') (hw : w.History A) (hon : World.Onward w A w' A')
    (hsame : T'.updates = T.updates) : v' = v := by
  obtain ⟨hi, hT, a, ha, rfl⟩ := h
  obtain ⟨hi', hT', a', ha', rfl⟩ := h'
  have hsettled := hon.settled hw (hw.told.settled hw.reachable hi hT ha)
  have htenure := hsettled.tenure
  rw [hT'] at htenure
  obtain ⟨hcell, -⟩ := Prod.mk.inj (Option.some.inj htenure)
  have horigin := hsettled.origin
  rw [← hcell, ha'] at horigin
  obtain rfl := Option.some.inj horigin
  rw [hsame, ← hsettled.before, hcell]

/-- Who has access, and does not wait, is answered a value. -/
theorem World.Reachable.answered (hw : w.Reachable) {P : Policy} {s : World.Step α} {t : ThreadId}
    {h : HandleName} {u : World.Use} {f : α → α} (hs : s.thread? = some t)
    (hthread : w.stepThread P s = w.withHandle t h (w.stepAccess u f))
    (hfree : w.isBlocked t = false) (hkey : w.access? (t, h) = some (c, k))
    (hk : u.allows k = true) : ∃ v, (w.step P s).2 = .value v := by
  have hstep : w.step P s = w.stepThread P s := by
    rw [step_of_thread P w hs, hfree]
    rfl
  rw [World.access?_eq_some] at hkey
  obtain ⟨v, hv⟩ := hw.read_of_grant hkey rfl
  refine ⟨f v, ?_⟩
  rw [hstep, hthread]
  unfold World.withHandle
  rw [hkey]
  exact World.stepAccess_locked hk hv f

/-- A change is the last in what was changed so far, and in its tenure. -/
theorem World.History.change (hw : w.History A) {P : Policy} {s : World.Step α} {t : ThreadId}
    {h : HandleName} {f : α → α} {v : α} (hs : s = .update t h f ∨ s = .overwrite t h f)
    (hv : (w.step P s).2 = .value v) :
    ∃ i T u, A.Shows (t, h) i T u ∧ T.kind.demand? = some .exclusive ∧ v = f u ∧
      (A.next P w s).tenures = A.tenures.modify i (Tenure.record f) ∧
      ∀ c, chronicle c (A.next P w s).tenures =
        chronicle c A.tenures ++ if c = T.cell then [f] else [] := by
  obtain ⟨⟨c, k, u, hkey, hu, rfl, hd⟩, hnext⟩ := step_change_value (A := A) hs hv
  obtain ⟨i, T, hshows, rfl, rfl⟩ := hw.told.shows hkey hu
  have htenures : (A.next P w s).tenures = A.tenures.modify i (Tenure.record f) := by
    rw [hnext, Annals.record_of_current hshows.current]
  refine ⟨i, T, u, hshows, hd, rfl, htenures, fun c => ?_⟩
  rw [htenures]
  by_cases hc : c = T.cell
  · subst hc
    have hlast := hw.told.later _ i T hshows.current hshows.tenure
    rw [if_pos rfl, chronicle_modify_of_last hshows.tenure hd hlast]
  · rw [if_neg hc, chronicle_modify_of_ne hshows.tenure (Ne.symm hc), List.append_nil]

/-- What is read through a handle is what its tenure shows. -/
theorem World.History.read (hw : w.History A) {P : Policy} {t : ThreadId} {h : HandleName} {v : α}
    (hv : (w.step P (.read t h)).2 = .value v) : ∃ i T, A.Shows (t, h) i T v := by
  obtain ⟨c, k, hkey, hvalue⟩ := step_read_value hv
  obtain ⟨i, T, hshows, -, -⟩ := hw.told.shows hkey hvalue
  exact ⟨i, T, hshows⟩

/-- What is read in a tenure of a given number. -/
theorem World.History.read_of_current (hw : w.History A) {P : Policy} {t : ThreadId} {h : HandleName}
    {v : α} (hv : (w.step P (.read t h)).2 = .value v) (hi : A.current.get? (t, h) = some i)
    (hT : A.tenures[i]? = some T) : A.Shows (t, h) i T v := by
  obtain ⟨j, S, hshows⟩ := hw.read hv
  have hj := hshows.current
  rw [hi] at hj
  obtain rfl := Option.some.inj hj
  have hS := hshows.tenure
  rw [hT] at hS
  obtain rfl := Option.some.inj hS
  exact hshows

/-- In a shared tenure nothing is changed, so it goes on showing the same. -/
theorem Annals.Shows.eq_of_shared {T' : Tenure α} {v v' : α} (h : A.Shows key i T v)
    (h' : A'.Shows key' i T' v') (hw : w.History A) (hon : World.Onward w A w' A')
    (hd : T.kind.demand? = some .shared) : v' = v := by
  obtain ⟨a, ha, -⟩ := h.value
  have htenure := (hon.settled hw (hw.told.settled hw.reachable h.current h.tenure ha)).tenure
  rw [h'.tenure] at htenure
  obtain ⟨-, hkind⟩ := Prod.mk.inj (Option.some.inj htenure)
  have hnot : T.kind.demand? ≠ some .exclusive := by simp [hd]
  have hnot' : T'.kind.demand? ≠ some .exclusive := by
    rw [hkind]
    exact hnot
  apply h.eq_of_onward h' hw hon
  rw [hw.told.shared T (List.mem_of_getElem? h.tenure) hnot,
    (hon.history hw).told.shared T' (List.mem_of_getElem? h'.tenure) hnot']

/-- **Access is serializable.** In every history:
* what is read through a handle is what the changes in all earlier exclusive tenures of the
  cell made of the value that it was made with, in the order in which they were granted, and
  then those of the handle's own tenure, and what was changed before a tenure is settled;
* the tenure of a handle is on the cell that the handle is locked on, and who has a locked
  handle and does not wait can read, and can change what the kind of the handle lets it;
* a change is made through an exclusive handle, to what the handle shows; it comes last in
  what was changed in the cell, and no other step adds to that, so that no change is lost or
  counted twice;
* tenures begin when they are granted, in that order;
* two reads in one tenure give the same if it is shared, or if nothing was changed in it
  between them;
* a value that is left, or that was destroyed, is what all changes made of the first, one
  after the other. -/
theorem World.History.serializable (hw : w.History A) :
    (∀ P t h v, (w.step P (.read t h)).2 = .value v → ∃ i T, A.Shows (t, h) i T v ∧
      ∀ w' A', World.Onward w A w' A' →
        chronicle T.cell (A'.tenures.take i) = chronicle T.cell (A.tenures.take i)) ∧
    (∀ key, A.access? key = w.access? key) ∧
    (∀ P t h c k, w.access? (t, h) = some (c, k) → w.isBlocked t = false →
      (∃ v, (w.step P (.read t h)).2 = .value v) ∧
      (k.mayWrite = true → ∀ f, ∃ v, (w.step P (.update t h f)).2 = .value v) ∧
      (k.isSerialized = true → ∀ f, ∃ v, (w.step P (.overwrite t h f)).2 = .value v)) ∧
    (∀ P s t h f v, s = .update t h f ∨ s = .overwrite t h f → (w.step P s).2 = .value v →
      ∃ i T u, A.Shows (t, h) i T u ∧ T.kind.demand? = some .exclusive ∧ v = f u ∧
        (A.next P w s).tenures = A.tenures.modify i (Tenure.record f) ∧
        ∀ c, chronicle c (A.next P w s).tenures =
          chronicle c A.tenures ++ if c = T.cell then [f] else []) ∧
    (∀ P s, (∀ v, (w.step P s).2 = .value v → ∃ t h, s = .read t h) → ∀ c,
      chronicle c (A.next P w s).tenures = chronicle c A.tenures) ∧
    (∀ P s, (w.step P s).2 = .granted → ∃ key c k, (w.step P s).1.access? key = some (c, k) ∧
      (A.next P w s).tenures = A.tenures ++ [⟨c, k, []⟩] ∧
      (A.next P w s).current.get? key = some A.tenures.length) ∧
    (∀ w' A' P P' t t' h h' i T T' v v', World.Onward w A w' A' →
      (w.step P (.read t h)).2 = .value v → (w'.step P' (.read t' h')).2 = .value v' →
      A.current.get? (t, h) = some i → A.tenures[i]? = some T →
      A'.current.get? (t', h') = some i → A'.tenures[i]? = some T' →
      T.kind.demand? = some .shared ∨ T'.updates = T.updates → v' = v) ∧
    (∀ c v, w.value? c = some v ∨ .destroyed c v ∈ w.log →
      ∃ a, A.origins[c]? = some a ∧ v = replay a (chronicle c A.tenures)) := by
  have htold := hw.told
  refine ⟨fun P t h v hv => ?_, htold.access, fun P t h c k hkey hfree => ⟨?_, ?_, ?_⟩,
    fun P s t h f v hs hv => hw.change hs hv, fun P s hs c => chronicle_next P w A hs c,
    fun P s hr => ?_, ?_, htold.value⟩
  · obtain ⟨i, T, hshows⟩ := hw.read hv
    refine ⟨i, T, hshows, fun w' A' hon => ?_⟩
    obtain ⟨a, ha, -⟩ := hshows.value
    exact (hon.settled hw (htold.settled hw.reachable hshows.current hshows.tenure ha)).before
  · exact hw.reachable.answered rfl rfl hfree hkey rfl
  · intro hk f
    exact hw.reachable.answered rfl rfl hfree hkey hk
  · intro hk f
    exact hw.reachable.answered rfl rfl hfree hkey hk
  · obtain ⟨key, c, k, hnext, hkey⟩ := next_of_granted (A := A) hr
    refine ⟨key, c, k, hkey, ?_, ?_⟩
    · rw [hnext, Annals.tenures_enroll]
    · rw [hnext, Annals.get?_enroll, if_pos rfl]
  · intro w' A' P P' t t' h h' i T T' v v' hon hv hv' hi hT hi' hT' hsame
    have hshows := hw.read_of_current hv hi hT
    have hshows' := (hon.history hw).read_of_current hv' hi' hT'
    rcases hsame with hd | hsame
    · exact hshows.eq_of_shared hshows' hw hon hd
    · exact hshows.eq_of_onward hshows' hw hon hsame

/-- The world and its annals after some steps. -/
def Annals.run (P : Policy) : List (World.Step α) → World α × Annals α → World α × Annals α
  | [], o => o
  | s :: ss, (w, A) => run P ss ((w.step P s).1, A.next P w s)

theorem World.History.run (P : Policy) : ∀ (ss : List (World.Step α)) {w : World α} {A : Annals α},
    w.History A → (Annals.run P ss (w, A)).1.History (Annals.run P ss (w, A)).2
  | [], _, _, hw => hw
  | s :: ss, _, _, hw => World.History.run P ss (.step P s hw)

/-- A thread changes a value and takes the access into another handle while a second one
waits; this changes the value after it, and a third reads. -/
def relay : World Nat × Annals Nat :=
  Annals.run .taskFair
    [.create "a" .readWrite 1 1, .attempt 0 "a" .write (.named "h"),
      .attempt 1 "a" .write (.named "h"), .update 0 (.named "h") (· + 1), .block 1,
      .take 0 (.named "h") (.named "k"), .update 0 (.named "k") (10 * ·), .release 0 (.named "k"),
      .grant 1, .update 1 (.named "h") (· + 5), .drop 1 (.named "h"),
      .attempt 2 "a" .read (.named "h")]
    (.empty, .empty)

theorem relay_history : relay.1.History relay.2 :=
  .run .taskFair _ .empty

theorem relay_read : (relay.1.step .taskFair (.read 2 (.named "h"))).2 = .value 25 ∧
    (∃ i T, relay.2.Shows (2, .named "h") i T 25) ∧
    ∃ a, relay.2.origins[0]? = some a ∧ 25 = replay a (chronicle 0 relay.2.tenures) ∧
      (chronicle 0 relay.2.tenures).map (· 1) = [2, 10, 6] := by
  have hread : (relay.1.step .taskFair (.read 2 (.named "h"))).2 = .value 25 := rfl
  have hserial := World.History.serializable relay_history
  obtain ⟨i, T, hshows, -⟩ := hserial.1 _ _ _ _ hread
  obtain ⟨a, ha, heq⟩ := hserial.2.2.2.2.2.2.2 0 25 (.inl rfl)
  exact ⟨hread, ⟨i, T, hshows⟩, a, ha, heq, by decide⟩

end Custody.Shared
