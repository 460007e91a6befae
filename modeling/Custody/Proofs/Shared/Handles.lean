/-
# The life of a handle

A handle is made when a request is granted, or when the access is taken out of another
handle. After that few things are done with it: its access is given up or taken out of it,
it gets another name, or it is dropped; all other steps leave it as it is. So a handle
can be followed through any run, and it is locked for as long as it was made locked
and its access was neither given up nor taken.

Key definitions: `Deed`, `Deed.carry`, `World.deed`, `World.follow`, `World.Born`.
Key theorems: `step_handles`, `World.follow_get?`, `carry_gone_iff`, `World.run_origin`.
-/
import Custody.Proofs.Shared.Serial

namespace Custody.Shared

variable {α : Type} {w : World α} {P : Policy}

/-- A thread, and what it calls a handle. -/
abbrev HandleKey := ThreadId × HandleName

/-! ### What is done with handles -/

/-- What a step does with the handles, and the handle that it does it with. -/
inductive Deed where
  | nothing
  /-- The request is granted. -/
  | grant (r : Request)
  | release (key : HandleKey) (h : Handle)
  | take (key new : HandleKey) (h : Handle)
  | move (key new : HandleKey) (h : Handle)
  | drop (key : HandleKey)

/-- The handles after that. -/
def Deed.apply (d : Deed) (ts : Table HandleKey Handle) : Table HandleKey Handle :=
  match d with
  | .nothing => ts
  | .grant r => ts.put (r.thread, r.name) ⟨r.kind, some r.cell⟩
  | .release key h => ts.put key h.released
  | .take key new h => (ts.put key h.released).put new h
  | .move key new h => (ts.erase key).put new h
  | .drop key => ts.erase key

/-- Whether the handle that something is done with is there. -/
def Deed.Fits (d : Deed) (ts : Table HandleKey Handle) : Prop :=
  match d with
  | .release key h | .take key _ h | .move key _ h => ts.get? key = some h
  | _ => True

/-- What a handle is called after that, and whether it lost its access; nothing if it was dropped
or another took its name. -/
def Deed.carry (d : Deed) (key : HandleKey) : Option (HandleKey × Bool) :=
  match d with
  | .nothing => some (key, false)
  | .grant r => if key = (r.thread, r.name) then none else some (key, false)
  | .release key' _ => some (key, key = key')
  | .take key' new _ => if key = new then none else some (key, key = key')
  | .move key' new _ =>
    if key = key' then some (new, false) else if key = new then none else some (key, false)
  | .drop key' => if key = key' then none else some (key, false)

/-- The handle that is made, and its name: it is locked if a request is granted, and in the state
of the one from which the access is taken. -/
def Deed.born? : Deed → Option (HandleKey × Handle)
  | .grant r => some ((r.thread, r.name), ⟨r.kind, some r.cell⟩)
  | .take _ new h => some (new, h)
  | _ => none

/-- The handle, or what is left of it when its access is gone. -/
def Handle.spent (h : Handle) (gone : Bool) : Handle :=
  if gone then h.released else h

@[simp] theorem Handle.spent_false (h : Handle) : h.spent false = h := rfl

@[simp] theorem Handle.spent_true (h : Handle) : h.spent true = h.released := rfl

theorem Handle.spent_spent (h : Handle) (a b : Bool) : (h.spent a).spent b = h.spent (a || b) := by
  cases a <;> cases b <;> rfl

section deed

variable {d : Deed} {ts : Table HandleKey Handle} {key key' : HandleKey} {h : Handle}

/-- A handle that is not dropped is there after a deed, under the name and in the state that the
deed carries it to. -/
theorem Deed.get?_carry {gone : Bool} (hd : d.Fits ts) (hh : ts.get? key = some h)
    (hc : d.carry key = some (key', gone)) : (d.apply ts).get? key' = some (h.spent gone) := by
  cases d with
  | nothing =>
    obtain ⟨rfl, rfl⟩ := Prod.mk.inj (Option.some.inj hc)
    exact hh
  | grant r =>
    simp only [Deed.carry] at hc
    split at hc
    · cases hc
    · rename_i hne
      obtain ⟨rfl, rfl⟩ := Prod.mk.inj (Option.some.inj hc)
      rw [Deed.apply, Table.get?_put, if_neg hne]
      exact hh
  | release k h₀ =>
    obtain ⟨rfl, rfl⟩ := Prod.mk.inj (Option.some.inj hc)
    rw [Deed.apply, Table.get?_put]
    by_cases hk : key = k
    · subst hk
      obtain rfl := Option.some.inj (hd.symm.trans hh)
      simp
    · simpa [hk] using hh
  | take k new h₀ =>
    simp only [Deed.carry] at hc
    split at hc
    · cases hc
    · rename_i hne
      obtain ⟨rfl, rfl⟩ := Prod.mk.inj (Option.some.inj hc)
      rw [Deed.apply, Table.get?_put, if_neg hne, Table.get?_put]
      by_cases hk : key = k
      · subst hk
        obtain rfl := Option.some.inj (hd.symm.trans hh)
        simp
      · simpa [hk] using hh
  | move k new h₀ =>
    simp only [Deed.carry] at hc
    rw [Deed.apply, Table.get?_put, Table.get?_erase]
    split at hc
    · rename_i hk
      subst hk
      obtain rfl := Option.some.inj (hd.symm.trans hh)
      obtain ⟨rfl, rfl⟩ := Prod.mk.inj (Option.some.inj hc)
      simp
    · rename_i hk
      split at hc
      · cases hc
      · rename_i hne
        obtain ⟨rfl, rfl⟩ := Prod.mk.inj (Option.some.inj hc)
        simpa [hk, hne] using hh
  | drop k =>
    simp only [Deed.carry] at hc
    split at hc
    · cases hc
    · rename_i hne
      obtain ⟨rfl, rfl⟩ := Prod.mk.inj (Option.some.inj hc)
      rw [Deed.apply, Table.get?_erase, if_neg hne]
      exact hh

/-- A handle that is there after a deed was carried there, or was made by it. -/
theorem Deed.origin (hd : d.Fits ts) (hh : (d.apply ts).get? key' = some h) :
    (∃ key h₀ gone, ts.get? key = some h₀ ∧ d.carry key = some (key', gone) ∧ h = h₀.spent gone) ∨
      d.born? = some (key', h) := by
  cases d with
  | nothing => exact .inl ⟨key', h, false, hh, rfl, rfl⟩
  | grant r =>
    rw [Deed.apply, Table.get?_put] at hh
    split at hh
    · rename_i hk
      rw [Deed.born?, hk, ← Option.some.inj hh]
      exact .inr rfl
    · rename_i hk
      exact .inl ⟨key', h, false, hh, by simp [Deed.carry, hk], rfl⟩
  | release k h₀ =>
    rw [Deed.apply, Table.get?_put] at hh
    split at hh
    · rename_i hk
      subst hk
      exact .inl ⟨key', h₀, true, hd, by simp [Deed.carry], (Option.some.inj hh).symm⟩
    · rename_i hk
      exact .inl ⟨key', h, false, hh, by simp [Deed.carry, hk], rfl⟩
  | take k new h₀ =>
    rw [Deed.apply, Table.get?_put] at hh
    split at hh
    · rename_i hnew
      rw [Deed.born?, hnew, Option.some.inj hh]
      exact .inr rfl
    · rename_i hnew
      rw [Table.get?_put] at hh
      split at hh
      · rename_i hk
        subst hk
        exact .inl ⟨key', h₀, true, hd, by simp [Deed.carry, hnew], (Option.some.inj hh).symm⟩
      · rename_i hk
        exact .inl ⟨key', h, false, hh, by simp [Deed.carry, hk, hnew], rfl⟩
  | move k new h₀ =>
    rw [Deed.apply, Table.get?_put] at hh
    split at hh
    · rename_i hnew
      obtain rfl := Option.some.inj hh
      exact .inl ⟨k, h₀, false, hd, by simp [Deed.carry, hnew], rfl⟩
    · rename_i hnew
      rw [Table.get?_erase] at hh
      split at hh
      · cases hh
      · rename_i hk
        exact .inl ⟨key', h, false, hh, by simp [Deed.carry, hk, hnew], rfl⟩
  | drop k =>
    rw [Deed.apply, Table.get?_erase] at hh
    split at hh
    · cases hh
    · rename_i hk
      exact .inl ⟨key', h, false, hh, by simp [Deed.carry, hk], rfl⟩

/-- A handle that a deed makes is there after it. -/
theorem Deed.get?_born (hb : d.born? = some (key, h)) : (d.apply ts).get? key = some h := by
  cases d with
  | grant r =>
    obtain ⟨rfl, rfl⟩ := Prod.mk.inj (Option.some.inj hb)
    rw [Deed.apply, Table.get?_put, if_pos rfl]
  | take k new h₀ =>
    obtain ⟨rfl, rfl⟩ := Prod.mk.inj (Option.some.inj hb)
    rw [Deed.apply, Table.get?_put, if_pos rfl]
  | _ => cases hb

end deed

/-! ### What a step does with handles -/

/-- The request that the step asks to be granted. -/
def World.asked? (w : World α) : World.Step α → Option Request
  | .attempt t name access h =>
    (w.requesters.get? name).bind fun c =>
      ((w.flavour? c).bind (·.handle? access)).map fun k => ⟨t, h, c, k, .refused⟩
  | .block t => w.request? t .refused
  | .grant t => w.request? t .waiting
  | _ => none

/-- What a step does with handles that answers that it is done. -/
def World.worked (w : World α) : World.Step α → Deed
  | .release t h => (w.handles.get? (t, h)).elim .nothing (.release (t, h))
  | .take t h new => (w.handles.get? (t, h)).elim .nothing (.take (t, h) (t, new))
  | .move t h new => (w.handles.get? (t, h)).elim .nothing (.move (t, h) (t, new))
  | .drop t h => .drop (t, h)
  | _ => .nothing

/-- What a step does with handles, by its answer. -/
def World.deed (P : Policy) (w : World α) (s : World.Step α) : Deed :=
  match (w.step P s).2 with
  | .granted => (w.asked? s).elim .nothing .grant
  | .done => w.worked s
  | _ => .nothing

theorem fits_elim {key : HandleKey} {d : Handle → Deed}
    (hd : ∀ h, w.handles.get? key = some h → (d h).Fits w.handles) :
    ((w.handles.get? key).elim .nothing d).Fits w.handles := by
  cases h : w.handles.get? key with
  | none => trivial
  | some h₀ => exact hd h₀ h

theorem worked_fits (w : World α) (s : World.Step α) : (w.worked s).Fits w.handles := by
  cases s with
  | release t h => exact fits_elim fun _ hh => hh
  | take t h new => exact fits_elim fun _ hh => hh
  | move t h new => exact fits_elim fun _ hh => hh
  | _ => trivial

/-- Something is done only with a handle that is there. -/
theorem deed_fits (P : Policy) (w : World α) (s : World.Step α) : (w.deed P s).Fits w.handles := by
  unfold World.deed
  split
  · cases w.asked? s <;> trivial
  · exact worked_fits w s
  · trivial

theorem deed_of_granted {s : World.Step α} (hg : (w.step P s).2 = .granted) :
    w.deed P s = (w.asked? s).elim .nothing .grant := by
  unfold World.deed
  rw [hg]

theorem deed_of_done {s : World.Step α} (hd : (w.step P s).2 = .done) : w.deed P s = w.worked s := by
  unfold World.deed
  rw [hd]

theorem deed_eq_nothing {s : World.Step α} (hg : (w.step P s).2 ≠ .granted)
    (hd : (w.step P s).2 ≠ .done) : w.deed P s = .nothing := by
  unfold World.deed
  split
  · exact absurd ‹_› hg
  · exact absurd ‹_› hd
  · rfl

/-- A step that asks for nothing and works with no handle does nothing with one. -/
theorem deed_of_still {s : World.Step α} (hasked : w.asked? s = none) (hworked : w.worked s = .nothing) :
    w.deed P s = .nothing := by
  unfold World.deed
  rw [hasked, hworked]
  split <;> rfl

/-- A step with a handle is made by a thread that does not wait, with a handle that it has, or it
does nothing. -/
theorem step_withHandle {s : World.Step α} {t : ThreadId} {h : HandleName}
    {f : Handle → World α × World.Reply α} (hs : s.thread? = some t)
    (hthread : w.stepThread P s = w.withHandle t h f) :
    (w.step P s).1 = w ∧ (w.step P s).2 ≠ .granted ∧ (w.step P s).2 ≠ .done ∨
    w.isBlocked t = false ∧ ∃ handle, w.handles.get? (t, h) = some handle ∧ w.step P s = f handle := by
  rw [step_of_thread P w hs, hthread]
  unfold World.withHandle
  split
  · exact .inl ⟨rfl, by simp, by simp⟩
  · rename_i hfree
    split
    · exact .inl ⟨rfl, by simp, by simp⟩
    · rename_i handle hh
      exact .inr ⟨by simpa using hfree, handle, hh, rfl⟩

/-- The request is granted and its handle is made, or no handle is touched. -/
def World.Asks (w : World α) (r? : Option Request) (o : World α × World.Reply α) : Prop :=
  o.1.handles = w.handles ∧ o.2 ≠ .granted ∧ o.2 ≠ .done ∨
    ∃ r, r? = some r ∧ o.2 = .granted ∧
      o.1.handles = w.handles.put (r.thread, r.name) ⟨r.kind, some r.cell⟩

theorem stepAttempt_asks (t : ThreadId) (name : String) (access : Access) (h : HandleName) :
    w.Asks (w.asked? (.attempt t name access h)) (w.stepAttempt P t name access h) := by
  simp only [World.stepAttempt, World.asked?]
  cases w.requesters.get? name with
  | none => exact .inl ⟨rfl, by simp, by simp⟩
  | some c =>
    rw [Option.bind_some]
    cases hk : (w.flavour? c).bind (·.handle? access) with
    | none => exact .inl ⟨by simp only [hk], by simp [hk], by simp [hk]⟩
    | some k =>
      simp only [hk]
      split
      · have hown : (w.own c).handles = w.handles := rfl
        exact .inr ⟨⟨t, h, c, k, .refused⟩, rfl, rfl, handles_letIn hown t h c k⟩
      · exact .inl ⟨rfl, by simp, by simp⟩

theorem thread_of_request? {t : ThreadId} {phase : Phase} {r : Request}
    (hr : w.request? t phase = some r) : r.thread = t ∧ r.phase = phase := by
  simpa using List.find?_some hr

theorem stepEnter_asks (t : ThreadId) (phase : Phase) :
    w.Asks (w.request? t phase) (w.stepEnter P t phase) := by
  unfold World.stepEnter
  cases hr : w.request? t phase with
  | none => exact .inl ⟨rfl, by simp, by simp⟩
  | some r =>
    have hrest : (w.withdraw r).handles = w.handles := rfl
    simp only
    split
    · rw [← (thread_of_request? hr).1]
      exact .inr ⟨r, rfl, rfl, handles_letIn hrest r.thread r.name r.cell r.kind⟩
    · cases phase <;> exact .inl ⟨rfl, by simp, by simp⟩

/-- Whether the handles after the step are what its deed makes of those before. -/
def World.DoesDeed (P : Policy) (w : World α) (s : World.Step α) : Prop :=
  ∀ key, (w.step P s).1.handles.get? key = ((w.deed P s).apply w.handles).get? key

theorem doesDeed_nothing {s : World.Step α} (hsame : (w.step P s).1.handles = w.handles)
    (hdeed : w.deed P s = .nothing) : w.DoesDeed P s := by
  intro key
  rw [hsame, hdeed]
  rfl

theorem doesDeed_asks {s : World.Step α} (h : w.Asks (w.asked? s) (w.step P s)) :
    w.DoesDeed P s := by
  rcases h with ⟨hsame, hg, hd⟩ | ⟨r, hasked, hg, hput⟩
  · exact doesDeed_nothing hsame (deed_eq_nothing hg hd)
  · have hdeed : w.deed P s = .grant r := by
      unfold World.deed
      rw [hg, hasked]
      rfl
    intro key
    rw [hput, hdeed]
    rfl

theorem doesDeed_withHandle {s : World.Step α} {t : ThreadId} {h : HandleName}
    {f : Handle → World α × World.Reply α} (hs : s.thread? = some t)
    (hthread : w.stepThread P s = w.withHandle t h f)
    (hf : ∀ handle, w.handles.get? (t, h) = some handle → w.step P s = f handle → w.DoesDeed P s) :
    w.DoesDeed P s := by
  rcases step_withHandle hs hthread with ⟨hw, hg, hd⟩ | ⟨-, handle, hh, heq⟩
  · exact doesDeed_nothing (by rw [hw]) (deed_eq_nothing hg hd)
  · exact hf handle hh heq

/-- Reading or changing a value does nothing with handles. -/
theorem doesDeed_access {s : World.Step α} {t : ThreadId} {h : HandleName}
    {u : World.Use} {f : α → α} (hs : s.thread? = some t)
    (hthread : w.stepThread P s = w.withHandle t h (w.stepAccess u f))
    (hdeed : w.deed P s = .nothing) : w.DoesDeed P s := by
  refine doesDeed_withHandle hs hthread fun handle _ heq => doesDeed_nothing ?_ hdeed
  rw [heq]
  exact (stepAccess_sameRefs _ _ _).handles

/-- **The handles after a step** are those before, after what the step does with them. -/
theorem step_handles (P : Policy) (w : World α) (s : World.Step α) : w.DoesDeed P s := by
  cases s with
  | create name f v near =>
    exact doesDeed_nothing (sameRefs_create w name f v near).handles (deed_of_still rfl rfl)
  | cloneRequester name copy =>
    exact doesDeed_nothing (handles_clone name copy) (deed_of_still rfl rfl)
  | dropRequester name =>
    exact doesDeed_nothing (handles_dropRequester name) (deed_of_still rfl rfl)
  | attempt t name access h =>
    have hstep := step_of_thread P w (s := .attempt t name access h) rfl
    apply doesDeed_asks
    rw [hstep]
    split
    · exact .inl ⟨rfl, by simp, by simp⟩
    · exact stepAttempt_asks t name access h
  | block t => exact doesDeed_asks (stepEnter_asks t .refused)
  | grant t => exact doesDeed_asks (stepEnter_asks t .waiting)
  | read t h => exact doesDeed_access rfl rfl (deed_of_still rfl rfl)
  | update t h f => exact doesDeed_access rfl rfl (deed_of_still rfl rfl)
  | overwrite t h f => exact doesDeed_access rfl rfl (deed_of_still rfl rfl)
  | release t h =>
    refine doesDeed_withHandle rfl rfl fun handle hh heq key => ?_
    have hdeed : w.deed P (.release t h) = .release (t, h) handle := by
      rw [deed_of_done (by rw [heq]), World.worked, hh]
      rfl
    rw [hdeed, heq, (sameRefs_surrender _ _).handles]
    rfl
  | take t h new =>
    refine doesDeed_withHandle rfl rfl fun handle hh heq key => ?_
    have hdeed : w.deed P (.take t h new) = .take (t, h) (t, new) handle := by
      rw [deed_of_done (by rw [heq]), World.worked, hh]
      rfl
    rw [hdeed, heq, (sameRefs_keep _ _ _).handles]
    rfl
  | move t h new =>
    refine doesDeed_withHandle rfl rfl fun handle hh heq key => ?_
    have hdone : (w.step P (.move t h new)).2 = .done := by
      rw [heq]
      split <;> rfl
    have hdeed : w.deed P (.move t h new) = .move (t, h) (t, new) handle := by
      rw [deed_of_done hdone, World.worked, hh]
      rfl
    rw [hdeed, heq]
    split
    · -- the handle gets the name that it has
      rename_i hsame
      subst hsame
      rw [Deed.apply, Table.get?_put, Table.get?_erase]
      split
      · rename_i hkey
        rw [hkey, hh]
      · rfl
    · rw [(sameRefs_keep _ _ _).handles]
      rfl
  | drop t h =>
    refine doesDeed_withHandle rfl rfl fun handle hh heq key => ?_
    have hdeed : w.deed P (.drop t h) = .drop (t, h) := deed_of_done (by rw [heq])
    rw [hdeed, heq, (sameRefs_surrender _ _).handles]
    rfl

/-! ### Following a handle -/

/-- A step carries a handle to the name and the state that its deed carries it to. -/
theorem step_carry {s : World.Step α} {key key' : HandleKey} {h : Handle} {gone : Bool}
    (hh : w.handles.get? key = some h) (hc : (w.deed P s).carry key = some (key', gone)) :
    (w.step P s).1.handles.get? key' = some (h.spent gone) := by
  rw [step_handles P w s]
  exact Deed.get?_carry (deed_fits P w s) hh hc

/-- A handle that is there after a step was there before, or was made by the step. -/
theorem step_origin {s : World.Step α} {key' : HandleKey} {h : Handle}
    (hh : (w.step P s).1.handles.get? key' = some h) :
    (∃ key h₀ gone, w.handles.get? key = some h₀ ∧ (w.deed P s).carry key = some (key', gone) ∧
      h = h₀.spent gone) ∨ (w.deed P s).born? = some (key', h) := by
  rw [step_handles P w s] at hh
  exact Deed.origin (deed_fits P w s) hh

/-- What a handle is called after some steps, and whether it lost its access on the way; nothing if
it was dropped. -/
def World.follow (P : Policy) : World α → List (World.Step α) → HandleKey → Option (HandleKey × Bool)
  | _, [], key => some (key, false)
  | w, s :: ss, key =>
    ((w.deed P s).carry key).bind fun r =>
      (follow P (w.step P s).1 ss r.1).map fun r' => (r'.1, r.2 || r'.2)

/-- **A handle is followed through a run**: it has its state still, or lost its access. -/
theorem World.follow_get? {ss : List (World.Step α)} {key key' : HandleKey} {h : Handle}
    {gone : Bool} (hh : w.handles.get? key = some h) (hf : w.follow P ss key = some (key', gone)) :
    (w.run P ss).handles.get? key' = some (h.spent gone) := by
  induction ss generalizing w key h gone with
  | nil =>
    obtain ⟨rfl, rfl⟩ := Prod.mk.inj (Option.some.inj hf)
    exact hh
  | cons s ss ih =>
    obtain ⟨⟨key₁, gone₁⟩, hcarry, hf⟩ := Option.bind_eq_some_iff.mp hf
    obtain ⟨⟨key₂, gone₂⟩, hrest, heq⟩ := Option.map_eq_some_iff.mp hf
    obtain ⟨rfl, rfl⟩ := Prod.mk.inj heq
    rw [← Handle.spent_spent]
    exact ih (step_carry hh hcarry) hrest

/-- A step makes a handle of that name and in that state: it is locked if a request is granted, and
in the state of the other if the access is taken out of another. -/
inductive World.Born (P : Policy) (w : World α) : World.Step α → HandleKey → Handle → Prop
  | granted {s : World.Step α} {r : Request} : (w.step P s).2 = .granted → w.asked? s = some r →
      Born P w s (r.thread, r.name) ⟨r.kind, some r.cell⟩
  | taken {t : ThreadId} {n new : HandleName} {h : Handle} :
      (w.step P (.take t n new)).2 = .done → w.handles.get? (t, n) = some h →
      Born P w (.take t n new) (t, new) h

theorem born_of_worked {s : World.Step α} {key : HandleKey} {h : Handle}
    (hd : (w.step P s).2 = .done) (hb : (w.worked s).born? = some (key, h)) : w.Born P s key h := by
  cases s with
  | take t n new =>
    cases hh : w.handles.get? (t, n) with
    | none => simp [World.worked, hh, Deed.born?] at hb
    | some h₀ =>
      simp only [World.worked, hh, Option.elim_some, Deed.born?, Option.some.injEq, Prod.mk.injEq] at hb
      obtain ⟨rfl, rfl⟩ := hb
      exact .taken hd hh
  | release t n => cases hh : w.handles.get? (t, n) <;> simp [World.worked, hh, Deed.born?] at hb
  | move t n new => cases hh : w.handles.get? (t, n) <;> simp [World.worked, hh, Deed.born?] at hb
  | _ => cases hb

theorem born_of_deed {s : World.Step α} {key : HandleKey} {h : Handle}
    (hb : (w.deed P s).born? = some (key, h)) : w.Born P s key h := by
  unfold World.deed at hb
  split at hb
  · rename_i hg
    cases hr : w.asked? s with
    | none => simp [hr, Deed.born?] at hb
    | some r =>
      simp only [hr, Option.elim_some, Deed.born?, Option.some.injEq, Prod.mk.injEq] at hb
      obtain ⟨rfl, rfl⟩ := hb
      exact .granted hg hr
  · exact born_of_worked ‹_› hb
  · cases hb

/-- A handle is there after the step that makes it. -/
theorem World.Born.get? {s : World.Step α} {key : HandleKey} {h : Handle} (hb : w.Born P s key h) :
    (w.step P s).1.handles.get? key = some h := by
  rw [step_handles P w s]
  cases hb with
  | granted hg hr =>
    rw [deed_of_granted hg, hr]
    exact Deed.get?_born rfl
  | taken hd hh =>
    rw [deed_of_done hd, World.worked, hh]
    exact Deed.get?_born rfl

/-- A handle loses its access if it is released or the access is taken out of it, and in no other
way. -/
theorem carry_gone_iff {s : World.Step α} {t : ThreadId} {n : HandleName} {h : Handle}
    (hh : w.handles.get? (t, n) = some h) :
    (∃ key, (w.deed P s).carry (t, n) = some (key, true)) ↔ (w.step P s).2 = .done ∧
      (s = .release t n ∨ ∃ new, new ≠ n ∧ s = .take t n new) := by
  constructor
  · rintro ⟨key, hc⟩
    unfold World.deed at hc
    split at hc
    · cases hr : w.asked? s with
      | none => simp [hr, Deed.carry] at hc
      | some r => simp [hr, Deed.carry] at hc
    · rename_i hd
      refine ⟨hd, ?_⟩
      cases s with
      | release t' n' =>
        cases hh' : w.handles.get? (t', n') <;> simp [World.worked, hh', Deed.carry] at hc
        simp [hc]
      | take t' n' new =>
        cases hh' : w.handles.get? (t', n') <;> simp [World.worked, hh', Deed.carry] at hc
        obtain ⟨hne, rfl, rfl, rfl⟩ := hc
        exact .inr ⟨new, fun e => hne rfl e.symm, rfl⟩
      | move t' n' new =>
        cases hh' : w.handles.get? (t', n') <;> simp [World.worked, hh', Deed.carry] at hc
        split at hc <;> simp at hc
      | drop t' n' => simp [World.worked, Deed.carry] at hc
      | _ => simp [World.worked, Deed.carry] at hc
    · simp [Deed.carry] at hc
  · rintro ⟨hd, rfl | ⟨new, hne, rfl⟩⟩
    · refine ⟨(t, n), ?_⟩
      rw [deed_of_done hd, World.worked, hh]
      simp [Deed.carry]
    · refine ⟨(t, n), ?_⟩
      rw [deed_of_done hd, World.worked, hh]
      simp [Deed.carry, Ne.symm hne]

/-- Where the handles after a run come from: each was there before, or a step of the run made it. -/
theorem World.run_origin {ss : List (World.Step α)} {key : HandleKey} {h : Handle}
    (hh : (w.run P ss).handles.get? key = some h) :
    (∃ key₀ h₀ gone, w.handles.get? key₀ = some h₀ ∧ w.follow P ss key₀ = some (key, gone) ∧
      h = h₀.spent gone) ∨
    ∃ before s after key₀ h₀ gone, ss = before ++ s :: after ∧
      (w.run P before).Born P s key₀ h₀ ∧
      ((w.run P before).step P s).1.follow P after key₀ = some (key, gone) ∧ h = h₀.spent gone := by
  induction ss generalizing w with
  | nil => exact .inl ⟨key, h, false, hh, rfl, rfl⟩
  | cons s ss ih =>
    rcases ih hh with ⟨key₁, h₁, gone, hh₁, hfollow, rfl⟩ | ⟨before, s', after, key₀, h₀, gone, rfl, hborn⟩
    · rcases step_origin hh₁ with ⟨key₀, h₀, gone₀, hh₀, hcarry, rfl⟩ | hborn
      · refine .inl ⟨key₀, h₀, gone₀ || gone, hh₀, ?_, Handle.spent_spent ..⟩
        rw [World.follow, hcarry, Option.bind_some, hfollow]
        rfl
      · exact .inr ⟨[], s, ss, key₁, h₁, gone, rfl, born_of_deed hborn, hfollow, rfl⟩
    · exact .inr ⟨s :: before, s', after, key₀, h₀, gone, rfl, hborn⟩

end Custody.Shared
