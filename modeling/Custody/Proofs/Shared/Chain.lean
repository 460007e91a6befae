/-
# Chains of handles

The access of a handle can be taken out into a new one, and out of that one again, any number of
times, while what was emptied is dropped, released or taken from once more. All these handles
are a chain, of which the newest one taken from a locked handle is locked and the others are not.
What is done with handles moves the access up the chain, or it ends with the handle that has
it, when that is released, dropped or overwritten.

Key definitions: `Chain`, `Deed.pass`, `Chain.Fits`, `World.Ends`, `World.Hands`.
Key theorems: `Deed.pass_fits`, `pass_eq_none_iff`, `top_of_pass`, `step_hands`.
-/
import Custody.Proofs.Shared.Asking

namespace Custody.Shared

variable {α : Type} {w : World α} {P : Policy} {s : World.Step α} {h : Handle} {c : CellId}

/-! ### Chains of handles -/

/-- The handles that an access went through. -/
structure Chain where
  /-- The newest one that was taken from a locked handle. -/
  top : HandleKey
  /-- The others that are there, out of which the access was taken, or that were taken out of such. -/
  emptied : List HandleKey

namespace Chain

/-- The chain with another handle at its top. -/
def raise (ch : Chain) (new : HandleKey) : Chain :=
  ⟨new, ch.emptied.filter (· ≠ new)⟩

/-- The chain without the emptied handle of that name, if there is one. -/
def forget (ch : Chain) (key : HandleKey) : Chain :=
  ⟨ch.top, ch.emptied.filter (· ≠ key)⟩

/-- The chain with one emptied handle more. -/
def add (ch : Chain) (key : HandleKey) : Chain :=
  ⟨ch.top, key :: ch.emptied⟩

end Chain

/-- The chain after a deed; nothing if the handle at its top is released, dropped or
overwritten. -/
def Deed.pass (d : Deed) (ch : Chain) : Option Chain :=
  match d with
  | .nothing => some ch
  | .grant r =>
    if ch.top = (r.thread, r.name) then none else some (ch.forget (r.thread, r.name))
  | .release key _ => if ch.top = key then none else some ch
  | .take key new _ =>
    if ch.top = key then some (if new = key then ch else (ch.raise new).add key)
    else if ch.top = new then none
    else some (if key ∈ ch.emptied then (ch.forget new).add new else ch.forget new)
  | .move key new _ =>
    if ch.top = key then some (ch.raise new)
    else if ch.top = new then none
    else some (if key ∈ ch.emptied then ((ch.forget key).forget new).add new else ch.forget new)
  | .drop key => if ch.top = key then none else some (ch.forget key)

/-- Whether the handle at the top of the chain is this one, and the others are what is left of
it when its access is gone. -/
structure Chain.Fits (ch : Chain) (ts : Table HandleKey Handle) (h : Handle) : Prop where
  top : ts.get? ch.top = some h
  emptied : ∀ key ∈ ch.emptied, key ≠ ch.top ∧ ts.get? key = some h.released

section chain

variable {d : Deed} {ts ts' : Table HandleKey Handle} {ch ch' : Chain} {key new : HandleKey}

theorem Chain.Fits.raise (hf : ch.Fits ts h) (hnew : ts'.get? new = some h)
    (hsame : ∀ key ∈ ch.emptied, key ≠ new → ts'.get? key = ts.get? key) :
    (ch.raise new).Fits ts' h := by
  refine ⟨hnew, fun key hkey => ?_⟩
  obtain ⟨hmem, hne⟩ := List.mem_filter.mp hkey
  have hne : key ≠ new := by simpa using hne
  exact ⟨hne, (hsame key hmem hne).trans (hf.emptied key hmem).2⟩

theorem Chain.Fits.forget (hf : ch.Fits ts h) (htop : ts'.get? ch.top = ts.get? ch.top)
    (hsame : ∀ key' ∈ ch.emptied, key' ≠ key → ts'.get? key' = ts.get? key') :
    (ch.forget key).Fits ts' h := by
  refine ⟨htop.trans hf.top, fun key' hkey' => ?_⟩
  obtain ⟨hmem, hne⟩ := List.mem_filter.mp hkey'
  exact ⟨(hf.emptied key' hmem).1, (hsame key' hmem (by simpa using hne)).trans (hf.emptied key' hmem).2⟩

theorem Chain.Fits.add (hf : ch.Fits ts h) (hne : key ≠ ch.top)
    (hkey : ts.get? key = some h.released) : (ch.add key).Fits ts h := by
  refine ⟨hf.top, fun key' hkey' => ?_⟩
  rcases List.mem_cons.mp hkey' with rfl | hmem
  · exact ⟨hne, hkey⟩
  · exact hf.emptied key' hmem

theorem get?_take (ts : Table HandleKey Handle) (k new : HandleKey) (h : Handle) (key : HandleKey) :
    ((Deed.take k new h).apply ts).get? key =
      if key = new then some h else if key = k then some h.released else ts.get? key := by
  rw [Deed.apply, Table.get?_put, Table.get?_put]

theorem get?_move (ts : Table HandleKey Handle) (k new : HandleKey) (h : Handle) (key : HandleKey) :
    ((Deed.move k new h).apply ts).get? key =
      if key = new then some h else if key = k then none else ts.get? key := by
  rw [Deed.apply, Table.get?_put, Table.get?_erase]

theorem pass_release {k : HandleKey} {h₀ : Handle} (hk : ts.get? k = some h₀) (hf : ch.Fits ts h)
    (hp : (Deed.release k h₀).pass ch = some ch') : ch'.Fits ((Deed.release k h₀).apply ts) h := by
  simp only [Deed.pass] at hp
  split at hp
  · cases hp
  · rename_i htop
    obtain rfl := Option.some.inj hp
    refine ⟨?_, fun key hkey => ⟨(hf.emptied key hkey).1, ?_⟩⟩
    · rw [Deed.apply, Table.get?_put, if_neg htop]
      exact hf.top
    · have hreleased := (hf.emptied key hkey).2
      rw [Deed.apply, Table.get?_put]
      split
      · -- what is released already stays as it is
        rename_i heq
        subst heq
        obtain rfl := Option.some.inj (hk.symm.trans hreleased)
        rfl
      · exact hreleased

theorem pass_take {k : HandleKey} {h₀ : Handle} (hk : ts.get? k = some h₀) (hf : ch.Fits ts h)
    (hp : (Deed.take k new h₀).pass ch = some ch') :
    ch'.Fits ((Deed.take k new h₀).apply ts) h := by
  have hget := get?_take ts k new h₀
  simp only [Deed.pass] at hp
  split at hp
  · rename_i htop
    subst htop
    obtain rfl := Option.some.inj (hk.symm.trans hf.top)
    obtain rfl := Option.some.inj hp
    have hrest : ∀ key ∈ ch.emptied, key ≠ new →
        ((Deed.take ch.top new h₀).apply ts).get? key = ts.get? key := by
      intro key hmem hne
      rw [hget, if_neg hne, if_neg (hf.emptied key hmem).1]
    split
    · rename_i hnew
      subst hnew
      refine ⟨by rw [hget, if_pos rfl], fun key hmem => ?_⟩
      have hne := (hf.emptied key hmem).1
      exact ⟨hne, (hrest key hmem hne).trans (hf.emptied key hmem).2⟩
    · rename_i hnew
      refine (hf.raise ?_ hrest).add (Ne.symm hnew) ?_
      · rw [hget, if_pos rfl]
      · rw [hget, if_neg (Ne.symm hnew), if_pos rfl]
  · rename_i htop
    split at hp
    · cases hp
    · rename_i hnew
      obtain rfl := Option.some.inj hp
      have htop' : ((Deed.take k new h₀).apply ts).get? ch.top = ts.get? ch.top := by
        rw [hget, if_neg hnew, if_neg htop]
      split
      · rename_i hmem
        obtain rfl := Option.some.inj (hk.symm.trans (hf.emptied k hmem).2)
        refine (hf.forget htop' fun key hkey hne => ?_).add (Ne.symm hnew) ?_
        · -- the one that is taken from is emptied already
          rw [hget, if_neg hne, (hf.emptied key hkey).2]
          split <;> rfl
        · rw [hget, if_pos rfl]
      · rename_i hmem
        refine hf.forget htop' fun key hkey hne => ?_
        rw [hget, if_neg hne, if_neg (ne_of_mem_of_not_mem hkey hmem)]

theorem pass_move {k : HandleKey} {h₀ : Handle} (hk : ts.get? k = some h₀) (hf : ch.Fits ts h)
    (hp : (Deed.move k new h₀).pass ch = some ch') :
    ch'.Fits ((Deed.move k new h₀).apply ts) h := by
  have hget := get?_move ts k new h₀
  simp only [Deed.pass] at hp
  split at hp
  · rename_i htop
    subst htop
    obtain rfl := Option.some.inj (hk.symm.trans hf.top)
    obtain rfl := Option.some.inj hp
    refine hf.raise (by rw [hget, if_pos rfl]) fun key hmem hne => ?_
    rw [hget, if_neg hne, if_neg (hf.emptied key hmem).1]
  · rename_i htop
    split at hp
    · cases hp
    · rename_i hnew
      obtain rfl := Option.some.inj hp
      have htop' : ((Deed.move k new h₀).apply ts).get? ch.top = ts.get? ch.top := by
        rw [hget, if_neg hnew, if_neg htop]
      split
      · rename_i hmem
        obtain rfl := Option.some.inj (hk.symm.trans (hf.emptied k hmem).2)
        have hold : (ch.forget k).Fits ts h := hf.forget rfl fun _ _ _ => rfl
        refine (hold.forget htop' fun key hkey hne => ?_).add (Ne.symm hnew) ?_
        · rw [hget, if_neg hne, if_neg (by simpa using (List.mem_filter.mp hkey).2)]
        · rw [hget, if_pos rfl]
      · rename_i hmem
        refine hf.forget htop' fun key hkey hne => ?_
        rw [hget, if_neg hne, if_neg (ne_of_mem_of_not_mem hkey hmem)]

/-- **A deed leaves a chain a chain**, unless it ends the access. -/
theorem Deed.pass_fits (hd : d.Fits ts) (hf : ch.Fits ts h) (hp : d.pass ch = some ch') :
    ch'.Fits (d.apply ts) h := by
  cases d with
  | nothing =>
    obtain rfl := Option.some.inj hp
    exact hf
  | grant r =>
    simp only [Deed.pass] at hp
    split at hp
    · cases hp
    · rename_i htop
      obtain rfl := Option.some.inj hp
      refine hf.forget ?_ fun key _ hne => ?_
      · rw [Deed.apply, Table.get?_put, if_neg htop]
      · rw [Deed.apply, Table.get?_put, if_neg hne]
  | release k h₀ => exact pass_release hd hf hp
  | take k new h₀ => exact pass_take hd hf hp
  | move k new h₀ => exact pass_move hd hf hp
  | drop k =>
    simp only [Deed.pass] at hp
    split at hp
    · cases hp
    · rename_i htop
      obtain rfl := Option.some.inj hp
      refine hf.forget ?_ fun key _ hne => ?_
      · rw [Deed.apply, Table.get?_erase, if_neg htop]
      · rw [Deed.apply, Table.get?_erase, if_neg hne]

/-- The top of a chain is passed on when the access is taken out of it, or it is moved, and by no
other deed. -/
theorem Deed.top_of_pass (hp : d.pass ch = some ch') :
    ch'.top = ch.top ∨ ∃ h, d = .take ch.top ch'.top h ∨ d = .move ch.top ch'.top h := by
  cases d with
  | take k new h₀ =>
    simp only [Deed.pass] at hp
    split at hp
    · rename_i htop
      obtain rfl := Option.some.inj hp
      split
      · exact .inl rfl
      · exact .inr ⟨h₀, .inl (by rw [htop]; rfl)⟩
    · grind [Chain.forget, Chain.add]
  | move k new h₀ =>
    simp only [Deed.pass] at hp
    split at hp
    · rename_i htop
      obtain rfl := Option.some.inj hp
      exact .inr ⟨h₀, .inr (by rw [htop]; rfl)⟩
    · grind [Chain.forget, Chain.add]
  | _ =>
    simp only [Deed.pass] at hp
    grind [Chain.forget]

end chain

/-! ### The end of an access -/

/-- The handle of that name is released, dropped or overwritten by the step. -/
inductive World.Ends (P : Policy) (w : World α) : HandleKey → World.Step α → Prop
  | released {t : ThreadId} {n : HandleName} : (w.step P (.release t n)).2 = .done →
      Ends P w (t, n) (.release t n)
  | dropped {t : ThreadId} {n : HandleName} : (w.step P (.drop t n)).2 = .done →
      Ends P w (t, n) (.drop t n)
  /-- A new handle gets the name. -/
  | granted {s : World.Step α} {r : Request} : (w.step P s).2 = .granted → w.asked? s = some r →
      Ends P w (r.thread, r.name) s
  /-- The access of another handle is taken into it. -/
  | taken {t : ThreadId} {n n' : HandleName} : n' ≠ n → (w.step P (.take t n' n)).2 = .done →
      Ends P w (t, n) (.take t n' n)
  /-- Another handle gets the name. -/
  | moved {t : ThreadId} {n n' : HandleName} : n' ≠ n → (w.step P (.move t n' n)).2 = .done →
      Ends P w (t, n) (.move t n' n)

section ends

variable {ch ch' : Chain}

/-- What is done with a handle is done by a thread that does not wait, with a handle that it has. -/
theorem handle_of_done {t : ThreadId} {n : HandleName} {f : Handle → World α × World.Reply α}
    (hs : s.thread? = some t) (hthread : w.stepThread P s = w.withHandle t n f)
    (hdone : (w.step P s).2 = .done) :
    ∃ handle, w.handles.get? (t, n) = some handle ∧ w.step P s = f handle := by
  rcases step_withHandle hs hthread with ⟨-, -, hnot⟩ | ⟨-, handle, hh, heq⟩
  · exact absurd hdone hnot
  · exact ⟨handle, hh, heq⟩

/-- Where the access is taken out of a handle, or one is moved, a step does that. -/
theorem step_of_deed {key new : HandleKey} (hd : w.deed P s = .take key new h ∨ w.deed P s = .move key new h) :
    ∃ t n m, key = (t, n) ∧ new = (t, m) ∧ (s = .take t n m ∨ s = .move t n m) := by
  unfold World.deed at hd
  split at hd
  · cases hr : w.asked? s <;> simp [hr] at hd
  · cases s with
    | take t n m =>
      cases hh : w.handles.get? (t, n) <;> simp [World.worked, hh] at hd
      exact ⟨t, n, m, hd.1.symm, hd.2.1.symm, .inl rfl⟩
    | move t n m =>
      cases hh : w.handles.get? (t, n) <;> simp [World.worked, hh] at hd
      exact ⟨t, n, m, hd.1.symm, hd.2.1.symm, .inr rfl⟩
    | release t n => cases hh : w.handles.get? (t, n) <;> simp [World.worked, hh] at hd
    | _ => simp [World.worked] at hd
  · simp at hd

/-- **The access is passed on** if it is taken out of the handle that has it, or that is moved, and
in no other way. -/
theorem top_of_pass (hp : (w.deed P s).pass ch = some ch') :
    ch'.top = ch.top ∨ ∃ t n m, ch.top = (t, n) ∧ ch'.top = (t, m) ∧ (s = .take t n m ∨ s = .move t n m) := by
  rcases Deed.top_of_pass hp with heq | ⟨h, hd⟩
  · exact .inl heq
  · exact .inr (step_of_deed hd)

/-- The access of the handle at the top can be taken out of it, by a thread that does not wait. -/
theorem pass_take_top {t : ThreadId} {n : HandleName} (hf : ch.Fits w.handles h) (htop : ch.top = (t, n))
    (hfree : w.isBlocked t = false) (new : HandleName) :
    ∃ ch', (w.deed P (.take t n new)).pass ch = some ch' ∧ ch'.top = (t, new) := by
  have hh := hf.top
  rw [htop] at hh
  have hdone : (w.step P (.take t n new)).2 = .done := by
    rw [step_of_thread P w rfl, hfree]
    simp [World.stepThread, World.withHandle, hh]
  rw [deed_of_done hdone, World.worked, hh]
  simp only [Option.elim_some, Deed.pass, htop, if_true]
  refine ⟨_, rfl, ?_⟩
  split
  · rename_i hnew
    rw [hnew, htop]
  · rfl

theorem pass_take_eq_none_iff (k new : HandleKey) (h : Handle) :
    (Deed.take k new h).pass ch = none ↔ ch.top ≠ k ∧ ch.top = new := by
  simp only [Deed.pass]
  split
  · simp_all
  · split <;> simp_all

theorem pass_move_eq_none_iff (k new : HandleKey) (h : Handle) :
    (Deed.move k new h).pass ch = none ↔ ch.top ≠ k ∧ ch.top = new := by
  simp only [Deed.pass]
  split
  · simp_all
  · split <;> simp_all

/-- What is done with a handle ends the access that it has. -/
theorem ends_of_worked (hdone : (w.step P s).2 = .done) (hp : (w.worked s).pass ch = none) :
    w.Ends P ch.top s := by
  cases s with
  | release t n =>
    obtain ⟨handle, hh, -⟩ := handle_of_done (s := .release t n) rfl rfl hdone
    simp [World.worked, hh, Deed.pass] at hp
    rw [hp]
    exact .released hdone
  | take t n new =>
    obtain ⟨handle, hh, -⟩ := handle_of_done (s := .take t n new) rfl rfl hdone
    rw [World.worked, hh, Option.elim_some, pass_take_eq_none_iff] at hp
    rw [hp.2]
    refine .taken ?_ hdone
    rintro rfl
    exact hp.1 hp.2
  | move t n new =>
    obtain ⟨handle, hh, -⟩ := handle_of_done (s := .move t n new) rfl rfl hdone
    rw [World.worked, hh, Option.elim_some, pass_move_eq_none_iff] at hp
    rw [hp.2]
    refine .moved ?_ hdone
    rintro rfl
    exact hp.1 hp.2
  | drop t n =>
    simp [World.worked, Deed.pass] at hp
    rw [hp]
    exact .dropped hdone
  | _ => simp [World.worked, Deed.pass] at hp

/-- The access does not go on in a chain if the handle that has it goes. -/
theorem World.Ends.pass {key : HandleKey} (he : w.Ends P key s) (htop : ch.top = key) :
    (w.deed P s).pass ch = none := by
  cases he with
  | released hd =>
    obtain ⟨handle, hh, -⟩ := handle_of_done rfl rfl hd
    rw [deed_of_done hd]
    simp [World.worked, hh, Deed.pass, htop]
  | dropped hd =>
    rw [deed_of_done hd]
    simp [World.worked, Deed.pass, htop]
  | granted hg hr =>
    rw [deed_of_granted hg, hr]
    simp [Deed.pass, htop]
  | taken hne hd =>
    obtain ⟨handle, hh, -⟩ := handle_of_done rfl rfl hd
    rw [deed_of_done hd, World.worked, hh, Option.elim_some, pass_take_eq_none_iff, htop]
    exact ⟨fun e => hne (Prod.mk.inj e).2.symm, rfl⟩
  | moved hne hd =>
    obtain ⟨handle, hh, -⟩ := handle_of_done rfl rfl hd
    rw [deed_of_done hd, World.worked, hh, Option.elim_some, pass_move_eq_none_iff, htop]
    exact ⟨fun e => hne (Prod.mk.inj e).2.symm, rfl⟩

/-- **An access ends** if the handle that has it is released, dropped or overwritten, and in no
other way. -/
theorem pass_eq_none_iff (P : Policy) (w : World α) (s : World.Step α) (ch : Chain) :
    (w.deed P s).pass ch = none ↔ w.Ends P ch.top s := by
  refine ⟨fun hp => ?_, fun he => he.pass rfl⟩
  unfold World.deed at hp
  split at hp
  · rename_i hg
    cases hr : w.asked? s with
    | none => simp [hr, Deed.pass] at hp
    | some r =>
      simp only [hr, Option.elim_some, Deed.pass, ite_eq_left_iff, reduceCtorEq, imp_false,
        Classical.not_not] at hp
      rw [hp]
      exact .granted hg hr
  · exact ends_of_worked ‹_› hp
  · simp [Deed.pass] at hp

end ends

/-! ### Passing the access on -/

/-- What can be done with the handles of a chain without an end of the access: what is emptied
is released or dropped, and what one of them has is taken into a new one, or moved; what had the
name of the new one has no access of its own. -/
inductive World.Hands (w : World α) (ch : Chain) : World.Step α → Prop
  | release {t : ThreadId} {n : HandleName} : (t, n) ∈ ch.emptied → Hands w ch (.release t n)
  | drop {t : ThreadId} {n : HandleName} : (t, n) ∈ ch.emptied → Hands w ch (.drop t n)
  | take {t : ThreadId} {n new : HandleName} : (t, n) = ch.top ∨ (t, n) ∈ ch.emptied →
      (new = n ∨ ∀ old, w.handles.get? (t, new) = some old → old.grant = none) →
      Hands w ch (.take t n new)
  | move {t : ThreadId} {n new : HandleName} : (t, n) = ch.top ∨ (t, n) ∈ ch.emptied →
      (new = n ∨ ∀ old, w.handles.get? (t, new) = some old → old.grant = none) →
      Hands w ch (.move t n new)

/-- Storing a handle in place of one without access changes nothing else. -/
theorem keep_of_released {key : HandleKey}
    (hold : ∀ old, w.handles.get? key = some old → old.grant = none) (h : Handle) :
    w.keep key h = { w with handles := w.handles.put key h } := by
  unfold World.keep
  cases hk : w.handles.get? key with
  | none => rfl
  | some old => exact World.surrender_of_none (hold old hk) _

/-- Whether the two worlds have the same cells, locks, owners and values, the same requesters and
requests, and the same log: they differ in what handles are called, and which has access. -/
def World.SameButHandles (w w' : World α) : Prop :=
  w' = { w with handles := w'.handles }

theorem sameButHandles_of_done {t : ThreadId} {n : HandleName} {f : Handle → World α × World.Reply α}
    (hs : s.thread? = some t) (hthread : w.stepThread P s = w.withHandle t n f)
    (hf : ∀ handle, w.handles.get? (t, n) = some handle → w.SameButHandles (f handle).1) :
    w.SameButHandles (w.step P s).1 := by
  rcases step_withHandle hs hthread with ⟨heq, -⟩ | ⟨-, handle, hh, heq⟩
  · rw [heq]
    rfl
  · rw [heq]
    exact hf handle hh

section hands

variable {ch ch' : Chain}

theorem World.Hands.not_ends (hs : w.Hands ch s) (hf : ch.Fits w.handles h) (hg : h.grant = some c) :
    ¬ w.Ends P ch.top s := by
  have hlocked : ∀ {key : HandleKey}, ch.top = key →
      ¬ ∀ old, w.handles.get? key = some old → old.grant = none := by
    rintro key rfl hnone
    have := hnone h hf.top
    simp [hg] at this
  intro he
  generalize htop : ch.top = key at he
  cases he with
  | released _ =>
    cases hs with
    | release hmem => exact (hf.emptied _ hmem).1 htop.symm
  | dropped _ =>
    cases hs with
    | drop hmem => exact (hf.emptied _ hmem).1 htop.symm
  | granted _ hr => cases hs <;> cases hr
  | taken hne _ =>
    cases hs with
    | take _ hnew => exact hnew.elim (fun e => hne e.symm) (hlocked htop)
  | moved hne _ =>
    cases hs with
    | move _ hnew => exact hnew.elim (fun e => hne e.symm) (hlocked htop)

/-- **Passing the access on changes nothing** but which handle has it. -/
theorem step_hands (hs : w.Hands ch s) (hf : ch.Fits w.handles h) :
    w.SameButHandles (w.step P s).1 := by
  cases hs with
  | release hmem =>
    refine sameButHandles_of_done rfl rfl fun handle hh => ?_
    obtain rfl := Option.some.inj (hh.symm.trans (hf.emptied _ hmem).2)
    rw [World.surrender_of_none rfl]
    rfl
  | drop hmem =>
    refine sameButHandles_of_done rfl rfl fun handle hh => ?_
    obtain rfl := Option.some.inj (hh.symm.trans (hf.emptied _ hmem).2)
    rw [World.surrender_of_none rfl]
    rfl
  | @take t n new _ hnew =>
    refine sameButHandles_of_done rfl rfl fun handle hh => ?_
    rw [keep_of_released fun old hold => ?_]
    · rfl
    · -- what had the name is what was just emptied, or had no access before
      rw [Table.get?_put] at hold
      split at hold
      · rw [← Option.some.inj hold]
        rfl
      · rename_i hne
        exact hnew.elim (fun e => absurd (by rw [e]) hne) fun hnone => hnone old hold
  | @move t n new _ hnew =>
    refine sameButHandles_of_done rfl rfl fun handle hh => ?_
    split
    · rfl
    · rename_i hne
      rw [keep_of_released fun old hold => ?_]
      · rfl
      · rw [Table.get?_erase] at hold
        split at hold
        · cases hold
        · exact hnew.elim (fun e => absurd e.symm hne) fun hnone => hnone old hold

end hands

end Custody.Shared
