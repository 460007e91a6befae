/-
# Access that is passed on

Passing an access on changes nothing but which handle has it: not the lock, nor who owns the
cell, nor who waits. So nobody slips in between: those whom the access excludes are refused and
wait for as long as it goes on, through whatever handles, and all the while it shows the
same cell, and the same value unless the one who has it changes that. Only with its end is
the lock given up, and the cell.

Key definitions: `World.ushered`, `World.Carries`, `World.passes`.
Key theorems: `Ends.cells`, `Reachable.value_of_step`, `Reachable.carries`, `World.passes_fits`,
`Reachable.access_passed`.
-/
import Custody.Proofs.Shared.Chain
import Custody.Proofs.Shared.Deadlock
import Custody.Proofs.Shared.Identity

namespace Custody.Shared

variable {α : Type} {w : World α} {P : Policy} {s : World.Step α} {h : Handle} {c : CellId}

/-! ### What an access holds, and gives up -/

theorem cells_disown_congr {w' : World α} (hcells : w'.cells = w.cells) (c : CellId) :
    (w'.disown c).cells = (w.disown c).cells := by
  unfold World.disown
  rw [hcells]
  cases w.cells[c]? with
  | none => exact hcells
  | some cell =>
    simp only [World.modifyCell, hcells]
    split <;> rfl

theorem cells_relock_congr {w' : World α} (hcells : w'.cells = w.cells) (f : Hold → Demand → Hold)
    (c : CellId) (k : HandleKind) : (w'.relock f c k).cells = (w.relock f c k).cells := by
  unfold World.relock
  split
  · exact hcells
  · exact congrArg (List.modify · c _) hcells

/-- What giving up a handle does to the cells depends on the cells only. -/
theorem cells_surrender_congr {w' : World α} (hcells : w'.cells = w.cells) (h : Handle) :
    (w'.surrender h).cells = (w.surrender h).cells := by
  cases hg : h.grant with
  | none => rw [World.surrender_of_none hg, World.surrender_of_none hg, hcells]
  | some c =>
    rw [World.surrender_eq hg, World.surrender_eq hg]
    exact cells_disown_congr (cells_relock_congr hcells _ c h.kind) c

/-- The world where the request has entered that the step asks to be granted, if it is. -/
def World.ushered (P : Policy) (w : World α) (s : World.Step α) : World α :=
  match (w.step P s).2, w.asked? s with
  | .granted, some r => (if r ∈ w.requests then w else w.own r.cell).enter r.cell r.kind
  | _, _ => w

theorem ushered_of_done (hdone : (w.step P s).2 = .done) : w.ushered P s = w := by
  unfold World.ushered
  rw [hdone]

/-- What is stored takes the place of a handle that gives up what it holds. -/
theorem cells_keep {key : HandleKey} (hh : w.handles.get? key = some h) (new : Handle) :
    (w.keep key new).cells = (w.surrender h).cells := by
  unfold World.keep
  rw [hh]
  refine cells_surrender_congr ?_ h
  rfl

theorem cells_letIn {t : ThreadId} {name : HandleName} (hh : w.handles.get? (t, name) = some h)
    (c : CellId) (k : HandleKind) :
    (w.letIn t name c k).cells = ((w.enter c k).surrender h).cells := by
  have hsame : ((w.enter c k).note (.granted t c k)).handles = w.handles :=
    (sameRefs_relock Hold.enter w c k).handles
  have hthere : ((w.enter c k).note (.granted t c k)).handles.get? (t, name) = some h := by
    rw [hsame, hh]
  refine (cells_keep hthere ⟨k, some c⟩).trans (cells_surrender_congr ?_ h)
  rfl

/-- A request that is granted enters the lock, and what had the name of its handle gives up what it
holds. -/
theorem cells_ushered {r : Request} (hg : (w.step P s).2 = .granted) (hr : w.asked? s = some r)
    (hh : w.handles.get? (r.thread, r.name) = some h) :
    (w.step P s).1.cells = ((w.ushered P s).surrender h).cells := by
  unfold World.ushered
  rw [hg, hr]
  rcases step_granted hr hg with ⟨-, hfree, -, hstep⟩ | ⟨-, hmem, -, hstep⟩
  · rw [hstep]
    simp only [not_mem_of_free hfree, if_false]
    refine cells_letIn ?_ _ _
    exact hh
  · rw [hstep]
    simp only [hmem, if_true]
    have hwithdrawn : (w.withdraw r).cells = w.cells := rfl
    refine (cells_letIn ?_ _ _).trans (cells_surrender_congr (cells_relock_congr hwithdrawn _ _ _) h)
    exact hh

/-- **With the end of an access its part of the lock is given up, and the cell.** -/
theorem World.Ends.cells {key : HandleKey} (he : w.Ends P key s) (hh : w.handles.get? key = some h) :
    (w.step P s).1.cells = ((w.ushered P s).surrender h).cells := by
  cases he with
  | released hd =>
    obtain ⟨handle, hh', heq⟩ := handle_of_done rfl rfl hd
    obtain rfl := Option.some.inj (hh'.symm.trans hh)
    rw [ushered_of_done hd, heq]
    refine cells_surrender_congr ?_ handle
    rfl
  | dropped hd =>
    obtain ⟨handle, hh', heq⟩ := handle_of_done rfl rfl hd
    obtain rfl := Option.some.inj (hh'.symm.trans hh)
    rw [ushered_of_done hd, heq]
    refine cells_surrender_congr ?_ handle
    rfl
  | @taken t n n' hne hd =>
    obtain ⟨handle, -, heq⟩ := handle_of_done rfl rfl hd
    have hkey : (t, n) ≠ (t, n') := fun e => hne (Prod.mk.inj e).2.symm
    rw [ushered_of_done hd, heq]
    refine (cells_keep ?_ handle).trans (cells_surrender_congr ?_ h)
    · rw [Table.get?_put, if_neg hkey, hh]
    · rfl
  | @moved t n n' hne hd =>
    obtain ⟨handle, -, heq⟩ := handle_of_done rfl rfl hd
    have hkey : (t, n) ≠ (t, n') := fun e => hne (Prod.mk.inj e).2.symm
    rw [ushered_of_done hd, heq, if_neg hne]
    refine (cells_keep ?_ handle).trans (cells_surrender_congr ?_ h)
    · rw [Table.get?_erase, if_neg hkey, hh]
    · rfl
  | granted hg hr => exact cells_ushered hg hr hh

/-! ### What an access shows -/

/-- The handle through which the step changes a value. -/
def World.Step.changer? : World.Step α → Option HandleKey
  | .update t n _ | .overwrite t n _ => some (t, n)
  | _ => none

theorem fades_tries {r : Request} (ht : w.Tries P s r) : Fades w (w.step P s).1 := by
  have hown : Fades w (w.own r.cell) := fades_modifyCell fun _ _ => rfl
  have hwithdraw : Fades w (w.withdraw r) := fades_of_cells rfl fun _ _ hv => hv
  cases ht with
  | blocked _ _ hstep | waits _ _ _ _ hstep =>
    rw [hstep]
    exact fades_refl w
  | enters _ _ _ hstep =>
    rw [hstep]
    exact hown.trans (fades_letIn _ _ _ _ _)
  | entersLater _ _ _ hstep =>
    rw [hstep]
    exact hwithdraw.trans (fades_letIn _ _ _ _ _)
  | contends _ _ _ _ hstep =>
    have hask : Fades (w.own r.cell) { w.own r.cell with requests := w.requests ++ [r] } :=
      fades_of_cells rfl fun _ _ hv => hv
    rw [hstep]
    exact (hown.trans hask).trans (fades_note rfl _)
  | queues _ _ _ _ hstep =>
    rw [hstep]
    exact fades_of_cells rfl fun _ _ hv => hv

theorem fades_withHandle {t : ThreadId} {n : HandleName} {f : Handle → World α × World.Reply α}
    (hs : s.thread? = some t) (hthread : w.stepThread P s = w.withHandle t n f)
    (hf : ∀ handle, Fades w (f handle).1) : Fades w (w.step P s).1 := by
  rcases step_withHandle hs hthread with ⟨heq, -⟩ | ⟨-, handle, -, heq⟩
  · rw [heq]
    exact fades_refl w
  · rw [heq]
    exact hf handle

theorem fades_asks (hs : s.asks = true) : Fades w (w.step P s).1 := by
  cases hr : w.asked? s with
  | none =>
    rw [(step_unasked P hs hr).1]
    exact fades_refl w
  | some r => exact fades_tries (step_tries P hr)

/-- What a step leaves of the value of a cell that was there, unless it changes one. -/
theorem value_of_calm (hs : s.changer? = none) (hc : c < w.cells.length) {v : α}
    (hv : (w.step P s).1.value? c = some v) : w.value? c = some v := by
  have hhandles : ∀ ts, Fades w { w with handles := ts } := fun _ => fades_of_cells rfl fun _ _ hv => hv
  cases s with
  | create name f u near =>
    rcases value_of_create hv with hold | ⟨rfl, -⟩
    · exact hold
    · exact absurd hc (Nat.lt_irrefl _)
  | cloneRequester name copy => exact (fades_clone name copy).value c v hv
  | dropRequester name => exact (fades_dropRequester name).value c v hv
  | read t n => exact (fades_withHandle rfl rfl fades_read).value c v hv
  | update t n f => cases hs
  | overwrite t n f => cases hs
  | release t n =>
    exact (fades_withHandle rfl rfl fun _ => (hhandles _).trans (fades_surrender _ _)).value c v hv
  | take t n new =>
    exact (fades_withHandle rfl rfl fun _ => (hhandles _).trans (fades_keep _ _ _)).value c v hv
  | move t n new =>
    refine (fades_withHandle rfl rfl fun handle => ?_).value c v hv
    split
    · exact fades_refl w
    · exact (hhandles _).trans (fades_keep _ _ _)
  | drop t n =>
    exact (fades_withHandle rfl rfl fun _ => (hhandles _).trans (fades_surrender _ _)).value c v hv
  | attempt t name access n => exact (fades_asks rfl).value c v hv
  | block t => exact (fades_asks rfl).value c v hv
  | grant t => exact (fades_asks rfl).value c v hv

/-- Who changes a value must be alone with it. -/
theorem thread_of_changer {t : ThreadId} {n : HandleName} (hs : s.changer? = some (t, n)) :
    ∃ u f, s.thread? = some t ∧ w.stepThread P s = w.withHandle t n (w.stepAccess u f) ∧
      ∀ k, World.Use.allows u k = true → k.demand? = some .exclusive := by
  cases s with
  | update t n f =>
    cases hs
    exact ⟨.update, f, rfl, rfl, fun _ hk => demand?_of_mayWrite hk⟩
  | overwrite t n f =>
    cases hs
    exact ⟨.overwrite, f, rfl, rfl, fun _ hk => demand?_of_isSerialized hk⟩
  | _ => cases hs

/-- **The value of a cell that one has access to** is not changed by anyone else. -/
theorem World.Reachable.value_of_step (hw : w.Reachable) {key : HandleKey}
    (hh : w.handles.get? key = some h) (hg : h.grant = some c) (hs : s.changer? ≠ some key) {v : α}
    (hv : (w.step P s).1.value? c = some v) : w.value? c = some v := by
  cases hch : s.changer? with
  | none => exact value_of_calm hch (hw.lt_of_kept (.inl (.inr ⟨key, h, hh, hg⟩))) hv
  | some key' =>
    obtain ⟨u, f, hthread, hstep, hallowed⟩ :=
      thread_of_changer (w := w) (P := P) (t := key'.1) (n := key'.2) hch
    rcases step_withHandle hthread hstep with ⟨heq, -⟩ | ⟨-, handle, hh', heq⟩
    · rwa [heq] at hv
    · rw [heq] at hv
      rcases w.stepAccess_cases u f handle with ⟨r, heq, -⟩ | ⟨c', v', hk, hg', hv', heq⟩
      · rwa [heq] at hv
      · rw [heq, value?_write hv'] at hv
        split at hv
        · rename_i hcc
          subst hcc
          have haccess : w.access? key = some (c, h.kind) := by
            rw [World.access?_eq_some, hh, ← hg]
          have haccess' : w.access? key' = some (c, handle.kind) := by
            rw [World.access?_eq_some, hh', ← hg']
          have hkey := hw.alone haccess' (hallowed _ hk) haccess
          exact absurd (hkey ▸ hch) hs
        · exact hv

theorem identity_of_step (hc : c < w.cells.length) :
    (w.step P s).1.identity (some c) = w.identity (some c) := by
  have hlt : c < w.addresses.length := by simpa [World.addresses] using hc
  have ha : w.addresses[c]? = some w.addresses[c] := List.getElem?_eq_getElem hlt
  have ha' : (w.step P s).1.addresses[c]? = some w.addresses[c] := by
    rcases step_addresses P w s with heq | ⟨near, heq⟩
    · rw [heq, ha]
    · rw [heq, List.getElem?_append_left hlt, ha]
  rw [World.identity_of_getElem? ha, World.identity_of_getElem? ha']

/-! ### What others are refused -/

theorem World.Reachable.keepsOut_of_excludes (hw : w.Reachable) {key : HandleKey} {r : Request}
    (hh : w.handles.get? key = some h) (hg : h.grant = some r.cell)
    (hx : h.kind.excludes r.kind = true) : w.KeepsOut P r := by
  obtain ⟨d, d', hd, hd', hx⟩ := HandleKind.excludes_iff.mp hx
  rcases hx with rfl | rfl
  · exact hw.keepsOut_of_exclusive hh hg hd hd'
  · exact hw.keepsOut_exclusive hh hg (by simp [hd]) hd'

/-- Who is not let in leaves the lock as it is; but a request that is new keeps the cell. -/
theorem step_refused {r : Request} (hk : w.KeepsOut P r) (hr : w.asked? s = some r) :
    (w.step P s).2 ≠ .granted ∧ ((w.step P s).1.cells = w.cells ∨
      (w.step P s).2 = .contended ∧ (w.step P s).1.cells = (w.own r.cell).cells) := by
  have hout : (w.withdraw r).admits P r.cell r.kind = false := hk r.phase
  refine ⟨fun hg => ?_, ?_⟩
  · rw [admits_of_granted hr hg] at hout
    cases hout
  · cases step_tries P hr with
    | blocked _ _ hstep | waits _ _ _ _ hstep | queues _ _ _ _ hstep => exact .inl (by rw [hstep])
    | contends _ _ _ _ hstep => exact .inr ⟨by rw [hstep], by rw [hstep]; rfl⟩
    | enters _ hfree hadmits _ =>
      rw [withdraw_of_not_mem (not_mem_of_free hfree), hadmits] at hout
      cases hout
    | entersLater _ _ hadmits _ =>
      rw [hadmits] at hout
      cases hout

/-! ### Access that goes on -/

/-- What holds of the world while an access goes on, with the chain of the handles that it went
through. -/
structure World.Carries (P : Policy) (w : World α) (h : Handle) (ch : Chain) : Prop where
  /-- The handle at the top has the access, and all others are released. -/
  fits : ch.Fits w.handles h
  /-- The access can be taken out of the handle that has it, into a new one. -/
  takes : ∀ t n new, ch.top = (t, n) → w.isBlocked t = false →
    ∃ ch', (w.deed P (.take t n new)).pass ch = some ch' ∧ ch'.top = (t, new)
  /-- It goes to another handle in that way only, or with a new name. -/
  newest : ∀ s ch', (w.deed P s).pass ch = some ch' → ch'.top ≠ ch.top →
    ∃ t n new, ch.top = (t, n) ∧ ch'.top = (t, new) ∧ (s = .take t n new ∨ s = .move t n new)
  /-- The lock is held as the access says. -/
  held : ∀ c cell, h.grant = some c → w.cells[c]? = some cell → cell.hold.HeldAs h.kind.demand?
  /-- What passes it on, or is done with what was emptied, changes nothing else. -/
  hands : ∀ s, w.Hands ch s →
    (∃ ch', (w.deed P s).pass ch = some ch') ∧ w.SameButHandles (w.step P s).1
  /-- Nobody is let in whom the access excludes; a request that is new keeps the cell, and no other
  changes it. -/
  refuses : ∀ s r, w.asked? s = some r → h.grant = some r.cell → h.kind.excludes r.kind = true →
    (w.step P s).2 ≠ .granted ∧ ((w.step P s).1.cells = w.cells ∨
      (w.step P s).2 = .contended ∧ (w.step P s).1.cells = (w.own r.cell).cells)
  /-- Nobody but who has the access changes what is read. -/
  value : ∀ s ch', (w.deed P s).pass ch = some ch' → s.changer? ≠ some ch.top →
    (w.step P s).1.read? h = w.read? h
  /-- When it ends its part of the lock is given up, and the cell. -/
  ends : ∀ s, w.Ends P ch.top s → (w.step P s).1.cells = ((w.ushered P s).surrender h).cells

section carries

variable {ch ch' : Chain} {key : HandleKey}

/-- **A step leaves a chain a chain**, unless it ends the access. -/
theorem Chain.Fits.step (hf : ch.Fits w.handles h) (hp : (w.deed P s).pass ch = some ch') :
    ch'.Fits (w.step P s).1.handles h := by
  have hfits := Deed.pass_fits (deed_fits P w s) hf hp
  have hhandles := step_handles P w s
  refine ⟨(hhandles _).trans hfits.top, fun key hkey => ⟨(hfits.emptied key hkey).1, ?_⟩⟩
  exact (hhandles key).trans (hfits.emptied key hkey).2

theorem World.Reachable.read_of_step (hw : w.Reachable) (hf : ch.Fits w.handles h)
    (hg : h.grant = some c) (hp : (w.deed P s).pass ch = some ch') (hs : s.changer? ≠ some ch.top) :
    (w.step P s).1.read? h = w.read? h := by
  obtain ⟨v, hv⟩ := (hw.step P s).read_of_grant (hf.step hp).top hg
  rw [hv]
  rw [(hw.step P s).read?_eq (hf.step hp).top, hg] at hv
  rw [hw.read?_eq hf.top, hg]
  exact (hw.value_of_step hf.top hg hs hv).symm

theorem World.Reachable.carries (hw : w.Reachable) (hf : ch.Fits w.handles h)
    (hg : h.grant = some c) (P : Policy) : w.Carries P h ch where
  fits := hf
  takes t n new htop hfree := pass_take_top hf htop hfree new
  newest s ch' hp hne := (top_of_pass hp).resolve_left hne
  held c cell hg hc := hw.heldAs hc hf.top hg
  hands s hs := by
    refine ⟨?_, step_hands hs hf⟩
    cases hp : (w.deed P s).pass ch with
    | none => exact absurd ((pass_eq_none_iff P w s ch).mp hp) (hs.not_ends hf hg)
    | some ch' => exact ⟨ch', rfl⟩
  refuses s r hr hg hx := step_refused (hw.keepsOut_of_excludes hf.top hg hx) hr
  value s ch' hp hs := hw.read_of_step hf hg hp hs
  ends s he := he.cells hf.top

/-- The chain of the handles that an access went through in some steps; nothing if it ended. -/
def World.passes (P : Policy) : World α → List (World.Step α) → Chain → Option Chain
  | _, [], ch => some ch
  | w, s :: ss, ch => ((w.deed P s).pass ch).bind (passes P (w.step P s).1 ss)

/-- **A run leaves a chain a chain**, unless it ends the access; those whom it excludes wait all the
while, and it shows the same cell, and the same value if nobody changes one. -/
theorem World.passes_fits : ∀ {ss : List (World.Step α)} {w : World α} {ch ch' : Chain},
    w.Reachable → ch.Fits w.handles h → h.grant = some c → w.passes P ss ch = some ch' →
    ch'.Fits (w.run P ss).handles h ∧
      (∀ r, h.grant = some r.cell → h.kind.excludes r.kind = true → w.Awaits r →
        (w.run P ss).Awaits r) ∧
      (w.run P ss).identityOf h = w.identityOf h ∧
      ((∀ s ∈ ss, s.changer? = none) → (w.run P ss).read? h = w.read? h)
  | [], w, ch, ch', _, hf, _, hp => by
    obtain rfl := Option.some.inj hp
    exact ⟨hf, fun _ _ _ ha => ha, rfl, fun _ => rfl⟩
  | s :: ss, w, ch, ch', hw, hf, hg, hp => by
    obtain ⟨ch₁, hp₁, hp⟩ := Option.bind_eq_some_iff.mp hp
    obtain ⟨hfits, hawaits, hidentity, hread⟩ := passes_fits (hw.step P s) (hf.step hp₁) hg hp
    have hlt : c < w.cells.length := hw.lt_of_kept (.inl (.inr ⟨ch.top, h, hf.top, hg⟩))
    refine ⟨hfits, fun r hgr hx ha => ?_, ?_, fun hcalm => ?_⟩
    · exact hawaits r hgr hx (ha.step (hw.keepsOut_of_excludes hf.top hgr hx) s)
    · refine hidentity.trans ?_
      rw [World.identityOf_of_some hg, World.identityOf_of_some hg]
      exact identity_of_step hlt
    · refine (hread fun s' hs' => hcalm s' (List.mem_cons_of_mem _ hs')).trans ?_
      refine hw.read_of_step hf hg hp₁ ?_
      simp [hcalm s List.mem_cons_self]

theorem passes_append : ∀ (before after : List (World.Step α)) (w : World α) (ch : Chain),
    w.passes P (before ++ after) ch =
      (w.passes P before ch).bind ((w.run P before).passes P after)
  | [], _, _, _ => rfl
  | s :: before, after, w, ch => by
    cases hp : (w.deed P s).pass ch with
    | none => simp only [List.cons_append, World.passes, hp, Option.bind_none]
    | some ch₁ =>
      simp only [List.cons_append, World.passes, hp, Option.bind_some]
      exact passes_append before after _ ch₁

/-- An access ended in a run if one of its steps ended it. -/
theorem passes_eq_none_iff : ∀ {ss : List (World.Step α)} {w : World α} {ch : Chain},
    w.passes P ss ch = none ↔ ∃ before s after ch', ss = before ++ s :: after ∧
      w.passes P before ch = some ch' ∧ (w.run P before).Ends P ch'.top s := by
  intro ss
  induction ss with
  | nil =>
    intro w ch
    constructor
    · intro hp
      cases hp
    · rintro ⟨before, s, after, -, heq, -⟩
      simp at heq
  | cons s ss ih =>
    intro w ch
    constructor
    · intro hp
      cases hp₁ : (w.deed P s).pass ch with
      | none => exact ⟨[], s, ss, ch, rfl, rfl, (pass_eq_none_iff P w s ch).mp hp₁⟩
      | some ch₁ =>
        rw [World.passes, hp₁, Option.bind_some] at hp
        obtain ⟨before, s', after, ch', rfl, hbefore, hends⟩ := ih.mp hp
        refine ⟨s :: before, s', after, ch', rfl, ?_, hends⟩
        rw [World.passes, hp₁, Option.bind_some, hbefore]
    · rintro ⟨before, s', after, ch', heq, hbefore, hends⟩
      rw [heq, passes_append, hbefore, Option.bind_some, World.passes,
        (pass_eq_none_iff P _ s' ch').mpr hends, Option.bind_none]

end carries

/-- **Access is passed on without a gap.** Let a handle be locked, whatever its kind, and its access
go on through any steps of any threads. Then it has gone through a chain of handles, of which the
one at the top is locked and all others are released. The lock is held as it was, and
passing the access on, or doing anything with what was emptied, changes nothing but the handles.
Nobody is let in whom the access excludes, and those who wait do so still. The handle
shows the same cell, and the same value as long as nobody changes it through the handle. And the
access ends if and only if the handle that has it is released, dropped or overwritten. -/
theorem World.Reachable.access_passed (hw : w.Reachable) {key : HandleKey}
    (hh : w.handles.get? key = some h) (hvalid : h.isValid = true) (P : Policy) :
    (∀ ss ch, w.passes P ss ⟨key, []⟩ = some ch →
      (w.run P ss).Carries P h ch ∧
      (∀ before after r, ss = before ++ after → h.grant = some r.cell →
        h.kind.excludes r.kind = true → (w.run P before).Awaits r → (w.run P ss).Awaits r) ∧
      (w.run P ss).identityOf h = w.identityOf h ∧
      ((∀ s ∈ ss, s.changer? = none) → (w.run P ss).read? h = w.read? h)) ∧
    ∀ ss, w.passes P ss ⟨key, []⟩ = none ↔ ∃ before s after ch, ss = before ++ s :: after ∧
      w.passes P before ⟨key, []⟩ = some ch ∧ (w.run P before).Ends P ch.top s := by
  obtain ⟨c, hg⟩ := Handle.isValid_iff.mp hvalid
  have hf : Chain.Fits ⟨key, []⟩ w.handles h := ⟨hh, fun key hkey => by cases hkey⟩
  refine ⟨fun ss ch hp => ?_, fun ss => passes_eq_none_iff⟩
  obtain ⟨hfits, -, hidentity, hread⟩ := World.passes_fits hw hf hg hp
  refine ⟨(hw.run P ss).carries hfits hg P, fun before after r hss hgr hx ha => ?_, hidentity, hread⟩
  subst hss
  rw [passes_append] at hp
  obtain ⟨ch₁, hbefore, hafter⟩ := Option.bind_eq_some_iff.mp hp
  have hfits₁ := (World.passes_fits hw hf hg hbefore).1
  rw [run_append]
  exact (World.passes_fits (hw.run P before) hfits₁ hg hafter).2.1 r hgr hx ha

/-- A thread can write, and another waits to read. -/
def contested : World Nat :=
  World.run .taskFair .empty
    [.create "a" .readWrite 7 1, .attempt 0 "a" .write (.named "h"),
      .attempt 1 "a" .read (.named "h"), .block 1]

theorem contested_reachable : contested.Reachable :=
  .run .taskFair _ .empty

/-- The access is taken twice, and once more out of what is empty then; the lock would let in who
waits, if it could. -/
def handedOn : List (World.Step Nat) :=
  [.take 0 (.named "h") (.named "k"), .grant 1, .take 0 (.named "h") (.named "l"),
    .take 0 (.named "k") (.named "m"), .drop 0 (.named "h"), .release 0 (.named "k"), .grant 1]

theorem contested_handedOn :
    contested.passes .taskFair handedOn ⟨(0, .named "h"), []⟩ =
      some ⟨(0, .named "m"), [(0, .named "k"), (0, .named "l")]⟩ ∧
    (contested.run .taskFair handedOn).handles.get? (0, .named "m") = some ⟨.write, some 0⟩ ∧
    (contested.run .taskFair handedOn).read? ⟨.write, some 0⟩ = some 7 ∧
    (contested.run .taskFair handedOn).Awaits ⟨1, .named "h", 0, .read, .waiting⟩ ∧
    contested.passes .taskFair (handedOn ++ [.drop 0 (.named "m")]) ⟨(0, .named "h"), []⟩ = none := by
  have hh : contested.handles.get? (0, .named "h") = some ⟨.write, some 0⟩ := by decide
  have hpassed := World.Reachable.access_passed contested_reachable hh rfl .taskFair
  have hchain : contested.passes .taskFair handedOn ⟨(0, .named "h"), []⟩ =
      some ⟨(0, .named "m"), [(0, .named "k"), (0, .named "l")]⟩ := rfl
  obtain ⟨hcarries, hawaits, -, hread⟩ := hpassed.1 _ _ hchain
  refine ⟨hchain, hcarries.fits.top, (hread (by decide)).trans rfl, ?_, ?_⟩
  · exact hawaits [] handedOn ⟨1, .named "h", 0, .read, .waiting⟩ rfl rfl rfl ⟨.waiting, by decide⟩
  · exact (hpassed.2 _).mpr ⟨handedOn, .drop 0 (.named "m"), [], _, rfl, hchain, .dropped rfl⟩

end Custody.Shared
