/-
# Identities of requesters and handles agree

Cells that are there at the same time have different addresses, though a new cell can have
the address of one that is gone. So comparing two requesters tells whether they were cloned
from the same one, and comparing two locked handles whether those that they were minted from
were: through whatever hands the access took, and if the requesters are gone. What is
released is equal to all that is released, and comes before all that is locked. And since a
handle that writes, or reads one at a time, is the only one on its cell, two of these are
equal only if both are released.

Key definitions: `World.Apart`, `World.Tells`.
Key theorems: `Reachable.apart`, `Descent.tells`, `Reachable.identities_agree`.
-/
import Custody.Proofs.Identity
import Custody.Proofs.Shared.Addresses
import Custody.Proofs.Shared.Descent

namespace Custody.Shared

variable {α : Type} {w : World α} {P : Policy} {c c' : CellId}

/-! ### Cells at the same time -/

/-- Whether the cells that are there have different addresses. -/
def World.Apart (w : World α) : Prop :=
  ∀ c c' a, w.addresses[c]? = some a → w.addresses[c']? = some a → ¬ w.Gone c → ¬ w.Gone c' → c = c'

/-- What is gone stays so. -/
theorem Edits.gone {d d' : Draft α} (he : Edits d d') (hc : d.world.Gone c) : d'.world.Gone c := by
  induction he with
  | refl => exact hc
  | tail _ h ih => exact h.deaths.keeps ih

theorem World.mem_taken {a : Nat} (ha : w.addresses[c]? = some a) (hc : ¬ w.Gone c) :
    a ∈ w.taken := by
  unfold World.addresses at ha
  rw [List.getElem?_map] at ha
  obtain ⟨cell, hcell, rfl⟩ := Option.map_eq_some_iff.mp ha
  have hvalue : cell.value.isSome = true := by
    cases hv : cell.value with
    | none => exact absurd ⟨cell, hcell, hv⟩ hc
    | some v => rfl
  exact List.mem_map.mpr ⟨cell, List.mem_filter.mpr ⟨List.mem_of_getElem? hcell, hvalue⟩, rfl⟩

/-- No two cells that are there have the same address. -/
theorem World.Reachable.apart (hw : w.Reachable) : w.Apart := by
  induction hw with
  | empty => exact fun c c' a hc => by simp [World.addresses, World.empty] at hc
  | step P s hw ih =>
    rename_i w
    have hthere : ∀ {c}, ¬ (w.step P s).1.Gone c → ¬ w.Gone c :=
      fun hc hgone => hc ((step_edits hw.sound s).gone hgone)
    intro c c' a hc hc' hg hg'
    rcases step_addresses P w s with heq | ⟨near, heq⟩
    · rw [heq] at hc hc'
      exact ih c c' a hc hc' (hthere hg) (hthere hg')
    · rw [heq] at hc hc'
      -- the address of the new cell is none of those that are taken
      have hfresh : ∀ {c}, w.addresses[c]? = some (freeAddress w.taken near) →
          ¬ ¬ (w.step P s).1.Gone c :=
        fun hc hg => freeAddress_not_mem w.taken near (World.mem_taken hc (hthere hg))
      rcases Births.getElem?_concat_eq_some hc with hc | ⟨hlast, ha⟩ <;>
        rcases Births.getElem?_concat_eq_some hc' with hc' | ⟨hlast', ha'⟩
      · exact ih c c' a hc hc' (hthere hg) (hthere hg')
      · exact absurd hg (hfresh (ha' ▸ hc))
      · exact absurd hg' (hfresh (ha ▸ hc'))
      · exact hlast.trans hlast'.symm

/-! ### What has a keeper -/

theorem World.identity_of_getElem? {a : Nat} (ha : w.addresses[c]? = some a) :
    w.identity (some c) = ⟨a⟩ := by
  unfold World.addresses at ha
  rw [List.getElem?_map] at ha
  obtain ⟨cell, hcell, rfl⟩ := Option.map_eq_some_iff.mp ha
  exact World.identity_of_cell hcell

/-- Two cells that are kept have the same identity only if they are the same. -/
theorem World.Reachable.identity_eq_iff (hw : w.Reachable) (hc : w.Kept c) (hc' : w.Kept c') :
    w.identity (some c) = w.identity (some c') ↔ c = c' := by
  have hthere : ∀ {c}, w.Kept c → ¬ w.Gone c := fun hkept hgone => (hw.gone_iff.mp hgone).2 hkept
  have haddress : ∀ {c}, w.Kept c → ∃ a, w.addresses[c]? = some a := by
    intro c hkept
    refine ⟨_, List.getElem?_eq_getElem (l := w.addresses) (i := c) ?_⟩
    simpa [World.addresses] using hw.lt_of_kept hkept
  constructor
  · intro heq
    obtain ⟨a, ha⟩ := haddress hc
    obtain ⟨a', ha'⟩ := haddress hc'
    rw [World.identity_of_getElem? ha, World.identity_of_getElem? ha'] at heq
    obtain rfl : a = a' := congrArg Identity.address heq
    exact hw.apart c c' a ha ha' (hthere hc) (hthere hc')
  · intro heq
    rw [heq]

theorem Handle.isValid_iff {h : Handle} : h.isValid = true ↔ ∃ c, h.grant = some c :=
  Option.isSome_iff_exists

theorem World.identity_of_released {h : Handle} (hh : h.isValid = false) :
    w.identityOf h = ⟨0⟩ :=
  World.identityOf_of_none (Option.isNone_iff_eq_none.mp (Option.isSome_eq_false_iff.mp hh)) w

/-! ### What identities tell -/

/-- What comparing requesters, and handles, tells of where they come from. -/
structure World.Tells (w : World α) (D : Lineage) : Prop where
  /-- Each requester descends by clones from one that was made. -/
  descends : ∀ name c, w.requesters.get? name = some c →
    ∃ u r, D.requesters.get? name = some u ∧ D.births.Descends r u
  /-- Requesters are the same if they descend from the same one. -/
  requesters : ∀ name name' c c', w.requesters.get? name = some c →
    w.requesters.get? name' = some c' →
    ∃ u u', D.requesters.get? name = some u ∧ D.requesters.get? name' = some u' ∧
      (w.identity (some c)).Tells (w.identity (some c')) (D.births.SameMake u u')
  /-- Locked handles are the same if those that they were minted from were. -/
  locked : ∀ key key' h h', w.handles.get? key = some h → w.handles.get? key' = some h' →
    h.isValid = true → h'.isValid = true →
    ∃ u u', D.handles.get? key = some u ∧ D.handles.get? key' = some u' ∧
      (w.identityOf h).Tells (w.identityOf h') (D.births.SameMake u u')
  /-- Released handles have the identity of what refers to nothing. -/
  released : ∀ key key' h h', w.handles.get? key = some h → w.handles.get? key' = some h' →
    h.isValid = false → h'.isValid = false →
    w.identityOf h = ⟨0⟩ ∧ (w.identityOf h).Tells (w.identityOf h') True
  /-- They come before all that are locked. -/
  released_first : ∀ key key' h h', w.handles.get? key = some h → w.handles.get? key' = some h' →
    h.isValid = false → h'.isValid = true →
    (w.identityOf h).compare (w.identityOf h') = .lt
  /-- Where only one at a time can be had, no two that are locked are the same. -/
  exclusive : ∀ key key' h h', key ≠ key' → w.handles.get? key = some h →
    w.handles.get? key' = some h' → h.kind = h'.kind →
    h.kind ∈ [.write, .uncheckedWrite, .serialized, .serializedConst] →
    (w.identityOf h).Tells (w.identityOf h') (h.isValid = false ∧ h'.isValid = false)

section tells

variable {D : Lineage} {cells : List CellId}

/-- Numbers are of the same make if their cells are the same. -/
theorem Lineage.Agrees.sameMake_iff (ha : D.Agrees w cells) {i i' : Nat}
    (hi : cells[i]? = some c) (hi' : cells[i']? = some c') : D.births.SameMake i i' ↔ c = c' := by
  have hlt : ∀ {i : Nat} {c : CellId}, cells[i]? = some c → i < D.births.length := by
    intro i c h
    rw [← ha.marked.length]
    exact (List.getElem?_eq_some_iff.mp h).1
  rw [ha.marked.sameMake_iff (hlt hi) (hlt hi'), hi, hi', Option.some.injEq]

/-- Two handles on which a lock is held exclusively are equal only if they are released. -/
theorem World.Reachable.exclusive_eq_iff (hw : w.Reachable) {key key' : HandleKey} {h h' : Handle}
    (hne : key ≠ key') (hh : w.handles.get? key = some h) (hh' : w.handles.get? key' = some h')
    (hd : h.kind.demand? = some .exclusive) (hd' : h'.kind.demand? = some .exclusive) :
    w.identityOf h = w.identityOf h' ↔ h.isValid = false ∧ h'.isValid = false := by
  constructor
  · intro heq
    have hnull := congrArg Identity.isNull heq
    rw [hw.isNull_identity hh, hw.isNull_identity hh'] at hnull
    cases hv : h.isValid with
    | false => exact ⟨rfl, by simpa [hv] using hnull.symm⟩
    | true =>
      have hv' : h'.isValid = true := by simpa [hv] using hnull.symm
      obtain ⟨c, hg⟩ := Handle.isValid_iff.mp hv
      obtain ⟨c', hg'⟩ := Handle.isValid_iff.mp hv'
      have hkept : w.Kept c := .inl (.inr ⟨key, h, hh, hg⟩)
      rw [World.identityOf_of_some hg, World.identityOf_of_some hg'] at heq
      obtain rfl := (hw.identity_eq_iff hkept (.inl (.inr ⟨key', h', hh', hg'⟩))).mp heq
      have hcell := List.getElem?_eq_getElem (hw.lt_of_kept hkept)
      exact absurd (hw.eq_of_exclusive hcell hh hh' hg hg' hd (by simp [hd'])) hne
  · rintro ⟨hv, hv'⟩
    rw [World.identity_of_released hv, World.identity_of_released hv']

theorem demand_of_exclusive {k : HandleKind}
    (hk : k ∈ [.write, .uncheckedWrite, .serialized, .serializedConst]) :
    k.demand? = some .exclusive := by
  simp only [List.mem_cons, List.not_mem_nil, or_false] at hk
  rcases hk with rfl | rfl | rfl | rfl <;> rfl

theorem World.Descent.tells (hD : w.Descent D) : w.Tells D := by
  have hw := hD.reachable
  obtain ⟨cells, ha⟩ := hD.agrees
  have hrequester : ∀ {name c}, w.requesters.get? name = some c →
      ∃ u, D.requesters.get? name = some u ∧ cells[u]? = some c := by
    intro name c hc
    exact Tracks.mark_eq (hc ▸ ha.requesters name)
  have hhandle : ∀ {key h c}, w.handles.get? key = some h → h.grant = some c →
      ∃ u, D.handles.get? key = some u ∧ cells[u]? = some c := by
    intro key h c hh hg
    have htracks := ha.handles key
    rw [hh, Option.bind_some, hg] at htracks
    exact htracks.mark_eq
  refine ⟨fun name c hc => ?_, fun name name' c c' hc hc' => ?_,
    fun key key' h h' hh hh' hv hv' => ?_, fun key key' h h' _ _ hv hv' => ?_,
    fun key key' h h' hh hh' hv hv' => ?_, fun key key' h h' hne hh hh' hk hd => ?_⟩
  · obtain ⟨u, hu, hmark⟩ := hrequester hc
    have hlt : u < D.births.length := by
      rw [← ha.marked.length]
      exact (List.getElem?_eq_some_iff.mp hmark).1
    obtain ⟨r, hr⟩ := ha.marked.exists_make hlt
    exact ⟨u, r, hu, hr⟩
  · obtain ⟨u, hu, hmark⟩ := hrequester hc
    obtain ⟨u', hu', hmark'⟩ := hrequester hc'
    refine ⟨u, u', hu, hu', Identity.tells_of_eq_iff ?_⟩
    rw [ha.sameMake_iff hmark hmark']
    exact hw.identity_eq_iff (.inl (.inl ⟨name, hc⟩)) (.inl (.inl ⟨name', hc'⟩))
  · obtain ⟨c, hg⟩ := Handle.isValid_iff.mp hv
    obtain ⟨c', hg'⟩ := Handle.isValid_iff.mp hv'
    obtain ⟨u, hu, hmark⟩ := hhandle hh hg
    obtain ⟨u', hu', hmark'⟩ := hhandle hh' hg'
    refine ⟨u, u', hu, hu', Identity.tells_of_eq_iff ?_⟩
    rw [ha.sameMake_iff hmark hmark', World.identityOf_of_some hg, World.identityOf_of_some hg']
    exact hw.identity_eq_iff (.inl (.inr ⟨key, h, hh, hg⟩)) (.inl (.inr ⟨key', h', hh', hg'⟩))
  · rw [World.identity_of_released hv, World.identity_of_released hv']
    exact ⟨rfl, Identity.tells_of_eq_iff ⟨fun _ => trivial, fun _ => rfl⟩⟩
  · apply Identity.compare_eq_lt_of_isNull
    · rw [hw.isNull_identity hh, hv]
      rfl
    · rw [hw.isNull_identity hh', hv']
      rfl
  · have hd' := demand_of_exclusive hd
    exact Identity.tells_of_eq_iff (hw.exclusive_eq_iff hne hh hh' hd' (hk ▸ hd'))

end tells

/-- **The identities of requesters and handles agree.** A new cell can have any address that no
cell has which is still there, so that of one that is gone too. All the same, in every reachable
world, however all that is in it came about, comparing requesters tells whether they descend from
the same one, and comparing handles whether those that they were minted from do; and the order
is total, and agrees with that of addresses. -/
theorem World.Reachable.identities_agree (hw : w.Reachable) :
    (∃ D, w.Descent D) ∧ (∀ D, w.Descent D → w.Tells D) ∧
    (∀ P name f v near, ∃ a, (w.step P (.create name f v near)).1.addresses = w.addresses ++ [a] ∧
      a ≠ 0 ∧ a ∉ w.taken ∧ (near ≠ 0 → near ∉ w.taken → a = near)) ∧
    Std.TransCmp Identity.compare ∧ Std.LawfulEqCmp Identity.compare ∧
    ∀ a b : Identity, (a.compare b = .lt ↔ a.address < b.address) ∧
      (a.compare b ≠ .lt ↔ b.address ≤ a.address) := by
  refine ⟨hw.exists_descent, fun D hD => hD.tells, fun P name f v near => ?_, inferInstance,
    inferInstance, fun a b => ⟨Identity.compare_eq_lt a b, ?_⟩⟩
  · refine ⟨freeAddress w.taken near, ?_, freeAddress_ne_zero _ near, freeAddress_not_mem _ near,
      freeAddress_of_free⟩
    refine (addresses_disown? _ _).trans ?_
    exact List.map_append
  · rw [← Nat.not_lt]
    exact not_congr (Identity.compare_eq_lt a b)

/-- A cell at the address 5 is gone, another is there. A handle was minted from its requester,
which is gone too, and one from a clone of it; the access was taken out of that one. -/
def recycled : World Nat :=
  World.run .taskFair .empty
    [.create "a" .serialized 7 5, .dropRequester "a", .create "b" .readWrite 8 5,
      .cloneRequester "b" "c", .attempt 0 "b" .read (.named "h"),
      .attempt 0 "c" .read (.named "k"), .take 0 (.named "k") (.named "l"), .dropRequester "b"]

theorem recycled_reachable : recycled.Reachable :=
  .run .taskFair _ .empty

theorem recycled_tells : recycled.addresses = [5, 5] ∧ recycled.destroyed = [0] ∧
    recycled.requesters.get? "b" = none ∧
    recycled.handles.get? (0, .named "h") = some ⟨.read, some 1⟩ ∧
    recycled.handles.get? (0, .named "k") = some ⟨.read, none⟩ ∧
    recycled.handles.get? (0, .named "l") = some ⟨.read, some 1⟩ ∧
    ∀ D, recycled.Descent D → ∃ u u', D.handles.get? (0, .named "h") = some u ∧
      D.handles.get? (0, .named "l") = some u' ∧ D.births.SameMake u u' := by
  have hh : recycled.handles.get? (0, .named "h") = some ⟨.read, some 1⟩ := by decide
  have hl : recycled.handles.get? (0, .named "l") = some ⟨.read, some 1⟩ := by decide
  refine ⟨by decide, by decide, by decide, hh, by decide, hl, fun D hD => ?_⟩
  have htells := (World.Reachable.identities_agree recycled_reachable).2.1 D hD
  obtain ⟨u, u', hu, hu', hsame⟩ := htells.locked _ _ _ _ hh hl rfl rfl
  exact ⟨u, u', hu, hu', hsame.eq.mp rfl⟩

end Custody.Shared
