/-
# What all changes of a world preserve

A draft is sound if each cell has as many owners as there are keepers of it, its value
is there as long as it has one, and its lock is held by its holders and by no one else.
Most edits leave the cells as they are and move a keeper from one place to another;
the others change one cell.

Key definitions: `Cell.Fits`, `Sound`.
Key theorems: `Sound.of_cells`, `Sound.of_modifyCell`, `Edit.sound`, `Edits.induct`.
-/
import Custody.Proofs.Shared.Draft
import Custody.Proofs.Shared.Hold

namespace Custody.Shared

variable {α : Type} {w : World α} {hand : List Handle} {owed : List CellId}

/-- What a cell with that many owners and holders is like. -/
structure Cell.Fits (cell : Cell α) (n : Nat) (holders : Demand → Nat) : Prop where
  owners : cell.owners = n
  alive : cell.value.isSome ↔ 0 < n
  hold : cell.hold.Fits holders

/-- What holds of a draft at all times. -/
structure Sound (d : Draft α) : Prop where
  requesters : d.world.requesters.keys.Nodup
  handles : d.world.handles.keys.Nodup
  cells : ∀ (c : CellId) cell, d.world.cells[c]? = some cell → cell.Fits (d.keepers c) (d.holders c)
  there : ∀ c, 0 < d.keepers c → c < d.world.cells.length
  fits : ∀ h ∈ d.handles, ∀ c, h.grant = some c → d.world.Offers c h.kind
  asked : ∀ r ∈ d.world.requests, d.world.Offers r.cell r.kind

theorem Cell.Fits.congr {cell : Cell α} {n n' : Nat} {g g' : Demand → Nat} (hf : cell.Fits n g)
    (hn : n' = n) (hg : ∀ x, g' x = g x) : cell.Fits n' g' := by
  obtain rfl : g' = g := funext hg
  rw [hn]
  exact hf

/-! ### Edits that leave the cells as they are -/

/-- If no cell changes and as many own and hold each of them as before, all is sound. -/
theorem Sound.of_cells {d d' : Draft α} (hs : Sound d) (hcells : d'.world.cells = d.world.cells)
    (hkeepers : ∀ c, d'.keepers c = d.keepers c) (hholders : ∀ c x, d'.holders c x = d.holders c x)
    (hrequesters : d'.world.requesters.keys.Nodup) (hhandles : d'.world.handles.keys.Nodup)
    (hfits : ∀ h ∈ d'.handles, h ∈ d.handles ∨ ∀ c, h.grant = some c → d.world.Offers c h.kind)
    (hasked : ∀ r ∈ d'.world.requests, r ∈ d.world.requests ∨ d.world.Offers r.cell r.kind) :
    Sound d' := by
  have hoffers : ∀ c k, d'.world.Offers c k ↔ d.world.Offers c k := fun c k => by
    simp only [World.Offers, World.flavour?, hcells]
  refine ⟨hrequesters, hhandles, fun c cell hc => ?_, fun c hc => ?_, fun h hh c hg => ?_, fun r hr => ?_⟩
  · rw [hcells] at hc
    exact (hs.cells c cell hc).congr (hkeepers c) (hholders c)
  · rw [hkeepers] at hc
    rw [hcells]
    exact hs.there c hc
  · rw [hoffers]
    rcases hfits h hh with hmem | hoff
    · exact hs.fits h hmem c hg
    · exact hoff c hg
  · rw [hoffers]
    rcases hasked r hr with hmem | hoff
    · exact hs.asked r hmem
    · exact hoff

theorem Sound.reorder {hand' : List Handle} (hs : Sound ⟨w, hand, owed⟩) (hp : hand.Perm hand') :
    Sound ⟨w, hand', owed⟩ := by
  refine hs.of_cells rfl (fun c => ?_) (fun c x => ?_) hs.requesters hs.handles (fun h hh => ?_)
    fun r hr => .inl hr
  · rw [keepers_eq, keepers_eq, hp.countP_eq]
  · rw [holders_eq, holders_eq, hp.countP_eq]
  · rw [mem_handles, ← hp.mem_iff, ← @mem_handles _ w hand owed] at hh
    exact .inl hh

theorem Sound.remark (hs : Sound ⟨w, hand, owed⟩) (e : Event α) : Sound ⟨w.note e, hand, owed⟩ :=
  ⟨hs.requesters, hs.handles, hs.cells, hs.there, hs.fits, hs.asked⟩

theorem Sound.register {name : String} {c : CellId} (hs : Sound ⟨w, hand, c :: owed⟩) :
    Sound ⟨{ w with requesters := w.requesters.put name c }, hand,
      (w.requesters.get? name).toList ++ owed⟩ := by
  refine hs.of_cells rfl (fun c' => ?_) (fun c' x => rfl) (Table.nodup_put hs.requesters name c)
    hs.handles (fun h hh => .inl hh) fun r hr => .inl hr
  have hput := Table.countP_put (fun a => decide (a = c')) name c hs.requesters
  rw [keepers_eq, keepers_eq, List.countP_append, List.countP_cons]
  simp only [List.countP_cons, List.countP_nil] at hput
  dsimp only
  omega

theorem Sound.unregister {name : String} {c : CellId} (hs : Sound ⟨w, hand, owed⟩)
    (hc : w.requesters.get? name = some c) :
    Sound ⟨{ w with requesters := w.requesters.erase name }, hand, c :: owed⟩ := by
  refine hs.of_cells rfl (fun c' => ?_) (fun c' x => rfl) (Table.nodup_erase hs.requesters name)
    hs.handles (fun h hh => .inl hh) fun r hr => .inl hr
  have herase := Table.countP_erase (fun a => decide (a = c')) name hs.requesters
  rw [keepers_eq, keepers_eq, List.countP_cons]
  simp only [hc, Option.toList_some, List.countP_cons, List.countP_nil] at herase
  dsimp only
  omega

theorem Sound.ask {r : Request} (hs : Sound ⟨w, hand, r.cell :: owed⟩)
    (hr : w.Offers r.cell r.kind) :
    Sound ⟨{ w with requests := w.requests ++ [r] }, hand, owed⟩ := by
  refine hs.of_cells rfl (fun c => ?_) (fun c x => rfl) hs.requesters hs.handles
    (fun h hh => .inl hh) fun r' hr' => ?_
  · rw [keepers_eq, keepers_eq, List.countP_append, List.countP_cons, List.countP_cons]
    simp only [List.countP_nil]
    omega
  · rcases List.mem_append.mp hr' with hr' | hr'
    · exact .inl hr'
    · obtain rfl := List.mem_singleton.mp hr'
      exact .inr hr

theorem Sound.withdraw {r : Request} (hs : Sound ⟨w, hand, owed⟩) (hr : r ∈ w.requests) :
    Sound ⟨w.withdraw r, hand, r.cell :: owed⟩ := by
  refine hs.of_cells rfl (fun c => ?_) (fun c x => rfl) hs.requesters hs.handles
    (fun h hh => .inl hh) fun r' hr' => .inl (List.mem_of_mem_erase hr')
  have hperm := (List.perm_cons_erase hr).countP_eq (·.cell = c)
  rw [List.countP_cons] at hperm
  rw [keepers_eq, keepers_eq, List.countP_cons]
  simp only [World.withdraw]
  omega

theorem Sound.shell {h : Handle} (hs : Sound ⟨w, hand, owed⟩) (hg : h.grant = none) :
    Sound ⟨w, h :: hand, owed⟩ := by
  refine hs.of_cells rfl (keepers_released w hand owed hg) (holders_released w hand owed hg)
    hs.requesters hs.handles (fun h' hh => ?_) fun r hr => .inl hr
  rw [mem_handles, List.mem_cons] at hh
  rw [mem_handles]
  rcases hh with hh | rfl | hh
  · exact .inl (.inl hh)
  · exact .inr fun c e => by simp [hg] at e
  · exact .inl (.inr hh)

theorem Sound.scrap {h : Handle} (hs : Sound ⟨w, h :: hand, owed⟩) (hg : h.grant = none) :
    Sound ⟨w, hand, owed⟩ := by
  refine hs.of_cells rfl (fun c => (keepers_released w hand owed hg c).symm)
    (fun c x => (holders_released w hand owed hg c x).symm) hs.requesters hs.handles (fun h' hh => ?_)
    fun r hr => .inl hr
  rw [mem_handles] at hh
  rw [mem_handles, List.mem_cons]
  rcases hh with hh | hh
  · exact .inl (.inl hh)
  · exact .inl (.inr (.inr hh))

theorem Sound.store {key : ThreadId × HandleName} {h : Handle} (hs : Sound ⟨w, h :: hand, owed⟩) :
    Sound ⟨{ w with handles := w.handles.put key h }, (w.handles.get? key).toList ++ hand, owed⟩ := by
  have hput : ∀ P : Handle → Bool, _ := fun P => Table.countP_put P key h hs.handles
  refine hs.of_cells rfl (fun c => ?_) (fun c x => ?_) hs.requesters (Table.nodup_put hs.handles key h)
    (fun h' hh => ?_) fun r hr => .inl hr
  · have := hput (Handle.isOn c)
    rw [keepers_eq, keepers_eq, List.countP_append, List.countP_cons]
    simp only [List.countP_cons, List.countP_nil] at this
    dsimp only
    omega
  · have := hput (Handle.holds c x)
    rw [holders_eq, holders_eq, List.countP_append, List.countP_cons]
    simp only [List.countP_cons, List.countP_nil] at this
    dsimp only
    omega
  · rw [mem_handles, List.mem_append, Option.mem_toList] at hh
    rw [mem_handles, List.mem_cons]
    rcases hh with hh | hh | hh
    · rcases Table.mem_values_of_put hh with rfl | hh
      · exact .inl (.inr (.inl rfl))
      · exact .inl (.inl hh)
    · exact .inl (.inl (Table.mem_values_of_get? hh))
    · exact .inl (.inr (.inr hh))

theorem Sound.fetch {key : ThreadId × HandleName} {h : Handle} (hs : Sound ⟨w, hand, owed⟩)
    (hh : w.handles.get? key = some h) :
    Sound ⟨{ w with handles := w.handles.erase key }, h :: hand, owed⟩ := by
  have herase : ∀ P : Handle → Bool, _ := fun P => Table.countP_erase P key hs.handles
  refine hs.of_cells rfl (fun c => ?_) (fun c x => ?_) hs.requesters (Table.nodup_erase hs.handles key)
    (fun h' hh' => ?_) fun r hr => .inl hr
  · have := herase (Handle.isOn c)
    rw [keepers_eq, keepers_eq, List.countP_cons]
    simp only [hh, Option.toList_some, List.countP_cons, List.countP_nil] at this
    dsimp only
    omega
  · have := herase (Handle.holds c x)
    rw [holders_eq, holders_eq, List.countP_cons]
    simp only [hh, Option.toList_some, List.countP_cons, List.countP_nil] at this
    dsimp only
    omega
  · rw [mem_handles, List.mem_cons] at hh'
    rw [mem_handles]
    rcases hh' with hh' | rfl | hh'
    · exact .inl (.inl (Table.mem_values_of_erase hh'))
    · exact .inl (.inl (Table.mem_values_of_get? hh))
    · exact .inl (.inr hh')

/-! ### Edits that change a cell -/

/-- If one cell changes, it is enough to look at those who own or hold that one. -/
theorem Sound.of_modifyCell {c : CellId} {f : Cell α → Cell α} {hand' : List Handle}
    {owed' : List CellId} (hs : Sound ⟨w, hand, owed⟩)
    (hflavour : ∀ cell, (f cell).flavour = cell.flavour)
    (hothers : ∀ c', c' ≠ c →
      (⟨w, hand', owed'⟩ : Draft α).keepers c' = (⟨w, hand, owed⟩ : Draft α).keepers c' ∧
      ∀ x, (⟨w, hand', owed'⟩ : Draft α).holders c' x = (⟨w, hand, owed⟩ : Draft α).holders c' x)
    (hcell : ∀ cell, w.cells[c]? = some cell →
      cell.Fits ((⟨w, hand, owed⟩ : Draft α).keepers c) ((⟨w, hand, owed⟩ : Draft α).holders c) →
      (f cell).Fits ((⟨w, hand', owed'⟩ : Draft α).keepers c)
        ((⟨w, hand', owed'⟩ : Draft α).holders c))
    (hthere : c < w.cells.length)
    (hfits : ∀ h ∈ hand', h ∈ hand ∨ ∀ c, h.grant = some c → w.Offers c h.kind) :
    Sound ⟨w.modifyCell c f, hand', owed'⟩ := by
  have hlength : (w.modifyCell c f).cells.length = w.cells.length := List.length_modify ..
  refine ⟨hs.requesters, hs.handles, fun c' cell hc => ?_, fun c' hc => ?_, fun h hh c' hg => ?_,
    fun r hr => (offers_modifyCell hflavour r.cell r.kind).mpr (hs.asked r hr)⟩
  · rw [getElem?_modifyCell] at hc
    by_cases h' : c' = c
    · subst h'
      rw [if_pos rfl] at hc
      obtain ⟨cell₀, hc₀, rfl⟩ := Option.map_eq_some_iff.mp hc
      exact hcell cell₀ hc₀ (hs.cells c' cell₀ hc₀)
    · rw [if_neg h'] at hc
      exact (hs.cells c' cell hc).congr (hothers c' h').1 (hothers c' h').2
  · rw [hlength]
    by_cases h' : c' = c
    · rw [h']
      exact hthere
    · have := (hothers c' h').1
      refine hs.there c' ?_
      rw [← this]
      exact hc
  · rw [offers_modifyCell hflavour]
    rcases mem_handles.mp hh with hh | hh
    · exact hs.fits h (mem_handles.mpr (.inl hh)) c' hg
    · rcases hfits h hh with hh | hoff
      · exact hs.fits h (mem_handles.mpr (.inr hh)) c' hg
      · exact hoff c' hg

/-- A cell that is owed is there. -/
theorem Sound.owed_lt {c : CellId} (hs : Sound ⟨w, hand, c :: owed⟩) : c < w.cells.length := by
  refine hs.there c ?_
  rw [keepers_eq, List.countP_cons]
  simp only [decide_true, if_true]
  omega

theorem Sound.own {c : CellId} (hs : Sound ⟨w, hand, owed⟩) (hv : (w.value? c).isSome) :
    Sound ⟨w.own c, hand, c :: owed⟩ := by
  obtain ⟨v, hv⟩ := Option.isSome_iff_exists.mp hv
  obtain ⟨cell, hc, hval⟩ := World.value?_eq_some hv
  refine hs.of_modifyCell (fun _ => rfl) (fun c' hne => ⟨?_, fun x => rfl⟩) (fun cell' hc' hf => ?_)
    (lt_of_getElem?_eq_some hc) fun h hh => .inl hh
  · rw [keepers_owed, if_neg hne, Nat.add_zero]
  · obtain rfl : cell = cell' := by simpa [hc] using hc'
    rw [keepers_owed, if_pos rfl]
    exact ⟨congrArg (· + 1) hf.owners, by simp [hval], hf.hold⟩

theorem Sound.leave {c : CellId} {cell : Cell α} (hs : Sound ⟨w, hand, c :: owed⟩)
    (hc : w.cells[c]? = some cell) (hn : cell.owners ≠ 1) : Sound ⟨w.disown c, hand, owed⟩ := by
  rw [World.disown_of_ne hc hn]
  refine hs.of_modifyCell (fun _ => rfl) (fun c' hne => ⟨?_, fun x => rfl⟩) (fun cell' hc' hf => ?_)
    (lt_of_getElem?_eq_some hc) fun h hh => .inl hh
  · rw [keepers_owed, if_neg hne, Nat.add_zero]
  · obtain rfl : cell = cell' := by simpa [hc] using hc'
    rw [keepers_owed, if_pos rfl] at hf
    have howners := hf.owners
    refine ⟨?_, ?_, hf.hold⟩
    · dsimp only
      omega
    · rw [Cell.value_mk, hf.alive]
      omega

theorem Sound.destroy {c : CellId} {cell : Cell α} {v : α} (hs : Sound ⟨w, hand, c :: owed⟩)
    (hc : w.cells[c]? = some cell) (hn : cell.owners = 1) (hv : cell.value = some v) :
    Sound ⟨w.disown c, hand, owed⟩ := by
  rw [World.disown_of_last hc hn hv]
  apply Sound.remark
  refine hs.of_modifyCell (fun _ => Cell.flavour_fill _ _) (fun c' hne => ⟨?_, fun x => rfl⟩) (fun cell' hc' hf => ?_)
    (lt_of_getElem?_eq_some hc) fun h hh => .inl hh
  · rw [keepers_owed, if_neg hne, Nat.add_zero]
  · obtain rfl : cell = cell' := by simpa [hc] using hc'
    rw [keepers_owed, if_pos rfl] at hf
    have howners := hf.owners
    have hzero : (⟨w, hand, owed⟩ : Draft α).keepers c = 0 := by omega
    refine ⟨?_, ?_, hf.hold⟩
    · show cell.owners - 1 = _
      omega
    · rw [hzero]
      simp

theorem Sound.write {c : CellId} {v : α} (hs : Sound ⟨w, hand, owed⟩) (hv : w.value? c = some v)
    (v' : α) : Sound ⟨w.modifyCell c (Cell.fill (some v')), hand, owed⟩ := by
  obtain ⟨cell, hc, hval⟩ := World.value?_eq_some hv
  refine hs.of_modifyCell (Cell.flavour_fill _) (fun c' _ => ⟨rfl, fun x => rfl⟩)
    (fun cell' hc' hf => ?_) (lt_of_getElem?_eq_some hc) fun h hh => .inl hh
  obtain rfl : cell = cell' := by simpa [hc] using hc'
  have halive := hf.alive
  rw [hval] at halive
  refine ⟨hf.owners, ?_, hf.hold⟩
  rw [Cell.value_fill]
  exact halive

/-! ### Edits of locks -/

/-- If the keepers remain and the lock of one cell changes with its holders, all is sound. -/
theorem Sound.relock {f : Hold → Demand → Hold} {c : CellId} {k : HandleKind} {hand' : List Handle}
    {owed' : List CellId} (hs : Sound ⟨w, hand, owed⟩) (hthere : c < w.cells.length)
    (hkeepers : ∀ c', (⟨w, hand', owed'⟩ : Draft α).keepers c' =
      (⟨w, hand, owed⟩ : Draft α).keepers c')
    (hfits : ∀ h ∈ hand', h ∈ hand ∨ ∀ c, h.grant = some c → w.Offers c h.kind)
    (hothers : ∀ c' x, ¬ (c' = c ∧ k.demand? = some x) →
      (⟨w, hand', owed'⟩ : Draft α).holders c' x = (⟨w, hand, owed⟩ : Draft α).holders c' x)
    (hlock : ∀ d, k.demand? = some d → ∀ cell, w.cells[c]? = some cell →
      cell.hold.Fits ((⟨w, hand, owed⟩ : Draft α).holders c) →
      (f cell.hold d).Fits ((⟨w, hand', owed'⟩ : Draft α).holders c)) :
    Sound ⟨w.relock f c k, hand', owed'⟩ := by
  unfold World.relock
  cases hd : k.demand? with
  | none =>
    refine hs.of_cells rfl hkeepers (fun c' x => hothers c' x (by simp [hd])) hs.requesters hs.handles
      (fun h hh => ?_) fun r hr => .inl hr
    rw [mem_handles] at hh
    rw [mem_handles]
    rcases hh with hh | hh
    · exact .inl (.inl hh)
    · exact (hfits h hh).imp_left .inr
  | some d =>
    refine hs.of_modifyCell (fun _ => rfl)
      (fun c' hne => ⟨hkeepers c', fun x => hothers c' x fun e => hne e.1⟩) (fun cell hc hf => ?_)
      hthere hfits
    rw [hkeepers]
    exact ⟨hf.owners, hf.alive, hlock d hd cell hc hf.hold⟩

theorem Sound.lock {c : CellId} {k : HandleKind} (hs : Sound ⟨w, hand, c :: owed⟩)
    (hk : w.Offers c k)
    (ok : ∀ d, k.demand? = some d → ∀ cell, w.cells[c]? = some cell → cell.hold.allows d = true) :
    Sound ⟨w.enter c k, ⟨k, some c⟩ :: hand, owed⟩ := by
  have hgrant : (⟨k, some c⟩ : Handle).grant = some c := rfl
  -- a cell that is owed and one that is not have the same holders
  have hholders : ∀ c' x, (⟨w, ⟨k, some c⟩ :: hand, owed⟩ : Draft α).holders c' x =
      (⟨w, hand, c :: owed⟩ : Draft α).holders c' x +
        if c' = c ∧ k.demand? = some x then 1 else 0 := holders_hand w hand owed hgrant
  refine hs.relock hs.owed_lt (fun c' => ?_) (fun h hh => ?_) (fun c' x hne => ?_)
    fun d hd cell hc hf => ?_
  · rw [keepers_owed, keepers_hand w hand owed hgrant]
  · rcases List.mem_cons.mp hh with rfl | hh
    · refine .inr fun c' hg => ?_
      obtain rfl : c = c' := by simpa using hg
      exact hk
    · exact .inl hh
  · rw [hholders, if_neg hne, Nat.add_zero]
  · refine hf.enter (ok d hd cell hc) fun x => ?_
    rw [hholders]
    simp only [hd, true_and, Option.some.injEq, eq_comm (a := d)]

theorem Sound.unlock {h : Handle} {c : CellId} (hs : Sound ⟨w, h :: hand, owed⟩)
    (hg : h.grant = some c) : Sound ⟨w.quit c h.kind, hand, c :: owed⟩ := by
  have hholders : ∀ c' x, (⟨w, h :: hand, owed⟩ : Draft α).holders c' x =
      (⟨w, hand, c :: owed⟩ : Draft α).holders c' x +
        if c' = c ∧ h.kind.demand? = some x then 1 else 0 := holders_hand w hand owed hg
  have hthere : c < w.cells.length := by
    refine hs.there c ?_
    rw [keepers_hand w hand owed hg, if_pos rfl]
    omega
  refine hs.relock hthere (fun c' => ?_) (fun h' hh => .inl (List.mem_cons_of_mem _ hh))
    (fun c' x hne => ?_) fun d hd cell hc hf => ?_
  · rw [keepers_owed, keepers_hand w hand owed hg]
  · rw [hholders, if_neg hne, Nat.add_zero]
  · refine hf.leave fun x => ?_
    rw [hholders]
    simp only [hd, true_and, Option.some.injEq, eq_comm (a := d)]

/-! ### New cells -/

theorem Sound.make (hs : Sound ⟨w, hand, owed⟩) (f : Flavour) (a : Nat) (v : α) :
    Sound ⟨{ w with cells := w.cells ++ [.new f v a] }, hand, w.cells.length :: owed⟩ := by
  have hnew : (⟨w, hand, owed⟩ : Draft α).keepers w.cells.length = 0 := by
    have := hs.there w.cells.length
    simp only [Nat.lt_irrefl, imp_false, Nat.not_lt] at this
    omega
  have hkeepers := keepers_owed w hand owed w.cells.length
  have hoffers : ∀ c k, w.Offers c k →
      World.Offers { w with cells := w.cells ++ [.new f v a] } c k := by
    rintro c k ⟨x, hx⟩
    refine ⟨x, ?_⟩
    obtain ⟨f', hf', hk⟩ := Option.bind_eq_some_iff.mp hx
    obtain ⟨cell, hc, rfl⟩ := Option.map_eq_some_iff.mp hf'
    simp only [World.flavour?, List.getElem?_append_left (lt_of_getElem?_eq_some hc), hc]
    exact hk
  refine ⟨hs.requesters, hs.handles, fun c cell hc => ?_, fun c hc => ?_,
    fun h hh c hg => hoffers c _ (hs.fits h hh c hg), fun r hr => hoffers _ _ (hs.asked r hr)⟩
  · refine Cell.Fits.congr ?_ (hkeepers c) fun x => rfl
    dsimp only at hc
    by_cases hlt : c < w.cells.length
    · rw [List.getElem?_append_left hlt] at hc
      rw [if_neg (Nat.ne_of_lt hlt)]
      exact hs.cells c cell hc
    · -- nobody owns or holds the new cell yet
      have hle := (List.getElem?_eq_some_iff.mp hc).1
      rw [List.length_append, List.length_singleton] at hle
      obtain rfl : c = w.cells.length := Nat.le_antisymm (Nat.le_of_lt_succ hle) (Nat.not_lt.mp hlt)
      obtain rfl : .new f v a = cell := by simpa using hc
      have hle := fun x => holders_le_keepers (⟨w, hand, owed⟩ : Draft α) w.cells.length x
      rw [hnew] at hle ⊢
      exact ⟨by simp, by simp, Nat.le_zero.mp (hle _), Nat.le_zero.mp (hle _)⟩
  · have hpos : 0 < (⟨w, hand, w.cells.length :: owed⟩ : Draft α).keepers c := hc
    rw [hkeepers c] at hpos
    dsimp only
    rw [List.length_append, List.length_singleton]
    by_cases h' : c = w.cells.length
    · rw [h']
      exact Nat.lt_succ_self _
    · rw [if_neg h'] at hpos
      exact Nat.lt_succ_of_lt (hs.there c hpos)

/-- **Every edit preserves soundness.** -/
theorem Edit.sound {d d' : Draft α} (he : Edit d d') (hs : Sound d) : Sound d' := by
  cases he with
  | reorder hp => exact hs.reorder hp
  | remark _ => exact hs.remark _
  | make f a v => exact hs.make f a v
  | own hv => exact hs.own hv
  | leave hc hn => exact hs.leave hc hn
  | destroy hc hn hv => exact hs.destroy hc hn hv
  | register name c => exact hs.register
  | unregister hc => exact hs.unregister hc
  | ask r hr => exact hs.ask hr
  | withdraw hr => exact hs.withdraw hr
  | lock hk ok => exact hs.lock hk ok
  | unlock hg => exact hs.unlock hg
  | shell hg => exact hs.shell hg
  | scrap hg => exact hs.scrap hg
  | store key h => exact hs.store
  | fetch hh => exact hs.fetch hh
  | write v' hv => exact hs.write hv v'

theorem Edits.sound {d d' : Draft α} (he : Edits d d') (hs : Sound d) : Sound d' :=
  kept_of_steps (R := Edit) Edit.sound he hs

/-- What each edit of a sound draft preserves, all edits together preserve. -/
theorem Edits.induct {Q : Draft α → Prop}
    (hedit : ∀ {d d' : Draft α}, Sound d → Edit d d' → Q d → Q d') {d d' : Draft α}
    (he : Edits d d') (hs : Sound d) (hq : Q d) : Q d' :=
  kept_of_steps_of_kept (R := Edit) Edit.sound hedit he hs hq

end Custody.Shared
