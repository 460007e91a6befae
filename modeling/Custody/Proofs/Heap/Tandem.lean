/-
# What changes in both heaps

Two heaps stay beside each other if the same is done in both. Of what is odd, a change in one
heap alone makes something, or makes up for it: an owner more of a cell, and something else in
a place.

Key theorems: `Beside.poke`, `Beside.acquire_right`, `Beside.acquire_left`, `Beside.open_gap`,
`Beside.close_gap`, `Beside.signOff`, `Beside.allocate`.
-/
import Custody.Proofs.Heap.Beside

namespace Custody.Heap

variable {α : Type} {D : Odds} {h h' : Heap α} {p : Place} {c : CellId}

/-! ### Changes of one element -/

theorem modify_eq_self {β : Type} {f : β → β} {l : List β} {i : Nat} {a : β} (ha : l[i]? = some a)
    (hf : f a = a) : l.modify i f = l := by
  apply List.ext_getElem? fun j => ?_
  rw [List.getElem?_modify]
  by_cases hij : i = j
  · subst hij
    simp [ha, hf]
  · simp [hij]

theorem Value.set_eq_self {v : Value α} {hop : Hop} {o : Option Owner} (ho : v.get? hop = some o) :
    v.set hop o = v := by
  have hset : ∀ {l : List (Option Owner)} {k : Nat}, l[k]? = some o → l.set k o = l := by
    intro l k hk
    apply List.ext_getElem? fun j => ?_
    by_cases hkj : k = j
    · subst hkj
      rw [List.getElem?_set_self (List.getElem?_eq_some_iff.mp hk).1, hk]
    · rw [List.getElem?_set_ne hkj]
  cases hop with
  | field k => simp only [Value.set, hset ho]
  | link k => simp only [Value.set, hset ho]

/-- Putting into a place what is there changes nothing. -/
theorem poke_eq_self : ∀ {p : Place} {x : Option Pointer}, h.peek p = some x → h.poke p x = h
  | .var i, x, hp => by
    obtain ⟨v, hv, rfl⟩ := peek_var_eq_some hp
    have hvars := modify_eq_self (f := fun w : Variable => { w with pointer := v.pointer }) hv rfl
    simp only [Heap.poke, Heap.modifyVar, hvars]
  | .inside c hop, x, hp => by
    obtain ⟨⟨a, n, k⟩, v, o, hc, hv, ho, rfl⟩ := peek_inside_eq_some hp
    have hk : (k.modify fun v => v.set hop o) = k := by
      cases k with
      | live w =>
        obtain rfl : w = v := by simpa [Content.value?] using hv
        simp only [Content.modify, Value.set_eq_self ho]
      | dying w =>
        obtain rfl : w = v := by simpa [Content.value?] using hv
        simp only [Content.modify, Value.set_eq_self ho]
      | freed => rfl
    have hcells := modify_eq_self (f := fun cell : Cell α =>
      { cell with content := cell.content.modify fun v => v.set hop o }) hc (by simp only [hk])
    simp only [Heap.poke, Heap.modifyCell, Option.bind_some, Pointer.owner?, hcells]

theorem modifyCell_id (h : Heap α) (c : CellId) : h.modifyCell c id = h := by
  simp only [Heap.modifyCell, List.modify_id]

theorem rel_imp {β γ : Type} {r s : β → γ → Prop} (hrs : ∀ a b, r a b → s a b) {x : Option β}
    {x' : Option γ} (hr : Option.Rel r x x') : Option.Rel s x x' := by
  cases hr with
  | none => exact .none
  | some ha => exact .some (hrs _ _ ha)

theorem rel_modify {β γ : Type} {R S : Nat → β → γ → Prop} {l : List β} {l' : List γ} {i : Nat}
    {f : β → β} {g : γ → γ} (hl : ∀ j, Option.Rel (R j) l[j]? l'[j]?)
    (hself : ∀ a b, l[i]? = some a → R i a b → S i (f a) (g b))
    (hother : ∀ j, j ≠ i → ∀ a b, l[j]? = some a → R j a b → S j a b) (j : Nat) :
    Option.Rel (S j) (l.modify i f)[j]? (l'.modify i g)[j]? := by
  simp only [List.getElem?_modify]
  rcases rel_cases (hl j) with ⟨hx, hx'⟩ | ⟨a, b, hx, hx', hab⟩
  · rw [hx, hx']
    exact .none
  · rw [hx, hx']
    by_cases hij : i = j
    · subst hij
      simp only [if_true]
      exact .some (hself a b hx hab)
    · simp only [if_neg hij]
      exact .some (hother j (fun e => hij e.symm) a b hx hab)

/-- What is odd about other values may change. -/
theorem Odds.Contents.reopen {D' : Odds} {k k' : Content α} (hk : D.Contents c k k')
    (htarget : ∀ hop, D'.target (.inside c hop) = D.target (.inside c hop)) (hsure : D'.sure = D.sure)
    (hlive : ∀ v, k = .live v → ∀ hop, D'.gap ≠ some (.inside c hop)) : D'.Contents c k k' := by
  cases hk with
  | live hv hfair _ => exact .live hv (hsure ▸ hfair) (hlive _ rfl)
  | dying hv =>
    refine .dying fun hop => ?_
    rw [htarget]
    exact hv hop
  | freed => exact .freed

/-- A pointer of the value changes in both heaps, and what is odd about it. -/
theorem Odds.Contents.set {D' : Odds} {k k' : Content α} (hk : D.Contents c k k') {hop : Hop}
    {o o' : Option Owner} (ho : o'.map Owner.cell = D'.target (.inside c hop) o)
    (htarget : ∀ hop', hop' ≠ hop → D'.target (.inside c hop') = D.target (.inside c hop'))
    (hsure : D'.sure = D.sure) (hlive : ∀ v, k = .live v → ∀ hop, D'.gap ≠ some (.inside c hop)) :
    D'.Contents c (k.modify fun v => v.set hop o) (k'.modify fun v => v.set hop o') := by
  cases hk with
  | @live v v' hv hfair _ =>
    have hne := hlive v rfl
    rw [Odds.target_of_ne (hne hop)] at ho
    refine .live (hv.set hop ho) ?_ hne
    rw [hsure]
    cases hop <;> exact hfair
  | @dying v v' hv =>
    refine .dying fun hop' => ?_
    rw [Value.get?_set, Value.get?_set]
    split
    · rename_i he
      subst he
      rcases map_cases (hv hop) with ⟨hw, hw'⟩ | ⟨w, w', hw, hw', -⟩
      · rw [hw, hw']
        rfl
      · rw [hw, hw']
        exact congrArg some ho
    · rename_i hne
      rw [hv hop', htarget hop' fun e => hne e.symm]
  | freed => exact .freed

namespace Beside

variable (hb : Beside D h h')
include hb

/-- A cell changes in both heaps, and what is odd with it. -/
theorem modifyCell {D₂ : Odds} (c : CellId) {f g : Cell α → Cell α}
    (hself : ∀ x x', h.cells[c]? = some x → D.Cells c x x' → D₂.Cells c (f x) (g x'))
    (hother : ∀ c' : Nat, c' ≠ c → ∀ x x', h.cells[c']? = some x → D.Cells c' x x' →
      D₂.Cells c' x x')
    (hvars : ∀ i v v', D.Vars i v v' → D₂.Vars i v v') :
    Beside D₂ (h.modifyCell c f) (h'.modifyCell c g) where
  cells := rel_modify hb.cells hself hother
  vars i := rel_imp (hvars i) (hb.vars i)
  told := hb.told

/-- A cell changes in both heaps. -/
theorem change (c : CellId) {f g : Cell α → Cell α}
    (hself : ∀ x x', D.Cells c x x' → D.Cells c (f x) (g x')) :
    Beside D (h.modifyCell c f) (h'.modifyCell c g) :=
  hb.modifyCell c (fun x x' _ => hself x x') (fun _ _ _ _ _ hx => hx) fun _ _ _ hv => hv

/-- A variable changes in both heaps, and what is odd with it. -/
theorem modifyVar {D₂ : Odds} (i : Nat) {f g : Variable → Variable}
    (hself : ∀ v v', D.Vars i v v' → D₂.Vars i (f v) (g v'))
    (hother : ∀ j, j ≠ i → ∀ v v', D.Vars j v v' → D₂.Vars j v v')
    (hcells : ∀ (c : Nat) x x', h.cells[c]? = some x → D.Cells c x x' → D₂.Cells c x x') :
    Beside D₂ (h.modifyVar i f) (h'.modifyVar i g) where
  cells c := by
    rcases rel_cases (hb.cells c) with ⟨hc, hc'⟩ | ⟨x, x', hc, hc', hx⟩
    · show Option.Rel _ h.cells[c]? h'.cells[c]?
      rw [hc, hc']
      exact .none
    · show Option.Rel _ h.cells[c]? h'.cells[c]?
      rw [hc, hc']
      exact .some (hcells c x x' hc hx)
  vars := rel_modify hb.vars (fun v v' _ => hself v v') fun j hj v v' _ => hother j hj v v'
  told := hb.told

/-- What is borrowed of a variable changes in both heaps. -/
theorem lendVar (i : Nat) {f : Variable → Variable} (hpointer : ∀ v, (f v).pointer = v.pointer)
    (hf : ∀ v v' : Variable, v'.readers = v.readers → v'.writer = v.writer →
      (f v').readers = (f v).readers ∧ (f v').writer = (f v).writer) :
    Beside D (h.modifyVar i f) (h'.modifyVar i f) :=
  hb.modifyVar i (fun v v' hv => ⟨by rw [hpointer, hpointer]; exact hv.pointer,
      (hf v v' hv.readers hv.writer).1, (hf v v' hv.readers hv.writer).2⟩)
    (fun _ _ _ _ hv => hv) fun _ _ _ _ hx => hx

theorem lend (p : Place) : Beside D (h.lend p) (h'.lend p) := by
  cases p with
  | var i => exact hb.lendVar i (fun _ => rfl) fun _ _ hr _ => ⟨hr, rfl⟩
  | inside c hop => exact hb

theorem unlend (p : Place) : Beside D (h.unlend p) (h'.unlend p) := by
  cases p with
  | var i => exact hb.lendVar i (fun _ => rfl) fun _ _ hr _ => ⟨hr, rfl⟩
  | inside c hop => exact hb

theorem share (p : Place) : Beside D (h.share p) (h'.share p) := by
  cases p with
  | var i => exact hb.lendVar i (fun _ => rfl) fun _ _ hr hw => ⟨congrArg (· + 1) hr, hw⟩
  | inside c hop => exact hb

theorem unshare (p : Place) : Beside D (h.unshare p) (h'.unshare p) := by
  cases p with
  | var i => exact hb.lendVar i (fun _ => rfl) fun _ _ hr hw => ⟨congrArg (· - 1) hr, hw⟩
  | inside c hop => exact hb

/-- Something like it happens in both. -/
theorem note {e e' : Event α} (he : e.Alike e') : Beside D (h.note e) (h'.note e') where
  cells := hb.cells
  vars := hb.vars
  told := by
    have hold := hb.told
    cases he with
    | refl e =>
      simp only [Heap.note, List.filter_cons]
      split
      · exact .cons (.refl e) hold
      · exact hold
    | reported c text text' => exact .cons (.reported c text text') hold

/-- A token goes from one hand to another. -/
theorem handled (e e' : Event α) (he : e.isTold = false) (he' : e'.isTold = false) :
    Beside D (h.note e) (h'.note e') where
  cells := hb.cells
  vars := hb.vars
  told := by
    simp only [Heap.note, List.filter_cons, he, he', Bool.false_eq_true, if_false]
    exact hb.told

/-- Something is put into a place in both heaps, and what is odd about the place changes. -/
theorem poke_with (g : Option Place) (y : Option Arrow) (x x' : Option Pointer)
    (hother : ∀ q, q ≠ p → (Odds.mk D.extra g y D.sure).seen q = D.seen q)
    (hx : x'.map Pointer.arrow = (Odds.mk D.extra g y D.sure).seen p x)
    (hout : ∀ c hop, g = some (.inside c hop) → h.status c ≠ some .live) :
    Beside ⟨D.extra, g, y, D.sure⟩ (h.poke p x) (h'.poke p x') := by
  have htarget : ∀ q, q ≠ p → (Odds.mk D.extra g y D.sure).target q = D.target q := by
    intro q hq
    funext o
    unfold Odds.target
    rw [hother q hq]
  have hlive : ∀ {c : Nat} {z : Cell α} v, h.cells[c]? = some z → z.content = .live v →
      ∀ hop, g ≠ some (.inside c hop) := fun v hc hz hop hg =>
    hout _ hop hg (by simp [Heap.status, hc, hz])
  cases p with
  | var i =>
    refine hb.modifyVar i (fun v v' hv => ⟨hx, hv.readers, hv.writer⟩) (fun j hj v v' hv => ?_)
      fun c z z' hc hz => ⟨hz.address, hz.count,
        hz.content.reopen (fun hop => htarget _ (by simp)) rfl fun v hk => hlive v hc hk⟩
    refine ⟨?_, hv.readers, hv.writer⟩
    rw [hother _ (by simpa using hj)]
    exact hv.pointer
  | inside c₀ hop₀ =>
    have ho : (x'.bind Pointer.owner?).map Owner.cell =
        (Odds.mk D.extra g y D.sure).target (.inside c₀ hop₀) (x.bind Pointer.owner?) := by
      rw [Odds.target_bind, ← hx]
      cases x' with
      | none => rfl
      | some q => exact q.target?_arrow.symm
    refine hb.modifyCell c₀ (fun z z' hc hz => ⟨hz.address, hz.count, ?_⟩)
      (fun c hne z z' hc hz => ⟨hz.address, hz.count,
        hz.content.reopen (fun hop => htarget _ (by simp [hne])) rfl fun v hk => hlive v hc hk⟩)
      fun i v v' hv => ⟨by rw [hother _ (by simp)]; exact hv.pointer, hv.readers, hv.writer⟩
    exact hz.content.set ho (fun hop hne => htarget _ (by simpa using hne)) rfl fun v hk => hlive v hc hk

/-- Something is put into a place that nothing is odd about. -/
theorem poke (hp : D.Plain p) {x x' : Option Pointer} (hx : x'.map Pointer.arrow = x.map Pointer.arrow) :
    Beside D (h.poke p x) (h'.poke p x') := by
  refine hb.poke_with _ _ x x' (fun _ _ => rfl) (hx.trans (hp.seen x).symm) fun c hop hgap hlive => ?_
  obtain ⟨v, hv⟩ := exists_live? hlive
  rcases hb.live_cases c with ⟨hnone, -⟩ | ⟨-, -, -, -, -, -, hout⟩
  · simp [hv] at hnone
  · exact hout hop hgap

/-- Something is put into a place in both heaps, and is odd from then on. -/
theorem open_gap (hgap : D.gap = none) (x x' : Option Pointer)
    (hout : ∀ c hop, p = .inside c hop → h.status c ≠ some .live) :
    Beside ⟨D.extra, some p, x'.map Pointer.arrow, D.sure⟩ (h.poke p x) (h'.poke p x') := by
  refine hb.poke_with _ _ x x' (fun q hq => ?_) (if_pos rfl).symm fun c hop he =>
    hout c hop (Option.some.inj he)
  funext z
  have hne : some p ≠ some q := fun e => hq (Option.some.inj e).symm
  simp only [Odds.seen, if_neg hne, hgap, if_neg (Option.some_ne_none q).symm]
  rfl

/-- Something else is put into the odd place in the second heap. -/
theorem fill_gap (hgap : D.gap = some p) (hp : (h.peek p).isSome) (x' : Option Pointer) :
    Beside ⟨D.extra, some p, x'.map Pointer.arrow, D.sure⟩ h (h'.poke p x') := by
  obtain ⟨x, hx⟩ := Option.isSome_iff_exists.mp hp
  have hpoke := hb.poke_with (p := p) (some p) (x'.map Pointer.arrow) x x' (fun q hq => ?_)
    (if_pos rfl).symm fun c hop he hlive => ?_
  · rwa [poke_eq_self hx] at hpoke
  · funext z
    have hne : some p ≠ some q := fun e => hq (Option.some.inj e).symm
    simp only [Odds.seen, if_neg hne, hgap]
    rfl
  · obtain ⟨v, hv⟩ := exists_live? hlive
    rcases hb.live_cases c with ⟨hnone, -⟩ | ⟨-, -, -, -, -, -, hout⟩
    · simp [hv] at hnone
    · exact hout hop (hgap.trans he)

/-- What is odd is put into the place in the first heap too. -/
theorem close_gap (hgap : D.gap = some p) {x : Option Pointer} (hx : x.map (D.arrow p) = D.fill)
    (hnullable : ∀ c hop, p = .inside c hop → ∃ o, x = some (.nullable o)) (hp : (h.peek p).isSome) :
    Beside ⟨D.extra, none, none, D.sure⟩ (h.poke p x) h' := by
  rw [← hb.isSome_peek] at hp
  obtain ⟨x', hx'⟩ := Option.isSome_iff_exists.mp hp
  have hfilled : x'.map Pointer.arrow = (Odds.mk D.extra none none D.sure).seen p x := by
    refine Eq.trans ?_ (Eq.trans hx.symm (if_neg (Option.some_ne_none p).symm).symm)
    cases p with
    | var i =>
      obtain ⟨v', hv', rfl⟩ := peek_var_eq_some hx'
      rcases rel_cases (hb.vars i) with ⟨-, hnone⟩ | ⟨v, w, -, hw, hvar⟩
      · simp [hv'] at hnone
      · obtain rfl : v' = w := by simpa [hv'] using hw
        exact hvar.pointer.trans (if_pos hgap)
    | inside c hop =>
      obtain ⟨o, rfl⟩ := hnullable c hop rfl
      obtain ⟨⟨_, _, k'⟩, v', o', hc', hv', ho', rfl⟩ := peek_inside_eq_some hx'
      have htarget : ∀ z, D.target (.inside c hop) z = o.map Owner.cell := fun z => by
        rw [Odds.target, Odds.seen, if_pos hgap, ← hx]
        rfl
      rcases rel_cases (hb.cells c) with ⟨-, hnone⟩ | ⟨⟨_, _, k⟩, z', hc, hz', -, -, hk⟩
      · simp [hc'] at hnone
      · obtain rfl : _ = z' := Option.some.inj (hc'.symm.trans hz')
        rw [← hx]
        cases hk with
        | live _ _ hout => exact absurd hgap (hout hop)
        | dying hv =>
          obtain rfl := Option.some.inj hv'
          have hget := hv hop
          rw [ho', funext htarget] at hget
          obtain ⟨z, -, hz⟩ := Option.map_eq_some_iff.mp hget.symm
          exact congrArg (fun t => some (Arrow.nullable t)) hz.symm
        | freed => simp [Content.value?] at hv'
  have hpoke := hb.poke_with (p := p) none none x x' (fun q hq => ?_) hfilled (by simp)
  · rwa [poke_eq_self hx'] at hpoke
  · funext z
    have hne : some p ≠ some q := fun e => hq (Option.some.inj e).symm
    simp only [Odds.seen, if_neg hne, hgap]
    rfl

/-- The counts of a cell change, and with them which cell has an owner more. -/
theorem recount {e : Option CellId} (c : CellId) {f g : Count → Count}
    (hself : ∀ n n' : Count, n'.owners = n.owners + (if D.extra = some c then 1 else 0) →
      (g n').owners = (f n).owners + if e = some c then 1 else 0)
    (hother : ∀ c', c' ≠ c → (D.extra = some c' ↔ e = some c')) :
    Beside ⟨e, D.gap, D.fill, D.sure⟩ (h.modifyCell c fun x => { x with count := f x.count })
      (h'.modifyCell c fun x => { x with count := g x.count }) :=
  hb.modifyCell c
    (fun x x' _ hx => ⟨hx.address, hself _ _ hx.count, hx.content.congr e⟩)
    (fun c' hne x x' _ hx => ⟨hx.address, by simpa only [hother c' hne] using hx.count,
      hx.content.congr e⟩)
    fun i v v' hv => ⟨hv.pointer, hv.readers, hv.writer⟩

/-- A cell gets an owner in both heaps. -/
theorem acquire (c : CellId) : Beside D (h.acquire c).2 (h'.acquire c).2 := by
  have hcell := hb.recount c (f := Count.acquire) (g := Count.acquire)
    (fun n n' hn => (congrArg (· + 1) hn).trans (Nat.add_right_comm _ _ _)) fun _ _ => Iff.rfl
  have hnote := hcell.handled (.issued ⟨c, h.issued⟩) (.issued ⟨c, h'.issued⟩) rfl rfl
  exact ⟨hnote.cells, hnote.vars, hnote.told⟩

/-- A cell gets an owner in the second heap only. -/
theorem acquire_right (hextra : D.extra = none) (c : CellId) :
    Beside ⟨some c, D.gap, D.fill, D.sure⟩ h (h'.acquire c).2 := by
  have hcell := hb.recount (e := some c) c (f := id) (g := Count.acquire)
    (fun n n' hn => by simpa [hextra, Count.acquire] using hn)
    fun c' hne => by simpa [hextra] using fun e => hne e.symm
  have hsame : (h.modifyCell c fun x => { x with count := id x.count }) = h := h.modifyCell_id c
  rw [hsame] at hcell
  exact ⟨hcell.cells, hcell.vars, hcell.told⟩

/-- The cell that had an owner more in the second heap gets one in the first. -/
theorem acquire_left (hextra : D.extra = some c) :
    Beside ⟨none, D.gap, D.fill, D.sure⟩ (h.acquire c).2 h' := by
  have hcell := hb.recount (e := none) c (f := Count.acquire) (g := id)
    (fun n n' hn => by simpa [hextra, Count.acquire] using hn)
    fun c' hne => by simpa [hextra] using fun e => hne e.symm
  have hsame : (h'.modifyCell c fun x => { x with count := id x.count }) = h' := h'.modifyCell_id c
  rw [hsame] at hcell
  exact ⟨hcell.cells, hcell.vars, hcell.told⟩

/-- A pointer is copied in both heaps. -/
theorem duplicate {q q' : Pointer} (hq : q'.arrow = q.arrow) :
    Beside D (h.duplicate q).2 (h'.duplicate q').2 := by
  unfold Heap.duplicate
  rcases map_cases (cell_eq_of_arrow hq) with ⟨ho, ho'⟩ | ⟨o, o', ho, ho', hc⟩
  · rw [ho, ho']
    exact hb
  · rw [ho, ho']
    simp only [hc]
    exact hb.acquire o.cell

/-- An owner of a cell signs off in both heaps. -/
theorem signOff {o o' : Owner} (ho : o'.cell = o.cell) (hpos : 0 < (h.count o.cell).owners) :
    Beside D (h.signOff o).2 (h'.signOff o').2 := by
  have hcell : h.cells[o.cell]? ≠ none := by
    intro hnone
    simp [Custody.Heap.count_eq, hnone] at hpos
  obtain ⟨n, hn⟩ := Nat.exists_eq_add_of_lt hpos
  rw [Nat.zero_add] at hn
  have hn' : (h'.count o'.cell).owners = (n + if D.extra = some o.cell then 1 else 0) + 1 := by
    rw [ho, hb.count_eq hcell, hn]
    exact Nat.add_right_comm _ _ _
  rw [signOff_eq hn, signOff_eq hn', ho]
  have hnote := hb.handled (.returned o.cell o.token) (.returned o.cell o'.token) rfl rfl
  exact hnote.recount o.cell (f := fun _ => ⟨n⟩) (g := fun _ => ⟨_⟩) (fun _ _ _ => rfl) fun _ _ => Iff.rfl

/-- The owner more that a cell has in the second heap signs off there. -/
theorem signOff_right {o : Owner} (hextra : D.extra = some o.cell) (hcell : h.cells[o.cell]? ≠ none) :
    Beside ⟨none, D.gap, D.fill, D.sure⟩ h (h'.signOff o).2 := by
  have hn : (h'.count o.cell).owners = (h.count o.cell).owners + 1 := by
    rw [hb.count_eq hcell, if_pos hextra]
  have hless : Beside ⟨none, D.gap, D.fill, D.sure⟩ (h.modifyCell o.cell id)
      (h'.modifyCell o.cell fun x => { x with count := ⟨(h.count o.cell).owners⟩ }) := by
    refine hb.modifyCell o.cell (fun x x' hc hx => ⟨hx.address, ?_, hx.content.congr none⟩)
      (fun c hne x x' _ hx => ⟨hx.address, ?_, hx.content.congr none⟩)
      fun i v v' hv => ⟨hv.pointer, hv.readers, hv.writer⟩
    · rw [count_of_getElem? hc]
      rfl
    · have hcount := hx.count
      rwa [if_neg (by rw [hextra]; simpa using fun e => hne e.symm)] at hcount
  rw [modifyCell_id] at hless
  rw [signOff_eq hn]
  refine ⟨hless.cells, hless.vars, ?_⟩
  simpa only [Heap.note, Heap.modifyCell, List.filter_cons, Event.isTold, Bool.false_eq_true,
    if_false] using hb.told

/-- The value of a cell changes in both heaps. -/
theorem setContent (c : CellId) {k k' : Content α} (hk : D.Contents c k k') :
    Beside D (h.setContent c k) (h'.setContent c k') :=
  hb.change c fun _ _ hx => ⟨hx.address, hx.count, hk⟩

/-- A cell is made in both heaps. -/
theorem allocate (near : Nat) {v v' : Value α} (hv : v.Alike v') (hfair : Act.AllFair D.sure v.script)
    (hextra : D.extra ≠ some h.cells.length) (hgap : ∀ hop, D.gap ≠ some (.inside h.cells.length hop)) :
    Beside D (h.allocate near v).2 (h'.allocate near v').2 where
  cells c := by
    simp only [Heap.allocate, List.getElem?_append, hb.length, hb.taken]
    split
    · exact hb.cells c
    · rename_i hlt
      by_cases heq : c = h.cells.length
      · subst heq
        simp only [Nat.sub_self, List.getElem?_cons_zero]
        exact .some ⟨rfl, by rw [if_neg hextra]; rfl, .live hv hfair hgap⟩
      · have hbeyond : 1 ≤ c - h.cells.length :=
          Nat.sub_pos_of_lt (Nat.lt_of_le_of_ne (Nat.not_lt.mp hlt) fun e => heq e.symm)
        have hnone : ∀ x : Cell α, [x][c - h.cells.length]? = none := fun x =>
          List.getElem?_eq_none hbeyond
        rw [hnone, hnone]
        exact .none
  vars := hb.vars
  told := by
    simp only [Heap.allocate, List.filter_cons, Event.isTold, Bool.false_eq_true, if_false]
    exact hb.told

end Beside

end Custody.Heap
