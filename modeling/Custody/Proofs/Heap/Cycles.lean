/-
# What closes a cycle

A pointer is put into a live value in two ways. Who changes the value must reach it
through pointers that are all the only owners of their targets. So each cell on the
way has one predecessor, the cell before it, and the first has none that matters:
the cells on the way are on no cycle, and neither is the pointer that is put at its
end. Who overwrites a link needs no such thing, and it is in this way only that a
cycle is closed.

A cell that nothing holds from outside is then kept by a cycle, so where no link was
overwritten nothing is kept that cannot be reached.

Key definitions: `Calm`, `Heap.Holds`, `Course`.
Key theorems: `Sound.grounded_of_walk`, `perform_calm`, `step_calm`, `Course.cycle_overwritten`.
-/
import Custody.Proofs.Heap.Edges

namespace Custody.Heap

variable {α : Type} {n : Nat} {h h' : Heap α} {hand : List Owner} {ts : List (Task α)}
  {self : Option CellId} {m : Machine α}

/-! ### Changes that close no cycle -/

/-- Each new edge starts at a cell that is on no cycle. -/
def Calm (h h' : Heap α) : Prop :=
  ∀ e ∈ h'.edges, e ∈ h.edges ∨ ¬ OnCycle h'.edges e.source

/-- So a walk from a cell back to it was there before. -/
theorem Calm.walk {c : CellId} {es : List Edge} (hc : Calm h h') (hw : Walk h'.edges c es c) :
    Walk h.edges c es c := by
  refine hw.mono fun e he hmem => ?_
  rcases hc e hmem with hold | hnone
  · exact hold
  · exact absurd (hw.source_onCycle he) hnone

theorem calm_of_subset (hsub : h'.edges ⊆ h.edges) : Calm h h' := fun _ he => .inl (hsub he)

/-- No edge leads to a cell that is not live. -/
theorem Sound.not_owns (hs : Sound ⟨h, hand, ts⟩) {c : CellId} (hc : h.status c ≠ some .live)
    (a : CellId) : ¬ Owns h.edges a c := by
  rintro ⟨e, he, -, rfl⟩
  exact hc (hs.status_target he)

theorem Sound.not_onCycle (hs : Sound ⟨h, hand, ts⟩) {c : CellId} (hc : h.status c ≠ some .live) :
    ¬ OnCycle h.edges c := by
  intro hcycle
  obtain ⟨a, howns, -⟩ := hcycle.exists_owns
  exact hs.not_owns hc a howns

/-- New edges that start at cells that are not live close no cycle. -/
theorem Sound.calm (hs' : Sound ⟨h', hand, ts⟩)
    (hedges : ∀ e ∈ h'.edges, e ∈ h.edges ∨ h'.status e.source ≠ some .live) : Calm h h' := by
  intro e he
  rcases hedges e he with hold | hdead
  · exact .inl hold
  · exact .inr (hs'.not_onCycle hdead)

theorem Still.calm (s : Still h h') (hs' : Sound ⟨h', hand, ts⟩) : Calm h h' := by
  refine hs'.calm fun e he => ?_
  rcases s.edges e he with hold | hdying
  · exact .inl hold
  · rw [s.status e.source, hdying]
    exact .inr (by simp)

/-- What is dying remains so while tasks are put before the others. -/
theorem Sound.dying_of_append {new : List (Task α)} {hand' : List Owner} (hs : Sound ⟨h, hand, ts⟩)
    (hs' : Sound ⟨h', hand', new ++ ts⟩) {c : CellId} (hc : h.status c = some .dying) :
    h'.status c = some .dying :=
  (hs'.dying c).mpr (List.mem_append_right new ((hs.dying c).mp hc))

/-- Where the edges are from after a cell is made: an edge was there, or starts at a dying cell,
or at the new cell. -/
theorem performMake_edges_cases (hs : Sound ⟨h, [], ts⟩) (ha : Acting self ts) {dst : Ref} {kind : Kind}
    {data : α} {script : List (Act α)} {fields links : List (Option Ref)} {near : Nat} {e : Edge}
    (he : e ∈ (h.performMake self dst kind data script fields links near).heap.edges) :
    e ∈ h.edges ∨ h.status e.source = some .dying ∨
      h.status e.source = none ∧ h.status e.target = some .live := by
  unfold performMake at he
  split at he
  · exact .inl he
  · exact .inl he
  · rename_i d os g hdst hgather
    have hstill := gather_still ha hs hgather
    obtain ⟨hedits, hkeep⟩ := gather_edits ha hs hgather
    have hsg := hedits.sound hs
    simp only at he
    split at he
    · generalize hv : (⟨data, script, os.take fields.length, os.drop fields.length⟩ : Value α) = v at he
      have howners : v.owners = os.filterMap id := by simp [← hv, Value.owners, Value.pointers]
      have hcl := (hkeep d (hs.claimed ha hdst)).allocate near v
      rcases (still_poke hcl.outer _).edges e he with he | hdying
      · rcases edges_allocate he with he | ⟨hsrc, howner⟩
        · rcases hstill.edges e he with he | hdying
          · exact .inl he
          · exact .inr (.inl hdying)
        · refine .inr (.inr ⟨?_, ?_⟩)
          · rw [← hstill.status, hsrc]
            exact status_eq_none.mpr (Nat.le_refl _)
          · rw [howners] at howner
            rw [← hstill.status]
            refine hsg.live_of_mem (o := e.owner) ?_
            simp only [Draft.owners, List.mem_append]
            exact .inl (.inr (.inl howner))
      · -- the new cell is live
        rw [status_allocate] at hdying
        split at hdying
        · simp at hdying
        · rw [hstill.status] at hdying
          exact .inr (.inl hdying)
    · exact .inl he

/-- A new cell is owned by no live value. -/
theorem performMake_calm (hs : Sound ⟨h, [], ts⟩) (ha : Acting self ts) (dst : Ref) (kind : Kind)
    (data : α) (script : List (Act α)) (fields links : List (Option Ref)) (near : Nat) :
    Calm h (h.performMake self dst kind data script fields links near).heap := by
  have hs' := (performMake_edits hs ha dst kind data script fields links near).sound hs
  have hdying : ∀ e : Edge, h.status e.source = some .dying →
      ¬ OnCycle (h.performMake self dst kind data script fields links near).heap.edges e.source := by
    intro e hd
    refine hs'.not_onCycle ?_
    rw [hs.dying_of_append hs' hd]
    simp
  intro e he
  rcases performMake_edges_cases hs ha he with hold | hd | ⟨hnone, -⟩
  · exact .inl hold
  · exact .inr (hdying e hd)
  · refine .inr fun hcycle => ?_
    obtain ⟨a, ⟨e', he', rfl, ht⟩, ha'⟩ := hcycle.exists_owns
    rcases performMake_edges_cases hs ha he' with hold | hd | ⟨-, hlive⟩
    · rw [← ht, hs.status_target hold] at hnone
      simp at hnone
    · exact hdying e' hd ha'
    · rw [← ht, hlive] at hnone
      simp at hnone

/-! ### The way to a value that is changed -/

/-- Two places with pointers to one cell are the same if its count is one. -/
theorem Sound.place_unique (hs : Sound ⟨h, hand, ts⟩) {c : CellId} (hn : (h.count c).owners = 1)
    {p p' : Place} {q q' : Pointer} {o o' : Owner} (hp : h.pointer? p = some q)
    (ho : q.owner? = some o) (hc : o.cell = c) (hp' : h.pointer? p' = some q')
    (ho' : q'.owner? = some o') (hc' : o'.cell = c) : p = p' := by
  by_contra hne
  have hpeek := pointer?_eq_some hp
  have hcount := owners_poke (Owner.isOf c) hpeek none
  have hheld : (held (some q)).countP (Owner.isOf c) = 1 := by simp [held, ho, Owner.isOf, hc]
  -- the pointer in the other place is still there when this one is taken out
  have hother : 0 < (h.poke p none).owners.countP (Owner.isOf c) := by
    have hpeek' : (h.poke p none).peek p' = some (some q') :=
      (peek_poke_ne hne none).trans (pointer?_eq_some hp')
    refine List.countP_pos_iff.mpr ⟨o', mem_owners_of_peek hpeek' (by simp [held, ho']), ?_⟩
    simp [Owner.isOf, hc']
  have htotal := hs.count_eq c
  simp only [held_none, List.countP_nil] at hcount
  omega

/-- A place is in a variable, or in a cell whose predecessors go back only finitely far. -/
def Place.Rooted (G : Set Edge) (p : Place) : Prop :=
  ∀ c hop, p = .inside c hop → Grounded G c

/-- All edges of `G` are edges of the heap, or pointers that are somewhere outside of the live
values, and not at `root`. -/
def FedAside (h : Heap α) (root : Place) (G : Set Edge) : Prop :=
  ∀ e ∈ G, e ∈ h.edges ∨
    ∃ s, s ≠ root ∧ h.Outer s ∧ h.pointer? s = some (.nullable (some e.owner))

theorem fedAside_edges (h : Heap α) (root : Place) : FedAside h root h.edges := fun _ he => .inl he

/-- What an edge of such a graph leads to is live. -/
theorem FedAside.status_target {root : Place} {G : Set Edge} (hG : FedAside h root G)
    (hs : Sound ⟨h, hand, ts⟩) {e : Edge} (he : e ∈ G) : h.status e.target = some .live := by
  rcases hG e he with he | ⟨s, -, -, hs'⟩
  · exact hs.status_target he
  · exact hs.live_of_pointer? hs' rfl

/-- A place that was claimed is rooted: it is in no live value, and to what is not live no
edge leads. -/
theorem FedAside.rooted {root : Place} {G : Set Edge} (hG : FedAside h root G)
    (hs : Sound ⟨h, hand, ts⟩) {p : Place} (hp : h.Outer p) : p.Rooted G := by
  intro c hop e
  refine ⟨c, fun a ⟨e', he', _, ht⟩ => ?_⟩
  have hlive := hG.status_target hs he'
  rw [ht] at hlive
  exact absurd hlive (hp c hop e)

/-- The target of the only pointer to it is grounded, if the place of the pointer is rooted. -/
theorem FedAside.grounded {root : Place} {G : Set Edge} (hG : FedAside h root G)
    (hs : Sound ⟨h, hand, ts⟩) {p : Place} (hp : p.Rooted G) (hpr : p = root ∨ ¬ h.Outer p)
    {c : CellId} {v : Value α} (ht : h.through true p = .ok (c, v)) : Grounded G c := by
  obtain ⟨q, o, hq, ho, hoc, hv, hone⟩ := through_eq_ok ht
  refine ⟨c, fun a ⟨e, he, hsrc, htar⟩ => ?_⟩
  rcases hG e he with hedge | ⟨s, hne, houter, hs'⟩
  · -- an edge to the cell is the pointer that leads there
    have hpointer : h.pointer? (.inside e.source e.hop) = some (.nullable (some e.owner)) := by
      rw [pointer?, mem_edges.mp hedge]
      rfl
    have hpe : p = .inside e.source e.hop := hs.place_unique (hone rfl) hq ho hoc hpointer rfl htar
    rw [← hsrc]
    exact hp _ _ hpe
  · -- the pointer that leads to the cell is another than the one aside
    have hps : p = s := hs.place_unique (hone rfl) hq ho hoc hs' rfl htar
    rcases hpr with hpr | hpr
    · exact absurd (hps.symm.trans hpr) hne
    · exact absurd (hps ▸ houter) hpr

theorem not_outer_inside {c : CellId} {v : Value α} (hv : h.live? c = some v) (hop : Hop) :
    ¬ h.Outer (.inside c hop) :=
  fun ho => ho c hop rfl (status_of_live? hv)

/-- **Whoever is reached through pointers that are the only owners of their targets is on no
cycle**, and would be on none if a pointer from aside were put anywhere. -/
theorem FedAside.grounded_of_walk {root : Place} {G : Set Edge} (hG : FedAside h root G)
    (hs : Sound ⟨h, hand, ts⟩) {path : List Hop} : ∀ {p : Place}, p.Rooted G →
    (p = root ∨ ¬ h.Outer p) → ∀ {p' : Place}, h.walk true p path = .ok p' → ∀ {c : CellId}
    {v : Value α}, h.through true p' = .ok (c, v) → Grounded G c := by
  induction path with
  | nil =>
    intro p hp hpr p' hw c v ht
    have hpp : p = p' := by
      unfold walk at hw
      split at hw
      · simp at hw
      · simp at hw
      · simpa using hw
    exact hG.grounded hs hp hpr (hpp ▸ ht)
  | cons hop path ih =>
    intro p hp hpr p' hw c v ht
    unfold walk at hw
    split at hw
    · simp at hw
    · rename_i c₁ v₁ ht₁
      split at hw
      · simp at hw
      · obtain ⟨-, -, -, -, -, hv₁, -⟩ := through_eq_ok ht₁
        have hground := hG.grounded hs hp hpr ht₁
        refine ih (p := .inside c₁ hop) (fun c' hop' e => ?_) (.inr (not_outer_inside hv₁ hop)) hw ht
        obtain ⟨rfl, -⟩ : c₁ = c' ∧ hop = hop' := by simpa using e
        exact hground

/-! ### Pointers that are put into live values -/

theorem Value.get?_set_eq_some (v : Value α) (hop : Hop) (o : Option Owner) {hop' : Hop} {q : Owner}
    (hq : (v.set hop o).get? hop' = some (some q)) : v.get? hop' = some (some q) ∨ o = some q := by
  rw [Value.get?_set] at hq
  split at hq
  · obtain ⟨-, -, ho⟩ := Option.map_eq_some_iff.mp hq
    exact .inr ho
  · exact .inl hq

/-- A new field after all others. -/
theorem Value.get?_append (v : Value α) (o : Option Owner) {hop : Hop} {q : Owner}
    (hq : ({ v with fields := v.fields ++ [o] } : Value α).get? hop = some (some q)) :
    v.get? hop = some (some q) ∨ o = some q := by
  cases hop with
  | link k => exact .inl hq
  | field k =>
    simp only [Value.get?, List.getElem?_append] at hq
    split at hq
    · exact .inl hq
    · rw [List.getElem?_singleton] at hq
      split at hq
      · exact .inr (by simpa using hq)
      · simp at hq

/-- What is put into a live value comes from a place that is claimed: each new edge is that
pointer, and starts at that value. -/
theorem edges_exchange {s : Place} (hcl : Claimed h ts s) {o : Option Owner}
    (ho : h.pointer? s = some (.nullable o)) {c : CellId} {v v' : Value α} (hv : h.live? c = some v)
    (hget : ∀ {hop : Hop} {q : Owner}, v'.get? hop = some (some q) →
      v.get? hop = some (some q) ∨ o = some q) {e : Edge}
    (he : e ∈ ((h.poke s s.vacated).setLive c v').edges) :
    e ∈ h.edges ∨ e.source = c ∧ h.pointer? s = some (.nullable (some e.owner)) := by
  have hne : ∀ hop, s ≠ .inside c hop := fun hop e => hcl.outside c hop e (status_of_live? hv)
  have hv' : (h.poke s s.vacated).live? c = some v := (live?_poke hne _).trans hv
  rcases (edges_setLive hv' v').mp he with ⟨-, he⟩ | ⟨hc, hq⟩
  · exact .inl (edges_poke_vacated hcl.peek_eq he)
  · rcases hget hq with hq | rfl
    · exact .inl ((mem_edges_of_live? hv hc).mpr hq)
    · exact .inr ⟨hc, ho⟩

/-- What a store does to the graph: nothing, or the new edges are the pointer stored, and start
at the value at the end of the path. -/
theorem performStore_edges_cases (hs : Sound ⟨h, [], ts⟩) (ha : Acting self ts) (r : Ref)
    (path : List Hop) (site : Site) (src : Ref) :
    (h.performStore self r path site src).heap = h ∨
      ∃ root s p c v, h.claim self r = .ok root ∧ Claimed h ts s ∧ s ≠ root ∧
        h.walk true root path = .ok p ∧ h.through true p = .ok (c, v) ∧
        ∀ e ∈ (h.performStore self r path site src).heap.edges,
          e ∈ h.edges ∨ e.source = c ∧ h.pointer? s = some (.nullable (some e.owner)) := by
  unfold performStore
  split
  · exact .inl rfl
  · exact .inl rfl
  · rename_i root s hroot hsrc
    have hcs := hs.claimed ha hsrc
    split
    · exact .inl rfl
    · rename_i hne
      split
      · exact .inl rfl
      · exact .inl rfl
      · rename_i o p ho hwalk
        split
        · exact .inl rfl
        · rename_i c v ht
          obtain ⟨-, -, -, -, -, hv, -⟩ := through_eq_ok ht
          split
          · refine .inr ⟨root, s, p, c, v, hroot, hcs, Ne.symm hne, hwalk, ht,
              fun e he => ?_⟩
            exact edges_exchange hcs ho hv (v.get?_append o) he
          · split
            · exact .inl rfl
            · refine .inr ⟨root, s, p, c, v, hroot, hcs, Ne.symm hne, hwalk, ht,
                fun e he => ?_⟩
              rw [(samePointers_lend _ root).edges] at he
              exact edges_exchange hcs ho hv (v.get?_set_eq_some _ o) he
      · exact .inl rfl

/-- **A store through pointers that are the only owners of their targets closes no cycle**: the
value at the end of the path is on none, wherever the pointer that is stored leads. -/
theorem performStore_not_onCycle (hs : Sound ⟨h, [], ts⟩) (ha : Acting self ts) {r : Ref}
    {path : List Hop} {site : Site} {src : Ref} {root p : Place} {c : CellId} {v : Value α}
    (hroot : h.claim self r = .ok root) (hw : h.walk true root path = .ok p)
    (ht : h.through true p = .ok (c, v)) :
    ¬ OnCycle (h.performStore self r path site src).heap.edges c := by
  have hfed : FedAside h root (h.performStore self r path site src).heap.edges := by
    rcases performStore_edges_cases hs ha r path site src with hsame | ⟨root', s, _, _, _, hroot',
      hcs, hne, -, -, hedges⟩
    · rw [hsame]
      exact fedAside_edges h root
    · obtain rfl : root = root' := by simpa [hroot] using hroot'
      intro e he
      rcases hedges e he with hold | ⟨-, hq⟩
      · exact .inl hold
      · exact .inr ⟨s, hne, hcs.outer, hq⟩
  have houter : h.Outer root := (hs.claimed ha hroot).outer
  exact (hfed.grounded_of_walk hs (hfed.rooted hs houter) (.inl rfl) hw ht).not_onCycle

theorem performStore_calm (hs : Sound ⟨h, [], ts⟩) (ha : Acting self ts) (r : Ref)
    (path : List Hop) (site : Site) (src : Ref) :
    Calm h (h.performStore self r path site src).heap := by
  rcases performStore_edges_cases hs ha r path site src with hsame | ⟨root, s, p, c, v, hroot, -, -,
    hw, ht, hedges⟩
  · rw [hsame]
    exact fun _ he => .inl he
  · intro e he
    rcases hedges e he with hold | ⟨rfl, -⟩
    · exact .inl hold
    · exact .inr (performStore_not_onCycle hs ha hroot hw ht)

/-- **No act closes a cycle**, of the caller or of a destructor. -/
theorem perform_calm (hs : Sound ⟨h, [], ts⟩) (ha : Acting self ts) (a : Act α) :
    Calm h (h.perform self a).heap := by
  have hs' := (perform_edits hs ha a).sound hs
  cases a with
  | ask q => exact (Still.refl h).calm hs
  | reset dst => exact (performReset_still hs ha dst).calm hs'
  | drop r => exact (performDrop_still hs ha r).calm hs'
  | clear r => exact (performClear_still hs ha r).calm hs'
  | move src dst => exact (performMove_still hs ha src dst).calm hs'
  | clone src path dst => exact (performClone_still hs ha src path dst).calm hs'
  | assign dst src path => exact (performAssign_still hs ha dst src path).calm hs'
  | advance dst path => exact (performAdvance_still hs ha dst path).calm hs'
  | replace dst src path => exact (performReplace_still hs ha dst src path).calm hs'
  | convert src dst kind => exact (performConvert_still hs ha src dst kind).calm hs'
  | make dst kind data script fields links near =>
    exact performMake_calm hs ha dst kind data script fields links near
  | update r path f => exact (performUpdate_still r path f).calm hs'
  | store r path site src => exact performStore_calm hs ha r path site src
  | skipIf p n => exact (Still.refl h).calm hs
  | giveUpIf p => exact (Still.refl h).calm hs
  | report say => exact (Still.refl h).calm hs

/-! ### Steps of the machine -/

/-- A value whose destruction begins still has all its pointers. -/
theorem edges_setContent_dying {c : CellId} {v : Value α} (hv : h.live? c = some v) :
    (h.setContent c (.dying v)).edges = h.edges := by
  obtain ⟨cell, hcell, -⟩ := live?_eq_some.mp hv
  ext e
  by_cases hc : e.source = c
  · rw [mem_edges_of_live? hv hc, mem_edges_iff]
    subst hc
    simp [setContent, modifyCell, hcell, Content.value?]
  · exact mem_edges_setContent hc _

theorem release_edges_subset (o : Owner) (h : Heap α) (ts : List (Task α)) :
    (Machine.release o h ts).heap.edges ⊆ h.edges := by
  have hsame := samePointers_signOff_any h o
  unfold Machine.release
  split
  · rename_i g heq
    rw [heq] at hsame
    exact hsame.edges.subset
  · rename_i g heq
    rw [heq] at hsame
    split
    · exact hsame.edges.subset
    · rename_i v hv
      intro e he
      have he : e ∈ (g.setContent o.cell (.dying v)).edges := he
      rwa [edges_setContent_dying hv, hsame.edges] at he

/-- What is taken out of a dying value closes no cycle, and neither does freeing it. -/
theorem Sound.setContent_calm {c : CellId} {cell : Cell α} {k : Content α}
    (hs' : Sound ⟨h.setContent c k, hand, ts⟩) (hc : h.cells[c]? = some cell)
    (hk : k.status ≠ .live) : Calm h (h.setContent c k) := by
  refine hs'.calm fun e he => ?_
  rw [status_setContent hc]
  by_cases hce : e.source = c
  · exact .inr (by simpa [hce] using hk)
  · exact .inl ((mem_edges_setContent hce k).mp he)

theorem dismantle_calm {c : CellId} (hs' : Sound (Machine.dismantle c h ts).draft) :
    Calm h (Machine.dismantle c h ts).heap := by
  unfold Machine.dismantle at hs' ⊢
  split
  · rename_i hc
    simp only [hc] at hs'
    exact Sound.setContent_calm hs' hc (by simp)
  · rename_i hc
    simp only [hc] at hs'
    exact Sound.setContent_calm hs' hc (by simp)
  · rename_i hc
    simp only [hc] at hs'
    exact Sound.setContent_calm (h := h) (k := .freed) ⟨hs'.census, hs'.alive, hs'.dying, hs'.lent,
      hs'.order, hs'.vacant⟩ hc (by simp)
  · exact calm_of_subset (Set.Subset.refl _)

/-- A place that waits for a pointer is in no live value. -/
theorem Sound.outer_of_fills (hs : Sound ⟨h, hand, ts⟩) {t : Task α} (ht : t ∈ ts) {p : Place}
    (hp : t.fills = some p) : h.Outer p :=
  fun _ hop e hlive => hs.not_inside_of_fills ht hp hlive hop e

theorem adopt_still {dst src : Place} (hd : h.Outer dst) : Still h (Machine.adopt dst src h) := by
  unfold Machine.adopt
  split
  · exact .refl h
  · rename_i q _
    exact (samePointers_duplicate h q).still.poke hd _

theorem follow_still {dst : Place} {o : Owner} (hd : h.Outer dst) :
    Still h (Machine.follow dst o h) :=
  (samePointers_acquire h o.cell).still.poke hd _

theorem act_calm {c : CellId} {a : Act α} {acts : List (Act α)} {last : Answer α}
    (hs : Sound ⟨h, [], .script c (a :: acts) last :: ts⟩) :
    Calm h (Machine.act c a acts last h ts).heap := by
  have ha : Acting (some c) (.script c (a :: acts) last :: ts) := by
    rintro c' e
    obtain rfl : c = c' := by simpa using e
    exact ⟨_, _, _, rfl⟩
  have hperform := perform_calm hs ha a
  cases a with
  | giveUpIf p =>
    unfold Machine.act
    simp only
    split
    · exact hperform
    · exact hperform
  | _ => exact hperform

/-- **No step of the machine closes a cycle.** -/
theorem step_calm (hs : Sound m.draft) : Calm m.heap m.step.heap := by
  have hs' := (step_edits hs).sound hs
  obtain ⟨h, ts⟩ := m
  cases ts with
  | nil => exact calm_of_subset (Set.Subset.refl _)
  | cons t ts =>
    have hfill : ∀ p, t.fills = some p → h.Outer p := fun p => hs.outer_of_fills List.mem_cons_self
    cases t with
    | release o => exact calm_of_subset (release_edges_subset o h ts)
    | adopt dst src => exact (adopt_still (hfill dst rfl)).calm hs'
    | follow dst o => exact (follow_still (hfill dst rfl)).calm hs'
    | place dst q => exact (still_poke (hfill dst rfl) _).calm hs'
    | unlend p => exact (samePointers_unlend h p).still.calm hs'
    | unshare p => exact (samePointers_unshare h p).still.calm hs'
    | dismantle c => exact dismantle_calm hs'
    | script c acts last =>
      cases acts with
      | nil => exact calm_of_subset (Set.Subset.refl _)
      | cons a acts => exact act_calm hs

end Custody.Heap
