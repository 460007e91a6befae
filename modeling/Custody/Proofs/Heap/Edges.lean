/-
# The ownership graph, and what acts do to it

The edges of a heap are the pointers in its values. Most of what acts and tasks do
leaves every cell as far as it is, and puts pointers into variables and into the
values of dying cells only, so each new edge starts at a dying cell (`Still`). What
is otherwise done to the graph is left to three acts: one makes a cell, one stores a
pointer in a live value, and one overwrites a link.

Key definitions: `Heap.edges`, `Still`.
Key theorems: `still_poke`, `still_setLive`, `edges_setLive`, `edges_allocate`.
-/
import Custody.Proofs.Heap.Graph
import Custody.Proofs.Heap.Lifetime

namespace Custody.Heap

variable {α : Type} {h h' h'' : Heap α} {ts : List (Task α)} {self : Option CellId}

/-- The pointers in values. -/
def edges (h : Heap α) : Set Edge :=
  {e | h.peek (.inside e.source e.hop) = some (some (.nullable (some e.owner)))}

theorem mem_edges {e : Edge} :
    e ∈ h.edges ↔ h.peek (.inside e.source e.hop) = some (some (.nullable (some e.owner))) :=
  Iff.rfl

/-- An edge, with the value it is in. -/
theorem mem_edges_iff {e : Edge} :
    e ∈ h.edges ↔ ∃ cell v, h.cells[e.source]? = some cell ∧ cell.content.value? = some v ∧
      v.get? e.hop = some (some e.owner) := by
  constructor
  · intro he
    obtain ⟨cell, v, o, hc, hv, ho, hx⟩ := peek_inside_eq_some he
    simp only [Option.some.injEq, Pointer.nullable.injEq] at hx
    exact ⟨cell, v, hc, hv, hx ▸ ho⟩
  · rintro ⟨cell, v, hc, hv, ho⟩
    simp [mem_edges, peek, hc, hv, ho]

/-- Only a value that is not freed has pointers. -/
theorem status_source {e : Edge} (he : e ∈ h.edges) :
    h.status e.source = some .live ∨ h.status e.source = some .dying := by
  obtain ⟨⟨_, _, content⟩, v, hc, hv, -⟩ := mem_edges_iff.mp he
  rcases content with w | w | _
  · exact .inl (by simp [status, hc])
  · exact .inr (by simp [status, hc])
  · simp [Content.value?] at hv

/-- An edge is an owner that is stored. -/
theorem mem_owners_of_mem_edges {e : Edge} (he : e ∈ h.edges) : e.owner ∈ h.owners :=
  mem_owners_of_peek he (by simp)

/-- So what an edge leads to is live. -/
theorem Sound.status_target {hand : List Owner} (hs : Sound ⟨h, hand, ts⟩) {e : Edge}
    (he : e ∈ h.edges) : h.status e.target = some .live :=
  hs.live_of_mem (by simp [Draft.owners, mem_owners_of_mem_edges he])

theorem SamePointers.edges (s : SamePointers h h') : h'.edges = h.edges := by
  ext e
  rw [mem_edges, mem_edges, s.peek]

/-! ### Changes that leave live values alone -/

/-- All cells are as far as before, and each new edge starts at a dying one. -/
structure Still (h h' : Heap α) : Prop where
  status : ∀ c, h'.status c = h.status c
  edges : ∀ e ∈ h'.edges, e ∈ h.edges ∨ h.status e.source = some .dying

theorem Still.refl (h : Heap α) : Still h h where
  status _ := rfl
  edges _ he := .inl he

theorem Still.trans (s : Still h h') (s' : Still h' h'') : Still h h'' where
  status c := (s'.status c).trans (s.status c)
  edges e he := by
    rcases s'.edges e he with he | hd
    · exact s.edges e he
    · rw [s.status e.source] at hd
      exact .inr hd

theorem SamePointers.still (s : SamePointers h h') : Still h h' where
  status := s.status
  edges _ he := .inl (s.edges ▸ he)

/-- A place is in no live value. -/
def Outer (h : Heap α) (p : Place) : Prop :=
  ∀ c hop, p = .inside c hop → h.status c ≠ some .live

theorem Claimed.outer {p : Place} (hp : Claimed h ts p) : h.Outer p := hp.outside

theorem Outer.of_status {p : Place} (hp : h.Outer p) (hs : ∀ c, h'.status c = h.status c) :
    h'.Outer p := by
  intro c hop e
  rw [hs c]
  exact hp c hop e

theorem Still.outer {p : Place} (s : Still h h') (hp : h.Outer p) : h'.Outer p :=
  hp.of_status s.status

/-- What is put into a place in no live cell changes no live value. -/
theorem live?_poke_outer {p : Place} (hp : h.Outer p) (x : Option Pointer) (c : CellId) :
    (h.poke p x).live? c = h.live? c := by
  by_cases hin : ∃ hop, p = .inside c hop
  · obtain ⟨hop, rfl⟩ := hin
    have hdead : ∀ g : Heap α, g.status c = h.status c → g.live? c = none := by
      intro g hg
      cases hv : g.live? c with
      | none => rfl
      | some v => exact absurd (hg.symm.trans (status_of_live? hv)) (hp c hop rfl)
    rw [hdead _ (status_poke h _ x c), hdead h rfl]
  · exact live?_poke (fun hop he => hin ⟨hop, he⟩) x

/-- Putting something into a place that is in no live value. -/
theorem still_poke {p : Place} (hp : h.Outer p) (x : Option Pointer) : Still h (h.poke p x) where
  status := status_poke h p x
  edges e he := by
    by_cases hpe : p = .inside e.source e.hop
    · rcases status_source he with hlive | hdying
      · rw [status_poke] at hlive
        exact absurd hlive (hp _ _ hpe)
      · exact .inr (by rwa [status_poke] at hdying)
    · rw [mem_edges, peek_poke_ne hpe] at he
      exact .inl he

/-- The edges that start at a live cell. -/
theorem mem_edges_of_live? {c : CellId} {v : Value α} (hv : h.live? c = some v) {e : Edge}
    (hc : e.source = c) : e ∈ h.edges ↔ v.get? e.hop = some (some e.owner) := by
  obtain ⟨cell, hcell, hcon⟩ := live?_eq_some.mp hv
  subst hc
  rw [mem_edges_iff]
  simp [hcell, hcon, Content.value?]

/-- Another content of a cell is not seen in the edges that start elsewhere. -/
theorem mem_edges_setContent {c : CellId} {e : Edge} (hc : e.source ≠ c) (k : Content α) :
    e ∈ (h.setContent c k).edges ↔ e ∈ h.edges := by
  have hne : ∀ hop, Place.inside e.source e.hop ≠ .inside c hop := by
    intro hop e'
    injection e' with e' _
    exact hc e'
  rw [mem_edges, peek_setContent hne, ← mem_edges]

/-- Giving a live cell another value changes the edges that start at it only. -/
theorem edges_setLive {c : CellId} {v : Value α} (hv : h.live? c = some v) (v' : Value α) {e : Edge} :
    e ∈ (h.setLive c v').edges ↔
      (e.source ≠ c ∧ e ∈ h.edges) ∨ (e.source = c ∧ v'.get? e.hop = some (some e.owner)) := by
  by_cases hc : e.source = c
  · obtain ⟨cell, hcell, -⟩ := live?_eq_some.mp hv
    have hv' : (h.setLive c v').live? c = some v' := by
      simp [live?, setLive, modifyCell, hcell]
    simp [mem_edges_of_live? hv' hc, hc]
  · rw [setLive_eq, mem_edges_setContent hc]
    simp [hc]

/-- A value in a live cell with the same pointers. -/
theorem still_setLive {c : CellId} {v v' : Value α} (hv : h.live? c = some v)
    (hget : ∀ hop, v'.get? hop = v.get? hop) : Still h (h.setLive c v') where
  status := status_setLive hv v'
  edges e he := by
    rcases (edges_setLive hv v').mp he with ⟨-, he⟩ | ⟨hc, ho⟩
    · exact .inl he
    · rw [hget] at ho
      exact .inl ((mem_edges_of_live? hv hc).mpr ho)

/-- Taking the pointer out of a place adds no edge. -/
theorem edges_poke_vacated {s : Place} {old : Option Pointer} (hp : h.peek s = some old) {e : Edge}
    (he : e ∈ (h.poke s s.vacated).edges) : e ∈ h.edges := by
  by_cases hse : s = .inside e.source e.hop
  · obtain ⟨y, hy, hheld⟩ := peek_poke_self hp s.vacated
    rw [mem_edges, ← hse, hy] at he
    obtain rfl := Option.some.inj he
    simp at hheld
  · rwa [mem_edges, peek_poke_ne hse] at he

theorem still_put {p : Place} (hp : h.Outer p) (x : Option Pointer) : Still h (h.put p x).heap :=
  still_poke hp x

theorem Still.poke {p : Place} (s : Still h h') (hp : h.Outer p) (x : Option Pointer) :
    Still h (h'.poke p x) :=
  s.trans (still_poke (s.outer hp) x)

theorem Still.same (s : Still h h') (s' : SamePointers h' h'') : Still h h'' :=
  s.trans s'.still

theorem Still.lend (s : Still h h') (p : Place) : Still h (h'.lend p) :=
  s.same (samePointers_lend h' p)

theorem Still.share (s : Still h h') (p : Place) : Still h (h'.share p) :=
  s.same (samePointers_share h' p)

/-! ### The acts -/

section acts

variable {hand : List Owner} (hs : Sound ⟨h, hand, ts⟩) (ha : Acting self ts)
include hs ha

theorem performReset_still (dst : Ref) : Still h (h.performReset self dst).heap := by
  unfold performReset
  split
  · exact .refl h
  · rename_i d hd
    exact still_put (hs.claimed ha hd).outer _

theorem performDrop_still (r : Ref) : Still h (h.performDrop self r).heap := by
  unfold performDrop
  split
  · exact .refl h
  · rename_i p hp
    exact still_put (hs.claimed ha hp).outer _

theorem performClear_still (r : Ref) : Still h (h.performClear self r).heap := by
  unfold performClear
  split
  · exact .refl h
  · rename_i p hp
    split
    · exact .refl h
    · exact (still_poke (hs.claimed ha hp).outer _).lend p
    · exact .refl h

theorem performMove_still (src dst : Ref) : Still h (h.performMove self src dst).heap := by
  unfold performMove
  split
  · exact .refl h
  · exact .refl h
  · rename_i s d hsrc hdst
    simp only
    split
    · exact (still_poke (hs.claimed ha hsrc).outer _).poke (hs.claimed ha hdst).outer _
    · exact .refl h

theorem performClone_still (src : Ref) (path : List Hop) (dst : Ref) :
    Still h (h.performClone self src path dst).heap := by
  unfold performClone
  split
  · exact .refl h
  · exact .refl h
  · rename_i root p q d hfind hdst
    split
    · exact (samePointers_duplicate h q).still.poke (hs.claimed ha hdst).outer _
    · exact .refl h

theorem performAssign_still (dst src : Ref) (path : List Hop) :
    Still h (h.performAssign self dst src path).heap := by
  unfold performAssign
  split
  · exact .refl h
  · exact .refl h
  · rename_i d s p q hdst hfind
    have hd := (hs.claimed ha hdst).outer
    split
    · exact .refl h
    · split
      · exact .refl h
      · split
        · exact .refl h
        · exact ((still_poke hd _).lend d).share s
      · rename_i a b _
        split
        · exact .refl h
        · exact (((samePointers_acquire h b.cell).still.poke hd _).lend d).share s
      · exact .refl h

theorem performAdvance_still (dst : Ref) (path : List Hop) :
    Still h (h.performAdvance self dst path).heap := by
  unfold performAdvance
  split
  · exact .refl h
  · exact .refl h
  · rename_i d root p q hdst hfind
    have hd := (hs.claimed ha hdst).outer
    split
    · exact .refl h
    · split
      · exact .refl h
      · split
        · exact (still_poke hd _).lend d
        · rename_i b _
          exact ((samePointers_acquire h b.cell).still.poke hd _).lend d
    · exact .refl h

theorem performReplace_still (dst src : Ref) (path : List Hop) :
    Still h (h.performReplace self dst src path).heap := by
  unfold performReplace
  split
  · exact .refl h
  · exact .refl h
  · rename_i d s p q hdst hfind
    split
    · exact .refl h
    · split
      · exact .refl h
      · split
        · exact (((samePointers_duplicate h q).still.poke (hs.claimed ha hdst).outer _).lend d).share s
        · exact .refl h

theorem performConvert_still (src dst : Ref) (kind : Kind) :
    Still h (h.performConvert self src dst kind).heap := by
  unfold performConvert
  split
  · exact .refl h
  · exact .refl h
  · rename_i s d hsrc hdst
    have htake := fun x => still_poke (hs.claimed ha hsrc).outer x
    split
    · exact .refl h
    · split
      · exact htake _
      · exact .refl h
      · split
        · exact (htake _).poke (hs.claimed ha hdst).outer _
        · exact .refl h

omit hs ha in
theorem performUpdate_still (r : Ref) (path : List Hop) (f : α → α) :
    Still h (h.performUpdate self r path f).heap := by
  unfold performUpdate
  split
  · exact .refl h
  · split
    · exact .refl h
    · split
      · exact .refl h
      · rename_i c v ht
        obtain ⟨-, -, -, -, -, hv, -⟩ := through_eq_ok ht
        exact still_setLive hv fun hop => by cases hop <;> rfl

end acts

/-! ### Pointers that are gathered, and a new cell -/

theorem gather_still (ha : Acting self ts) : ∀ {rs : List (Option Ref)} {h h' : Heap α}
    {hand : List Owner} {os : List (Option Owner)}, Sound ⟨h, hand, ts⟩ →
    gather self h rs = .ok (os, h') → Still h h'
  | [], h, h', hand, os, _, hg => by
    obtain ⟨rfl, rfl⟩ := by simpa [gather] using hg
    exact .refl h
  | none :: rs, h, h', hand, os, hs, hg => by
    unfold gather at hg
    split at hg
    · simp at hg
    · rename_i os' h₁ hrest
      obtain ⟨rfl, rfl⟩ := by simpa using hg
      exact gather_still ha hs hrest
  | some r :: rs, h, h', hand, os, hs, hg => by
    unfold gather at hg
    split at hg
    · simp at hg
    · rename_i p hclaim
      have hcl := hs.claimed ha hclaim
      split at hg
      · simp at hg
      · split at hg
        · simp at hg
        · rename_i os' h₁ hrest
          obtain ⟨rfl, rfl⟩ := by simpa using hg
          have hs' := (hcl.take hand (held_vacated p)).sound hs
          exact (still_poke hcl.outer _).trans (gather_still ha hs' hrest)
      · simp at hg

/-- The edges of a new cell are the pointers of its value. -/
theorem edges_allocate {near : Nat} {v : Value α} {e : Edge}
    (he : e ∈ (h.allocate near v).2.edges) :
    e ∈ h.edges ∨ e.source = h.cells.length ∧ e.owner ∈ v.owners := by
  obtain ⟨cell, w, hc, hw, ho⟩ := mem_edges_iff.mp he
  by_cases hlt : e.source < h.cells.length
  · simp only [allocate, List.getElem?_append_left hlt] at hc
    exact .inl (mem_edges_iff.mpr ⟨cell, w, hc, hw, ho⟩)
  · simp only [allocate, List.getElem?_append_right (Nat.not_lt.mp hlt)] at hc
    obtain ⟨hsrc, rfl⟩ : e.source - h.cells.length = 0 ∧ _ = cell := by
      simpa [List.getElem?_singleton] using hc
    obtain rfl : v = w := by simpa [Content.value?] using hw
    refine .inr ⟨Nat.le_antisymm (Nat.sub_eq_zero_iff_le.mp hsrc) (Nat.not_lt.mp hlt), ?_⟩
    simp only [Value.owners, Value.pointers, List.mem_filterMap, List.mem_append, id_eq,
      exists_eq_right]
    cases hhop : e.hop with
    | field k =>
      rw [hhop] at ho
      exact .inl (List.mem_of_getElem? ho)
    | link k =>
      rw [hhop] at ho
      exact .inr (List.mem_of_getElem? ho)

end Custody.Heap
