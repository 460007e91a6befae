/-
# What is changed over unique pointers is seen from nowhere else

A value is changed at the end of a path of which each pointer is the only owner of its target.
Each step checks one count only; but by the census the counts tell how many owners there are
in all, so nobody comes into that chain but by the pointer that it starts from, however much
is shared elsewhere and whatever cycles there are. So what anybody else reads stays the same.

Key definitions: `Machine.Lone`, `Isolated`.
Key theorems: `Moment.reaches_iff`, `Under.eq_root`, `Moment.update_isolated`.
-/
import Custody.Proofs.Heap.Borrow
import Custody.Proofs.Heap.Census
import Custody.Proofs.Heap.Weight

namespace Custody.Heap

variable {α : Type} {h g : Heap α} {m : Machine α} {n : Nat} {self : Option CellId} {ts : List (Task α)}
  {r : Ref} {root p q : Place} {path : List Hop} {c : CellId} {o : Owner} {v : Value α} {f : α → α}

/-! ### Pointers that are alone -/

/-- Every pointer on the path from a place has a target, and there is no other owner of that. -/
def Machine.Lone (m : Machine α) : Place → List Hop → Prop
  | p, [] => ∃ o, m.heap.ownerAt p = some o ∧ m.owners.countP (Owner.isOf o.cell) = 1
  | p, hop :: path => ∃ o, m.heap.ownerAt p = some o ∧ m.owners.countP (Owner.isOf o.cell) = 1 ∧
      m.Lone (.inside o.cell hop) path

theorem Machine.Lone.ownerAt (hl : m.Lone p path) :
    ∃ o, m.heap.ownerAt p = some o ∧ m.owners.countP (Owner.isOf o.cell) = 1 := by
  cases path with
  | nil => exact hl
  | cons hop path =>
    obtain ⟨o, ho, hone, -⟩ := hl
    exact ⟨o, ho, hone⟩

/-- A pointer that is the only owner of a live cell leads to its value, to change it. -/
theorem through_alone_eq (ho : h.ownerAt p = some o) (hv : h.live? o.cell = some v)
    (hone : (h.count o.cell).owners = 1) : h.through true p = .ok (o.cell, v) := by
  obtain ⟨x, hx, hxo⟩ := ownerAt_eq_some.mp ho
  unfold through
  simp only [pointer?_eq_some hx, hxo, hv, isUnique, Count.isUnique, hone, decide_true, Bool.not_true,
    Bool.and_false, Bool.false_eq_true, if_false]

theorem Moment.through_iff (hm : Moment n m) : (∃ c v, m.heap.through true p = .ok (c, v)) ↔
    ∃ o, m.heap.ownerAt p = some o ∧ m.owners.countP (Owner.isOf o.cell) = 1 := by
  constructor
  · rintro ⟨c, v, ht⟩
    obtain ⟨o, ho, rfl, -, hone⟩ := ownerAt_of_through ht
    exact ⟨o, ho, (hm.count_eq o.cell).symm.trans (hone rfl)⟩
  · rintro ⟨o, ho, hone⟩
    obtain ⟨v, hv⟩ := exists_live? (hm.sound.live_of_ownerAt ho)
    exact ⟨o.cell, v, through_alone_eq ho hv ((hm.count_eq o.cell).trans hone)⟩

/-- **The end of a path is reached if and only if all pointers on it are alone.** -/
theorem Moment.reaches_iff (hm : Moment n m) :
    (∃ q c v, m.heap.walk true p path = .ok q ∧ m.heap.through true q = .ok (c, v)) ↔ m.Lone p path := by
  induction path generalizing p with
  | nil =>
    refine Iff.trans ?_ hm.through_iff
    constructor
    · rintro ⟨q, c, v, hw, ht⟩
      obtain rfl := eq_of_walk_nil hw
      exact ⟨c, v, ht⟩
    · rintro ⟨c, v, ht⟩
      obtain ⟨o, ho, -⟩ := ownerAt_of_through ht
      obtain ⟨x, hx, -⟩ := ownerAt_eq_some.mp ho
      refine ⟨p, c, v, ?_, ht⟩
      unfold walk
      rw [pointer?_eq_some hx]
  | cons hop path ih =>
    constructor
    · rintro ⟨q, c, v, hw, ht⟩
      unfold walk at hw
      split at hw
      · simp at hw
      · rename_i c' v' hthrough
        split at hw
        · simp at hw
        · obtain ⟨o, ho, hcell, -, hone⟩ := ownerAt_of_through hthrough
          subst hcell
          exact ⟨o, ho, (hm.count_eq o.cell).symm.trans (hone rfl), ih.mp ⟨q, c, v, hw, ht⟩⟩
    · rintro ⟨o, ho, hone, hrest⟩
      obtain ⟨q, c, v, hw, ht⟩ := ih.mpr hrest
      obtain ⟨v', hv'⟩ := exists_live? (hm.sound.live_of_ownerAt ho)
      have hthrough := through_alone_eq ho hv' ((hm.count_eq o.cell).trans hone)
      obtain ⟨o', ho', -⟩ := hrest.ownerAt
      have hfield : (v'.get? hop).isSome := (isSome_peek_inside hv').mp (isSome_of_ownerAt (by simp [ho']))
      obtain ⟨x, hx⟩ := Option.isSome_iff_exists.mp hfield
      refine ⟨q, c, v, ?_, ht⟩
      unfold walk
      simp only [hthrough, hx]
      exact hw

/-! ### Another value without other pointers -/

section setData

variable (hv : h.live? c = some v) (x : α)
include hv

theorem live?_setData : (h.setLive c { v with data := x }).live? c = some { v with data := x } := by
  obtain ⟨cell, hc, -⟩ := live?_eq_some.mp hv
  simp [live?, setLive, modifyCell, hc]

omit hv in
theorem cells_setLive {c' : CellId} (hne : c' ≠ c) (w : Value α) :
    (h.setLive c w).cells[c']? = h.cells[c']? :=
  List.getElem?_modify_ne _ h.cells hne.symm

/-- No pointer is another. -/
theorem peek_setData (p : Place) : (h.setLive c { v with data := x }).peek p = h.peek p := by
  by_cases hin : ∃ hop, p = .inside c hop
  · obtain ⟨hop, rfl⟩ := hin
    rw [peek_inside_of_live (live?_setData hv x), peek_inside_of_live hv]
    cases hop <;> rfl
  · exact peek_setContent fun hop he => hin ⟨hop, he⟩

/-- A pointer leads to the same cell, and the value there has the same pointers. -/
theorem through_setData (p : Place) : (h.setLive c { v with data := x }).through false p =
    (h.through false p).map fun w => (w.1, if w.1 = c then { w.2 with data := x } else w.2) := by
  unfold through
  rw [peek_setData hv]
  split
  · rfl
  · rfl
  · split
    · rfl
    · rename_i o ho
      simp only [Bool.false_and, Bool.false_eq_true, if_false]
      by_cases hc : o.cell = c
      · rw [hc, live?_setData hv, hv]
        simp [Except.map]
      · have hlive : (h.setLive c { v with data := x }).live? o.cell = h.live? o.cell := by
          simp only [live?, cells_setLive hc]
        rw [hlive]
        cases h.live? o.cell <;> simp [Except.map, hc]

/-- So paths end where they did. -/
theorem walk_setData (path : List Hop) : ∀ p, (h.setLive c { v with data := x }).walk false p path =
    h.walk false p path := by
  induction path with
  | nil =>
    intro p
    unfold walk
    rw [peek_setData hv]
  | cons hop path ih =>
    intro p
    unfold walk
    rw [through_setData hv]
    cases h.through false p with
    | error e => rfl
    | ok w =>
      have hget : (if w.1 = c then { w.2 with data := x } else w.2).get? hop = w.2.get? hop := by
        split
        · cases hop <;> rfl
        · rfl
      simp only [Except.map, hget]
      cases w.2.get? hop with
      | none => rfl
      | some _ => exact ih _

theorem find_setData (self : Option CellId) (r : Ref) (path : List Hop) :
    (h.setLive c { v with data := x }).find self r path = h.find self r path := by
  have hview : (h.setLive c { v with data := x }).view self r = h.view self r := by
    unfold view
    cases place? self r with
    | none => rfl
    | some p =>
      simp only [peek_setData hv]
      cases p <;> rfl
  unfold find
  simp only [hview, walk_setData hv, pointer?, peek_setData hv]

/-- Whoever reads another cell reads what was there. -/
theorem read_setData {self : Option CellId} {r : Ref} {path : List Hop}
    (hne : ∀ root p q o, h.find self r path = .ok (root, p, q) → h.ownerAt p = some o → o.cell ≠ c) :
    (h.setLive c { v with data := x }).query self (.read r path) = h.query self (.read r path) := by
  simp only [query, find_setData hv]
  cases hf : h.find self r path with
  | error e => rfl
  | ok w =>
    obtain ⟨root, p, q⟩ := w
    simp only [through_setData hv]
    cases ht : h.through false p with
    | error e => rfl
    | ok w =>
      obtain ⟨c', v'⟩ := w
      obtain ⟨o, ho, hcell, -⟩ := ownerAt_of_through ht
      have hc : c' ≠ c := hcell ▸ hne root p q o hf ho
      simp only [Except.map, if_neg hc]

/-- Whoever reads that cell reads what is there now. -/
theorem read_setData_self {self : Option CellId} {r : Ref} {path : List Hop} {x' : Pointer}
    (hf : h.find self r path = .ok (root, p, x')) (ht : h.through false p = .ok (c, v)) :
    (h.setLive c { v with data := x }).query self (.read r path) = .value x := by
  simp only [query, find_setData hv, hf, through_setData hv, ht, Except.map, if_true]

end setData

/-! ### The chain is seen from nowhere else -/

/-- A place that is in no live value is under no other. -/
theorem Under.eq_root (hs : Sound ⟨h, [], ts⟩)
    (hout : ∀ c hop, h.status c = some .live → q ≠ .inside c hop) (hq : h.Under root q) : q = root := by
  cases hq with
  | root => rfl
  | inside _ ho _ => exact absurd rfl (hout _ _ (hs.live_of_ownerAt ho))

/-- **No path from elsewhere leads to the end of one over pointers that are alone**, so the target
there is read by nobody else. -/
theorem Sound.cell_ne_of_find (hs : Sound ⟨h, [], ts⟩) (ha : Acting self ts)
    (hroot : place? self r = some root) {q : Place} (hw : h.walk true root path = .ok q)
    (ht : h.through true q = .ok (c, v)) {r' : Ref} {path' : List Hop} {root' : Place} {x : Pointer}
    (hne : root' ≠ root) (hf : h.find self r' path' = .ok (root', p, x)) (ho : h.ownerAt p = some o) :
    o.cell ≠ c := by
  intro hcell
  have hout := hs.outside_of_place? ha (view_eq_place (view_of_find hf))
  have hnot : ¬ h.Under root' root := fun hin =>
    hne (hin.eq_root hs (hs.outside_of_place? ha hroot)).symm
  have hend : ¬ h.Under root' q := hs.walk_not_under hout hnot hw
  have hunder : h.Under root' p := Under.root.walk (find_eq_ok hf).2.2.1
  -- both pointers would be the only owner of the cell
  obtain ⟨o', ho', rfl, -, hone⟩ := ownerAt_of_through ht
  obtain rfl : q = p := hs.eq_of_ownerAt ho' ho hcell (hone rfl)
  exact hend hunder

/-- What else there is after the value of `c` was changed by whoever meant the place `root`. -/
structure Isolated (h g : Heap α) (me : Option CellId) (root : Place) (c : CellId) : Prop where
  /-- Whatever is read from another place is the same. -/
  elsewhere : ∀ r path, place? me r ≠ some root → g.query me (.read r path) = h.query me (.read r path)
  /-- All other cells are the same. -/
  cells : ∀ c', c' ≠ c → g.cells[c']? = h.cells[c']?
  /-- All pointers have the targets that they had. -/
  places : ∀ p, g.peek p = h.peek p
  counts : ∀ c', g.count c' = h.count c'

theorem Sound.isolated (hs : Sound ⟨h, [], ts⟩) (ha : Acting self ts) (hroot : place? self r = some root)
    {q : Place} (hw : h.walk true root path = .ok q) (ht : h.through true q = .ok (c, v)) (x : α) :
    Isolated h (h.setLive c { v with data := x }) self root c where
  elsewhere r' path' hne := by
    obtain ⟨-, -, -, hv, -⟩ := ownerAt_of_through ht
    refine read_setData hv x fun root' p y o hf ho => ?_
    refine hs.cell_ne_of_find ha hroot hw ht (fun he => hne ?_) hf ho
    rw [← he]
    exact view_eq_place (view_of_find hf)
  cells c' hc := cells_setLive hc _
  places := peek_setData (ownerAt_of_through ht).choose_spec.2.2.1 x
  counts c' := count_setContent h c _ c'

/-! ### Mutation -/

theorem readable_of_writable (hw : h.writable p = true) : h.readable p = true := by
  cases p with
  | inside c hop => rfl
  | var i =>
    simp only [writable, readable] at hw ⊢
    cases hv : h.vars[i]? with
    | none => rfl
    | some w =>
      simp only [hv, Bool.and_eq_true] at hw
      exact hw.1

/-- What is claimed may be read. -/
theorem view_of_claim (hc : h.claim self r = .ok root) : h.view self r = .ok root := by
  obtain ⟨hp, hsome, hw⟩ := claim_eq_ok hc
  have hnone : (h.peek root).isNone = false := by
    rw [← Option.not_isSome, hsome]
    rfl
  unfold view
  simp only [hp, hnone, Bool.false_eq_true, if_false, readable_of_writable hw, if_true]

/-- Whoever comes to a value to change it comes there to read it too. -/
theorem through_of_alone (ht : h.through true p = .ok (c, v)) : h.through false p = .ok (c, v) := by
  obtain ⟨o, ho, rfl, hv, -⟩ := ownerAt_of_through ht
  obtain ⟨x, hx, hxo⟩ := ownerAt_eq_some.mp ho
  unfold through
  simp only [pointer?_eq_some hx, hxo, hv, Bool.false_and, Bool.false_eq_true, if_false]

theorem walk_of_alone : ∀ {path : List Hop} {p : Place}, h.walk true p path = .ok q →
    h.walk false p path = .ok q
  | [], p, hw => hw
  | hop :: path, p, hw => by
    unfold walk at hw ⊢
    split at hw
    · simp at hw
    · rename_i c v ht
      rw [through_of_alone ht]
      split at hw
      · simp at hw
      · rename_i hx
        simp only [hx]
        exact walk_of_alone hw

theorem find_of_alone (hc : h.claim self r = .ok root) (hw : h.walk true root path = .ok q)
    (ht : h.through true q = .ok (c, v)) : ∃ x, h.find self r path = .ok (root, q, x) := by
  obtain ⟨o, ho, -⟩ := ownerAt_of_through ht
  obtain ⟨x, hx, -⟩ := ownerAt_eq_some.mp ho
  refine ⟨x, ?_⟩
  simp only [find, view_of_claim hc, walk_of_alone hw, hx]

/-- If the target at the end of the path is not got at, the act is refused. -/
theorem performUpdate_refused (hc : h.claim self r = .ok root) (f : α → α)
    (hnot : ¬ ∃ q c v, h.walk true root path = .ok q ∧ h.through true q = .ok (c, v)) :
    ∃ e, e.isRefusal = true ∧ h.performUpdate self r path f = h.reply e := by
  unfold performUpdate
  rw [hc]
  simp only
  cases hw : h.walk true root path with
  | error e => exact ⟨e, walk_isRefusal hw, rfl⟩
  | ok q =>
    cases ht : h.through true q with
    | error e => exact ⟨e, through_isRefusal ht, by simp only [ht]⟩
    | ok w => exact absurd ⟨q, w.1, w.2, hw, ht⟩ hnot

/-- **Mutation over unique pointers is isolated.** At any moment, whoever acts, the target at the
end of a path is got at to change it if and only if each pointer on the way, from the one that
it starts from, has a target of which it is the only owner there is. If not, nothing has
changed. If so, that value is another, whatever is done to it besides its pointers; and what is read
from anywhere else, over any path, all other values, all counts and all targets are the same. -/
theorem Moment.update_isolated (hm : Moment n m) (ha : Acting self m.tasks)
    (hc : m.heap.claim self r = .ok root) (path : List Hop) (f : α → α) :
    ((∃ a, (m.heap.perform self (.update r path f)).answer = .value a) ↔ m.Lone root path) ∧
    (¬ m.Lone root path →
      m.heap.perform self (.update r path f) = m.heap.reply (m.heap.perform self (.update r path f)).answer) ∧
    (m.Lone root path → ∃ c v, m.heap.live? c = some v ∧
      m.heap.query self (.read r path) = .value v.data ∧
      m.heap.perform self (.update r path f) =
        ⟨m.heap.setLive c { v with data := f v.data }, [], .value (f v.data)⟩ ∧
      (m.heap.setLive c { v with data := f v.data }).query self (.read r path) = .value (f v.data) ∧
      Isolated m.heap (m.heap.setLive c { v with data := f v.data }) self root c) := by
  have hroot := (claim_eq_ok hc).1
  by_cases hlone : m.Lone root path
  · obtain ⟨q, c, v, hw, ht⟩ := hm.reaches_iff.mpr hlone
    obtain ⟨o, -, -, hv, -⟩ := ownerAt_of_through ht
    obtain ⟨x, hf⟩ := find_of_alone hc hw ht
    have hsuccess : m.heap.perform self (.update r path f) =
        ⟨m.heap.setLive c { v with data := f v.data }, [], .value (f v.data)⟩ := by
      show m.heap.performUpdate self r path f = _
      unfold performUpdate
      simp only [hc, hw, ht]
    have hread : m.heap.query self (.read r path) = .value v.data := by
      simp only [query, hf, through_of_alone ht]
    refine ⟨⟨fun _ => hlone, fun _ => ⟨f v.data, ?_⟩⟩, fun hnot => absurd hlone hnot, fun _ => ?_⟩
    · rw [hsuccess]
    · exact ⟨c, v, hv, hread, hsuccess, read_setData_self hv _ hf (through_of_alone ht),
        hm.sound.isolated ha hroot hw ht _⟩
  · obtain ⟨e, he, hrefused⟩ := performUpdate_refused hc f fun hreach => hlone (hm.reaches_iff.mp hreach)
    have hreply : m.heap.perform self (.update r path f) = m.heap.reply e := hrefused
    refine ⟨⟨fun ⟨a, hanswer⟩ => ?_, fun hl => absurd hl hlone⟩, fun _ => ?_, fun hl => absurd hl hlone⟩
    · rw [hreply] at hanswer
      have hvalue : e = .value a := hanswer
      simp [hvalue, Answer.isRefusal] at he
    · rw [hreply]
      rfl

/-! ### A chain beside a cycle -/

/-- The pointer in the first variable is the only owner of a value with a field that is the only
owner of another. The second and third share a value that also owns itself. -/
def besideCycle : Heap Nat :=
  [.act (.make (.var 3) .nullable 5 [] [] [] 8), .act (.make (.var 0) .notNull 6 [] [some (.var 3)] [] 16),
    .act (.make (.var 1) .nullable 7 [] [] [none] 24), .act (.clone (.var 1) [] (.var 2)),
    .act (.clone (.var 1) [] (.var 3)), .relink (.var 1) [] 0 (.var 3)].foldl
    (fun h op => (h.exec op).1) (.empty 4)

theorem besideCycle_moment : Moment 4 (⟨besideCycle, []⟩ : Machine Nat) :=
  (((((Moment.empty.exec _).exec _).exec _).exec _).exec _).exec _

theorem besideCycle_isolated : ∃ c v, besideCycle.live? c = some v ∧
    besideCycle.query none (.read (.var 0) [.field 0]) = .value v.data ∧
    (besideCycle.setLive c { v with data := v.data + 1 }).query none (.read (.var 0) [.field 0]) = .value 6 ∧
    (besideCycle.setLive c { v with data := v.data + 1 }).query none (.read (.var 2) [.link 0, .link 0]) =
      .value 7 ∧
    ¬ Machine.Lone ⟨besideCycle, []⟩ (.var 1) [.link 0] := by
  have hacting : Acting none ([] : List (Task Nat)) := fun c hc => by simp at hc
  obtain ⟨hiff, -, hlone⟩ :=
    Moment.update_isolated besideCycle_moment hacting (r := .var 0) rfl [.field 0] (· + 1)
  obtain ⟨c, v, hv, hread, hsuccess, hself, hisolated⟩ := hlone (hiff.mp ⟨6, by decide⟩)
  obtain ⟨hshared, -⟩ :=
    Moment.update_isolated besideCycle_moment hacting (r := .var 1) rfl [.link 0] (· + 1)
  refine ⟨c, v, hv, hread, ?_, ?_, fun hl => ?_⟩
  · have hdata : besideCycle.query none (.read (.var 0) [.field 0]) = .value 5 := by decide
    obtain hdata : v.data = 5 := Answer.value.inj (hread.symm.trans hdata)
    rw [hself, hdata]
  · rw [hisolated.elsewhere (.var 2) [.link 0, .link 0] (by decide)]
    decide
  · obtain ⟨a, ha⟩ := hshared.mpr hl
    have hdenied : (besideCycle.perform none (.update (.var 1) [.link 0] (· + 1))).answer = .denied := by
      decide
    simp [hdenied] at ha

end Custody.Heap
