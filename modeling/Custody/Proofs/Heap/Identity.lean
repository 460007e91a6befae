/-
# Pointers are compared by what they were made with

A cell keeps its address for as long as a pointer targets it, and meanwhile no other cell
has it. So at every moment two pointers are equal, come neither before nor after each other
and feed the same to a hash if and only if they descend from the same make or have no target
either; what is said of two pointers does not change while they keep their targets,
whatever becomes of other cells and of their addresses; and a set of pointers has one member
for each target.

Key definitions: `Machine.Holds`, `Pointer.target?`, `Tells`.
Key theorems: `Later.identity_eq`, `Moment.identity_sound`.
-/
import Custody.Proofs.Heap.Addresses
import Custody.Proofs.Heap.Descent
import Custody.Proofs.Heap.Weight

namespace Custody.Heap

variable {α : Type} {n : Nat} {m m' : Machine α} {h : Heap α} {B : Births}

/-! ### Cells keep their addresses -/

theorem addresses_poke (h : Heap α) (p : Place) (x : Option Pointer) :
    (h.poke p x).addresses = h.addresses := by
  cases p with
  | var i => rfl
  | inside c hop => exact addresses_modifyCell h c fun _ => rfl

/-- No edit changes the address of a cell that there is. -/
theorem Edit.addresses_prefix {d d' : Draft α} (he : Edit d d') :
    d.heap.addresses <+: d'.heap.addresses := by
  have hsame : ∀ {h h' : Heap α}, h'.addresses = h.addresses → h.addresses <+: h'.addresses :=
    fun heq => heq ▸ List.prefix_refl _
  cases he with
  | @poke h _ _ p _ x _ _ => exact hsame (addresses_poke h p x)
  | @acquire h _ _ c _ => exact hsame (addresses_modifyCell h c fun _ => rfl)
  | @allocate h _ _ near v =>
    have happend : (h.allocate near v).2.addresses = h.addresses ++ [freeAddress h.taken near] :=
      List.map_append
    rw [happend]
    exact List.prefix_append _ _
  | @rewrite h _ _ _ c _ v _ _ => exact hsame (addresses_setContent h c (.live v))
  | @lend _ _ _ p _ _ => exact hsame (by cases p <;> rfl)
  | @unlend _ _ _ p => exact hsame (by cases p <;> rfl)
  | @share _ _ _ p _ => exact hsame (by cases p <;> rfl)
  | @unshare _ _ _ p => exact hsame (by cases p <;> rfl)
  | @signOff h _ _ o _ _ => exact hsame (addresses_signOff h o)
  | @destroy h _ _ o v _ _ =>
    have hcondemn : (h.condemn o v).addresses = (h.signOff o).2.addresses :=
      addresses_setContent _ o.cell (.dying v)
    exact hsame (hcondemn.trans (addresses_signOff h o))
  | @strip h _ _ c _ _ v' _ _ _ _ => exact hsame (addresses_setContent h c (.dying v'))
  | @free h _ _ c _ _ _ _ _ => exact hsame (addresses_setContent h c .freed)
  | _ => exact List.prefix_refl _

theorem Later.addresses_prefix (hm : Moment n m) (hl : Later m m') :
    m.heap.addresses <+: m'.heap.addresses :=
  hl.induct (Q := fun d => m.heap.addresses <+: d.heap.addresses)
    (fun _ he hq => hq.trans he.addresses_prefix) hm (List.prefix_refl _)

theorem identity_eq_addresses (h : Heap α) (o : Owner) :
    h.identity (some o) = ⟨h.addresses[o.cell]?.getD 0⟩ := by
  unfold identity addresses
  rw [Option.bind_some, List.getElem?_map]
  cases h.cells[o.cell]? <;> rfl

/-! ### Pointers that are held -/

/-- The target of a pointer, if it has one. -/
def Pointer.target? (p : Pointer) : Option CellId :=
  p.owner?.map (·.cell)

/-- The identity of a pointer. -/
def identityOf (h : Heap α) (p : Pointer) : Identity :=
  h.identity p.owner?

/-- Whether somebody has the pointer: it is one of the owners that there are, or has no target. -/
def Machine.Holds (m : Machine α) (p : Pointer) : Prop :=
  ∀ o, p.owner? = some o → o ∈ m.owners

theorem Moment.live_of_holds (hm : Moment n m) {p : Pointer} (hp : m.Holds p) :
    ∀ o, p.owner? = some o → m.heap.status o.cell = some .live :=
  fun o ho => hm.live_of_mem (hp o ho)

theorem Moment.isNull_identityOf (hm : Moment n m) {p : Pointer} (hp : m.Holds p) :
    (m.heap.identityOf p).isNull = p.owner?.isNone :=
  hm.apart.isNull_identity (hm.live_of_holds hp)

/-- Two pointers have the same identity if and only if they have the same target. -/
theorem Moment.identityOf_eq_iff (hm : Moment n m) {p q : Pointer} (hp : m.Holds p)
    (hq : m.Holds q) : m.heap.identityOf p = m.heap.identityOf q ↔ p.target? = q.target? :=
  hm.apart.identity_eq_iff (hm.live_of_holds hp) (hm.live_of_holds hq)

/-- The identity of a pointer is that of its target, then and ever after. -/
theorem Later.identity_eq (hm : Moment n m) (hl : Later m m') {p p' : Pointer} (hp : m.Holds p)
    (htarget : p'.target? = p.target?) : m'.heap.identityOf p' = m.heap.identityOf p := by
  cases ho : p.owner? with
  | none =>
    have ho' : p'.owner? = none := by simpa [Pointer.target?, ho] using htarget
    simp [identityOf, identity, ho, ho']
  | some o =>
    obtain ⟨o', ho', hcell⟩ : ∃ o', p'.owner? = some o' ∧ o'.cell = o.cell := by
      simpa [Pointer.target?, ho, Option.map_eq_some_iff] using htarget
    obtain ⟨cell, hc, -⟩ := Option.map_eq_some_iff.mp (hm.live_of_holds hp o ho)
    have hlt : o.cell < m.heap.addresses.length := by
      simpa [addresses] using (List.getElem?_eq_some_iff.mp hc).1
    obtain ⟨more, hmore⟩ := hl.addresses_prefix hm
    unfold identityOf
    rw [ho, ho', identity_eq_addresses, identity_eq_addresses, hcell, ← hmore,
      List.getElem?_append_left hlt]

/-! ### What identities tell -/

/-- What comparing the pointers that are held at a moment tells of where they come from. -/
structure Tells (m : Machine α) (B : Births) : Prop where
  /-- Who has a target descends from a make. -/
  descends : ∀ o ∈ m.owners, ∃ r, B.Descends r o.token.serial
  /-- Equality, order and what goes into a hash tell whether two pointers are of the same make or
  both without target; and no more is said of them than that, and which have no target. -/
  kindred : ∀ p q, m.Holds p → m.Holds q →
    let a := m.heap.identityOf p
    let b := m.heap.identityOf q
    (a = b ↔ Kindred B p.owner? q.owner?) ∧ (a.compare b = .eq ↔ Kindred B p.owner? q.owner?) ∧
      (a.feed = b.feed ↔ Kindred B p.owner? q.owner?) ∧
      ∃ same : Bool, (same = true ↔ Kindred B p.owner? q.owner?) ∧
        a.comparison b = Identity.said same p.owner?.isNone q.owner?.isNone
  /-- Who has no target comes first. -/
  null_first : ∀ p q, m.Holds q → p.owner? = none → q.owner? ≠ none →
    (m.heap.identityOf p).compare (m.heap.identityOf q) = .lt
  /-- What two pointers tell does not change while they keep their targets. -/
  lasting : ∀ m', Later m m' → ∀ p q p' q', m.Holds p → m.Holds q → p'.target? = p.target? →
    q'.target? = q.target? →
    (m'.heap.identityOf p').compare (m'.heap.identityOf q') =
        (m.heap.identityOf p).compare (m.heap.identityOf q) ∧
      (m'.heap.identityOf p').comparison (m'.heap.identityOf q') =
        (m.heap.identityOf p).comparison (m.heap.identityOf q)
  /-- A set has one member for each target, and one if some have none. -/
  sets : ∀ ps : List Pointer, (∀ p ∈ ps, m.Holds p) →
    Identity.orderedSize (ps.map m.heap.identityOf) = (ps.map Pointer.target?).dedup.length ∧
      Identity.hashedSize (ps.map m.heap.identityOf) = (ps.map Pointer.target?).dedup.length

theorem Chronicle.tells (hc : Chronicle n m B) : Tells m B := by
  have hm := hc.moment
  refine ⟨fun o ho => hc.descends ho, fun p q hp hq => ?_, fun p q hq hpo hqo => ?_,
    fun m' hl p q p' q' hp hq htp htq => ?_, fun ps hps => ?_⟩
  · have heq : m.heap.identityOf p = m.heap.identityOf q ↔ Kindred B p.owner? q.owner? :=
      (hm.identityOf_eq_iff hp hq).trans (hc.kindred_iff hp hq).symm
    refine ⟨heq, (Identity.compare_eq_eq _ _).trans heq, Identity.feed_eq_iff.trans heq,
      decide (m.heap.identityOf p = m.heap.identityOf q), decide_eq_true_iff.trans heq, ?_⟩
    rw [Identity.comparison_eq_said, hm.isNull_identityOf hp, hm.isNull_identityOf hq]
  · have hp : m.Holds p := fun o ho => by simp [hpo] at ho
    apply Identity.compare_eq_lt_of_isNull
    · rw [hm.isNull_identityOf hp, hpo]
      rfl
    · rw [hm.isNull_identityOf hq]
      cases hqo' : q.owner? with
      | none => exact absurd hqo' hqo
      | some o => rfl
  · rw [hl.identity_eq hm hp htp, hl.identity_eq hm hq htq]
    exact ⟨rfl, rfl⟩
  · have hsize : (ps.map m.heap.identityOf).dedup.length = (ps.map Pointer.target?).dedup.length :=
      Identity.length_dedup_map fun p hp q hq => hm.identityOf_eq_iff (hps p hp) (hps q hq)
    rw [Identity.orderedSize_eq, Identity.hashedSize_eq]
    exact ⟨hsize, hsize⟩

/-- **Identity is sound.** A new cell can have any address that no cell has which is still
there, so that of one that was freed too. All the same, at every moment of every run, whatever
came about and how, comparing pointers tells whether they are of the same make; and the order is
total, and agrees with that of addresses. -/
theorem Moment.identity_sound (hm : Moment n m) :
    (∃ B, Chronicle n m B) ∧ (∀ B, Chronicle n m B → Tells m B) ∧
    (∀ near v, ∃ cell, (m.heap.allocate near v).2.cells[m.heap.cells.length]? = some cell ∧
      cell.address ≠ 0 ∧ cell.address ∉ m.heap.taken ∧
      (near ≠ 0 → near ∉ m.heap.taken → cell.address = near)) ∧
    Std.TransCmp Identity.compare ∧ Std.LawfulEqCmp Identity.compare ∧
    ∀ a b : Identity, (a.compare b = .lt ↔ a.address < b.address) ∧
      (a.compare b ≠ .lt ↔ b.address ≤ a.address) := by
  refine ⟨hm.exists_chronicle, fun B hc => hc.tells, fun near v => ?_, inferInstance, inferInstance,
    fun a b => ⟨Identity.compare_eq_lt a b, ?_⟩⟩
  · refine ⟨_, List.getElem?_concat_length .., freeAddress_ne_zero _ near,
      freeAddress_not_mem _ near, freeAddress_of_free⟩
  · rw [← Nat.not_lt]
    exact not_congr (Identity.compare_eq_lt a b)

/-! ### An address that is used again

A cell at the address 5 is freed and another made there; its pointer is copied, and the copy
converted. -/

/-- Two cells, one after the other, at one address. -/
def reusedHeap : Heap Nat :=
  [.make (.var 0) .nullable 7 [] [] [] 5, .drop (.var 0), .make (.var 0) .nullable 8 [] [] [] 5,
    .clone (.var 0) [] (.var 1), .convert (.var 1) (.var 2) .notNull, .reset (.var 1)].foldl
    (fun h a => (h.exec (.act a)).1) (.empty 3)

theorem reusedHeap_moment : Moment 3 (⟨reusedHeap, []⟩ : Machine Nat) :=
  (((((Moment.empty.exec _).exec _).exec _).exec _).exec _).exec _

theorem reusedHeap_tells : reusedHeap.addresses = [5, 5] ∧ reusedHeap.status 0 = some .freed ∧
    reusedHeap.pointer? (.var 0) = some (.nullable (some ⟨1, ⟨1, 1⟩⟩)) ∧
    reusedHeap.pointer? (.var 2) = some (.notNull ⟨1, ⟨1, 2⟩⟩) ∧
    ∀ B, Chronicle 3 (⟨reusedHeap, []⟩ : Machine Nat) B → B.SameMake 1 2 := by
  refine ⟨by decide, by decide, by decide, by decide, fun B hB => ?_⟩
  have hkindred := ((Moment.identity_sound reusedHeap_moment).2.1 B hB).kindred
    (.nullable (some ⟨1, ⟨1, 1⟩⟩)) (.notNull ⟨1, ⟨1, 2⟩⟩) (by rintro o ⟨⟩; decide)
    (by rintro o ⟨⟩; decide)
  exact hkindred.1.mp (by decide)

end Custody.Heap
