/-
# Order and hashing of identities

Identities are ordered by their addresses, so the order is total, what refers to nothing
comes first, and two are equal in the order, or feed the same to a hash, if and only if
they are the same. What is said of two of them therefore depends on no more than whether
they are the same, and which of them are those of what refers to nothing. And a set that
keeps its members in order has as many as one that hashes them: each identity once.

Key definitions: `Identity.said`, `Identity.Tells`.
Key theorems: `Identity.comparison_eq_said`, `Identity.orderedSize_eq`,
`Identity.hashedSize_eq`.
-/
import Mathlib.Data.List.Dedup
import Custody.Identity

namespace Custody.Identity

/-! ### The order -/

/-- The order is total. -/
instance : Std.TransCmp Identity.compare where
  eq_swap {a b} := (Nat.compare_swap b.address a.address).symm
  isLE_trans {a b c} := Std.TransCmp.isLE_trans (α := Nat) (a := a.address) (b := b.address)
    (c := c.address)

theorem beq_compare_swap (a b : Identity) : (compare b a == (compare a b).swap) = true := by
  have hswap : compare b a = (compare a b).swap := (Nat.compare_swap a.address b.address).symm
  rw [hswap]
  exact beq_self_eq_true _

theorem compare_eq_lt (a b : Identity) : compare a b = .lt ↔ a.address < b.address :=
  Nat.compare_eq_lt

theorem compare_eq_eq (a b : Identity) : compare a b = .eq ↔ a = b := by
  rw [compare, Nat.compare_eq_eq]
  constructor
  · intro heq
    cases a
    cases b
    exact congrArg mk heq
  · intro heq
    rw [heq]

/-- Identities that are equal in the order are the same. -/
instance : Std.LawfulEqCmp Identity.compare where
  compare_self := (compare_eq_eq _ _).mpr rfl
  eq_of_compare := (compare_eq_eq _ _).mp

/-- What refers to nothing comes before all that does not. -/
theorem compare_eq_lt_of_isNull {a b : Identity} (ha : a.isNull = true) (hb : b.isNull = false) :
    compare a b = .lt := by
  have hzero : a.address = 0 := by simpa [isNull] using ha
  have hpos : b.address ≠ 0 := by simpa [isNull] using hb
  rw [compare_eq_lt]
  omega

/-- What refers to nothing has the address 0. -/
theorem decide_eq_zero (a : Identity) : decide (a = ⟨0⟩) = a.isNull := by
  rcases a with ⟨n⟩
  simp [isNull]

theorem feed_eq_iff {a b : Identity} : a.feed = b.feed ↔ a = b := by
  rcases a with ⟨a⟩
  rcases b with ⟨b⟩
  simp [feed]

/-! ### What is said of two identities -/

/-- What is said of the order of two identities: whether they are the same, and which of
them is that of what refers to nothing. -/
theorem orderText_compare (a b : Identity) : orderText a b (compare a b) =
    if a = b then "Equal" else if a.isNull then "Less" else if b.isNull then "Greater"
    else "Different" := by
  have hnull : ∀ c : Identity, c.isNull = true ↔ c.address = 0 := fun c => decide_eq_true_iff
  cases hc : compare a b with
  | eq =>
    rw [if_pos ((compare_eq_eq a b).mp hc)]
    rfl
  | lt =>
    have hlt := (compare_eq_lt a b).mp hc
    have hne : a ≠ b := by
      rintro rfl
      exact Nat.lt_irrefl _ hlt
    have hb : ¬ b.isNull = true := by
      rw [hnull]
      omega
    simp only [orderText, if_neg hne, if_neg hb]
  | gt =>
    have hgt : b.address < a.address := Nat.compare_eq_gt.mp hc
    have hne : a ≠ b := by
      rintro rfl
      exact Nat.lt_irrefl _ hgt
    have ha : ¬ a.isNull = true := by
      rw [hnull]
      omega
    simp only [orderText, if_neg hne, if_neg ha]

/-- The order of identities agrees with that of addresses. -/
theorem lt_consistent (a b : Identity) :
    (decide ((compare a b == .lt) = (a.address < b.address)) &&
      decide ((compare a b != .lt) = (b.address ≤ a.address))) = true := by
  have hlt : (compare a b == .lt) = true ↔ a.address < b.address := by
    rw [beq_iff_eq]
    exact compare_eq_lt a b
  have hge : (compare a b != .lt) = true ↔ b.address ≤ a.address := by
    rw [bne_iff_ne, ← Nat.not_lt]
    exact not_congr (compare_eq_lt a b)
  simp only [propext hlt, propext hge, decide_true, Bool.and_self]

/-- What is said of two identities, if it is known whether they are the same, and which of them
refers to nothing. -/
def said (same null null' : Bool) : Message :=
  let order :=
    if same then "Equal" else if null then "Less" else if null' then "Greater" else "Different"
  let fed (null : Bool) : Message := .texts [if null then "usize:null" else "usize:cell"]
  .record [("eq", .bool same), ("ne", .bool !same), ("ptr_eq", .bool same),
    ("cmp", .text order), ("partial_cmp", .text order), ("antisymmetric", .bool true),
    ("lt_consistent", .bool true), ("hash", .list [fed null, fed null']), ("hash_eq", .bool same)]

theorem feedText_eq (a : Identity) :
    a.feedText = .texts [if a.isNull then "usize:null" else "usize:cell"] := by
  simp [feedText, feed, isNull]

/-- No more is said of two identities than that. -/
theorem comparison_eq_said (a b : Identity) :
    a.comparison b = said (a = b) a.isNull b.isNull := by
  unfold comparison said
  simp only [orderText_compare, beq_compare_swap, lt_consistent, feedText_eq, feed_eq_iff, ne_eq,
    decide_not, decide_eq_true_eq]

/-- Whether all ways to compare two identities tell whether `same`, and no more is said of them
than that, and which of them are those of what refers to nothing. -/
structure Tells (a b : Identity) (same : Prop) : Prop where
  eq : a = b ↔ same
  order : a.compare b = .eq ↔ same
  hash : a.feed = b.feed ↔ same
  said : ∃ yes : Bool, (yes = true ↔ same) ∧ a.comparison b = Identity.said yes a.isNull b.isNull

theorem tells_of_eq_iff {a b : Identity} {same : Prop} (h : a = b ↔ same) : a.Tells b same where
  eq := h
  order := (compare_eq_eq a b).trans h
  hash := feed_eq_iff.trans h
  said := ⟨decide (a = b), decide_eq_true_iff.trans h, comparison_eq_said a b⟩

/-! ### Sets -/

theorem mem_insertOrdered (a x : Identity) (items : List Identity) :
    x ∈ insertOrdered a items ↔ x = a ∨ x ∈ items := by
  induction items with
  | nil => simp [insertOrdered]
  | cons b items ih =>
    unfold insertOrdered
    split
    · rw [List.mem_cons]
    · rename_i heq
      obtain rfl := (compare_eq_eq a b).mp heq
      simp
    · rw [List.mem_cons, ih, List.mem_cons]
      exact or_left_comm

/-- A list in order remains so with one member more. -/
theorem pairwise_insertOrdered (a : Identity) {items : List Identity}
    (hitems : items.Pairwise fun x y => x.address < y.address) :
    (insertOrdered a items).Pairwise fun x y => x.address < y.address := by
  induction items with
  | nil => simp [insertOrdered]
  | cons b items ih =>
    obtain ⟨hb, hrest⟩ := List.pairwise_cons.mp hitems
    unfold insertOrdered
    split
    · rename_i hlt
      have hab := (compare_eq_lt a b).mp hlt
      refine List.pairwise_cons.mpr ⟨fun x hx => ?_, hitems⟩
      rcases List.mem_cons.mp hx with rfl | hx
      · exact hab
      · exact Nat.lt_trans hab (hb x hx)
    · exact hitems
    · rename_i hgt
      have hba : b.address < a.address := Nat.compare_eq_gt.mp hgt
      refine List.pairwise_cons.mpr ⟨fun x hx => ?_, ih hrest⟩
      rcases (mem_insertOrdered a x items).mp hx with rfl | hx
      · exact hba
      · exact hb x hx

/-- Two lists without duplicates that have the same members are equally long. -/
theorem length_eq_of_mem_iff {items items' : List Identity} (hitems : items.Nodup)
    (hitems' : items'.Nodup) (hmem : ∀ x, x ∈ items ↔ x ∈ items') : items.length = items'.length :=
  ((List.perm_ext_iff_of_nodup hitems hitems').mpr hmem).length_eq

/-- A set that keeps its members in order has each identity once. -/
theorem orderedSize_eq (items : List Identity) : orderedSize items = items.dedup.length := by
  have hset : ((items.foldr insertOrdered []).Pairwise fun x y => x.address < y.address) ∧
      ∀ x, x ∈ items.foldr insertOrdered [] ↔ x ∈ items := by
    induction items with
    | nil => exact ⟨.nil, fun _ => Iff.rfl⟩
    | cons a items ih =>
      refine ⟨pairwise_insertOrdered a ih.1, fun x => ?_⟩
      rw [List.foldr_cons, mem_insertOrdered, ih.2, List.mem_cons]
  have hnodup : (items.foldr insertOrdered []).Nodup := by
    refine List.Pairwise.imp ?_ hset.1
    rintro x y hlt rfl
    exact Nat.lt_irrefl _ hlt
  exact length_eq_of_mem_iff hnodup items.nodup_dedup fun x => by rw [hset.2, List.mem_dedup]

theorem insertHashed_eq (a : Identity) (items : List Identity) :
    insertHashed a items = items.insert a := by
  have hany : ((items.filter fun b => b.feed = a.feed).any (· = a)) = decide (a ∈ items) := by
    rw [Bool.eq_iff_iff]
    simp [feed_eq_iff]
  unfold insertHashed
  rw [hany]
  by_cases ha : a ∈ items <;> simp [ha]

/-- A set that hashes its members has each identity once. -/
theorem hashedSize_eq (items : List Identity) : hashedSize items = items.dedup.length := by
  have hset : (items.foldr insertHashed []).Nodup ∧
      ∀ x, x ∈ items.foldr insertHashed [] ↔ x ∈ items := by
    induction items with
    | nil => exact ⟨.nil, fun _ => Iff.rfl⟩
    | cons a items ih =>
      rw [List.foldr_cons, insertHashed_eq]
      exact ⟨ih.1.insert, fun x => by rw [List.mem_insert_iff, ih.2, List.mem_cons]⟩
  exact length_eq_of_mem_iff hset.1 items.nodup_dedup fun x => by rw [hset.2, List.mem_dedup]

/-- Identities that tell apart what `g` does are as many as the values of `g`. -/
theorem length_dedup_map {ι κ : Type} [DecidableEq κ] {f : ι → Identity} {g : ι → κ} {l : List ι}
    (h : ∀ p ∈ l, ∀ q ∈ l, f p = f q ↔ g p = g q) :
    (l.map f).dedup.length = (l.map g).dedup.length := by
  induction l with
  | nil => rfl
  | cons p l ih =>
    have ih := ih fun q hq r hr => h q (List.mem_cons_of_mem _ hq) r (List.mem_cons_of_mem _ hr)
    have hmem : f p ∈ l.map f ↔ g p ∈ l.map g := by
      simp only [List.mem_map]
      refine exists_congr fun q => and_congr_right fun hq => ?_
      exact h q (List.mem_cons_of_mem _ hq) p List.mem_cons_self
    by_cases hp : f p ∈ l.map f
    · rw [List.map_cons, List.map_cons, List.dedup_cons_of_mem hp,
        List.dedup_cons_of_mem (hmem.mp hp), ih]
    · have hp' : g p ∉ l.map g := fun hg => hp (hmem.mpr hg)
      rw [List.map_cons, List.map_cons, List.dedup_cons_of_notMem hp,
        List.dedup_cons_of_notMem hp', List.length_cons, List.length_cons, ih]

end Custody.Identity
