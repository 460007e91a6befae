/-
# Places of pointers

A pointer is in a variable or in a field or link of a value that is not freed. While
an operation goes on, the variables that it uses are borrowed: what is borrowed to
be changed can be neither read nor changed, and what is borrowed to be read cannot
be changed. A path leads from a place over the targets of pointers to another; to
change what is at its end, every pointer on the way must be the only owner of its
target.

Key definitions: `Heap.Place`, `Heap.peek`, `Heap.poke`, `Heap.through`,
`Heap.walk`.
-/
import Custody.Heap.Basic

namespace Custody.Heap

variable {α : Type}

/-- Where a pointer is. -/
inductive Place where
  | var (i : Nat)
  | inside (c : CellId) (hop : Hop)
  deriving DecidableEq

/-- The place that an act means, when the destructor of the cell `self` acts, or
the caller. -/
def place? (self : Option CellId) : Ref → Option Place
  | .var i => some (.var i)
  | .own hop => self.map (.inside · hop)

/-- What is in a place: `none` if there is no such place, `some none` if it is a
variable that holds nothing. -/
def peek (h : Heap α) : Place → Option (Option Pointer)
  | .var i => h.vars[i]?.map (·.pointer)
  | .inside c hop =>
    ((h.cells[c]?.bind (·.content.value?)).bind (·.get? hop)).map fun o => some (.nullable o)

/-- The pointer in a place, if there is one. -/
def pointer? (h : Heap α) (p : Place) : Option Pointer :=
  (h.peek p).join

/-- The heap with something else in a place. What is in a value is a nullable
pointer, always. -/
def poke (p : Place) (x : Option Pointer) (h : Heap α) : Heap α :=
  match p with
  | .var i => h.modifyVar i fun v => { v with pointer := x }
  | .inside c hop =>
    h.modifyCell c fun cell =>
      { cell with content := cell.content.modify fun v => v.set hop (x.bind Pointer.owner?) }

/-- Whether that may be put into a place: a field takes a nullable pointer only. -/
def Place.admits (p : Place) (x : Option Pointer) : Bool :=
  match p, x with
  | .var _, _ => true
  | .inside _ _, some (.nullable _) => true
  | .inside _ _, _ => false

/-- What is left in a place when the pointer is taken out of it. -/
def Place.vacated (p : Place) : Option Pointer :=
  match p with
  | .var _ => none
  | .inside _ _ => some .null

/-! ### Loans -/

/-- Whether a place may be read now. -/
def readable (h : Heap α) : Place → Bool
  | .var i =>
    match h.vars[i]? with
    | some v => !v.writer
    | none => true
  | .inside _ _ => true

/-- Whether a place may be changed now. -/
def writable (h : Heap α) : Place → Bool
  | .var i =>
    match h.vars[i]? with
    | some v => !v.writer && v.readers = 0
    | none => true
  | .inside _ _ => true

/-- Borrows a place to change it. No one else can reach the fields of a value whose
destructor acts, so only variables are marked. -/
def lend (p : Place) (h : Heap α) : Heap α :=
  match p with
  | .var i => h.modifyVar i fun v => { v with writer := true }
  | .inside _ _ => h

/-- Ends such a loan. -/
def unlend (p : Place) (h : Heap α) : Heap α :=
  match p with
  | .var i => h.modifyVar i fun v => { v with writer := false }
  | .inside _ _ => h

/-- Borrows a place to read it. -/
def share (p : Place) (h : Heap α) : Heap α :=
  match p with
  | .var i => h.modifyVar i fun v => { v with readers := v.readers + 1 }
  | .inside _ _ => h

/-- Ends such a loan. -/
def unshare (p : Place) (h : Heap α) : Heap α :=
  match p with
  | .var i => h.modifyVar i fun v => { v with readers := v.readers - 1 }
  | .inside _ _ => h

/-! ### Paths -/

/-- The target of the pointer in a place, and what it holds. To change it
(`alone`), the pointer must be its only owner. -/
def through (h : Heap α) (alone : Bool) (p : Place) : Except (Answer α) (CellId × Value α) :=
  match h.peek p with
  | none => .error .absent
  | some none => .error .vacant
  | some (some q) =>
    match q.owner? with
    | none => .error (if alone then .denied else .null)
    | some o =>
      if alone && !h.isUnique (some o) then .error .denied
      else match h.live? o.cell with
        | none => .error .dangling
        | some v => .ok (o.cell, v)

/-- The place at the end of a path. -/
def walk (h : Heap α) (alone : Bool) (p : Place) : List Hop → Except (Answer α) Place
  | [] =>
    match h.peek p with
    | none => .error .absent
    | some none => .error .vacant
    | some (some _) => .ok p
  | hop :: path =>
    match h.through alone p with
    | .error e => .error e
    | .ok (c, v) =>
      match v.get? hop with
      | none => .error .absent
      | some _ => h.walk alone (.inside c hop) path

/-- The places that a path leads through, without the one it starts at. -/
def trail (h : Heap α) (p : Place) : List Hop → List Place
  | [] => []
  | hop :: path =>
    match h.through false p with
    | .error _ => []
    | .ok (c, _) => .inside c hop :: h.trail (.inside c hop) path

end Custody.Heap
