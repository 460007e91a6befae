/-
# What a cell contains

A cell with a lock contains what the lock guards, and a cell without one contains a
structure with the value. What a lock guards is the value itself, or, if nobody
checks what the value is made for, a structure of its own with the value; that structure
is also all that an unchecked cell without a lock contains. So each flavour has its own way
from the cell to the value, and whoever goes another way finds nothing.

Key definitions: `Contents`, `Place`, `Contents.get?`, `Contents.put`, `Contents.value`.
-/

namespace Custody.Shared

/-- Cells are numbered in the order in which they are made. -/
abbrev CellId := Nat

/-- The structure of a cell without a lock. -/
structure ImmutableCell (β : Type) where
  value : β

/-- The structure around a value that nobody checks. -/
structure UncheckedCell (β : Type) where
  value : β

/-- What a cell contains. -/
inductive Contents (β : Type) where
  /-- A value behind a lock for readers and writers. -/
  | locked (v : β)
  /-- A structure with the value, behind such a lock. -/
  | uncheckedLocked (u : UncheckedCell β)
  /-- A value behind a lock that lets in one at a time. -/
  | serialized (v : β)
  | immutable (c : ImmutableCell β)
  | unchecked (u : UncheckedCell β)

/-- One step of the way into a cell. -/
inductive Part where
  /-- What the lock for readers and writers guards. -/
  | rwlock
  /-- What the lock guards that lets in one at a time. -/
  | mutex
  /-- The value of a structure. -/
  | value
  deriving DecidableEq

/-- A cell and a way into it. -/
structure Place where
  cell : CellId
  way : List Part
  deriving DecidableEq

/-- The value of the structure at a place. -/
def Place.value (p : Place) : Place :=
  { p with way := p.way ++ [.value] }

namespace Contents

variable {β γ : Type}

/-- The value, however it is kept. -/
def value : Contents β → β
  | .locked v => v
  | .uncheckedLocked u => u.value
  | .serialized v => v
  | .immutable c => c.value
  | .unchecked u => u.value

/-- The contents with another value, kept in the same way. -/
def map (f : β → γ) : Contents β → Contents γ
  | .locked v => .locked (f v)
  | .uncheckedLocked u => .uncheckedLocked ⟨f u.value⟩
  | .serialized v => .serialized (f v)
  | .immutable c => .immutable ⟨f c.value⟩
  | .unchecked u => .unchecked ⟨f u.value⟩

/-- The value at the end of a way, if the way leads to it. -/
def get? : List Part → Contents β → Option β
  | [.rwlock], .locked v => some v
  | [.rwlock, .value], .uncheckedLocked u => some u.value
  | [.mutex], .serialized v => some v
  | [.value], .immutable c => some c.value
  | [.value], .unchecked u => some u.value
  | _, _ => none

/-- Another value at the end of a way; nothing changes if the way leads to none. -/
def put (a : β) : List Part → Contents β → Contents β
  | [.rwlock], .locked _ => .locked a
  | [.rwlock, .value], .uncheckedLocked _ => .uncheckedLocked ⟨a⟩
  | [.mutex], .serialized _ => .serialized a
  | [.value], .immutable _ => .immutable ⟨a⟩
  | [.value], .unchecked _ => .unchecked ⟨a⟩
  | _, contents => contents

@[simp] theorem value_map (f : β → γ) (contents : Contents β) :
    (contents.map f).value = f contents.value := by
  cases contents <;> rfl

/-- A way that leads somewhere leads to the value. -/
theorem value_of_get? {way : List Part} {contents : Contents β} {v : β}
    (h : contents.get? way = some v) : contents.value = v := by
  unfold get? at h
  split at h <;> first | exact Option.some.inj h | cases h

/-- What is put at the end of such a way takes the place of the value. -/
theorem put_of_get? {way : List Part} {contents : Contents β} {v : β}
    (h : contents.get? way = some v) (a : β) : contents.put a way = contents.map fun _ => a := by
  unfold get? at h
  split at h <;> first | rfl | cases h

end Contents

end Custody.Shared
