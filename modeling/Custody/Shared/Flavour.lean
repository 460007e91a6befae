/-
# Flavours of shared cells and kinds of handles

A shared cell has one of five flavours. It decides what the cell contains and what handles
can be had; the kind of a handle decides how the cell's lock is entered and which
guard the handle has.

Key definitions: `Flavour`, `HandleKind`, `Flavour.contents`, `Flavour.handle?`,
`HandleKind.guard`, `HandleKind.demand?`.
-/
import Custody.Shared.Guard

namespace Custody.Shared

/-- The flavours of shared cells. -/
inductive Flavour where
  /-- Many may read, or one may write. -/
  | readWrite
  | unchecked
  /-- One at a time may read or write. -/
  | serialized
  /-- All may read, none may write; there is no lock. -/
  | immutable
  | uncheckedImmutable
  deriving DecidableEq

/-- The kinds of handles. -/
inductive HandleKind where
  | write
  | read
  | uncheckedWrite
  | uncheckedRead
  | serialized
  | serializedConst
  | immutable
  | uncheckedImmutable
  deriving DecidableEq

/-- What a handle is asked for: to change the value, or only to read it. -/
inductive Access where
  | write
  | read
  deriving DecidableEq

namespace Flavour

/-- All flavours, by the name that a request gives them. -/
def named : List (String × Flavour) :=
  [("rw", .readWrite), ("unchecked", .unchecked), ("serialized", .serialized),
   ("immutable", .immutable), ("unchecked_immutable", .uncheckedImmutable)]

/-- The contents of a new cell. -/
def contents {β : Type} : Flavour → β → Contents β
  | .readWrite, v => .locked v
  | .unchecked, v => .uncheckedLocked ⟨v⟩
  | .serialized, v => .serialized v
  | .immutable, v => .immutable ⟨v⟩
  | .uncheckedImmutable, v => .unchecked ⟨v⟩

/-- The kind of the handles that give such access, if there are any. -/
def handle? : Flavour → Access → Option HandleKind
  | .readWrite, .write => some .write
  | .readWrite, .read => some .read
  | .unchecked, .write => some .uncheckedWrite
  | .unchecked, .read => some .uncheckedRead
  | .serialized, .write => some .serialized
  | .serialized, .read => some .serializedConst
  | .immutable, .write => none
  | .immutable, .read => some .immutable
  | .uncheckedImmutable, .write => none
  | .uncheckedImmutable, .read => some .uncheckedImmutable

/-- The name of the type of requesters. -/
def requesterName : Flavour → String
  | .readWrite => "AccessRequester"
  | .unchecked => "UncheckedAccessRequester"
  | .serialized => "SerializedAccessRequester"
  | .immutable => "ImmutableAccessRequester"
  | .uncheckedImmutable => "UncheckedImmutableAccessRequester"

/-- What a new cell is called in the log. -/
def cellName : Flavour → String
  | .readWrite => "reader/writer"
  | .unchecked => "unchecked reader/writer"
  | .serialized => "serialized"
  | .immutable => "immutable"
  | .uncheckedImmutable => "unchecked immutable"

/-- Whether the flavour can be asked for only where the asker vouches for the value. -/
def isUnchecked : Flavour → Bool
  | .readWrite => false
  | .unchecked => true
  | .serialized => false
  | .immutable => false
  | .uncheckedImmutable => true

end Flavour

/-- The flavour of a cell with such contents. -/
def Contents.flavour {β : Type} : Contents β → Flavour
  | .locked _ => .readWrite
  | .uncheckedLocked _ => .unchecked
  | .serialized _ => .serialized
  | .immutable _ => .immutable
  | .unchecked _ => .uncheckedImmutable

namespace Contents

variable {β γ : Type}

@[simp] theorem flavour_new (f : Flavour) (v : β) : (f.contents v).flavour = f := by
  cases f <;> rfl

@[simp] theorem value_new (f : Flavour) (v : β) : (f.contents v).value = v := by
  cases f <;> rfl

@[simp] theorem flavour_map (f : β → γ) (contents : Contents β) :
    (contents.map f).flavour = contents.flavour := by
  cases contents <;> rfl

end Contents

namespace HandleKind

/-- The guard of a locked handle of the kind on a cell. -/
def guard : HandleKind → CellId → Guard
  | .write, c => .write (acquireWrite.guard c)
  | .read, c => .read (acquireRead.guard c)
  | .uncheckedWrite, c => .uncheckedWrite (acquireUncheckedWrite.guard c)
  | .uncheckedRead, c => .uncheckedRead (acquireUncheckedRead.guard c)
  | .serialized, c => .serialized (acquireSerialized.guard c)
  | .serializedConst, c => .serialized (acquireSerialized.guard c)
  | .immutable, c => .immutable c
  | .uncheckedImmutable, c => .unchecked c

/-- How the lock is entered for handles of the kind; `none` where there is no lock. -/
def demand? : HandleKind → Option Demand
  | .write => some acquireWrite.demand
  | .read => some acquireRead.demand
  | .uncheckedWrite => some acquireUncheckedWrite.demand
  | .uncheckedRead => some acquireUncheckedRead.demand
  | .serialized => some acquireSerialized.demand
  | .serializedConst => some acquireSerialized.demand
  | .immutable => none
  | .uncheckedImmutable => none

/-- Whether handles of the kind are made to change the value. -/
def mayWrite : HandleKind → Bool
  | .write => true
  | .read => false
  | .uncheckedWrite => true
  | .uncheckedRead => false
  | .serialized => true
  | .serializedConst => false
  | .immutable => false
  | .uncheckedImmutable => false

/-- Whether handles of the kind are the only ones on their cell, so that a value
that changes when it is read may be read through them. -/
def isSerialized : HandleKind → Bool
  | .write => false
  | .read => false
  | .uncheckedWrite => false
  | .uncheckedRead => false
  | .serialized => true
  | .serializedConst => true
  | .immutable => false
  | .uncheckedImmutable => false

/-- The name of the type of handles. -/
def name : HandleKind → String
  | .write => "WritePointer"
  | .read => "ReadPointer"
  | .uncheckedWrite => "UncheckedWritePointer"
  | .uncheckedRead => "UncheckedReadPointer"
  | .serialized => "SerializedPointer"
  | .serializedConst => "SerializedConstPointer"
  | .immutable => "ImmutablePointer"
  | .uncheckedImmutable => "UncheckedImmutablePointer"

/-- What a request that must wait is called in the log. -/
def accessName : HandleKind → String
  | .write => acquireWrite.name
  | .read => acquireRead.name
  | .uncheckedWrite => acquireUncheckedWrite.name
  | .uncheckedRead => acquireUncheckedRead.name
  | .serialized => acquireSerialized.name
  | .serializedConst => acquireSerialized.name
  | .immutable => "immutable"
  | .uncheckedImmutable => "immutable"

/-- The guard knows the cell. -/
@[simp] theorem cell_guard (k : HandleKind) (c : CellId) : (k.guard c).cell = c := by
  cases k <;> rfl

/-- What was entered is given back. -/
@[simp] theorem demand?_guard (k : HandleKind) (c : CellId) : (k.guard c).demand? = k.demand? := by
  cases k <;> rfl

/-- The guard of a handle that is made to change the value lets it be changed. -/
theorem targetMut?_guard {k : HandleKind} (hk : k.mayWrite = true) (c : CellId) :
    (k.guard c).targetMut? = some (k.guard c).target := by
  cases k <;> first | rfl | cases hk

end HandleKind

end Custody.Shared
