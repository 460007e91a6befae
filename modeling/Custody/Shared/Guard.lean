/-
# Guards

Whoever was let in at a lock has a guard. A guard knows its cell, leads to the value, and
gives its part of the lock back when it is dropped. The guards of unchecked cells are
made around the guards of the lock; they reach through these for the lock and the cell, and
one step further for the value. A cell without a lock has no guard: a reference to
the cell leads to the value too.

Key definitions: `Guard`, `Guard.target`, `Guard.targetMut?`, `Guard.cell`, `Guard.demand?`,
`Acquisition`.
-/
import Custody.Shared.Contents
import Custody.Shared.Lock

namespace Custody.Shared

/-! ### Guards of the locks -/

/-- The guard of a writer. -/
structure WriteGuard where
  rwlock : CellId

/-- The guard of a reader. -/
structure ReadGuard where
  rwlock : CellId

/-- The guard of the only one who was let in. -/
structure SerializedGuard where
  mutex : CellId

/-- The guard of a writer of an unchecked cell. -/
structure UncheckedWriteGuard where
  inner : WriteGuard

/-- The guard of a reader of an unchecked cell. -/
structure UncheckedReadGuard where
  inner : ReadGuard

/-- What a writer's lock guards. -/
def WriteGuard.data (g : WriteGuard) : Place :=
  ⟨g.rwlock, [.rwlock]⟩

/-- What a reader's lock guards. -/
def ReadGuard.data (g : ReadGuard) : Place :=
  ⟨g.rwlock, [.rwlock]⟩

/-- What the lock guards that lets in one at a time. -/
def SerializedGuard.data (g : SerializedGuard) : Place :=
  ⟨g.mutex, [.mutex]⟩

/-- A writer leaves alone. -/
def WriteGuard.demand (_ : WriteGuard) : Demand :=
  .exclusive

/-- A reader leaves the other readers behind. -/
def ReadGuard.demand (_ : ReadGuard) : Demand :=
  .shared

def SerializedGuard.demand (_ : SerializedGuard) : Demand :=
  .exclusive

/-! ### What gives access to a cell -/

/-- A guard, or a reference to a cell that has no lock. -/
inductive Guard where
  | write (g : WriteGuard)
  | read (g : ReadGuard)
  | serialized (g : SerializedGuard)
  | uncheckedWrite (g : UncheckedWriteGuard)
  | uncheckedRead (g : UncheckedReadGuard)
  | immutable (cell : CellId)
  | unchecked (cell : CellId)

namespace Guard

/-- Where the value is that the guard gives access to. -/
def target : Guard → Place
  | .write g => g.data
  | .read g => g.data
  | .serialized g => g.data
  | .uncheckedWrite g => g.inner.data.value
  | .uncheckedRead g => g.inner.data.value
  | .immutable c => Place.value ⟨c, []⟩
  | .unchecked c => Place.value ⟨c, []⟩

/-- Where the value is that may be changed through the guard, if that may be done. -/
def targetMut? : Guard → Option Place
  | .write g => some g.data
  | .read _ => none
  | .serialized g => some g.data
  | .uncheckedWrite g => some g.inner.data.value
  | .uncheckedRead _ => none
  | .immutable _ => none
  | .unchecked _ => none

/-- The cell that a guard is compared by. -/
def cell : Guard → CellId
  | .write g => g.rwlock
  | .read g => g.rwlock
  | .serialized g => g.mutex
  | .uncheckedWrite g => g.inner.rwlock
  | .uncheckedRead g => g.inner.rwlock
  | .immutable c => c
  | .unchecked c => c

/-- What part of the lock a guard gives back when it is dropped, if there is a lock. -/
def demand? : Guard → Option Demand
  | .write g => some g.demand
  | .read g => some g.demand
  | .serialized g => some g.demand
  | .uncheckedWrite g => some g.inner.demand
  | .uncheckedRead g => some g.inner.demand
  | .immutable _ => none
  | .unchecked _ => none

end Guard

/-! ### How guards are had -/

/-- How a lock is entered, what that is called in the log if one has to wait, and the
guard that one has afterwards. -/
structure Acquisition (γ : Type) where
  demand : Demand
  name : String
  guard : CellId → γ

def acquireWrite : Acquisition WriteGuard :=
  ⟨.exclusive, "exclusive", .mk⟩

def acquireRead : Acquisition ReadGuard :=
  ⟨.shared, "shared", .mk⟩

def acquireSerialized : Acquisition SerializedGuard :=
  ⟨.exclusive, "serialized", .mk⟩

/-- An unchecked cell is entered by its lock, and the guard is put into another one. -/
def acquireUncheckedWrite : Acquisition UncheckedWriteGuard :=
  { acquireWrite with guard c := ⟨acquireWrite.guard c⟩ }

/-- The same for a reader. -/
def acquireUncheckedRead : Acquisition UncheckedReadGuard :=
  { acquireRead with guard c := ⟨acquireRead.guard c⟩ }

end Custody.Shared
