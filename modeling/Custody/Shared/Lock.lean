/-
# Locks and the policy that admits to them

A lock is free, held by some readers, or held by one writer. A holder that leaves
undoes what it did when it entered. When a newcomer may enter is the policy's to
say; a sound policy never lets a writer in beside anyone, nor a reader beside a
writer. The task-fair policy also keeps a reader out while a writer waits, so that
no writer waits for ever behind new readers.

Key definitions: `Demand`, `Hold`, `Hold.enter`, `Hold.leave`, `Policy`,
`Policy.taskFair`.
-/

namespace Custody.Shared

/-- How a lock is wanted: for oneself alone, or together with others who only read. -/
inductive Demand where
  | exclusive
  | shared
  deriving DecidableEq

/-- How a lock is held. -/
inductive Hold where
  | free
  /-- By that many readers. -/
  | shared (n : Nat)
  | exclusive
  deriving DecidableEq

namespace Hold

/-- Whether someone may enter beside those who hold the lock. -/
def allows (h : Hold) (d : Demand) : Bool :=
  match h, d with
  | .free, _ => true
  | .shared _, .shared => true
  | _, _ => false

/-- The lock after someone entered. -/
def enter (h : Hold) (d : Demand) : Hold :=
  match d, h with
  | .exclusive, _ => .exclusive
  | .shared, .shared n => .shared (n + 1)
  | .shared, _ => .shared 1

/-- The lock after someone left. -/
def leave (h : Hold) (d : Demand) : Hold :=
  match d, h with
  | .exclusive, _ => .free
  | .shared, .shared (n + 2) => .shared (n + 1)
  | .shared, _ => .free

/-- Leaving undoes entering. -/
theorem leave_enter {h : Hold} {d : Demand} (ok : h.allows d = true) (some : h ≠ .shared 0) :
    (h.enter d).leave d = h := by
  cases d <;> rcases h with _ | (_ | n) | _ <;> simp_all [allows, enter, leave]

end Hold

/-- When a newcomer is let in: `admits h waiting d` says it of a lock held as `h`,
while those with the demands `waiting` wait for it. -/
structure Policy where
  admits : Hold → List Demand → Demand → Bool
  sound : ∀ h waiting d, admits h waiting d = true → h.allows d = true

/-- A writer is let in when nobody holds the lock; a reader when no writer holds it
or waits for it. -/
def Policy.taskFair : Policy where
  admits h waiting d :=
    match d with
    | .exclusive => h.allows .exclusive
    | .shared => h.allows .shared && !waiting.contains .exclusive
  sound h waiting d := by
    cases d <;> simp_all

end Custody.Shared
