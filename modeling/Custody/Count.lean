/-
# Owner counts

A count says how many owners a thing has. An owner is registered by a token
that the count issues, and signs off by handing the token back, which is the
only way the count goes down. The last one to do so is told that it was the
last. Handing a token to a count of zero is a fault, and so is losing a token:
the owner it stands for can then never sign off.

Key definitions: `Count`, `Count.acquire`, `Count.release?`, `Token`.
-/

namespace Custody

/-- How many owners a thing has. -/
structure Count where
  owners : Nat
  deriving DecidableEq

/-- What an owner is registered by: the count that issued it, and a number that
no other token has. -/
structure Token (ι : Type) where
  issuer : ι
  serial : Nat
  deriving DecidableEq

/-- What can go wrong with a count and its tokens. -/
inductive CountFault where
  /-- A token was handed to a count of zero. -/
  | underflow
  /-- A token was lost. -/
  | tokenDropped
  deriving DecidableEq

/-- The text of a fault. -/
def CountFault.message : CountFault → String
  | .underflow => "owner count underflow"
  | .tokenDropped => "owner token dropped without being returned to its count"

namespace Count

/-- The count of a new thing: its maker owns it. -/
def first : Count := ⟨1⟩

/-- Whether there is exactly one owner. -/
def isUnique (c : Count) : Bool :=
  c.owners = 1

/-- One owner more. -/
def acquire (c : Count) : Count :=
  ⟨c.owners + 1⟩

/-- One owner less, and whether it was the last; a count of zero has none to give. -/
def release? (c : Count) : Option (Count × Bool) :=
  match c.owners with
  | 0 => none
  | n + 1 => some (⟨n⟩, n = 0)

theorem release?_acquire (c : Count) : c.acquire.release? = some (c, decide (c.owners = 0)) := rfl

theorem release?_eq_none_iff {c : Count} : c.release? = none ↔ c.owners = 0 := by
  rcases c with ⟨_ | n⟩ <;> simp [release?]

end Count

end Custody
