/-
# Addresses

A new cell gets an address that no cell has that is still there. It may be one that
a cell had which is gone. Which one it is cannot be foreseen, so whoever makes a
cell names one, and gets it if it is free. The address 0 is never given out.

Key definitions: `freeAddress`.
Key theorems: `freeAddress_ne_zero`, `freeAddress_not_mem`, `freeAddress_of_free`.
-/

namespace Custody

/-- An address besides those in `taken`: `near` if it is free, otherwise one above
all others. -/
def freeAddress (taken : List Nat) (near : Nat) : Nat :=
  if near ≠ 0 ∧ near ∉ taken then near else taken.foldr max 0 + 1

theorem le_foldr_max {a : Nat} : ∀ {taken : List Nat}, a ∈ taken → a ≤ taken.foldr max 0
  | b :: rest, h => by
    rw [List.foldr_cons]
    rcases List.mem_cons.mp h with rfl | h
    · exact Nat.le_max_left _ _
    · exact Nat.le_trans (le_foldr_max h) (Nat.le_max_right _ _)

theorem freeAddress_ne_zero (taken : List Nat) (near : Nat) : freeAddress taken near ≠ 0 := by
  unfold freeAddress
  split
  · next h => exact h.1
  · exact Nat.succ_ne_zero _

/-- No cell that is there has the address. -/
theorem freeAddress_not_mem (taken : List Nat) (near : Nat) : freeAddress taken near ∉ taken := by
  unfold freeAddress
  split
  · next h => exact h.2
  · intro h
    exact Nat.not_succ_le_self _ (le_foldr_max h)

/-- Every free address can be had. -/
theorem freeAddress_of_free {taken : List Nat} {near : Nat} (h : near ≠ 0) (free : near ∉ taken) :
    freeAddress taken near = near :=
  if_pos ⟨h, free⟩

end Custody
