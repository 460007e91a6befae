/-
# How a lock is held, and by how many

A lock that is held fits its holders when it says how many of each sort there are:
one who is alone, so many readers, or none. Entering and leaving keep it so. What
the holders are can be read off the lock then, and the other way round.

Key definitions: `Hold.Fits`.
Key theorems: `Hold.Fits.enter`, `Hold.Fits.leave`, `Hold.Fits.exclusive_iff`,
`Hold.Fits.shared_iff`, `Hold.Fits.free_iff`, `Hold.Fits.alone`.
-/
import Custody.Shared.Lock

namespace Custody.Shared

/-- Whether a lock that is held like that has that many holders of each sort. -/
def Hold.Fits (h : Hold) (holders : Demand → Nat) : Prop :=
  match h with
  | .free => holders .exclusive = 0 ∧ holders .shared = 0
  | .shared n => holders .exclusive = 0 ∧ holders .shared = n ∧ 0 < n
  | .exclusive => holders .exclusive = 1 ∧ holders .shared = 0

namespace Hold.Fits

variable {h : Hold} {g g' : Demand → Nat} {d : Demand}

/-! ### Locks that are entered and left -/

theorem enter (hf : h.Fits g) (ok : h.allows d = true)
    (hg : ∀ x, g' x = g x + if x = d then 1 else 0) : (h.enter d).Fits g' := by
  have hex := hg .exclusive
  have hsh := hg .shared
  cases d with
  | exclusive =>
    simp only [if_true, reduceCtorEq, if_false, Nat.add_zero] at hex hsh
    cases h with
    | free =>
      obtain ⟨h1, h2⟩ := hf
      exact ⟨by omega, by omega⟩
    | shared n => simp [allows] at ok
    | exclusive => simp [allows] at ok
  | shared =>
    simp only [if_true, reduceCtorEq, if_false, Nat.add_zero] at hex hsh
    cases h with
    | free =>
      obtain ⟨h1, h2⟩ := hf
      exact ⟨by omega, by omega, by omega⟩
    | shared n =>
      obtain ⟨h1, h2, h3⟩ := hf
      exact ⟨by omega, by omega, by omega⟩
    | exclusive => simp [allows] at ok

theorem leave (hf : h.Fits g) (hg : ∀ x, g' x + (if x = d then 1 else 0) = g x) :
    (h.leave d).Fits g' := by
  have hex := hg .exclusive
  have hsh := hg .shared
  cases d with
  | exclusive =>
    simp only [if_true, reduceCtorEq, if_false, Nat.add_zero] at hex hsh
    cases h with
    | free =>
      obtain ⟨h1, h2⟩ := hf
      omega
    | shared n =>
      obtain ⟨h1, h2, h3⟩ := hf
      omega
    | exclusive =>
      obtain ⟨h1, h2⟩ := hf
      exact ⟨by omega, by omega⟩
  | shared =>
    simp only [if_true, reduceCtorEq, if_false, Nat.add_zero] at hex hsh
    cases h with
    | free =>
      obtain ⟨h1, h2⟩ := hf
      omega
    | exclusive =>
      obtain ⟨h1, h2⟩ := hf
      omega
    | shared n =>
      obtain ⟨h1, h2, h3⟩ := hf
      rcases n with _ | _ | n
      · omega
      · exact ⟨by omega, by omega⟩
      · exact ⟨by omega, by omega, by omega⟩

/-! ### What a lock says of its holders -/

theorem exclusive_iff (hf : h.Fits g) : h = .exclusive ↔ g .exclusive = 1 ∧ g .shared = 0 := by
  cases h with
  | free =>
    obtain ⟨h1, h2⟩ := hf
    simp [h1]
  | shared n =>
    obtain ⟨h1, h2, h3⟩ := hf
    simp [h1]
  | exclusive =>
    obtain ⟨h1, h2⟩ := hf
    simp [h1, h2]

theorem shared_iff (hf : h.Fits g) {n : Nat} (hn : 0 < n) :
    h = .shared n ↔ g .shared = n ∧ g .exclusive = 0 := by
  cases h with
  | free =>
    obtain ⟨h1, h2⟩ := hf
    have : ¬ 0 = n := Nat.ne_of_lt hn
    simp [h2, this]
  | shared k =>
    obtain ⟨h1, h2, h3⟩ := hf
    simp [h1, h2]
  | exclusive =>
    obtain ⟨h1, h2⟩ := hf
    simp [h1]

theorem free_iff (hf : h.Fits g) : h = .free ↔ g .exclusive = 0 ∧ g .shared = 0 := by
  cases h with
  | free =>
    obtain ⟨h1, h2⟩ := hf
    simp [h1, h2]
  | shared n =>
    obtain ⟨h1, h2, h3⟩ := hf
    have : ¬ n = 0 := Nat.ne_of_gt h3
    simp [h2, this]
  | exclusive =>
    obtain ⟨h1, h2⟩ := hf
    simp [h1]

/-- One who holds a lock exclusively is alone with it. -/
theorem alone (hf : h.Fits g) (hpos : 0 < g .exclusive) : g .exclusive = 1 ∧ g .shared = 0 := by
  cases h with
  | free =>
    obtain ⟨h1, h2⟩ := hf
    omega
  | shared n =>
    obtain ⟨h1, h2, h3⟩ := hf
    omega
  | exclusive => exact hf

end Hold.Fits

end Custody.Shared
