/-
# Tables

A table gives some keys a value each. It is a list of entries; looking a key
up, putting an entry in and taking one out are all that is done with it, so the
order of the entries is seen only where a table is listed, and there it is
listed in the order of the keys.

Key definitions: `Table.get?`, `Table.put`, `Table.erase`, `Table.sorted`.
Key theorems: `Table.get?_put`, `Table.get?_erase`.
-/

namespace Custody

/-- Some keys with a value each. -/
abbrev Table (κ α : Type) := List (κ × α)

namespace Table

variable {κ α : Type} [DecidableEq κ]

/-- The value of a key. -/
def get? (k : κ) : Table κ α → Option α
  | [] => none
  | (k', a) :: t => if k = k' then some a else get? k t

/-- Whether the key has a value. -/
def has (k : κ) (t : Table κ α) : Bool :=
  (get? k t).isSome

/-- Takes the key out. -/
def erase (k : κ) (t : Table κ α) : Table κ α :=
  t.filter fun e => k ≠ e.1

/-- Gives the key that value, in place of the one it had. -/
def put (k : κ) (a : α) (t : Table κ α) : Table κ α :=
  (k, a) :: erase k t

/-- The keys that have a value. -/
def keys (t : Table κ α) : List κ :=
  t.map (·.1)

theorem get?_erase (k k' : κ) : ∀ t : Table κ α,
    get? k (erase k' t) = if k = k' then none else get? k t
  | [] => by simp [erase, get?]
  | (k₀, a) :: t => by
    have ih := get?_erase k k' t
    unfold erase at ih ⊢
    by_cases h : k' = k₀
    · subst h
      by_cases hk : k = k' <;> simp_all [get?]
    · by_cases hk : k = k₀ <;> by_cases hk' : k = k' <;> simp_all [get?]

/-- A key has the value that was put, and no other key notices. -/
theorem get?_put (k k' : κ) (a : α) (t : Table κ α) :
    get? k (put k' a t) = if k = k' then some a else get? k t := by
  by_cases h : k = k' <;> simp [put, get?, get?_erase, h]

/-- Puts an item before the first that does not come before it. -/
def insertBy (before : α → α → Bool) (a : α) : List α → List α
  | [] => [a]
  | b :: rest => if before b a then b :: insertBy before a rest else a :: b :: rest

/-- The items in order. -/
def sortBy (before : α → α → Bool) (items : List α) : List α :=
  items.foldr (insertBy before) []

end Table

/-- Texts in order, by their characters. -/
def sortTexts (items : List String) : List String :=
  Table.sortBy (fun a b => decide (a < b)) items

end Custody
