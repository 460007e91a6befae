/-
# Tables with unique keys

No key is in a table twice if entries are only put in and taken out. Then an entry
that is taken out, or that another takes the place of, is the one that was found,
and what is counted over a table changes by that entry.

Key definitions: `Table.values`, `Table.mapValues`.
Key theorems: `Table.countP_erase`, `Table.countP_put`, `Table.get?_mapValues`.
-/
import Custody.Table

namespace Custody.Table

variable {κ α : Type}

/-- The values of all keys. -/
def values (t : Table κ α) : List α :=
  t.map (·.2)

variable [DecidableEq κ] {t : Table κ α}

/-! ### Keys -/

theorem keys_erase_sublist (k : κ) (t : Table κ α) : (erase k t).keys.Sublist t.keys :=
  List.Sublist.map _ List.filter_sublist

theorem nodup_erase (hk : t.keys.Nodup) (k : κ) : (erase k t).keys.Nodup :=
  (keys_erase_sublist k t).nodup hk

theorem not_mem_keys_erase (k : κ) (t : Table κ α) : k ∉ (erase k t).keys := by
  intro hm
  obtain ⟨e, he, hke⟩ := List.mem_map.mp hm
  have hne := (List.mem_filter.mp he).2
  simp [hke] at hne

theorem nodup_put (hk : t.keys.Nodup) (k : κ) (a : α) : (put k a t).keys.Nodup :=
  List.nodup_cons.mpr ⟨not_mem_keys_erase k t, nodup_erase hk k⟩

theorem get?_eq_none {k : κ} : ∀ {t : Table κ α}, k ∉ t.keys → get? k t = none
  | [], _ => rfl
  | (k', a) :: t, hk => by
    obtain ⟨hne, ht⟩ : k ≠ k' ∧ k ∉ keys t := by simpa [keys] using hk
    rw [get?, if_neg hne, get?_eq_none ht]

theorem erase_eq_self {k : κ} (hk : k ∉ t.keys) : erase k t = t := by
  apply List.filter_eq_self.mpr
  intro e he
  have : k ≠ e.1 := fun h => hk (h ▸ List.mem_map.mpr ⟨e, he, rfl⟩)
  simpa using this

/-! ### Values -/

theorem mem_values_of_get? {k : κ} {a : α} : ∀ {t : Table κ α}, get? k t = some a → a ∈ t.values
  | [], h => by simp [get?] at h
  | (k', b) :: t, h => by
    unfold get? at h
    split at h
    · obtain rfl := by simpa using h
      exact List.mem_cons_self
    · exact List.mem_cons_of_mem _ (mem_values_of_get? h)

theorem exists_get?_of_mem (hk : t.keys.Nodup) {a : α} (ha : a ∈ t.values) :
    ∃ k, get? k t = some a := by
  induction t with
  | nil => simp [values] at ha
  | cons e t ih =>
    obtain ⟨k, b⟩ := e
    obtain ⟨hnew, hk⟩ := List.nodup_cons.mp hk
    rcases List.mem_cons.mp ha with rfl | ha
    · exact ⟨k, by simp [get?]⟩
    · obtain ⟨k', hk'⟩ := ih hk ha
      have hne : k' ≠ k := by
        rintro rfl
        rw [get?_eq_none hnew] at hk'
        simp at hk'
      exact ⟨k', by rw [get?, if_neg hne, hk']⟩

theorem mem_values_of_erase {k : κ} {a : α} (ha : a ∈ (erase k t).values) : a ∈ t.values :=
  (List.Sublist.map _ List.filter_sublist).subset ha

theorem mem_values_of_put {k : κ} {a b : α} (ha : a ∈ (put k b t).values) : a = b ∨ a ∈ t.values := by
  rcases List.mem_cons.mp ha with rfl | ha
  · exact .inl rfl
  · exact .inr (mem_values_of_erase ha)

/-- The value that a key has is one of all, besides those of the other keys. -/
theorem perm_values (hk : t.keys.Nodup) {k : κ} {a : α} (ha : get? k t = some a) :
    t.values.Perm (a :: (erase k t).values) := by
  induction t with
  | nil => simp [get?] at ha
  | cons e t ih =>
    obtain ⟨k', b⟩ := e
    obtain ⟨hnew, hk⟩ := List.nodup_cons.mp hk
    by_cases h : k = k'
    · subst h
      obtain rfl : b = a := by simpa [get?] using ha
      have hsame : erase k ((k, b) :: t) = t := by
        rw [← erase_eq_self hnew]
        simp [erase]
      rw [hsame]
      rfl
    · have hsame : erase k ((k', b) :: t) = (k', b) :: erase k t := by
        simp [erase, h]
      rw [get?, if_neg h] at ha
      rw [hsame]
      exact ((ih hk ha).cons b).trans (.swap a b _)

theorem not_mem_keys {k : κ} : ∀ {t : Table κ α}, get? k t = none → k ∉ t.keys
  | [], _ => List.not_mem_nil
  | (k', a) :: t, h => by
    unfold get? at h
    split at h
    · simp at h
    · rename_i hne
      have ht : k ∉ keys t := not_mem_keys h
      simpa [keys] using And.intro hne ht

/-- An entry that is taken out is counted no more. -/
theorem countP_erase (P : α → Bool) (k : κ) (hk : t.keys.Nodup) :
    (erase k t).values.countP P + (get? k t).toList.countP P = t.values.countP P := by
  induction t with
  | nil => rfl
  | cons e t ih =>
    obtain ⟨k', b⟩ := e
    obtain ⟨hnew, hk⟩ := List.nodup_cons.mp hk
    have ih := ih hk
    by_cases h : k = k'
    · subst h
      have hsame : erase k ((k, b) :: t) = t := by
        rw [← erase_eq_self hnew]
        simp [erase]
      rw [hsame]
      simp only [get?, if_true, values, List.map_cons, List.countP_cons, Option.toList_some,
        List.countP_nil]
      omega
    · have hsame : erase k ((k', b) :: t) = (k', b) :: erase k t := by
        simp [erase, h]
      rw [hsame, get?, if_neg h]
      simp only [values, List.map_cons, List.countP_cons] at ih ⊢
      omega

/-- An entry that is put in takes the place of the one that was found. -/
theorem countP_put (P : α → Bool) (k : κ) (a : α) (hk : t.keys.Nodup) :
    (put k a t).values.countP P + (get? k t).toList.countP P =
      t.values.countP P + [a].countP P := by
  have herase := countP_erase P k hk
  have hcons : (put k a t).values = a :: (erase k t).values := rfl
  rw [hcons, List.countP_cons]
  simp only [List.countP_cons, List.countP_nil]
  omega

theorem get?_erase_ne {k k' : κ} (hne : k ≠ k') (t : Table κ α) : get? k (erase k' t) = get? k t := by
  rw [get?_erase, if_neg hne]

/-- If at most one value counts, those that do have one key. -/
theorem eq_of_countP_le_one {P : α → Bool} (hk : t.keys.Nodup) (hP : t.values.countP P ≤ 1) {k k' : κ}
    {a a' : α} (ha : get? k t = some a) (ha' : get? k' t = some a') (hPa : P a = true)
    (hPa' : P a' = true) : k = k' := by
  by_cases h : k = k'
  · exact h
  · have herase := countP_erase P k hk
    have hmem : a' ∈ (erase k t).values := mem_values_of_get? (by rw [get?_erase_ne (Ne.symm h), ha'])
    have hpos : 0 < (erase k t).values.countP P := List.countP_pos_iff.mpr ⟨a', hmem, hPa'⟩
    rw [ha] at herase
    simp only [Option.toList_some, List.countP_singleton, hPa, if_true] at herase
    omega

/-! ### Other values under the same keys -/

/-- The table with another value under each key. -/
def mapValues {β : Type} (f : α → β) (t : Table κ α) : Table κ β :=
  t.map fun e => (e.1, f e.2)

theorem get?_mapValues {β : Type} (f : α → β) (k : κ) : ∀ t : Table κ α,
    get? k (t.mapValues f) = (get? k t).map f
  | [] => rfl
  | (k', a) :: t => by
    show (if k = k' then some (f a) else get? k (mapValues f t)) = _
    rw [get?, get?_mapValues f k t]
    split <;> rfl

theorem mapValues_erase {β : Type} (f : α → β) (k : κ) (t : Table κ α) :
    mapValues f (erase k t) = erase k (mapValues f t) := by
  unfold mapValues erase
  rw [List.filter_map]
  rfl

theorem mapValues_put {β : Type} (f : α → β) (k : κ) (a : α) (t : Table κ α) :
    mapValues f (put k a t) = put k (f a) (mapValues f t) := by
  unfold put
  rw [← mapValues_erase]
  rfl

end Custody.Table
