/-
# Descent

Some things are made and others copied from one that was there before. If they are numbered
in the order in which they came about, a list that says of each how it did is a family tree.
Two are of the same make if they descend from one that was made. If each make has a mark of
its own, which the copies take over, the marks tell of which make a thing is.

Key definitions: `Births`, `Births.Descends`, `Births.SameMake`, `Births.Marked`.
Key theorems: `Births.Marked.sameMake_iff`, `Births.Marked.exists_make`.
-/

namespace Custody

/-- How things came about: the one with that number was made, or is a copy of another. -/
abbrev Births := List (Option Nat)

namespace Births

variable {κ : Type} {B B' : Births} {marks : List κ} {r r' s t t' u : Nat} {x : κ}

/-- Whether `t` is `r`, which was made, or a copy of what descends from it. -/
inductive Descends (B : Births) (r : Nat) : Nat → Prop
  | made : B[r]? = some none → Descends B r r
  | copied {t u : Nat} : Descends B r u → B[t]? = some (some u) → Descends B r t

theorem Descends.made_root (hd : B.Descends r t) : B[r]? = some none := by
  induction hd with
  | made h => exact h
  | copied _ _ ih => exact ih

/-- Whether both descend from the same thing that was made. -/
def SameMake (B : Births) (t t' : Nat) : Prop :=
  ∃ r, B.Descends r t ∧ B.Descends r t'

/-- Whether each make has a mark of its own, and its copies have the same. -/
structure Marked (B : Births) (marks : List κ) : Prop where
  length : marks.length = B.length
  copied : ∀ t u : Nat, B[t]? = some (some u) → u < t ∧ marks[u]? = marks[t]?
  made : ∀ t t' : Nat, B[t]? = some none → B[t']? = some none → marks[t]? = marks[t']? → t = t'

theorem marked_nil : Marked [] ([] : List κ) where
  length := rfl
  copied t u h := by simp at h
  made t t' h := by simp at h

/-- What an entry of a longer list is: one of the list, or the one put to its end. -/
theorem getElem?_concat_eq_some {ι : Type} {l : List ι} {a b : ι} (h : (l ++ [a])[t]? = some b) :
    l[t]? = some b ∨ t = l.length ∧ b = a := by
  rcases Nat.lt_trichotomy t l.length with hlt | rfl | hgt
  · rw [List.getElem?_append_left hlt] at h
    exact .inl h
  · rw [List.getElem?_concat_length] at h
    exact .inr ⟨rfl, (Option.some.inj h).symm⟩
  · rw [List.getElem?_eq_none (by simpa using Nat.succ_le_of_lt hgt)] at h
    simp at h

namespace Marked

variable (hm : Marked B marks)
include hm

theorem lt_of_getElem? {b : Option Nat} (hb : B[t]? = some b) : t < marks.length := by
  rw [hm.length]
  exact (List.getElem?_eq_some_iff.mp hb).1

/-- Something is made, and has a mark that nothing had. -/
theorem make (hx : x ∉ marks) : Marked (B ++ [none]) (marks ++ [x]) where
  length := by simp [hm.length]
  copied t u h := by
    rcases getElem?_concat_eq_some h with h | ⟨-, h⟩
    · obtain ⟨hlt, hmark⟩ := hm.copied t u h
      have ht := hm.lt_of_getElem? h
      rw [List.getElem?_append_left ht, List.getElem?_append_left (Nat.lt_trans hlt ht)]
      exact ⟨hlt, hmark⟩
    · simp at h
  made t t' h h' heq := by
    have hfresh : ∀ t : Nat, B[t]? = some none → (marks ++ [x])[t]? ≠ some x := by
      intro t ht hsome
      rw [List.getElem?_append_left (hm.lt_of_getElem? ht)] at hsome
      exact hx (List.mem_of_getElem? hsome)
    have hlast : (marks ++ [x])[B.length]? = some x := by
      rw [← hm.length, List.getElem?_concat_length]
    rcases getElem?_concat_eq_some h with h | ⟨rfl, -⟩ <;>
      rcases getElem?_concat_eq_some h' with h' | ⟨rfl, -⟩
    · rw [List.getElem?_append_left (hm.lt_of_getElem? h),
        List.getElem?_append_left (hm.lt_of_getElem? h')] at heq
      exact hm.made t t' h h' heq
    · exact absurd (heq.trans hlast) (hfresh t h)
    · exact absurd (heq.symm.trans hlast) (hfresh t' h')
    · rfl

/-- Something is copied, and the copy has the same mark. -/
theorem copy (hu : marks[u]? = some x) : Marked (B ++ [some u]) (marks ++ [x]) where
  length := by simp [hm.length]
  copied t u' h := by
    rcases getElem?_concat_eq_some h with h | ⟨rfl, h⟩
    · obtain ⟨hlt, hmark⟩ := hm.copied t u' h
      have ht := hm.lt_of_getElem? h
      rw [List.getElem?_append_left ht, List.getElem?_append_left (Nat.lt_trans hlt ht)]
      exact ⟨hlt, hmark⟩
    · obtain rfl : u' = u := by simpa [eq_comm] using h
      have hlt : u' < marks.length := (List.getElem?_eq_some_iff.mp hu).1
      rw [← hm.length, List.getElem?_append_left hlt, List.getElem?_concat_length]
      exact ⟨hlt, hu⟩
  made t t' h h' heq := by
    have hold : ∀ t : Nat, (B ++ [some u])[t]? = some none → B[t]? = some none := by
      intro t ht
      rcases getElem?_concat_eq_some ht with ht | ⟨-, ht⟩
      · exact ht
      · simp at ht
    rw [List.getElem?_append_left (hm.lt_of_getElem? (hold t h)),
      List.getElem?_append_left (hm.lt_of_getElem? (hold t' h'))] at heq
    exact hm.made t t' (hold t h) (hold t' h') heq

/-- What descends from another has its mark. -/
theorem mark_eq (hd : B.Descends r t) : marks[t]? = marks[r]? := by
  induction hd with
  | made _ => rfl
  | copied _ ht ih => exact (hm.copied _ _ ht).2.symm.trans ih

/-- Everything descends from something that was made. -/
theorem exists_make (ht : t < B.length) : ∃ r, B.Descends r t := by
  induction t using Nat.strongRecOn with
  | ind t ih =>
    cases hb : B[t] with
    | none => exact ⟨t, .made (List.getElem?_eq_some_iff.mpr ⟨ht, hb⟩)⟩
    | some u =>
      have hcopy : B[t]? = some (some u) := List.getElem?_eq_some_iff.mpr ⟨ht, hb⟩
      obtain ⟨hlt, -⟩ := hm.copied t u hcopy
      obtain ⟨r, hr⟩ := ih u hlt (Nat.lt_trans hlt ht)
      exact ⟨r, hr.copied hcopy⟩

/-- **Two things are of the same make if and only if they have the same mark.** -/
theorem sameMake_iff (ht : t < B.length) (ht' : t' < B.length) :
    B.SameMake t t' ↔ marks[t]? = marks[t']? := by
  constructor
  · rintro ⟨r, hr, hr'⟩
    exact (hm.mark_eq hr).trans (hm.mark_eq hr').symm
  · intro heq
    obtain ⟨r, hr⟩ := hm.exists_make ht
    obtain ⟨r', hr'⟩ := hm.exists_make ht'
    have hsame : marks[r]? = marks[r']? := by rw [← hm.mark_eq hr, ← hm.mark_eq hr', heq]
    obtain rfl := hm.made r r' hr.made_root hr'.made_root hsame
    exact ⟨r, hr, hr'⟩

end Marked

end Births

end Custody
