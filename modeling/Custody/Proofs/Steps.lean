/-
# Small changes, one after the other

What each of some small changes preserves, all of them together preserve; while one
property is shown to last, another that is known to last may be used. And if each
change lets at most one thing go, and a record has it whenever it does, then
the record names each thing that is gone once.

Key definitions: `LetsGo`, `Recorded`.
Key theorems: `kept_of_steps`, `kept_of_steps_of_kept`, `Recorded.step`.
-/
import Mathlib.Logic.Relation

namespace Custody

variable {σ : Type} {R : σ → σ → Prop} {I Q : σ → Prop} {a b : σ}

/-- What each small change preserves, all of them together preserve. -/
theorem kept_of_steps (hI : ∀ {a b}, R a b → I a → I b) (h : Relation.ReflTransGen R a b)
    (ha : I a) : I b := by
  induction h with
  | refl => exact ha
  | tail _ hstep ih => exact hI hstep ih

/-- To show that small changes preserve `Q`, the property `I` that they preserve may be used. -/
theorem kept_of_steps_of_kept (hI : ∀ {a b}, R a b → I a → I b)
    (hQ : ∀ {a b}, I a → R a b → Q a → Q b) (h : Relation.ReflTransGen R a b) (ha : I a)
    (hq : Q a) : Q b := by
  have hboth : I b ∧ Q b := by
    refine kept_of_steps (I := fun x => I x ∧ Q x) (fun hstep hx => ?_) h ⟨ha, hq⟩
    exact ⟨hI hstep hx.1, hQ hx.1 hstep hx.2⟩
  exact hboth.2

variable {ι : Type} {record record' : List ι} {gone gone' : ι → Prop}

/-- Nothing goes, or one thing that was there, and the record has it. -/
def LetsGo (record record' : List ι) (gone gone' : ι → Prop) : Prop :=
  (record' = record ∧ ∀ c, gone' c ↔ gone c) ∨
    ∃ c, ¬ gone c ∧ record' = c :: record ∧ ∀ c', gone' c' ↔ c' = c ∨ gone c'

/-- The record names each thing that is gone once, and no other. -/
structure Recorded (record : List ι) (gone : ι → Prop) : Prop where
  nodup : record.Nodup
  mem : ∀ c, c ∈ record ↔ gone c

theorem LetsGo.keeps (h : LetsGo record record' gone gone') {c : ι} (hc : gone c) : gone' c := by
  rcases h with ⟨-, hgone⟩ | ⟨_, -, -, hgone⟩
  · exact (hgone c).mpr hc
  · exact (hgone c).mpr (.inr hc)

theorem Recorded.step (hr : Recorded record gone) (h : LetsGo record record' gone gone') :
    Recorded record' gone' := by
  rcases h with ⟨rfl, hgone⟩ | ⟨c, hthere, rfl, hgone⟩
  · exact ⟨hr.nodup, fun c => (hr.mem c).trans (hgone c).symm⟩
  · have hnew : c ∉ record := fun hmem => hthere ((hr.mem c).mp hmem)
    refine ⟨List.nodup_cons.mpr ⟨hnew, hr.nodup⟩, fun c' => ?_⟩
    rw [hgone, List.mem_cons, hr.mem]

end Custody
