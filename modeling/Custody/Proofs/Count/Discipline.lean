/-
# The discipline of tokens

Who makes counts and tokens under new names, asks a count above zero for more
owners, hands each token to the count that issued it and loses none, obeys the
discipline. It is about the steps asked for, not about the answers. What it is
for is that a count then tells how many of its tokens there are, so a token that
is handed back finds its count above zero, and nothing ever goes wrong.

Key definitions: `Ledger.Allows`, `Ledger.Obeys`, `Ledger.Balanced`.
Key theorems: `Ledger.obeys_append`, `Ledger.Obeys.answered`.
-/
import Custody.Count.Ledger
import Custody.Proofs.Table

namespace Custody.Ledger

variable {l : Ledger} {s : Step} {ss : List Step}

/-- Whether the discipline allows the step. -/
def Allows (l : Ledger) : Step → Prop
  | .create c k => l.counts.get? c = none ∧ l.tokens.get? k = none
  | .acquire c k => (∃ n, l.counts.get? c = some n ∧ 0 < n.owners) ∧ l.tokens.get? k = none
  | .release c k => ∃ t, l.tokens.get? k = some t ∧ t.issuer = c
  | .drop _ => False
  | .unique c => ∃ n, l.counts.get? c = some n

/-- What becomes of the ledger in several steps. -/
def after (l : Ledger) : List Step → Ledger
  | [] => l
  | s :: ss => (l.step s).1.after ss

/-- Whether the discipline allows each of the steps when it comes to it. -/
def Obeys (l : Ledger) : List Step → Prop
  | [] => True
  | s :: ss => l.Allows s ∧ (l.step s).1.Obeys ss

theorem after_append (ss ss' : List Step) : ∀ l : Ledger,
    l.after (ss ++ ss') = (l.after ss).after ss' := by
  induction ss with
  | nil => exact fun _ => rfl
  | cons s ss ih => exact fun l => ih (l.step s).1

theorem obeys_append (ss ss' : List Step) : ∀ l : Ledger,
    l.Obeys (ss ++ ss') ↔ l.Obeys ss ∧ (l.after ss).Obeys ss' := by
  induction ss with
  | nil => exact fun _ => ⟨fun h => ⟨trivial, h⟩, fun h => h.2⟩
  | cons s ss ih =>
    intro l
    show l.Allows s ∧ (l.step s).1.Obeys (ss ++ ss') ↔ _
    rw [ih, ← and_assoc]
    rfl

/-! ### Counts that tell how many tokens there are -/

/-- How many owners the count has, if there is such a count. -/
def owners (l : Ledger) (c : String) : Nat :=
  match l.counts.get? c with
  | some n => n.owners
  | none => 0

/-- How many tokens there are that the count issued. -/
def outstanding (l : Ledger) (c : String) : Nat :=
  l.tokens.values.countP fun t => t.issuer = c

/-- Each count tells how many of its tokens there are. -/
structure Balanced (l : Ledger) : Prop where
  names : l.tokens.keys.Nodup
  owners_eq : ∀ c, l.owners c = l.outstanding c

theorem owners_of_get? {c : String} {n : Count} (hn : l.counts.get? c = some n) :
    l.owners c = n.owners := by
  simp [owners, hn]

theorem balanced_empty : empty.Balanced := ⟨.nil, fun _ => rfl⟩

/-- A token that there is keeps the count of its issuer above zero. -/
theorem Balanced.owners_pos (hl : l.Balanced) {k : String} {t : Token String}
    (ht : l.tokens.get? k = some t) : 0 < l.owners t.issuer := by
  rw [hl.owners_eq]
  exact List.countP_pos_iff.mpr ⟨t, Table.mem_values_of_get? ht, by simp⟩

/-- When one count is put, the other counts remain. -/
theorem owners_put {l' : Ledger} {c : String} {n : Count} (hput : l'.counts = l.counts.put c n)
    (c' : String) : l'.owners c' = if c' = c then n.owners else l.owners c' := by
  unfold owners
  rw [hput, Table.get?_put]
  by_cases hc : c' = c <;> simp [hc]

/-- A token that is issued under a new name is one more of its issuer's. -/
theorem outstanding_issue (hl : l.tokens.keys.Nodup) {k : String} (hk : l.tokens.get? k = none)
    (c : String) (n : Count) (c' : String) :
    (l.issue c k n).outstanding c' = l.outstanding c' + if c = c' then 1 else 0 := by
  have := Table.countP_put (fun t : Token String => t.issuer = c') k ⟨c, l.issued⟩ hl
  rw [hk] at this
  simpa [outstanding, Ledger.issue, List.countP_singleton] using this

/-- A token that is taken out is one less of its issuer's. -/
theorem outstanding_erase {l' : Ledger} (hl : l.tokens.keys.Nodup) {k : String} {t : Token String}
    (ht : l.tokens.get? k = some t) (hl' : l'.tokens = l.tokens.erase k) (c : String) :
    l'.outstanding c + (if t.issuer = c then 1 else 0) = l.outstanding c := by
  have := Table.countP_erase (fun t : Token String => t.issuer = c) k hl
  rw [ht] at this
  unfold outstanding
  rw [hl']
  simpa [List.countP_singleton] using this

/-- A count that issues a token under a new name counts one owner more. -/
theorem Balanced.issue (hl : l.Balanced) {c k : String} (hk : l.tokens.get? k = none) {n : Count}
    (hn : n.owners = l.owners c + 1) : (l.issue c k n).Balanced := by
  refine ⟨Table.nodup_put hl.names k _, fun c' => ?_⟩
  rw [owners_put (l := l) (c := c) (n := n) rfl, outstanding_issue hl.names hk, ← hl.owners_eq c']
  by_cases hc : c' = c
  · subst hc
    rw [if_pos rfl, if_pos rfl, hn]
  · rw [if_neg hc, if_neg (Ne.symm hc), Nat.add_zero]

/-- A token that goes back to the count that issued it takes one owner off. -/
theorem Balanced.handBack (hl : l.Balanced) {k : String} {t : Token String}
    (ht : l.tokens.get? k = some t) {n : Count} (hn : n.owners + 1 = l.owners t.issuer) :
    Balanced { l with tokens := l.tokens.erase k, counts := l.counts.put t.issuer n } := by
  refine ⟨Table.nodup_erase hl.names k, fun c' => ?_⟩
  have htokens : ({ l with tokens := l.tokens.erase k, counts := l.counts.put t.issuer n } : Ledger).tokens =
      l.tokens.erase k := rfl
  have herase := outstanding_erase hl.names ht htokens c'
  rw [← hl.owners_eq c'] at herase
  rw [owners_put (l := l) (c := t.issuer) (n := n) rfl]
  by_cases hc : c' = t.issuer
  · subst hc
    rw [if_pos rfl] at herase ⊢
    omega
  · rw [if_neg (Ne.symm hc), Nat.add_zero] at herase
    rw [if_neg hc, herase]

/-! ### Nothing goes wrong -/

/-- Whether the step was done, or the question answered. -/
def Reply.IsFine (r : Reply) : Prop :=
  r = .done ∨ ∃ b, r = .flag b

/-- What a step that is allowed does to counts that tell how many tokens there are: they
still do, and nothing goes wrong. -/
theorem Balanced.step (hl : l.Balanced) (ha : l.Allows s) :
    (l.step s).1.Balanced ∧ (l.step s).2.IsFine := by
  cases s with
  | create c k =>
    obtain ⟨hc, hk⟩ := ha
    have hstep : l.step (.create c k) = (l.issue c k .first, .done) := by
      simp [Ledger.step, Table.has, hc, hk]
    have hzero : l.owners c = 0 := by simp [owners, hc]
    rw [hstep]
    exact ⟨hl.issue hk (by rw [hzero]; rfl), .inl rfl⟩
  | acquire c k =>
    obtain ⟨⟨n, hn, -⟩, hk⟩ := ha
    have hstep : l.step (.acquire c k) = (l.issue c k n.acquire, .done) := by
      simp [Ledger.step, Table.has, hn, hk]
    rw [hstep]
    exact ⟨hl.issue hk (by rw [owners_of_get? hn]; rfl), .inl rfl⟩
  | release c k =>
    obtain ⟨t, ht, rfl⟩ := ha
    have hpos := hl.owners_pos ht
    -- there is such a count, and it is above zero
    obtain ⟨⟨n⟩, hn⟩ : ∃ n, l.counts.get? t.issuer = some n := by
      unfold owners at hpos
      split at hpos
      · exact ⟨_, ‹_›⟩
      · exact absurd hpos (Nat.lt_irrefl 0)
    rw [owners_of_get? hn] at hpos
    obtain ⟨n, rfl⟩ : ∃ n', n = n' + 1 := ⟨n - 1, (Nat.sub_add_cancel hpos).symm⟩
    have hstep : l.step (.release t.issuer k) =
        ({ l with tokens := l.tokens.erase k, counts := l.counts.put t.issuer ⟨n⟩ },
          .flag (n = 0)) := by
      simp [Ledger.step, hn, ht, Count.release?]
    rw [hstep]
    exact ⟨hl.handBack ht (by rw [owners_of_get? hn]), .inr ⟨_, rfl⟩⟩
  | drop k => exact absurd ha id
  | unique c =>
    obtain ⟨n, hn⟩ := ha
    have hstep : l.step (.unique c) = (l, .flag n.isUnique) := by
      simp [Ledger.step, hn]
    rw [hstep]
    exact ⟨hl, .inr ⟨_, rfl⟩⟩

/-- **Who obeys the discipline meets no fault.** Each step is done, or the question answered,
and the counts go on to tell how many of their tokens there are. -/
theorem Obeys.answered (ho : l.Obeys ss) (hl : l.Balanced) :
    ∀ r ∈ l.run ss, r.1.IsFine ∧ r.2.Balanced := by
  induction ss generalizing l with
  | nil => exact fun r hr => absurd hr List.not_mem_nil
  | cons s ss ih =>
    obtain ⟨hbalanced, hfine⟩ := hl.step ho.1
    intro r hr
    rcases List.mem_cons.mp hr with rfl | hr
    · exact ⟨hfine, hbalanced⟩
    · exact ih ho.2 hbalanced r hr

theorem Reply.IsFine.ne_fault {r : Reply} (hr : r.IsFine) (f : CountFault) : r ≠ .fault f := by
  rcases hr with rfl | ⟨b, rfl⟩ <;> simp

end Custody.Ledger
