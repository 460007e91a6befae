/-
# Lost tokens

Whoever hands each token back, if at all, to the count that issued it, and asks a count for
another owner only while there is a token of it, may lose tokens all the same. A count then tells
how many of its tokens there are and how many were lost. So no token finds its count at zero,
and a token is said to be the last one when it is and none was lost: once a token is lost its
count stays above zero for ever, and whatever it counts is never given up too early.

Key definitions: `Ledger.Honest`, `Ledger.AllHonest`, `Entry.losesOf`, `Ledger.TellsLosses`.
Key theorems: `Move.owners_eq`, `Ledger.owners_after`, `Ledger.losses_only_keep`.
-/
import Custody.Proofs.Count.Conservation

namespace Custody.Ledger

variable {l l' : Ledger} {s : Step} {ss : List Step} {r : Reply} {c k : String} {n : Count}
  {t : Token String}

/-! ### Honest steps -/

/-- Whether the step hands a token to the count that issued it only, and registers another owner
of a count only while there is a token of that count. Any token may be lost. -/
def Honest (l : Ledger) : Step → Prop
  | .acquire c _ => 0 < l.outstanding c
  | .release c k => ∀ t, l.tokens.get? k = some t → t.issuer = c
  | _ => True

/-- Whether each of the steps is honest when it comes to it. -/
def AllHonest (l : Ledger) : List Step → Prop
  | [] => True
  | s :: ss => l.Honest s ∧ (l.step s).1.AllHonest ss

instance (l : Ledger) : ∀ s, Decidable (l.Honest s)
  | .acquire c _ => inferInstanceAs (Decidable (0 < l.outstanding c))
  | .release c k => decidable_of_iff (∀ t ∈ l.tokens.get? k, t.issuer = c) Iff.rfl
  | .create _ _ | .drop _ | .unique _ => .isTrue trivial

instance decidableAllHonest : ∀ (ss : List Step) (l : Ledger), Decidable (l.AllHonest ss)
  | [], _ => .isTrue trivial
  | s :: ss, l =>
    have := decidableAllHonest ss (l.step s).1
    inferInstanceAs (Decidable (l.Honest s ∧ (l.step s).1.AllHonest ss))

theorem allHonest_append (ss ss' : List Step) : ∀ l : Ledger,
    l.AllHonest (ss ++ ss') ↔ l.AllHonest ss ∧ (l.after ss).AllHonest ss' := by
  induction ss with
  | nil => exact fun _ => ⟨fun h => ⟨trivial, h⟩, fun h => h.2⟩
  | cons s ss ih =>
    intro l
    show l.Honest s ∧ (l.step s).1.AllHonest (ss ++ ss') ↔ _
    rw [ih, ← and_assoc]
    rfl

theorem history_append (ss ss' : List Step) : ∀ l : Ledger,
    l.history (ss ++ ss') = l.history ss ++ (l.after ss).history ss' := by
  induction ss with
  | nil => exact fun _ => rfl
  | cons s ss ih => exact fun l => congrArg (_ :: ·) (ih (l.step s).1)

/-- Whether a token that the count issued was lost. -/
def Entry.losesOf (c : String) (e : Entry) : Bool :=
  e.loses && match e.step with
    | .drop k => (e.found.tokens.get? k).any fun t => t.issuer = c
    | _ => false

/-! ### One step -/

/-- No name is given twice, and no count tells less owners than there are tokens of it. -/
structure Covered (l : Ledger) : Prop where
  named : l.Named
  enough : ∀ c, l.outstanding c ≤ l.owners c

theorem covered_empty : empty.Covered := ⟨named_empty, fun _ => Nat.le_refl 0⟩

/-- A token that there is keeps the count of its issuer above zero. -/
theorem Covered.owners_pos (hl : l.Covered) (ht : l.tokens.get? k = some t) :
    0 < l.owners t.issuer := by
  have hone : 0 < l.outstanding t.issuer :=
    List.countP_pos_iff.mpr ⟨t, Table.mem_values_of_get? ht, by simp⟩
  exact Nat.lt_of_lt_of_le hone (hl.enough _)

/-- So an honest step hands no token to a count of zero. -/
theorem Covered.not_stray (hl : l.Covered) (hh : l.Honest (.release c k))
    (hc : l.counts.get? c = some ⟨0⟩) (ht : l.tokens.get? k = some t) : False := by
  have hpos := hl.owners_pos ht
  rw [hh t ht, owners_of_get? hc] at hpos
  exact Nat.lt_irrefl 0 hpos

/-- A count that registers an owner gets a token: both numbers are one more. -/
theorem issue_alike (hl : l.Named) (hk : l.tokens.get? k = none) (hn : n.owners = l.owners c + 1) (c' : String) :
    (l.issue c k n).owners c' + l.outstanding c' = l.owners c' + (l.issue c k n).outstanding c' := by
  have hput : (l.issue c k n).owners c' = if c' = c then n.owners else l.owners c' := owners_put rfl c'
  have hissue := outstanding_issue hl.tokens hk c n c'
  by_cases h : c' = c
  · subst h
    simp only [if_true] at hput hissue
    omega
  · simp only [if_neg h, if_neg (Ne.symm h)] at hput hissue
    omega

/-- A count that is handed a token of it back: both numbers are one less. -/
theorem take_alike (hl : l.Named) (ht : l.tokens.get? k = some t) (hn : l.owners t.issuer = n.owners + 1)
    (c : String) : (l.take t.issuer k n).owners c + l.outstanding c =
      l.owners c + (l.take t.issuer k n).outstanding c := by
  have hput : (l.take t.issuer k n).owners c = if c = t.issuer then n.owners else l.owners c := owners_put rfl c
  have htokens : (l.take t.issuer k n).tokens = l.tokens.erase k := rfl
  have herase := outstanding_erase hl.tokens ht htokens c
  by_cases h : c = t.issuer
  · subst h
    simp only [if_true] at hput herase
    omega
  · simp only [if_neg h, if_neg (Ne.symm h)] at hput herase
    omega

/-- **What an honest step does to a count and its tokens.** Both change alike, but for a token that
is lost. -/
theorem Move.owners_eq (hm : Move l s l' r) (hl : l.Covered) (hh : l.Honest s) (c : String) :
    l'.owners c + l.outstanding c = l.owners c + l'.outstanding c +
      if Entry.losesOf c ⟨l, s, r⟩ then 1 else 0 := by
  cases hm with
  | refuse hr =>
    have hloses : Entry.losesOf c ⟨l, s, r⟩ = false := by
      have : r ≠ .fault .tokenDropped := by
        rintro rfl
        exact Bool.false_ne_true hr
      simp [Entry.losesOf, Entry.loses, this]
    simp [hloses]
  | ask _ => rfl
  | @create c₀ k hc hk =>
    have hfirst : Count.first.owners = l.owners c₀ + 1 := by simp [owners, hc, Count.first]
    exact issue_alike hl.named hk hfirst c
  | @acquire c₀ k n hc hk =>
    have hmore : n.acquire.owners = l.owners c₀ + 1 := by rw [owners_of_get? hc, Count.acquire]
    exact issue_alike hl.named hk hmore c
  | @release c₀ k n t hc hk =>
    obtain rfl : t.issuer = c₀ := hh t hk
    exact take_alike hl.named hk (owners_of_get? hc) c
  | stray hc hk => exact (hl.not_stray hh hc hk).elim
  | @lose k t hk =>
    have htokens : (l.consume k).tokens = l.tokens.erase k := rfl
    have herase := outstanding_erase hl.named.tokens hk htokens c
    have hsame : (l.consume k).owners c = l.owners c := rfl
    have hloses : Entry.losesOf c ⟨l, .drop k, .fault .tokenDropped⟩ = decide (t.issuer = c) := by
      simp [Entry.losesOf, Entry.loses, hk]
    simp only [hloses, decide_eq_true_eq]
    omega

theorem Move.covered (hm : Move l s l' r) (hl : l.Covered) (hh : l.Honest s) : l'.Covered := by
  refine ⟨hm.named hl.named, fun c => ?_⟩
  have hstep := hm.owners_eq hl hh c
  have henough := hl.enough c
  omega

/-- No honest step registers an owner of a count of zero. -/
theorem Move.revives_eq_false (hm : Move l s l' r) (hl : l.Covered) (hh : l.Honest s) (c : String) :
    Entry.revives c ⟨l, s, r⟩ = false := by
  cases hm with
  | @acquire c₀ k n hc hk =>
    have hone : 0 < l.outstanding c₀ := hh
    have hpos : l.owners c₀ ≠ 0 := by
      have := hl.enough c₀
      omega
    by_cases h : c₀ = c
    · subst h
      simp [Entry.revives, hpos]
    · simp [Entry.revives, Entry.acquires, h]
  | @refuse s r hr =>
    have hdone : r ≠ .done := by
      rintro rfl
      exact Bool.false_ne_true hr
    have hacquires : Entry.acquires c ⟨l, s, r⟩ = false := by
      unfold Entry.acquires
      split
      · exact absurd ‹_› hdone
      · rfl
    simp [Entry.revives, hacquires]
  | _ => rfl

/-- A token that is handed back to its count, which is above zero, is taken, and the count says
whether it was at one. -/
theorem step_release (hc : l.counts.get? c = some n) (ht : l.tokens.get? k = some t)
    (hn : 0 < n.owners) : (l.step (.release c k)).2 = .flag (n.owners = 1) := by
  obtain ⟨m, hm⟩ := Nat.exists_eq_add_of_lt hn
  rw [Nat.zero_add] at hm
  simp [step, hc, ht, Count.release?, hm]

/-! ### A whole session -/

theorem Covered.after (hl : l.Covered) (hh : l.AllHonest ss) : (l.after ss).Covered := by
  induction ss generalizing l with
  | nil => exact hl
  | cons s ss ih => exact ih ((step_move l s).covered hl hh.1) hh.2

/-- **What a count tells after an honest session**, besides its tokens: those that were lost. -/
theorem owners_after (hl : l.Covered) (hh : l.AllHonest ss) (c : String) :
    (l.after ss).owners c + l.outstanding c = l.owners c + (l.after ss).outstanding c +
      (l.history ss).countP (Entry.losesOf c) := by
  induction ss generalizing l with
  | nil => rfl
  | cons s ss ih =>
    have hstep := (step_move l s).owners_eq hl hh.1 c
    have hrest := ih ((step_move l s).covered hl hh.1) hh.2
    simp only [after, history, List.countP_cons]
    omega

theorem revives_after (hl : l.Covered) (hh : l.AllHonest ss) (c : String) :
    (l.history ss).countP (Entry.revives c) = 0 := by
  induction ss generalizing l with
  | nil => rfl
  | cons s ss ih =>
    have hstep := (step_move l s).revives_eq_false hl hh.1 c
    have hrest := ih ((step_move l s).covered hl hh.1) hh.2
    simp only [history, List.countP_cons, hstep, hrest, Bool.false_eq_true, if_false]

/-- Each step of an honest session finds counts that tell enough owners, and is honest. -/
theorem mem_history_honest (hl : l.Covered) (hh : l.AllHonest ss) {e : Entry} (he : e ∈ l.history ss) :
    e.found.Covered ∧ e.found.Honest e.step := by
  induction ss generalizing l with
  | nil => exact absurd he List.not_mem_nil
  | cons s ss ih =>
    rcases List.mem_cons.mp he with rfl | he
    · exact ⟨hl, hh.1⟩
    · exact ih ((step_move l s).covered hl hh.1) hh.2 he

/-! ### Counts that tell what was lost -/

/-- What the counts of a ledger have to do with the tokens that there are, and with those that were
lost in what was done so far. -/
structure TellsLosses (past : List Entry) (l : Ledger) : Prop where
  /-- Whoever had a token to hand back to a count was answered. -/
  taken : ∀ e ∈ past, ∀ c k, e.step = .release c k → e.found.counts.get? c ≠ none →
    e.found.tokens.get? k ≠ none → ∃ b, e.reply = .flag b
  owners_eq : ∀ c n, l.counts.get? c = some n →
    n.owners = l.outstanding c + past.countP (Entry.losesOf c)
  unique_eq : ∀ c n, l.counts.get? c = some n → (l.step (.unique c)).2 =
    .flag (l.outstanding c + past.countP (Entry.losesOf c) = 1)
  /-- A token that is handed back now is the last if there is no other and none was lost. -/
  release_eq : ∀ c n k t, l.counts.get? c = some n → l.tokens.get? k = some t → t.issuer = c →
    (l.step (.release c k)).2 =
      .flag (l.outstanding c = 1 ∧ past.countP (Entry.losesOf c) = 0)
  /-- One was the last if there is none any more and none was lost, and then only one was. -/
  lasts_eq : ∀ c n, l.counts.get? c = some n → past.countP (Entry.lasts c) =
    if l.outstanding c = 0 ∧ past.countP (Entry.losesOf c) = 0 then 1 else 0

/-- The count of a token that was lost is there, and above zero. -/
theorem exists_count_of_loss (hh : empty.AllHonest ss)
    (hlost : 0 < (empty.history ss).countP (Entry.losesOf c)) :
    ∃ n, (empty.after ss).counts.get? c = some n ∧ 0 < n.owners := by
  have htold := owners_after covered_empty hh c
  have hempty : empty.owners c = 0 ∧ empty.outstanding c = 0 := ⟨rfl, rfl⟩
  have hpos : 0 < (empty.after ss).owners c := by omega
  unfold owners at hpos
  split at hpos
  · exact ⟨_, ‹_›, hpos⟩
  · exact absurd hpos (Nat.lt_irrefl 0)

theorem tellsLosses (hh : empty.AllHonest ss) : TellsLosses (empty.history ss) (empty.after ss) := by
  have howners : ∀ c n, (empty.after ss).counts.get? c = some n → n.owners =
      (empty.after ss).outstanding c + (empty.history ss).countP (Entry.losesOf c) := by
    intro c n hn
    have htold := owners_after covered_empty hh c
    have hempty : empty.owners c = 0 ∧ empty.outstanding c = 0 := ⟨rfl, rfl⟩
    rw [owners_of_get? hn] at htold
    omega
  refine ⟨fun e he c k hs hc hk => ?_, howners, fun c n hn => ?_, fun c n k t hn ht hissuer => ?_,
    fun c n hn => ?_⟩
  · obtain ⟨hcovered, hhonest⟩ := mem_history_honest covered_empty hh he
    obtain ⟨n, hn⟩ := Option.ne_none_iff_exists'.mp hc
    obtain ⟨t, ht⟩ := Option.ne_none_iff_exists'.mp hk
    rw [hs] at hhonest
    have hpos := hcovered.owners_pos ht
    rw [hhonest t ht, owners_of_get? hn] at hpos
    exact ⟨_, by rw [mem_history he, hs, step_release hn ht hpos]⟩
  · simp only [step, hn, Count.isUnique, howners c n hn]
  · have hone : 0 < (empty.after ss).outstanding c :=
      List.countP_pos_iff.mpr ⟨t, Table.mem_values_of_get? ht, by simp [hissuer]⟩
    have htold := howners c n hn
    rw [step_release hn ht (by omega)]
    congr 1
    rw [decide_eq_decide]
    omega
  · have hlasts := lasts_after empty ss c
    have hmade := creates_after empty ss c
    have hrevives := revives_after covered_empty hh c
    have htold := howners c n hn
    have hnone : empty.counts.get? c = none := rfl
    have hpos : positive (some n) = if 0 < n.owners then 1 else 0 := rfl
    have hzero : positive none = 0 := rfl
    rw [hn, hnone] at hlasts hmade
    simp only [Option.toList_some, Option.toList_none, List.length_singleton, List.length_nil] at hmade
    split <;> split at hpos <;> omega

/-- **A lost token can only keep what it counts.** In every session in which tokens go back to
nobody but the counts that issued them, and owners are registered only where there is a token, a
token that is handed back is taken; a count tells how many of its tokens there are together with
those that were lost, is at one if these are one, and says of a token that it is the last just
when it is and none was lost. Of one count that was lost a token of, it never says so, whatever
is done afterwards, and it stays above zero. -/
theorem losses_only_keep (hh : empty.AllHonest ss) :
    TellsLosses (empty.history ss) (empty.after ss) ∧
    ∀ c, 0 < (empty.history ss).countP (Entry.losesOf c) →
      ∀ ss', (empty.after ss).AllHonest ss' →
        (empty.history (ss ++ ss')).countP (Entry.lasts c) = 0 ∧
        ∃ n, (empty.after (ss ++ ss')).counts.get? c = some n ∧ 0 < n.owners := by
  refine ⟨tellsLosses hh, fun c hlost ss' hh' => ?_⟩
  have hall : empty.AllHonest (ss ++ ss') := (allHonest_append ss ss' empty).mpr ⟨hh, hh'⟩
  have hlost' : 0 < (empty.history (ss ++ ss')).countP (Entry.losesOf c) := by
    rw [history_append, List.countP_append]
    omega
  obtain ⟨n, hn, hpos⟩ := exists_count_of_loss hall hlost'
  refine ⟨?_, n, hn, hpos⟩
  rw [(tellsLosses hall).lasts_eq c n hn, if_neg fun h => Nat.ne_of_gt hlost' h.2]

/-- A token of one count is lost, and all others go back; then the other count is at zero, and the
one is not. -/
def mislaid : List Step :=
  [.create "a" "k0", .acquire "a" "k1", .create "b" "k2", .drop "k1", .acquire "b" "k3",
    .release "b" "k2", .release "a" "k0", .release "b" "k3"]

theorem mislaid_honest : empty.AllHonest mislaid := by decide

theorem mislaid_keeps :
    (empty.history mislaid).countP (Entry.losesOf "a") = 1 ∧
    (empty.history mislaid).countP (Entry.lasts "a") = 0 ∧
    (empty.history mislaid).countP (Entry.lasts "b") = 1 ∧
    ∃ n, (empty.after mislaid).counts.get? "a" = some n ∧ 0 < n.owners := by
  obtain ⟨htells, hlost⟩ := losses_only_keep mislaid_honest
  have hone : (empty.history mislaid).countP (Entry.losesOf "a") = 1 := by decide
  obtain ⟨hlasts, hcount⟩ := hlost "a" (by rw [hone]; exact Nat.one_pos) [] trivial
  refine ⟨hone, hlasts, ?_, hcount⟩
  rw [htells.lasts_eq "b" ⟨0⟩ (by decide)]
  decide

end Custody.Ledger
