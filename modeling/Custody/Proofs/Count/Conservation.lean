/-
# Tokens are conserved

A token may be handed to any count, to one of zero too, and may be lost. All the same the
counts together always tell how many tokens there are, how many were lost, and how many
were handed to a count of zero. Each count by itself tells how often it was asked for one
owner more and how often a token was handed to it; it says of a token that it was the last
once for each time that it came up from zero, unless it is above zero now.

Each is an identity of sums, on both sides of which a step adds the same.

Key definitions: `Ledger.Move`, `Ledger.Turn`, `Ledger.Entry`, `Ledger.history`, `Ledger.total`,
`Ledger.Accounts`.
Key theorems: `Ledger.step_move`, `Ledger.total_after`, `Ledger.told_after`,
`Ledger.lasts_after`, `Ledger.tokens_conserved`.
-/
import Mathlib.Algebra.GroupWithZero.Nat
import Custody.Proofs.Count.Discipline

namespace Custody.Ledger

variable {l l' : Ledger} {s : Step} {r : Reply} {c : String}

/-! ### What a step does -/

/-- Whether the step could not be made as it was asked for. -/
def Reply.isRefusal : Reply → Bool
  | .nameTaken | .noCount | .noToken => true
  | _ => false

/-- The ledger without that token. -/
def consume (k : String) (l : Ledger) : Ledger :=
  { l with tokens := l.tokens.erase k }

/-- The ledger after the count took that token, and is the other one. -/
def take (c k : String) (n : Count) (l : Ledger) : Ledger :=
  { l.consume k with counts := l.counts.put c n }

/-- What a step makes of a ledger, and what it answers. -/
inductive Move (l : Ledger) : Step → Ledger → Reply → Prop
  | refuse {s : Step} {r : Reply} : r.isRefusal = true → Move l s l r
  | ask {c : String} {n : Count} : l.counts.get? c = some n → Move l (.unique c) l (.flag n.isUnique)
  | create {c k : String} : l.counts.get? c = none → l.tokens.get? k = none →
      Move l (.create c k) (l.issue c k .first) .done
  | acquire {c k : String} {n : Count} : l.counts.get? c = some n → l.tokens.get? k = none →
      Move l (.acquire c k) (l.issue c k n.acquire) .done
  | release {c k : String} {n : Nat} {t : Token String} : l.counts.get? c = some ⟨n + 1⟩ →
      l.tokens.get? k = some t →
      Move l (.release c k) (l.take c k ⟨n⟩) (.flag (n = 0))
  /-- The token is handed to a count of zero. -/
  | stray {c k : String} {t : Token String} : l.counts.get? c = some ⟨0⟩ →
      l.tokens.get? k = some t → Move l (.release c k) (l.consume k) (.fault .underflow)
  | lose {k : String} {t : Token String} : l.tokens.get? k = some t →
      Move l (.drop k) (l.consume k) (.fault .tokenDropped)

theorem step_stray {k : String} {t : Token String} (hc : l.counts.get? c = some ⟨0⟩)
    (hk : l.tokens.get? k = some t) :
    l.step (.release c k) = (l.consume k, .fault .underflow) := by
  simp [step, hc, hk, Count.release?, consume]

theorem step_lose {k : String} {t : Token String} (hk : l.tokens.get? k = some t) :
    l.step (.drop k) = (l.consume k, .fault .tokenDropped) := by
  simp [step, Table.has, hk, consume]

/-- **Each step is one of these moves.** -/
theorem step_move (l : Ledger) (s : Step) : Move l s (l.step s).1 (l.step s).2 := by
  cases s with
  | create c k =>
    by_cases hfree : l.counts.get? c = none ∧ l.tokens.get? k = none
    · obtain ⟨hc, hk⟩ := hfree
      have hstep : l.step (.create c k) = (l.issue c k .first, .done) := by
        simp [step, Table.has, hc, hk]
      rw [hstep]
      exact .create hc hk
    · have hused : (l.counts.has c || l.tokens.has k) = true := by
        simp only [Table.has, Bool.or_eq_true, Option.isSome_iff_ne_none]
        exact Decidable.or_iff_not_imp_left.mpr fun hc hk => hfree ⟨Decidable.not_not.mp hc, hk⟩
      have hstep : l.step (.create c k) = (l, .nameTaken) := by simp [step, hused]
      rw [hstep]
      exact .refuse rfl
  | acquire c k =>
    cases hk : l.tokens.get? k with
    | some t =>
      have hstep : l.step (.acquire c k) = (l, .nameTaken) := by simp [step, Table.has, hk]
      rw [hstep]
      exact .refuse rfl
    | none =>
      cases hc : l.counts.get? c with
      | none =>
        have hstep : l.step (.acquire c k) = (l, .noCount) := by simp [step, Table.has, hk, hc]
        rw [hstep]
        exact .refuse rfl
      | some n =>
        have hstep : l.step (.acquire c k) = (l.issue c k n.acquire, .done) := by
          simp [step, Table.has, hk, hc]
        rw [hstep]
        exact .acquire hc hk
  | release c k =>
    cases hc : l.counts.get? c with
    | none =>
      have hstep : l.step (.release c k) = (l, .noCount) := by simp [step, hc]
      rw [hstep]
      exact .refuse rfl
    | some n =>
      cases hk : l.tokens.get? k with
      | none =>
        have hstep : l.step (.release c k) = (l, .noToken) := by simp [step, hc, hk]
        rw [hstep]
        exact .refuse rfl
      | some t =>
        obtain ⟨_ | n⟩ := n
        · rw [step_stray hc hk]
          exact .stray hc hk
        · have hstep : l.step (.release c k) = (l.take c k ⟨n⟩, .flag (n = 0)) := by
            simp [step, hc, hk, Count.release?, take, consume]
          rw [hstep]
          exact .release hc hk
  | drop k =>
    cases hk : l.tokens.get? k with
    | none =>
      have hstep : l.step (.drop k) = (l, .noToken) := by simp [step, Table.has, hk]
      rw [hstep]
      exact .refuse rfl
    | some t =>
      rw [step_lose hk]
      exact .lose hk
  | unique c =>
    cases hc : l.counts.get? c with
    | none =>
      have hstep : l.step (.unique c) = (l, .noCount) := by simp [step, hc]
      rw [hstep]
      exact .refuse rfl
    | some n =>
      have hstep : l.step (.unique c) = (l, .flag n.isUnique) := by simp [step, hc]
      rw [hstep]
      exact .ask hc

/-- A move that is a fault changes no count. -/
theorem Move.counts_eq {f : CountFault} (hm : Move l s l' (.fault f)) : l'.counts = l.counts := by
  cases hm <;> rfl

/-! ### The history of a session -/

/-- A step that was asked for, the ledger that it found, and what it answered. -/
structure Entry where
  found : Ledger
  step : Step
  reply : Reply

namespace Entry

/-- The ledger that the step left. -/
def left (e : Entry) : Ledger :=
  (e.found.step e.step).1

/-- Whether the count was made. -/
def creates (c : String) (e : Entry) : Bool :=
  match e.step, e.reply with
  | .create c' _, .done => c' = c
  | _, _ => false

/-- Whether the count registered one owner more. -/
def acquires (c : String) (e : Entry) : Bool :=
  match e.step, e.reply with
  | .acquire c' _, .done => c' = c
  | _, _ => false

/-- Whether the count registered an owner when it was zero. -/
def revives (c : String) (e : Entry) : Bool :=
  e.acquires c && e.found.owners c = 0

/-- Whether a token was handed to the count, and it took it. -/
def releases (c : String) (e : Entry) : Bool :=
  match e.step, e.reply with
  | .release c' _, .flag _ => c' = c
  | _, _ => false

/-- Whether the count said of a token that it was the last. -/
def lasts (c : String) (e : Entry) : Bool :=
  e.releases c && e.reply = .flag true

/-- Whether a token was lost. -/
def loses (e : Entry) : Bool :=
  e.reply = .fault .tokenDropped

/-- Whether a token was handed to a count of zero. -/
def strays (e : Entry) : Bool :=
  e.reply = .fault .underflow

end Entry

/-- All that was asked for and answered, the first step first. -/
def history (l : Ledger) : List Step → List Entry
  | [] => []
  | s :: ss => ⟨l, s, (l.step s).2⟩ :: (l.step s).1.history ss

theorem mem_history {e : Entry} : ∀ {ss : List Step} {l : Ledger}, e ∈ l.history ss →
    e.reply = (e.found.step e.step).2
  | s :: ss, l, he => by
    rcases List.mem_cons.mp he with rfl | he
    · rfl
    · exact mem_history he

/-- A session answers what its history says, and leaves each time the ledger that it says. -/
theorem run_eq_history : ∀ (ss : List Step) (l : Ledger),
    l.run ss = (l.history ss).map fun e => (e.reply, e.left)
  | [], _ => rfl
  | s :: ss, l => congrArg (_ :: ·) (run_eq_history ss (l.step s).1)

/-! ### One step -/

/-- What all counts tell together. -/
def total (l : Ledger) : Nat :=
  (l.counts.values.map Count.owners).sum

/-- No name is given twice. -/
structure Named (l : Ledger) : Prop where
  counts : l.counts.keys.Nodup
  tokens : l.tokens.keys.Nodup

theorem named_empty : empty.Named := ⟨.nil, .nil⟩

theorem Move.named (hm : Move l s l' r) (hl : l.Named) : l'.Named := by
  cases hm with
  | refuse _ => exact hl
  | ask _ => exact hl
  | create _ _ => exact ⟨Table.nodup_put hl.counts _ _, Table.nodup_put hl.tokens _ _⟩
  | acquire _ _ => exact ⟨Table.nodup_put hl.counts _ _, Table.nodup_put hl.tokens _ _⟩
  | release _ _ => exact ⟨Table.nodup_put hl.counts _ _, Table.nodup_erase hl.tokens _⟩
  | stray _ _ => exact ⟨hl.counts, Table.nodup_erase hl.tokens _⟩
  | lose _ => exact ⟨hl.counts, Table.nodup_erase hl.tokens _⟩

/-- When a count is put, the total changes by what it tells now and told before. -/
theorem total_put (hl : l.Named) {n : Count} (hput : l'.counts = l.counts.put c n) :
    l'.total + l.owners c = l.total + n.owners := by
  have hnew : l'.total = n.owners + ((l.counts.erase c).values.map Count.owners).sum := by
    unfold total
    rw [hput]
    rfl
  have hold : l.total = l.owners c + ((l.counts.erase c).values.map Count.owners).sum := by
    unfold total owners
    cases hc : l.counts.get? c with
    | none =>
      rw [Table.erase_eq_self (Table.not_mem_keys hc)]
      exact (Nat.zero_add _).symm
    | some old =>
      exact ((Table.perm_values hl.counts hc).map Count.owners).sum_nat
  omega

theorem length_issue (l : Ledger) {c k : String} (n : Count) (hk : l.tokens.get? k = none) :
    (l.issue c k n).tokens.length = l.tokens.length + 1 := by
  have herase : l.tokens.erase k = l.tokens := Table.erase_eq_self (Table.not_mem_keys hk)
  simp [issue, Table.put, herase]

theorem length_consume (hl : l.Named) {k : String} {t : Token String} (hk : l.tokens.get? k = some t) :
    (l.consume k).tokens.length + 1 = l.tokens.length := by
  have hperm := (Table.perm_values hl.tokens hk).length_eq
  simpa [Table.values, consume] using hperm.symm

/-- What all counts tell and how many tokens there are change alike, but for the tokens that
are lost and those that are handed to a count of zero. -/
theorem Move.total (hm : Move l s l' r) (hl : l.Named) :
    l'.total + l.tokens.length = l.total + l'.tokens.length +
      (if Entry.loses ⟨l, s, r⟩ then 1 else 0) + (if Entry.strays ⟨l, s, r⟩ then 1 else 0) := by
  cases hm with
  | refuse hr =>
    have hfault : ∀ f, r ≠ .fault f := by
      rintro f rfl
      exact Bool.false_ne_true hr
    simp [Entry.loses, Entry.strays, hfault]
  | ask _ => rfl
  | @create c k hc hk =>
    have hput : (l.issue c k .first).total + l.owners c = l.total + Count.first.owners :=
      total_put hl rfl
    have hlen := length_issue l (c := c) .first hk
    have hzero : l.owners c = 0 := by simp [Ledger.owners, hc]
    have hone : Count.first.owners = 1 := rfl
    simp only [Entry.loses, Entry.strays, reduceCtorEq, decide_false, Bool.false_eq_true, if_false]
    omega
  | @acquire c k n hc hk =>
    have hput : (l.issue c k n.acquire).total + l.owners c = l.total + n.acquire.owners :=
      total_put hl rfl
    have hlen := length_issue l (c := c) n.acquire hk
    have hold := owners_of_get? hc
    have hone : n.acquire.owners = n.owners + 1 := rfl
    simp only [Entry.loses, Entry.strays, reduceCtorEq, decide_false, Bool.false_eq_true, if_false]
    omega
  | @release c k n t hc hk =>
    have hput : (l.take c k ⟨n⟩).total + l.owners c = l.total + n := total_put hl rfl
    have hlen : (l.take c k ⟨n⟩).tokens.length + 1 = l.tokens.length := length_consume hl hk
    have hold : l.owners c = n + 1 := owners_of_get? hc
    simp only [Entry.loses, Entry.strays, reduceCtorEq, decide_false, Bool.false_eq_true, if_false]
    omega
  | @stray c k t hc hk =>
    have hlen := length_consume hl hk
    have hsame : (l.consume k).total = l.total := rfl
    simp only [Entry.loses, Entry.strays, Reply.fault.injEq, reduceCtorEq, decide_false,
      decide_true, Bool.false_eq_true, if_false, if_true]
    omega
  | @lose k t hk =>
    have hlen := length_consume hl hk
    have hsame : (l.consume k).total = l.total := rfl
    simp only [Entry.loses, Entry.strays, Reply.fault.injEq, reduceCtorEq, decide_false,
      decide_true, Bool.false_eq_true, if_false, if_true]
    omega

/-! ### One step and one count -/

/-- What a step does to one count: what the count was and is, and whether it was made, registered
an owner, did so when it was zero, took a token, and said that it was the last. -/
inductive Turn : Option Count → Option Count → Bool → Bool → Bool → Bool → Bool → Prop
  | still (n : Option Count) : Turn n n false false false false false
  | made : Turn none (some .first) true false false false false
  | acquired (n : Count) : Turn (some n) (some n.acquire) false true (n.owners = 0) false false
  | released (n : Nat) : Turn (some ⟨n + 1⟩) (some ⟨n⟩) false false false true (n = 0)

/-- A step takes one of these turns with each count. -/
theorem Move.turn (hm : Move l s l' r) (c : String) :
    Turn (l.counts.get? c) (l'.counts.get? c) (Entry.creates c ⟨l, s, r⟩)
      (Entry.acquires c ⟨l, s, r⟩) (Entry.revives c ⟨l, s, r⟩) (Entry.releases c ⟨l, s, r⟩)
      (Entry.lasts c ⟨l, s, r⟩) := by
  cases hm with
  | @refuse s r hr =>
    have hdone : r ≠ .done := by
      rintro rfl
      exact Bool.false_ne_true hr
    have hflag : ∀ b, r ≠ .flag b := by
      rintro b rfl
      exact Bool.false_ne_true hr
    have hcreates : Entry.creates c ⟨l, s, r⟩ = false := by
      unfold Entry.creates
      split
      · exact absurd ‹_› hdone
      · rfl
    have hacquires : Entry.acquires c ⟨l, s, r⟩ = false := by
      unfold Entry.acquires
      split
      · exact absurd ‹_› hdone
      · rfl
    have hreleases : Entry.releases c ⟨l, s, r⟩ = false := by
      unfold Entry.releases
      split
      · exact absurd ‹_› (hflag _)
      · rfl
    rw [Entry.revives, Entry.lasts, hcreates, hacquires, hreleases]
    exact .still _
  | ask _ => exact .still _
  | @create c₀ k hc hk =>
    by_cases h : c₀ = c
    · subst h
      simpa [Entry.creates, Entry.acquires, Entry.revives, Entry.releases, Entry.lasts, issue,
        Table.get?_put, hc] using Turn.made
    · simpa [Entry.creates, Entry.acquires, Entry.revives, Entry.releases, Entry.lasts, issue,
        Table.get?_put, h, Ne.symm h] using Turn.still _
  | @acquire c₀ k n hc hk =>
    by_cases h : c₀ = c
    · subst h
      simpa [Entry.creates, Entry.acquires, Entry.revives, Entry.releases, Entry.lasts, issue,
        Table.get?_put, hc, owners_of_get? hc] using Turn.acquired n
    · simpa [Entry.creates, Entry.acquires, Entry.revives, Entry.releases, Entry.lasts, issue,
        Table.get?_put, h, Ne.symm h] using Turn.still _
  | @release c₀ k n t hc hk =>
    by_cases h : c₀ = c
    · subst h
      simpa [Entry.creates, Entry.acquires, Entry.revives, Entry.releases, Entry.lasts, take,
        Table.get?_put, hc] using Turn.released n
    · simpa [Entry.creates, Entry.acquires, Entry.revives, Entry.releases, Entry.lasts, take,
        Table.get?_put, h, Ne.symm h] using Turn.still _
  | stray _ _ => exact .still _
  | lose _ => exact .still _

variable {m m' : Option Count} {made acquired revived released last : Bool}

/-- How many owners are told, if there is a count to tell. -/
def told (m : Option Count) : Nat :=
  m.elim 0 Count.owners

/-- One if the count is above zero. -/
def positive (m : Option Count) : Nat :=
  if 0 < told m then 1 else 0

theorem Turn.told_eq (ht : Turn m m' made acquired revived released last) :
    told m' + (if released then 1 else 0) =
      told m + (if made then 1 else 0) + (if acquired then 1 else 0) := by
  cases ht <;> simp [told, Count.first, Count.acquire]

theorem Turn.last_eq (ht : Turn m m' made acquired revived released last) :
    (if last then 1 else 0) + positive m' =
      positive m + (if made then 1 else 0) + (if revived then 1 else 0) := by
  cases ht with
  | still n => simp
  | made => rfl
  | acquired n => rcases n with ⟨_ | n⟩ <;> rfl
  | released n => rcases n with _ | n <;> rfl

theorem Turn.made_eq (ht : Turn m m' made acquired revived released last) :
    m'.toList.length = m.toList.length + (if made then 1 else 0) := by
  cases ht <;> rfl

/-! ### A whole session -/

/-- What the counts tell together, and the tokens that there are, after a session. -/
theorem total_after (hl : l.Named) (ss : List Step) :
    (l.after ss).total + l.tokens.length = l.total + (l.after ss).tokens.length +
      (l.history ss).countP Entry.loses + (l.history ss).countP Entry.strays := by
  induction ss generalizing l with
  | nil => rfl
  | cons s ss ih =>
    have hstep := (step_move l s).total hl
    have hrest := ih ((step_move l s).named hl)
    simp only [after, history, List.countP_cons]
    omega

/-- What a count tells after a session. -/
theorem told_after (l : Ledger) (ss : List Step) (c : String) :
    told ((l.after ss).counts.get? c) + (l.history ss).countP (Entry.releases c) =
      told (l.counts.get? c) + (l.history ss).countP (Entry.creates c) +
        (l.history ss).countP (Entry.acquires c) := by
  induction ss generalizing l with
  | nil => rfl
  | cons s ss ih =>
    have hstep := ((step_move l s).turn c).told_eq
    have hrest := ih (l.step s).1
    simp only [after, history, List.countP_cons]
    omega

/-- How often a count said of a token that it was the last. -/
theorem lasts_after (l : Ledger) (ss : List Step) (c : String) :
    (l.history ss).countP (Entry.lasts c) + positive ((l.after ss).counts.get? c) =
      positive (l.counts.get? c) + (l.history ss).countP (Entry.creates c) +
        (l.history ss).countP (Entry.revives c) := by
  induction ss generalizing l with
  | nil => exact Nat.zero_add _
  | cons s ss ih =>
    have hstep := ((step_move l s).turn c).last_eq
    have hrest := ih (l.step s).1
    simp only [after, history, List.countP_cons]
    omega

/-- A count is made once. -/
theorem creates_after (l : Ledger) (ss : List Step) (c : String) :
    ((l.after ss).counts.get? c).toList.length =
      (l.counts.get? c).toList.length + (l.history ss).countP (Entry.creates c) := by
  induction ss generalizing l with
  | nil => rfl
  | cons s ss ih =>
    have hstep := ((step_move l s).turn c).made_eq
    have hrest := ih (l.step s).1
    simp only [after, history, List.countP_cons]
    omega

/-! ### The accounts -/

/-- Too many tokens are handed to a count if and only if one is handed to it at zero. -/
theorem underflow_iff : (l.step s).2 = .fault .underflow ↔
    ∃ c k t, s = .release c k ∧ l.counts.get? c = some ⟨0⟩ ∧ l.tokens.get? k = some t := by
  constructor
  · intro hr
    have hm := step_move l s
    rw [hr] at hm
    generalize (l.step s).1 = l' at hm
    cases hm with
    | refuse hr => exact absurd hr Bool.false_ne_true
    | stray hc hk => exact ⟨_, _, _, rfl, hc, hk⟩
  · rintro ⟨c, k, t, rfl, hc, hk⟩
    rw [step_stray hc hk]

/-- A token is lost if and only if there is one to lose. -/
theorem tokenDropped_iff : (l.step s).2 = .fault .tokenDropped ↔
    ∃ k t, s = .drop k ∧ l.tokens.get? k = some t := by
  constructor
  · intro hr
    have hm := step_move l s
    rw [hr] at hm
    generalize (l.step s).1 = l' at hm
    cases hm with
    | refuse hr => exact absurd hr Bool.false_ne_true
    | lose hk => exact ⟨_, _, rfl, hk⟩
  · rintro ⟨k, t, rfl, hk⟩
    rw [step_lose hk]

theorem counts_of_fault {f : CountFault} (hr : (l.step s).2 = .fault f) :
    (l.step s).1.counts = l.counts := by
  have hm := step_move l s
  rw [hr] at hm
  exact hm.counts_eq

/-- What the counts of a ledger and its tokens have to do with what was done so far. -/
structure Accounts (past : List Entry) (l : Ledger) : Prop where
  /-- Together the counts tell the tokens that there are, that were lost, and that were handed
  to a count of zero. -/
  total_eq : l.total = l.tokens.length + past.countP Entry.loses + past.countP Entry.strays
  /-- Each began at one, and tells what it registered since, less the tokens that it took. -/
  owners_eq : ∀ c n, l.counts.get? c = some n →
    n.owners + past.countP (Entry.releases c) = 1 + past.countP (Entry.acquires c)
  /-- It said of a token that it was the last each time that it came up from zero, or was made,
  but for the last time if it is above zero now. -/
  lasts_eq : ∀ c n, l.counts.get? c = some n →
    past.countP (Entry.lasts c) + (if 0 < n.owners then 1 else 0) =
      past.countP (Entry.creates c) + past.countP (Entry.revives c)
  /-- It was made once. -/
  creates_eq : ∀ c n, l.counts.get? c = some n → past.countP (Entry.creates c) = 1
  /-- A token is lost when it is dropped, and one too many when a count of zero is handed it. -/
  loses_iff : ∀ e ∈ past, e.loses ↔ ∃ k t, e.step = .drop k ∧ e.found.tokens.get? k = some t
  strays_iff : ∀ e ∈ past, e.strays ↔ ∃ c k t, e.step = .release c k ∧
    e.found.counts.get? c = some ⟨0⟩ ∧ e.found.tokens.get? k = some t
  /-- Both are faults, and these change no count. -/
  fault_counts : ∀ e ∈ past, ∀ f, e.reply = .fault f → e.left.counts = e.found.counts

/-- **Tokens are conserved.** Whatever is done with counts and tokens, to whichever count a token
is handed and however many are lost, at every moment the accounts are right. -/
theorem tokens_conserved (ss : List Step) :
    empty.run ss = ((empty.history ss).map fun e => (e.reply, e.left)) ∧
      Accounts (empty.history ss) (empty.after ss) := by
  have hnone : ∀ c, empty.counts.get? c = none := fun _ => rfl
  have hcreates : ∀ c n, (empty.after ss).counts.get? c = some n →
      (empty.history ss).countP (Entry.creates c) = 1 := by
    intro c n hn
    have hmade := creates_after empty ss c
    rw [hn, hnone] at hmade
    simpa using hmade.symm
  refine ⟨run_eq_history ss empty, ?_, ?_, ?_, hcreates, ?_, ?_, ?_⟩
  · have htotal := total_after named_empty ss
    have hzero : empty.total = 0 := rfl
    have hlen : empty.tokens.length = 0 := rfl
    omega
  · intro c n hn
    have htold := told_after empty ss c
    have hone := hcreates c n hn
    rw [hn, hnone] at htold
    simp only [told, Option.elim_some, Option.elim_none] at htold
    omega
  · intro c n hn
    have hlasts := lasts_after empty ss c
    have hpos : positive (some n) = if 0 < n.owners then 1 else 0 := rfl
    have hzero : positive none = 0 := rfl
    rw [hn, hnone] at hlasts
    omega
  · intro e he
    rw [← tokenDropped_iff, ← mem_history he]
    exact decide_eq_true_iff
  · intro e he
    rw [← underflow_iff, ← mem_history he]
    exact decide_eq_true_iff
  · intro e he f hf
    exact counts_of_fault (f := f) (mem_history he ▸ hf)

/-- A count takes the token of another, which then hands it one too many; it comes up from zero
again, and that token is lost. -/
def mixedUp : List Step :=
  [.create "a" "k0", .create "b" "k1", .release "a" "k0", .release "a" "k1", .acquire "a" "k2",
    .release "b" "k2", .acquire "b" "k3", .drop "k3"]

theorem mixedUp_accounts :
    Accounts (empty.history mixedUp) (empty.after mixedUp) ∧
      (empty.after mixedUp).total = 2 ∧ (empty.after mixedUp).tokens = [] ∧
      (empty.history mixedUp).countP Entry.loses = 1 ∧
      (empty.history mixedUp).countP Entry.strays = 1 ∧
      (empty.history mixedUp).countP (Entry.lasts "a") = 1 ∧
      (empty.history mixedUp).countP (Entry.revives "a") = 1 :=
  ⟨(tokens_conserved mixedUp).2, by decide⟩

end Custody.Ledger
