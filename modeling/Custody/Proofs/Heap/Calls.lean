/-
# The calls to counts and tokens

What a run asks of its counts and tokens is read off the log of its heap, as steps of
a ledger: the first token that a count issues comes with the count, each other one
is acquired, and each that is handed back is released. A token that was minted and
that no owner carries, and that was not handed back, would be lost. The ledger
that these steps make agrees with the heap at every moment, the steps obey the
discipline of tokens, and none is lost; so nothing ever goes wrong with them.

Key definitions: `Machine.calls`, `Tally`.
Key theorems: `Deal.told`, `Moment.told`, `Moment.tokens_linear`.
-/
import Custody.Proofs.Count.Discipline
import Custody.Proofs.Heap.Handback

namespace Custody.Heap

variable {α : Type} {n : Nat} {m : Machine α} {h : Heap α} {b b' : Books} {os os' : List Owner}

/-! ### The calls -/

/-- The step by which a count issues a token, after those entries: it comes with the count if
it is the first. -/
def issueCall (older : List Entry) (t : Token CellId) : Ledger.Step :=
  if ∃ t' ∈ mints older, t'.issuer = t.issuer then .acquire t.issuer.repr t.serial.repr
  else .create t.issuer.repr t.serial.repr

/-- The steps of a ledger that the entries tell of, the first one first. -/
def callsOf : List Entry → List Ledger.Step
  | [] => []
  | .minted t :: older => callsOf older ++ [issueCall older t]
  | .returned c t :: older => callsOf older ++ [.release c.repr t.serial.repr]
  | .fault _ _ :: older => callsOf older

/-- The tokens that were minted, and that no owner carries, and that were not handed back. -/
def Machine.lost (m : Machine α) : List (Token CellId) :=
  (mints m.heap.entries).filter fun t =>
    t ∉ m.owners.map (·.token) && t ∉ m.heap.returned.map (·.2)

/-- The steps of a ledger that a run asked for up to a moment. -/
def Machine.calls (m : Machine α) : List Ledger.Step :=
  callsOf m.heap.entries ++ m.lost.map fun t => .drop t.serial.repr

/-! ### The ledger of the calls -/

/-- The digits of numbers tell them apart. -/
theorem repr_eq_iff {k k' : Nat} : k.repr = k'.repr ↔ k = k' := by
  constructor
  · intro heq
    rw [← Nat.ofDigitChars_ten_toDigits (n := k), ← Nat.toList_repr, heq, Nat.toList_repr,
      Nat.ofDigitChars_ten_toDigits]
  · intro heq
    rw [heq]

/-- Whether the ledger has the counts of the books, and the tokens that the owners carry. -/
structure Tally (l : Ledger) (b : Books) (os : List Owner) : Prop where
  counts : ∀ c : CellId, l.counts.get? c.repr = b.counts[c]?
  tokens : ∀ k t, l.tokens.get? k = some t ↔
    ∃ o ∈ os, k = o.token.serial.repr ∧ t = ⟨o.cell.repr, o.token.serial⟩
  issued : l.issued = b.issued

variable {l : Ledger}

theorem tally_empty : Tally .empty ⟨[], [], 0⟩ [] where
  counts c := by simp [Ledger.empty, Table.get?]
  tokens k t := by simp [Ledger.empty, Table.get?]
  issued := rfl

theorem Tally.get?_counts (ht : Tally l b os) {c : CellId} {k : Count} (hk : b.counts[c]? = some k) :
    l.counts.get? c.repr = some k :=
  (ht.counts c).trans hk

theorem Tally.get?_token (ht : Tally l b os) {o : Owner} (ho : o ∈ os) :
    l.tokens.get? o.token.serial.repr = some ⟨o.cell.repr, o.token.serial⟩ :=
  (ht.tokens _ _).mpr ⟨o, ho, rfl, rfl⟩

/-- The token that is issued next has a new name. -/
theorem Tally.get?_next (ht : Tally l b os) (hl : Linear b os) :
    l.tokens.get? b.issued.repr = none := by
  apply Option.eq_none_iff_forall_ne_some.mpr
  intro t hsome
  obtain ⟨o, ho, hname, -⟩ := (ht.tokens _ _).mp hsome
  have hlt := hl.serial_lt ho
  rw [← repr_eq_iff.mp hname] at hlt
  exact Nat.lt_irrefl _ hlt

/-- A count issues a token, and another owner carries it. -/
theorem Tally.issue (ht : Tally l b os) {c : CellId} {k : Count} {es : List Entry}
    {counts : List Count} (hcounts : ∀ c', counts[c']? = if c' = c then some k else b.counts[c']?)
    (hos : os'.Perm (b.next c :: os)) (hl : Linear b os) :
    Tally (l.issue c.repr b.issued.repr k) ⟨es, counts, b.issued + 1⟩ os' where
  counts c' := by
    show Table.get? c'.repr (l.counts.put c.repr k) = counts[c']?
    rw [Table.get?_put, hcounts, ht.counts]
    simp only [repr_eq_iff]
  tokens name t := by
    show Table.get? name (l.tokens.put b.issued.repr ⟨c.repr, l.issued⟩) = some t ↔ _
    have hos' : ∀ o, o ∈ os' ↔ o = b.next c ∨ o ∈ os := fun o => by rw [hos.mem_iff, List.mem_cons]
    rw [Table.get?_put]
    by_cases hname : name = b.issued.repr
    · -- the name of the new token is that of no other
      rw [if_pos hname, ht.issued]
      constructor
      · intro he
        exact ⟨b.next c, (hos' _).mpr (.inl rfl), hname, (Option.some.inj he).symm⟩
      · rintro ⟨o, ho, hserial, rfl⟩
        rcases (hos' o).mp ho with rfl | ho
        · rfl
        · have hnew := ht.get?_next hl
          rw [← hname, hserial, ht.get?_token ho] at hnew
          simp at hnew
    · rw [if_neg hname, ht.tokens]
      constructor
      · rintro ⟨o, ho, hserial, rfl⟩
        exact ⟨o, (hos' o).mpr (.inr ho), hserial, rfl⟩
      · rintro ⟨o, ho, hserial, rfl⟩
        rcases (hos' o).mp ho with rfl | ho
        · exact absurd hserial hname
        · exact ⟨o, ho, hserial, rfl⟩
  issued := congrArg (· + 1) ht.issued

/-- An owner hands its token to the count of its cell. -/
theorem Tally.handBack (ht : Tally l b os) {o : Owner} {k : Count} {es : List Entry}
    {counts : List Count}
    (hcounts : ∀ c', counts[c']? = if c' = o.cell then some k else b.counts[c']?)
    (hos : os.Perm (o :: os')) (hl : Linear b os) :
    Tally { l with tokens := l.tokens.erase o.token.serial.repr, counts := l.counts.put o.cell.repr k }
      ⟨es, counts, b.issued⟩ os' where
  counts c' := by
    show Table.get? c'.repr (l.counts.put o.cell.repr k) = counts[c']?
    rw [Table.get?_put, hcounts, ht.counts]
    simp only [repr_eq_iff]
  tokens name t := by
    show Table.get? name (l.tokens.erase o.token.serial.repr) = some t ↔ _
    have hos' : ∀ o', o' ∈ os ↔ o' = o ∨ o' ∈ os' := fun o' => by rw [hos.mem_iff, List.mem_cons]
    have hnew : o ∉ os' := (List.nodup_cons.mp (hos.nodup_iff.mp hl.owners_nodup)).1
    rw [Table.get?_erase]
    by_cases hname : name = o.token.serial.repr
    · rw [if_pos hname]
      refine ⟨fun he => by simp at he, ?_⟩
      rintro ⟨o', ho', hserial, -⟩
      -- two owners do not have the same serial number
      have hmem : o ∈ os := (hos' o).mpr (.inl rfl)
      have hmem' : o' ∈ os := (hos' o').mpr (.inr ho')
      have hsame : o'.token.serial = o.token.serial := repr_eq_iff.mp (hserial.symm.trans hname)
      rw [hl.eq_of_serial hmem' hmem hsame] at ho'
      exact absurd ho' hnew
    · rw [if_neg hname, ht.tokens]
      constructor
      · rintro ⟨o', ho', hserial, rfl⟩
        rcases (hos' o').mp ho' with rfl | ho'
        · exact absurd hserial hname
        · exact ⟨o', ho', hserial, rfl⟩
      · rintro ⟨o', ho', hserial, rfl⟩
        exact ⟨o', (hos' o').mpr (.inr ho'), hserial, rfl⟩
  issued := ht.issued

/-! ### The calls obey the discipline -/

theorem getElem?_counts_append (counts : List Count) (k : Count) (c : Nat) :
    (counts ++ [k])[c]? = if c = counts.length then some k else counts[c]? := by
  by_cases hc : c = counts.length
  · simp [hc]
  · rw [if_neg hc]
    rcases Nat.lt_or_gt_of_ne hc with hlt | hgt
    · exact List.getElem?_append_left hlt
    · rw [List.getElem?_eq_none (Nat.le_of_lt hgt), List.getElem?_eq_none]
      rw [List.length_append, List.length_singleton]
      exact hgt

theorem getElem?_counts_set {counts : List Count} {c : Nat} {k : Count} (hk : counts[c]? = some k)
    (k' : Count) (c' : Nat) : (counts.set c k')[c']? = if c' = c then some k' else counts[c']? := by
  by_cases hc : c' = c
  · subst hc
    rw [if_pos rfl, List.getElem?_set_self (List.getElem?_eq_some_iff.mp hk).1]
  · rw [if_neg hc, List.getElem?_set_ne (Ne.symm hc)]

/-- What the entries of the books make of a ledger: they obey the discipline, and the ledger has
what the books and the owners have. -/
structure Told (b : Books) (os : List Owner) : Prop where
  obeys : Ledger.empty.Obeys (callsOf b.entries)
  tally : Tally (Ledger.empty.after (callsOf b.entries)) b os

/-- One call more. -/
theorem Told.snoc (ht : Told b os) {s : Ledger.Step}
    (hcalls : callsOf b'.entries = callsOf b.entries ++ [s])
    (hallows : (Ledger.empty.after (callsOf b.entries)).Allows s)
    (htally : Tally ((Ledger.empty.after (callsOf b.entries)).step s).1 b' os') : Told b' os' := by
  refine ⟨?_, ?_⟩
  · rw [hcalls, Ledger.obeys_append]
    exact ⟨ht.obeys, hallows, trivial⟩
  · rw [hcalls, Ledger.after_append]
    exact htally

/-- **Every deal is a call that the discipline allows,** and the ledger goes on to agree. -/
theorem Deal.told (hd : Deal b os b' os') (hl : Linear b os) (ht : Told b os) : Told b' os' := by
  have htally := ht.tally
  cases hd with
  | idle hos =>
    refine ⟨ht.obeys, htally.counts, fun name t => ?_, htally.issued⟩
    rw [htally.tokens]
    simp only [hos.mem_iff]
  | create hos =>
    have hcall : issueCall b.entries (b.next b.counts.length).token =
        .create b.counts.length.repr b.issued.repr := by
      refine if_neg fun hex => ?_
      exact Nat.lt_irrefl _ ((hl.issuers b.counts.length).mp hex)
    have hcount : (Ledger.empty.after (callsOf b.entries)).counts.get? b.counts.length.repr = none :=
      (htally.counts _).trans (List.getElem?_eq_none (Nat.le_refl _))
    have hname := htally.get?_next hl
    refine ht.snoc (congrArg (fun s => callsOf b.entries ++ [s]) hcall) ⟨hcount, hname⟩ ?_
    simp only [Ledger.step, Table.has, hcount, hname, Option.isSome_none, Bool.or_self,
      Bool.false_eq_true, if_false]
    exact htally.issue (fun c' => getElem?_counts_append b.counts .first c') hos hl
  | @acquire _ c k hk hpos hos =>
    have hcall : issueCall b.entries (b.next c).token = .acquire c.repr b.issued.repr := by
      refine if_pos ((hl.issuers c).mpr ?_)
      exact (List.getElem?_eq_some_iff.mp hk).1
    have hcount := htally.get?_counts hk
    have hname := htally.get?_next hl
    refine ht.snoc (congrArg (fun s => callsOf b.entries ++ [s]) hcall) ⟨⟨k, hcount, hpos⟩, hname⟩ ?_
    simp only [Ledger.step, Table.has, hcount, hname, Option.isSome_none, Bool.false_eq_true, if_false]
    exact htally.issue (fun c' => getElem?_counts_set hk k.acquire c') hos hl
  | @signOff _ o k hk hos =>
    have hmem : o ∈ os := hos.mem_iff.mpr List.mem_cons_self
    have hcount := htally.get?_counts hk
    have htoken := htally.get?_token hmem
    refine ht.snoc rfl ⟨_, htoken, rfl⟩ ?_
    simp only [Ledger.step, hcount, htoken, Count.release?]
    exact htally.handBack (fun c' => getElem?_counts_set hk ⟨k⟩ c') hos hl

theorem Moment.told (hm : Moment n m) : Told m.heap.books m.owners := by
  have hboth : Linear m.draft.heap.books m.draft.owners ∧ Told m.draft.heap.books m.draft.owners := by
    refine hm.induct (Q := fun d => Linear d.heap.books d.owners ∧ Told d.heap.books d.owners) ?_
      fun hs he hq => ⟨(he.deal hs).linear hq.1, (he.deal hs).told hq.1 hq.2⟩
    have howners : (⟨.empty n, [], []⟩ : Draft α).owners = [] := by
      simp [Draft.owners, owners, Heap.empty, List.flatMap_replicate, Variable.fresh]
    rw [howners]
    exact ⟨linear_empty, trivial, tally_empty⟩
  rw [← m.owners_draft]
  exact hboth.2

/-- No token is lost. -/
theorem Moment.lost_eq_nil (hm : Moment n m) : m.lost = [] := by
  apply List.filter_eq_nil_iff.mpr
  intro t ht
  rcases hm.linear.mem_mints_iff.mp ht with ⟨o, ho, rfl⟩ | ⟨r, hr, rfl⟩
  · have : o.token ∈ m.owners.map (·.token) := List.mem_map.mpr ⟨o, ho, rfl⟩
    simp [this]
  · have : r.2 ∈ m.heap.returned.map (·.2) := List.mem_map.mpr ⟨r, hr, rfl⟩
    simp [this]

theorem Moment.calls_eq (hm : Moment n m) : m.calls = callsOf m.heap.entries := by
  rw [Machine.calls, hm.lost_eq_nil, List.map_nil, List.append_nil]

theorem Moment.not_fault_mem_log (hm : Moment n m) (c : CellId) (f : Fault) :
    .fault c f ∉ m.heap.log := by
  intro hmem
  exact hm.linear.faultless c f (List.mem_filterMap.mpr ⟨_, hmem, rfl⟩)

/-- **Tokens are linear.** At every moment each owner carries a token that its own cell's count
minted and that was not handed back, and no two owners carry the same. Each token was minted
once and is handed back at most once, to the count that minted it, and until then an owner
carries it. It is handed back exactly when its owner's turn to sign off has come. An owner
that was stored is to sign off exactly if it is stored no more, and that happens only to the
pointer that an act drops, clears, gives another target or puts another in place of, or to the
next one of a dying value. It does happen if the act is done, unless the pointer keeps its
target or is moved. An act that makes neither a pointer nor a copy leaves the books alone, and
a pointer that is moved or converted keeps its token. The calls to counts and tokens of the whole
run obey the discipline, so only a count that has owners is asked for one more; the ledger they
make has the counts and the tokens of the heap; and none of them meets a fault. -/
theorem Moment.tokens_linear (hm : Moment n m) :
    ((m.owners.map (·.token)).Nodup ∧ ∀ o ∈ m.owners, o.token.issuer = o.cell ∧
      o.token ∈ mints m.heap.entries ∧ o.token ∉ m.heap.returned.map (·.2)) ∧
    ((mints m.heap.entries).Nodup ∧ (m.heap.returned.map (·.2)).Nodup ∧
      (∀ r ∈ m.heap.returned, r.2 ∈ mints m.heap.entries ∧ r.2.issuer = r.1) ∧
      ∀ t ∈ mints m.heap.entries, t ∉ m.heap.returned.map (·.2) → t ∈ m.owners.map (·.token)) ∧
    (Settles m m.ousted m.step ∧
      (∀ o, .release o ∈ m.tasks → o.token ∈ m.settle.heap.returned.map (·.2)) ∧
      (m.tasks = [] → ∀ op, Settles m (m.heap.oustedBy op) (.start m.heap op) ∧
        (m.heap.operate op).Tidy m.heap (m.heap.oustedBy op) op.mints (m.heap.KeepsBy op))) ∧
    (∀ self (a : Act α),
      (m.heap.perform self a).Tidy m.heap (m.heap.ousted self a) a.mints (m.heap.Keeps self a) ∧
      ∀ src dst, a.hands = some (src, dst) → (m.heap.perform self a).Hands m.heap self src dst) ∧
    Ledger.empty.Obeys m.calls ∧ Tally (Ledger.empty.after m.calls) m.heap.books m.owners ∧
    (∀ r ∈ Ledger.empty.run m.calls, ∀ f, r.1 ≠ .fault f) ∧ ∀ c f, .fault c f ∉ m.heap.log := by
  have hl := hm.linear
  have hminted : ∀ o ∈ m.owners, o.token ∈ mints m.heap.entries := fun o ho =>
    hl.mem_mints_iff.mpr (.inl ⟨o, ho, rfl⟩)
  have hobeys : Ledger.empty.Obeys m.calls := by
    rw [hm.calls_eq]
    exact hm.told.obeys
  refine ⟨⟨hl.carried_nodup, fun o ho => ⟨hl.own o ho, hminted o ho, hl.not_returned ho⟩⟩,
    ⟨hl.minted_nodup, hl.returned_nodup, fun r hr => ⟨?_, hl.home r hr⟩, fun t ht hnot => ?_⟩,
    ⟨hm.settles_step, fun o ho => hm.returned_of_release ho, fun hts op => ?_⟩,
    fun self a => ⟨perform_tidy m.heap self a, fun src dst => perform_hands m.heap self⟩,
    hobeys, ?_, fun r hr => (hobeys.answered Ledger.balanced_empty r hr).1.ne_fault,
    hm.not_fault_mem_log⟩
  · exact hl.mem_mints_iff.mpr (.inr ⟨r, hr, rfl⟩)
  · rcases hl.mem_mints_iff.mp ht with ⟨o, ho, rfl⟩ | ⟨r, hr, rfl⟩
    · exact List.mem_map.mpr ⟨o, ho, rfl⟩
    · exact absurd (List.mem_map.mpr ⟨r, hr, rfl⟩) hnot
  · obtain ⟨h, ts⟩ := m
    obtain rfl : ts = [] := hts
    exact ⟨hm.settles_start op, operate_tidy h op⟩
  · rw [hm.calls_eq]
    exact hm.told.tally

/-- In the midst of the rescue the copy has a token of its own, and the one that was in the
field is handed back next. -/
theorem midway_tokens : midway.calls = [.create "0" "0", .acquire "0" "1", .create "1" "2",
      .release "1" "2", .acquire "0" "3"] ∧
    midway.tasks.head? = some (.release ⟨0, ⟨0, 1⟩⟩) ∧
    (⟨0, 1⟩ : Token CellId) ∈ midway.step.heap.returned.map (·.2) ∧
    (⟨0, 3⟩ : Token CellId) ∉ midway.step.heap.returned.map (·.2) ∧
    ∀ r ∈ Ledger.empty.run midway.calls, ∀ f, r.1 ≠ .fault f := by
  have hall := Moment.tokens_linear midway_moment
  have hturn : midway.tasks.head? = some (.release ⟨0, ⟨0, 1⟩⟩) := rfl
  have hback := hall.2.2.1.1.back
  refine ⟨by decide, hturn, ?_, ?_, hall.2.2.2.2.2.2.1⟩
  · exact (hback ⟨0, ⟨0, 1⟩⟩ (by decide)).mpr hturn
  · intro hmem
    have := (hback ⟨0, ⟨0, 3⟩⟩ (by decide)).mp hmem
    rw [hturn] at this
    simp at this

end Custody.Heap
