/-
# Tokens are linear

The books of a heap are what its log tells of tokens, its counts, and how many
tokens were issued. Whatever happens to a heap, the books and the owners that there
are go through deals: nothing changes but the order of the owners, or a new cell
issues its first token, or a live cell issues one more, or an owner hands its token
back. So every token that was minted is carried by one owner or was handed back, and
not both, and neither of them twice.

Key definitions: `Books`, `Deal`, `Linear`.
Key theorems: `Edit.deal`, `Deal.linear`, `Moment.linear`.
-/
import Mathlib.Data.List.Nodup
import Custody.Proofs.Heap.Census

namespace Custody.Heap

variable {α : Type} {n : Nat} {m : Machine α} {h : Heap α} {os os' : List Owner}

/-! ### The books -/

/-- What the log tells of tokens. -/
inductive Entry where
  | minted (t : Token CellId)
  | returned (c : CellId) (t : Token CellId)
  | fault (c : CellId) (f : Fault)
  deriving DecidableEq

/-- The entry that an event is, if it is one. -/
def Event.entry? : Event α → Option Entry
  | .issued t => some (.minted t)
  | .returned c t => some (.returned c t)
  | .fault c f => some (.fault c f)
  | _ => none

/-- The entries of the log, newest first. -/
def entries (h : Heap α) : List Entry :=
  h.log.filterMap Event.entry?

/-- The tokens that counts issued, the last first. -/
def mints (es : List Entry) : List (Token CellId) :=
  es.filterMap fun
    | .minted t => some t
    | _ => none

/-- The tokens that were handed to a count, each with the cell of the count, the last first. -/
def returns (es : List Entry) : List (CellId × Token CellId) :=
  es.filterMap fun
    | .returned c t => some (c, t)
    | _ => none

/-- What a heap's log tells of tokens, its counts, and how many tokens were issued. -/
structure Books where
  entries : List Entry
  counts : List Count
  issued : Nat

/-- The books of a heap. -/
def books (h : Heap α) : Books :=
  ⟨h.entries, h.cells.map (·.count), h.issued⟩

/-- The owner that is registered next, of that cell. -/
def Books.next (b : Books) (c : CellId) : Owner :=
  ⟨c, ⟨c, b.issued⟩⟩

/-- What becomes of the books and the owners. -/
inductive Deal (b : Books) (os : List Owner) : Books → List Owner → Prop
  /-- No more than the order of the owners changes. -/
  | idle {os' : List Owner} : os'.Perm os → Deal b os b os'
  /-- A new cell, and its first owner. -/
  | create {os' : List Owner} : os'.Perm (b.next b.counts.length :: os) →
      Deal b os ⟨.minted (b.next b.counts.length).token :: b.entries, b.counts ++ [.first],
        b.issued + 1⟩ os'
  /-- One owner more of a cell that has owners. -/
  | acquire {os' : List Owner} {c : CellId} {k : Count} : b.counts[c]? = some k → 0 < k.owners →
      os'.Perm (b.next c :: os) →
      Deal b os ⟨.minted (b.next c).token :: b.entries, b.counts.set c k.acquire, b.issued + 1⟩ os'
  /-- An owner hands its token to the count of its cell. -/
  | signOff {os' : List Owner} {o : Owner} {k : Nat} : b.counts[o.cell]? = some ⟨k + 1⟩ →
      os.Perm (o :: os') →
      Deal b os ⟨.returned o.cell o.token :: b.entries, b.counts.set o.cell ⟨k⟩, b.issued⟩ os'

/-! ### What happens to the books -/

theorem books_note {e : Event α} (he : e.entry? = none) (h : Heap α) :
    (h.note e).books = h.books := by
  simp [books, entries, note, he]

theorem Event.entry?_of_isRemark {e : Event α} (he : e.isRemark = true) : e.entry? = none := by
  cases e <;> first | rfl | simp [Event.isRemark] at he

/-- A change of a cell that keeps its count. -/
theorem books_modifyCell (h : Heap α) (c : CellId) {f : Cell α → Cell α}
    (hf : ∀ cell, (f cell).count = cell.count) : (h.modifyCell c f).books = h.books := by
  have hcounts : (h.cells.modify c f).map (·.count) = h.cells.map (·.count) := by
    apply List.ext_getElem? fun j => ?_
    simp only [List.getElem?_map, List.getElem?_modify, Option.map_eq_map, Option.map_map]
    congr 1
    funext cell
    by_cases hj : c = j <;> simp [hj, hf]
  simp only [books, modifyCell, hcounts]
  rfl

@[simp] theorem books_poke (h : Heap α) (p : Place) (x : Option Pointer) :
    (h.poke p x).books = h.books := by
  cases p with
  | var i => rfl
  | inside c hop => exact books_modifyCell h c fun _ => rfl

@[simp] theorem books_setContent (h : Heap α) (c : CellId) (k : Content α) :
    (h.setContent c k).books = h.books :=
  books_modifyCell h c fun _ => rfl

@[simp] theorem books_setLive (h : Heap α) (c : CellId) (v : Value α) :
    (h.setLive c v).books = h.books :=
  books_setContent h c (.live v)

@[simp] theorem books_lend (h : Heap α) (p : Place) : (h.lend p).books = h.books := by
  cases p <;> rfl

@[simp] theorem books_unlend (h : Heap α) (p : Place) : (h.unlend p).books = h.books := by
  cases p <;> rfl

@[simp] theorem books_share (h : Heap α) (p : Place) : (h.share p).books = h.books := by
  cases p <;> rfl

@[simp] theorem books_unshare (h : Heap α) (p : Place) : (h.unshare p).books = h.books := by
  cases p <;> rfl

theorem getElem?_counts {c : CellId} {cell : Cell α} (hc : h.cells[c]? = some cell) :
    h.books.counts[c]? = some (h.count c) := by
  rw [count_of_getElem? hc]
  simp [books, hc]

/-- A change of a cell's count is seen at that count only. -/
theorem counts_modifyCell {c : CellId} {cell : Cell α} (hc : h.cells[c]? = some cell)
    (f : Cell α → Cell α) :
    (h.modifyCell c f).cells.map (·.count) = (h.cells.map (·.count)).set c (f cell).count := by
  have hlt : c < h.cells.length := (List.getElem?_eq_some_iff.mp hc).1
  apply List.ext_getElem? fun j => ?_
  simp only [modifyCell, List.getElem?_map, List.getElem?_modify, List.getElem?_set, List.length_map]
  obtain rfl : h.cells[c] = cell := (List.getElem?_eq_some_iff.mp hc).2
  by_cases hj : c = j
  · subst hj
    simp [hlt]
  · simp [hj]

theorem books_acquire {c : CellId} (hc : h.status c = some .live) :
    (h.acquire c).2.books = ⟨.minted (h.books.next c).token :: h.books.entries,
      h.books.counts.set c (h.count c).acquire, h.books.issued + 1⟩ := by
  obtain ⟨cell, hcell, -⟩ := Option.map_eq_some_iff.mp hc
  have hcounts := counts_modifyCell hcell fun cell => { cell with count := cell.count.acquire }
  rw [count_of_getElem? hcell]
  show Books.mk _ (((h.modifyCell c _).cells).map (·.count)) _ = _
  rw [hcounts]
  rfl

theorem books_allocate (near : Nat) (v : Value α) :
    (h.allocate near v).2.books =
      ⟨.minted (h.books.next h.books.counts.length).token :: h.books.entries,
        h.books.counts ++ [.first], h.books.issued + 1⟩ := by
  simp [books, allocate, entries, Event.entry?, Books.next]

/-- A count above zero is that of a cell. -/
theorem exists_cell_of_count {c : CellId} {k : Nat} (hk : (h.count c).owners = k + 1) :
    ∃ cell, h.cells[c]? = some cell := by
  apply Option.ne_none_iff_exists'.mp
  intro hnone
  simp [count_eq, hnone] at hk

theorem getElem?_counts_of_eq {c : CellId} {k : Nat} (hk : (h.count c).owners = k + 1) :
    h.books.counts[c]? = some ⟨k + 1⟩ := by
  obtain ⟨cell, hcell⟩ := exists_cell_of_count hk
  rw [getElem?_counts hcell, ← hk]

theorem books_signOff {o : Owner} {k : Nat} (hk : (h.count o.cell).owners = k + 1) :
    (h.signOff o).2.books = ⟨.returned o.cell o.token :: h.books.entries,
      h.books.counts.set o.cell ⟨k⟩, h.books.issued⟩ := by
  obtain ⟨cell, hcell⟩ := exists_cell_of_count hk
  have hcounts := counts_modifyCell hcell fun cell => { cell with count := ⟨k⟩ }
  rw [signOff_eq hk]
  show Books.mk _ (((h.modifyCell o.cell _).cells).map (·.count)) _ = _
  rw [hcounts]
  rfl

/-! ### Edits are deals -/

theorem perm_of_countP (hcount : ∀ P : Owner → Bool, os.countP P = os'.countP P) : os.Perm os' :=
  List.perm_iff_count.mpr fun o => hcount (· == o)

/-- An edit after which the books are the same, and the owners are the same in some order. -/
theorem Deal.of_same {d d' : Draft α} (hbooks : d'.heap.books = d.heap.books)
    (hcount : ∀ P : Owner → Bool, d'.owners.countP P = d.owners.countP P) :
    Deal d.heap.books d.owners d'.heap.books d'.owners := by
  rw [hbooks]
  exact .idle (perm_of_countP hcount)

/-- An edit that moves no pointer, and leaves to the tasks the owners that they have. -/
theorem Deal.of_samePointers {h' : Heap α} {hand : List Owner} {ts ts' : List (Task α)}
    (hbooks : h'.books = h.books) (same : SamePointers h h')
    (hts : ts'.flatMap Task.owners = ts.flatMap Task.owners) :
    Deal h.books (Draft.owners ⟨h, hand, ts⟩) h'.books (Draft.owners ⟨h', hand, ts'⟩) := by
  rw [hbooks]
  refine .idle (perm_of_countP fun P => ?_)
  simp only [Draft.owners, same.owners, hts]

theorem owners_filter_isOwed (ts : List (Task α)) :
    (ts.filter Task.isOwed).flatMap Task.owners = ts.flatMap Task.owners := by
  induction ts with
  | nil => rfl
  | cons t ts ih =>
    cases ht : t.isOwed with
    | true => simp [ht, ih]
    | false => simp [ht, ih, Task.owners_of_not_isOwed ht]

/-- **Every edit is a deal.** -/
theorem Edit.deal {d d' : Draft α} (hs : Sound d) (he : Edit d d') :
    Deal d.heap.books d.owners d'.heap.books d'.owners := by
  cases he with
  | reorder hp =>
    refine .of_same rfl fun P => ?_
    simp only [Draft.owners, List.countP_append, hp.countP_eq P]
  | remark he => exact .of_same (books_note (Event.entry?_of_isRemark he) _) fun _ => rfl
  | @poke _ _ _ _ _ x hp _ =>
    refine .of_same (books_poke _ _ _) fun P => ?_
    have := owners_poke P hp x
    simp only [Draft.owners, List.countP_append]
    omega
  | @acquire h hand ts c hc =>
    obtain ⟨cell, hcell, -⟩ := Option.map_eq_some_iff.mp hc
    have hpos : 0 < (h.count c).owners := (hs.alive c).mpr hc
    show Deal _ _ (h.acquire c).2.books _
    rw [books_acquire hc]
    refine .acquire (getElem?_counts hcell) hpos (perm_of_countP fun P => ?_)
    have hsame := (samePointers_acquire h c).owners
    simp only [Draft.owners, hsame, List.countP_append, List.countP_cons]
    show _ + (_ + if P (h.books.next c) then 1 else 0) + _ = _
    omega
  | @allocate h hand ts near v =>
    show Deal _ _ (h.allocate near v).2.books _
    rw [books_allocate]
    refine .create (perm_of_countP fun P => ?_)
    have hnext : (h.allocate near v).1 = h.books.next h.books.counts.length := by
      simp only [Heap.allocate, books, Books.next, List.length_map]
    have := owners_allocate P h near v
    rw [← hnext]
    simp only [Draft.owners, List.countP_append, List.countP_cons]
    omega
  | @rewrite h _ _ _ c v v' hv heq =>
    refine .of_same (books_setLive _ _ _) fun P => ?_
    have h1 := owners_setLive P hv v'
    have h2 := heq P
    simp only [Draft.owners, List.countP_append] at h2 ⊢
    omega
  | @lend h _ _ p _ _ => exact .of_samePointers (books_lend h p) (samePointers_lend h p) rfl
  | @unlend h _ _ p => exact .of_samePointers (books_unlend h p) (samePointers_unlend h p) rfl
  | @share h _ _ p _ => exact .of_samePointers (books_share h p) (samePointers_share h p) rfl
  | @unshare h _ _ p => exact .of_samePointers (books_unshare h p) (samePointers_unshare h p) rfl
  | postpone _ _ _ =>
    refine .of_same rfl fun P => ?_
    simp only [Draft.owners, List.flatMap_cons, List.countP_append]
    omega
  | pick =>
    refine .of_same rfl fun P => ?_
    simp only [Draft.owners, Task.owners, List.flatMap_cons, List.countP_append]
    omega
  | @skip h _ _ _ ht =>
    exact .of_samePointers rfl (samePointers_refl h) (by simp [Task.owners_of_not_isOwed ht])
  | @giveUp h _ ts => exact .of_samePointers rfl (samePointers_refl h) (owners_filter_isOwed ts)
  | @advance h _ _ _ _ _ _ _ => exact .of_samePointers rfl (samePointers_refl h) rfl
  | @signOff h hand ts o k hk =>
    show Deal _ _ (h.signOff o).2.books _
    rw [books_signOff hk]
    refine .signOff (getElem?_counts_of_eq hk) (perm_of_countP fun P => ?_)
    simp only [Draft.owners, (samePointers_signOff hk).owners, Task.owners, List.flatMap_cons,
      List.countP_append, List.countP_cons, List.countP_nil]
    omega
  | @destroy h hand ts o v hk hv =>
    have hbooks : (h.condemn o v).books = (h.signOff o).2.books :=
      (books_note rfl _).trans (books_setContent _ _ _)
    show Deal _ _ (h.condemn o v).books _
    rw [hbooks, books_signOff hk]
    refine .signOff (getElem?_counts_of_eq hk) (perm_of_countP fun P => ?_)
    simp only [Draft.owners, owners_condemn P hk hv, Task.owners, List.flatMap_cons,
      List.countP_append, List.countP_cons, List.countP_nil]
    omega
  | @strip h hand ts c cell v v' o hc hcon hp =>
    refine .of_same (books_setContent _ _ _) fun P => ?_
    have hset := owners_setContent P hc (.dying v')
    have hsplit : v.owners.countP P = o.toList.countP P + v'.owners.countP P := by
      rw [← List.countP_append]
      cases o <;> simp [Value.owners, hp]
    rw [hcon, Content.owners_dying, Content.owners_dying] at hset
    simp only [Draft.owners, List.countP_append]
    omega
  | @free h hand ts c cell v hc hcon hp =>
    refine .of_same ((books_note rfl _).trans (books_setContent _ _ _)) fun P => ?_
    have hset := owners_setContent P hc .freed
    have hnone : v.owners = [] := by simp [Value.owners, hp]
    rw [hcon, Content.owners_dying, Content.owners_freed, hnone] at hset
    simp only [Draft.owners, Task.owners, List.flatMap_cons, List.countP_append, List.nil_append]
    simp only [List.countP_nil, Nat.add_zero] at hset
    show (h.setContent c .freed).owners.countP P + _ + _ = _
    rw [hset]

/-! ### Tokens are linear -/

@[simp] theorem mints_minted (t : Token CellId) (es : List Entry) :
    mints (.minted t :: es) = t :: mints es := rfl

/-- What the books say of the owners that there are. -/
structure Linear (b : Books) (os : List Owner) : Prop where
  /-- Each owner carries a token of its own cell's count. -/
  own : ∀ o ∈ os, o.token.issuer = o.cell
  old : ∀ t ∈ mints b.entries, t.serial < b.issued
  serials : ((mints b.entries).map (·.serial)).Nodup
  /-- The tokens that were minted are, each of them once, those that owners carry and those
  that were handed back. -/
  kept : (mints b.entries).Perm (os.map (·.token) ++ (returns b.entries).map (·.2))
  /-- Each token was handed to the count that minted it. -/
  home : ∀ r ∈ returns b.entries, r.2.issuer = r.1
  issuers : ∀ c, (∃ t ∈ mints b.entries, t.issuer = c) ↔ c < b.counts.length
  faultless : ∀ c f, .fault c f ∉ b.entries

variable {b b' : Books}

theorem linear_empty : Linear ⟨[], [], 0⟩ [] where
  own := by simp
  old := by simp [mints]
  serials := .nil
  kept := .nil
  home := by simp [returns]
  issuers := by simp [mints]
  faultless := by simp

/-- A count issues a token to one owner more. -/
theorem Linear.mint (hl : Linear b os) {c : CellId} {counts : List Count}
    (hos : os'.Perm (b.next c :: os))
    (hcounts : ∀ c', c' < counts.length ↔ c' = c ∨ c' < b.counts.length) :
    Linear ⟨.minted (b.next c).token :: b.entries, counts, b.issued + 1⟩ os' where
  own o ho := by
    rcases List.mem_cons.mp (hos.mem_iff.mp ho) with rfl | ho
    · rfl
    · exact hl.own o ho
  old t ht := by
    rcases List.mem_cons.mp ht with rfl | ht
    · exact Nat.lt_succ_self b.issued
    · exact Nat.lt_succ_of_lt (hl.old t ht)
  serials := by
    refine List.nodup_cons.mpr ⟨fun hm => ?_, hl.serials⟩
    obtain ⟨t, ht, hserial⟩ := List.mem_map.mp hm
    have hold := hl.old t ht
    rw [hserial] at hold
    exact Nat.lt_irrefl b.issued hold
  kept := ((hl.kept.cons (b.next c).token).trans ((hos.map (·.token)).symm.append_right _))
  home := hl.home
  issuers c' := by
    rw [hcounts, ← hl.issuers c']
    simp [Books.next, eq_comm]
  faultless c' f := by simpa using hl.faultless c' f

/-- An owner hands its token to the count of its cell. -/
theorem Linear.handBack (hl : Linear b os) {o : Owner} (hos : os.Perm (o :: os'))
    {counts : List Count} (hcounts : counts.length = b.counts.length) :
    Linear ⟨.returned o.cell o.token :: b.entries, counts, b.issued⟩ os' where
  own o' ho' := hl.own o' (hos.mem_iff.mpr (List.mem_cons_of_mem _ ho'))
  old := hl.old
  serials := hl.serials
  kept := hl.kept.trans (((hos.map (·.token)).append_right _).trans List.perm_middle.symm)
  home r hr := by
    rcases List.mem_cons.mp hr with rfl | hr
    · exact hl.own o (hos.mem_iff.mpr List.mem_cons_self)
    · exact hl.home r hr
  issuers c := by
    rw [hcounts]
    exact hl.issuers c
  faultless c f := by simpa using hl.faultless c f

/-- **Every deal keeps tokens linear.** -/
theorem Deal.linear (hd : Deal b os b' os') (hl : Linear b os) : Linear b' os' := by
  cases hd with
  | idle hos =>
    exact ⟨fun o ho => hl.own o (hos.mem_iff.mp ho), hl.old, hl.serials,
      hl.kept.trans ((hos.map (·.token)).symm.append_right _), hl.home, hl.issuers, hl.faultless⟩
  | create hos =>
    refine hl.mint hos fun c' => ?_
    simp only [List.length_append, List.length_singleton]
    omega
  | @acquire _ c k hk _ hos =>
    have hlt : c < b.counts.length := (List.getElem?_eq_some_iff.mp hk).1
    refine hl.mint hos fun c' => ?_
    rw [List.length_set]
    exact ⟨.inr, fun hc => hc.elim (fun e => e ▸ hlt) id⟩
  | signOff _ hos => exact hl.handBack hos List.length_set

/-- Tokens that were minted remain so. -/
theorem Deal.mem_mints (hd : Deal b os b' os') {t : Token CellId} (ht : t ∈ mints b.entries) :
    t ∈ mints b'.entries := by
  cases hd with
  | idle _ => exact ht
  | create _ => exact List.mem_cons_of_mem _ ht
  | acquire _ _ _ => exact List.mem_cons_of_mem _ ht
  | signOff _ _ => exact ht

theorem Edits.mem_mints {d d' : Draft α} (he : Edits d d') (hs : Sound d) {t : Token CellId}
    (ht : t ∈ mints d.heap.books.entries) : t ∈ mints d'.heap.books.entries :=
  he.induct (Q := fun d => t ∈ mints d.heap.books.entries) (fun hs he => (he.deal hs).mem_mints) hs ht

/-- The books of a moment and its owners. -/
theorem Moment.linear (hm : Moment n m) : Linear m.heap.books m.owners := by
  rw [← m.owners_draft]
  refine hm.induct (Q := fun d => Linear d.heap.books d.owners) ?_ fun hs he hl =>
    (he.deal hs).linear hl
  have howners : (⟨.empty n, [], []⟩ : Draft α).owners = [] := by
    simp [Draft.owners, owners, Heap.empty, List.flatMap_replicate, Variable.fresh]
  rw [howners]
  exact linear_empty

namespace Linear

variable (hl : Linear b os)
include hl

theorem minted_nodup : (mints b.entries).Nodup := hl.serials.of_map

theorem append_nodup : (os.map (·.token) ++ (returns b.entries).map (·.2)).Nodup :=
  hl.kept.nodup_iff.mp hl.minted_nodup

/-- No two owners carry one token. -/
theorem carried_nodup : (os.map (·.token)).Nodup :=
  hl.append_nodup.of_append_left

/-- No token is handed back twice. -/
theorem returned_nodup : ((returns b.entries).map (·.2)).Nodup :=
  hl.append_nodup.of_append_right

theorem owners_nodup : os.Nodup := hl.carried_nodup.of_map

theorem mem_mints_iff {t : Token CellId} :
    t ∈ mints b.entries ↔ (∃ o ∈ os, o.token = t) ∨ ∃ r ∈ returns b.entries, r.2 = t := by
  rw [hl.kept.mem_iff]
  simp

/-- An owner is known by its token. -/
theorem eq_of_token {o o' : Owner} (ho : o ∈ os) (ho' : o' ∈ os) (ht : o.token = o'.token) :
    o = o' :=
  List.inj_on_of_nodup_map hl.carried_nodup ho ho' ht

theorem eq_of_serial {o o' : Owner} (ho : o ∈ os) (ho' : o' ∈ os)
    (hs : o.token.serial = o'.token.serial) : o = o' := by
  have hmint : ∀ o ∈ os, o.token ∈ mints b.entries := fun o ho =>
    hl.mem_mints_iff.mpr (.inl ⟨o, ho, rfl⟩)
  exact hl.eq_of_token ho ho' (List.inj_on_of_nodup_map hl.serials (hmint o ho) (hmint o' ho') hs)

/-- A token that an owner carries was not handed back. -/
theorem not_returned {o : Owner} (ho : o ∈ os) : o.token ∉ (returns b.entries).map (·.2) :=
  List.disjoint_of_nodup_append hl.append_nodup (List.mem_map.mpr ⟨o, ho, rfl⟩)

theorem serial_lt {o : Owner} (ho : o ∈ os) : o.token.serial < b.issued :=
  hl.old _ (hl.mem_mints_iff.mpr (.inl ⟨o, ho, rfl⟩))

end Linear

end Custody.Heap
