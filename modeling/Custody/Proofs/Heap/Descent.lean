/-
# Where the owners of a heap come from

An owner is made together with its cell, or is a copy of an owner that there was. A chronicle
of a run says of each owner, in the order in which they were registered, how it came about;
the run does not read it. A pointer that is moved or converted remains the owner that it is.
The cell of an owner is the mark of its make: whoever copies an owner copies its cell, and
each cell is made once. So two owners have the same target if and only if they are of the
same make.

Key definitions: `Machine.copied?`, `Chronicle`, `Kindred`.
Key theorems: `step_brings`, `Moment.exists_chronicle`, `Chronicle.kindred_iff`.
-/
import Custody.Proofs.Descent
import Custody.Proofs.Heap.Handover

namespace Custody.Heap

variable {α : Type} {n : Nat} {m : Machine α} {h h' h₁ : Heap α} {self : Option CellId}
  {copied : Option Owner} {B : Births}

/-! ### What is copied -/

/-- The owner that the pointer at the end of a path is. -/
def found? (h : Heap α) (self : Option CellId) (r : Ref) (path : List Hop) : Option Owner :=
  match h.find self r path with
  | .error _ => none
  | .ok (_, _, q) => q.owner?

/-- The owner that an act copies, if it copies one at once. -/
def copied? (h : Heap α) (self : Option CellId) : Act α → Option Owner
  | .clone src path _ => h.found? self src path
  | .assign _ src path => h.found? self src path
  | .advance dst path => h.found? self dst path
  | .replace _ src path => h.found? self src path
  | _ => none

/-- The owner that an operation of the caller copies at once. -/
def copiedBy? (h : Heap α) : Op α → Option Owner
  | .act a => h.copied? none a
  | .relink _ _ _ _ => none

/-- The owner that the next step copies. -/
def Machine.copied? (m : Machine α) : Option Owner :=
  match m.tasks with
  | .adopt _ src :: _ => (m.heap.pointer? src).bind Pointer.owner?
  | .follow _ o :: _ => some o
  | .script c (a :: _) _ :: _ => m.heap.copied? (some c) a
  | _ => none

theorem found?_of_find {r : Ref} {path : List Hop} {root p : Place} {q : Pointer}
    (hf : h.find self r path = .ok (root, p, q)) : h.found? self r path = q.owner? := by
  simp [found?, hf]

theorem mem_owners_of_found? {r : Ref} {path : List Hop} {o : Owner}
    (ho : h.found? self r path = some o) : o ∈ h.owners := by
  unfold found? at ho
  split at ho
  · simp at ho
  · rename_i root p q hf
    have hq := (find_eq_ok hf).2.2.2
    exact mem_owners_of_peek (pointer?_eq_some hq) (by simp [held, ho])

/-- Whoever is copied is there. -/
theorem mem_owners_of_copied? {a : Act α} {o : Owner} (ho : h.copied? self a = some o) :
    o ∈ h.owners := by
  cases a <;> first | exact mem_owners_of_found? ho | simp [Heap.copied?] at ho

/-! ### What is brought into being -/

/-- What a change registers: no owner, the first of a new cell, or a copy of the owner `copied`. -/
inductive Brings (h : Heap α) (copied : Option Owner) (h' : Heap α) : Prop
  | nothing : h'.issued = h.issued → mints h'.entries = mints h.entries → Brings h copied h'
  | make : copied = none → h'.issued = h.issued + 1 →
      mints h'.entries = ⟨h.cells.length, h.issued⟩ :: mints h.entries → Brings h copied h'
  | copy {o : Owner} : copied = some o → h'.issued = h.issued + 1 →
      mints h'.entries = ⟨o.cell, h.issued⟩ :: mints h.entries → Brings h copied h'

theorem brings_of_books (hbooks : h'.books = h.books) : Brings h copied h' :=
  .nothing (congrArg Books.issued hbooks) (congrArg (fun b : Books => mints b.entries) hbooks)

/-- What leaves the books alone brings no more into being. -/
theorem Brings.of_books (hb : Brings h copied h₁) (hbooks : h'.books = h₁.books) : Brings h copied h' := by
  have hissued : h'.issued = h₁.issued := congrArg Books.issued hbooks
  have hmints : mints h'.entries = mints h₁.entries :=
    congrArg (fun b : Books => mints b.entries) hbooks
  cases hb with
  | nothing hi hm => exact .nothing (hissued.trans hi) (hmints.trans hm)
  | make hs hi hm => exact .make hs (hissued.trans hi) (hmints.trans hm)
  | copy hs hi hm => exact .copy hs (hissued.trans hi) (hmints.trans hm)

theorem brings_acquire (h : Heap α) (o : Owner) : Brings h (some o) (h.acquire o.cell).2 :=
  .copy rfl rfl rfl

theorem brings_duplicate (h : Heap α) (q : Pointer) : Brings h q.owner? (h.duplicate q).2 := by
  unfold duplicate
  cases q.owner? with
  | none => exact brings_of_books rfl
  | some o => exact brings_acquire h o

theorem brings_allocate {near : Nat} {v : Value α} (hbooks : h₁.books = h.books) :
    Brings h none (h₁.allocate near v).2 := by
  have hissued : h₁.issued = h.issued := congrArg Books.issued hbooks
  have hmints : mints h₁.entries = mints h.entries :=
    congrArg (fun b : Books => mints b.entries) hbooks
  have hlength : h₁.cells.length = h.cells.length := by
    simpa [books] using congrArg (fun b : Books => b.counts.length) hbooks
  refine .make rfl (congrArg (· + 1) hissued) ?_
  show (⟨h₁.cells.length, h₁.issued⟩ : Token CellId) :: mints h₁.entries = _
  rw [hissued, hmints, hlength]

/-! ### What acts bring -/

theorem performClone_brings (src : Ref) (path : List Hop) (dst : Ref) :
    Brings h (h.found? self src path) (h.performClone self src path dst).heap := by
  unfold performClone
  split
  · exact brings_of_books rfl
  · exact brings_of_books rfl
  · rename_i q d hfind _
    rw [found?_of_find hfind]
    split
    · exact (brings_duplicate h q).of_books (books_put _ _ _)
    · exact brings_of_books rfl

theorem performAssign_brings (dst src : Ref) (path : List Hop) :
    Brings h (h.found? self src path) (h.performAssign self dst src path).heap := by
  unfold performAssign
  split
  · exact brings_of_books rfl
  · exact brings_of_books rfl
  · rename_i d s p q _ hfind
    split
    · exact brings_of_books rfl
    · split
      · exact brings_of_books rfl
      · split
        · exact brings_of_books rfl
        · exact brings_of_books (by simp)
      · rename_i b _
        rw [found?_of_find hfind]
        split
        · exact brings_of_books rfl
        · exact (brings_acquire h b).of_books (by simp)
      · exact brings_of_books rfl

theorem performAdvance_brings (dst : Ref) (path : List Hop) :
    Brings h (h.found? self dst path) (h.performAdvance self dst path).heap := by
  unfold performAdvance
  split
  · exact brings_of_books rfl
  · exact brings_of_books rfl
  · rename_i d s p q _ hfind
    split
    · exact brings_of_books rfl
    · rename_i a b _ hfind
      split
      · exact brings_of_books rfl
      · split
        · exact brings_of_books (by simp)
        · rename_i o hne
          rw [found?_of_find hfind]
          exact (brings_acquire h o).of_books (by simp)
    · exact brings_of_books rfl

theorem performReplace_brings (dst src : Ref) (path : List Hop) :
    Brings h (h.found? self src path) (h.performReplace self dst src path).heap := by
  unfold performReplace
  split
  · exact brings_of_books rfl
  · exact brings_of_books rfl
  · rename_i d s p q _ hfind
    rw [found?_of_find hfind]
    split
    · exact brings_of_books rfl
    · split
      · exact brings_of_books rfl
      · split
        · exact (brings_duplicate h q).of_books (by simp)
        · exact brings_of_books rfl

theorem performMake_brings (dst : Ref) (kind : Kind) (data : α) (script : List (Act α))
    (fields links : List (Option Ref)) (near : Nat) :
    Brings h none (h.performMake self dst kind data script fields links near).heap := by
  unfold performMake
  split
  · exact brings_of_books rfl
  · exact brings_of_books rfl
  · rename_i d os h₁ _ hgather
    simp only
    split
    · exact (brings_allocate (gather_tidy hgather).1).of_books (books_put _ _ _)
    · exact brings_of_books rfl

/-- **What an act brings into being:** a cell, if it makes one, or a copy of the owner that it
copies, or nothing. -/
theorem perform_brings (h : Heap α) (self : Option CellId) (a : Act α) :
    Brings h (h.copied? self a) (h.perform self a).heap := by
  cases hmints : a.mints with
  | false => exact brings_of_books ((perform_tidy h self a).books hmints)
  | true =>
    cases a with
    | clone src path dst => exact performClone_brings src path dst
    | assign dst src path => exact performAssign_brings dst src path
    | advance dst path => exact performAdvance_brings dst path
    | replace dst src path => exact performReplace_brings dst src path
    | make dst kind data script fields links near =>
      exact performMake_brings dst kind data script fields links near
    | _ => simp [Act.mints] at hmints

theorem operate_brings (h : Heap α) (op : Op α) : Brings h (h.copiedBy? op) (h.operate op).heap := by
  cases op with
  | act a => exact perform_brings h none a
  | relink r path k src =>
    have htidy : (h.performRelink r path k src).Tidy h (h.oustedBy (.relink r path k src)) false True :=
      performRelink_tidy r path k src
    exact brings_of_books (htidy.books rfl)

/-! ### What steps bring -/

/-- Who signs off brings nothing into being. -/
theorem release_brings (o : Owner) (ts : List (Task α)) :
    Brings h none (Machine.release o h ts).heap := by
  have hsign : (h.signOff o).2.issued = h.issued ∧ mints (h.signOff o).2.entries = mints h.entries := by
    unfold signOff
    simp only
    split <;> exact ⟨rfl, rfl⟩
  unfold Machine.release
  split
  · rename_i h' heq
    rw [heq] at hsign
    exact .nothing hsign.1 hsign.2
  · rename_i h' heq
    rw [heq] at hsign
    have hb : Brings h none h' := .nothing hsign.1 hsign.2
    split
    · exact .nothing hsign.1 hsign.2
    · rename_i v _
      exact hb.of_books ((books_note rfl _).trans (books_setContent h' o.cell (.dying v)))

theorem dismantle_brings (c : CellId) (ts : List (Task α)) :
    Brings h none (Machine.dismantle c h ts).heap := by
  apply brings_of_books
  unfold Machine.dismantle
  split
  · exact books_modifyCell _ _ fun _ => rfl
  · exact books_modifyCell _ _ fun _ => rfl
  · exact (books_note rfl _).trans (books_modifyCell _ _ fun _ => rfl)
  · rfl

theorem adopt_brings (dst src : Place) :
    Brings h ((h.pointer? src).bind Pointer.owner?) (Machine.adopt dst src h) := by
  unfold Machine.adopt
  split
  · exact brings_of_books rfl
  · rename_i q hq
    rw [hq]
    exact (brings_duplicate h q).of_books (books_poke _ _ _)

theorem act_brings (c : CellId) (a : Act α) (acts : List (Act α)) (last : Answer α)
    (ts : List (Task α)) : Brings h (h.copied? (some c) a) (Machine.act c a acts last h ts).heap := by
  have hperform := perform_brings h (some c) a
  cases a with
  | skipIf p k => exact brings_of_books rfl
  | giveUpIf p =>
    unfold Machine.act
    simp only
    split
    · exact brings_of_books (books_note rfl h)
    · exact brings_of_books rfl
  | report say => exact brings_of_books (books_note rfl h)
  | _ => exact hperform

/-- **What a step brings into being:** a cell, a copy of the owner that it copies, or nothing. -/
theorem step_brings (m : Machine α) : Brings m.heap m.copied? m.step.heap := by
  obtain ⟨h, ts⟩ := m
  cases ts with
  | nil => exact brings_of_books rfl
  | cons t ts =>
    cases t with
    | release o => exact release_brings o ts
    | adopt dst src => exact adopt_brings dst src
    | follow dst o => exact (brings_acquire h o).of_books (books_poke _ _ _)
    | place dst q => exact brings_of_books (books_poke h dst (some q))
    | unlend p => exact brings_of_books (books_unlend h p)
    | unshare p => exact brings_of_books (books_unshare h p)
    | dismantle c => exact dismantle_brings c ts
    | script c acts last =>
      cases acts with
      | nil => exact brings_of_books rfl
      | cons a acts => exact act_brings c a acts last ts

theorem Moment.mem_of_copied? (hm : Moment n m) {o : Owner} (ho : m.copied? = some o) :
    o ∈ m.owners := by
  have hstored : o ∈ m.heap.owners → o ∈ m.owners := List.mem_append_left _
  obtain ⟨h, ts⟩ := m
  cases ts with
  | nil => simp [Machine.copied?] at ho
  | cons t ts =>
    cases t with
    | adopt dst src =>
      obtain ⟨q, hq, hqo⟩ := Option.bind_eq_some_iff.mp ho
      exact hstored (mem_owners_of_peek (pointer?_eq_some hq) (by simp [held, hqo]))
    | follow dst o' =>
      -- it has yet to sign off
      obtain rfl : o' = o := by simpa [Machine.copied?] using ho
      have hrelease := hm.sound.order.head.follow dst o' rfl
      exact List.mem_append_right _ (List.mem_flatMap.mpr
        ⟨_, List.mem_cons_of_mem _ hrelease, by simp [Task.owners]⟩)
    | script c acts last =>
      cases acts with
      | nil => simp [Machine.copied?] at ho
      | cons a acts => exact hstored (mem_owners_of_copied? ho)
    | _ => simp [Machine.copied?] at ho

/-! ### Chronicles -/

/-- A chronicle goes on: if an owner was registered, it is a copy of `copied`, or was made. -/
def chronicle (B : Births) (h : Heap α) (copied : Option Owner) (h' : Heap α) : Births :=
  if h'.issued = h.issued then B else B ++ [copied.map (·.token.serial)]

/-- The moments of all runs, each with how the owners that were registered came about. -/
inductive Chronicle (n : Nat) : Machine α → Births → Prop
  | empty : Chronicle n ⟨.empty n, []⟩ []
  | operate {h : Heap α} {B : Births} (op : Op α) : Chronicle n ⟨h, []⟩ B →
      Chronicle n (.start h op) (chronicle B h (h.copiedBy? op) (Machine.start h op).heap)
  | step {m : Machine α} {B : Births} : Chronicle n m B →
      Chronicle n m.step (chronicle B m.heap m.copied? m.step.heap)

theorem Chronicle.moment (hc : Chronicle n m B) : Moment n m := by
  induction hc with
  | empty => exact .empty
  | operate op _ ih => exact .operate op ih
  | step _ ih => exact .step ih

/-- Every moment has a chronicle. -/
theorem Moment.exists_chronicle (hm : Moment n m) : ∃ B, Chronicle n m B := by
  induction hm with
  | empty => exact ⟨_, .empty⟩
  | operate op _ ih =>
    obtain ⟨B, hB⟩ := ih
    exact ⟨_, .operate op hB⟩
  | step _ ih =>
    obtain ⟨B, hB⟩ := ih
    exact ⟨_, .step hB⟩

/-- The cells of the owners that were registered, the first one first. -/
def marks (h : Heap α) : List CellId :=
  (mints h.entries).reverse.map (·.issuer)

/-- Whether the chronicle agrees with the tokens of the heap. -/
structure Recounts (B : Births) (h : Heap α) : Prop where
  marked : B.Marked h.marks
  /-- Tokens are numbered in the order in which they were issued. -/
  numbered : (mints h.entries).reverse.map (·.serial) = List.range h.issued

theorem Recounts.length_eq (hr : Recounts B h) : B.length = h.issued := by
  have hlength := congrArg List.length hr.numbered
  rw [← hr.marked.length]
  simpa [marks] using hlength

/-- The mark of a token is the cell whose count issued it. -/
theorem Recounts.mark_eq (hr : Recounts B h) {t : Token CellId} (ht : t ∈ mints h.entries) :
    h.marks[t.serial]? = some t.issuer := by
  obtain ⟨i, hi⟩ := List.getElem?_of_mem (List.mem_reverse.mpr ht)
  have hserial := congrArg (·[i]?) hr.numbered
  simp only [List.getElem?_map, hi, Option.map_some] at hserial
  obtain rfl : t.serial = i := by
    have := List.getElem?_eq_some_iff.mp hserial.symm
    obtain ⟨hlt, heq⟩ := this
    simpa using heq.symm
  rw [marks, List.getElem?_map, hi, Option.map_some]

/-- What is brought into being is recounted. -/
theorem Brings.recounts (hb : Brings h copied h') (hr : Recounts B h) {os : List Owner}
    (hl : Linear h.books os) (hcopied : ∀ o, copied = some o → o ∈ os) :
    Recounts (chronicle B h copied h') h' := by
  have hmarks : ∀ c, mints h'.entries = ⟨c, h.issued⟩ :: mints h.entries →
      h'.marks = h.marks ++ [c] := by
    intro c hm
    simp [marks, hm]
  have hnumbered : ∀ c, mints h'.entries = ⟨c, h.issued⟩ :: mints h.entries →
      h'.issued = h.issued + 1 →
      (mints h'.entries).reverse.map (·.serial) = List.range h'.issued := by
    intro c hm hi
    rw [hm, hi, List.range_succ, ← hr.numbered]
    simp
  cases hb with
  | nothing hi hm =>
    rw [chronicle, if_pos hi]
    exact ⟨by rw [marks, hm]; exact hr.marked, by rw [hm, hi]; exact hr.numbered⟩
  | make hs hi hm =>
    rw [chronicle, if_neg (by omega), hs]
    refine ⟨?_, hnumbered _ hm hi⟩
    rw [hmarks _ hm]
    refine hr.marked.make fun hmem => ?_
    -- no count that there was is that of the new cell
    obtain ⟨t, ht, hissuer⟩ := List.mem_map.mp hmem
    have hlt := (hl.issuers t.issuer).mp ⟨t, List.mem_reverse.mp ht, rfl⟩
    rw [hissuer] at hlt
    simp [books] at hlt
  | @copy o hs hi hm =>
    rw [chronicle, if_neg (by omega), hs]
    refine ⟨?_, hnumbered _ hm hi⟩
    rw [hmarks _ hm]
    have ho := hcopied o hs
    have hmark := hr.mark_eq (hl.mem_mints_iff.mpr (.inl ⟨o, ho, rfl⟩))
    rw [hl.own o ho] at hmark
    exact hr.marked.copy hmark

theorem recounts_empty (n : Nat) : Recounts [] (.empty n : Heap α) :=
  ⟨Births.marked_nil, rfl⟩

/-- **Chronicles agree with the tokens.** -/
theorem Chronicle.recounts (hc : Chronicle n m B) : Recounts B m.heap := by
  induction hc with
  | empty => exact recounts_empty n
  | @operate h B op hc ih =>
    refine (operate_brings h op).recounts ih hc.moment.linear fun o ho => ?_
    cases op with
    | act a => exact List.mem_append_left _ (mem_owners_of_copied? ho)
    | relink r path k src => simp [copiedBy?] at ho
  | @step m B hc ih =>
    exact (step_brings m).recounts ih hc.moment.linear fun o ho => hc.moment.mem_of_copied? ho

/-! ### Kinship -/

/-- Whether two pointers are of the same make, or both without target. -/
def Kindred (B : Births) : Option Owner → Option Owner → Prop
  | none, none => True
  | some o, some o' => B.SameMake o.token.serial o'.token.serial
  | _, _ => False

theorem Chronicle.mark_eq (hc : Chronicle n m B) {o : Owner} (ho : o ∈ m.owners) :
    o.token.serial < B.length ∧ m.heap.marks[o.token.serial]? = some o.cell := by
  have hl := hc.moment.linear
  have hmark := hc.recounts.mark_eq (hl.mem_mints_iff.mpr (.inl ⟨o, ho, rfl⟩))
  rw [hl.own o ho] at hmark
  refine ⟨?_, hmark⟩
  rw [hc.recounts.length_eq]
  exact hl.serial_lt ho

/-- Every owner descends from one that was made. -/
theorem Chronicle.descends (hc : Chronicle n m B) {o : Owner} (ho : o ∈ m.owners) :
    ∃ r, B.Descends r o.token.serial :=
  hc.recounts.marked.exists_make (hc.mark_eq ho).1

/-- **Two pointers are of the same make if and only if they have the same target.** -/
theorem Chronicle.kindred_iff (hc : Chronicle n m B) {o o' : Option Owner}
    (ho : ∀ a, o = some a → a ∈ m.owners) (ho' : ∀ a, o' = some a → a ∈ m.owners) :
    Kindred B o o' ↔ o.map (·.cell) = o'.map (·.cell) := by
  cases o with
  | none =>
    cases o' with
    | none => simp [Kindred]
    | some b => simp [Kindred]
  | some a =>
    cases o' with
    | none => simp [Kindred]
    | some b =>
      obtain ⟨ha, hmark⟩ := hc.mark_eq (ho a rfl)
      obtain ⟨hb, hmark'⟩ := hc.mark_eq (ho' b rfl)
      show B.SameMake a.token.serial b.token.serial ↔ _
      rw [hc.recounts.marked.sameMake_iff ha hb, hmark, hmark']
      simp

end Custody.Heap
