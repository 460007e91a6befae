/-
# What an act does with tokens

No act hands a token back at once: it leaves that to the tasks. The owner that is
to sign off after an act is that of the pointer which the act drops, clears or gives
another target, or puts another in place of; or the act made it itself. And that
pointer does sign off, unless it keeps its target or is moved. Acts that make neither a
pointer nor a copy issue no token either, so a pointer that they move or convert keeps
the one it has.

Key definitions: `Heap.ousted`, `Heap.Keeps`, `Act.mints`, `Act.hands`.
Key theorems: `perform_tidy`, `operate_tidy`, `perform_hands`.
-/
import Custody.Proofs.Heap.Tokens

namespace Custody.Heap

variable {α : Type} {h h' : Heap α} {self : Option CellId} {x : Option Pointer} {ts : List (Task α)}
  {keeps : Prop}

/-! ### The pointer that has to make room -/

/-- The pointer in the place that is meant, if there is one. -/
def meant? (h : Heap α) (self : Option CellId) (r : Ref) : Option Pointer :=
  (place? self r).bind h.pointer?

/-- The pointer in the target at the end of a path. -/
def beyond? (h : Heap α) (alone : Bool) (p : Place) (path : List Hop) (hop : Hop) : Option Pointer :=
  match h.walk alone p path with
  | .error _ => none
  | .ok q =>
    match h.through alone q with
    | .error _ => none
    | .ok (_, v) => (v.get? hop).map .nullable

/-- The pointer that an act drops, clears or gives another target, or puts another in place of. -/
def ousted (h : Heap α) (self : Option CellId) : Act α → Option Pointer
  | .reset dst => h.meant? self dst
  | .drop r => h.meant? self r
  | .clear r => h.meant? self r
  | .move _ dst => h.meant? self dst
  | .clone _ _ dst => h.meant? self dst
  | .assign dst _ _ => h.meant? self dst
  | .advance dst _ => h.meant? self dst
  | .replace dst _ _ => h.meant? self dst
  | .convert _ dst _ => h.meant? self dst
  | .make dst _ _ _ _ _ _ => h.meant? self dst
  | .store r path (.at hop) _ => (place? self r).bind fun p => h.beyond? true p path hop
  | _ => none

/-- The pointer that an operation of the caller drops, clears or gives another target, or puts
another in place of. -/
def oustedBy (h : Heap α) : Op α → Option Pointer
  | .act a => h.ousted none a
  | .relink r path k _ => (place? none r).bind fun p => h.beyond? false p path (.link k)

/-- Whether the act gives the pointer the target that it has, or moves it, so that it need not make
room. -/
def Keeps (h : Heap α) (self : Option CellId) : Act α → Prop
  | .assign dst src path => ∃ root p q, h.find self src path = .ok (root, p, q) ∧
      h.identity ((h.meant? self dst).bind Pointer.owner?) = h.identity q.owner?
  | .advance dst path => ∃ root p q, h.find self dst path = .ok (root, p, q) ∧
      h.identity ((h.meant? self dst).bind Pointer.owner?) = h.identity q.owner?
  | .move src dst => place? self src = place? self dst
  | .convert src dst _ => place? self src = place? self dst
  | .make dst _ _ _ fields links _ =>
    ∃ r, some r ∈ fields ++ links ∧ place? self r = place? self dst
  | _ => False

/-- The same of an operation of the caller. -/
def KeepsBy (h : Heap α) : Op α → Prop
  | .act a => h.Keeps none a
  | .relink _ _ _ _ => False

theorem meant?_of_claim {r : Ref} {p : Place} (hc : h.claim self r = .ok p) :
    h.meant? self r = h.pointer? p := by
  rw [meant?, (claim_eq_ok hc).1, Option.bind_some]

theorem place?_of_view {r : Ref} {p : Place} (hv : h.view self r = .ok p) :
    place? self r = some p := by
  unfold view at hv
  split at hv
  · simp at hv
  · rename_i q hq
    split at hv
    · simp at hv
    · split at hv
      · obtain rfl : q = p := by simpa using hv
        exact hq
      · simp at hv

theorem place?_of_find {r : Ref} {path : List Hop} {root p : Place} {q : Pointer}
    (hf : h.find self r path = .ok (root, p, q)) : place? self r = some root := by
  unfold find at hf
  split at hf
  · simp at hf
  · rename_i root' hview
    split at hf
    · simp at hf
    · split at hf
      · simp at hf
      · obtain ⟨rfl, -⟩ : root' = root ∧ _ := by simpa using hf
        exact place?_of_view hview

theorem beyond?_eq {alone : Bool} {root p : Place} {path : List Hop} {hop : Hop} {c : CellId}
    {v : Value α} {old : Option Owner} (hw : h.walk alone root path = .ok p)
    (ht : h.through alone p = .ok (c, v)) (hold : v.get? hop = some old) :
    h.beyond? alone root path hop = some (.nullable old) := by
  simp [beyond?, hw, ht, hold]

/-! ### What is left of the books -/

/-- The tokens that were handed back, each with the cell whose count it was handed to. -/
def returned (h : Heap α) : List (CellId × Token CellId) :=
  returns h.entries

theorem returned_of_books (hbooks : h'.books = h.books) : h'.returned = h.returned :=
  congrArg (fun b : Books => returns b.entries) hbooks

@[simp] theorem returned_acquire (h : Heap α) (c : CellId) :
    (h.acquire c).2.returned = h.returned := rfl

@[simp] theorem returned_allocate (h : Heap α) (near : Nat) (v : Value α) :
    (h.allocate near v).2.returned = h.returned := rfl

@[simp] theorem returned_duplicate (h : Heap α) (q : Pointer) :
    (h.duplicate q).2.returned = h.returned := by
  unfold duplicate
  split <;> rfl

@[simp] theorem returned_poke (h : Heap α) (p : Place) (x : Option Pointer) :
    (h.poke p x).returned = h.returned :=
  returned_of_books (books_poke h p x)

@[simp] theorem returned_lend (h : Heap α) (p : Place) : (h.lend p).returned = h.returned :=
  returned_of_books (books_lend h p)

@[simp] theorem returned_share (h : Heap α) (p : Place) : (h.share p).returned = h.returned :=
  returned_of_books (books_share h p)

/-! ### What is left to do -/

theorem mem_discard {x : Option Pointer} {t : Task α} :
    t ∈ discard x ↔ ∃ o ∈ held x, t = .release o := by
  unfold discard held
  cases x.bind Pointer.owner? <;> simp

/-- Whether each owner that the tasks have in their care is that of `x`, and is to sign off, or
is registered since the heap was `h`. -/
def Leaves (h : Heap α) (x : Option Pointer) (ts : List (Task α)) : Prop :=
  ∀ t ∈ ts, ∀ o ∈ t.owners, t = .release o ∧ o ∈ held x ∨ h.issued ≤ o.token.serial

theorem leaves_nil (h : Heap α) (x : Option Pointer) : Leaves h x [] :=
  fun _ ht => absurd ht List.not_mem_nil

theorem leaves_discard {y : Option Pointer} (hsub : ∀ o ∈ held y, o ∈ held x) :
    Leaves h x (discard y) := by
  intro t ht o ho
  obtain ⟨o', ho', rfl⟩ := mem_discard.mp ht
  obtain rfl : o = o' := by simpa [Task.owners] using ho
  exact .inl ⟨rfl, hsub o ho'⟩

theorem leaves_discard_append {y : Option Pointer} (hsub : ∀ o ∈ held y, o ∈ held x)
    (hts : Leaves h x ts) : Leaves h x (discard y ++ ts) := by
  intro t ht
  rcases List.mem_append.mp ht with ht | ht
  · exact leaves_discard hsub t ht
  · exact hts t ht

/-! ### Refusals

An act that is refused does not answer `done`. -/

theorem claim_ne_done {r : Ref} {e : Answer α} (he : h.claim self r = .error e) : e ≠ .done := by
  rintro rfl
  unfold claim at he
  split at he
  · simp at he
  · split at he
    · simp at he
    · split at he <;> simp at he

theorem view_ne_done {r : Ref} {e : Answer α} (he : h.view self r = .error e) : e ≠ .done := by
  rintro rfl
  unfold view at he
  split at he
  · simp at he
  · split at he
    · simp at he
    · split at he <;> simp at he

theorem through_ne_done {alone : Bool} {p : Place} {e : Answer α}
    (he : h.through alone p = .error e) : e ≠ .done := by
  rintro rfl
  simpa [Answer.isRefusal] using through_isRefusal he

theorem walk_ne_done {alone : Bool} {path : List Hop} {p : Place} {e : Answer α}
    (he : h.walk alone p path = .error e) : e ≠ .done := by
  rintro rfl
  simpa [Answer.isRefusal] using walk_isRefusal he

theorem find_ne_done {r : Ref} {path : List Hop} {e : Answer α}
    (he : h.find self r path = .error e) : e ≠ .done := by
  unfold find at he
  split at he
  · rename_i e' hview
    obtain rfl : e' = e := by simpa using he
    exact view_ne_done hview
  · split at he
    · rename_i e' hwalk
      obtain rfl : e' = e := by simpa using he
      exact walk_ne_done hwalk
    · rintro rfl
      split at he <;> simp at he

theorem gather_ne_done : ∀ {rs : List (Option Ref)} {h : Heap α} {e : Answer α},
    gather self h rs = .error e → e ≠ .done
  | [], h, e, he => by simp [gather] at he
  | none :: rs, h, e, he => by
    unfold gather at he
    split at he
    · rename_i e' hrest
      obtain rfl : e' = e := by simpa using he
      exact gather_ne_done hrest
    · simp at he
  | some r :: rs, h, e, he => by
    unfold gather at he
    split at he
    · rename_i e' hclaim
      obtain rfl : e' = e := by simpa using he
      exact claim_ne_done hclaim
    · split at he
      · obtain rfl : Answer.vacant = e := by simpa using he
        simp
      · split at he
        · rename_i e' hrest
          obtain rfl : e' = e := by simpa using he
          exact gather_ne_done hrest
        · simp at he
      · obtain rfl : Answer.refused = e := by simpa using he
        simp

theorem convert_ne_done {q : Pointer} {k : Kind} {e : Answer α} (he : q.convert k = .error e) :
    e ≠ .done := by
  rintro rfl
  unfold Pointer.convert at he
  split at he <;> simp at he

/-! ### Outcomes -/

/-- What an act does that has the pointer `x` make room: it hands no token back, and issues none
unless it `mints`; only the owner that `x` was is to sign off, besides those that it made itself,
and that one is, if the act is done and `x` does not keep its target or is moved. -/
structure Outcome.Tidy (h : Heap α) (x : Option Pointer) (mints : Bool) (keeps : Prop)
    (r : Outcome α) : Prop where
  books : mints = false → r.heap.books = h.books
  returned : r.heap.returned = h.returned
  todo : Leaves h x r.todo
  room : r.answer = .done → keeps ∨ ∀ o ∈ held x, .release o ∈ r.todo

theorem Outcome.Tidy.of_books {mints : Bool} {r : Outcome α} (hbooks : r.heap.books = h.books)
    (htodo : Leaves h x r.todo)
    (hroom : r.answer = .done → keeps ∨ ∀ o ∈ held x, .release o ∈ r.todo) :
    r.Tidy h x mints keeps :=
  ⟨fun _ => hbooks, returned_of_books hbooks, htodo, hroom⟩

theorem Outcome.Tidy.of_mints {r : Outcome α} (hreturned : r.heap.returned = h.returned)
    (htodo : Leaves h x r.todo)
    (hroom : r.answer = .done → keeps ∨ ∀ o ∈ held x, .release o ∈ r.todo) :
    r.Tidy h x true keeps :=
  ⟨fun e => by simp at e, hreturned, htodo, hroom⟩

/-- An act that is refused does nothing. -/
theorem tidy_refusal {mints : Bool} {a : Answer α} (ha : a ≠ .done) :
    (h.reply a).Tidy h x mints keeps :=
  .of_books rfl (leaves_nil h x) fun hdone => absurd hdone ha

/-- An act that leaves the pointer its target does nothing. -/
theorem tidy_kept {mints : Bool} {a : Answer α} (hk : keeps) : (h.reply a).Tidy h x mints keeps :=
  .of_books rfl (leaves_nil h x) fun _ => .inl hk

/-- An act that has no pointer make room has nobody sign off. -/
theorem tidy_reply (h : Heap α) (mints : Bool) (a : Answer α) :
    (h.reply a).Tidy h none mints keeps :=
  .of_books rfl (leaves_nil h none) fun _ => .inr fun _ ho => absurd ho List.not_mem_nil

theorem room_discard {r : Outcome α} (htodo : r.todo = discard x ++ ts) :
    r.answer = .done → keeps ∨ ∀ o ∈ held x, .release o ∈ r.todo := by
  intro _
  right
  intro o ho
  rw [htodo]
  exact List.mem_append_left _ (mem_discard.mpr ⟨o, ho, rfl⟩)

theorem books_put (h : Heap α) (p : Place) (y : Option Pointer) :
    (h.put p y).heap.books = h.books :=
  books_poke h p y

theorem room_put {p : Place} {y : Option Pointer} (hp : h'.pointer? p = x) :
    (h'.put p y).answer = .done → keeps ∨ ∀ o ∈ held x, .release o ∈ (h'.put p y).todo := by
  rw [← hp]
  have htodo : (h'.put p y).todo = discard (h'.pointer? p) ++ [] := (List.append_nil _).symm
  exact room_discard htodo

/-- Taking a pointer out of one place puts none into another. -/
theorem held_poke_vacated {s d : Place} {old : Option Pointer} (hs : h.peek s = some old) {o : Owner}
    (ho : o ∈ held ((h.poke s s.vacated).pointer? d)) : o ∈ held (h.pointer? d) := by
  by_cases hsd : s = d
  · subst hsd
    obtain ⟨y, hy, hheld⟩ := peek_poke_self hs s.vacated
    rw [pointer?, hy] at ho
    have hnone : held y = [] := hheld.trans (held_vacated s)
    have : o ∈ held y := ho
    rw [hnone] at this
    exact absurd this List.not_mem_nil
  · rwa [pointer?, peek_poke_ne hsd] at ho

/-- Taking a pointer out of one place, and putting something into another. -/
theorem tidy_move {src dst : Ref} {s d : Place} (hs : h.claim self src = .ok s)
    (hd : h.claim self dst = .ok d) {mints : Bool} (y : Option Pointer) :
    ((h.poke s s.vacated).put d y).Tidy h (h.pointer? d) mints
      (place? self src = place? self dst) := by
  obtain ⟨hsrc, hthere, -⟩ := claim_eq_ok hs
  obtain ⟨old, hold⟩ := Option.isSome_iff_exists.mp hthere
  refine .of_books ((books_put _ _ _).trans (books_poke _ _ _))
    (leaves_discard fun _ ho => held_poke_vacated hold ho) ?_
  by_cases hsd : s = d
  · exact fun _ => .inl (by rw [hsrc, (claim_eq_ok hd).1, hsd])
  · exact room_put (by rw [pointer?, peek_poke_ne hsd]; rfl)

/-! ### Act by act -/

theorem performReset_tidy (dst : Ref) :
    (h.performReset self dst).Tidy h (h.meant? self dst) false keeps := by
  unfold performReset
  split
  · exact tidy_refusal (claim_ne_done ‹_›)
  · rename_i d hd
    rw [meant?_of_claim hd]
    exact .of_books (books_put _ _ _) (leaves_discard fun _ ho => ho) (room_put rfl)

theorem performDrop_tidy (r : Ref) :
    (h.performDrop self r).Tidy h (h.meant? self r) false keeps := by
  unfold performDrop
  split
  · exact tidy_refusal (claim_ne_done ‹_›)
  · rename_i p hp
    rw [meant?_of_claim hp]
    exact .of_books (books_put _ _ _) (leaves_discard fun _ ho => ho) (room_put rfl)

theorem performClear_tidy (r : Ref) :
    (h.performClear self r).Tidy h (h.meant? self r) false keeps := by
  unfold performClear
  split
  · exact tidy_refusal (claim_ne_done ‹_›)
  · rename_i p hp
    rw [meant?_of_claim hp]
    split
    · exact tidy_refusal (by simp)
    · rename_i o ho
      rw [ho]
      exact .of_books (by simp)
        (leaves_discard_append (fun _ ho => ho) (by simp [Leaves, Task.owners])) (room_discard rfl)
    · exact tidy_refusal (by simp)

theorem performMove_tidy (src dst : Ref) :
    (h.performMove self src dst).Tidy h (h.meant? self dst) false
      (h.Keeps self (.move src dst)) := by
  unfold performMove
  split
  · exact tidy_refusal (claim_ne_done ‹_›)
  · exact tidy_refusal (claim_ne_done ‹_›)
  · rename_i s d hs hd
    rw [meant?_of_claim hd]
    simp only
    split
    · exact tidy_move hs hd _
    · exact tidy_refusal (by simp)

theorem pointer?_duplicate (h : Heap α) (q : Pointer) (p : Place) :
    (h.duplicate q).2.pointer? p = h.pointer? p := by
  rw [pointer?, (samePointers_duplicate h q).peek p]
  rfl

/-- A copy is a new owner. -/
theorem issued_le_of_duplicate {q : Pointer} {o : Owner} (ho : o ∈ held (some (h.duplicate q).1)) :
    h.issued ≤ o.token.serial := by
  unfold duplicate at ho
  split at ho
  · rename_i hnone
    simp [held, hnone] at ho
  · rw [held_pointer, List.mem_singleton] at ho
    rw [ho]
    exact Nat.le_refl _

theorem performClone_tidy (src : Ref) (path : List Hop) (dst : Ref) :
    (h.performClone self src path dst).Tidy h (h.meant? self dst) true keeps := by
  unfold performClone
  split
  · exact tidy_refusal (find_ne_done ‹_›)
  · exact tidy_refusal (claim_ne_done ‹_›)
  · rename_i q d _ hd
    rw [meant?_of_claim hd]
    split
    · refine .of_mints ((returned_poke _ _ _).trans (returned_duplicate h q))
        (leaves_discard fun o ho => ?_) (room_put (pointer?_duplicate h q d))
      have : o ∈ held ((h.duplicate q).2.pointer? d) := ho
      rwa [pointer?_duplicate] at this
    · exact tidy_refusal (by simp)

theorem performAssign_tidy (dst src : Ref) (path : List Hop) :
    (h.performAssign self dst src path).Tidy h (h.meant? self dst) true
      (h.Keeps self (.assign dst src path)) := by
  unfold performAssign
  split
  · exact tidy_refusal (claim_ne_done ‹_›)
  · exact tidy_refusal (find_ne_done ‹_›)
  · rename_i d s p q hd _
    have hmeant := meant?_of_claim hd
    split
    · exact tidy_refusal (by simp)
    · split
      · exact tidy_refusal (by simp)
      · rename_i a b ha hfind
        rw [ha] at hmeant
        rw [hmeant]
        split
        · rename_i hsame
          exact tidy_kept ⟨s, p, .nullable b, hfind, by rw [hmeant]; exact hsame⟩
        · exact .of_mints (by simp)
            (leaves_discard_append (fun _ ho => ho) (by simp [Leaves, Task.owners]))
            (room_discard rfl)
      · rename_i a b ha hfind
        rw [ha] at hmeant
        rw [hmeant]
        split
        · rename_i hsame
          exact tidy_kept ⟨s, p, .notNull b, hfind, by rw [hmeant]; exact hsame⟩
        · exact .of_mints (by simp) (by simp [Leaves, Task.owners])
            (room_discard (x := some (.notNull a)) rfl)
      · exact tidy_refusal (by simp)

theorem performAdvance_tidy (dst : Ref) (path : List Hop) :
    (h.performAdvance self dst path).Tidy h (h.meant? self dst) true
      (h.Keeps self (.advance dst path)) := by
  unfold performAdvance
  split
  · exact tidy_refusal (claim_ne_done ‹_›)
  · exact tidy_refusal (find_ne_done ‹_›)
  · rename_i d s p q hd _
    have hmeant := meant?_of_claim hd
    split
    · exact tidy_refusal (by simp)
    · rename_i a b ha hfind
      rw [ha] at hmeant
      rw [hmeant]
      split
      · rename_i hsame
        exact tidy_kept ⟨s, p, .nullable b, hfind, by rw [hmeant]; exact hsame⟩
      · split
        · exact .of_mints (by simp)
            (leaves_discard_append (fun _ ho => ho) (by simp [Leaves, Task.owners]))
            (room_discard rfl)
        · -- the copy signs off in the end, and it is new
          exact .of_mints (by simp)
            (leaves_discard_append (fun _ ho => ho) (by simp [Leaves, Task.owners, acquire]))
            (room_discard rfl)
    · exact tidy_refusal (by simp)

theorem performReplace_tidy (dst src : Ref) (path : List Hop) :
    (h.performReplace self dst src path).Tidy h (h.meant? self dst) true keeps := by
  unfold performReplace
  split
  · exact tidy_refusal (claim_ne_done ‹_›)
  · exact tidy_refusal (find_ne_done ‹_›)
  · rename_i d s _ q hd _
    rw [meant?_of_claim hd]
    split
    · exact tidy_refusal (by simp)
    · split
      · exact tidy_refusal (by simp)
      · rename_i old hold
        rw [hold]
        split
        · refine .of_mints (by simp) (leaves_discard_append (fun _ ho => ho) fun t ht o ho => ?_)
            (room_discard rfl)
          have hplaced : o ∈ held (some (h.duplicate q).1) := by
            simp only [List.mem_cons, List.not_mem_nil, or_false] at ht
            rcases ht with rfl | rfl | rfl
            · exact ho
            · simp [Task.owners] at ho
            · simp [Task.owners] at ho
          exact .inr (issued_le_of_duplicate hplaced)
        · exact tidy_refusal (by simp)

theorem performConvert_tidy (src dst : Ref) (kind : Kind) :
    (h.performConvert self src dst kind).Tidy h (h.meant? self dst) false
      (h.Keeps self (.convert src dst kind)) := by
  unfold performConvert
  split
  · exact tidy_refusal (claim_ne_done ‹_›)
  · exact tidy_refusal (claim_ne_done ‹_›)
  · rename_i s d hs hd
    rw [meant?_of_claim hd]
    split
    · exact tidy_refusal (by simp)
    · split
      · exact .of_books (books_poke _ _ _) (leaves_nil _ _) fun hdone => by simp at hdone
      · exact tidy_refusal (convert_ne_done ‹_›)
      · split
        · exact tidy_move hs hd _
        · exact tidy_refusal (by simp)

/-- Gathering pointers issues and returns no token, and of the places that there are it changes
only those that it takes a pointer out of. -/
theorem gather_tidy : ∀ {rs : List (Option Ref)} {h h' : Heap α} {os : List (Option Owner)},
    gather self h rs = .ok (os, h') → h'.books = h.books ∧
      ∀ p : Place, (h.peek p).isSome → (h'.peek p).isSome ∧
        (∀ o ∈ held (h'.pointer? p), o ∈ held (h.pointer? p)) ∧
        ((∃ r, some r ∈ rs ∧ place? self r = some p) ∨ h'.pointer? p = h.pointer? p)
  | [], h, h', os, hg => by
    obtain ⟨-, rfl⟩ := by simpa [gather] using hg
    exact ⟨rfl, fun p hp => ⟨hp, fun _ ho => ho, .inr rfl⟩⟩
  | none :: rs, h, h', os, hg => by
    unfold gather at hg
    split at hg
    · simp at hg
    · rename_i os' h₁ hrest
      obtain ⟨-, rfl⟩ := by simpa using hg
      obtain ⟨hbooks, hplaces⟩ := gather_tidy hrest
      refine ⟨hbooks, fun d hd => ?_⟩
      obtain ⟨hthere, hsub, ⟨r, hr, hplace⟩ | hsame⟩ := hplaces d hd
      · exact ⟨hthere, hsub, .inl ⟨r, List.mem_cons_of_mem _ hr, hplace⟩⟩
      · exact ⟨hthere, hsub, .inr hsame⟩
  | some r :: rs, h, h', os, hg => by
    unfold gather at hg
    split at hg
    · simp at hg
    · rename_i p hclaim
      obtain ⟨hplace, hp, -⟩ := claim_eq_ok hclaim
      obtain ⟨old, hold⟩ := Option.isSome_iff_exists.mp hp
      split at hg
      · simp at hg
      · split at hg
        · simp at hg
        · rename_i os' h₁ hrest
          obtain ⟨-, rfl⟩ := by simpa using hg
          obtain ⟨hbooks, hplaces⟩ := gather_tidy hrest
          refine ⟨hbooks.trans (books_poke _ _ _), fun d hd => ?_⟩
          obtain ⟨hthere, hsub, htaken⟩ := hplaces d (isSome_peek_poke hold _ hd)
          refine ⟨hthere, fun o ho => held_poke_vacated hold (hsub o ho), ?_⟩
          by_cases hpd : p = d
          · exact .inl ⟨r, List.mem_cons_self, by rw [hplace, hpd]⟩
          · rcases htaken with ⟨r', hr', hplace'⟩ | hsame
            · exact .inl ⟨r', List.mem_cons_of_mem _ hr', hplace'⟩
            · exact .inr (hsame.trans (by rw [pointer?, peek_poke_ne hpd]; rfl))
      · simp at hg

theorem pointer?_allocate {near : Nat} {v : Value α} {p : Place} (hp : (h.peek p).isSome) :
    (h.allocate near v).2.pointer? p = h.pointer? p := by
  obtain ⟨y, hy⟩ := Option.isSome_iff_exists.mp hp
  rw [pointer?, pointer?, peek_allocate hy, hy]

theorem performMake_tidy (dst : Ref) (kind : Kind) (data : α) (script : List (Act α))
    (fields links : List (Option Ref)) (near : Nat) :
    (h.performMake self dst kind data script fields links near).Tidy h (h.meant? self dst) true
      (h.Keeps self (.make dst kind data script fields links near)) := by
  unfold performMake
  split
  · exact tidy_refusal (claim_ne_done ‹_›)
  · exact tidy_refusal (gather_ne_done ‹_›)
  · rename_i d os h₁ hd hgather
    obtain ⟨hplace, hd', -⟩ := claim_eq_ok hd
    obtain ⟨hbooks, hplaces⟩ := gather_tidy hgather
    obtain ⟨hthere, hsub, htaken⟩ := hplaces d hd'
    rw [meant?_of_claim hd]
    simp only
    split
    · refine .of_mints ?_ (leaves_discard fun o ho => ?_) ?_
      · simpa [put] using returned_of_books hbooks
      · rw [pointer?_allocate hthere] at ho
        exact hsub o ho
      · rcases htaken with ⟨r, hr, hr'⟩ | hsame
        · exact fun _ => .inl ⟨r, hr, hr'.trans hplace.symm⟩
        · exact room_put ((pointer?_allocate hthere).trans hsame)
    · exact tidy_refusal (by simp)

theorem performUpdate_tidy (r : Ref) (path : List Hop) (f : α → α) :
    (h.performUpdate self r path f).Tidy h none false keeps := by
  unfold performUpdate
  split
  · exact tidy_reply _ _ _
  · split
    · exact tidy_reply _ _ _
    · split
      · exact tidy_reply _ _ _
      · exact .of_books (books_setLive _ _ _) (leaves_nil _ _) fun hdone => by simp at hdone

theorem performStore_tidy (r : Ref) (path : List Hop) (site : Site) (src : Ref) :
    (h.performStore self r path site src).Tidy h (h.ousted self (.store r path site src)) false
      keeps := by
  unfold performStore
  split
  · exact tidy_refusal (claim_ne_done ‹_›)
  · exact tidy_refusal (claim_ne_done ‹_›)
  · rename_i root s hroot _
    split
    · exact tidy_refusal (by simp)
    · split
      · exact tidy_refusal (by simp)
      · exact tidy_refusal (walk_ne_done ‹_›)
      · rename_i o p _ hwalk
        split
        · exact tidy_refusal (through_ne_done ‹_›)
        · rename_i c v hthrough
          split
          · exact .of_books (by simp) (leaves_nil _ _)
              fun _ => .inr fun _ ho => absurd ho List.not_mem_nil
          · rename_i hop
            split
            · exact tidy_refusal (by simp)
            · rename_i old hold
              have hroom : h.ousted self (.store r path (.at hop) src) = some (.nullable old) := by
                rw [ousted, (claim_eq_ok hroot).1, Option.bind_some, beyond?_eq hwalk hthrough hold]
              rw [hroom]
              exact .of_books (by simp)
                (leaves_discard_append (fun _ ho => ho) (by simp [Leaves, Task.owners]))
                (room_discard rfl)
      · exact tidy_refusal (by simp)

theorem performRelink_tidy (r : Ref) (path : List Hop) (k : Nat) (src : Ref) :
    (h.performRelink r path k src).Tidy h (h.oustedBy (.relink r path k src)) false keeps := by
  unfold performRelink
  split
  · exact tidy_refusal (claim_ne_done ‹_›)
  · split
    · exact tidy_refusal (by simp)
    · exact tidy_refusal (find_ne_done ‹_›)
    · rename_i o root p q _ hfind
      split
      · exact tidy_refusal (by simp)
      · split
        · exact tidy_refusal (through_ne_done ‹_›)
        · rename_i c v hthrough
          split
          · exact tidy_refusal (by simp)
          · rename_i old hold
            split
            · exact tidy_refusal (by simp)
            · have hwalk := (find_eq_ok hfind).2.2.1
              have hroom : h.oustedBy (.relink r path k src) = some (.nullable old) := by
                rw [oustedBy, place?_of_find hfind, Option.bind_some, beyond?_eq hwalk hthrough hold]
              rw [hroom]
              exact .of_books (by simp) (leaves_discard fun _ ho => ho)
                (room_discard (List.append_nil _).symm)
    · exact tidy_refusal (by simp)

/-! ### All acts -/

/-- Whether the act makes a pointer or a copy of one. -/
def Act.mints : Act α → Bool
  | .clone _ _ _ => true
  | .assign _ _ _ => true
  | .advance _ _ => true
  | .replace _ _ _ => true
  | .make _ _ _ _ _ _ _ => true
  | _ => false

/-- The same of an operation of the caller. -/
def Op.mints : Op α → Bool
  | .act a => a.mints
  | .relink _ _ _ _ => false

/-- **What an act does with tokens.** It hands none back at once, and issues none unless it makes
a pointer or a copy; and the pointer that has to make room signs off, and no other. -/
theorem perform_tidy (h : Heap α) (self : Option CellId) (a : Act α) :
    (h.perform self a).Tidy h (h.ousted self a) a.mints (h.Keeps self a) := by
  cases a with
  | reset dst => exact performReset_tidy dst
  | drop r => exact performDrop_tidy r
  | clear r => exact performClear_tidy r
  | move src dst => exact performMove_tidy src dst
  | clone src path dst => exact performClone_tidy src path dst
  | assign dst src path => exact performAssign_tidy dst src path
  | advance dst path => exact performAdvance_tidy dst path
  | replace dst src path => exact performReplace_tidy dst src path
  | convert src dst kind => exact performConvert_tidy src dst kind
  | make dst kind data script fields links near =>
    exact performMake_tidy dst kind data script fields links near
  | update r path f => exact performUpdate_tidy r path f
  | store r path site src => exact performStore_tidy r path site src
  | _ => exact tidy_reply _ _ _

theorem operate_tidy (h : Heap α) (op : Op α) :
    (h.operate op).Tidy h (h.oustedBy op) op.mints (h.KeepsBy op) := by
  cases op with
  | act a => exact perform_tidy h none a
  | relink r path k src => exact performRelink_tidy r path k src

/-! ### Pointers that are handed over -/

/-- From where to where the act moves or converts a pointer. -/
def Act.hands : Act α → Option (Ref × Ref)
  | .move src dst => some (src, dst)
  | .convert src dst _ => some (src, dst)
  | _ => none

/-- What is put into a place is there. -/
theorem held_poke_self {p : Place} (hp : (h.peek p).isSome) (x : Option Pointer) :
    held ((h.poke p x).pointer? p) = held x := by
  obtain ⟨old, hold⟩ := Option.isSome_iff_exists.mp hp
  obtain ⟨y, hy, hheld⟩ := peek_poke_self hold x
  rw [pointer?, hy]
  exact hheld

/-- What taking a pointer without owner out of a place leaves is the same owners. -/
theorem perm_owners_poke {s : Place} {q : Option Pointer} (hs : h.peek s = some q)
    (hq : held q = []) : (h.poke s s.vacated).owners.Perm h.owners := by
  refine perm_of_countP fun P => ?_
  have := owners_poke P hs s.vacated
  rw [hq, held_vacated] at this
  exact this

/-- An act that takes the owner over from `src` to `dst` if it is done, and changes no owner if
not. -/
structure Outcome.Hands (h : Heap α) (self : Option CellId) (src dst : Ref) (r : Outcome α) :
    Prop where
  books : r.heap.books = h.books
  handed : r.answer = .done → held (r.heap.meant? self dst) = held (h.meant? self src)
  kept : r.answer ≠ .done → r.todo = [] ∧ r.heap.owners.Perm h.owners

theorem hands_reply {src dst : Ref} {a : Answer α} (ha : a ≠ .done) :
    (h.reply a).Hands h self src dst :=
  ⟨rfl, fun hdone => absurd hdone ha, fun _ => ⟨rfl, .rfl⟩⟩

/-- Taking a pointer out of one place and putting one with the same owner into another. -/
theorem hands_put {src dst : Ref} {s d : Place} (hs : h.claim self src = .ok s)
    (hd : h.claim self dst = .ok d) {x : Option Pointer} (hx : held x = held (h.pointer? s)) :
    ((h.poke s s.vacated).put d x).Hands h self src dst := by
  obtain ⟨old, hold⟩ := Option.isSome_iff_exists.mp (claim_eq_ok hs).2.1
  obtain ⟨hplace, hthere, -⟩ := claim_eq_ok hd
  refine ⟨(books_put _ _ _).trans (books_poke _ _ _), fun _ => ?_, fun hne => absurd rfl hne⟩
  have hput : held (((h.poke s s.vacated).poke d x).pointer? d) = held x :=
    held_poke_self (isSome_peek_poke hold _ hthere) x
  rw [meant?_of_claim hs, ← hx, ← hput, meant?, hplace, Option.bind_some]
  rfl

theorem performMove_hands (src dst : Ref) : (h.performMove self src dst).Hands h self src dst := by
  unfold performMove
  split
  · exact hands_reply (claim_ne_done ‹_›)
  · exact hands_reply (claim_ne_done ‹_›)
  · rename_i s d hs hd
    simp only
    split
    · exact hands_put hs hd rfl
    · exact hands_reply (by simp)

theorem performConvert_hands (src dst : Ref) (kind : Kind) :
    (h.performConvert self src dst kind).Hands h self src dst := by
  unfold performConvert
  split
  · exact hands_reply (claim_ne_done ‹_›)
  · exact hands_reply (claim_ne_done ‹_›)
  · rename_i s d hs hd
    split
    · exact hands_reply (by simp)
    · rename_i q hq
      split
      · -- a pointer without target is gone, and no owner with it
        rename_i hnull
        have hnone : held (some q) = [] := by simp [held, Pointer.owner?_of_convert_null hnull]
        exact ⟨books_poke _ _ _, fun hdone => by simp at hdone,
          fun _ => ⟨rfl, perm_owners_poke (pointer?_eq_some hq) hnone⟩⟩
      · exact hands_reply (convert_ne_done ‹_›)
      · rename_i q' hq'
        split
        · exact hands_put hs hd (by rw [hq]; simp [held, Pointer.owner?_convert hq'])
        · exact hands_reply (by simp)

/-- **A pointer that is moved or converted keeps its token,** and none is issued or handed back. -/
theorem perform_hands (h : Heap α) (self : Option CellId) {a : Act α} {src dst : Ref}
    (ha : a.hands = some (src, dst)) : (h.perform self a).Hands h self src dst := by
  cases a with
  | move s d =>
    obtain ⟨rfl, rfl⟩ : s = src ∧ d = dst := by simpa [Act.hands] using ha
    exact performMove_hands s d
  | convert s d kind =>
    obtain ⟨rfl, rfl⟩ : s = src ∧ d = dst := by simpa [Act.hands] using ha
    exact performConvert_hands s d kind
  | _ => simp [Act.hands] at ha

end Custody.Heap
