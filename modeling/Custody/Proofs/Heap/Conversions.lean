/-
# Conversions move the owner and nothing else

A pointer that is converted is taken out of its place, and the owner that it is is put into
another place, or the same one, as a pointer of another kind. No owner is registered and none
signs off, so after any number of conversions all counts are what they were; and the pointer is
the same again when it is of the kind that it was. Only a pointer without target can fail to be
converted, and then nothing is lost but that pointer.

Key definitions: `Kind.Becomes`, `Pointer.become`, `Heap.convertAll`, `Rehoused`, `LostNull`.
Key theorems: `become_cases`, `convertAll_eq`, `Moment.conversions_move_owner`.
-/
import Mathlib.Data.List.Chain
import Custody.Heap.Session
import Custody.Proofs.Heap.Assign
import Custody.Proofs.Heap.Edges

namespace Custody.Heap

variable {α : Type} {h e : Heap α} {m : Machine α} {n : Nat} {self : Option CellId} {src : Ref}
  {rest : List (Task α)} {p s d : Place} {q q' : Pointer} {k : Kind} {ks : List Kind}

/-! ### Kinds that pointers are converted to -/

/-- Whether a pointer of the first kind can be converted to one of the second, if it has a target. -/
def Kind.Becomes : Kind → Kind → Prop
  | .fixed, .notNull => True
  | .fixed, .nullable => True
  | .notNull, .nullable => True
  | .nullable, .notNull => True
  | .nullable, .fixed => True
  | _, _ => False

/-- The pointer after several conversions, or why one of them failed. -/
def Pointer.become {α : Type} (q : Pointer) : List Kind → Except (Answer α) Pointer
  | [] => .ok q
  | k :: ks =>
    match q.convert k with
    | .error e => .error e
    | .ok q => q.become ks

/-- Whether one of the conversions comes upon a pointer without target, and is to a kind that must
have one. -/
def Pointer.NarrowsNull (α : Type) (q : Pointer) (ks : List Kind) : Prop :=
  ∃ before k after, ks = before ++ k :: after ∧
    q.become before = (.ok .null : Except (Answer α) Pointer) ∧ k ≠ .nullable

/-- A pointer is told by its kind and the owner that it is. -/
theorem Pointer.eq_of_owner? (hk : q'.kind = q.kind) (ho : q'.owner? = q.owner?) : q' = q := by
  cases q <;> cases q' <;> simp_all [Pointer.kind, Pointer.owner?]

/-- A conversion fails if the pointer has no target and the kind must have one. -/
theorem Kind.Becomes.convert_cases (hb : q.kind.Becomes k) :
    (q.convert k = (.error .null : Except (Answer α) Pointer) ∧ q = .null ∧ k ≠ .nullable) ∨
    ∃ q', q.convert k = (.ok q' : Except (Answer α) Pointer) ∧ q'.owner? = q.owner? ∧ q'.kind = k ∧
      ¬ (q = .null ∧ k ≠ .nullable) := by
  rcases q with (_ | o) | o | o <;> cases k <;> simp only [Pointer.kind, Kind.Becomes] at hb
  · exact .inl ⟨rfl, rfl, by simp⟩
  · exact .inl ⟨rfl, rfl, by simp⟩
  all_goals exact .inr ⟨_, rfl, rfl, rfl, by simp [Pointer.null]⟩

/-- Conversions fail if a pointer without target comes to be narrowed, and otherwise the owner
stays the same. -/
theorem become_cases : ∀ {ks : List Kind} {q : Pointer}, (q.kind :: ks).IsChain Kind.Becomes →
    (q.become ks = (.error .null : Except (Answer α) Pointer) ∧ q.owner? = none ∧
      q.NarrowsNull α ks) ∨
    ∃ q', q.become ks = (.ok q' : Except (Answer α) Pointer) ∧ q'.owner? = q.owner? ∧
      q'.kind = ks.getLastD q.kind ∧ ¬ q.NarrowsNull α ks
  | [], q, _ => .inr ⟨q, rfl, rfl, rfl, by rintro ⟨before, k, after, he, -⟩; simp at he⟩
  | k :: ks, q, hc => by
    obtain ⟨hb, htail⟩ := List.isChain_cons_cons.mp hc
    rcases hb.convert_cases (α := α) with ⟨hfail, rfl, hk⟩ | ⟨q₁, hone, howner, rfl, hnot⟩
    · refine .inl ⟨?_, rfl, [], k, ks, rfl, rfl, hk⟩
      simp only [Pointer.become, hfail]
    · have hstep : ∀ l, q.become (q₁.kind :: l) = (q₁.become l : Except (Answer α) Pointer) := by
        intro l
        simp only [Pointer.become, hone]
      rcases become_cases htail with ⟨hfail, hnone, before, k, after, rfl, hbefore, hk⟩ |
        ⟨q', hall, howner', hkind, hnever⟩
      · exact .inl ⟨(hstep _).trans hfail, howner.symm.trans hnone, q₁.kind :: before, k, after, rfl,
          (hstep _).trans hbefore, hk⟩
      · refine .inr ⟨q', (hstep _).trans hall, howner'.trans howner, ?_, ?_⟩
        · rw [hkind]
          cases ks <;> rfl
        · rintro ⟨_ | ⟨k₀, before⟩, k, after, he, hbefore, hk⟩
          · obtain ⟨rfl, rfl⟩ : q₁.kind = k ∧ ks = after := by simpa using he
            obtain rfl : q = .null := by simpa [Pointer.become] using hbefore
            exact hnot ⟨rfl, hk⟩
          · obtain ⟨rfl, rfl⟩ : q₁.kind = k₀ ∧ ks = before ++ k :: after := by simpa using he
            exact hnever ⟨before, k, after, rfl, (hstep _).symm.trans hbefore, hk⟩

/-! ### Places that hold nothing -/

/-- What was put into a place before does not matter when something else is. -/
theorem poke_poke (h : Heap α) (p : Place) (x y : Option Pointer) :
    (h.poke p x).poke p y = h.poke p y := by
  cases p with
  | var i => simp [poke, modifyVar, List.modify_modify_eq, Function.comp_def]
  | inside c hop =>
    have hset : ∀ (v : Value α) (o o' : Option Owner), (v.set hop o).set hop o' = v.set hop o' := by
      intro v o o'
      cases hop <;> simp [Value.set]
    have hcontent : ∀ k : Content α,
        (k.modify (·.set hop (x.bind Pointer.owner?))).modify (·.set hop (y.bind Pointer.owner?)) =
          k.modify (·.set hop (y.bind Pointer.owner?)) := by
      intro k
      cases k <;> simp [Content.modify, hset]
    simp only [poke, modifyCell, List.modify_modify_eq, Function.comp_def, hcontent]

/-- What is left in a place when the pointer is taken out is there. -/
theorem peek_poke_vacated {old : Option Pointer} (hp : h.peek p = some old) :
    (h.poke p p.vacated).peek p = some p.vacated := by
  cases p with
  | var i =>
    obtain ⟨v, hv, rfl⟩ := peek_var_eq_some hp
    simp [peek, poke, modifyVar, hv, Place.vacated]
  | inside c hop => exact pointer?_eq_some (pointer?_poke_nullable hp none)

/-- A pointer that a place takes is there once it is put there. -/
theorem pointer?_poke_of_admits {old : Option Pointer} (hp : h.peek p = some old)
    (ha : p.admits (some q) = true) : (h.poke p (some q)).pointer? p = some q := by
  cases p with
  | var i =>
    obtain ⟨v, hv, rfl⟩ := peek_var_eq_some hp
    simp [pointer?, peek, poke, modifyVar, hv]
  | inside c hop =>
    cases q with
    | nullable o => exact pointer?_poke_nullable hp o
    | notNull o => simp [Place.admits] at ha
    | fixed o => simp [Place.admits] at ha

/-- A place admits the pointer that is in it. -/
theorem admits_of_pointer? (hq : h.pointer? p = some q) : p.admits (some q) = true := by
  cases p with
  | var i => rfl
  | inside c hop =>
    obtain ⟨cell, v, o, -, -, -, hx⟩ := peek_inside_eq_some (pointer?_eq_some hq)
    obtain rfl := Option.some.inj hx
    rfl

theorem log_poke (h : Heap α) (p : Place) (x : Option Pointer) : (h.poke p x).log = h.log := by
  cases p <;> rfl

/-- The data of a value that is not freed. -/
def data? (h : Heap α) (c : CellId) : Option α :=
  (h.cells[c]?.bind (·.content.value?)).map (·.data)

/-- What is put into a place is not data. -/
theorem data?_poke (h : Heap α) (p : Place) (x : Option Pointer) (c : CellId) :
    (h.poke p x).data? c = h.data? c := by
  cases p with
  | var i => rfl
  | inside c' hop =>
    have hdata : ∀ (v : Value α) (o : Option Owner), (v.set hop o).data = v.data := by
      intro v o
      cases hop <;> rfl
    simp only [data?, poke, modifyCell, List.getElem?_modify]
    by_cases hc : c' = c
    · subst hc
      cases h.cells[c']? with
      | none => simp
      | some cell =>
        obtain ⟨a, n, k⟩ := cell
        cases k <;> simp [Content.modify, Content.value?, hdata]
    · simp [hc]

/-! ### Conversions, one after the other -/

/-- Where a pointer is put when it is converted, and the kind that it is there. -/
structure Conversion where
  dst : Ref
  kind : Kind

/-- Converts the pointer in `src`, and what becomes of it again, until one of the conversions
cannot be made. -/
def convertAll (h : Heap α) (self : Option CellId) (src : Ref) : List Conversion → Outcome α
  | [] => h.reply .done
  | k :: ks =>
    let r := h.perform self (.convert src k.dst k.kind)
    match r.answer with
    | .done =>
      let r' := r.heap.convertAll self k.dst ks
      ⟨r'.heap, r.todo ++ r'.todo, r'.answer⟩
    | _ => r

/-- Where the pointer is after the conversions. -/
def arrival (src : Ref) : List Conversion → Ref
  | [] => src
  | k :: ks => arrival k.dst ks

/-- Whether the conversion can put a pointer that comes from the place where it should be: that may
be changed, it takes pointers of the kind, and nothing is in it, or the pointer was. -/
def Receives (h : Heap α) (self : Option CellId) (p : Place) (k : Conversion) : Prop :=
  ∃ d, h.claim self k.dst = .ok d ∧ (d = p ∨ h.peek d = some d.vacated) ∧
    ∀ q : Pointer, q.kind = k.kind → d.admits (some q) = true

/-- A place that may be changed and holds nothing. -/
structure Free (h : Heap α) (me : Option CellId) (r : Ref) (p : Place) : Prop where
  claimed : h.claim me r = .ok p
  empty : h.peek p = some p.vacated

theorem Free.claim (hf : e.Free self src s) {x : Option Pointer} (r : Ref) :
    (e.poke s x).claim self r = e.claim self r :=
  claim_poke hf.empty r

theorem Free.poke_vacated (hf : e.Free self src s) (x : Option Pointer) :
    (e.poke s x).poke s s.vacated = e := by
  rw [poke_poke, poke_eq_self hf.empty]

theorem discard_vacated (p : Place) : (discard p.vacated : List (Task α)) = [] := by
  cases p <;> rfl

theorem Free.discard_eq (hf : e.Free self src s) : (discard (e.pointer? s) : List (Task α)) = [] := by
  rw [pointer?, hf.empty]
  exact discard_vacated s

/-- **One conversion.** The owner goes from one place to another that holds nothing, or the pointer
has no target and is lost. -/
theorem Free.convert {dst : Ref} (hs : e.Free self src s) (hd : e.Free self dst d)
    (hq : s.admits (some q) = true) (hadmits : ∀ q : Pointer, q.kind = k → d.admits (some q) = true)
    (hb : q.kind.Becomes k) :
    (e.poke s (some q)).perform self (.convert src dst k) =
      match (q.convert k : Except (Answer α) Pointer) with
      | .error _ => ⟨e, [], .null⟩
      | .ok q' => ⟨e.poke d (some q'), [], .done⟩ := by
  have hcs : (e.poke s (some q)).claim self src = .ok s := (hs.claim src).trans hs.claimed
  have hcd : (e.poke s (some q)).claim self dst = .ok d := (hs.claim dst).trans hd.claimed
  have hthere : (e.poke s (some q)).pointer? s = some q := pointer?_poke_of_admits hs.empty hq
  show (e.poke s (some q)).performConvert self src dst k = _
  unfold performConvert
  rcases hb.convert_cases (α := α) with ⟨hfail, -, -⟩ | ⟨q', hone, -, hkind, -⟩
  · simp only [hcs, hcd, hthere, hfail, hs.poke_vacated]
  · simp only [hcs, hcd, hthere, hone, hadmits q' hkind, if_true, hs.poke_vacated, put, hd.discard_eq]

/-- Where the pointer gets to with the last conversion holds nothing before. -/
theorem Free.at_arrival : ∀ {ks : List Conversion} {src : Ref} {s : Place}, e.Free self src s →
    (∀ k ∈ ks, ∃ d, e.Free self k.dst d ∧ ∀ q : Pointer, q.kind = k.kind → d.admits (some q) = true) →
    ∃ d, e.Free self (arrival src ks) d
  | [], _, s, hs, _ => ⟨s, hs⟩
  | k :: ks, _, _, _, hrec => by
    obtain ⟨d, hd, -⟩ := hrec k List.mem_cons_self
    have ih := Free.at_arrival hd fun k' hk' => hrec k' (List.mem_cons_of_mem _ hk')
    exact ih

/-- **Several conversions.** The owner goes from the first place to the last, and all places between
hold nothing again. -/
theorem convertAll_eq : ∀ {ks : List Conversion} {src : Ref} {s : Place} {q : Pointer},
    e.Free self src s → s.admits (some q) = true →
    (∀ k ∈ ks, ∃ d, e.Free self k.dst d ∧ ∀ q : Pointer, q.kind = k.kind → d.admits (some q) = true) →
    (q.kind :: ks.map (·.kind)).IsChain Kind.Becomes →
    (∃ d, e.Free self (arrival src ks) d ∧ ∀ q', q.become (ks.map (·.kind)) = (.ok q' : Except (Answer α) Pointer) →
      d.admits (some q') = true ∧ (e.poke s (some q)).convertAll self src ks = ⟨e.poke d (some q'), [], .done⟩) ∧
    (q.become (ks.map (·.kind)) = (.error .null : Except (Answer α) Pointer) →
      (e.poke s (some q)).convertAll self src ks = ⟨e, [], .null⟩)
  | [], src, s, q, hs, hq, _, _ => by
    refine ⟨⟨s, hs, fun q' hq' => ?_⟩, fun hfail => by simp [Pointer.become] at hfail⟩
    obtain rfl : q = q' := by simpa [Pointer.become] using hq'
    exact ⟨hq, rfl⟩
  | k :: ks, src, s, q, hs, hq, hrec, hc => by
    obtain ⟨hb, htail⟩ := List.isChain_cons_cons.mp hc
    obtain ⟨d, hd, hadmits⟩ := hrec k List.mem_cons_self
    have hone := hs.convert hd hq hadmits hb
    have hrec' := fun k' hk' => hrec k' (List.mem_cons_of_mem _ hk')
    rcases hb.convert_cases (α := α) with ⟨hfail, -, -⟩ | ⟨q₁, hok, -, hkind, -⟩
    · rw [hfail] at hone
      have hbecome : q.become ((k :: ks).map (·.kind)) = (.error .null : Except (Answer α) Pointer) := by
        simp only [List.map_cons, Pointer.become, hfail]
      obtain ⟨d', hd'⟩ := hd.at_arrival hrec'
      refine ⟨⟨d', hd', fun q' hq' => ?_⟩, fun _ => ?_⟩
      · rw [hbecome] at hq'
        simp at hq'
      · simp only [convertAll, hone]
    · rw [hok] at hone
      have hbecome : q.become ((k :: ks).map (·.kind)) =
          (q₁.become (ks.map (·.kind)) : Except (Answer α) Pointer) := by
        simp only [List.map_cons, Pointer.become, hok]
      have hall : (e.poke s (some q)).convertAll self src (k :: ks) =
          (e.poke d (some q₁)).convertAll self k.dst ks := by
        simp only [convertAll, hone, List.nil_append]
      rw [hbecome, hall]
      exact convertAll_eq hd (hadmits q₁ hkind) hrec' (hkind ▸ htail)

/-! ### What is the same afterwards -/

/-- The outcome of conversions that failed: the pointer without target is taken out of its place, and
no cell and no other pointer is changed. -/
structure LostNull (h : Heap α) (p : Place) (r : Outcome α) : Prop where
  answer : r.answer = .null
  todo : r.todo = []
  heap : r.heap = { h with vars := r.heap.vars }
  gone : r.heap.peek p = some p.vacated
  others : ∀ o, o ≠ p → r.heap.peek o = h.peek o

/-- The outcome of conversions that did not fail: the owner that was the pointer `q` in `p` is the
pointer `q'` in `d`, and nothing else is changed. -/
structure Rehoused (h : Heap α) (p d : Place) (q q' : Pointer) (r : Outcome α) : Prop where
  answer : r.answer = .done
  todo : r.todo = []
  owner : q'.owner? = q.owner?
  there : r.heap.pointer? d = some q'
  left : d ≠ p → r.heap.peek p = some p.vacated
  others : ∀ o, o ≠ p → o ≠ d → r.heap.peek o = h.peek o
  /-- No owner was registered, none signed off, and no destructor ran. -/
  log : r.heap.log = h.log
  issued : r.heap.issued = h.issued
  count : ∀ c, r.heap.count c = h.count c
  unique : ∀ o, r.heap.isUnique o = h.isUnique o
  status : ∀ c, r.heap.status c = h.status c
  live : ∀ c, r.heap.live? c = h.live? c
  data : ∀ c, r.heap.data? c = h.data? c

theorem isUnique_poke (h : Heap α) (p : Place) (x : Option Pointer) (o : Option Owner) :
    (h.poke p x).isUnique o = h.isUnique o := by
  cases o with
  | none => rfl
  | some o => simp only [isUnique, count_poke]

theorem issued_poke (h : Heap α) (p : Place) (x : Option Pointer) : (h.poke p x).issued = h.issued := by
  cases p <;> rfl

/-- What is left behind when a pointer without target is taken out of its place. -/
theorem lostNull (hq : h.pointer? p = some .null) : LostNull h p ⟨h.poke p p.vacated, [], .null⟩ where
  answer := rfl
  todo := rfl
  heap := by
    cases p with
    | var i => rfl
    | inside c hop => exact poke_eq_self (pointer?_eq_some hq)
  gone := peek_poke_vacated (pointer?_eq_some hq)
  others o ho := peek_poke_ne (Ne.symm ho) _

/-- What is left behind when a pointer is taken out of one place and put into another. -/
theorem rehoused (hp : h.Outer p) (hq : h.pointer? p = some q) (hd : h.Outer d)
    (hempty : (h.poke p p.vacated).peek d = some d.vacated) (hadmits : d.admits (some q') = true)
    (howner : q'.owner? = q.owner?) :
    Rehoused h p d q q' ⟨(h.poke p p.vacated).poke d (some q'), [], .done⟩ where
  answer := rfl
  todo := rfl
  owner := howner
  there := pointer?_poke_of_admits hempty hadmits
  left hne := (peek_poke_ne hne _).trans (peek_poke_vacated (pointer?_eq_some hq))
  others o hop hod := (peek_poke_ne (Ne.symm hod) _).trans (peek_poke_ne (Ne.symm hop) _)
  log := (log_poke _ d _).trans (log_poke h p _)
  issued := (issued_poke _ d _).trans (issued_poke h p _)
  count c := (count_poke _ d _ c).trans (count_poke h p _ c)
  unique o := (isUnique_poke _ d _ o).trans (isUnique_poke h p _ o)
  status c := (status_poke _ d _ c).trans (status_poke h p _ c)
  live c := by
    have hd' : (h.poke p p.vacated).Outer d := hd.of_status (status_poke h p _)
    exact (live?_poke_outer hd' _ c).trans (live?_poke_outer hp _ c)
  data c := (data?_poke _ d _ c).trans (data?_poke h p _ c)

/-- A pointer that comes back to its place as it was leaves the heap as it was. -/
theorem poke_vacated_poke (hq : h.pointer? p = some q) :
    (h.poke p p.vacated).poke p (some q) = h := by
  rw [poke_poke, poke_eq_self (pointer?_eq_some hq)]

/-- Where a pointer can be put holds nothing once the pointer is out of its place. -/
theorem Receives.free (hq : h.pointer? p = some q) {k : Conversion} (hk : h.Receives self p k) :
    ∃ d, h.claim self k.dst = .ok d ∧ (h.poke p p.vacated).Free self k.dst d ∧
      ∀ q : Pointer, q.kind = k.kind → d.admits (some q) = true := by
  obtain ⟨d, hclaim, hempty, hadmits⟩ := hk
  have hp := pointer?_eq_some hq
  refine ⟨d, hclaim, ⟨(claim_poke hp _).trans hclaim, ?_⟩, hadmits⟩
  by_cases hdp : d = p
  · rw [hdp]
    exact peek_poke_vacated hp
  · exact (peek_poke_ne (Ne.symm hdp) _).trans (hempty.resolve_left hdp)

/-- **What conversions come to**: one of them narrows a pointer without target, and that is lost, or
none does, and the pointer is where the last of them puts it. -/
theorem Moment.convertAll_cases (hm : Moment n m) (hw : m.Meanwhile self rest)
    (hp : m.heap.claim self src = .ok p) (hq : m.heap.pointer? p = some q) {ks : List Conversion}
    (happ : (q.kind :: ks.map (·.kind)).IsChain Kind.Becomes)
    (hrec : ∀ k ∈ ks, m.heap.Receives self p k) :
    (q.NarrowsNull α (ks.map (·.kind)) ∧ LostNull m.heap p (m.heap.convertAll self src ks)) ∨
    ¬ q.NarrowsNull α (ks.map (·.kind)) ∧ ∃ d q', (m.heap.poke p p.vacated).Free self (arrival src ks) d ∧
      d.admits (some q') = true ∧ q'.kind = (ks.map (·.kind)).getLastD q.kind ∧
      m.heap.convertAll self src ks = ⟨(m.heap.poke p p.vacated).poke d (some q'), [], .done⟩ ∧
      Rehoused m.heap p d q q' (m.heap.convertAll self src ks) := by
  have hpeek := pointer?_eq_some hq
  have hs : Sound ⟨m.heap, [], rest⟩ := hw.sound hm
  have hout : ∀ {r : Ref} {d : Place}, m.heap.claim self r = .ok d → m.heap.Outer d := fun hd =>
    (hs.claimed hw.acting hd).outer
  have hfree : (m.heap.poke p p.vacated).Free self src p :=
    ⟨(claim_poke hpeek src).trans hp, peek_poke_vacated hpeek⟩
  have hback := poke_vacated_poke hq
  obtain ⟨⟨d, hd, hdone⟩, hlost⟩ := convertAll_eq hfree (admits_of_pointer? hq)
    (fun k hk => (hrec k hk).free hq |>.imp fun d hd => hd.2) happ
  rw [hback] at hdone hlost
  rcases become_cases (α := α) happ with ⟨hfail, hnone, hnarrow⟩ | ⟨q', hok, howner, hkind, hnot⟩
  · obtain rfl : q = .null := by
      cases q with
      | nullable o => rw [show o = none from hnone]; rfl
      | notNull o => simp [Pointer.owner?] at hnone
      | fixed o => simp [Pointer.owner?] at hnone
    rw [hlost hfail]
    exact .inl ⟨hnarrow, lostNull hq⟩
  · obtain ⟨hadmits, heq⟩ := hdone q' hok
    have hclaim : m.heap.claim self (arrival src ks) = .ok d := (claim_poke hpeek _).symm.trans hd.claimed
    refine .inr ⟨hnot, d, q', hd, hadmits, hkind, heq, ?_⟩
    rw [heq]
    exact rehoused (hout hp) hq (hout hclaim) hd.empty hadmits howner

/-- Dropping the pointer that conversions have come to is dropping the one that they started from. -/
theorem Free.perform_drop {dst : Ref} (hd : e.Free self dst d) (hadmits : d.admits (some q') = true)
    (howner : q'.owner? = q.owner?) :
    (e.poke d (some q')).perform self (.drop dst) = ⟨e, discard (some q), .done⟩ := by
  have hclaim : (e.poke d (some q')).claim self dst = .ok d := (hd.claim dst).trans hd.claimed
  have hthere := pointer?_poke_of_admits hd.empty hadmits
  rw [Heap.perform_drop hclaim hthere, hd.poke_vacated]
  simp only [discard, Option.bind_some, howner]

/-- A session that is asked to narrow a pointer without target answers with the error that names the
type of nullable pointers. -/
theorem convert_of_null {shape : Shape} {g : Session.State} {msg : Message} {i s : Nat} {k : Kind}
    (hi : Session.varAt "from" msg = .ok i) (hs : Session.varAt "s" msg = .ok s)
    (hk : Session.kind? (msg.textAt "to") = some k) (hci : g.claim none (.var i) = .ok (.var i))
    (hcs : g.claim none (.var s) = .ok (.var s)) (hq : g.pointer? (.var i) = some .null)
    (hne : k ≠ .nullable) :
    Session.convert shape g msg = .ok (g.poke (.var i) none,
      (InvalidAccess.null ("rc_shared::ref_counted::RefCountedPtr<" ++ shape.typeName ++ ">")).answer) := by
  have hconv : (Pointer.null.convert k : Except (Answer Datum) Pointer) = .error .null := by
    cases k with
    | nullable => exact absurd rfl hne
    | notNull => rfl
    | fixed => rfl
  have hperform : Session.perform g (.convert (.var i) (.var s) k) = (g.poke (.var i) none, .null) := by
    simp only [Session.perform, exec, operate, perform, performConvert, hci, hcs, hq, hconv]
    rfl
  simp only [Session.convert, hi, hs, hk, hperform, bind, Except.bind]
  rfl

/-- When the pointer is dropped, its owner signs off and no other one. -/
theorem Moment.count_drop (hm : Moment n m) (hw : m.Meanwhile self rest) (hp : m.heap.claim self src = .ok p)
    (hq : m.heap.pointer? p = some q) {o : Owner} (ho : q.owner? = some o) (c : CellId) :
    ((Machine.step ⟨m.heap.poke p p.vacated, .release o :: rest⟩).heap.count c).owners +
      (if o.cell = c then 1 else 0) = (m.heap.count c).owners := by
  have hdropped := hw.sound_drop hm hp hq
  rw [discard_of_owner? ho] at hdropped
  have hcount : ((Machine.release o (m.heap.poke p p.vacated) rest).heap.count c).owners +
      (if o.cell = c then 1 else 0) = ((m.heap.poke p p.vacated).count c).owners :=
    count_release hdropped c
  rwa [count_poke] at hcount

/-- **What the heap is after conversions**, whether one of them failed or not: no count, no value
and no data is another, and no destructor has run. -/
theorem Moment.convertAll_keeps (hm : Moment n m) (hw : m.Meanwhile self rest)
    (hp : m.heap.claim self src = .ok p) (hq : m.heap.pointer? p = some q) {ks : List Conversion}
    (happ : (q.kind :: ks.map (·.kind)).IsChain Kind.Becomes)
    (hrec : ∀ k ∈ ks, m.heap.Receives self p k) :
    let g := (m.heap.convertAll self src ks).heap
    (∀ c, g.count c = m.heap.count c) ∧ (∀ o, g.isUnique o = m.heap.isUnique o) ∧
    (∀ c, g.live? c = m.heap.live? c) ∧ (∀ c, g.data? c = m.heap.data? c) ∧ g.log = m.heap.log := by
  rcases hm.convertAll_cases hw hp hq happ hrec with ⟨-, hlost⟩ | ⟨-, d, q', -, -, -, -, hmoved⟩
  · rw [hlost.heap]
    refine ⟨fun c => rfl, fun o => ?_, fun c => rfl, fun c => rfl, rfl⟩
    cases o <;> rfl
  · exact ⟨hmoved.count, hmoved.unique, hmoved.live, hmoved.data, hmoved.log⟩

/-- **Conversions move the owner and nothing else.** At any moment the caller, or the destructor that
acts, converts a pointer that it may change, as often as it likes. This fails exactly if one of the
conversions narrows a pointer without target; a session answers that with the error that
names the type of nullable pointers, and no cell, count or other pointer is changed. Otherwise the
pointer that it comes to has the same target, and it is the same pointer if it is of the same
kind. After each of the conversions all counts and values are what they were, and no destructor
has run. Dropping what they come to makes one owner sign off. -/
theorem Moment.conversions_move_owner (hm : Moment n m) (hw : m.Meanwhile self rest)
    (hp : m.heap.claim self src = .ok p) (hq : m.heap.pointer? p = some q) {ks : List Conversion}
    (happ : (q.kind :: ks.map (·.kind)).IsChain Kind.Becomes)
    (hrec : ∀ k ∈ ks, m.heap.Receives self p k) :
    ((m.heap.convertAll self src ks).answer ≠ .done ↔ q.NarrowsNull α (ks.map (·.kind))) ∧
    (q.NarrowsNull α (ks.map (·.kind)) → LostNull m.heap p (m.heap.convertAll self src ks)) ∧
    (∀ shape g msg i s k, Session.varAt "from" msg = .ok i → Session.varAt "s" msg = .ok s →
      Session.kind? (msg.textAt "to") = some k → g.claim none (.var i) = .ok (.var i) →
      g.claim none (.var s) = .ok (.var s) → g.pointer? (.var i) = some .null → k ≠ .nullable →
      Session.convert shape g msg = .ok (g.poke (.var i) none,
        (InvalidAccess.null ("rc_shared::ref_counted::RefCountedPtr<" ++ shape.typeName ++ ">")).answer)) ∧
    (¬ q.NarrowsNull α (ks.map (·.kind)) → ∃ d q', m.heap.claim self (arrival src ks) = .ok d ∧
      q'.kind = (ks.map (·.kind)).getLastD q.kind ∧
      Rehoused m.heap p d q q' (m.heap.convertAll self src ks) ∧
      (q'.kind = q.kind → q' = q ∧ (d = p → (m.heap.convertAll self src ks).heap = m.heap)) ∧
      (m.heap.convertAll self src ks).heap.perform self (.drop (arrival src ks)) =
        ⟨m.heap.poke p p.vacated, discard (some q), .done⟩ ∧
      ∀ o, q.owner? = some o → discard (α := α) (some q) = [.release o] ∧
        ∀ c, ((Machine.step ⟨m.heap.poke p p.vacated, .release o :: rest⟩).heap.count c).owners +
          (if o.cell = c then 1 else 0) = (m.heap.count c).owners) ∧
    ∀ j, let g := (m.heap.convertAll self src (ks.take j)).heap
      (∀ c, g.count c = m.heap.count c) ∧ (∀ o, g.isUnique o = m.heap.isUnique o) ∧
      (∀ c, g.live? c = m.heap.live? c) ∧ (∀ c, g.data? c = m.heap.data? c) ∧ g.log = m.heap.log := by
  refine ⟨?_, ?_, fun shape g msg i s k hi hs hk hci hcs hq hne =>
    convert_of_null hi hs hk hci hcs hq hne, ?_, ?_⟩
  · rcases hm.convertAll_cases hw hp hq happ hrec with ⟨hnarrow, hlost⟩ | ⟨hnot, d, q', -, -, -, -, hmoved⟩
    · simp [hlost.answer, hnarrow]
    · simp [hmoved.answer, hnot]
  · intro hnarrow
    rcases hm.convertAll_cases hw hp hq happ hrec with ⟨-, hlost⟩ | ⟨hnot, -⟩
    · exact hlost
    · exact absurd hnarrow hnot
  · intro hnot
    rcases hm.convertAll_cases hw hp hq happ hrec with
      ⟨hnarrow, -⟩ | ⟨-, d, q', hd, hadmits, hkind, heq, hmoved⟩
    · exact absurd hnarrow hnot
    · have hdrop := hd.perform_drop hadmits hmoved.owner
      refine ⟨d, q', (claim_poke (pointer?_eq_some hq) _).symm.trans hd.claimed, hkind, hmoved, ?_, ?_, ?_⟩
      · intro hsame
        obtain rfl : q' = q := Pointer.eq_of_owner? hsame hmoved.owner
        refine ⟨rfl, ?_⟩
        rintro rfl
        rw [heq]
        exact poke_vacated_poke hq
      · rw [heq]
        exact hdrop
      · exact fun o ho => ⟨discard_of_owner? ho, hm.count_drop hw hp hq ho⟩
  · intro j
    have happ' : (q.kind :: (ks.take j).map (·.kind)).IsChain Kind.Becomes := by
      rw [List.map_take]
      exact happ.take (j + 1)
    exact hm.convertAll_keeps hw hp hq happ' fun k hk => hrec k (List.mem_of_mem_take hk)

/-- Two pointers to a value, of which the first is fixed and the second nullable, and a pointer without
target. -/
def sharedOnce : Heap Nat :=
  [.act (.make (.var 1) .nullable 7 [] [] [] 8), .act (.clone (.var 1) [] (.var 2)),
    .act (.convert (.var 2) (.var 0) .fixed), .act (.reset (.var 3))].foldl
    (fun h op => (h.exec op).1) (.empty 4)

theorem sharedOnce_moment : Moment 4 (⟨sharedOnce, []⟩ : Machine Nat) :=
  (((Moment.empty.exec _).exec _).exec _).exec _

/-- From the first variable into the third, where the pointer becomes nullable, and back. -/
def thereAndBack : List Conversion :=
  [⟨.var 2, .notNull⟩, ⟨.var 2, .nullable⟩, ⟨.var 0, .fixed⟩]

theorem thereAndBack_receives : ∀ k ∈ thereAndBack, sharedOnce.Receives none (.var 0) k := by
  have htwo : ∀ k : Kind, sharedOnce.Receives none (.var 0) ⟨.var 2, k⟩ := fun k =>
    ⟨.var 2, rfl, .inr rfl, fun _ _ => rfl⟩
  have hzero : sharedOnce.Receives none (.var 0) ⟨.var 0, .fixed⟩ := ⟨.var 0, rfl, .inl rfl, fun _ _ => rfl⟩
  intro k hk
  simp only [thereAndBack, List.mem_cons, List.not_mem_nil, or_false] at hk
  rcases hk with rfl | rfl | rfl
  · exact htwo .notNull
  · exact htwo .nullable
  · exact hzero

theorem thereAndBack_moves_owner :
    (sharedOnce.convertAll none (.var 0) thereAndBack).heap = sharedOnce ∧
    (∀ c, (sharedOnce.convertAll none (.var 0) (thereAndBack.take 2)).heap.count c = sharedOnce.count c) ∧
    LostNull sharedOnce (.var 3) (sharedOnce.convertAll none (.var 3) [⟨.var 2, .notNull⟩]) := by
  have hclaim : ∀ i, i < 4 → sharedOnce.claim none (.var i) = .ok (.var i) := by decide
  have hfixed : sharedOnce.pointer? (.var 0) = some (.fixed ⟨0, ⟨0, 1⟩⟩) := rfl
  have hnone : sharedOnce.pointer? (.var 3) = some .null := rfl
  have hreceives : ∀ k ∈ [(⟨.var 2, .notNull⟩ : Conversion)], sharedOnce.Receives none (.var 3) k := by
    intro k hk
    obtain rfl := List.mem_singleton.mp hk
    exact ⟨.var 2, rfl, .inr rfl, fun _ _ => rfl⟩
  have hback := Moment.conversions_move_owner sharedOnce_moment (.caller rfl) (hclaim 0 (by decide)) hfixed
    (by simp [thereAndBack, Pointer.kind, Kind.Becomes]) thereAndBack_receives
  have hnull := Moment.conversions_move_owner sharedOnce_moment (.caller rfl) (hclaim 3 (by decide)) hnone
    (by simp [Pointer.kind, Pointer.null, Kind.Becomes]) hreceives
  refine ⟨?_, fun c => (hback.2.2.2.2 2).1 c, hnull.2.1 (hnull.1.mp (by decide))⟩
  have hdone := mt hback.1.mpr (by decide)
  obtain ⟨d, q', hd, hkind, -, hsame, -⟩ := hback.2.2.2.1 hdone
  obtain rfl : Place.var 0 = d := Except.ok.inj hd
  exact (hsame hkind).2 rfl

end Custody.Heap
