/-
# A session answers as one that counts nothing

A session whose values are no nodes answers each request as the session that is held with
a register, and the same values are destroyed in the same step. One request is taken by
itself: the heap is at rest and has some register, the result is the one on the register,
and the heap that is left has the register that is left.

Key definitions: `Follows`.
Key theorems: `Ready.result`, `Ready.step`, `Ready.steps`, `transcript_eq`.
-/
import Custody.Proofs.Heap.Refine
import Custody.Proofs.Heap.Requests

namespace Custody.Heap

open Session

variable {α : Type} {shape : Shape} {h h' : State} {r r' : Register Datum} {m : Message}
  {ds : List (CellId × Datum)} {i : Nat}

/-! ### Results -/

/-- The heap is refused the same, or answers the same and has the register that is left. -/
inductive Follows : Session.Result → Register.Result → Prop
  | refused (e : Refusal) : Follows (.error e) (.error e)
  | answered {h : State} {t : Register.Told} (hr : Ready h t.register t.destroyed) :
      Follows (.ok (h, t.message)) (.ok t)

/-- What is read of the request first is the same. -/
theorem Follows.bind {β : Type} {x : Except Refusal β} {f : β → Session.Result}
    {g : β → Register.Result} (hfg : ∀ b, Follows (f b) (g b)) : Follows (x >>= f) (x >>= g) := by
  cases x with
  | error e => exact .refused e
  | ok b => exact hfg b

/-- What is said of a heap that does not change. -/
def said (h : State) : Except Refusal Message → Session.Result
  | .error e => .error e
  | .ok m => .ok (h, m)

theorem Ready.said (hr : Ready h r []) (x : Except Refusal Message) :
    Follows (said h x) (r.told x) := by
  cases x with
  | error e => exact .refused e
  | ok m => exact .answered (t := ⟨r, m, []⟩) hr

theorem finished_eq (x : State × Answer Datum) : finished shape x = said x.1 (x.2.told shape) := by
  rcases x with ⟨h, a⟩
  cases a <;> rfl

/-- A call that the heap serves as the register does is finished as it is there. -/
theorem Agrees.finished {x : State × Answer Datum} {o : Register.Outcome Datum}
    (ha : Agrees [] (x.1, .answer x.2) o) (hr : Rest x.1) :
    Follows (finished shape x) (o.finished shape) := by
  have hreply : o.reply = .answer x.2 := ha.reply.symm
  unfold Register.Outcome.finished
  rw [finished_eq, hreply]
  simp only
  cases x.2.told shape with
  | error e => exact .refused e
  | ok m => exact .answered (t := ⟨o.register, m, o.destroyed⟩) ⟨hr, ha.shows⟩

/-! ### Calls that are done or not -/

theorem Ready.finished (hr : Ready h r []) {a : Act Datum} {o : Register.Outcome Datum}
    (ha : Agrees [] (h.act a) o) :
    Follows (Session.finished shape (Session.perform h a)) (o.finished shape) :=
  Agrees.finished ha (hr.rest.exec (.act a))

/-- A request to assign gives one variable the target of another. -/
theorem assign_eq (shape : Shape) (h : State) (m : Message) :
    assign shape h m = (do
      let i ← varAt "from" m
      let s ← varAt "s" m
      finished shape (h.give s i)) := by
  unfold assign
  congr 1
  funext i
  congr 1
  funext s
  simp only [give, Session.pointer?]
  by_cases hself : i = s
  · simp only [if_pos hself]
    rcases h.pointer? (.var s) with _ | _ | _ | _ <;> rcases h.pointer? (.var i) with _ | _ | _ | _ <;> rfl
  · simp only [if_neg hself]
    rcases h.pointer? (.var s) with _ | _ | _ | _ <;> rcases h.pointer? (.var i) with _ | _ | _ | _ <;> rfl

theorem Ready.requestAssign (hr : Ready h r []) (m : Message) :
    Follows (Session.assign shape h m) (do
      let i ← varAt "from" m
      let s ← varAt "s" m
      (r.assign s i).finished shape) := by
  rw [assign_eq]
  refine .bind fun i => .bind fun s => ?_
  exact (hr.assign s i).finished (hr.rest.serve (.assign s i))

/-- Only nodes are read as nodes. -/
theorem read?_ne_node (hshape : shape ≠ .node) {d : Datum} (hd : shape.read? m = some d) :
    ∀ id n, d ≠ .node id n := by
  rintro id n rfl
  cases shape with
  | node => exact hshape rfl
  | _ => simp [Shape.read?, Option.bind_eq_some_iff] at hd

/-- A cell is made with a pointer in the variable that no request names, and loses it. -/
theorem Ready.made (hr : Ready h r []) (d : Datum) (near : Nat) {made : Register.Outcome Datum}
    (hmade : made = r.make (Node.lastVar + 1) .nullable d) :
    Ready (Session.perform (Session.perform h (.make scratch .nullable d [] [] [] near)).1
        (.drop scratch)).1 (made.register.store (Node.lastVar + 1) none).register
      (made.destroyed ++ (made.register.store (Node.lastVar + 1) none).destroyed) := by
  subst hmade
  have hready : Ready (Session.perform h (.make scratch .nullable d [] [] [] near)).1
      (r.make (Node.lastVar + 1) .nullable d).register
      (r.make (Node.lastVar + 1) .nullable d).destroyed :=
    ⟨hr.rest.exec _, (hr.make (Node.lastVar + 1) .nullable d near).shows⟩
  exact ⟨hready.rest.exec _, (hready.serve (.drop (Node.lastVar + 1))).shows⟩

theorem Ready.requestMake (hr : Ready h r []) (hshape : shape ≠ .node) (m : Message) :
    Follows (Session.make shape h m) (r.requestMake shape m) := by
  unfold Session.make Register.requestMake
  refine .bind fun s => ?_
  generalize (m.get? "v").getD .null = v
  dsimp only
  cases hread : shape.read? v with
  | none => exact .refused _
  | some d =>
    cases firstKind? (m.textAt "as") with
    | some kind =>
      have hdone : Follows
          (Session.finished shape (Session.perform h (.make (.var s) kind d [] [] [] (h.cells.length + 1))))
          ((r.make s kind d).finished shape) :=
        hr.finished (hr.make s kind d _)
      cases d with
      | node id n => exact absurd rfl (read?_ne_node hshape hread id n)
      | _ => exact hdone
    | none =>
      have hmade := hr.made d (h.cells.length + 1) rfl
      cases d with
      | node id n => exact absurd rfl (read?_ne_node hshape hread id n)
      | _ => exact .answered (t := ⟨_, _, _⟩) hmade

/-! ### Questions -/

theorem find_error {e : Answer Datum} (he : r.find i = .error e) : e = .absent ∨ e = .vacant := by
  unfold Register.find at he
  split at he
  · exact .inl (Except.error.inj he).symm
  · exact .inr (Except.error.inj he).symm
  · cases he

/-- A path is refused if there is one. -/
theorem pathOf_eq (hshape : shape ≠ .node) (m : Message) :
    pathOf shape m = ⟨[], if hasPath m then some (.unsupported "path") else none⟩ := by
  unfold pathOf hasPath
  cases ((m.get? "path").bind Message.list?).getD [] <;> cases shape <;>
    first | exact absurd rfl hshape | rfl

/-- A pointer has a value to be read if it has a target. -/
theorem Ready.value?_cases (hr : Ready h r ds) {q : Pointer} (hq : h.pointer? (.var i) = some q) :
    (q.arrow.target? = none ∧ r.value? q.arrow = none ∧ h.query none (.read (.var i) []) = .null) ∨
    ∃ c d, q.arrow.target? = some c ∧ r.value? q.arrow = some d ∧
      h.query none (.read (.var i) []) = .value d := by
  simp only [query, hr.find_of_pointer? hq, Register.value?, Pointer.target?_arrow]
  cases ho : q.owner? with
  | none =>
    simp only [through_null hq ho]
    exact .inl ⟨rfl, rfl, rfl⟩
  | some o =>
    obtain ⟨v, hv, hvalue⟩ := hr.exists_value hq ho
    simp only [through_live hq ho hv]
    exact .inr ⟨o.cell, v.data, rfl, hvalue, rfl⟩

/-- A question is answered as on the register if it is for each pointer. -/
theorem Ready.requestLook (hr : Ready h r []) (hshape : shape ≠ .node) {nullableOnly : Bool}
    {ask : Pointer → Option Datum → Except Refusal Message}
    {ask' : Nat → Arrow → Except Refusal Message}
    (hask : ∀ s q, h.pointer? (.var s) = some q →
      (if nullableOnly && q.kind ≠ .nullable then .error .kind else ask q (r.value? q.arrow)) =
        ask' s q.arrow) :
    Follows (Session.look shape h m nullableOnly ask) (r.requestLook shape m ask') := by
  unfold Session.look Register.requestLook
  refine .bind fun s => ?_
  dsimp only
  rw [pathOf_eq hshape]
  rcases hr.find s with ⟨e, hseen, hfind⟩ | ⟨q, hseen, hq⟩
  · -- there is no pointer, and this is said before anything of the path
    have hquery : h.query none (.read (.var s) []) = e := by simp only [query, hfind]
    rw [hseen, hquery, hfind]
    rcases find_error hseen with rfl | rfl
    · cases hasPath m <;> exact hr.said (.error (.badInput "no kid"))
    · cases hasPath m <;> exact hr.said (.error (.empty "slot"))
  · rw [hseen, hr.find_of_pointer? hq]
    have hsame := hask s q hq
    have hfollows : Follows
        (if nullableOnly && q.kind ≠ .nullable then .error .kind
          else do return (h, ← ask q (r.value? q.arrow))) (r.told (ask' s q.arrow)) := by
      rw [← hsame]
      split
      · exact .refused _
      · cases ask q (r.value? q.arrow) with
        | error e => exact .refused e
        | ok m => exact hr.said (.ok m)
    rcases hr.value?_cases hq with ⟨htarget, hvalue, hquery⟩ | ⟨c, d, htarget, hvalue, hquery⟩
    · rw [hvalue] at hfollows
      simp only [hquery, htarget]
      cases hasPath m with
      | true => exact hr.said (.ok (.record [("panic", .text (nullText shape))]))
      | false => exact hfollows
    · rw [hvalue] at hfollows
      simp only [hquery, htarget]
      cases hasPath m with
      | true => exact .refused _
      | false => exact hfollows

/-- What is answered to a look at a pointer. -/
theorem Ready.requestSeen (hr : Ready h r []) (hshape : shape ≠ .node) (l : Look)
    {ask : Pointer → Option Datum → Except Refusal Message}
    (hask : ∀ q d, ask q d = (l.reply q.owner?.isNone (h.isUnique q.owner?) d).told shape) :
    Follows (Session.look shape h m l.nullableOnly ask)
      (r.requestLook shape m fun s q => (r.seen s l q).told shape) := by
  refine hr.requestLook hshape fun s q hq => ?_
  rw [hask, ← hr.seen hq, hr.read hq]
  split <;> rfl

/-- What a pointer shows of itself. -/
theorem Ready.shown (hr : Ready h r ds) {q : Pointer} (hq : h.pointer? (.var i) = some q) :
    Session.shown h (h.cells.length + 1) q.kind q.owner? = r.shown q.arrow := by
  unfold Register.shown
  simp only [Pointer.kind_arrow]
  cases ho : q.owner? with
  | none =>
    have hvalue : r.value? q.arrow = none := by simp [Register.value?, ho]
    rw [hvalue]
    rfl
  | some o =>
    obtain ⟨v, hv, hdata⟩ := hr.exists_value hq ho
    have hvalue : r.value? q.arrow = some v.data := by simp [Register.value?, ho, hdata]
    -- a plain value has no successor
    have hnext : (v.get? Node.next).join = none := by
      have hfields := (hr.shows.plain_of_live? hv).fields
      simp [Value.get?, Node.next, hfields]
    rw [hvalue]
    simp only [Session.shown, hv, hnext]
    cases h.cells.length <;> rfl

theorem Ready.requestCompare (hr : Ready h r []) (m : Message) :
    Follows (Session.compare h m) (do
      let a ← varAt "a" m
      let b ← varAt "b" m
      r.told ((r.compare a b).reply.told shape)) := by
  unfold Session.compare
  refine .bind fun a => .bind fun b => ?_
  rw [← (hr.compare a b).reply]
  unfold Heap.compare Session.pointer?
  cases h.pointer? (.var a) with
  | none => exact .refused _
  | some q =>
    cases h.pointer? (.var b) with
    | none => exact .refused _
    | some q' =>
      simp only
      split
      · exact hr.said (.ok _)
      · exact .refused _

/-- There are as many identities as targets. -/
theorem Ready.requestDistinct (hr : Ready h r []) (m : Message) :
    Follows (Session.distinct h m) (r.requestDistinct m) := by
  unfold Session.distinct Register.requestDistinct
  cases kind? (m.textAt "kind") with
  | none => exact .refused _
  | some kind =>
    have harrows : ((List.range (Node.lastVar + 1)).filterMap fun i => r.slots[i]?.join) =
        ((List.range (Node.lastVar + 1)).filterMap (Session.pointer? h)).map Pointer.arrow := by
      rw [List.map_filterMap]
      exact List.filterMap_congr fun i _ => hr.slot i
    have hkind : (fun q : Pointer => decide (q.arrow.kind = kind)) = fun q => decide (q.kind = kind) := by
      simp only [Pointer.kind_arrow]
    have htargets : (((List.range (Node.lastVar + 1)).filterMap fun i => r.slots[i]?.join).filter
          (·.kind = kind)).map Arrow.target? =
        (((List.range (Node.lastVar + 1)).filterMap (Session.pointer? h)).filter (·.kind = kind)).map
          fun q => q.arrow.target? := by
      rw [harrows, List.filter_map, List.map_map]
      exact congrArg (fun p => ((((List.range (Node.lastVar + 1)).filterMap
        (Session.pointer? h)).filter p).map fun q : Pointer => q.arrow.target?)) hkind
    have hsizes := Identity.length_dedup_map
      (l := ((List.range (Node.lastVar + 1)).filterMap (Session.pointer? h)).filter (·.kind = kind))
      (f := fun q => h.identity q.owner?) (g := fun q : Pointer => q.arrow.target?) <| by
        intro p hp q hq
        obtain ⟨i, -, hi⟩ := List.mem_filterMap.mp (List.mem_of_mem_filter hp)
        obtain ⟨j, -, hj⟩ := List.mem_filterMap.mp (List.mem_of_mem_filter hq)
        exact hr.identity_eq_iff hi hj
    dsimp only
    rw [htargets, List.length_map, ← hsizes]
    unfold Identity.distinct
    rw [Identity.orderedSize_eq, Identity.hashedSize_eq, List.length_map]
    exact hr.said (.ok _)

/-! ### Changes -/

theorem Ready.requestClear (hr : Ready h r []) (m : Message) :
    Follows (do
        let s ← varAt "s" m
        if isNullable h s then Session.finished shape (Session.perform h (.clear (.var s)))
        else .error .kind)
      (do
        let s ← varAt "s" m
        match r.slots[s]?.join with
        | some (.nullable _) => (r.clear s).finished shape
        | _ => .error (.unsupported "kind")) := by
  refine .bind fun s => ?_
  rw [hr.slot]
  unfold isNullable Session.pointer?
  cases h.pointer? (.var s) with
  | none => exact .refused _
  | some q =>
    cases q with
    | nullable o => exact hr.finished (hr.clear s)
    | notNull o => exact .refused _
    | fixed o => exact .refused _

theorem Ready.requestConvert (hr : Ready h r []) (m : Message) :
    Follows (Session.convert shape h m) (r.requestConvert shape m) := by
  unfold Session.convert Register.requestConvert
  refine .bind fun i => .bind fun s => ?_
  cases kind? (m.textAt "to") with
  | none => exact .refused _
  | some kind =>
    have hconvert := hr.convert i s kind
    have hready : Ready (Session.perform h (.convert (.var i) (.var s) kind)).1
        (r.convert i s kind).register (r.convert i s kind).destroyed :=
      ⟨hr.rest.exec _, hconvert.shows⟩
    have hreply : (r.convert i s kind).reply =
        .answer (Session.perform h (.convert (.var i) (.var s) kind)).2 := hconvert.reply.symm
    dsimp only
    rw [hreply]
    revert hready
    rcases Session.perform h (.convert (.var i) (.var s) kind) with ⟨h', a⟩
    intro hready
    cases a with
    | done => exact .answered (t := ⟨_, _, _⟩) hready
    | null => exact .answered (t := ⟨_, _, _⟩) hready
    | _ => exact .refused _

/-- A value is changed, or why not is said. -/
theorem reply_update (r : Register Datum) (i : Nat) (f : Datum → Datum) :
    (∃ d, (r.update i f).reply = .answer (.value d)) ∨
    ∃ a : Answer Datum, (r.update i f).reply = .answer a ∧
      (a = .absent ∨ a = .vacant ∨ a = .denied ∨ a = .dangling) := by
  unfold Register.update
  split
  · rename_i e hfind
    exact .inr ⟨e, rfl, (find_error hfind).imp_right .inl⟩
  · split
    · exact .inr ⟨.denied, rfl, by simp⟩
    · split
      · exact .inr ⟨.denied, rfl, by simp⟩
      · split
        · exact .inr ⟨.dangling, rfl, by simp⟩
        · exact .inl ⟨_, rfl⟩

theorem Ready.requestChange (hr : Ready h r []) (hshape : shape ≠ .node) (m : Message)
    (f : Datum → Message → Option Datum) :
    Follows (Session.change shape h m f) (r.requestChange shape m f) := by
  unfold Session.change Register.requestChange
  refine .bind fun s => ?_
  dsimp only
  rw [pathOf_eq hshape]
  have hreply : (r.update s id).reply =
      .answer (Session.perform h (.update (.var s) [] id)).2 := (hr.update s id).reply.symm
  have hcases := reply_update r s id
  rw [hreply] at hcases ⊢
  generalize Session.perform h (.update (.var s) [] id) = x at hcases
  rcases x with ⟨h', a⟩
  rcases hcases with ⟨d, hd⟩ | ⟨a', ha, hwhy⟩
  · obtain rfl := Reply.answer.inj hd
    cases hasPath m with
    | true => exact .refused _
    | false =>
      simp only [Bool.false_eq_true, if_false]
      cases f d ((m.get? "v").getD .null) with
      | none => exact .refused _
      | some d =>
        exact .answered (t := ⟨_, _, _⟩) ⟨hr.rest.exec _, (hr.update s fun _ => d).shows⟩
  · obtain rfl := Reply.answer.inj ha
    rcases hwhy with rfl | rfl | rfl | rfl
    · exact hr.said (.error (.badInput "no kid"))
    · exact hr.said (.error (.empty "slot"))
    · exact hr.said (.ok (.text "none"))
    · exact hr.said (.error (.unsupported "kind"))

/-! ### Requests -/

/-- **Each request is answered as on the register, or refused as there.** -/
theorem Ready.result (hr : Ready h r []) (hshape : shape ≠ .node) (m : Message) :
    Follows (Session.result shape h m) (r.result shape m) := by
  unfold Session.result Register.result
  generalize m.textAt "o" = name
  split
  case h_1 => exact hr.requestMake hshape m
  case h_2 => exact .bind fun s => hr.finished (hr.serve (.null s))
  case h_3 => exact .bind fun s => hr.finished (hr.serve (.null s))
  case h_4 => exact .bind fun s => hr.finished (hr.serve (.drop s))
  case h_5 => exact .bind fun i => .bind fun s => hr.finished (hr.move i s)
  case h_6 => exact .bind fun i => .bind fun s => hr.finished (hr.clone i s)
  case h_7 => exact hr.requestClear m
  case h_8 => exact hr.requestAssign m
  case h_9 => exact hr.requestSeen hshape .get fun q d => by cases d <;> rfl
  case h_10 => exact hr.requestSeen hshape .tryGet fun q d => by cases d <;> rfl
  case h_11 => exact hr.requestSeen hshape .deref fun q d => by cases d <;> rfl
  case h_12 => exact hr.requestSeen hshape .isNull fun q d => rfl
  case h_13 => exact hr.requestSeen hshape .isUnique fun q d => rfl
  case h_14 =>
    refine hr.requestLook hshape fun s q hq => ?_
    rw [hr.shown hq]
    rfl
  case h_15 => exact hr.requestChange hshape m Datum.set?
  case h_16 => exact hr.requestChange hshape m Datum.add?
  case h_17 => exact hr.requestCompare m
  case h_18 => exact hr.requestDistinct m
  case h_19 => exact hr.requestConvert m
  case h_26 =>
    split <;> first | contradiction | exact .refused _
  all_goals exact absurd rfl hshape

/-! ### Steps -/

/-- The word for a variable says what is in it, and whether another has the same target. -/
theorem Ready.word (hr : Ready h r ds) (i : Nat) :
    Session.word h (Session.pointer? h i) = r.word i := by
  unfold Register.word
  rw [hr.slot]
  unfold Session.pointer?
  cases hq : h.pointer? (.var i) with
  | none => rfl
  | some q =>
    cases ho : q.owner? with
    | none =>
      cases q with
      | nullable o =>
        obtain rfl : o = none := ho
        rfl
      | notNull o => cases ho
      | fixed o => cases ho
    | some o =>
      have hunique := hr.shows.isUnique_iff hr.rest.sound hq ho
      rcases q with _ | o | o
      all_goals
        cases ho
        simp only [Session.word, Option.map_some, Pointer.arrow, Pointer.owner?, hunique]
        cases r.shared i o.cell <;> rfl

theorem Ready.words (hr : Ready h r ds) :
    Session.words h = " ".intercalate ((List.range (Node.lastVar + 1)).map r.word) := by
  unfold Session.words
  simp only [hr.word]

/-- Of plain values only that they were destroyed is told. -/
theorem Shows.story (hsh : Shows h r ds) : Session.story h = obituaries ds := by
  have htold : ∀ e ∈ h.log.reverse,
      told? e = e.news?.bind fun d => d.bind fun d => Datum.obituary? d.2 := by
    intro e he
    cases e with
    | reported c a text => exact absurd rfl (hsh.silent (List.mem_reverse.mp he))
    | destroyed c d => cases d <;> rfl
    | _ => rfl
  have htexts : h.log.reverse.filterMap told? =
      h.tale.filterMap fun d => d.bind fun d => Datum.obituary? d.2 := by
    rw [List.filterMap_congr htold, Heap.tale, List.filterMap_filterMap]
  unfold Session.story obituaries
  rw [htexts, hsh.tale, List.filterMap_map]
  rfl

/-- No destructor gives up. -/
theorem Shows.gaveUp (hsh : Shows h r ds) : Session.gaveUp h = false := by
  unfold Session.gaveUp
  apply List.any_eq_false.mpr
  intro e he
  cases e with
  | gaveUp c => exact absurd rfl (hsh.silent he)
  | _ => simp

/-- **A step is answered as on the register, and the same is destroyed in it.** -/
theorem Ready.step (hr : Ready h r ds) (hshape : shape ≠ .node) (m : Message) :
    (Session.step shape h m).2 = (r.tell shape m).record ∧
      Ready (Session.step shape h m).1 (r.tell shape m).register (r.tell shape m).destroyed := by
  have hready : Ready { h with log := [] } r [] := ⟨hr.rest.forget, hr.shows.forget⟩
  have hfollows := hready.result hshape m
  unfold Session.step Register.tell Register.Told.record
  dsimp only
  generalize Session.result shape { h with log := [] } m = x at hfollows
  generalize r.result shape m = y at hfollows
  cases hfollows with
  | refused e =>
    dsimp only
    rw [hready.words, hready.shows.story]
    exact ⟨rfl, hready⟩
  | answered hr' =>
    dsimp only
    rw [hr'.words, hr'.shows.story, hr'.shows.gaveUp]
    exact ⟨rfl, hr'⟩

theorem Ready.steps (hshape : shape ≠ .node) (requests : List Message) (hr : Ready h r ds) :
    (Session.steps shape requests h).1 = r.answers shape requests ∧
      ∃ ds, Ready (Session.steps shape requests h).2 (r.after shape requests) ds := by
  induction requests generalizing h r ds with
  | nil => exact ⟨rfl, ds, hr⟩
  | cons m requests ih =>
    obtain ⟨hanswer, hready⟩ := hr.step hshape m
    obtain ⟨hanswers, hrest⟩ := ih hready
    refine ⟨?_, hrest⟩
    calc (Session.step shape h m).2 :: (Session.steps shape requests (Session.step shape h m).1).1
        = (r.tell shape m).record :: (r.tell shape m).register.answers shape requests := by
          rw [hanswer, hanswers]

/-- The variables are emptied one after the other. -/
theorem Ready.emptied (is : List Nat) (hr : Ready h r ds) :
    ∃ r', Ready (is.foldl (fun h i => (Session.perform h (.drop (.var i))).1) h) r'
      (ds ++ r.emptied is) := by
  induction is generalizing h r ds with
  | nil =>
    refine ⟨r, ?_⟩
    rw [Register.emptied, List.append_nil]
    exact hr
  | cons i is ih =>
    have hready : Ready (Session.perform h (.drop (.var i))).1 (r.store i none).register
        (ds ++ (r.store i none).destroyed) :=
      ⟨hr.rest.exec _, (hr.serve (.drop i)).shows⟩
    rw [Register.emptied, ← List.append_assoc]
    exact ih hready

theorem ready_empty (n : Nat) : Ready (.empty n : Heap α) (.empty n) [] :=
  ⟨rest_empty n, shows_empty n⟩

/-! ### Sessions -/

/-- A session answers as the one with a register. -/
theorem session_eq (hshape : shape ≠ .node) (requests : List Message) :
    Heap.session shape requests = Register.session shape requests := by
  obtain ⟨hanswers, ds, hready⟩ := (ready_empty (Node.lastVar + 2)).steps hshape requests
  have hforget : Ready { (Session.steps shape requests (.empty (Node.lastVar + 2))).2 with log := [] }
      (Register.after shape requests (.empty (Node.lastVar + 2))) [] :=
    ⟨hready.rest.forget, hready.shows.forget⟩
  obtain ⟨r', hclosed⟩ := hforget.emptied (List.range (Node.lastVar + 1))
  have hend := hclosed.shows.story
  rw [List.nil_append] at hend
  unfold Heap.session Register.session Session.close
  rw [← hanswers, ← hend]

/-- **Every session is answered as by a register that counts nothing, with the same
destructions in each step, and leaves the same in the variables; and the register always
has the values that some variable targets, and no others. If the values are no nodes, this
is what a session answers to whatever is requested, and in each step destroys.** -/
theorem transcript_eq (n : Nat) (calls : List (Call α)) :
    ((Heap.empty n).transcript calls).1 = ((Register.empty n).transcript calls).1 ∧
      ((Heap.empty n).transcript calls).2.register = ((Register.empty n).transcript calls).2 ∧
      (∀ c, ((Register.empty n).transcript calls).2.values[c]?.join.isSome =
        ((Register.empty n).transcript calls).2.targeted c) ∧
      ∀ shape ≠ Shape.node, ∀ requests,
        Heap.session shape requests = Register.session shape requests ∧
        ∀ m, (Session.step shape (Session.steps shape requests (.empty (Node.lastVar + 2))).2 m).1.deaths =
          (Register.tell shape (Register.after shape requests (.empty (Node.lastVar + 2))) m).destroyed := by
  obtain ⟨htold, hrest, ds, hshows⟩ := (shows_empty n).transcript calls (rest_empty n)
  refine ⟨htold, hshows.register, hshows.value_iff hrest, fun shape hshape requests => ?_⟩
  refine ⟨session_eq hshape requests, fun m => ?_⟩
  obtain ⟨-, ds, hready⟩ := (ready_empty (Node.lastVar + 2)).steps hshape requests
  exact (hready.step hshape m).2.shows.deaths

/-- Neither of two pointers to an integer is unique, so it is not added to. -/
theorem shared_int_kept :
    Shape.int ≠ .node ∧
      Heap.session .int
        [.record [("o", .text "make"), ("s", .int 0), ("v", .int 5), ("as", .text "ptr")],
          .record [("o", .text "clone"), ("from", .int 0), ("s", .int 1)],
          .record [("o", .text "is_unique"), ("s", .int 1)],
          .record [("o", .text "add"), ("s", .int 1), ("v", .int 1)]] =
        .record
          [("steps", .list
            [.record [("r", .text "ok"), ("ev", .texts []), ("slots", .text "Pu - - - - - - -")],
              .record [("r", .text "ok"), ("ev", .texts []), ("slots", .text "Ps Ps - - - - - -")],
              .record [("r", .bool false), ("ev", .texts []), ("slots", .text "Ps Ps - - - - - -")],
              .record [("r", .text "none"), ("ev", .texts []), ("slots", .text "Ps Ps - - - - - -")]]),
            ("end", .texts [])] :=
  ⟨by decide,
    ((transcript_eq 0 ([] : List (Call Unit))).2.2.2 .int (by decide) _).1.trans rfl⟩

/-- The value goes with the second of two pointers, however they were made. -/
example : (((Heap.empty 2).transcript
    [.make 0 .fixed 5 1, .clone 0 1, .convert 0 0 .nullable, .drop 1, .clear 0]).1.map (·.2)) =
      [[], [], [], [], [(0, 5)]] :=
  rfl

end Custody.Heap
