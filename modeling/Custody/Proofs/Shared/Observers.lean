/-
# What can be seen of a handle

A locked handle reads, changes, compares and shows the value of the cell that it is locked on;
a released one refuses all that with the same error, and is as one that never had a cell.
Whichever way a handle is looked at, the answers agree; and what a released handle answers
depends on the names of its type and of the type of its value only.

Key definitions: `World.Shows`, `World.ShowsNothing`, `Session.releasedResult`.
Key theorems: `Reachable.shows`, `showsNothing`, `handleResult_released`, `World.handle_life`.
-/
import Custody.Proofs.Identity
import Custody.Proofs.Shared.Addresses
import Custody.Proofs.Shared.Handles
import Custody.Shared.Session

namespace Custody.Shared

variable {α : Type} {w : World α} {P : Policy} {t : ThreadId} {n : HandleName} {h : Handle}

/-! ### What a thread is answered -/

/-- Through a handle, each answer says the value, and the handle compares as one that refers to a
cell. -/
structure World.Shows (P : Policy) (w : World α) (t : ThreadId) (n : HandleName) (h : Handle) (v : α) :
    Prop where
  valid : h.isValid = true
  reads : w.read? h = some v
  read : (w.step P (.read t n)).2 = .value v
  update : h.kind.mayWrite = true → ∀ f, (w.step P (.update t n f)).2 = .value (f v)
  overwrite : h.kind.isSerialized = true → ∀ f, (w.step P (.overwrite t n f)).2 = .value (f v)
  identity : (w.identityOf h).isNull = false
  shown : ∀ draw, w.shown draw h = .tuple h.kind.name [draw v]

/-- Through a handle, each answer says that it is released, and it compares as one that refers to
nothing. -/
structure World.ShowsNothing (P : Policy) (w : World α) (t : ThreadId) (n : HandleName) (h : Handle) :
    Prop where
  valid : h.isValid = false
  reads : w.read? h = none
  read : (w.step P (.read t n)).2 = .released h.kind
  update : h.kind.mayWrite = true → ∀ f, (w.step P (.update t n f)).2 = .released h.kind
  overwrite : h.kind.isSerialized = true → ∀ f, (w.step P (.overwrite t n f)).2 = .released h.kind
  identity : w.identityOf h = ⟨0⟩
  shown : ∀ draw, w.shown draw h = .atom (h.kind.name ++ "(<released>)")

/-- What a thread that does not wait does through a handle that it has. -/
theorem step_access {s : World.Step α} {u : World.Use} {f : α → α}
    (hs : s.thread? = some t) (hthread : w.stepThread P s = w.withHandle t n (w.stepAccess u f))
    (hfree : w.isBlocked t = false) (hh : w.handles.get? (t, n) = some h) :
    w.step P s = w.stepAccess u f h := by
  rw [step_of_thread P w hs, hfree, hthread]
  simp only [Bool.false_eq_true, if_false, World.withHandle, hh]

/-- **A locked handle shows its value**, whichever way it is looked at. -/
theorem World.Reachable.shows (hw : w.Reachable) (hh : w.handles.get? (t, n) = some h)
    (hvalid : h.isValid = true) (hfree : w.isBlocked t = false) : ∃ v, w.Shows P t n h v := by
  obtain ⟨c, hg⟩ := Option.isSome_iff_exists.mp hvalid
  obtain ⟨v, hv⟩ := hw.read_of_grant hh hg
  refine ⟨v, hvalid, hv, ?_, fun hk f => ?_, fun hk f => ?_, ?_, fun draw => ?_⟩
  · rw [step_access rfl rfl hfree hh, World.stepAccess_locked rfl hv]
    rfl
  · rw [step_access rfl rfl hfree hh, World.stepAccess_locked (u := .update) hk hv]
  · rw [step_access rfl rfl hfree hh, World.stepAccess_locked (u := .overwrite) hk hv]
  · rw [hw.isNull_identity hh, hvalid]
    rfl
  · unfold World.shown
    rw [hv]

/-- **A released handle shows nothing**, whichever way it is looked at. -/
theorem showsNothing (hh : w.handles.get? (t, n) = some h) (hvalid : h.isValid = false)
    (hfree : w.isBlocked t = false) : w.ShowsNothing P t n h := by
  have hg : h.grant = none := Option.isNone_iff_eq_none.mp (Option.isSome_eq_false_iff.mp hvalid)
  have hreads : w.read? h = none := World.read?_of_none hg
  refine ⟨hvalid, hreads, ?_, fun hk f => ?_, fun hk f => ?_, ?_, fun draw => ?_⟩
  · rw [step_access rfl rfl hfree hh, World.stepAccess_released rfl hg]
  · rw [step_access rfl rfl hfree hh, World.stepAccess_released (u := .update) hk hg]
  · rw [step_access rfl rfl hfree hh, World.stepAccess_released (u := .overwrite) hk hg]
  · exact World.identityOf_of_none hg w
  · unfold World.shown
    rw [hreads]

/-! ### Comparing -/

/-- What is said of a released handle and another one depends on whether the other is locked, and on
nothing else. -/
theorem World.Reachable.comparison_released (hw : w.Reachable) (hvalid : h.isValid = false)
    {key : HandleKey} {b : Handle} (hb : w.handles.get? key = some b) :
    (w.identityOf h).comparison (w.identityOf b) = Identity.said (!b.isValid) true (!b.isValid) ∧
      (w.identityOf b).comparison (w.identityOf h) = Identity.said (!b.isValid) (!b.isValid) true := by
  have hg : h.grant = none := Option.isNone_iff_eq_none.mp (Option.isSome_eq_false_iff.mp hvalid)
  have hnull := hw.isNull_identity hb
  have hsame : decide (w.identityOf b = ⟨0⟩) = !b.isValid := by rw [Identity.decide_eq_zero, hnull]
  have hsame' : decide (⟨0⟩ = w.identityOf b) = !b.isValid := by
    rw [decide_eq_decide.mpr eq_comm, hsame]
  rw [World.identityOf_of_none hg, Identity.comparison_eq_said, Identity.comparison_eq_said, hnull,
    hsame, hsame']
  exact ⟨rfl, rfl⟩

/-! ### What a session answers -/

namespace Session

/-- What is said of the use of a released handle: it names the type of the handle and that of its
value. -/
def releasedText (shape : Shape) (k : HandleKind) : String :=
  "attempt to use released access handle - rc_shared::handle::" ++ k.name ++
    "<" ++ shape.typeName ++ ">"

/-- Who tries a released handle is given an error, and who just uses it panics. -/
def releasedReply (shape : Shape) (k : HandleKind) (tried : Bool) : Message :=
  if tried then .record [("error", .text "Released"), ("message", .text (releasedText shape k))]
  else .record [("panic", .text (releasedText shape k))]

/-- What a released handle answers to a request of a thread that looks at it. -/
def releasedResult (shape : Shape) (k : HandleKind) (m : Message) : Except Refusal Message :=
  let tried := m.textAt "how" = "try"
  match m.textAt "o" with
  | "set" | "add" => if k.mayWrite then .ok (releasedReply shape k tried) else .error .kind
  | "set_shared" =>
    if shape = .cell ∧ k.isSerialized then .ok (releasedReply shape k false) else .error .kind
  | "is_valid" => .ok (.bool false)
  | "try_get" => .ok (releasedReply shape k true)
  | "deref" => .ok (releasedReply shape k false)
  | _ =>
    match Format.ofName? (m.textAtD "?" "spec") with
    | some _ => .ok (.text (k.name ++ "(<released>)"))
    | none => .error (.badInput "spec")

/-- The requests that look at a handle. -/
def looks : List String :=
  ["set", "add", "set_shared", "is_valid", "try_get", "deref", "debug"]

variable {shape : Shape} {s : State} {m : Message}

theorem releasedAccess_message (shape : Shape) (k : HandleKind) :
    (releasedAccess shape k).message = releasedText shape k := by
  have hfront : "attempt to use released access handle - rc_shared::handle::" =
      "attempt to use released access handle - " ++ "rc_shared::handle::" := by decide
  show "attempt to use released access handle - " ++
    ("rc_shared::handle::" ++ k.name ++ "<" ++ shape.typeName ++ ">") = _
  unfold releasedText
  rw [hfront]
  simp only [String.append_assoc]

theorem releasedAnswer_eq (shape : Shape) (k : HandleKind) (tried : Bool) :
    releasedAnswer shape k tried = releasedReply shape k tried := by
  unfold releasedAnswer releasedReply
  rw [← releasedAccess_message]
  rfl

theorem handle?_eq_ok {name : String} (hh : handle? s t name = .ok h) :
    s.world.handles.get? (t, .named name) = some h := by
  unfold handle? at hh
  split at hh
  · rename_i h' hh'
    rw [hh', Except.ok.inj hh]
  · cases hh

/-- A step that leaves the world as it is leaves the session as it is. -/
theorem perform_eq {e : World.Step Datum} {r : World.Reply Datum}
    (he : s.world.step policy e = (s.world, r)) : perform s e = (s, r) := by
  unfold perform
  rw [he]

theorem perform_answer {e : World.Step Datum} {r : World.Reply Datum}
    (he : (s.world.step policy e).2 = r) : ∃ s', perform s e = (s', r) :=
  ⟨{ s with world := (s.world.step policy e).1 }, congrArg _ he⟩

theorem edit_released {name : HandleName} (hh : s.world.handles.get? (t, name) = some h)
    (hg : h.grant = none) (hfree : s.world.isBlocked t = false) (e : Edit) (tried : Bool) :
    edit shape s t name e tried =
      if h.kind.mayWrite then .ok (s, releasedReply shape h.kind tried) else .error .kind := by
  unfold edit
  cases hk : h.kind.mayWrite with
  | true =>
    have hstep := World.stepAccess_released (w := s.world) (u := .update) hk hg id
    rw [perform_eq ((step_access rfl rfl hfree hh).trans hstep)]
    simp only [releasedAnswer_eq, if_true]
  | false =>
    have hstep := World.stepAccess_unsupported (w := s.world) (u := .update) hk id
    rw [perform_eq ((step_access rfl rfl hfree hh).trans hstep)]
    rfl

theorem overwrite_released {name : HandleName} (hh : s.world.handles.get? (t, name) = some h)
    (hg : h.grant = none) (hfree : s.world.isBlocked t = false) (v : Message) :
    overwrite shape s t name v =
      if shape = .cell ∧ h.kind.isSerialized then .ok (s, releasedReply shape h.kind false)
      else .error .kind := by
  unfold overwrite
  by_cases hshape : shape = .cell
  · cases hk : h.kind.isSerialized with
    | true =>
      have hstep := World.stepAccess_released (w := s.world) (u := .overwrite) hk hg id
      rw [perform_eq ((step_access rfl rfl hfree hh).trans hstep)]
      simp [hshape, releasedAnswer_eq]
    | false =>
      have hstep := World.stepAccess_unsupported (w := s.world) (u := .overwrite) hk id
      rw [perform_eq ((step_access rfl rfl hfree hh).trans hstep)]
      simp [hshape]
  · simp [hshape]

theorem read_released {name : HandleName} (hh : s.world.handles.get? (t, name) = some h)
    (hg : h.grant = none) (hfree : s.world.isBlocked t = false) (tried : Bool) :
    read shape s t name tried = .ok (s, releasedReply shape h.kind tried) := by
  unfold read
  rw [perform_eq ((step_access rfl rfl hfree hh).trans (World.stepAccess_released rfl hg id))]
  simp only [releasedAnswer_eq]

/-- Through a locked handle a thread reads its value, and does not panic. -/
theorem read_locked {name : HandleName} {d : Datum} (hh : s.world.handles.get? (t, name) = some h)
    (hd : s.world.read? h = some d) (hfree : s.world.isBlocked t = false) (tried : Bool) :
    ∃ s', read shape s t name tried = .ok (s', .ok d.answer) := by
  have hanswer : (s.world.step policy (.read t name)).2 = .value d := by
    rw [step_access rfl rfl hfree hh, World.stepAccess_locked rfl hd]
    rfl
  obtain ⟨s', hperform⟩ := perform_answer hanswer
  refine ⟨s', ?_⟩
  unfold read
  rw [hperform]

/-- Through a locked handle that may write a thread makes each change that can be made. -/
theorem edit_locked {name : HandleName} {d d' : Datum} {e : Edit}
    (hh : s.world.handles.get? (t, name) = some h) (hd : s.world.read? h = some d)
    (hk : h.kind.mayWrite = true) (hfree : s.world.isBlocked t = false) (he : e.apply d = some d')
    (tried : Bool) : ∃ s', edit shape s t name e tried = .ok (s', .ok d'.answer) := by
  have hanswer : (s.world.step policy (.update t name id)).2 = .value d := by
    rw [step_access rfl rfl hfree hh, World.stepAccess_locked (u := .update) hk hd]
    rfl
  obtain ⟨s', hperform⟩ := perform_answer hanswer
  unfold edit
  rw [hperform]
  simp only [he]
  exact ⟨_, rfl⟩

/-- **What a released handle answers** is said by the names of its type and of the type of its
value, and it changes nothing. -/
theorem handleResult_released (hh : handle? s t (m.textAt "h") = .ok h) (hvalid : h.isValid = false)
    (hfree : s.world.isBlocked t = false) (ho : m.textAt "o" ∈ looks) :
    handleResult shape s t m = (releasedResult shape h.kind m).map fun r => (s, r) := by
  have hhandle := handle?_eq_ok hh
  have hnothing := showsNothing (P := policy) hhandle hvalid hfree
  have hg : h.grant = none := Option.isNone_iff_eq_none.mp (Option.isSome_eq_false_iff.mp hvalid)
  have hread : ∀ tried, read shape s t (.named (m.textAt "h")) tried =
      .ok (s, releasedReply shape h.kind tried) := read_released hhandle hg hfree
  have hedit : ∀ e tried, edit shape s t (.named (m.textAt "h")) e tried =
      if h.kind.mayWrite then .ok (s, releasedReply shape h.kind tried) else .error .kind :=
    edit_released hhandle hg hfree
  have hover : ∀ v, overwrite shape s t (.named (m.textAt "h")) v =
      if shape = .cell ∧ h.kind.isSerialized then .ok (s, releasedReply shape h.kind false)
      else .error .kind := overwrite_released hhandle hg hfree
  unfold handleResult releasedResult
  simp only [looks, List.mem_cons, List.not_mem_nil, or_false] at ho
  rcases ho with ho | ho | ho | ho | ho | ho | ho <;> rw [ho, hh]
  · refine (hedit _ _).trans ?_
    cases h.kind.mayWrite <;> rfl
  · refine (hedit _ _).trans ?_
    cases h.kind.mayWrite <;> rfl
  · refine (hover _).trans ?_
    dsimp only
    split <;> rfl
  · show Except.ok (s, Message.bool h.isValid) = _
    rw [hvalid]
    rfl
  · exact hread true
  · exact hread false
  · have hrender : ∀ f : Format, (Shown.atom (h.kind.name ++ "(<released>)")).render f =
        h.kind.name ++ "(<released>)" := by
      intro f
      unfold Shown.render
      split <;> rfl
    cases Format.ofName? (m.textAtD "?" "spec") with
    | none => rfl
    | some f =>
      show Except.ok (s, Message.text ((s.world.shown (fun d : Datum => d.shown []) h).render f)) = _
      rw [hnothing.shown, hrender]
      rfl

/-- What is said when a released handle is compared with another one, or another one with it. -/
theorem compareHandles_released {b : Handle} (hw : s.world.Reachable) (hvalid : h.isValid = false)
    (hkind : b.kind = h.kind) :
    (handle? s t (m.textAt "a") = .ok h → handle? s t (m.textAt "b") = .ok b →
      compareHandles s t m = .ok (Identity.said (!b.isValid) true (!b.isValid))) ∧
    (handle? s t (m.textAt "a") = .ok b → handle? s t (m.textAt "b") = .ok h →
      compareHandles s t m = .ok (Identity.said (!b.isValid) (!b.isValid) true)) := by
  unfold compareHandles
  constructor
  · intro ha hb
    rw [ha, hb]
    show (if h.kind = b.kind then (.ok _ : Except Refusal Message) else .error .kind) = _
    rw [if_pos hkind.symm, (hw.comparison_released hvalid (handle?_eq_ok hb)).1]
  · intro ha hb
    rw [ha, hb]
    show (if b.kind = h.kind then (.ok _ : Except Refusal Message) else .error .kind) = _
    rw [if_pos hkind, (hw.comparison_released hvalid (handle?_eq_ok ha)).2]

/-- What a session answers to a thread that looks at a handle: a released one answers what its kind
and the type of its value say, and so the same as any other one of that kind, in whatever session and
whatever cell it was locked on; what is said of it and another one of its kind depends on whether that
is locked; a locked one answers its value, or what that is changed to, and the thread does not
panic. -/
structure Answers (shape : Shape) (s : State) (t : ThreadId) (m : Message) (h : Handle) : Prop where
  released : h.isValid = false → m.textAt "o" ∈ looks →
    handleResult shape s t m = (releasedResult shape h.kind m).map fun r => (s, r)
  alike : h.isValid = false → m.textAt "o" ∈ looks →
    ∀ (s' : State) (t' : ThreadId) (h' : Handle), handle? s' t' (m.textAt "h") = .ok h' →
      s'.world.isBlocked t' = false → h'.isValid = false → h'.kind = h.kind →
      (handleResult shape s t m).map (·.2) = (handleResult shape s' t' m).map (·.2)
  compared : h.isValid = false → s.world.Reachable → ∀ (m' : Message) (b : Handle), b.kind = h.kind →
    (handle? s t (m'.textAt "a") = .ok h → handle? s t (m'.textAt "b") = .ok b →
      compareHandles s t m' = .ok (Identity.said (!b.isValid) true (!b.isValid))) ∧
    (handle? s t (m'.textAt "a") = .ok b → handle? s t (m'.textAt "b") = .ok h →
      compareHandles s t m' = .ok (Identity.said (!b.isValid) (!b.isValid) true))
  read : ∀ d tried, s.world.read? h = some d →
    ∃ s', read shape s t (.named (m.textAt "h")) tried = .ok (s', .ok d.answer)
  edit : ∀ d tried, s.world.read? h = some d → h.kind.mayWrite = true →
    ∀ e d', Edit.apply e d = some d' →
      ∃ s', edit shape s t (.named (m.textAt "h")) e tried = .ok (s', .ok d'.answer)

theorem answers (hh : handle? s t (m.textAt "h") = .ok h) (hfree : s.world.isBlocked t = false) :
    Answers shape s t m h where
  released hvalid ho := handleResult_released hh hvalid hfree ho
  alike hvalid ho s' t' h' hh' hfree' hvalid' hkind := by
    rw [handleResult_released hh hvalid hfree ho, handleResult_released hh' hvalid' hfree' ho, hkind]
    cases releasedResult shape h.kind m <;> rfl
  compared hvalid hw m' b hkind := compareHandles_released hw hvalid hkind
  read d tried hd := read_locked (handle?_eq_ok hh) hd hfree tried
  edit d tried hd hk e d' he := edit_locked (handle?_eq_ok hh) hd hk hfree he tried

end Session

/-! ### The life of a handle -/

/-- **The life of a handle, and what it answers in it.** Each handle that is there after a run was
made by a step of the run, locked when a request was granted and in the state of the other
when the access was taken out of another, and what such a step makes is there after it. The
handle is locked if it was made locked and its access was neither given up nor taken since, and
it is so after whatever comes next, until it is dropped. All that a thread can ask of it agrees:
a locked handle shows its value, and a released one shows nothing. What a released one answers,
or says of itself when it is compared, depends on its kind and the type of its value, and on
whether the other is released too, but not on what it was locked on. -/
theorem World.handle_life (P : Policy) (ss : List (World.Step α)) {t : ThreadId} {n : HandleName}
    {h : Handle} (hh : (World.run P .empty ss).handles.get? (t, n) = some h) :
    let w := World.run P .empty ss
    (∃ before s after key₀ h₀ gone, ss = before ++ s :: after ∧
      (World.run P .empty before).Born P s key₀ h₀ ∧
      ((World.run P .empty before).step P s).1.follow P after key₀ = some ((t, n), gone) ∧
      h.kind = h₀.kind ∧ (h.isValid = true ↔ h₀.isValid = true ∧ gone = false)) ∧
    (∀ s key₀ h₀, w.Born P s key₀ h₀ → (w.step P s).1.handles.get? key₀ = some h₀) ∧
    (∀ ss' key' gone, w.follow P ss' (t, n) = some (key', gone) →
      ∃ h', (w.run P ss').handles.get? key' = some h' ∧ h'.kind = h.kind ∧
        (h'.isValid = true ↔ h.isValid = true ∧ gone = false)) ∧
    (∀ s, (∃ key', (w.deed P s).carry (t, n) = some (key', true)) ↔
      (w.step P s).2 = .done ∧ (s = .release t n ∨ ∃ new, new ≠ n ∧ s = .take t n new)) ∧
    (w.isBlocked t = false →
      (h.isValid = true ↔ ∃ v, w.Shows P t n h v) ∧ (h.isValid = false ↔ w.ShowsNothing P t n h)) ∧
    (h.isValid = false → ∀ key b, w.handles.get? key = some b →
      (w.identityOf h).comparison (w.identityOf b) = Identity.said (!b.isValid) true (!b.isValid) ∧
      (w.identityOf b).comparison (w.identityOf h) = Identity.said (!b.isValid) (!b.isValid) true) ∧
    ∀ (shape : Shape) (s : Session.State) (t : ThreadId) (m : Message) (h : Handle),
      Session.handle? s t (m.textAt "h") = .ok h → s.world.isBlocked t = false →
      Session.Answers shape s t m h := by
  intro w
  have hw : w.Reachable := .run P ss .empty
  have hspent : ∀ (h : Handle) (gone : Bool), (h.spent gone).kind = h.kind ∧
      ((h.spent gone).isValid = true ↔ h.isValid = true ∧ gone = false) := by
    intro h gone
    cases gone <;> simp [Handle.isValid, Handle.released]
  refine ⟨?_, fun s key₀ h₀ hborn => hborn.get?, fun ss' key' gone hf => ?_,
    fun s => carry_gone_iff hh, fun hfree => ⟨?_, ?_⟩,
    fun hvalid key b hb => hw.comparison_released hvalid hb,
    fun shape s t m h hh hfree => Session.answers hh hfree⟩
  · rcases World.run_origin hh with ⟨key₀, h₀, gone, hnone, -⟩ |
      ⟨before, s, after, key₀, h₀, gone, hss, hborn, hfollow, rfl⟩
    · -- there are no handles at the start
      simp [World.empty, Table.get?] at hnone
    · exact ⟨before, s, after, key₀, h₀, gone, hss, hborn, hfollow, hspent h₀ gone⟩
  · exact ⟨h.spent gone, World.follow_get? hh hf, hspent h gone⟩
  · constructor
    · intro hvalid
      exact hw.shows hh hvalid hfree
    · rintro ⟨v, hshows⟩
      exact hshows.valid
  · constructor
    · intro hvalid
      exact showsNothing hh hvalid hfree
    · intro hshows
      exact hshows.valid

/-- A thread takes the access out of a handle into a second one, and releases that. -/
def passedOn : List (World.Step Nat) :=
  [.create "a" .readWrite 7 1, .attempt 0 "a" .write (.named "h"), .take 0 (.named "h") (.named "k"),
    .update 0 (.named "k") (· + 1), .release 0 (.named "k")]

theorem passedOn_shows : (World.run .taskFair .empty passedOn).ShowsNothing .taskFair 0 (.named "k")
    ⟨.write, none⟩ ∧
    (World.run .taskFair .empty (passedOn.take 4)).handles.get? (0, .named "k") =
      some ⟨.write, some 0⟩ ∧
    ∃ v, (World.run .taskFair .empty (passedOn.take 4)).Shows .taskFair 0 (.named "k")
      ⟨.write, some 0⟩ v := by
  have hk : (World.run .taskFair .empty passedOn).handles.get? (0, .named "k") =
      some ⟨.write, none⟩ := by
    decide
  have hk₄ : (World.run .taskFair .empty (passedOn.take 4)).handles.get? (0, .named "k") =
      some ⟨.write, some 0⟩ := by decide
  have hlife := World.handle_life .taskFair passedOn hk
  have hlife₄ := World.handle_life .taskFair (passedOn.take 4) hk₄
  exact ⟨(hlife.2.2.2.2.1 (by decide)).2.mp rfl, hk₄, (hlife₄.2.2.2.2.1 (by decide)).1.mp rfl⟩

end Custody.Shared
