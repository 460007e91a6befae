/-
# What a session does without a lock

Of all requests of a session only those that ask for a handle take a lock, or leave a record of
a request: the ones that clone, drop, compare or show a requester, and those that are made with
handles, do neither, whatever they answer. What only looks leaves the session as it is.

Key definitions: `Session.CalmResult`, `Session.askers`, `Session.lookers`.
Key theorems: `result_calm`, `result_of_looker`, `logLine?_eq_iff`.
-/
import Custody.Proofs.Shared.Calm
import Custody.Shared.Session

namespace Custody.Shared.Session

variable {shape : Shape} {s : State} {m : Message} {t : ThreadId} {name : HandleName}

/-- Whether that holds of what the result, if there is one, leaves of the session. -/
def Leaves (o : Result) (R : State → Prop) : Prop :=
  ∀ s' a, o = .ok (s', a) → R s'

section leaves

variable {R : State → Prop}

theorem leaves_error (e : Refusal) : Leaves (.error e) R :=
  fun _ _ h => by cases h

theorem leaves_ok {s' : State} {a : Message} (h : R s') : Leaves (.ok (s', a)) R := by
  intro s₁ a₁ heq
  obtain ⟨rfl, rfl⟩ := Prod.mk.inj (Except.ok.inj heq)
  exact h

theorem leaves_bind {β : Type} (x : Except Refusal β) {f : β → Result} (hf : ∀ b, Leaves (f b) R) :
    Leaves (x >>= f) R := by
  cases x with
  | error e => exact leaves_error e
  | ok b => exact hf b

end leaves

/-- Whether the result, if there is one, comes without a lock being taken or a request being
recorded. -/
def CalmResult (s : State) (o : Result) : Prop :=
  Leaves o fun s' => Calm s.world s'.world

theorem calm_settled {o : Result} (h : CalmResult s o) : Calm s.world (settled s o).1.world := by
  cases o with
  | error e => exact calm_refl _
  | ok r => exact h r.1 r.2 rfl

/-! ### What threads do with handles -/

theorem calm_perform (s : State) {e : World.Step Datum} (he : e.asks = false) :
    Calm s.world (perform s e).1.world :=
  step_calm policy s.world he

theorem calm_of_perform {e : World.Step Datum} {s' : State} {r : World.Reply Datum} (he : e.asks = false)
    (hperform : perform s e = (s', r)) : Calm s.world s'.world := by
  have hcalm := calm_perform s he
  rwa [hperform] at hcalm

theorem read_calm (tried : Bool) : CalmResult s (read shape s t name tried) := by
  unfold read
  split
  · exact leaves_ok (calm_of_perform rfl ‹_›)
  · exact leaves_ok (calm_of_perform rfl ‹_›)
  · exact leaves_error _

theorem edit_calm (e : Edit) (tried : Bool) : CalmResult s (edit shape s t name e tried) := by
  unfold edit
  split
  · rename_i s₁ d hperform
    have hfirst := calm_of_perform rfl hperform
    split
    · exact leaves_error _
    · rename_i d' _
      have hlast := calm_perform s₁ (e := .update t name fun _ => d') rfl
      refine leaves_ok (hfirst.trans ?_)
      split <;> exact hlast
  · exact leaves_ok (calm_of_perform rfl ‹_›)
  · exact leaves_error _
  · exact leaves_error _

theorem overwrite_calm (v : Message) : CalmResult s (overwrite shape s t name v) := by
  unfold overwrite
  split
  · exact leaves_error _
  · split
    · rename_i s₁ d hperform
      have hfirst := calm_of_perform rfl hperform
      split
      · exact leaves_error _
      · rename_i d' _
        exact leaves_ok (hfirst.trans (calm_perform s₁ (e := .overwrite t name fun _ => d') rfl))
    · exact leaves_ok (calm_of_perform rfl ‹_›)
    · exact leaves_error _
    · exact leaves_error _

theorem done_calm {e : World.Step Datum} (he : e.asks = false) : CalmResult s (done s e) :=
  leaves_ok (calm_perform s he)

theorem panic_calm (h : Handle) : Calm s.world (panic shape s t h m).1.world := by
  have hgone : ∀ s : State, Calm s.world (perform s (.drop t (.named (m.textAt "h")))).1.world :=
    fun s => calm_perform s rfl
  unfold panic
  split
  · exact hgone s
  · split
    · exact hgone s
    · exact (calm_settled (edit_calm _ _)).trans (hgone _)

theorem handleResult_calm : CalmResult s (handleResult shape s t m) := by
  unfold handleResult
  refine leaves_bind _ fun h => ?_
  dsimp only
  split
  · exact edit_calm _ _
  · exact edit_calm _ _
  · exact overwrite_calm _
  · exact leaves_ok (calm_refl _)
  · exact read_calm _
  · exact read_calm _
  · split
    · exact leaves_ok (calm_refl _)
    · exact leaves_error _
  · exact done_calm rfl
  · exact done_calm rfl
  · exact done_calm rfl
  · exact done_calm rfl
  · exact leaves_ok (panic_calm h)
  · exact leaves_error _

/-! ### What sessions do -/

theorem create_calm : Calm s.world (create shape s m).1.world := by
  unfold create
  dsimp only
  split
  · exact calm_refl _
  · split
    · exact calm_refl _
    · split
      · exact calm_refl _
      · exact calm_refl _
      · exact calm_refl _
      · split
        · exact calm_refl _
        · exact calm_perform s (e := .create _ _ _ _) rfl
      · split <;> exact calm_refl _

/-- The requests of a session that ask for a handle. -/
def askers : List String :=
  ["pointer", "const_pointer", "with_write", "with_read", "parallel"]

/-- **Only the requests that ask for a handle take a lock**, or have anything recorded. -/
theorem result_calm (ho : m.textAt "o" ∉ askers) : CalmResult s (result shape s m) := by
  simp only [askers, List.mem_cons, List.not_mem_nil, or_false, not_or] at ho
  unfold result
  dsimp only
  split
  · exact leaves_ok create_calm
  · exact leaves_bind _ fun _ => done_calm rfl
  · exact leaves_bind _ fun _ => done_calm rfl
  · exact leaves_bind _ fun _ => leaves_ok (calm_refl _)
  · exact leaves_bind _ fun _ => leaves_ok (calm_refl _)
  · exact leaves_bind _ fun _ => leaves_ok (calm_refl _)
  · exact absurd ‹_› ho.2.2.2.2
  · unfold threadResult
    refine leaves_bind _ fun t => ?_
    dsimp only
    split
    · exact leaves_error _
    · split
      · exact absurd ‹_› ho.1
      · exact absurd ‹_› ho.2.1
      · exact absurd ‹_› ho.2.2.1
      · exact absurd ‹_› ho.2.2.2.1
      · exact leaves_bind _ fun _ => leaves_ok (calm_refl _)
      · exact handleResult_calm

/-- The requests of a session that only look at requesters or handles. -/
def lookers : List String :=
  ["debug_req", "cmp_req", "distinct_reqs", "cmp", "is_valid", "debug"]

theorem handleResult_of_looker (ho : m.textAt "o" = "is_valid" ∨ m.textAt "o" = "debug") :
    Leaves (handleResult shape s t m) (· = s) := by
  unfold handleResult
  refine leaves_bind _ fun h => ?_
  rcases ho with ho | ho <;> rw [ho]
  · exact leaves_ok rfl
  · cases Format.ofName? (m.textAtD "?" "spec") with
    | none => exact leaves_error _
    | some f => exact leaves_ok rfl

theorem threadResult_of_looker
    (ho : m.textAt "o" = "cmp" ∨ m.textAt "o" = "is_valid" ∨ m.textAt "o" = "debug") :
    Leaves (threadResult shape s m) (· = s) := by
  unfold threadResult
  refine leaves_bind _ fun t => ?_
  dsimp only
  split
  · exact leaves_error _
  · rcases ho with ho | ho | ho <;> rw [ho]
    · exact leaves_bind _ fun _ => leaves_ok rfl
    · exact handleResult_of_looker (.inl ho)
    · exact handleResult_of_looker (.inr ho)

/-- **Who only looks leaves the session as it is.** -/
theorem result_of_looker (ho : m.textAt "o" ∈ lookers) : Leaves (result shape s m) (· = s) := by
  simp only [lookers, List.mem_cons, List.not_mem_nil, or_false] at ho
  unfold result
  rcases ho with ho | ho | ho | ho | ho | ho <;> rw [ho]
  · exact leaves_bind _ fun _ => leaves_ok rfl
  · exact leaves_bind _ fun _ => leaves_ok rfl
  · exact leaves_bind _ fun _ => leaves_ok rfl
  · exact threadResult_of_looker (.inl ho)
  · exact threadResult_of_looker (.inr (.inl ho))
  · exact threadResult_of_looker (.inr (.inr ho))

/-! ### The log -/

/-- The line of the log of a request that was not let in at once. -/
def contendedLine (k : HandleKind) : String :=
  "TRACE|rc_shared::cell|" ++ k.accessName ++ " access to <addr> is contended, waiting"

theorem new_ne_accessName (k : HandleKind) (x y : String) : "new " ++ x ≠ k.accessName ++ y := by
  intro h
  have hhead := congrArg (fun s => s.toList.head?) h
  cases k <;> simp [HandleKind.accessName, acquireWrite, acquireRead, acquireSerialized,
    acquireUncheckedWrite, acquireUncheckedRead, String.toList_append] at hhead

theorem created_ne_contendedLine (k : HandleKind) (x : String) :
    "TRACE|rc_shared::cell|new " ++ x ≠ contendedLine k := by
  have hsplit : "TRACE|rc_shared::cell|new " = "TRACE|rc_shared::cell|" ++ "new " := by simp
  unfold contendedLine
  rw [hsplit, String.append_assoc, String.append_assoc, ne_eq, String.append_right_inj]
  exact new_ne_accessName k _ _

/-- **The log says that a request waits** if and only if one with a handle of such a kind was not let
in at once. -/
theorem logLine?_eq_iff (e : Event Datum) (k : HandleKind) :
    logLine? shape e = some (contendedLine k) ↔
      ∃ t c k', e = .contended t c k' ∧ k'.accessName = k.accessName := by
  constructor
  · intro hline
    cases e with
    | created c f =>
      have hline := Option.some.inj hline
      rw [String.append_assoc, String.append_assoc, String.append_assoc] at hline
      exact absurd hline (created_ne_contendedLine k _)
    | contended t c k' =>
      have hline : contendedLine k' = contendedLine k := Option.some.inj hline
      unfold contendedLine at hline
      exact ⟨t, c, k', rfl,
        (String.append_right_inj _).mp ((String.append_left_inj _).mp hline)⟩
    | granted t c k' => cases hline
    | destroyed c v => cases hline
  · rintro ⟨t, c, k', rfl, hk⟩
    unfold contendedLine
    rw [← hk]
    rfl

end Custody.Shared.Session
