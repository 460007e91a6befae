/-
# Annals of the locks

Each time access to a cell is granted a tenure begins. It goes on with the handle, also
when the access is taken out of it into another or the handle gets another name, and
ends when the access is given up. The annals have the value that each cell was made
with, the tenures in the order in which they were granted, and what was changed in
each. They are written step by step beside a run, and no step reads them.

Key definitions: `Tenure`, `Annals`, `Annals.next`, `chronicle`, `replay`, `World.History`.
Key theorems: `chronicle_modify_of_last`, `chronicle_modify_of_ne`.
-/
import Custody.Proofs.Shared.Run

namespace Custody.Shared

variable {α : Type}

/-- What a holder did with a cell, from the grant until the access was given up. -/
structure Tenure (α : Type) where
  cell : CellId
  kind : HandleKind
  /-- What was changed, the first change first. -/
  updates : List (α → α)

/-- The tenure with one change more. -/
def Tenure.record (f : α → α) (T : Tenure α) : Tenure α :=
  { T with updates := T.updates ++ [f] }

/-- What was done with the cells of a world. -/
structure Annals (α : Type) where
  /-- The value that each cell was made with. -/
  origins : List α
  /-- The tenures, in the order in which they were granted. -/
  tenures : List (Tenure α)
  /-- The tenure that goes on with each locked handle. -/
  current : Table (ThreadId × HandleName) Nat

namespace Annals

/-- The annals of a world without cells. -/
def empty : Annals α := ⟨[], [], []⟩

/-- A tenure begins. -/
def enroll (key : ThreadId × HandleName) (c : CellId) (k : HandleKind) (A : Annals α) : Annals α :=
  { A with
    tenures := A.tenures ++ [⟨c, k, []⟩]
    current := A.current.put key A.tenures.length }

/-- A tenure begins with a handle that was granted, on the cell that it is locked on. -/
def grant (key : ThreadId × HandleName) (w : World α) (A : Annals α) : Annals α :=
  match w.handles.get? key with
  | some ⟨k, some c⟩ => A.enroll key c k
  | _ => A

/-- The value is changed through a handle. -/
def record (key : ThreadId × HandleName) (f : α → α) (A : Annals α) : Annals α :=
  match A.current.get? key with
  | none => A
  | some i => { A with tenures := A.tenures.modify i (Tenure.record f) }

/-- The tenure of a handle ends. -/
def finish (key : ThreadId × HandleName) (A : Annals α) : Annals α :=
  { A with current := A.current.erase key }

/-- The tenure of a handle goes on with another, in place of the one that it had. -/
def pass (key new : ThreadId × HandleName) (A : Annals α) : Annals α :=
  match A.current.get? key with
  | none => { A with current := (A.current.erase key).erase new }
  | some i => { A with current := (A.current.erase key).put new i }

/-- What is noted of a request: a tenure begins if it was granted. -/
def onGrant (A : Annals α) (o : World α × World.Reply α) (key : ThreadId × HandleName) : Annals α :=
  match o.2 with
  | .granted => A.grant key o.1
  | _ => A

/-- What is noted of a change, if it was made. -/
def onChange (A : Annals α) (o : World α × World.Reply α) (key : ThreadId × HandleName)
    (f : α → α) : Annals α :=
  match o.2 with
  | .value _ => A.record key f
  | _ => A

/-- What is noted of a step with a handle, if there was one. -/
def onDone (A : Annals α) (o : World α × World.Reply α) (B : Annals α) : Annals α :=
  match o.2 with
  | .done => B
  | _ => A

/-- What is noted when a step of a world ended in that world, with that answer. -/
def note (w : World α) (s : World.Step α) (o : World α × World.Reply α) (A : Annals α) : Annals α :=
  match s with
  | .create _ _ v _ => { A with origins := A.origins ++ [v] }
  | .attempt t _ _ h => A.onGrant o (t, h)
  | .block t => (w.request? t .refused).elim A fun r => A.onGrant o (t, r.name)
  | .grant t => (w.request? t .waiting).elim A fun r => A.onGrant o (t, r.name)
  | .update t h f => A.onChange o (t, h) f
  | .overwrite t h f => A.onChange o (t, h) f
  | .release t h => A.onDone o (A.finish (t, h))
  | .drop t h => A.onDone o (A.finish (t, h))
  | .take t h new => A.onDone o (A.pass (t, h) (t, new))
  | .move t h new => A.onDone o (A.pass (t, h) (t, new))
  | _ => A

/-- The annals after a step. -/
def next (P : Policy) (w : World α) (s : World.Step α) (A : Annals α) : Annals α :=
  A.note w s (w.step P s)

end Annals

/-- The worlds that are met when threads take turns in any order, under sound policies, with
their annals. -/
inductive World.History : World α → Annals α → Prop
  | empty : History .empty .empty
  | step {w : World α} {A : Annals α} (P : Policy) (s : World.Step α) :
      History w A → History (w.step P s).1 (A.next P w s)

theorem World.History.reachable {w : World α} {A : Annals α} (hw : w.History A) : w.Reachable := by
  induction hw with
  | empty => exact .empty
  | step P s _ ih => exact .step P s ih

/-- Every reachable world has annals. -/
theorem World.Reachable.exists_history {w : World α} (hw : w.Reachable) : ∃ A, w.History A := by
  induction hw with
  | empty => exact ⟨_, .empty⟩
  | step P s _ ih =>
    obtain ⟨A, hA⟩ := ih
    exact ⟨_, .step P s hA⟩

/-! ### What was changed in some tenures -/

/-- A value after some changes, one after the other. -/
def replay (a : α) (fs : List (α → α)) : α :=
  fs.foldl (fun a f => f a) a

@[simp] theorem replay_nil (a : α) : replay a [] = a := rfl

theorem replay_append (a : α) (fs gs : List (α → α)) :
    replay a (fs ++ gs) = replay (replay a fs) gs := List.foldl_append

/-- What was changed in the exclusive tenures of a cell, in order. -/
def chronicle (c : CellId) (Ts : List (Tenure α)) : List (α → α) :=
  (Ts.filter fun T => T.cell = c ∧ T.kind.demand? = some .exclusive).flatMap (·.updates)

theorem chronicle_append (c : CellId) (Ts Ts' : List (Tenure α)) :
    chronicle c (Ts ++ Ts') = chronicle c Ts ++ chronicle c Ts' := by
  simp only [chronicle, List.filter_append, List.flatMap_append]

theorem chronicle_cons (c : CellId) (T : Tenure α) (Ts : List (Tenure α)) :
    chronicle c (T :: Ts) = chronicle c [T] ++ chronicle c Ts :=
  chronicle_append c [T] Ts

theorem chronicle_singleton_of_ne {c : CellId} {T : Tenure α} (hc : T.cell ≠ c) :
    chronicle c [T] = [] := by
  simp [chronicle, hc]

/-- What was changed in the tenure itself, if nothing is changed in one that is not exclusive. -/
theorem chronicle_singleton {T : Tenure α}
    (hT : T.kind.demand? ≠ some .exclusive → T.updates = []) : chronicle T.cell [T] = T.updates := by
  by_cases hd : T.kind.demand? = some .exclusive
  · simp [chronicle, hd]
  · simp [chronicle, hd, hT hd]

/-- Tenures in which nothing was changed, or that are of other cells. -/
theorem chronicle_eq_nil {c : CellId} {Ts : List (Tenure α)}
    (hT : ∀ T ∈ Ts, T.cell = c → T.updates = []) : chronicle c Ts = [] := by
  apply List.flatMap_eq_nil_iff.mpr
  intro T hmem
  obtain ⟨hmem, hp⟩ := List.mem_filter.mp hmem
  have hc : T.cell = c := (of_decide_eq_true hp).1
  exact hT T hmem hc

section modify

variable {Ts : List (Tenure α)} {i : Nat} {T : Tenure α} (hT : Ts[i]? = some T)
include hT

/-- Some tenures, seen from one of them. -/
theorem tenures_split : Ts = Ts.take i ++ T :: Ts.drop (i + 1) := by
  obtain ⟨hlt, rfl⟩ := List.getElem?_eq_some_iff.mp hT
  rw [List.getElem_cons_drop, List.take_append_drop]

theorem modify_split (f : Tenure α → Tenure α) :
    Ts.modify i f = Ts.take i ++ f T :: Ts.drop (i + 1) := by
  obtain ⟨hlt, rfl⟩ := List.getElem?_eq_some_iff.mp hT
  exact List.modify_eq_take_cons_drop hlt

theorem mem_modify {T' : Tenure α} {f : Tenure α → Tenure α} (hmem : T' ∈ Ts.modify i f) :
    T' ∈ Ts ∨ T' = f T := by
  rw [modify_split hT, List.mem_append, List.mem_cons] at hmem
  rcases hmem with hmem | rfl | hmem
  · exact .inl (List.mem_of_mem_take hmem)
  · exact .inr rfl
  · exact .inl (List.mem_of_mem_drop hmem)

/-- A change in a tenure of another cell. -/
theorem chronicle_modify_of_ne {c : CellId} (hc : T.cell ≠ c) (f : α → α) :
    chronicle c (Ts.modify i (Tenure.record f)) = chronicle c Ts := by
  have hc' : (T.record f).cell ≠ c := hc
  calc chronicle c (Ts.modify i (Tenure.record f))
      = chronicle c (Ts.take i) ++ (chronicle c [T.record f] ++ chronicle c (Ts.drop (i + 1))) := by
        rw [modify_split hT, chronicle_append, chronicle_cons]
    _ = chronicle c (Ts.take i) ++ (chronicle c [T] ++ chronicle c (Ts.drop (i + 1))) := by
        rw [chronicle_singleton_of_ne hc, chronicle_singleton_of_ne hc']
    _ = chronicle c Ts := by
        rw [← chronicle_cons, ← chronicle_append, ← tenures_split hT]

/-- A change in the last tenure of the cell in which anything was changed. -/
theorem chronicle_modify_of_last (hd : T.kind.demand? = some .exclusive)
    (hlast : ∀ T' ∈ Ts.drop (i + 1), T'.cell = T.cell → T'.updates = []) (f : α → α) :
    chronicle T.cell (Ts.modify i (Tenure.record f)) = chronicle T.cell Ts ++ [f] := by
  have hone : chronicle T.cell [T.record f] = chronicle T.cell [T] ++ [f] := by
    simp [chronicle, Tenure.record, hd]
  have hafter : chronicle T.cell (Ts.drop (i + 1)) = [] := chronicle_eq_nil hlast
  calc chronicle T.cell (Ts.modify i (Tenure.record f))
      = chronicle T.cell (Ts.take i) ++ (chronicle T.cell [T.record f] ++ []) := by
        rw [modify_split hT, chronicle_append, chronicle_cons, hafter]
    _ = (chronicle T.cell (Ts.take i) ++ (chronicle T.cell [T] ++ [])) ++ [f] := by
        rw [hone, List.append_nil, List.append_nil, List.append_assoc]
    _ = chronicle T.cell Ts ++ [f] := by
        rw [← hafter, ← chronicle_cons, ← chronicle_append, ← tenures_split hT]

/-- All that was changed up to a tenure after which nothing was. -/
theorem chronicle_of_last (hshared : T.kind.demand? ≠ some .exclusive → T.updates = [])
    (hlast : ∀ T' ∈ Ts.drop (i + 1), T'.cell = T.cell → T'.updates = []) :
    chronicle T.cell Ts = chronicle T.cell (Ts.take i) ++ T.updates := by
  have hafter : chronicle T.cell (Ts.drop (i + 1)) = [] := chronicle_eq_nil hlast
  calc chronicle T.cell Ts
      = chronicle T.cell (Ts.take i ++ T :: Ts.drop (i + 1)) := by rw [← tenures_split hT]
    _ = chronicle T.cell (Ts.take i) ++ (chronicle T.cell [T] ++ []) := by
        rw [chronicle_append, chronicle_cons, hafter]
    _ = chronicle T.cell (Ts.take i) ++ T.updates := by
        rw [List.append_nil, chronicle_singleton hshared]

end modify

end Custody.Shared
