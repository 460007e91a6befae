/-
# Cascades

A machine is a heap with tasks to do. The first task is done first, and what it
sets off comes before the rest: when the last owner of a cell signs off, its
value's destructor runs, its fields and links are dropped in order, each with all
that follows from it, and the cell is freed, before anything else goes on. If a destructor gives up,
only the tasks that are owed are left. Every step lowers `Machine.weight`, so a
cascade ends, whatever the destructors do.

Key definitions: `Machine`, `Machine.step`, `Machine.settle`, `Heap.exec`.
-/
import Custody.Heap.Perform

namespace Custody.Heap

/-- A heap, and what is to do. -/
structure Machine (α : Type) where
  heap : Heap α
  tasks : List (Task α)

namespace Machine

variable {α : Type}

/-- A bound on the steps that are left. -/
def weight (m : Machine α) : Nat :=
  m.heap.cells.foldr (fun c n => c.content.weight + n) 0 +
    m.tasks.foldr (fun t n => t.weight + n) 0

/-- An owner signs off; if it is the last, the destruction of the value begins. -/
def release (o : Owner) (h : Heap α) (rest : List (Task α)) : Machine α :=
  match h.signOff o with
  | (false, h) => ⟨h, rest⟩
  | (true, h) =>
    match h.live? o.cell with
    | none => ⟨h.note (.fault o.cell .missing), rest⟩
    | some v =>
      ⟨(h.modifyCell o.cell fun cell => { cell with content := .dying v }).note
          (.destroyed o.cell v.data),
        .script o.cell v.script .done :: .dismantle o.cell :: rest⟩

/-- The pointer in `dst` becomes an owner of the target of the one in `src`. -/
def adopt (dst src : Place) (h : Heap α) : Heap α :=
  match h.pointer? src with
  | none => h
  | some q =>
    let (q, h) := h.duplicate q
    h.poke dst (some q)

/-- The pointer in `dst` becomes another owner of that owner's target. -/
def follow (dst : Place) (o : Owner) (h : Heap α) : Heap α :=
  let (o, h) := h.acquire o.cell
  h.poke dst (some (.nullable (some o)))

/-- Drops the next field or link of a dying value; if none is left, frees its cell. -/
def dismantle (c : CellId) (h : Heap α) (rest : List (Task α)) : Machine α :=
  match h.cells[c]? with
  | some ⟨_, _, .dying ⟨data, script, o :: fields, links⟩⟩ =>
    ⟨h.modifyCell c fun cell => { cell with content := .dying ⟨data, script, fields, links⟩ },
      discard (some (.nullable o)) ++ .dismantle c :: rest⟩
  | some ⟨_, _, .dying ⟨data, script, [], o :: links⟩⟩ =>
    ⟨h.modifyCell c fun cell => { cell with content := .dying ⟨data, script, [], links⟩ },
      discard (some (.nullable o)) ++ .dismantle c :: rest⟩
  | some ⟨_, _, .dying ⟨_, _, [], []⟩⟩ =>
    ⟨(h.modifyCell c fun cell => { cell with content := .freed }).note (.freed c), rest⟩
  | _ => ⟨h, rest⟩

/-- Does the next act of a destructor. -/
def act (c : CellId) (a : Act α) (acts : List (Act α)) (last : Answer α) (h : Heap α)
    (rest : List (Task α)) : Machine α :=
  match a with
  | .skipIf p n => ⟨h, .script c (if p last then acts.drop n else acts) last :: rest⟩
  | .giveUpIf p =>
    if p last then ⟨h.note (.gaveUp c), rest.filter Task.isOwed⟩
    else ⟨h, .script c acts last :: rest⟩
  | .report say => ⟨h.note (.reported c last (say last)), .script c acts last :: rest⟩
  | a =>
    let r := h.perform (some c) a
    ⟨r.heap, r.todo ++ .script c acts r.answer :: rest⟩

/-- Does a part of the first task. -/
def step (m : Machine α) : Machine α :=
  match m.tasks with
  | [] => m
  | .release o :: rest => release o m.heap rest
  | .adopt dst src :: rest => ⟨adopt dst src m.heap, rest⟩
  | .follow dst o :: rest => ⟨follow dst o m.heap, rest⟩
  | .place dst q :: rest => ⟨m.heap.poke dst (some q), rest⟩
  | .unlend p :: rest => ⟨m.heap.unlend p, rest⟩
  | .unshare p :: rest => ⟨m.heap.unshare p, rest⟩
  | .script _ [] _ :: rest => ⟨m.heap, rest⟩
  | .script c (a :: acts) last :: rest => act c a acts last m.heap rest
  | .dismantle c :: rest => dismantle c m.heap rest

/-- At most that many steps, until nothing is left to do. -/
def run : Nat → Machine α → Machine α
  | 0, m => m
  | n + 1, m => if m.tasks.isEmpty then m else run n m.step

/-- All that is to do is done. -/
def settle (m : Machine α) : Machine α :=
  if m.tasks.isEmpty then m else run m.weight m

end Machine

variable {α : Type}

/-- An operation of the caller, with all that follows from it. -/
def exec (h : Heap α) (op : Op α) : Heap α × Answer α :=
  let r := h.operate op
  ((Machine.settle ⟨r.heap, r.todo⟩).heap, r.answer)

end Custody.Heap
