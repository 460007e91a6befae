/-
# Steps of threads and locks

A step is one of a single thread, or of a lock that lets in one who waits. So a list
of steps is one of the ways in which any number of threads may take turns. A thread
that asks for a handle is let in, or is refused and notes it; then it asks again, and
by then the lock may have changed. While its request is not granted it does nothing
else.

Key definitions: `World.Step`, `World.Reply`, `World.step`, `World.next?`,
`World.run`.
-/
import Custody.Shared.World

namespace Custody.Shared.World

variable {α : Type}

/-- What can happen. Names of requesters are shared by all threads; names of handles
belong to a thread. -/
inductive Step (α : Type) where
  /-- A new cell, at the address `near` if that is free, and its first requester. -/
  | create (name : String) (f : Flavour) (value : α) (near : Nat)
  /-- One requester more of the same cell. -/
  | cloneRequester (name copy : String)
  | dropRequester (name : String)
  /-- A thread asks for a handle. -/
  | attempt (t : ThreadId) (name : String) (access : Access) (h : HandleName)
  /-- A thread that was refused asks again, and waits if it must. -/
  | block (t : ThreadId)
  /-- The lock lets in a thread that waits. -/
  | grant (t : ThreadId)
  /-- A thread reads through a handle. -/
  | read (t : ThreadId) (h : HandleName)
  /-- A thread changes the value through a handle. -/
  | update (t : ThreadId) (h : HandleName) (f : α → α)
  /-- A thread changes a value that allows this to whoever may read it. -/
  | overwrite (t : ThreadId) (h : HandleName) (f : α → α)
  /-- A thread gives up the access of a handle, and keeps the handle. -/
  | release (t : ThreadId) (h : HandleName)
  /-- A thread takes the access out of a handle into a new one. -/
  | take (t : ThreadId) (h new : HandleName)
  /-- A thread gives a handle another name. -/
  | move (t : ThreadId) (h new : HandleName)
  /-- A thread drops a handle, or loses it while it unwinds after a panic. -/
  | drop (t : ThreadId) (h : HandleName)

/-- What a step answers. -/
inductive Reply (α : Type) where
  | done
  | granted
  /-- The request was not let in at once. -/
  | contended
  | waiting
  /-- What is read, or what the value has become. -/
  | value (a : α)
  /-- The handle is released. -/
  | released (k : HandleKind)
  /-- The thread has a request that is not granted yet. -/
  | blocked
  /-- There is no such requester, handle or request. -/
  | absent
  /-- Such a cell or handle cannot do that. -/
  | unsupported

/-- The thread asks for a handle. -/
def stepAttempt (P : Policy) (w : World α) (t : ThreadId) (name : String) (access : Access)
    (h : HandleName) : World α × Reply α :=
  match w.requesters.get? name with
  | none => (w, .absent)
  | some c =>
    match (w.flavour? c).bind (·.handle? access) with
    | none => (w, .unsupported)
    | some k =>
      let owned := w.own c
      if w.admits P c k then (owned.letIn t h c k, .granted)
      else
        let asked : World α :=
          { owned with requests := owned.requests ++ [⟨t, h, c, k, .refused⟩] }
        (asked.note (.contended t c k), .contended)

/-- The request of a thread that has got that far. -/
def request? (w : World α) (t : ThreadId) (phase : Phase) : Option Request :=
  w.requests.find? fun r => r.thread = t && r.phase = phase

/-- The world without that request. -/
def withdraw (r : Request) (w : World α) : World α :=
  { w with requests := w.requests.erase r }

/-- A request that is let in if it may be; otherwise it waits, behind all others if
it did not wait yet. -/
def stepEnter (P : Policy) (w : World α) (t : ThreadId) (phase : Phase) : World α × Reply α :=
  match w.request? t phase with
  | none => (w, .absent)
  | some r =>
    let others := w.withdraw r
    if others.admits P r.cell r.kind then (others.letIn t r.name r.cell r.kind, .granted)
    else
      match phase with
      | .waiting => (w, .waiting)
      | .refused =>
        ({ others with requests := others.requests ++ [{ r with phase := .waiting }] }, .waiting)

/-- The thread does something with a handle that it has. -/
def withHandle (w : World α) (t : ThreadId) (h : HandleName)
    (f : Handle → World α × Reply α) : World α × Reply α :=
  match w.handles.get? (t, h) with
  | none => (w, .absent)
  | some handle => f handle

/-- How a thread uses the value that a handle gives access to. -/
inductive Use where
  | read
  /-- It changes the value. -/
  | update
  /-- It changes a value that allows this to whoever may read it. -/
  | overwrite

/-- Whether handles of the kind can be used so. -/
def Use.allows : Use → HandleKind → Bool
  | .read, _ => true
  | .update, k => k.mayWrite
  | .overwrite, k => k.isSerialized

/-- Where the guard of such a handle leads. -/
def Use.place? : Use → Guard → Option Place
  | .read, g => some g.target
  | .update, g => g.targetMut?
  | .overwrite, g => some g.target

/-- The thread uses the value to which a handle gives access: it reads it, or changes it. -/
def stepAccess (w : World α) (u : Use) (f : α → α) (h : Handle) : World α × Reply α :=
  if !u.allows h.kind then (w, .unsupported)
  else match h.guard? with
    | none => (w, .released h.kind)
    | some g =>
      match u.place? g with
      | none => (w, .unsupported)
      | some p =>
        match w.at? p with
        | none => (w, .absent)
        | some v => (w.putAt p (f v), .value (f v))

/-- A new cell and its first requester; the requester that had its name is dropped
after that. -/
def stepCreate (w : World α) (name : String) (f : Flavour) (value : α) (near : Nat) :
    World α × Reply α :=
  let c := w.cells.length
  let made : World α :=
    { w with
      cells := w.cells ++ [.new f value (freeAddress w.taken near)]
      requesters := w.requesters.put name c }
  ((made.note (.created c f)).disown? (w.requesters.get? name), .done)

/-- One requester more of the cell; the requester that had its name is dropped after
that. -/
def stepClone (w : World α) (name copy : String) : World α × Reply α :=
  match w.requesters.get? name with
  | none => (w, .absent)
  | some c =>
    ({ w.own c with requesters := w.requesters.put copy c }.disown? (w.requesters.get? copy),
      .done)

/-- Drops a requester. -/
def stepDropRequester (w : World α) (name : String) : World α × Reply α :=
  match w.requesters.get? name with
  | none => (w, .absent)
  | some c => ({ w with requesters := w.requesters.erase name }.disown c, .done)

/-- What a thread does that has no request. -/
def stepThread (P : Policy) (w : World α) : Step α → World α × Reply α
  | .attempt t name access h => w.stepAttempt P t name access h
  | .read t h => w.withHandle t h (w.stepAccess .read id)
  | .update t h f => w.withHandle t h (w.stepAccess .update f)
  | .overwrite t h f => w.withHandle t h (w.stepAccess .overwrite f)
  | .release t h => w.withHandle t h fun handle =>
    ({ w with handles := w.handles.put (t, h) handle.released }.surrender handle, .done)
  | .take t h new => w.withHandle t h fun handle =>
    ({ w with handles := w.handles.put (t, h) handle.released }.keep (t, new) handle, .done)
  | .move t h new => w.withHandle t h fun handle =>
    if h = new then (w, .done)
    else ({ w with handles := w.handles.erase (t, h) }.keep (t, new) handle, .done)
  | .drop t h => w.withHandle t h fun handle =>
    ({ w with handles := w.handles.erase (t, h) }.surrender handle, .done)
  | _ => (w, .unsupported)

/-- The thread whose step it is; the other steps are no thread's, or that of one
that asks again or waits. -/
def Step.thread? : Step α → Option ThreadId
  | .attempt t _ _ _ | .read t _ | .update t _ _ | .overwrite t _ _ | .release t _ | .take t _ _
  | .move t _ _ | .drop t _ => some t
  | _ => none

/-- One step, and its answer. A thread that has a request can only ask again, or be
let in. -/
def step (P : Policy) (w : World α) (s : Step α) : World α × Reply α :=
  match s.thread? with
  | some t => if w.isBlocked t then (w, .blocked) else w.stepThread P s
  | none =>
    match s with
    | .create name f value near => w.stepCreate name f value near
    | .cloneRequester name copy => w.stepClone name copy
    | .dropRequester name => w.stepDropRequester name
    | .block t => w.stepEnter P t .refused
    | .grant t => w.stepEnter P t .waiting
    | _ => (w, .unsupported)

/-- The oldest request that waits and may be let in. -/
def next? (P : Policy) (w : World α) : Option Request :=
  w.requests.find? fun r => r.phase = .waiting && (w.withdraw r).admits P r.cell r.kind

/-- The world after some steps. -/
def run (P : Policy) (w : World α) : List (Step α) → World α
  | [] => w
  | s :: rest => run P (w.step P s).1 rest

end Custody.Shared.World
