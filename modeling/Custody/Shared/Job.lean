/-
# Threads that use handles

A session has eight threads. A thread asks for a handle to keep it, or to use it at
once and drop it; if it has to wait, it does so when it gets the handle. Locks are
task-fair and let in, oldest first, all those who wait and may enter.

Key definitions: `Session.State`, `Session.Job`, `Session.ask`, `Session.serveAll`.
-/
import Custody.Access
import Custody.Payload
import Custody.Shared.Step

namespace Custody.Shared.Session

/-- The last thread of a session. -/
def lastThread : ThreadId := 7

/-- The locks' policy. -/
def policy : Policy := .taskFair

/-- How a value is changed: replaced, or added to. -/
structure Edit where
  replaces : Bool
  operand : Message

/-- The value after the change. -/
def Edit.apply (e : Edit) (d : Datum) : Option Datum :=
  if e.replaces then d.set? e.operand else d.add? e.operand

/-- What a thread does with a handle when it gets it. -/
inductive Job where
  | keep
  /-- Reads, and drops the handle. -/
  | read
  /-- Changes the value, and drops the handle. -/
  | edit (e : Edit)

/-- What a session knows: the world, what the threads that wait will do, and the
values that were destroyed in this step without having been a cell's last value. -/
structure State where
  world : World Datum
  jobs : Table ThreadId Job
  drops : List String

/-- A session at its start. -/
def State.start : State := ⟨.empty, [], []⟩

/-- What a request does: it is refused and changes nothing, or it is answered. -/
abbrev Result := Except Refusal (State × Message)

/-- One step of the world. -/
def perform (s : State) (e : World.Step Datum) : State × World.Reply Datum :=
  let (w, r) := s.world.step policy e
  ({ s with world := w }, r)

/-! ### Values and handles -/

/-- What is recorded of a value that is destroyed. -/
def dropText? : Datum → Option String
  | .tracked id n => some (id ++ ":" ++ toString n.toInt)
  | _ => none

/-- Records the destruction of a value. -/
def recordDrop (d : Datum) (s : State) : State :=
  { s with drops := (dropText? d).toList ++ s.drops }

/-- The error of using a released handle. -/
def releasedAccess (shape : Shape) (k : HandleKind) : InvalidAccess :=
  .released ("rc_shared::handle::" ++ k.name ++ "<" ++ shape.typeName ++ ">")

/-- What a released handle answers, when it is tried or just used. -/
def releasedAnswer (shape : Shape) (k : HandleKind) (tried : Bool) : Message :=
  if tried then (releasedAccess shape k).answer
  else .panicked (releasedAccess shape k).message

/-- Reads through a handle. -/
def read (shape : Shape) (s : State) (t : ThreadId) (h : HandleName) (tried : Bool) : Result :=
  match perform s (.read t h) with
  | (s, .value d) => .ok (s, .ok d.answer)
  | (s, .released k) => .ok (s, releasedAnswer shape k tried)
  | _ => .error (.empty "handle")

/-- Changes the value through a handle. A released handle is noticed before a
change that cannot be made. -/
def edit (shape : Shape) (s : State) (t : ThreadId) (h : HandleName) (e : Edit) (tried : Bool) :
    Result :=
  match perform s (.update t h id) with
  | (s, .value d) =>
    match e.apply d with
    | none => .error (.badInput "v")
    | some d' =>
      let (s, _) := perform s (.update t h fun _ => d')
      .ok (if e.replaces then recordDrop d s else s, .ok d'.answer)
  | (s, .released k) => .ok (s, releasedAnswer shape k tried)
  | (_, .unsupported) => .error .kind
  | _ => .error (.empty "handle")

/-- Overwrites the value through a handle that may only read it. -/
def overwrite (shape : Shape) (s : State) (t : ThreadId) (h : HandleName) (v : Message) :
    Result :=
  if shape ≠ .cell then .error .kind
  else match perform s (.overwrite t h id) with
    | (s, .value d) =>
      match d.set? v with
      | none => .error (.badInput "v")
      | some d =>
        let (s, _) := perform s (.overwrite t h fun _ => d)
        .ok (s, .ok d.answer)
    | (s, .released k) => .ok (s, releasedAnswer shape k false)
    | (_, .unsupported) => .error .kind
    | _ => .error (.empty "handle")

/-! ### Requests for handles -/

/-- The answer of a request that may be refused, with what is left of the session. -/
def settled (s : State) : Result → State × Message
  | .ok r => r
  | .error refusal => (s, refusal.answer)

/-- What a thread does that just got a handle. -/
def finish (shape : Shape) (s : State) (t : ThreadId) (job : Job) : State × Message :=
  match job with
  | .keep => (s, .text "granted")
  | .read =>
    let (s, r) := settled s (read shape s t .passing false)
    ((perform s (.drop t .passing)).1, r)
  | .edit e =>
    let (s, r) := settled s (edit shape s t .passing e false)
    ((perform s (.drop t .passing)).1, r)

/-- A thread asks for a handle, and does its job with it now or when it gets it. -/
def ask (shape : Shape) (s : State) (t : ThreadId) (requester : String) (access : Access)
    (h : HandleName) (job : Job) : Result :=
  match perform s (.attempt t requester access h) with
  | (s, .granted) => .ok (finish shape s t job)
  | (s, .contended) =>
    match perform s (.block t) with
    | (s, .granted) => .ok (finish shape s t job)
    | (s, _) => .ok ({ s with jobs := s.jobs.put t job }, .text "waiting")
  | (_, .unsupported) => .error .kind
  | (_, .blocked) => .error .blocked
  | _ => .error (.empty "requester")

/-- Lets in those who wait, oldest first, at most that many, and collects what they
were answered. -/
def serve (shape : Shape) : Nat → State → State × Table ThreadId Message
  | 0, s => (s, [])
  | n + 1, s =>
    match s.world.next? policy with
    | none => (s, [])
    | some r =>
      let job := (s.jobs.get? r.thread).getD .keep
      let (s, _) := perform { s with jobs := s.jobs.erase r.thread } (.grant r.thread)
      let (s, answer) := finish shape s r.thread job
      let (s, rest) := serve shape n s
      (s, (r.thread, answer) :: rest)

/-- Lets in all who wait and may enter. -/
def serveAll (shape : Shape) (s : State) : State × Table ThreadId Message :=
  serve shape s.world.requests.length s

end Custody.Shared.Session
