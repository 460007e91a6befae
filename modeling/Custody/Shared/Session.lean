/-
# Sessions with shared cells

After each step the locks let in those who wait and may enter. Each answer has,
besides the result, what those were answered who were let in, what was logged, the
values that were destroyed, the handles there are, and the threads that wait. At the
end the threads drop their handles, as far as they do not wait for ever.

Key definitions: `Session.result`, `Session.step`, `Session.close`, `session`.
-/
import Custody.Shared.Job

namespace Custody.Shared.Session

/-! ### Steps without a thread -/

/-- The flavour that a request names. -/
def flavour? (name : String) : Option Flavour :=
  Flavour.named.lookup name

/-- Makes a new cell. A value that was built and then not used is destroyed. -/
def create (shape : Shape) (s : State) (m : Message) : State × Message :=
  let flavour := flavour? (m.textAt "flavor")
  let via := m.textAt "via"
  let err := if via = "try" then (m.get? "err").bind Message.text? else none
  let value := shape.read? ((m.get? "v").getD .null)
  if shape = .cell && (flavour = some .readWrite || flavour = some .immutable) then
    (s, Refusal.kind.answer)
  else if via ∉ ["make", "new", "try"] then (s, (Refusal.badInput "via").answer)
  else match err, value, flavour with
    | none, none, _ => (s, (Refusal.badInput "v").answer)
    | none, some d, none => (recordDrop d s, (Refusal.badInput "flavor").answer)
    | some _, _, none => (s, (Refusal.badInput "flavor").answer)
    | none, some d, some f =>
      if f.isUnchecked && via ≠ "make" then (recordDrop d s, Refusal.kind.answer)
      else
        let near := s.world.cells.length + 1
        ((perform s (.create (m.textAt "r") f d near)).1, .done)
    | some err, _, some f =>
      if f.isUnchecked then (s, Refusal.kind.answer)
      else (s, .failure "Construct" err)

/-- The cell of a requester, and its flavour. -/
def requester? (s : State) (name : String) : Except Refusal (CellId × Flavour) :=
  match s.world.requesters.get? name with
  | none => .error (.empty "requester")
  | some c =>
    match s.world.flavour? c with
    | none => .error (.empty "requester")
    | some f => .ok (c, f)

/-- Describes a requester, which never waits. -/
def debugRequester (s : State) (m : Message) : Except Refusal Message := do
  let (_, f) ← requester? s (m.textAt "r")
  let shown := Shown.partly f.requesterName [("cell", .atom "<addr>")]
  return .text (shown.render { pretty := m.textAt "spec" = "#?" })

/-- Compares two requesters. -/
def compareRequesters (s : State) (m : Message) : Except Refusal Message := do
  let (c, f) ← requester? s (m.textAt "a")
  let (c', f') ← requester? s (m.textAt "b")
  if f = f' then return (s.world.identity (some c)).comparison (s.world.identity (some c'))
  else .error .kind

/-- Says how many different requesters of a flavour there are. -/
def distinctRequesters (s : State) (m : Message) : Except Refusal Message :=
  match flavour? (m.textAt "flavor") with
  | none => .error (.badInput "flavor")
  | some f =>
    let cells := s.world.requesters.map (·.2)
    .ok (Identity.distinct
      ((cells.filter (s.world.flavour? · = some f)).map fun c => s.world.identity (some c)))

/-- Whether a locked handle or a request for the cell is there. -/
def inUse (w : World Datum) (c : CellId) : Bool :=
  w.handles.any (·.2.grant = some c) || w.requests.any (·.cell = c)

/-- That many times, one after the other, a thread of its own takes a handle, does
the job with it and drops it. -/
def repeatJob (shape : Shape) (requester : String) (access : Access) (job : Job) :
    Nat → State → State
  | 0, s => s
  | n + 1, s =>
    let s := (settled s (ask shape s (lastThread + 1) requester access .passing job)).1
    repeatJob shape requester access job n s

/-- Several threads take handles in turn and add to the value, or read it. The sum
does not depend on whose turn it is, so the threads take their turns as one. What
cannot be added leaves the value as it is. -/
def parallel (shape : Shape) (s : State) (m : Message) : Result := do
  let name := m.textAt "r"
  let (c, f) ← requester? s name
  let amount (limit : Nat) (name : String) : Nat :=
    min limit (((m.get? name).bind Message.nat64?).getD 1)
  let times := amount 8 "threads" * amount 500 "times"
  let add := Message.given? (m.get? "add")
  if inUse s.world c then .error (.busy "cell")
  else
    let s ←
      match add with
      | none => pure (repeatJob shape name .read .read times s)
      | some v =>
        if (f.handle? .write).isNone then .error .kind
        else pure (repeatJob shape name .write (.edit ⟨false, v⟩) times s)
    ask shape s (lastThread + 1) name .read .passing .read

/-! ### Steps of a thread -/

/-- The thread whose step it is. -/
def threadOf (m : Message) : Except Refusal ThreadId :=
  match Message.given? (m.get? "t") with
  | none => .ok 0
  | some _ =>
    match m.indexAt? lastThread "t" with
    | some t => .ok t
    | none => .error (.badInput "t")

/-- The thread's handle of that name. -/
def handle? (s : State) (t : ThreadId) (name : String) : Except Refusal Handle :=
  match s.world.handles.get? (t, .named name) with
  | some h => .ok h
  | none => .error (.empty "handle")

/-- Compares two handles of a thread. -/
def compareHandles (s : State) (t : ThreadId) (m : Message) : Except Refusal Message := do
  let a ← handle? s t (m.textAt "a")
  let b ← handle? s t (m.textAt "b")
  if a.kind = b.kind then return (s.world.identityOf a).comparison (s.world.identityOf b)
  else .error .kind

/-- A thread panics in the course of using a handle, which it may have used to
replace the value. The handle is dropped while the thread unwinds. -/
def panic (shape : Shape) (s : State) (t : ThreadId) (h : Handle) (m : Message) :
    State × Message :=
  let name := .named (m.textAt "h")
  let gone (s : State) (text : String) : State × Message :=
    ((perform s (.drop t name)).1, .panicked text)
  match Message.given? (m.get? "v") with
  | none => gone s (m.textAt "msg")
  | some v =>
    if h.kind.mayWrite && !h.isValid then gone s (releasedAccess shape h.kind).message
    else gone (settled s (edit shape s t name ⟨true, v⟩ false)).1 (m.textAt "msg")

/-- Takes the change out of a request that makes one with a handle of its own; of
two it makes the replacement. -/
def passingJob (m : Message) : Job :=
  match Message.given? (m.get? "set"), Message.given? (m.get? "add") with
  | some v, _ => .edit ⟨true, v⟩
  | none, some v => .edit ⟨false, v⟩
  | none, none => .read

/-- A step of the world that only says that it was done. -/
def done (s : State) (e : World.Step Datum) : Result :=
  .ok ((perform s e).1, .done)

/-- The result of a step with a handle. -/
def handleResult (shape : Shape) (s : State) (t : ThreadId) (m : Message) : Result := do
  let h ← handle? s t (m.textAt "h")
  let name := .named (m.textAt "h")
  let as := .named (m.textAt "as")
  let v := (m.get? "v").getD .null
  let tried := m.textAt "how" = "try"
  match m.textAt "o" with
  | "set" => edit shape s t name ⟨true, v⟩ tried
  | "add" => edit shape s t name ⟨false, v⟩ tried
  | "set_shared" => overwrite shape s t name v
  | "is_valid" => return (s, .bool h.isValid)
  | "try_get" => read shape s t name true
  | "deref" => read shape s t name false
  | "debug" =>
    match Format.ofName? (m.textAtD "?" "spec") with
    | some f => return (s, .text ((s.world.shown (·.shown []) h).render f))
    | none => .error (.badInput "spec")
  | "release" => done s (.release t name)
  | "take" => done s (.take t name as)
  | "move" => done s (.move t name as)
  | "drop" => done s (.drop t name)
  | "panic" => return panic shape s t h m
  | _ => .error (.badInput "o")

/-- The result of a step of a thread. -/
def threadResult (shape : Shape) (s : State) (m : Message) : Result := do
  let t ← threadOf m
  let name := .named (m.textAt "h")
  if s.world.isBlocked t then .error .blocked
  else match m.textAt "o" with
    | "pointer" => ask shape s t (m.textAt "r") .write name .keep
    | "const_pointer" => ask shape s t (m.textAt "r") .read name .keep
    | "with_write" => ask shape s t (m.textAt "r") .write .passing (passingJob m)
    | "with_read" => ask shape s t (m.textAt "r") .read .passing .read
    | "cmp" => return (s, ← compareHandles s t m)
    | _ => handleResult shape s t m

/-- The result of a request. -/
def result (shape : Shape) (s : State) (m : Message) : Result :=
  let name := m.textAt "r"
  match m.textAt "o" with
  | "new" => .ok (create shape s m)
  | "clone_req" => do
    let _ ← requester? s name
    done s (.cloneRequester name (m.textAt "as"))
  | "drop_req" => do
    let _ ← requester? s name
    done s (.dropRequester name)
  | "debug_req" => do return (s, ← debugRequester s m)
  | "cmp_req" => do return (s, ← compareRequesters s m)
  | "distinct_reqs" => do return (s, ← distinctRequesters s m)
  | "parallel" => parallel shape s m
  | _ => threadResult shape s m

/-! ### Answers -/

/-- The line of the log that an event writes. -/
def logLine? (shape : Shape) : Event Datum → Option String
  | .created _ f =>
    some ("TRACE|rc_shared::cell|new " ++ f.cellName ++ " cell for `" ++ shape.typeName ++ "`")
  | .contended _ _ k =>
    some ("TRACE|rc_shared::cell|" ++ k.accessName ++ " access to <addr> is contended, waiting")
  | _ => none

/-- What is recorded of the values destroyed since the log was emptied. -/
def drops (s : State) : Message :=
  let last := s.world.log.filterMap fun e =>
    match e with
    | .destroyed _ d => dropText? d
    | _ => none
  .texts (sortTexts (last ++ s.drops))

/-- The named handles in the order of their threads and names. -/
def handleNames (w : World Datum) : List (ThreadId × String × Handle) :=
  Table.sortBy (fun a b => a.1 < b.1 || (a.1 = b.1 && decide (a.2.1 < b.2.1)))
    (w.handles.filterMap fun ((t, name), h) =>
      match name with
      | .named name => some (t, name, h)
      | .passing => none)

/-- The words for the handles. -/
def handleWords (w : World Datum) : String :=
  " ".intercalate ((handleNames w).map fun (t, name, h) =>
    toString t ++ "." ++ name ++ (if h.isValid then "+" else "-"))

/-- The threads that wait, in order. -/
def waiting (w : World Datum) : Message :=
  .list (((List.range (lastThread + 1)).filter w.isBlocked).map .nat)

/-- The session with an empty log. -/
def forget (s : State) : State :=
  { s with world := { s.world with log := [] }, drops := [] }

/-- Carries out a request, lets in those who can go on, and answers. -/
def step (shape : Shape) (s : State) (m : Message) : State × Message :=
  let s := forget s
  let (s, r) := settled s (result shape s m)
  let (s, granted) := serveAll shape s
  let granted := Table.sortBy (fun a b => decide (a.1 < b.1)) granted
  (s, .record [("r", r),
    ("granted", .list (granted.map fun (t, r) => .record [("t", .nat t), ("r", r)])),
    ("log", .texts (s.world.log.reverse.filterMap (logLine? shape))),
    ("drops", drops s),
    ("handles", .text (handleWords s.world)),
    ("waiting", waiting s.world)])

/-- The answers to the requests, and the session after them. -/
def steps (shape : Shape) : List Message → State → List Message × State
  | [], s => ([], s)
  | m :: rest, s =>
    let (s, r) := step shape s m
    let (rs, s) := steps shape rest s
    (r :: rs, s)

/-! ### The end -/

/-- A thread that does not wait drops its handles in the order of their names. -/
def dropHandles (shape : Shape) (s : State) (t : ThreadId) : State :=
  if s.world.isBlocked t then s
  else
    let names := ((handleNames s.world).filter (·.1 = t)).map (·.2.1)
    (serveAll shape (names.foldl (fun s name => (perform s (.drop t (.named name))).1) s)).1

/-- That many times, each thread in turn drops its handles. -/
def dropAll (shape : Shape) : Nat → State → State
  | 0, s => s
  | n + 1, s => dropAll shape n ((List.range (lastThread + 1)).foldl (dropHandles shape) s)

/-- The end of a session: the threads drop their handles, and those who can then go
on do so, until only those are left who wait for ever; then the requesters are
dropped. -/
def close (shape : Shape) (s : State) : State :=
  let s := forget s
  let s := dropAll shape (s.world.handles.length + s.world.requests.length) s
  s.world.requesters.keys.foldl (fun s name => (perform s (.dropRequester name)).1) s

end Session

/-- A session with shared cells that hold values of that shape. -/
def session (shape : Shape) (requests : List Message) : Message :=
  let (answers, s) := Session.steps shape requests .start
  let s := Session.close shape s
  .record [("steps", .list answers),
    ("end", .record [("drops", Session.drops s), ("stuck", Session.waiting s.world)])]

end Custody.Shared
