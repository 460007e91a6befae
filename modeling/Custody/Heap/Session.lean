/-
# Sessions with counted pointers

A session has eight variables, and one more for pointers that it holds only while
it carries out a request. Each answer has, besides the result, what destructors
recorded since the last one, and what kind of pointer is in each variable; if a
destructor gave up, that is the result. At the end the variables are emptied in
order.

Key definitions: `Heap.Session.result`, `Heap.Session.step`, `Heap.session`.
-/
import Custody.Heap.Cascade
import Custody.Heap.Report

namespace Custody.Heap.Session

/-- The variable for pointers that the session holds only for a while. -/
def scratch : Ref := .var (Node.lastVar + 1)

/-- What a request does: it is refused and changes nothing, or it is answered. -/
abbrev Result := Except Refusal (State × Message)

/-! ### Reading requests -/

/-- The variable that a part of the request names. -/
def varAt (name : String) (m : Message) : Except Refusal Nat :=
  match m.indexAt? Node.lastVar name with
  | some i => .ok i
  | none => .error (.badInput name)

/-- The path of the request; only nodes have pointers to follow. -/
def pathOf (shape : Shape) (m : Message) : Node.Path :=
  match shape, ((m.get? "path").bind Message.list?).getD [] with
  | .node, steps => Node.path steps
  | _, [] => ⟨[], none⟩
  | _, _ :: _ => ⟨[], some (.unsupported "path")⟩

/-- What a nullable, a `notNull` and a `fixed` pointer are called in a request. -/
def kind? : String → Option Kind
  | "ptr" => some .nullable
  | "notnull" => some .notNull
  | "fixed" => some .fixed
  | _ => none

/-! ### Giving answers -/

/-- What is answered when an act could not be performed. -/
def failed (shape : Shape) (h : State) : Answer Datum → Result
  | .null => .ok (h, .panicked (Node.nullAccess shape).message)
  | .denied => .ok (h, .text "none")
  | .absent => .error (.badInput "no kid")
  | .vacant => .error (.empty "slot")
  | .busy => .error (.busy "link")
  | _ => .error .kind

/-- The answer of an act that has nothing to say but that it was done. -/
def finished (shape : Shape) (r : State × Answer Datum) : Result :=
  match r.2 with
  | .done => .ok (r.1, .done)
  | a => failed shape r.1 a

/-- Performs an act. -/
def perform (h : State) (a : Act Datum) : State × Answer Datum :=
  h.exec (.act a)

/-! ### Requests -/

/-- The kind of the first pointer to a new cell. -/
def firstKind? : String → Option Kind
  | "refcounted" => some .fixed
  | name => kind? name

/-- Makes a new cell and stores a pointer to it. If the request does not say of what
kind, the value is there already and is destroyed. -/
def make (shape : Shape) (h : State) (m : Message) : Result := do
  let s ← varAt "s" m
  let v := (m.get? "v").getD .null
  let some data := shape.read? v | .error (.badInput "v")
  let near := h.cells.length + 1
  let act (dst : Ref) (kind : Kind) : Act Datum :=
    match data with
    | .node id _ => .make dst kind data (Node.script id (Node.hooks v)) [none] [none] near
    | _ => .make dst kind data [] [] [] near
  match firstKind? (m.textAt "as") with
  | some kind => finished shape (perform h (act (.var s) kind))
  | none =>
    let (h, _) := perform h (act scratch .nullable)
    let (h, _) := perform h (.drop scratch)
    .ok (h, (Refusal.badInput "as").answer)

/-- Looks at the pointer at the end of a path. `ask` is told whether it has no
target, and then what that holds. -/
def look (shape : Shape) (h : State) (m : Message) (nullableOnly : Bool)
    (ask : Pointer → Option Datum → Except Refusal Message) : Result := do
  let s ← varAt "s" m
  let path := pathOf shape m
  match path.refusal with
  | some refusal =>
    match h.query none (.read (.var s) path.hops) with
    | .value _ => .error refusal
    | a => failed shape h a
  | none =>
    match h.find none (.var s) path.hops with
    | .error a => failed shape h a
    | .ok (_, _, q) =>
      if nullableOnly && q.kind ≠ .nullable then .error .kind
      else
        let data :=
          match h.query none (.read (.var s) path.hops) with
          | .value d => some d
          | _ => none
        return (h, ← ask q data)

/-- Changes what the target at the end of a path holds. -/
def change (shape : Shape) (h : State) (m : Message)
    (f : Datum → Message → Option Datum) : Result := do
  let s ← varAt "s" m
  let path := pathOf shape m
  match perform h (.update (.var s) path.hops id) with
  | (_, .value d) =>
    match path.refusal with
    | some refusal => .error refusal
    | none =>
      match f d ((m.get? "v").getD .null) with
      | none => .error (.badInput "v")
      | some d =>
        let (h, _) := perform h (.update (.var s) path.hops fun _ => d)
        .ok (h, .done)
  | (_, a) => failed shape h a

/-- Gives one variable the target of another. -/
def assign (shape : Shape) (h : State) (m : Message) : Result := do
  let i ← varAt "from" m
  let s ← varAt "s" m
  match pointer? h s, pointer? h i with
  | some (.nullable _), some (.nullable _) | some (.notNull _), some (.notNull _) =>
    if i = s then .ok (h, .done)
    else finished shape (perform h (.assign (.var s) (.var i) []))
  | _, _ => .error .kind

/-- Compares the pointers in two variables. -/
def compare (h : State) (m : Message) : Result := do
  let a ← varAt "a" m
  let b ← varAt "b" m
  match pointer? h a, pointer? h b with
  | some q, some q' =>
    if q.kind = q'.kind then .ok (h, (h.identity q.owner?).comparison (h.identity q'.owner?))
    else .error .kind
  | _, _ => .error (.empty "slot")

/-- Says how many different pointers of a kind there are. -/
def distinct (h : State) (m : Message) : Result := do
  let some kind := kind? (m.textAt "kind") | .error (.badInput "kind")
  let pointers := (List.range (Node.lastVar + 1)).filterMap (pointer? h)
  .ok (h, Identity.distinct ((pointers.filter (·.kind = kind)).map fun q => h.identity q.owner?))

/-- Stores a pointer as one of another kind. -/
def convert (shape : Shape) (h : State) (m : Message) : Result := do
  let i ← varAt "from" m
  let s ← varAt "s" m
  let some kind := kind? (m.textAt "to") | .error .kind
  match perform h (.convert (.var i) (.var s) kind) with
  | (h, .done) => .ok (h, .done)
  | (h, .null) => .ok (h, (Node.nullAccess shape).answer)
  | _ => .error .kind

/-- Makes one node after the other, each with the one before as its successor. -/
def makeChain (name : String) : Nat → Nat → State → State
  | 0, _, h => h
  | n + 1, i, h =>
    let before := if i = 0 then none else some scratch
    let data := .node (name ++ toString i) (Int64.ofNat i)
    let near := h.cells.length + 1
    makeChain name n (i + 1)
      (perform h (.make scratch .nullable data [] [before] [none] near)).1

/-- Stores a pointer to the last node of a new chain. -/
def chain (shape : Shape) (h : State) (m : Message) : Result := do
  let s ← varAt "s" m
  let some n := m.indexAt? 2000 "n" | .error (.badInput "n")
  if n = 0 then finished shape (perform h (.reset (.var s)))
  else finished shape (perform (makeChain (m.textAt "prefix") n 0 h) (.move scratch (.var s)))

/-- A path that must have a step. -/
def properPath (shape : Shape) (m : Message) : Except Refusal Node.Path :=
  let path := pathOf shape m
  if path.isEmpty then .error (.badInput "path") else .ok path

/-- Looks for the pointer at the end of a path: nothing if it is there, otherwise
what is answered. -/
def missing? (shape : Shape) (h : State) (i : Nat) (path : Node.Path) : Option Result :=
  match path.refusal with
  | some refusal =>
    match h.query none (.read (.var i) path.hops) with
    | .value _ => some (.error refusal)
    | a => some (failed shape h a)
  | none =>
    match h.find none (.var i) path.hops with
    | .error a => some (failed shape h a)
    | .ok _ => none

/-- Stores a copy of the pointer at the end of a path. -/
def cloneAt (shape : Shape) (h : State) (m : Message) : Result := do
  let i ← varAt "from" m
  let s ← varAt "s" m
  let path ← properPath shape m
  match missing? shape h i path with
  | some r => r
  | none => finished shape (perform h (.clone (.var i) path.hops (.var s)))

/-- Gives a variable the target of the pointer at the end of a path, which may start
at that variable. -/
def assignAt (shape : Shape) (h : State) (m : Message) : Result := do
  let i ← varAt "from" m
  let s ← varAt "s" m
  let path ← properPath shape m
  if i ≠ s && !isNullable h s then .error .kind
  else
    match missing? shape h i path with
    | some r => r
    | none =>
      finished shape (perform h
        (if i = s then .advance (.var s) path.hops else .assign (.var s) (.var i) path.hops))

/-- Puts a pointer, or a copy of it, into a node that is reached by pointers that
share it with no other. A pointer that could not be put there goes back. -/
def store (shape : Shape) (h : State) (m : Message) (site : Site) : Result := do
  let i ← varAt "from" m
  let s ← varAt "s" m
  let path := pathOf shape m
  let moved := m.flagAt "move"
  if moved && i = s then .error (.badInput "from")
  else if !isNullable h i then .error .kind
  else
    let (h, _) := perform h (if moved then .move (.var i) scratch else .clone (.var i) [] scratch)
    let giveBack (h : State) : State :=
      (perform h (if moved then .move scratch (.var i) else .drop scratch)).1
    match path.refusal with
    | some refusal =>
      match perform h (.update (.var s) path.hops id) with
      | (_, .value _) => .error refusal
      | (_, a) => failed shape (giveBack h) a
    | none =>
      match perform h (.store (.var s) path.hops site scratch) with
      | (h, .done) => .ok (h, .done)
      | (_, a) => failed shape (giveBack h) a

/-- Overwrites the link of a node that is reached by reading. -/
def setLink (shape : Shape) (h : State) (m : Message) : Result := do
  let i ← varAt "from" m
  let s ← varAt "s" m
  let path := pathOf shape m
  if !isNullable h i then .error .kind
  else
    let (h', _) := perform h (.clone (.var i) [] scratch)
    match path.refusal with
    | some refusal =>
      match h.query none (.read (.var s) path.hops) with
      | .value _ => .error refusal
      | a => failed shape h a
    | none =>
      match h'.exec (.relink (.var s) path.hops 0 scratch) with
      | (h, .done) => .ok (h, .done)
      | (_, a) => failed shape h a

/-- The result of a request. -/
def result (shape : Shape) (h : State) (m : Message) : Result :=
  match m.textAt "o", shape with
  | "make", _ => make shape h m
  | "null", _ | "default", _ => do
    let s ← varAt "s" m
    finished shape (perform h (.reset (.var s)))
  | "drop", _ => do
    let s ← varAt "s" m
    finished shape (perform h (.drop (.var s)))
  | "move", _ => do
    let i ← varAt "from" m
    let s ← varAt "s" m
    finished shape (perform h (.move (.var i) (.var s)))
  | "clone", _ => do
    let i ← varAt "from" m
    let s ← varAt "s" m
    finished shape (perform h (.clone (.var i) [] (.var s)))
  | "clear", _ => do
    let s ← varAt "s" m
    if isNullable h s then finished shape (perform h (.clear (.var s))) else .error .kind
  | "assign", _ => assign shape h m
  | "get", _ => look shape h m true fun _ d =>
    .ok (match d with
      | some d => .record [("some", d.answer)]
      | none => .text "none")
  | "try_get", _ => look shape h m true fun _ d =>
    .ok (match d with
      | some d => .ok d.answer
      | none => (Node.nullAccess shape).answer)
  | "deref", _ => look shape h m false fun _ d =>
    .ok (match d with
      | some d => .ok d.answer
      | none => .panicked (Node.nullAccess shape).message)
  | "is_null", _ => look shape h m true fun q _ => .ok (.bool q.owner?.isNone)
  | "is_unique", _ => look shape h m false fun q _ => .ok (.bool (h.isUnique q.owner?))
  | "debug", _ => look shape h m false fun q _ =>
    match Format.ofName? (m.textAtD "?" "spec") with
    | some f => .ok (.text ((shown h (h.cells.length + 1) q.kind q.owner?).render f))
    | none => .error (.badInput "spec")
  | "set", _ => change shape h m Datum.set?
  | "add", _ => change shape h m Datum.add?
  | "cmp", _ => compare h m
  | "distinct", _ => distinct h m
  | "convert", _ => convert shape h m
  | "chain", .node => chain shape h m
  | "clone_at", .node => cloneAt shape h m
  | "assign_at", .node => assignAt shape h m
  | "set_next", .node => store shape h m (.at Node.next)
  | "push_kid", .node => store shape h m .last
  | "set_link", .node => setLink shape h m
  | _, _ => .error (.badInput "o")

/-- Carries out a request and answers it. -/
def step (shape : Shape) (h : State) (m : Message) : State × Message :=
  let h := { h with log := [] }
  let (h, r) :=
    match result shape h m with
    | .ok (h, r) => (h, if gaveUp h then .panicked Node.overflowText else r)
    | .error refusal => (h, refusal.answer)
  (h, .record [("r", r), ("ev", story h), ("slots", .text (words h))])

/-- The answers to the requests, and the heap after them. -/
def steps (shape : Shape) : List Message → State → List Message × State
  | [], h => ([], h)
  | m :: rest, h =>
    let (h, r) := step shape h m
    let (rs, h) := steps shape rest h
    (r :: rs, h)

/-- The heap after the variables were emptied in order. -/
def close (h : State) : State :=
  (List.range (Node.lastVar + 1)).foldl (fun h i => (perform h (.drop (.var i))).1)
    { h with log := [] }

end Session

/-- A session with values of that shape. -/
def session (shape : Shape) (requests : List Message) : Message :=
  let (answers, h) := Session.steps shape requests (.empty (Node.lastVar + 2))
  .record [("steps", .list answers), ("end", Session.story (Session.close h))]

end Custody.Heap
