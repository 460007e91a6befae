/-
# Sessions that count nothing

A session whose values are no nodes can be held with a register in place of a heap: each
request is carried out on the register, and what is answered is said here in full. No
count is kept, so whether a pointer is unique, and what a request destroys, is read off
all variables.

The values of such a session have no pointers and no destructor. A node without either
would be told of when it is destroyed, and shows that it has no successor, so this is
said of nodes here too.

Key definitions: `Reply.told`, `Register.result`, `Register.tell`, `Register.session`.
-/
import Mathlib.Data.List.Dedup
import Custody.Heap.Session
import Custody.Proofs.Heap.Register

namespace Custody

open Heap Heap.Session

/-! ### Answers -/

namespace Heap

/-- What is said when a pointer without target is used. -/
def nullText (shape : Shape) : String :=
  "attempt to dereference null pointer - " ++
    ("rc_shared::ref_counted::RefCountedPtr<" ++ shape.typeName ++ ">")

/-- What is said of an answer by which nothing is found out, or why the request is refused. -/
def Answer.told (shape : Shape) : Answer Datum → Except Refusal Message
  | .done => .ok (.text "ok")
  | .denied => .ok (.text "none")
  | .null => .ok (.record [("panic", .text (nullText shape))])
  | .absent => .error (.badInput "no kid")
  | .vacant => .error (.empty "slot")
  | .busy => .error (.busy "link")
  | _ => .error (.unsupported "kind")

/-- What is said of a reply, or why the request is refused. -/
def Reply.told (shape : Shape) : Reply Datum → Except Refusal Message
  | .answer (.value d) => .ok (.record [("ok", d.answer)])
  | .answer (.flag b) => .ok (.bool b)
  | .answer (.unique b) => .ok (.bool b)
  | .answer a => a.told shape
  | .compared m => .ok m
  | .perhaps (some d) => .ok (.record [("some", d.answer)])
  | .perhaps none => .ok (.text "none")
  | .nullError => .ok (.record [("error", .text "Null"), ("message", .text (nullText shape))])
  | .panicked => .ok (.record [("panic", .text (nullText shape))])

/-- What is told of a value that was destroyed. -/
def Datum.obituary? : Datum → Option String
  | .node id _ => some ("drop " ++ id)
  | _ => none

/-- What is told of the values that were destroyed. -/
def obituaries (ds : List (CellId × Datum)) : Message :=
  .texts (ds.filterMap fun d => Datum.obituary? d.2)

/-- Whether the request has a path with steps. -/
def hasPath (m : Message) : Bool :=
  !(((m.get? "path").bind Message.list?).getD []).isEmpty

end Heap

namespace Register

/-- A register after a request, what is answered, and the values that were destroyed. -/
structure Told where
  register : Register Datum
  message : Message
  destroyed : List (CellId × Datum)

/-- What comes of a request: it is refused and changes nothing, or it is answered. -/
abbrev Result := Except Refusal Told

/-- The result of a request that changes nothing. -/
def told (r : Register Datum) (x : Except Refusal Message) : Result :=
  match x with
  | .error refusal => .error refusal
  | .ok m => .ok ⟨r, m, []⟩

/-- The result of a request that finds out nothing, but is done or not. -/
def Outcome.finished (shape : Shape) (o : Outcome Datum) : Result :=
  match o.reply with
  | .answer a =>
    match a.told shape with
    | .error refusal => .error refusal
    | .ok m => .ok ⟨o.register, m, o.destroyed⟩
  | _ => .error (.unsupported "kind")

/-! ### Requests -/

/-- A new cell, and a pointer to it. If the request does not say of what kind, there is only
the cell, and its value is destroyed. -/
def requestMake (shape : Shape) (r : Register Datum) (m : Message) : Result := do
  let s ← varAt "s" m
  let some d := shape.read? ((m.get? "v").getD .null) | .error (.badInput "v")
  match firstKind? (m.textAt "as") with
  | some kind => (r.make s kind d).finished shape
  | none =>
    let made := r.make (Node.lastVar + 1) .nullable d
    let lost := made.register.store (Node.lastVar + 1) none
    .ok ⟨lost.register, .record [("error", .text "BadInput"), ("message", .text "as")],
      made.destroyed ++ lost.destroyed⟩

/-- A question about the pointer in a variable, from which no path leads on. -/
def requestLook (shape : Shape) (r : Register Datum) (m : Message)
    (ask : Nat → Arrow → Except Refusal Message) : Result := do
  let s ← varAt "s" m
  match r.find s with
  | .error e => r.told (e.told shape)
  | .ok q =>
    if hasPath m then
      match q.target? with
      | none => r.told (.ok (.record [("panic", .text (nullText shape))]))
      | some _ => .error (.unsupported "path")
    else r.told (ask s q)

/-- What a pointer shows of itself. -/
def shown (r : Register Datum) (q : Arrow) : Shown :=
  let name :=
    match q.kind with
    | .nullable => "RefCountedPtr"
    | .notNull => "RefCountedNotNullPtr"
    | .fixed => "RefCountedFixedPtr"
  match r.value? q with
  | some d => .tuple name [d.shown [("next", .atom "RefCountedPtr(null)")]]
  | none => .atom (name ++ "(null)")

/-- Changes the value of the target, if no other variable has that target. -/
def requestChange (shape : Shape) (r : Register Datum) (m : Message)
    (f : Datum → Message → Option Datum) : Result := do
  let s ← varAt "s" m
  match (r.update s id).reply with
  | .answer (.value d) =>
    if hasPath m then .error (.unsupported "path")
    else
      match f d ((m.get? "v").getD .null) with
      | none => .error (.badInput "v")
      | some d =>
        let o := r.update s fun _ => d
        .ok ⟨o.register, .text "ok", o.destroyed⟩
  | .answer a => r.told (a.told shape)
  | _ => .error (.unsupported "kind")

/-- How many pointers of a kind there are, and with how many targets. -/
def requestDistinct (r : Register Datum) (m : Message) : Result := do
  let some kind := kind? (m.textAt "kind") | .error (.badInput "kind")
  let arrows := (List.range (Node.lastVar + 1)).filterMap fun i => r.slots[i]?.join
  let targets := (arrows.filter (·.kind = kind)).map Arrow.target?
  r.told (.ok (.record [("of", .nat targets.length), ("btree", .nat targets.dedup.length),
    ("hash", .nat targets.dedup.length)]))

/-- Puts the pointer of one variable into another as one of another kind. -/
def requestConvert (shape : Shape) (r : Register Datum) (m : Message) : Result := do
  let i ← varAt "from" m
  let s ← varAt "s" m
  let some kind := kind? (m.textAt "to") | .error (.unsupported "kind")
  let o := r.convert i s kind
  match o.reply with
  | .answer .done => .ok ⟨o.register, .text "ok", o.destroyed⟩
  | .answer .null =>
    .ok ⟨o.register, .record [("error", .text "Null"), ("message", .text (nullText shape))],
      o.destroyed⟩
  | _ => .error (.unsupported "kind")

/-- The result of a request. -/
def result (shape : Shape) (r : Register Datum) (m : Message) : Result :=
  match m.textAt "o" with
  | "make" => r.requestMake shape m
  | "null" | "default" => do
    let s ← varAt "s" m
    (r.store s (some (.nullable none))).finished shape
  | "drop" => do
    let s ← varAt "s" m
    (r.store s none).finished shape
  | "move" => do
    let i ← varAt "from" m
    let s ← varAt "s" m
    (r.move i s).finished shape
  | "clone" => do
    let i ← varAt "from" m
    let s ← varAt "s" m
    (r.clone i s).finished shape
  | "clear" => do
    let s ← varAt "s" m
    match r.slots[s]?.join with
    | some (.nullable _) => (r.clear s).finished shape
    | _ => .error (.unsupported "kind")
  | "assign" => do
    let i ← varAt "from" m
    let s ← varAt "s" m
    (r.assign s i).finished shape
  | "get" => r.requestLook shape m fun s q => (r.seen s .get q).told shape
  | "try_get" => r.requestLook shape m fun s q => (r.seen s .tryGet q).told shape
  | "deref" => r.requestLook shape m fun s q => (r.seen s .deref q).told shape
  | "is_null" => r.requestLook shape m fun s q => (r.seen s .isNull q).told shape
  | "is_unique" => r.requestLook shape m fun s q => (r.seen s .isUnique q).told shape
  | "debug" => r.requestLook shape m fun _ q =>
    match Format.ofName? (m.textAtD "?" "spec") with
    | some f => .ok (.text ((r.shown q).render f))
    | none => .error (.badInput "spec")
  | "set" => r.requestChange shape m Datum.set?
  | "add" => r.requestChange shape m Datum.add?
  | "cmp" => do
    let a ← varAt "a" m
    let b ← varAt "b" m
    r.told ((r.compare a b).reply.told shape)
  | "distinct" => r.requestDistinct m
  | "convert" => r.requestConvert shape m
  | _ => .error (.badInput "o")

/-! ### Sessions -/

/-- What comes of a request, also if it is refused. -/
def tell (shape : Shape) (r : Register Datum) (m : Message) : Told :=
  match r.result shape m with
  | .ok t => t
  | .error refusal => ⟨r, refusal.answer, []⟩

/-- The word for what is in a variable. -/
def word (r : Register Datum) (i : Nat) : String :=
  match r.slots[i]?.join with
  | none => "-"
  | some (.nullable none) => "P0"
  | some (.nullable (some c)) => if r.shared i c then "Ps" else "Pu"
  | some (.notNull c) => if r.shared i c then "Ns" else "Nu"
  | some (.fixed c) => if r.shared i c then "Fs" else "Fu"

/-- The answer of a step: to the request, with what is told of those that were destroyed, and
what is in the variables. -/
def Told.record (t : Told) : Message :=
  .record [("r", t.message), ("ev", obituaries t.destroyed),
    ("slots", .text (" ".intercalate ((List.range (Node.lastVar + 1)).map t.register.word)))]

/-- The register after the requests. -/
def after (shape : Shape) : List Message → Register Datum → Register Datum
  | [], r => r
  | m :: rest, r => after shape rest (r.tell shape m).register

/-- The answers to the requests. -/
def answers (shape : Shape) : List Message → Register Datum → List Message
  | [], _ => []
  | m :: rest, r => (r.tell shape m).record :: answers shape rest (r.tell shape m).register

/-- What is destroyed when the variables are emptied in order, those from `i` on. -/
def emptied (r : Register Datum) : List Nat → List (CellId × Datum)
  | [] => []
  | i :: rest => (r.store i none).destroyed ++ (r.store i none).register.emptied rest

end Register

/-- A session with a register. -/
def Register.session (shape : Shape) (requests : List Message) : Message :=
  .record [("steps", .list (Register.answers shape requests (.empty (Node.lastVar + 2)))),
    ("end", obituaries ((Register.after shape requests (.empty (Node.lastVar + 2))).emptied
      (List.range (Node.lastVar + 1))))]

end Custody
