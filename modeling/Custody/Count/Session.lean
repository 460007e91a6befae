/-
# Sessions with counts and tokens

A session reads each request as a step of a ledger. Each answer has, besides the
reply, which of the counts are one and which tokens there are.

Key definitions: `Ledger.session`.
-/
import Custody.Count.Ledger
import Custody.Message

namespace Custody.Ledger

/-- The step that a request asks for. -/
def Step.ofMessage? (m : Message) : Option Step :=
  let c := m.textAt "c"
  let k := m.textAt "k"
  match m.textAt "o" with
  | "new" => some (.create c k)
  | "acquire" => some (.acquire c k)
  | "release" => some (.release c k)
  | "drop" => some (.drop k)
  | "unique" => some (.unique c)
  | _ => none

/-- The answer that a reply gives. -/
def Reply.answer : Reply → Message
  | .done => .done
  | .flag b => .bool b
  | .fault f => .panicked f.message
  | .nameTaken => (Refusal.badInput "name taken").answer
  | .noCount => (Refusal.badInput "no count").answer
  | .noToken => (Refusal.badInput "no token").answer

/-- The answer of a step that left the ledger `l`. -/
def report (l : Ledger) (r : Message) : Message :=
  .record [("r", r),
    ("unique", .record (l.counts.map fun (c, n) => (c, .bool n.isUnique))),
    ("tokens", .texts (sortTexts l.tokens.keys))]

/-- The answers of the requests, from the ledger `l` on. -/
def answers (l : Ledger) : List Message → List Message
  | [] => []
  | m :: rest =>
    match Step.ofMessage? m with
    | none => l.report (Refusal.badInput "o").answer :: answers l rest
    | some s =>
      let (l, r) := l.step s
      l.report r.answer :: answers l rest

/-- A session that starts with no counts and no tokens. -/
def session (requests : List Message) : Message :=
  .record [("steps", .list (answers .empty requests))]

end Custody.Ledger
