/-
# Sessions

A request for a session names what it is about, the shape of the values, and the
steps to take. Sessions do not know of each other.

Key definitions: `answer`.
-/
import Custody.Access
import Custody.Count.Session
import Custody.Heap.Session
import Custody.Shared.Session

namespace Custody

/-- The shape of the values of a session with counted pointers. -/
def Heap.shape? : String → Option Shape
  | "i64" => some .int
  | "string" => some .text
  | "vec" => some .ints
  | "node" => some .node
  | _ => none

/-- The shape of the values of a session with shared cells. -/
def Shared.shape? : String → Option Shape
  | "i64" => some .int
  | "string" => some .text
  | "vec" => some .ints
  | "cell" => some .cell
  | "tracked" => some .tracked
  | _ => none

/-- The answer of a session with values of a shape that the request names. -/
def answerShaped (request : Message) (shape? : String → Option Shape)
    (session : Shape → List Message → Message) : Message :=
  match shape? (request.textAt "type"), (request.get? "ops").bind Message.list? with
  | none, _ => (Refusal.badInput "type").answer
  | some _, none => (Refusal.badInput "ops").answer
  | some shape, some steps => session shape steps

/-- The answer of a session, or of a question about errors. -/
def answer (request : Message) : Message :=
  match request.textAt "op" with
  | "error" => InvalidAccess.session request
  | "tokens" =>
    match (request.get? "ops").bind Message.list? with
    | some steps => Ledger.session steps
    | none => (Refusal.badInput "ops").answer
  | "refcount" => answerShaped request Heap.shape? Heap.session
  | "shared" => answerShaped request Shared.shape? Shared.session
  | _ => (Refusal.badInput "op").answer

end Custody
