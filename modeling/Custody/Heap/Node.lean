/-
# Nodes

A node is a value with an identifying text and a number. Its first field is its
successor, the other fields are its children, and it has one link. Its destructor
is a list of named instructions with a number each, and records after each one
what came of it. The instructions about a variable act on one of the session's
eight; those about a child name it by its position. To make a number one more
that is the last of its kind cannot be done, and the destructor gives up.

Key definitions: `Node.script`, `Node.path`.
-/
import Custody.Heap.Act
import Custody.Access
import Custody.Payload

namespace Custody.Heap.Node

/-- The last variable that a session can name. -/
def lastVar : Nat := 7

/-- The field of the successor. -/
def next : Hop := .field 0

/-- The field of the `k`-th child. -/
def kid (k : Nat) : Hop := .field (k + 1)

/-- The link. -/
def link : Hop := .link 0

/-- The name of the type of nullable pointers to values of the shape. -/
def pointerType (shape : Shape) : String :=
  "rc_shared::ref_counted::RefCountedPtr<" ++ shape.typeName ++ ">"

/-- The error of using a pointer without target. -/
def nullAccess (shape : Shape) : InvalidAccess :=
  .null (pointerType shape)

/-- The number of the node is one more. -/
def bump : Datum → Datum
  | .node id n => .node id (n + 1)
  | d => d

/-- Whether the node's number is the last one. -/
def atLimit : Answer Datum → Bool
  | .value (.node _ n) => n = Int64.maxValue
  | _ => false

/-- What is said when a destructor gave up. -/
def overflowText : String :=
  "attempt to add with overflow"

/-- What is recorded of a truth value. -/
def flagText (b : Bool) : String :=
  if b then "true" else "false"

/-- What is recorded of an answer that gives a node by its text. -/
def sayTarget : Answer Datum → String
  | .unique b => flagText b
  | .flag b => flagText b
  | .value (.node id _) => id
  | .null => (nullAccess .node).message
  | .vacant => "empty"
  | .busy => "busy"
  | _ => "skip"

/-- What is recorded of an answer to a change. -/
def sayChange : Answer Datum → String
  | .done => "ok"
  | .busy => "busy"
  | _ => "skip"

/-- What is recorded of an answer that gives a node by its number. -/
def sayNumber : Answer Datum → String
  | .value (.node _ n) => toString n.toInt
  | _ => "none"

/-- Whether there was no such child. -/
def missed (a : Answer Datum) : Bool :=
  a = .absent

/-- An instruction about a variable. -/
def onVar (name : String) (i : Ref) : Option (List (Act Datum) × (Answer Datum → String)) :=
  match name with
  | "unique" => some ([.ask (.isUnique i [])], sayTarget)
  | "get" => some ([.ask (.read i [])], sayTarget)
  | "clear" => some ([.clear i], sayChange)
  | "drop" => some ([.drop i], sayChange)
  | "keep_next" => some ([.clone (.own next) [] i], sayChange)
  | _ => none

/-- An instruction about a child. -/
def onKid (name : String) (k : Ref) : Option (List (Act Datum) × (Answer Datum → String)) :=
  match name with
  | "next_from_kid" =>
    some ([.assign (.own next) k [], .skipIf missed 1, .ask (.isUnique (.own next) [])], sayTarget)
  | "kid_from_next" =>
    some ([.assign k (.own next) [], .skipIf missed 1, .ask (.isUnique k [])], sayTarget)
  | "clear_kid" => some ([.clear k, .skipIf missed 1, .ask (.isNull k [])], sayTarget)
  | _ => none

/-- An instruction about the successor. -/
def onNext (name : String) : Option (List (Act Datum) × (Answer Datum → String)) :=
  match name with
  | "next_unique" => some ([.ask (.isUnique (.own next) [])], sayTarget)
  | "bump_next" =>
    some ([.update (.own next) [] id, .giveUpIf atLimit, .update (.own next) [] bump], sayNumber)
  | _ => none

/-- The acts of an instruction, and what is recorded of the last answer. One that
is unknown, or about a variable or child that cannot be, is skipped. -/
def instruction (name : String) (k : Nat) : List (Act Datum) × (Answer Datum → String) :=
  let found :=
    (if k ≤ lastVar then onVar name (.var k) else none)
      <|> onKid name (.own (kid k)) <|> onNext name
  found.getD ([], fun _ => "skip")

/-- The destructor of the node with that text. -/
def script (id : String) (hooks : List (String × Nat)) : List (Act Datum) :=
  hooks.flatMap fun (name, k) =>
    let (acts, say) := instruction name k
    acts ++ [.report fun a => id ++ " " ++ name ++ " " ++ toString k ++ ": " ++ say a]

/-- An instruction in the description of a node. A name that is missing reads as
empty, and a number that is missing, or cannot count anything, as zero. -/
def hook (m : Message) : String × Nat :=
  let parts := m.list?.getD []
  ((parts[0]?.bind Message.text?).getD "", (parts[1]?.bind Message.nat64?).getD 0)

/-- The instructions in the description of a node. -/
def hooks (m : Message) : List (String × Nat) :=
  (((m.get? "hooks").bind Message.list?).getD []).map hook

/-- The hop that a step of a path asks for: the successor, the link, or a child. -/
def hop? : Message → Option Hop
  | .text "n" => some next
  | .text "l" => some link
  | m => m.nat64?.map kid

/-- A path: the hops before the first step that is none, and why that step is refused. -/
structure Path where
  hops : List Hop
  refusal : Option Refusal

/-- Whether the path has no steps. -/
def Path.isEmpty (p : Path) : Bool :=
  p.hops.isEmpty && p.refusal.isNone

/-- Reads the steps of a path, up to the first that is none. -/
def path : List Message → Path
  | [] => ⟨[], none⟩
  | m :: rest =>
    match hop? m with
    | some hop => { path rest with hops := hop :: (path rest).hops }
    | none => ⟨[], some (.badInput "path")⟩

end Custody.Heap.Node
