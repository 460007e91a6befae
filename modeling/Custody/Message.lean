/-
# Messages

A request and an answer are trees of one shape: nothing, a truth value, an
integer, a text, a list, or a record of named parts. A request is read
leniently, by the part's name: a text that is missing, or is not a text, reads
as the empty text, and a flag that is missing reads as false. What must be
there is asked for with `get?` or `textAt?`, and the caller says what is wrong if
it is not.

Key definitions: `Message`, `Message.get?`, `Message.textAt`, `Message.flagAt`,
`Message.indexAt?`, `Refusal`, `Refusal.answer`.
-/

namespace Custody

/-- A request, an answer, or a part of one. `other` stands for a part of a
request that no request has a use for, such as a fraction. -/
inductive Message where
  | null
  | bool (b : Bool)
  | int (n : Int)
  | text (s : String)
  | list (items : List Message)
  | record (parts : List (String × Message))
  | other
  deriving Inhabited

namespace Message

/-- The part of that name, if the message is a record that has one. -/
def get? (name : String) : Message → Option Message
  | .record parts => parts.lookup name
  | _ => none

/-- The text itself, if the message is one. -/
def text? : Message → Option String
  | .text s => some s
  | _ => none

/-- The integer itself, if the message is one. -/
def int? : Message → Option Int
  | .int n => some n
  | _ => none

/-- The natural number that the message says, if it has 64 bits. -/
def nat64? : Message → Option Nat
  | .int (.ofNat n) => if n < UInt64.size then some n else none
  | _ => none

/-- The items, if the message is a list. -/
def list? : Message → Option (List Message)
  | .list items => some items
  | _ => none

/-- Whether the message is there and says more than nothing. -/
def given? : Option Message → Option Message
  | some .null => none
  | m => m

/-- The text of that name, if there is one. -/
def textAt? (name : String) (m : Message) : Option String :=
  (m.get? name).bind text?

/-- The text of that name, or `default` if there is none. -/
def textAtD (default name : String) (m : Message) : String :=
  (m.textAt? name).getD default

/-- The text of that name; a missing one reads as empty. -/
def textAt (name : String) (m : Message) : String :=
  m.textAtD "" name

/-- The flag of that name; a missing one reads as false. -/
def flagAt (name : String) (m : Message) : Bool :=
  match m.get? name with
  | some (.bool b) => b
  | _ => false

/-- The natural number of that name, if it is there and at most `last`. -/
def indexAt? (last : Nat) (name : String) (m : Message) : Option Nat :=
  ((m.get? name).bind nat64?).filter (· ≤ last)

/-- A list of texts as a message. -/
def texts (items : List String) : Message :=
  .list (items.map .text)

/-- A natural number as a message. -/
def nat (n : Nat) : Message :=
  .int n

/-- The answer that says what went wrong: its kind, and the text that goes with it. -/
def failure (kind text : String) : Message :=
  .record [("error", .text kind), ("message", .text text)]

/-- The answer of a step that stopped with a panic. -/
def panicked (text : String) : Message :=
  .record [("panic", .text text)]

/-- The answer that hands out a value. -/
def ok (value : Message) : Message :=
  .record [("ok", value)]

/-- The answer of a step that was done. -/
def done : Message :=
  .text "ok"

end Message

/-- Why a session refuses a request. A refused request changes nothing unless
its description says otherwise. -/
inductive Refusal where
  /-- A part of the request is missing or cannot be read; it is named. -/
  | badInput (part : String)
  /-- What the request names is not there. -/
  | empty (what : String)
  /-- What the request names cannot do that. -/
  | unsupported (what : String)
  /-- What the request names is in use. -/
  | busy (what : String)
  /-- The thread waits and can do nothing else. -/
  | blocked
  deriving DecidableEq

namespace Refusal

/-- What the request named is of the wrong kind. -/
def kind : Refusal :=
  .unsupported "kind"

/-- The answer that a refusal gives. -/
def answer : Refusal → Message
  | .badInput part => .failure "BadInput" part
  | .empty what => .failure "Empty" what
  | .unsupported what => .failure "Unsupported" what
  | .busy what => .failure "Busy" what
  | .blocked => .failure "Blocked" "thread waits"

end Refusal

end Custody
