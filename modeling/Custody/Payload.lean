/-
# What cells hold in a session

A session keeps values of one shape: integers of 64 bits, texts, lists of
integers, integers that a reader may overwrite, values whose destruction is
tracked, or nodes that hold pointers. This module says how such a value is read
from a request, answered, shown, replaced and added to. Sums wrap around.

Key definitions: `Shape`, `Datum`, `Shape.read?`, `Datum.set?`, `Datum.add?`.
-/
import Custody.Message
import Custody.Text.Shown

namespace Custody

/-- The shapes of the values of a session. -/
inductive Shape where
  | int
  | text
  | ints
  /-- An integer that may be overwritten by whoever may read it. -/
  | cell
  /-- A value whose destruction is recorded. -/
  | tracked
  /-- A value that holds pointers. -/
  | node
  deriving DecidableEq

/-- A value; of a node, what is not a pointer. -/
inductive Datum where
  | int (i : Int64)
  | text (s : String)
  | ints (items : List Int64)
  | cell (i : Int64)
  | tracked (id : String) (n : Int64)
  | node (id : String) (n : Int64)
  deriving DecidableEq

/-- The integer that the message says, if it has 64 bits. -/
def Message.int64? (m : Message) : Option Int64 :=
  m.int?.bind fun n =>
    if -9223372036854775808 ≤ n ∧ n ≤ 9223372036854775807 then some (Int64.ofInt n) else none

namespace Shape

/-- The name of the type of a value. -/
def typeName : Shape → String
  | .int => "i64"
  | .text => "alloc::string::String"
  | .ints => "alloc::vec::Vec<i64>"
  | .cell => "core::cell::Cell<i64>"
  | .tracked => "oracle_driver::shared::Tracked"
  | .node => "oracle_driver::refc::Node"

/-- A new value of the shape. -/
def read? (shape : Shape) (m : Message) : Option Datum :=
  match shape with
  | .int => m.int64?.map .int
  | .text => m.text?.map .text
  | .ints => m.list?.bind fun items => (items.mapM Message.int64?).map .ints
  | .cell => m.int64?.map .cell
  | .tracked => m.text?.map (.tracked · 0)
  | .node => (m.textAt? "id").map (.node · (((m.get? "val").bind Message.int64?).getD 0))

end Shape

namespace Datum

/-- The value as an answer gives it. -/
def answer : Datum → Message
  | .int i => .int i.toInt
  | .text s => .text s
  | .ints items => .list (items.map fun i => .int i.toInt)
  | .cell i => .int i.toInt
  | .tracked id n => .list [.text id, .int n.toInt]
  | .node id n => .list [.text id, .int n.toInt]

/-- What the value shows of itself; a node shows the pointers `pointers` too. -/
def shown (d : Datum) (pointers : List (String × Shown)) : Shown :=
  match d with
  | .int i => .int i
  | .text s => .text s
  | .ints items => .list (items.map .int)
  | .cell i => .record "Cell" [("value", .int i)]
  | .tracked id n => .record "Tracked" [("id", .text id), ("n", .int n)]
  | .node id n => .record "Node" ([("id", .text id), ("val", .int n)] ++ pointers)

/-- The value after it was replaced; of a node, only its number is. -/
def set? (d : Datum) (m : Message) : Option Datum :=
  match d with
  | .int _ => Shape.int.read? m
  | .text _ => Shape.text.read? m
  | .ints _ => Shape.ints.read? m
  | .cell _ => Shape.cell.read? m
  | .tracked _ _ => Shape.tracked.read? m
  | .node id _ => m.int64?.map (.node id)

/-- The value after something was added: to a number, a number; to a text, a text
at its end; to a list, a number at its end. -/
def add? (d : Datum) (m : Message) : Option Datum :=
  match d with
  | .int i => m.int64?.map fun k => .int (i + k)
  | .text s => m.text?.map fun t => .text (s ++ t)
  | .ints items => m.int64?.map fun k => .ints (items ++ [k])
  | .cell i => m.int64?.map fun k => .cell (i + k)
  | .tracked id n => m.int64?.map fun k => .tracked id (n + k)
  | .node id n => m.int64?.map fun k => .node id (n + k)

end Datum

end Custody
