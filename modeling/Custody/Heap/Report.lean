/-
# What is reported of a heap

A session reports what kind of pointer is in each of its variables, and whether it
is the only owner of its target; what destructors recorded; and, if asked, what a
pointer shows of itself.

Key definitions: `Session.words`, `Session.story`, `Session.gaveUp`, `Session.shown`.
-/
import Custody.Heap.Node
import Custody.Heap.Place

namespace Custody.Heap.Session

/-- The heap of a session. -/
abbrev State := Heap Datum

/-- The pointer in a variable. -/
def pointer? (h : State) (i : Nat) : Option Pointer :=
  h.pointer? (.var i)

/-- Whether there is a nullable pointer in the variable. -/
def isNullable (h : State) (i : Nat) : Bool :=
  (pointer? h i).map Pointer.kind = some .nullable

/-- The short name of a kind of pointers. -/
def kindName : Kind → String
  | .nullable => "RefCountedPtr"
  | .notNull => "RefCountedNotNullPtr"
  | .fixed => "RefCountedFixedPtr"

/-- What a pointer shows of itself: what its target holds, and of a node, its
successor, for as many successors as there are cells. -/
def shown (h : State) : Nat → Kind → Option Owner → Shown
  | depth + 1, k, some o =>
    match h.live? o.cell with
    | some v =>
      .tuple (kindName k)
        [v.data.shown [("next", shown h depth .nullable (v.get? Node.next).join)]]
    | none => .atom (kindName k ++ "(null)")
  | _, k, _ => .atom (kindName k ++ "(null)")

/-- The word for what is in a variable. -/
def word (h : State) : Option Pointer → String
  | none => "-"
  | some (.nullable none) => "P0"
  | some q =>
    let letter :=
      match q.kind with
      | .nullable => "P"
      | .notNull => "N"
      | .fixed => "F"
    letter ++ (if h.isUnique q.owner? then "u" else "s")

/-- The words for what is in the variables. -/
def words (h : State) : String :=
  " ".intercalate ((List.range (Node.lastVar + 1)).map fun i => word h (pointer? h i))

/-- What is told of an event. -/
def told? : Event Datum → Option String
  | .destroyed _ (.node id _) => some ("drop " ++ id)
  | .reported _ _ text => some text
  | _ => none

/-- Whether a destructor gave up since the log was emptied. -/
def gaveUp (h : State) : Bool :=
  h.log.any fun e =>
    match e with
    | .gaveUp _ => true
    | _ => false

/-- What is told of the events since the log was emptied. -/
def story (h : State) : Message :=
  .texts (h.log.reverse.filterMap told?)

end Custody.Heap.Session
