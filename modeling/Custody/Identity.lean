/-
# Identity

Pointers, requesters and handles are compared by which cell they refer to, never
by what the cell holds: two are the same if the addresses are. What refers to
nothing has the address 0, which no cell has, and so comes before all that refers
to a cell. Equality, order and what goes into a hash agree, so a set that keeps
its members in order and one that hashes them keep the same number.

Key definitions: `Identity`, `Identity.compare`, `Identity.comparison`,
`Identity.orderedSize`, `Identity.hashedSize`.
-/
import Custody.Message

namespace Custody

/-- Which cell something refers to: its address, 0 for none. -/
structure Identity where
  address : Nat
  deriving DecidableEq

namespace Identity

/-- Whether it is the identity of what refers to nothing. -/
def isNull (a : Identity) : Bool :=
  a.address = 0

/-- The order of identities. -/
def compare (a b : Identity) : Ordering :=
  Ord.compare a.address b.address

/-- What goes into a hash. -/
def feed (a : Identity) : List Nat :=
  [a.address]

/-- What is said of the order of two identities: which comes first is said only if
one of them refers to nothing, as addresses are not told. -/
def orderText (a b : Identity) (o : Ordering) : String :=
  match o with
  | .eq => "Equal"
  | .lt => if a.isNull then "Less" else "Different"
  | .gt => if b.isNull then "Greater" else "Different"

/-- What is said of what goes into a hash. -/
def feedText (a : Identity) : Message :=
  .texts (a.feed.map fun n => if n = 0 then "usize:null" else "usize:cell")

/-- All that is said of two identities. -/
def comparison (a b : Identity) : Message :=
  let order := orderText a b (compare a b)
  .record [("eq", .bool (a = b)), ("ne", .bool (a ≠ b)), ("ptr_eq", .bool (a = b)),
    ("cmp", .text order), ("partial_cmp", .text order),
    ("antisymmetric", .bool (compare b a == (compare a b).swap)),
    ("lt_consistent", .bool ((compare a b == .lt) = (a.address < b.address) &&
      ((compare a b != .lt) = (b.address ≤ a.address)))),
    ("hash", .list [a.feedText, b.feedText]), ("hash_eq", .bool (a.feed = b.feed))]

/-- A list in order with one member more, unless it is there already. -/
def insertOrdered (a : Identity) : List Identity → List Identity
  | [] => [a]
  | b :: rest =>
    match compare a b with
    | .lt => a :: b :: rest
    | .eq => b :: rest
    | .gt => b :: insertOrdered a rest

/-- How many members a set has that keeps them in order. -/
def orderedSize (items : List Identity) : Nat :=
  (items.foldr insertOrdered []).length

/-- A list with one member more, unless one that feeds the same to a hash equals it. -/
def insertHashed (a : Identity) (items : List Identity) : List Identity :=
  if (items.filter fun b => b.feed = a.feed).any (· = a) then items else a :: items

/-- How many members a set has that hashes them. -/
def hashedSize (items : List Identity) : Nat :=
  (items.foldr insertHashed []).length

/-- What is said of a collection: its size, and that of the two sets of its members. -/
def distinct (items : List Identity) : Message :=
  .record [("of", .nat items.length), ("btree", .nat (orderedSize items)),
    ("hash", .nat (hashedSize items))]

end Identity

end Custody
