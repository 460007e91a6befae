/-
# Heaps of counted cells

A cell has an address, a count of its owners and a value. The value has pointers
in its fields and links, and a destructor. When the last owner signs off, the
value is dying: its destructor runs, then its fields and links are dropped in
order, and then the cell is freed, and its address may be used again. The heap
also has the caller's variables, with what is borrowed of them, and a log of all
that happened, newest first.

Key definitions: `Heap`, `Heap.acquire`, `Heap.signOff`, `Heap.allocate`,
`Heap.identity`.
-/
import Custody.Address
import Custody.Heap.Act
import Custody.Identity

namespace Custody.Heap

/-- A value: what it holds, its destructor, and its pointers. -/
structure Value (α : Type) where
  data : α
  script : List (Act α)
  fields : List (Option Owner)
  links : List (Option Owner)

namespace Value

variable {α : Type}

/-- The pointer that a hop leads to, if the value has such a field or link. -/
def get? (v : Value α) : Hop → Option (Option Owner)
  | .field k => v.fields[k]?
  | .link k => v.links[k]?

/-- The value with another pointer there. -/
def set (v : Value α) (hop : Hop) (o : Option Owner) : Value α :=
  match hop with
  | .field k => { v with fields := v.fields.set k o }
  | .link k => { v with links := v.links.set k o }

/-- All its pointers, in the order in which they are dropped. -/
def pointers (v : Value α) : List (Option Owner) :=
  v.fields ++ v.links

/-- A bound on the steps of its destruction, besides those of the destructions
that it sets off. -/
def weight (v : Value α) : Nat :=
  2 + Act.scriptWeight v.script + 2 * v.pointers.length

end Value

/-- What has become of a cell's value. -/
inductive Content (α : Type) where
  | live (v : Value α)
  /-- Its destruction has begun; of its pointers, those not yet dropped are left. -/
  | dying (v : Value α)
  | freed

namespace Content

variable {α : Type}

/-- The value, unless it is freed. -/
def value? : Content α → Option (Value α)
  | .live v => some v
  | .dying v => some v
  | .freed => none

/-- The content with its value changed. -/
def modify (f : Value α → Value α) : Content α → Content α
  | .live v => .live (f v)
  | .dying v => .dying (f v)
  | .freed => .freed

/-- The pointers that it still has. -/
def pointers : Content α → List (Option Owner)
  | .live v => v.pointers
  | .dying v => v.pointers
  | .freed => []

/-- A bound on the steps that its destruction may still take. -/
def weight : Content α → Nat
  | .live v => v.weight
  | .dying v => 2 * v.pointers.length
  | .freed => 0

end Content

/-- An allocation: where it is, how many owners it has, and what it holds. -/
structure Cell (α : Type) where
  address : Nat
  count : Count
  content : Content α

/-- Whether the cell still takes up its address. -/
def Cell.occupies {α : Type} (c : Cell α) : Bool :=
  match c.content with
  | .freed => false
  | _ => true

/-- A variable of the caller: the pointer in it, and what is borrowed of it. -/
structure Variable where
  pointer : Option Pointer
  /-- How many operations that go on have borrowed it to read. -/
  readers : Nat
  /-- Whether an operation that goes on has borrowed it to change it. -/
  writer : Bool
  deriving DecidableEq

/-- A variable that holds nothing. -/
def Variable.fresh : Variable := ⟨none, 0, false⟩

/-- What can go wrong in a heap, but never does. -/
inductive Fault where
  /-- An owner signed off from a count of zero. -/
  | underflow
  /-- The last owner signed off from a cell whose value is not there. -/
  | missing
  deriving DecidableEq

/-- Something that happened. -/
inductive Event (α : Type) where
  /-- A count issued a token. -/
  | issued (t : Token CellId)
  /-- A token was handed to the count of that cell. -/
  | returned (c : CellId) (t : Token CellId)
  /-- The destruction of a value began. -/
  | destroyed (c : CellId) (data : α)
  /-- A destructor recorded an answer. -/
  | reported (c : CellId) (a : Answer α) (text : String)
  /-- A destructor gave up. -/
  | gaveUp (c : CellId)
  /-- The destruction of a value ended. -/
  | freed (c : CellId)
  | fault (c : CellId) (f : Fault)

end Heap

/-- Counted cells and the caller's variables. -/
structure Heap (α : Type) where
  cells : List (Heap.Cell α)
  vars : List Heap.Variable
  /-- How many tokens were issued so far. -/
  issued : Nat
  /-- What happened, newest first. -/
  log : List (Heap.Event α)

namespace Heap

variable {α : Type}

/-- A heap without cells, and that many variables. -/
def empty (vars : Nat) : Heap α :=
  ⟨[], List.replicate vars .fresh, 0, []⟩

/-- The heap with one event more. -/
def note (e : Event α) (h : Heap α) : Heap α :=
  { h with log := e :: h.log }

/-- The heap with one cell changed. -/
def modifyCell (c : CellId) (f : Cell α → Cell α) (h : Heap α) : Heap α :=
  { h with cells := h.cells.modify c f }

/-- The heap with another value in a live cell. -/
def setLive (c : CellId) (v : Value α) (h : Heap α) : Heap α :=
  h.modifyCell c fun cell => { cell with content := .live v }

/-- The heap with one variable changed. -/
def modifyVar (i : Nat) (f : Variable → Variable) (h : Heap α) : Heap α :=
  { h with vars := h.vars.modify i f }

/-! ### Owners -/

/-- The value of a live cell. -/
def live? (h : Heap α) (c : CellId) : Option (Value α) :=
  match h.cells[c]? with
  | some ⟨_, _, .live v⟩ => some v
  | _ => none

/-- The count of a cell. -/
def count (h : Heap α) (c : CellId) : Count :=
  match h.cells[c]? with
  | some cell => cell.count
  | none => ⟨0⟩

/-- Whether a pointer shares its target with no other; one without target does not. -/
def isUnique (h : Heap α) (o : Option Owner) : Bool :=
  match o with
  | none => true
  | some o => (h.count o.cell).isUnique

/-- The identity of a pointer: the address of its target. -/
def identity (h : Heap α) (o : Option Owner) : Identity :=
  match o.bind fun o => h.cells[o.cell]? with
  | some cell => ⟨cell.address⟩
  | none => ⟨0⟩

/-- Registers one owner more of a cell. -/
def acquire (c : CellId) (h : Heap α) : Owner × Heap α :=
  let t : Token CellId := ⟨c, h.issued⟩
  (⟨c, t⟩,
    { h.modifyCell c fun cell => { cell with count := cell.count.acquire } with
      issued := h.issued + 1, log := .issued t :: h.log })

/-- A copy of a pointer: one more owner of its target, if it has one. -/
def duplicate (q : Pointer) (h : Heap α) : Pointer × Heap α :=
  match q.owner? with
  | none => (q, h)
  | some o =>
    let (o, h) := h.acquire o.cell
    (q.kind.pointer o, h)

/-- An owner hands its token to its cell's count. The flag says whether it was the
last one. -/
def signOff (o : Owner) (h : Heap α) : Bool × Heap α :=
  let h := h.note (.returned o.cell o.token)
  match (h.count o.cell).release? with
  | none => (false, h.note (.fault o.cell .underflow))
  | some (n, last) => (last, h.modifyCell o.cell fun cell => { cell with count := n })

/-- The addresses that new cells cannot have. -/
def taken (h : Heap α) : List Nat :=
  (h.cells.filter Cell.occupies).map (·.address)

/-- A new cell with that value, and its first owner. -/
def allocate (near : Nat) (v : Value α) (h : Heap α) : Owner × Heap α :=
  let c := h.cells.length
  let t : Token CellId := ⟨c, h.issued⟩
  (⟨c, t⟩,
    { h with
      cells := h.cells ++ [⟨freeAddress h.taken near, .first, .live v⟩]
      issued := h.issued + 1
      log := .issued t :: h.log })

end Heap

end Custody
