/-
# Requesters, handles and the cells they share

A requester owns a cell and can ask for handles. A handle that is locked has a guard: it
owns the cell too, holds its lock and reaches its value by the guard of its kind; a handle
that was released, or from which the access was taken, has none. A request that was not let in at once
first notes that it must wait, then asks again and, if it is still not let in,
waits its turn; it owns the cell all the while, and its thread does nothing else.
When the last owner is gone, the cell's value is destroyed.

A world is all this, with any number of cells and threads.

Key definitions: `World`, `World.at?`, `World.read?`, `World.identity`, `World.identityOf`,
`World.admits`, `World.letIn`, `World.surrender`.
-/
import Custody.Address
import Custody.Identity
import Custody.Shared.Flavour
import Custody.Table
import Custody.Text.Shown

namespace Custody.Shared

/-- Threads are numbered. -/
abbrev ThreadId := Nat

/-- A shared cell. -/
structure Cell (α : Type) where
  /-- What it contains: its value, until that is destroyed. -/
  contents : Contents (Option α)
  address : Nat
  /-- How its lock is held, if it has one. -/
  hold : Hold
  /-- How many requesters, locked handles and requests own it. -/
  owners : Nat

namespace Cell

variable {α : Type}

/-- A new cell and its first owner. -/
def new (f : Flavour) (v : α) (address : Nat) : Cell α :=
  ⟨f.contents (some v), address, .free, 1⟩

def flavour (cell : Cell α) : Flavour :=
  cell.contents.flavour

/-- The value of the cell, until it is destroyed. -/
def value (cell : Cell α) : Option α :=
  cell.contents.value

/-- The cell with that for its value, or without a value. -/
def fill (v : Option α) (cell : Cell α) : Cell α :=
  { cell with contents := cell.contents.map fun _ => v }

/-! Whatever else changes, what a cell contains decides its flavour and its value. -/

@[simp] theorem value_mk (cell : Cell α) (address : Nat) (hold : Hold) (owners : Nat) :
    (⟨cell.contents, address, hold, owners⟩ : Cell α).value = cell.value := rfl

@[simp] theorem flavour_new (f : Flavour) (v : α) (address : Nat) :
    (new f v address).flavour = f :=
  Contents.flavour_new _ _

@[simp] theorem value_new (f : Flavour) (v : α) (address : Nat) :
    (new f v address).value = some v :=
  Contents.value_new _ _

@[simp] theorem address_new (f : Flavour) (v : α) (address : Nat) :
    (new f v address).address = address := rfl

@[simp] theorem hold_new (f : Flavour) (v : α) (address : Nat) :
    (new f v address).hold = .free := rfl

@[simp] theorem owners_new (f : Flavour) (v : α) (address : Nat) :
    (new f v address).owners = 1 := rfl

@[simp] theorem flavour_fill (v : Option α) (cell : Cell α) : (cell.fill v).flavour = cell.flavour :=
  Contents.flavour_map _ _

@[simp] theorem value_fill (v : Option α) (cell : Cell α) : (cell.fill v).value = v :=
  Contents.value_map _ _

end Cell

/-- What a thread calls a handle: a name of its own, or nothing, if it uses the
handle at once and drops it. -/
inductive HandleName where
  | named (s : String)
  | passing
  deriving DecidableEq

/-- A handle, and the cell that it gives access to while it is locked. -/
structure Handle where
  kind : HandleKind
  grant : Option CellId
  deriving DecidableEq

/-- The guard of the handle while it is locked. -/
def Handle.guard? (h : Handle) : Option Guard :=
  h.grant.map h.kind.guard

/-- Whether the handle is locked. -/
def Handle.isValid (h : Handle) : Bool :=
  h.grant.isSome

/-- The handle after its access was given up or taken out of it. -/
def Handle.released (h : Handle) : Handle :=
  { h with grant := none }

/-- How far a request that was not let in at once has got. -/
inductive Phase where
  /-- It was refused and noted that it must wait. -/
  | refused
  /-- It waits its turn. -/
  | waiting
  deriving DecidableEq

/-- A request for a handle that is not granted yet. -/
structure Request where
  thread : ThreadId
  name : HandleName
  cell : CellId
  kind : HandleKind
  phase : Phase
  deriving DecidableEq

/-- Something that happened. -/
inductive Event (α : Type) where
  | created (c : CellId) (f : Flavour)
  /-- A request was not let in at once. -/
  | contended (t : ThreadId) (c : CellId) (k : HandleKind)
  | granted (t : ThreadId) (c : CellId) (k : HandleKind)
  /-- The value of a cell was destroyed. -/
  | destroyed (c : CellId) (value : α)

/-- Cells, and all that refers to them. -/
structure World (α : Type) where
  cells : List (Cell α)
  requesters : Table String CellId
  handles : Table (ThreadId × HandleName) Handle
  /-- The requests that are not granted yet, oldest first. -/
  requests : List Request
  /-- What happened, newest first. -/
  log : List (Event α)

namespace World

variable {α : Type}

/-- A world without cells. -/
def empty : World α := ⟨[], [], [], [], []⟩

/-- The world with one event more. -/
def note (e : Event α) (w : World α) : World α :=
  { w with log := e :: w.log }

/-- The world with one cell changed. -/
def modifyCell (c : CellId) (f : Cell α → Cell α) (w : World α) : World α :=
  { w with cells := w.cells.modify c f }

/-! ### Looking -/

/-- The flavour of a cell. -/
def flavour? (w : World α) (c : CellId) : Option Flavour :=
  w.cells[c]?.map (·.flavour)

/-- The value of a cell that is not destroyed. -/
def value? (w : World α) (c : CellId) : Option α :=
  w.cells[c]?.bind (·.value)

/-- The value at a place, if there is one. -/
def at? (w : World α) (p : Place) : Option α :=
  w.cells[p.cell]?.bind fun cell => (cell.contents.get? p.way).join

/-- The world with another value at a place. -/
def putAt (p : Place) (v : α) (w : World α) : World α :=
  w.modifyCell p.cell fun cell => { cell with contents := cell.contents.put (some v) p.way }

/-- What a handle reads; nothing if it is released. -/
def read? (w : World α) (h : Handle) : Option α :=
  h.guard?.bind fun g => w.at? g.target

/-- What a handle shows of itself, where `draw` says what its value does. -/
def shown (draw : α → Shown) (w : World α) (h : Handle) : Shown :=
  match w.read? h with
  | some a => .tuple h.kind.name [draw a]
  | none => .atom (h.kind.name ++ "(<released>)")

/-- The identity of a cell, or of what refers to none. -/
def identity (w : World α) (c : Option CellId) : Identity :=
  match c.bind (w.cells[·]?) with
  | some cell => ⟨cell.address⟩
  | none => ⟨0⟩

/-- The identity of a handle: that of the cell which its guard knows. -/
def identityOf (w : World α) (h : Handle) : Identity :=
  w.identity (h.guard?.map Guard.cell)

/-- Whether the thread has a request that is not granted yet. -/
def isBlocked (w : World α) (t : ThreadId) : Bool :=
  w.requests.any (·.thread = t)

/-- The demands of those that wait for the lock of the cell. -/
def waiting (w : World α) (c : CellId) : List Demand :=
  (w.requests.filter fun r => r.cell = c && r.phase = .waiting).filterMap (·.kind.demand?)

/-- Whether a handle of that kind on that cell may be had now. -/
def admits (P : Policy) (w : World α) (c : CellId) (k : HandleKind) : Bool :=
  match k.demand? with
  | none => true
  | some d =>
    match w.cells[c]? with
    | none => false
    | some cell => P.admits cell.hold (w.waiting c) d

/-! ### Owning -/

/-- One owner more of a cell. -/
def own (c : CellId) (w : World α) : World α :=
  w.modifyCell c fun cell => { cell with owners := cell.owners + 1 }

/-- One owner less; with the last one the value is destroyed. -/
def disown (c : CellId) (w : World α) : World α :=
  match w.cells[c]? with
  | none => w
  | some cell =>
    let w := w.modifyCell c fun cell => { cell with owners := cell.owners - 1 }
    match cell.owners, cell.value with
    | 1, some v => (w.modifyCell c (Cell.fill none)).note (.destroyed c v)
    | _, _ => w

/-- One owner less of the cell, if there is one. -/
def disown? (c : Option CellId) (w : World α) : World α :=
  match c with
  | none => w
  | some c => w.disown c

/-- Drops the guard of a handle: gives up its part of the lock, then the cell. -/
def surrender (h : Handle) (w : World α) : World α :=
  match h.guard? with
  | none => w
  | some g =>
    match g.demand? with
    | none => w.disown g.cell
    | some d =>
      (w.modifyCell g.cell fun cell => { cell with hold := cell.hold.leave d }).disown g.cell

/-- Gives up what the handle holds, if there is one. -/
def surrender? (h : Option Handle) (w : World α) : World α :=
  match h with
  | none => w
  | some h => w.surrender h

/-- Stores a handle; the one that had its name is dropped after that. -/
def keep (key : ThreadId × HandleName) (h : Handle) (w : World α) : World α :=
  { w with handles := w.handles.put key h }.surrender? (w.handles.get? key)

/-- Locks a cell and stores the handle. The request, that owned the cell so far,
leaves this to the handle. -/
def letIn (t : ThreadId) (name : HandleName) (c : CellId) (k : HandleKind) (w : World α) :
    World α :=
  let w :=
    match k.demand? with
    | none => w
    | some d => w.modifyCell c fun cell => { cell with hold := cell.hold.enter d }
  (w.note (.granted t c k)).keep (t, name) ⟨k, some c⟩

/-- The addresses that new cells cannot have. -/
def taken (w : World α) : List Nat :=
  (w.cells.filter (·.value.isSome)).map (·.address)

end World

end Custody.Shared
