/-
# Pointers without counts

A register says what a caller sees of pointers to plain values, those that have no
pointers and no destructor: of each variable the kind of pointer in it and its target,
and of each cell its value. Nothing is counted. Whether a target is shared is seen by
looking at all variables, and so is whether a cell lost the last one.

A heap serves the same calls by its counts.

Key definitions: `Call`, `Arrow`, `Register`, `Register.step`, `Register.transcript`,
`Heap.serve`, `Heap.transcript`.
-/
import Custody.Heap.Cascade

namespace Custody.Heap

/-! ### Calls -/

/-- What a caller looks for at a pointer. -/
inductive Look where
  /-- The value of the target, if there is one. -/
  | get
  /-- The value, or an error that says that there is none. -/
  | tryGet
  /-- The value; without one, the caller panics. -/
  | deref
  | isNull
  | isUnique

/-- What a caller can do with pointers in variables. -/
inductive Call (α : Type) where
  /-- Makes a new cell and puts a pointer of that kind to it into `i`. -/
  | make (i : Nat) (kind : Kind) (data : α) (near : Nat)
  /-- Puts a pointer without target into `i`. -/
  | null (i : Nat)
  | clone (src dst : Nat)
  | move (src dst : Nat)
  | drop (i : Nat)
  /-- Gives the pointer in `dst` the target of the one in `src`. -/
  | assign (dst src : Nat)
  /-- Makes the pointer in `i` lose its target. -/
  | clear (i : Nat)
  /-- Takes the pointer out of `src` and puts it into `dst` as one of that kind. -/
  | convert (src dst : Nat) (kind : Kind)
  /-- Looks at the pointer in `i`. -/
  | look (i : Nat) (l : Look)
  /-- Changes the value of the target, if that can be had to change it. -/
  | update (i : Nat) (f : α → α)
  /-- Whether two pointers have the same target. -/
  | same (i j : Nat)
  /-- All that is said of two pointers of one kind when they are compared. -/
  | compare (i j : Nat)

/-- What is answered. -/
inductive Reply (α : Type) where
  | answer (a : Answer α)
  | compared (m : Message)
  | perhaps (a : Option α)
  /-- The error that says that the pointer has no target. -/
  | nullError
  | panicked

/-! ### Registers -/

/-- A pointer as the caller sees it: its kind, and the cell that it targets. -/
inductive Arrow where
  | nullable (target : Option CellId)
  | notNull (target : CellId)
  | fixed (target : CellId)
  deriving DecidableEq

namespace Arrow

/-- The kind of the pointer. -/
def kind : Arrow → Kind
  | .nullable _ => .nullable
  | .notNull _ => .notNull
  | .fixed _ => .fixed

/-- The cell that it targets, if there is one. -/
def target? : Arrow → Option CellId
  | .nullable c => c
  | .notNull c => some c
  | .fixed c => some c

/-- The pointer as one of another kind. -/
def convert {α : Type} (q : Arrow) (k : Kind) : Except (Answer α) Arrow :=
  match q, k with
  | .nullable none, .notNull => .error .null
  | .nullable none, .fixed => .error .null
  | .nullable (some c), .notNull => .ok (.notNull c)
  | .nullable (some c), .fixed => .ok (.fixed c)
  | .notNull c, .nullable => .ok (.nullable (some c))
  | .fixed c, .nullable => .ok (.nullable (some c))
  | .fixed c, .notNull => .ok (.notNull c)
  | _, _ => .error .refused

end Arrow

/-- A pointer of that kind to that cell. -/
def Kind.arrow (k : Kind) (c : CellId) : Arrow :=
  match k with
  | .nullable => .nullable (some c)
  | .notNull => .notNull c
  | .fixed => .fixed c

end Heap

/-- What is in each variable, and the value of each cell until it is destroyed. -/
structure Register (α : Type) where
  slots : List (Option Heap.Arrow)
  values : List (Option α)

namespace Register

open Heap

variable {α : Type}

/-- A register without cells, and that many variables. -/
def empty (n : Nat) : Register α :=
  ⟨List.replicate n none, []⟩

/-- The cell that the pointer in a variable targets. -/
def target? (r : Register α) (i : Nat) : Option CellId :=
  r.slots[i]?.join.bind Arrow.target?

/-- Whether any variable targets the cell. -/
def targeted (r : Register α) (c : CellId) : Bool :=
  (List.range r.slots.length).any fun i => r.target? i = some c

/-- Whether another variable than `i` targets the cell. -/
def shared (r : Register α) (i : Nat) (c : CellId) : Bool :=
  (List.range r.slots.length).any fun j => j ≠ i ∧ r.target? j = some c

/-- The register with something else in a variable. -/
def set (i : Nat) (x : Option Arrow) (r : Register α) : Register α :=
  { r with slots := r.slots.set i x }

/-- The register after a variable lost that target, and what was destroyed: the value of
the cell, if no variable targets it any more. -/
def lose (c : Option CellId) (r : Register α) : Register α × List (CellId × α) :=
  match c with
  | none => (r, [])
  | some c =>
    if r.targeted c then (r, [])
    else ({ r with values := r.values.set c none }, r.values[c]?.join.toList.map (c, ·))

/-- Puts something into a variable, that loses the target it had. -/
def put (i : Nat) (x : Option Arrow) (r : Register α) : Register α × List (CellId × α) :=
  (r.set i x).lose (r.target? i)

/-- The pointer in a variable, if it is there. -/
def find (r : Register α) (i : Nat) : Except (Answer α) Arrow :=
  match r.slots[i]? with
  | none => .error .absent
  | some none => .error .vacant
  | some (some q) => .ok q

/-- A register after a call, and the answer. -/
structure Outcome (α : Type) where
  register : Register α
  reply : Reply α
  /-- The values that were destroyed, and their cells. -/
  destroyed : List (CellId × α)

/-- The outcome of a call that changes nothing. -/
def say (r : Register α) (a : Answer α) : Outcome α :=
  ⟨r, .answer a, []⟩

/-- The outcome of a call that is done, and destroyed those values. -/
def done (o : Register α × List (CellId × α)) : Outcome α :=
  ⟨o.1, .answer .done, o.2⟩

/-! ### What comes of each call -/

/-- Puts something into a variable, if it is there. -/
def store (i : Nat) (x : Option Arrow) (r : Register α) : Outcome α :=
  if i < r.slots.length then done (r.put i x) else r.say .absent

/-- A new cell with that value, and a pointer to it in `i`. -/
def make (i : Nat) (kind : Kind) (a : α) (r : Register α) : Outcome α :=
  if i < r.slots.length then
    done ({ r with values := r.values ++ [some a] }.put i (some (kind.arrow r.values.length)))
  else r.say .absent

def clone (src dst : Nat) (r : Register α) : Outcome α :=
  match r.find src with
  | .error e => r.say e
  | .ok q => r.store dst (some q)

def move (src dst : Nat) (r : Register α) : Outcome α :=
  if src < r.slots.length then
    if dst < r.slots.length then done ((r.set src none).put dst r.slots[src]?.join)
    else r.say .absent
  else r.say .absent

/-- Gives `dst` the target of `src`. -/
def assign (dst src : Nat) (r : Register α) : Outcome α :=
  match r.slots[dst]?.join, r.slots[src]?.join with
  | some (.nullable _), some (.nullable c) => done (r.put dst (some (.nullable c)))
  | some (.notNull _), some (.notNull c) => done (r.put dst (some (.notNull c)))
  | _, _ => r.say .refused

def clear (i : Nat) (r : Register α) : Outcome α :=
  match r.find i with
  | .error e => r.say e
  | .ok (.nullable _) => done (r.put i (some (.nullable none)))
  | .ok _ => r.say .refused

/-- Takes the pointer out of `src` and puts it into `dst` as one of another kind. One
without target is taken out also if the kind must have one. -/
def convert (src dst : Nat) (kind : Kind) (r : Register α) : Outcome α :=
  if src < r.slots.length then
    if dst < r.slots.length then
      match r.find src with
      | .error e => r.say e
      | .ok q =>
        match q.convert kind with
        | .error .null => (r.set src none).say .null
        | .error e => r.say e
        | .ok q => done ((r.set src none).put dst (some q))
    else r.say .absent
  else r.say .absent

/-- The value of the target. -/
def value? (r : Register α) (q : Arrow) : Option α :=
  q.target?.bind fun c => r.values[c]?.join

/-- Whether no other variable has the target; so it is of a pointer without one. -/
def alone (r : Register α) (i : Nat) (q : Arrow) : Bool :=
  match q.target? with
  | none => true
  | some c => !r.shared i c

/-- The answer that gives the value of a cell. -/
def give (r : Register α) (c : CellId) : Reply α :=
  match r.values[c]?.join with
  | some a => .answer (.value a)
  | none => .answer .dangling

/-- What is seen of the pointer in `i`. Only a nullable one can be asked whether it has a
target, and for the value if it has one. -/
def seen (r : Register α) (i : Nat) : Look → Arrow → Reply α
  | .get, .nullable none => .perhaps none
  | .get, .nullable (some c) => .perhaps r.values[c]?.join
  | .tryGet, .nullable none => .nullError
  | .tryGet, .nullable (some c) => r.give c
  | .deref, .nullable none => .panicked
  | .deref, .nullable (some c) => r.give c
  | .deref, .notNull c => r.give c
  | .deref, .fixed c => r.give c
  | .isNull, .nullable c => .answer (.flag c.isNone)
  | .isUnique, q => .answer (.unique (r.alone i q))
  | _, _ => .answer .refused

def look (i : Nat) (l : Look) (r : Register α) : Outcome α :=
  match r.find i with
  | .error e => r.say e
  | .ok q => ⟨r, r.seen i l q, []⟩

/-- Changes the value of the target, if no other variable has that target. -/
def update (i : Nat) (f : α → α) (r : Register α) : Outcome α :=
  match r.find i with
  | .error e => r.say e
  | .ok q =>
    match q.target? with
    | none => r.say .denied
    | some c =>
      if r.shared i c then r.say .denied
      else
        match r.values[c]?.join with
        | none => r.say .dangling
        | some a => { r with values := r.values.set c (some (f a)) }.say (.value (f a))

def same (i j : Nat) (r : Register α) : Outcome α :=
  match r.find i, r.find j with
  | .error e, _ => r.say e
  | .ok _, .error e => r.say e
  | .ok q, .ok q' => r.say (.flag (q.target? = q'.target?))

/-- All that is said of two pointers with those targets. No target comes before all others;
which of two others comes first is not told. -/
def comparison (c c' : Option CellId) : Message :=
  let order :=
    if c = c' then "Equal" else if c.isNone then "Less" else if c'.isNone then "Greater"
    else "Different"
  let fed (c : Option CellId) : Message := .texts [if c.isNone then "usize:null" else "usize:cell"]
  .record [("eq", .bool (c = c')), ("ne", .bool (c ≠ c')), ("ptr_eq", .bool (c = c')),
    ("cmp", .text order), ("partial_cmp", .text order), ("antisymmetric", .bool true),
    ("lt_consistent", .bool true), ("hash", .list [fed c, fed c']), ("hash_eq", .bool (c = c'))]

def compare (i j : Nat) (r : Register α) : Outcome α :=
  match r.slots[i]?.join, r.slots[j]?.join with
  | some q, some q' =>
    if q.kind = q'.kind then ⟨r, .compared (comparison q.target? q'.target?), []⟩
    else r.say .refused
  | _, _ => r.say .vacant

/-- What comes of a call. -/
def step (r : Register α) : Call α → Outcome α
  | .make i kind a _ => r.make i kind a
  | .null i => r.store i (some (.nullable none))
  | .clone src dst => r.clone src dst
  | .move src dst => r.move src dst
  | .drop i => r.store i none
  | .assign dst src => r.assign dst src
  | .clear i => r.clear i
  | .convert src dst kind => r.convert src dst kind
  | .look i l => r.look i l
  | .update i f => r.update i f
  | .same i j => r.same i j
  | .compare i j => r.compare i j

/-- What is answered to the calls and destroyed by each, and the register after them. -/
def transcript : List (Call α) → Register α → List (Reply α × List (CellId × α)) × Register α
  | [], r => ([], r)
  | call :: calls, r =>
    let o := r.step call
    let (rest, r) := transcript calls o.register
    ((o.reply, o.destroyed) :: rest, r)

end Register

/-! ### Heaps -/

namespace Heap

variable {α : Type}

/-- The value whose destruction the event tells, and its cell. -/
def Event.death? : Event α → Option (CellId × α)
  | .destroyed c data => some (c, data)
  | _ => none

/-- The values whose destruction the log has, the first one first. -/
def deaths (h : Heap α) : List (CellId × α) :=
  h.log.reverse.filterMap Event.death?

/-- An act of the caller, and its answer. -/
def act (h : Heap α) (a : Act α) : Heap α × Reply α :=
  ((h.exec (.act a)).1, .answer (h.exec (.act a)).2)

/-- Gives one variable the target of another. A pointer that is assigned to itself stays as
it is. -/
def give (h : Heap α) (dst src : Nat) : Heap α × Answer α :=
  match h.pointer? (.var dst), h.pointer? (.var src) with
  | some (.nullable _), some (.nullable _) | some (.notNull _), some (.notNull _) =>
    if src = dst then (h, .done) else h.exec (.act (.assign (.var dst) (.var src) []))
  | _, _ => (h, .refused)

/-- The value that an answer gives. -/
def Answer.value? : Answer α → Option α
  | .value a => some a
  | _ => none

/-- Whether only nullable pointers can be looked at so. -/
def Look.nullableOnly : Look → Bool
  | .get | .tryGet | .isNull => true
  | .deref | .isUnique => false

/-- What is answered to a look at a pointer: whether it has no target, and no other pointer
shares it, and the value of the target. -/
def Look.reply (isNull isUnique : Bool) (a : Option α) : Look → Reply α
  | .get => .perhaps a
  | .tryGet =>
    match a with
    | none => .nullError
    | some a => .answer (.value a)
  | .deref =>
    match a with
    | none => .panicked
    | some a => .answer (.value a)
  | .isNull => .answer (.flag isNull)
  | .isUnique => .answer (.unique isUnique)

/-- Looks at the pointer in a variable. -/
def look (h : Heap α) (i : Nat) (l : Look) : Reply α :=
  match h.find none (.var i) [] with
  | .error e => .answer e
  | .ok (_, _, q) =>
    if l.nullableOnly && q.kind ≠ .nullable then .answer .refused
    else l.reply q.owner?.isNone (h.isUnique q.owner?) (h.query none (.read (.var i) [])).value?

/-- Compares the pointers in two variables. -/
def compare (h : Heap α) (i j : Nat) : Reply α :=
  match h.pointer? (.var i), h.pointer? (.var j) with
  | some q, some q' =>
    if q.kind = q'.kind then .compared ((h.identity q.owner?).comparison (h.identity q'.owner?))
    else .answer .refused
  | _, _ => .answer .vacant

/-- What the heap makes of a call. -/
def serve (h : Heap α) : Call α → Heap α × Reply α
  | .make i kind data near => h.act (.make (.var i) kind data [] [] [] near)
  | .null i => h.act (.reset (.var i))
  | .clone src dst => h.act (.clone (.var src) [] (.var dst))
  | .move src dst => h.act (.move (.var src) (.var dst))
  | .drop i => h.act (.drop (.var i))
  | .assign dst src => ((h.give dst src).1, .answer (h.give dst src).2)
  | .clear i => h.act (.clear (.var i))
  | .convert src dst kind => h.act (.convert (.var src) (.var dst) kind)
  | .look i l => (h, h.look i l)
  | .update i f => h.act (.update (.var i) [] f)
  | .same i j => h.act (.ask (.same (.var i) (.var j)))
  | .compare i j => (h, h.compare i j)

/-- The heap with an empty log. -/
def forget (h : Heap α) : Heap α :=
  { h with log := [] }

/-- What is answered to the calls and destroyed by each, and the heap after them. -/
def transcript : List (Call α) → Heap α → List (Reply α × List (CellId × α)) × Heap α
  | [], h => ([], h)
  | call :: calls, h =>
    let (h, reply) := h.forget.serve call
    let (rest, h') := transcript calls h
    ((reply, h.deaths) :: rest, h')

end Heap

end Custody
