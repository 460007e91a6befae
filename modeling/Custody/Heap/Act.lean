/-
# What can be done with counted pointers

A pointer is one owner of a cell. It comes in three kinds: a `nullable` one may
have no target, a `notNull` one always has a target but can be given another,
and a `fixed` one keeps its target. A pointer lives in a variable, or in a field
of a value; some fields are links, which whoever reads the value may overwrite.

An act is what a caller does with pointers, or what a value's destructor does
with the value's own fields and with the caller's variables. A destructor is a
list of acts: it may skip some, or give up, depending on the last answer, so
what it does may depend on all that it saw.

Key definitions: `Owner`, `Pointer`, `Act`, `Answer`, `Op`.
-/
import Custody.Count

namespace Custody.Heap

/-- Cells are numbered in the order in which they are made. -/
abbrev CellId := Nat

/-- One registered owner of a cell, and the token it is registered by. -/
structure Owner where
  cell : CellId
  token : Token CellId
  deriving DecidableEq

/-- The kinds of pointers. -/
inductive Kind where
  | nullable
  | notNull
  | fixed
  deriving DecidableEq

/-- A pointer of one of the kinds. -/
inductive Pointer where
  | nullable (owner : Option Owner)
  | notNull (owner : Owner)
  | fixed (owner : Owner)
  deriving DecidableEq

namespace Pointer

/-- The kind of a pointer. -/
def kind : Pointer → Kind
  | .nullable _ => .nullable
  | .notNull _ => .notNull
  | .fixed _ => .fixed

/-- The owner that the pointer is, unless it has no target. -/
def owner? : Pointer → Option Owner
  | .nullable o => o
  | .notNull o => some o
  | .fixed o => some o

/-- A pointer without a target. -/
def null : Pointer := .nullable none

end Pointer

/-- The pointer of that kind that is that owner. -/
def Kind.pointer (k : Kind) (o : Owner) : Pointer :=
  match k with
  | .nullable => .nullable (some o)
  | .notNull => .notNull o
  | .fixed => .fixed o

/-- From a value to one of its pointers: an ordinary field, or a link. -/
inductive Hop where
  | field (k : Nat)
  | link (k : Nat)
  deriving DecidableEq

/-- Where an act finds a pointer: a variable of the caller, or a field of the
value whose destructor acts. -/
inductive Ref where
  | var (i : Nat)
  | own (hop : Hop)
  deriving DecidableEq

/-- Where a pointer is put in a value: in place of the one in a field, or in a
new field after all others. -/
inductive Site where
  | at (hop : Hop)
  | last
  deriving DecidableEq

/-- A question about pointers; a path of hops starts at the pointer `r`. -/
inductive Query where
  /-- Whether the pointer has no target. -/
  | isNull (r : Ref) (path : List Hop)
  /-- Whether no other pointer shares the target; so it is of a pointer without one. -/
  | isUnique (r : Ref) (path : List Hop)
  /-- What the target holds. -/
  | read (r : Ref) (path : List Hop)
  /-- Whether two pointers share a target, or both have none. -/
  | same (a b : Ref)
  deriving DecidableEq

/-- What an act answers. -/
inductive Answer (α : Type) where
  | done
  | flag (b : Bool)
  /-- Whether a pointer is the only owner of its target. -/
  | unique (b : Bool)
  /-- What the target of a pointer holds, after the act. -/
  | value (a : α)
  /-- A pointer that was used has no target. -/
  | null
  /-- A pointer through which something was to be changed is not the only owner
  of its target, or has none. -/
  | denied
  /-- There is no such variable or field. -/
  | absent
  /-- The variable holds no pointer. -/
  | vacant
  /-- The variable is borrowed. -/
  | busy
  /-- A pointer of that kind cannot do that. -/
  | refused
  /-- The target of a pointer is destroyed. -/
  | dangling
  deriving DecidableEq

/-- The pointer as one of another kind. One without target can become no other, and
a pointer that may be without target, or may be given another, can come from any
that cannot. -/
def Pointer.convert {α : Type} (q : Pointer) (k : Kind) : Except (Answer α) Pointer :=
  match q, k with
  | .nullable none, .notNull => .error .null
  | .nullable none, .fixed => .error .null
  | .nullable (some o), .notNull => .ok (.notNull o)
  | .nullable (some o), .fixed => .ok (.fixed o)
  | .notNull o, .nullable => .ok (.nullable (some o))
  | .fixed o, .nullable => .ok (.nullable (some o))
  | .fixed o, .notNull => .ok (.notNull o)
  | _, _ => .error .refused

/-- One act on pointers. -/
inductive Act (α : Type) where
  | ask (q : Query)
  /-- Puts a pointer without target into `dst`. -/
  | reset (dst : Ref)
  /-- Takes the pointer out of `r` and drops it. -/
  | drop (r : Ref)
  /-- Makes a nullable pointer lose its target, while it is borrowed. -/
  | clear (r : Ref)
  /-- Takes the pointer out of `src` and puts it into `dst`. -/
  | move (src dst : Ref)
  /-- Puts a copy of the pointer at the end of the path into `dst`. -/
  | clone (src : Ref) (path : List Hop) (dst : Ref)
  /-- Gives `dst` the target of the pointer at the end of the path, while both are
  borrowed. A nullable pointer gives up its target before it owns the new one, a
  `notNull` one after. Nothing happens if it is the same target. -/
  | assign (dst src : Ref) (path : List Hop)
  /-- Gives the nullable pointer in `dst` the target of the one at the end of a path
  that starts at `dst` itself. The latter is copied first, and the copy is dropped
  in the end, while `dst` is still borrowed. -/
  | advance (dst : Ref) (path : List Hop)
  /-- Copies the pointer at the end of the path, drops the one in `dst`, and puts
  the copy there, while both are borrowed. -/
  | replace (dst src : Ref) (path : List Hop)
  /-- Takes the pointer out of `src` and puts it into `dst` as a pointer of that kind. -/
  | convert (src dst : Ref) (kind : Kind)
  /-- Makes a new cell, at the address `near` if that is free, and puts a pointer
  of that kind to it into `dst`. The value's fields and links are taken out of
  the places named, or have no target. -/
  | make (dst : Ref) (kind : Kind) (data : α) (script : List (Act α))
      (fields links : List (Option Ref)) (near : Nat)
  /-- Changes what the target at the end of the path holds, if each pointer on the
  way is the only owner of its target. -/
  | update (r : Ref) (path : List Hop) (f : α → α)
  /-- Takes the pointer out of `src` and puts it into the target at the end of the
  path, under the same condition; the pointer that was there is dropped while
  `r` is borrowed. -/
  | store (r : Ref) (path : List Hop) (site : Site) (src : Ref)
  /-- In a destructor, skips the next `n` acts if the last answer is like that. -/
  | skipIf (p : Answer α → Bool) (n : Nat)
  /-- In a destructor, gives up if the last answer is like that: the other acts of
  this destructor, and of those in whose course it runs, are not done. -/
  | giveUpIf (p : Answer α → Bool)
  /-- In a destructor, records the last answer, and what `say` makes of it. -/
  | report (say : Answer α → String)

/-- What a caller can do: any act, and overwrite a link of a value that it can
only read. -/
inductive Op (α : Type) where
  | act (a : Act α)
  /-- Takes the pointer out of `src` and puts it into the `k`-th link of the target
  at the end of the path; the pointer that was there is then dropped. The path
  must not lead through that link. -/
  | relink (r : Ref) (path : List Hop) (k : Nat) (src : Ref)

mutual

/-- A bound on the steps that an act takes in a destructor, besides those of the
destructions it sets off. -/
def Act.weight {α : Type} : Act α → Nat
  | .make _ _ _ script fields links _ =>
    5 + Act.scriptWeight script + 2 * (fields.length + links.length)
  | _ => 5

/-- The weights of the acts of a destructor together. -/
def Act.scriptWeight {α : Type} : List (Act α) → Nat
  | [] => 0
  | a :: rest => a.weight + Act.scriptWeight rest

end

end Custody.Heap
