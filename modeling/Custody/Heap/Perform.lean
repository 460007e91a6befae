/-
# Performing an act

An act changes the heap at once and leaves tasks to do, in order: the pointers
that it dropped sign off, a nullable pointer that was given a new target becomes
an owner of it, and loans end. Its answer is known before the tasks are done. An
act that cannot be performed leaves no tasks and the heap as it is, with one
exception: a pointer without target that should become one with a target is gone.

Key definitions: `Task`, `Task.isOwed`, `Outcome`, `Heap.query`, `Heap.perform`, `Heap.operate`.
-/
import Custody.Heap.Place

namespace Custody.Heap

variable {α : Type}

/-- What is still to do. -/
inductive Task (α : Type) where
  /-- An owner signs off. -/
  | release (o : Owner)
  /-- The nullable pointer in `dst` gets the target that the one in `src` has by then. -/
  | adopt (dst src : Place)
  /-- The nullable pointer in `dst` gets the target of an owner that has yet to sign off. -/
  | follow (dst : Place) (o : Owner)
  /-- A pointer is put into `dst`. -/
  | place (dst : Place) (q : Pointer)
  | unlend (p : Place)
  | unshare (p : Place)
  /-- The rest of the destructor of a cell's value, and the last answer it got. -/
  | script (c : CellId) (acts : List (Act α)) (last : Answer α)
  /-- The fields and links of a dying value are dropped, and its cell is freed. -/
  | dismantle (c : CellId)

/-- Whether the task is done even if a destructor gave up before it. Pointers are
dropped and loans end in any case, and a pointer that was copied is put where it
belongs; but no destructor goes on, and no pointer gets a new target. -/
def Task.isOwed : Task α → Bool
  | .script _ _ _ => false
  | .adopt _ _ => false
  | .follow _ _ => false
  | _ => true

/-- A bound on the steps of a task, besides those of the destructions it sets off. -/
def Task.weight : Task α → Nat
  | .script _ acts _ => 1 + Act.scriptWeight acts
  | _ => 1

/-- What an act does. -/
structure Outcome (α : Type) where
  heap : Heap α
  todo : List (Task α)
  answer : Answer α

/-- What is to do when a pointer is dropped. -/
def discard (q : Option Pointer) : List (Task α) :=
  match q.bind Pointer.owner? with
  | none => []
  | some o => [.release o]

/-- The outcome of an act that cannot be performed, or only asks. -/
def reply (h : Heap α) (a : Answer α) : Outcome α :=
  ⟨h, [], a⟩

/-- Puts something into a place; what was there is dropped. -/
def put (dst : Place) (x : Option Pointer) (h : Heap α) : Outcome α :=
  ⟨h.poke dst x, discard (h.pointer? dst), .done⟩

/-- The place that is meant, if it is there and may be read now. -/
def view (h : Heap α) (self : Option CellId) (r : Ref) : Except (Answer α) Place :=
  match place? self r with
  | none => .error .absent
  | some p =>
    if (h.peek p).isNone then .error .absent
    else if h.readable p then .ok p else .error .busy

/-- The place that is meant, if it is there and may be changed now. -/
def claim (h : Heap α) (self : Option CellId) (r : Ref) : Except (Answer α) Place :=
  match place? self r with
  | none => .error .absent
  | some p =>
    if (h.peek p).isNone then .error .absent
    else if h.writable p then .ok p else .error .busy

/-- The pointer at the end of a path that starts at `r`, and the places of both. -/
def find (h : Heap α) (self : Option CellId) (r : Ref) (path : List Hop) :
    Except (Answer α) (Place × Place × Pointer) :=
  match h.view self r with
  | .error e => .error e
  | .ok root =>
    match h.walk false root path with
    | .error e => .error e
    | .ok p =>
      match h.pointer? p with
      | none => .error .vacant
      | some q => .ok (root, p, q)

/-- The answer to a question. -/
def query (h : Heap α) (self : Option CellId) : Query → Answer α
  | .isNull r path =>
    match h.find self r path with
    | .error e => e
    | .ok (_, _, q) => .flag q.owner?.isNone
  | .isUnique r path =>
    match h.find self r path with
    | .error e => e
    | .ok (_, _, q) => .unique (h.isUnique q.owner?)
  | .read r path =>
    match h.find self r path with
    | .error e => e
    | .ok (_, p, _) =>
      match h.through false p with
      | .error e => e
      | .ok (_, v) => .value v.data
  | .same a b =>
    match h.find self a [], h.find self b [] with
    | .error e, _ => e
    | .ok _, .error e => e
    | .ok (_, _, q), .ok (_, _, q') => .flag (h.identity q.owner? = h.identity q'.owner?)

/-- The nullable pointers in the places named, taken out one after the other. -/
def gather (self : Option CellId) (h : Heap α) :
    List (Option Ref) → Except (Answer α) (List (Option Owner) × Heap α)
  | [] => .ok ([], h)
  | none :: rest =>
    match gather self h rest with
    | .error e => .error e
    | .ok (os, h) => .ok (none :: os, h)
  | some r :: rest =>
    match h.claim self r with
    | .error e => .error e
    | .ok p =>
      match h.pointer? p with
      | none => .error .vacant
      | some (.nullable o) =>
        match gather self (h.poke p p.vacated) rest with
        | .error e => .error e
        | .ok (os, h) => .ok (o :: os, h)
      | some _ => .error .refused

/-! ### The acts -/

/-- Puts a pointer without target into `dst`. -/
def performReset (h : Heap α) (self : Option CellId) (dst : Ref) : Outcome α :=
  match h.claim self dst with
  | .error e => h.reply e
  | .ok d => h.put d (some .null)

/-- Takes the pointer out of `r` and drops it. -/
def performDrop (h : Heap α) (self : Option CellId) (r : Ref) : Outcome α :=
  match h.claim self r with
  | .error e => h.reply e
  | .ok p => h.put p p.vacated

/-- Makes a nullable pointer lose its target; it is borrowed until that is done. -/
def performClear (h : Heap α) (self : Option CellId) (r : Ref) : Outcome α :=
  match h.claim self r with
  | .error e => h.reply e
  | .ok p =>
    match h.pointer? p with
    | none => h.reply .vacant
    | some (.nullable o) =>
      ⟨(h.poke p (some .null)).lend p, discard (some (.nullable o)) ++ [.unlend p], .done⟩
    | some _ => h.reply .refused

/-- Takes what is in `src` and puts it into `dst`. -/
def performMove (h : Heap α) (self : Option CellId) (src dst : Ref) : Outcome α :=
  match h.claim self src, h.claim self dst with
  | .error e, _ => h.reply e
  | .ok _, .error e => h.reply e
  | .ok s, .ok d =>
    let x := h.pointer? s
    if d.admits x then (h.poke s s.vacated).put d x else h.reply .refused

/-- Puts a copy of the pointer at the end of the path into `dst`. -/
def performClone (h : Heap α) (self : Option CellId) (src : Ref) (path : List Hop) (dst : Ref) :
    Outcome α :=
  match h.find self src path, h.claim self dst with
  | .error e, _ => h.reply e
  | .ok _, .error e => h.reply e
  | .ok (_, _, q), .ok d =>
    if d.admits (some q) then
      let (q, h) := h.duplicate q
      h.put d (some q)
    else h.reply .refused

/-- Gives the pointer in `dst` the target of the one at the end of the path. -/
def performAssign (h : Heap α) (self : Option CellId) (dst src : Ref) (path : List Hop) :
    Outcome α :=
  match h.claim self dst, h.find self src path with
  | .error e, _ => h.reply e
  | .ok _, .error e => h.reply e
  | .ok d, .ok (s, p, q) =>
    if d = s then h.reply .busy
    else match h.pointer? d, q with
      | none, _ => h.reply .vacant
      | some (.nullable a), .nullable b =>
        if h.identity a = h.identity b then h.reply .done
        else
          ⟨((h.poke d (some .null)).lend d).share s,
            discard (some (.nullable a)) ++ [.adopt d p, .unshare s, .unlend d], .done⟩
      | some (.notNull a), .notNull b =>
        if h.identity (some a) = h.identity (some b) then h.reply .done
        else
          let (b, h) := h.acquire b.cell
          ⟨((h.poke d (some (.notNull b))).lend d).share s,
            [.release a, .unshare s, .unlend d], .done⟩
      | some _, _ => h.reply .refused

/-- Gives the pointer in `dst` the target of the one at the end of a path from it. -/
def performAdvance (h : Heap α) (self : Option CellId) (dst : Ref) (path : List Hop) :
    Outcome α :=
  match h.claim self dst, h.find self dst path with
  | .error e, _ => h.reply e
  | .ok _, .error e => h.reply e
  | .ok d, .ok (_, _, q) =>
    match h.pointer? d, q with
    | none, _ => h.reply .vacant
    | some (.nullable a), .nullable b =>
      if h.identity a = h.identity b then h.reply .done
      else match b with
        | none =>
          ⟨(h.poke d (some .null)).lend d, discard (some (.nullable a)) ++ [.unlend d], .done⟩
        | some b =>
          let (copy, h) := h.acquire b.cell
          ⟨(h.poke d (some .null)).lend d,
            discard (some (.nullable a)) ++ [.follow d copy, .release copy, .unlend d], .done⟩
    | some _, _ => h.reply .refused

/-- Copies the pointer at the end of the path, drops the one in `dst`, then puts the
copy there. -/
def performReplace (h : Heap α) (self : Option CellId) (dst src : Ref) (path : List Hop) :
    Outcome α :=
  match h.claim self dst, h.find self src path with
  | .error e, _ => h.reply e
  | .ok _, .error e => h.reply e
  | .ok d, .ok (s, _, q) =>
    if d = s then h.reply .busy
    else match h.pointer? d with
      | none => h.reply .vacant
      | some old =>
        if old.kind = q.kind then
          let (q, h) := h.duplicate q
          ⟨((h.poke d d.vacated).lend d).share s,
            discard (some old) ++ [.place d q, .unshare s, .unlend d], .done⟩
        else h.reply .refused

/-- Takes the pointer out of `src` and puts it into `dst` as one of that kind. One
without target is taken out also if the kind must have one. -/
def performConvert (h : Heap α) (self : Option CellId) (src dst : Ref) (kind : Kind) :
    Outcome α :=
  match h.claim self src, h.claim self dst with
  | .error e, _ => h.reply e
  | .ok _, .error e => h.reply e
  | .ok s, .ok d =>
    match h.pointer? s with
    | none => h.reply .vacant
    | some q =>
      match q.convert kind with
      | .error .null => ⟨h.poke s s.vacated, [], .null⟩
      | .error e => h.reply e
      | .ok q =>
        if d.admits (some q) then (h.poke s s.vacated).put d (some q) else h.reply .refused

/-- Makes a new cell and puts a pointer of that kind to it into `dst`. -/
def performMake (h : Heap α) (self : Option CellId) (dst : Ref) (kind : Kind) (data : α)
    (script : List (Act α)) (fields links : List (Option Ref)) (near : Nat) : Outcome α :=
  match h.claim self dst, h.gather self (fields ++ links) with
  | .error e, _ => h.reply e
  | .ok _, .error e => h.reply e
  | .ok d, .ok (os, h') =>
    let v : Value α := ⟨data, script, os.take fields.length, os.drop fields.length⟩
    let (o, h') := h'.allocate near v
    if d.admits (some (kind.pointer o)) then h'.put d (some (kind.pointer o))
    else h.reply .refused

/-- Changes what the target at the end of the path holds. -/
def performUpdate (h : Heap α) (self : Option CellId) (r : Ref) (path : List Hop) (f : α → α) :
    Outcome α :=
  match h.claim self r with
  | .error e => h.reply e
  | .ok root =>
    match h.walk true root path with
    | .error e => h.reply e
    | .ok p =>
      match h.through true p with
      | .error e => h.reply e
      | .ok (c, v) => ⟨h.setLive c { v with data := f v.data }, [], .value (f v.data)⟩

/-- Takes the pointer out of `src` and puts it into the target at the end of the path. -/
def performStore (h : Heap α) (self : Option CellId) (r : Ref) (path : List Hop) (site : Site)
    (src : Ref) : Outcome α :=
  match h.claim self r, h.claim self src with
  | .error e, _ => h.reply e
  | .ok _, .error e => h.reply e
  | .ok root, .ok s =>
    if root = s then h.reply .busy
    else match h.pointer? s, h.walk true root path with
      | none, _ => h.reply .vacant
      | some (.nullable _), .error e => h.reply e
      | some (.nullable o), .ok p =>
        match h.through true p with
        | .error e => h.reply e
        | .ok (c, v) =>
          match site with
          | .last =>
            ⟨(h.poke s s.vacated).setLive c { v with fields := v.fields ++ [o] }, [], .done⟩
          | .at hop =>
            match v.get? hop with
            | none => h.reply .absent
            | some old =>
              ⟨((h.poke s s.vacated).setLive c (v.set hop o)).lend root,
                discard (some (.nullable old)) ++ [.unlend root], .done⟩
      | some _, _ => h.reply .refused

/-- Performs an act of the destructor of the cell `self`, or of the caller. -/
def perform (h : Heap α) (self : Option CellId) : Act α → Outcome α
  | .ask q => h.reply (h.query self q)
  | .reset dst => h.performReset self dst
  | .drop r => h.performDrop self r
  | .clear r => h.performClear self r
  | .move src dst => h.performMove self src dst
  | .clone src path dst => h.performClone self src path dst
  | .assign dst src path => h.performAssign self dst src path
  | .advance dst path => h.performAdvance self dst path
  | .replace dst src path => h.performReplace self dst src path
  | .convert src dst kind => h.performConvert self src dst kind
  | .make dst kind data script fields links near =>
    h.performMake self dst kind data script fields links near
  | .update r path f => h.performUpdate self r path f
  | .store r path site src => h.performStore self r path site src
  | .skipIf _ _ => h.reply .done
  | .giveUpIf _ => h.reply .done
  | .report _ => h.reply .done

/-- Takes the pointer out of `src` and overwrites a link of the target at the end of
the path with it. -/
def performRelink (h : Heap α) (r : Ref) (path : List Hop) (k : Nat) (src : Ref) : Outcome α :=
  match h.claim none src with
  | .error e => h.reply e
  | .ok s =>
    match h.pointer? s, h.find none r path with
    | none, _ => h.reply .vacant
    | some (.nullable _), .error e => h.reply e
    | some (.nullable o), .ok (root, p, _) =>
      if root = s then h.reply .busy
      else match h.through false p with
        | .error e => h.reply e
        | .ok (c, v) =>
          match v.get? (.link k) with
          | none => h.reply .absent
          | some old =>
            if .inside c (.link k) ∈ h.trail root path then h.reply .busy
            else
              ⟨(h.poke s s.vacated).setLive c (v.set (.link k) o),
                discard (some (.nullable old)), .done⟩
    | some _, _ => h.reply .refused

/-- Performs what a caller does. -/
def operate (h : Heap α) : Op α → Outcome α
  | .act a => h.perform none a
  | .relink r path k src => h.performRelink r path k src

end Custody.Heap
