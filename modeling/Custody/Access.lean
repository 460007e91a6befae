/-
# Use of what refers to nothing

A pointer without a target and a handle that was released refer to nothing.
Using one is an `InvalidAccess`, which says which of the two it was and names
the type of the pointer or handle that was misused.

Key definitions: `InvalidAccess`, `InvalidAccess.message`, `InvalidAccess.session`.
-/
import Custody.Message
import Custody.Text.Shown

namespace Custody

/-- A pointer or handle was used while it referred to nothing. -/
inductive InvalidAccess where
  /-- A pointer of that type has no target. -/
  | null (pointer : String)
  /-- A handle of that type was released, or its access was taken out of it. -/
  | released (handle : String)
  deriving DecidableEq

namespace InvalidAccess

/-- The text of the error. -/
def message : InvalidAccess → String
  | .null pointer => "attempt to dereference null pointer - " ++ pointer
  | .released handle => "attempt to use released access handle - " ++ handle

/-- What the error shows of itself. -/
def shown : InvalidAccess → Shown
  | .null pointer => .tuple "Null" [.text pointer]
  | .released handle => .tuple "Released" [.text handle]

/-- The answer of a step that met the error. -/
def answer (e : InvalidAccess) : Message :=
  match e with
  | .null _ => .failure "Null" e.message
  | .released _ => .failure "Released" e.message

/-- The error of that kind and name. -/
def ofKind? (kind name : String) : Option InvalidAccess :=
  match kind with
  | "null" => some (.null name)
  | "released" => some (.released name)
  | _ => none

/-- The error whose kind and name are the parts of the request called that. -/
def at? (kind name : String) (request : Message) : Option InvalidAccess :=
  (request.textAt? name).bind (ofKind? (request.textAt kind))

/-- What the error shows of itself in the format that the request names. -/
def debug (request : Message) (e : InvalidAccess) : Message :=
  match Format.ofName? (request.textAtD "?" "spec") with
  | some f => .text (e.shown.render f)
  | none => (Refusal.badInput "spec").answer

/-- Describes the first of two errors and says whether they are the same. An
error has no further cause, and padding does not change its text. -/
def session (request : Message) : Message :=
  match at? "kind" "name" request, at? "kind2" "name2" request with
  | some e, some e' =>
    .record [("display", .text e.message), ("padded", .text e.message),
      ("debug", e.debug request),
      ("eq", .bool (e = e')), ("source", .bool false)]
  | _, _ => (Refusal.badInput "error").answer

end InvalidAccess

end Custody
