/-
# A ledger of counts and tokens

A ledger keeps counts and tokens, each under a name. Any token may be handed to
any count: a count cannot tell its own tokens from those of another. Each token
remembers all the same which count issued it.

Key definitions: `Ledger`, `Ledger.Step`, `Ledger.step`.
-/
import Custody.Count
import Custody.Table

namespace Custody

/-- Counts and tokens by name, and how many tokens were issued so far. -/
structure Ledger where
  counts : Table String Count
  tokens : Table String (Token String)
  issued : Nat

namespace Ledger

/-- A ledger without counts and tokens. -/
def empty : Ledger := ⟨[], [], 0⟩

/-- What can be done with a ledger; `c` names a count and `k` a token. -/
inductive Step where
  /-- A new count of one, and the token of its first owner. -/
  | create (c k : String)
  /-- One owner more, with a token of that name. -/
  | acquire (c k : String)
  /-- The token is handed to the count. -/
  | release (c k : String)
  /-- The token is lost. -/
  | drop (k : String)
  /-- Asks whether the count has exactly one owner. -/
  | unique (c : String)
  deriving DecidableEq

/-- What a step answers. -/
inductive Reply where
  | done
  /-- Whether the token handed back was the last, or the count is one. -/
  | flag (b : Bool)
  | fault (f : CountFault)
  /-- A name that should be new is in use. -/
  | nameTaken
  | noCount
  | noToken
  deriving DecidableEq

/-- Issues a token of the count `c` under the name `k`. -/
def issue (c k : String) (n : Count) (l : Ledger) : Ledger :=
  { counts := l.counts.put c n, tokens := l.tokens.put k ⟨c, l.issued⟩, issued := l.issued + 1 }

/-- One step: what becomes of the ledger, and the answer. A token that is handed
over or lost is gone from the ledger, also when that is a fault. -/
def step (l : Ledger) : Step → Ledger × Reply
  | .create c k =>
    if l.counts.has c || l.tokens.has k then (l, .nameTaken)
    else (l.issue c k .first, .done)
  | .acquire c k =>
    if l.tokens.has k then (l, .nameTaken)
    else match l.counts.get? c with
      | none => (l, .noCount)
      | some n => (l.issue c k n.acquire, .done)
  | .release c k =>
    match l.counts.get? c, l.tokens.get? k with
    | none, _ => (l, .noCount)
    | some _, none => (l, .noToken)
    | some n, some _ =>
      let l := { l with tokens := l.tokens.erase k }
      match n.release? with
      | none => (l, .fault .underflow)
      | some (n, last) => ({ l with counts := l.counts.put c n }, .flag last)
  | .drop k =>
    if l.tokens.has k then ({ l with tokens := l.tokens.erase k }, .fault .tokenDropped)
    else (l, .noToken)
  | .unique c =>
    match l.counts.get? c with
    | none => (l, .noCount)
    | some n => (l, .flag n.isUnique)

/-- The answers of several steps, each with the ledger after it. -/
def run (l : Ledger) : List Step → List (Reply × Ledger)
  | [] => []
  | s :: rest =>
    let (l, r) := l.step s
    (r, l) :: run l rest

end Ledger

end Custody
