/-
# Worlds that are being changed

A draft is a world while it is being changed: there are handles in hand, and cells
that somebody owns without being a requester, a request or a handle yet, or any
more. All steps are made of a few edits of drafts (`Edit`), each with the condition
under which it is made. A cell has keepers, who are counted by its owners, and among
them are the holders of its lock.

Key definitions: `Draft`, `Draft.keepers`, `Draft.holders`, `Edit`.
Key theorems: `keepers_eq`, `holders_eq`, `holders_le_keepers`.
-/
import Custody.Proofs.Steps
import Custody.Proofs.Table
import Custody.Shared.Step

namespace Custody.Shared

variable {α : Type}

/-! ### Who owns a cell, and who holds its lock -/

/-- Whether the handle is locked on that cell. -/
def Handle.isOn (c : CellId) (h : Handle) : Bool :=
  h.grant = some c

/-- Whether the handle holds the lock of that cell in that way. -/
def Handle.holds (c : CellId) (d : Demand) (h : Handle) : Bool :=
  h.grant = some c ∧ h.kind.demand? = some d

/-- A world, the handles in hand, and the cells that are owned by no one yet or any more. -/
structure Draft (α : Type) where
  world : World α
  hand : List Handle
  owed : List CellId

/-- All handles, with those in hand. -/
def Draft.handles (d : Draft α) : List Handle :=
  d.world.handles.values ++ d.hand

/-- How many requesters, requests and locked handles own the cell, and how often it is owed. -/
def Draft.keepers (d : Draft α) (c : CellId) : Nat :=
  d.world.requesters.values.countP (· = c) + d.world.requests.countP (·.cell = c) +
    d.owed.countP (· = c) + d.handles.countP (Handle.isOn c)

/-- How many handles hold the lock of the cell in that way. -/
def Draft.holders (d : Draft α) (c : CellId) (x : Demand) : Nat :=
  d.handles.countP (Handle.holds c x)

/-- Whether such handles on that cell can be had. -/
def World.Offers (w : World α) (c : CellId) (k : HandleKind) : Prop :=
  ∃ a, (w.flavour? c).bind (·.handle? a) = some k

/-- The lock of the cell after a handle of that kind did something to it. -/
def World.relock (f : Hold → Demand → Hold) (c : CellId) (k : HandleKind) (w : World α) : World α :=
  match k.demand? with
  | none => w
  | some d => w.modifyCell c fun cell => { cell with hold := f cell.hold d }

/-- The lock of the cell after someone entered with a handle of that kind. -/
abbrev World.enter (c : CellId) (k : HandleKind) (w : World α) : World α :=
  w.relock Hold.enter c k

/-- The lock of the cell after a handle of that kind left. -/
abbrev World.quit (c : CellId) (k : HandleKind) (w : World α) : World α :=
  w.relock Hold.leave c k

/-- Anything in the log but the destruction of a value. -/
def Event.isRemark : Event α → Bool
  | .destroyed _ _ => false
  | _ => true

/-! ### Edits -/

/-- One change of a draft. -/
inductive Edit : Draft α → Draft α → Prop
  | reorder {w : World α} {hand hand' : List Handle} {owed : List CellId} :
      hand.Perm hand' → Edit ⟨w, hand, owed⟩ ⟨w, hand', owed⟩
  | remark {w : World α} {hand : List Handle} {owed : List CellId} {e : Event α} :
      e.isRemark = true → Edit ⟨w, hand, owed⟩ ⟨w.note e, hand, owed⟩
  /-- A new cell with one owner to be. -/
  | make {w : World α} {hand : List Handle} {owed : List CellId} (f : Flavour) (a : Nat) (v : α) :
      Edit ⟨w, hand, owed⟩
        ⟨{ w with cells := w.cells ++ [.new f v a] }, hand, w.cells.length :: owed⟩
  /-- One owner more of a cell whose value is there. -/
  | own {w : World α} {hand : List Handle} {owed : List CellId} {c : CellId} :
      (w.value? c).isSome → Edit ⟨w, hand, owed⟩ ⟨w.own c, hand, c :: owed⟩
  /-- One owner less, that is not the last. -/
  | leave {w : World α} {hand : List Handle} {owed : List CellId} {c : CellId} {cell : Cell α} :
      w.cells[c]? = some cell → cell.owners ≠ 1 →
      Edit ⟨w, hand, c :: owed⟩ ⟨w.disown c, hand, owed⟩
  /-- The last owner goes away, and the value is destroyed. -/
  | destroy {w : World α} {hand : List Handle} {owed : List CellId} {c : CellId} {cell : Cell α}
      {v : α} : w.cells[c]? = some cell → cell.owners = 1 → cell.value = some v →
      Edit ⟨w, hand, c :: owed⟩ ⟨w.disown c, hand, owed⟩
  /-- What is owed becomes a requester, in place of the one of that name. -/
  | register {w : World α} {hand : List Handle} {owed : List CellId} (name : String) (c : CellId) :
      Edit ⟨w, hand, c :: owed⟩
        ⟨{ w with requesters := w.requesters.put name c }, hand,
          (w.requesters.get? name).toList ++ owed⟩
  | unregister {w : World α} {hand : List Handle} {owed : List CellId} {name : String} {c : CellId} :
      w.requesters.get? name = some c →
      Edit ⟨w, hand, owed⟩ ⟨{ w with requesters := w.requesters.erase name }, hand, c :: owed⟩
  /-- What is owed becomes a request. -/
  | ask {w : World α} {hand : List Handle} {owed : List CellId} (r : Request) :
      w.Offers r.cell r.kind →
      Edit ⟨w, hand, r.cell :: owed⟩ ⟨{ w with requests := w.requests ++ [r] }, hand, owed⟩
  | withdraw {w : World α} {hand : List Handle} {owed : List CellId} {r : Request} :
      r ∈ w.requests → Edit ⟨w, hand, owed⟩ ⟨w.withdraw r, hand, r.cell :: owed⟩
  /-- What is owed becomes a locked handle, if the lock allows it. -/
  | lock {w : World α} {hand : List Handle} {owed : List CellId} {c : CellId} {k : HandleKind} :
      w.Offers c k →
      (∀ d, k.demand? = some d → ∀ cell, w.cells[c]? = some cell → cell.hold.allows d = true) →
      Edit ⟨w, hand, c :: owed⟩ ⟨w.enter c k, ⟨k, some c⟩ :: hand, owed⟩
  | unlock {w : World α} {hand : List Handle} {owed : List CellId} {h : Handle} {c : CellId} :
      h.grant = some c → Edit ⟨w, h :: hand, owed⟩ ⟨w.quit c h.kind, hand, c :: owed⟩
  /-- A released handle comes from nowhere. -/
  | shell {w : World α} {hand : List Handle} {owed : List CellId} {h : Handle} :
      h.grant = none → Edit ⟨w, hand, owed⟩ ⟨w, h :: hand, owed⟩
  /-- A released handle goes away. -/
  | scrap {w : World α} {hand : List Handle} {owed : List CellId} {h : Handle} :
      h.grant = none → Edit ⟨w, h :: hand, owed⟩ ⟨w, hand, owed⟩
  /-- A handle in hand is stored, in place of the one of that name. -/
  | store {w : World α} {hand : List Handle} {owed : List CellId} (key : ThreadId × HandleName)
      (h : Handle) : Edit ⟨w, h :: hand, owed⟩
        ⟨{ w with handles := w.handles.put key h }, (w.handles.get? key).toList ++ hand, owed⟩
  | fetch {w : World α} {hand : List Handle} {owed : List CellId} {key : ThreadId × HandleName}
      {h : Handle} : w.handles.get? key = some h →
      Edit ⟨w, hand, owed⟩ ⟨{ w with handles := w.handles.erase key }, h :: hand, owed⟩
  /-- A value that is there changes. -/
  | write {w : World α} {hand : List Handle} {owed : List CellId} {c : CellId} {v : α} (v' : α) :
      w.value? c = some v →
      Edit ⟨w, hand, owed⟩ ⟨w.modifyCell c (Cell.fill (some v')), hand, owed⟩

/-- Some edits, one after the other. -/
abbrev Edits : Draft α → Draft α → Prop :=
  Relation.ReflTransGen Edit

/-! ### What owners and holders are counted over -/

variable {w : World α} {hand : List Handle} {owed : List CellId}

theorem keepers_eq (w : World α) (hand : List Handle) (owed : List CellId) (c : CellId) :
    (⟨w, hand, owed⟩ : Draft α).keepers c =
      w.requesters.values.countP (· = c) + w.requests.countP (·.cell = c) + owed.countP (· = c) +
        (w.handles.values.countP (Handle.isOn c) + hand.countP (Handle.isOn c)) := by
  simp only [Draft.keepers, Draft.handles, List.countP_append]

theorem holders_eq (w : World α) (hand : List Handle) (owed : List CellId) (c : CellId) (x : Demand) :
    (⟨w, hand, owed⟩ : Draft α).holders c x =
      w.handles.values.countP (Handle.holds c x) + hand.countP (Handle.holds c x) := by
  simp only [Draft.holders, Draft.handles, List.countP_append]

theorem mem_handles {h : Handle} :
    h ∈ (⟨w, hand, owed⟩ : Draft α).handles ↔ h ∈ w.handles.values ∨ h ∈ hand := by
  simp only [Draft.handles, List.mem_append]

theorem keepers_owed (w : World α) (hand : List Handle) (owed : List CellId) (c c' : CellId) :
    (⟨w, hand, c :: owed⟩ : Draft α).keepers c' =
      (⟨w, hand, owed⟩ : Draft α).keepers c' + if c' = c then 1 else 0 := by
  rw [keepers_eq, keepers_eq, List.countP_cons]
  simp only [decide_eq_true_eq, eq_comm (a := c)]
  omega

theorem keepers_hand (w : World α) (hand : List Handle) (owed : List CellId) {h : Handle} {c : CellId}
    (hg : h.grant = some c) (c' : CellId) :
    (⟨w, h :: hand, owed⟩ : Draft α).keepers c' =
      (⟨w, hand, owed⟩ : Draft α).keepers c' + if c' = c then 1 else 0 := by
  rw [keepers_eq, keepers_eq, List.countP_cons]
  simp only [Handle.isOn, hg, Option.some.injEq, decide_eq_true_eq, eq_comm (a := c)]
  omega

theorem holders_hand (w : World α) (hand : List Handle) (owed : List CellId) {h : Handle} {c : CellId}
    (hg : h.grant = some c) (c' : CellId) (x : Demand) :
    (⟨w, h :: hand, owed⟩ : Draft α).holders c' x =
      (⟨w, hand, owed⟩ : Draft α).holders c' x + if c' = c ∧ h.kind.demand? = some x then 1 else 0 := by
  rw [holders_eq, holders_eq, List.countP_cons]
  simp only [Handle.holds, hg, Option.some.injEq, decide_eq_true_eq, eq_comm (a := c)]
  omega

/-- A released handle keeps nothing. -/
theorem keepers_released (w : World α) (hand : List Handle) (owed : List CellId) {h : Handle}
    (hg : h.grant = none) (c : CellId) :
    (⟨w, h :: hand, owed⟩ : Draft α).keepers c = (⟨w, hand, owed⟩ : Draft α).keepers c := by
  have hnot : h.isOn c = false := by simp [Handle.isOn, hg]
  rw [keepers_eq, keepers_eq, List.countP_cons, hnot]
  rfl

/-- A released handle holds nothing. -/
theorem holders_released (w : World α) (hand : List Handle) (owed : List CellId) {h : Handle}
    (hg : h.grant = none) (c : CellId) (x : Demand) :
    (⟨w, h :: hand, owed⟩ : Draft α).holders c x = (⟨w, hand, owed⟩ : Draft α).holders c x := by
  have hnot : h.holds c x = false := by simp [Handle.holds, hg]
  rw [holders_eq, holders_eq, List.countP_cons, hnot]
  rfl

/-- The handles on a cell that hold its lock are among its keepers. -/
theorem holders_le_keepers (d : Draft α) (c : CellId) (x : Demand) : d.holders c x ≤ d.keepers c := by
  have : d.holders c x ≤ d.handles.countP (Handle.isOn c) := by
    apply List.countP_mono_left
    intro h _ hh
    simp only [Handle.holds, decide_eq_true_eq] at hh
    simpa [Handle.isOn] using hh.1
  unfold Draft.keepers
  omega

/-! ### Worlds in which one cell changed -/

theorem getElem?_modifyCell (w : World α) (c : CellId) (f : Cell α → Cell α) (c' : CellId) :
    (w.modifyCell c f).cells[c']? =
      if c' = c then w.cells[c']?.map f else w.cells[c']? := by
  simp only [World.modifyCell, List.getElem?_modify, eq_comm (a := c)]
  split <;> cases w.cells[c']? <;> rfl

theorem offers_modifyCell {c : CellId} {f : Cell α → Cell α}
    (hf : ∀ cell, (f cell).flavour = cell.flavour) (c' : CellId) (k : HandleKind) :
    (w.modifyCell c f).Offers c' k ↔ w.Offers c' k := by
  have : (w.modifyCell c f).flavour? c' = w.flavour? c' := by
    unfold World.flavour?
    rw [getElem?_modifyCell]
    split
    · rw [Option.map_map]
      exact congrArg (fun g => Option.map g _) (funext hf)
    · rfl
  simp only [World.Offers, this]

theorem World.value?_eq_some {c : CellId} {v : α} (hv : w.value? c = some v) :
    ∃ cell, w.cells[c]? = some cell ∧ cell.value = some v :=
  Option.bind_eq_some_iff.mp hv

theorem lt_of_getElem?_eq_some {c : CellId} {cell : Cell α} (hc : w.cells[c]? = some cell) :
    c < w.cells.length :=
  (List.getElem?_eq_some_iff.mp hc).1

theorem World.disown_of_ne {c : CellId} {cell : Cell α} (hc : w.cells[c]? = some cell)
    (hn : cell.owners ≠ 1) :
    w.disown c = w.modifyCell c fun cell => { cell with owners := cell.owners - 1 } := by
  unfold World.disown
  rw [hc]
  dsimp only
  split
  · rename_i h1 _
    exact absurd h1 hn
  · rfl

theorem World.disown_of_last {c : CellId} {cell : Cell α} {v : α} (hc : w.cells[c]? = some cell)
    (hn : cell.owners = 1) (hv : cell.value = some v) :
    w.disown c = (w.modifyCell c fun cell =>
      Cell.fill none { cell with owners := cell.owners - 1 }).note (.destroyed c v) := by
  unfold World.disown
  rw [hc]
  simp only [hn, hv]
  unfold World.modifyCell
  simp only [List.modify_modify_eq]
  rfl

end Custody.Shared
