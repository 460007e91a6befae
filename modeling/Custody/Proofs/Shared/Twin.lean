/-
# Cells whose values nobody checks

Each flavour with a lock that many may share, and each without a lock, has a twin: the
same flavour without the check of what its values are for. An unchecked cell with a lock has
one layer more around its value, its guards are made around the guards of the lock, and each of
them has a way of its own to the value that is read, to the value that may be changed, to the
cell and to the lock that it leaves. Put each cell in the place of its twin, and with it the
kinds of its handles: then each of these ways leads to where the other one led, and so the change
commutes with whatever looks at a world or changes it. Each step does the same in both worlds, and
only the names of the types of requesters and handles tell them apart.

Key definitions: `Flavour.twin`, `Contents.twin`, `Guard.twin`, `World.twin`, `World.Step.twin`,
`World.Alike`.
Key theorems: `Contents.get?_twin`, `Guard.cell_twin`, `step_twin`, `run_twin`, `World.run_alike`.
-/
import Mathlib.Data.List.Basic
import Custody.Proofs.Shared.Asking
import Custody.Shared.Session

namespace Custody.Shared

variable {α : Type}

/-! ### Twins -/

/-- The flavour with the check if it has none, and without it if it has one. -/
def Flavour.twin : Flavour → Flavour
  | .readWrite => .unchecked
  | .unchecked => .readWrite
  | .serialized => .serialized
  | .immutable => .uncheckedImmutable
  | .uncheckedImmutable => .immutable

/-- The kind of the handles that give the same access to cells of the twin flavour. -/
def HandleKind.twin : HandleKind → HandleKind
  | .write => .uncheckedWrite
  | .read => .uncheckedRead
  | .uncheckedWrite => .write
  | .uncheckedRead => .read
  | .serialized => .serialized
  | .serializedConst => .serializedConst
  | .immutable => .uncheckedImmutable
  | .uncheckedImmutable => .immutable

/-- The contents of a cell of the twin flavour: the layer around a value that nobody checks is put
in or left out. -/
def Contents.twin {β : Type} : Contents β → Contents β
  | .locked v => .uncheckedLocked ⟨v⟩
  | .uncheckedLocked u => .locked u.value
  | .serialized v => .serialized v
  | .immutable c => .unchecked ⟨c.value⟩
  | .unchecked u => .immutable ⟨u.value⟩

/-- The guard that gives the same access to a cell of the twin flavour. -/
def Guard.twin : Guard → Guard
  | .write g => .uncheckedWrite ⟨g⟩
  | .read g => .uncheckedRead ⟨g⟩
  | .serialized g => .serialized g
  | .uncheckedWrite g => .write g.inner
  | .uncheckedRead g => .read g.inner
  | .immutable c => .unchecked c
  | .unchecked c => .immutable c

def Cell.twin (cell : Cell α) : Cell α :=
  { cell with contents := cell.contents.twin }

def Handle.twin (h : Handle) : Handle :=
  { h with kind := h.kind.twin }

def Request.twin (r : Request) : Request :=
  { r with kind := r.kind.twin }

def Event.twin : Event α → Event α
  | .created c f => .created c f.twin
  | .contended t c k => .contended t c k.twin
  | .granted t c k => .granted t c k.twin
  | .destroyed c v => .destroyed c v

namespace World

/-- The world with twins in place of all flavours and kinds. -/
def twin (w : World α) : World α where
  cells := w.cells.map Cell.twin
  requesters := w.requesters
  handles := w.handles.mapValues Handle.twin
  requests := w.requests.map Request.twin
  log := w.log.map Event.twin

/-- The step that makes a cell of the twin flavour; all others are their own twins. -/
def Step.twin : Step α → Step α
  | .create name f v near => .create name f.twin v near
  | s => s

def Reply.twin : Reply α → Reply α
  | .released k => .released k.twin
  | r => r

/-- The world and the answer after the twin of a step. -/
def outcomeTwin (o : World α × Reply α) : World α × Reply α :=
  (o.1.twin, o.2.twin)

end World

/-! ### Flavours and kinds -/

@[simp] theorem HandleKind.twin_twin (k : HandleKind) : k.twin.twin = k := by
  cases k <;> rfl

/-- Twins offer twins. -/
@[simp] theorem Flavour.handle?_twin (f : Flavour) (a : Access) :
    f.twin.handle? a = (f.handle? a).map HandleKind.twin := by
  cases f <;> cases a <;> rfl

@[simp] theorem HandleKind.demand?_twin (k : HandleKind) : k.twin.demand? = k.demand? := by
  cases k <;> rfl

@[simp] theorem HandleKind.mayWrite_twin (k : HandleKind) : k.twin.mayWrite = k.mayWrite := by
  cases k <;> rfl

@[simp] theorem HandleKind.isSerialized_twin (k : HandleKind) :
    k.twin.isSerialized = k.isSerialized := by
  cases k <;> rfl

@[simp] theorem World.Use.allows_twin (u : World.Use) (k : HandleKind) :
    u.allows k.twin = u.allows k := by
  cases u with
  | read => rfl
  | update => exact k.mayWrite_twin
  | overwrite => exact k.isSerialized_twin

@[simp] theorem Request.twin_twin (r : Request) : r.twin.twin = r := by
  simp [Request.twin]

theorem Request.twin_injective : Function.Injective Request.twin :=
  Function.LeftInverse.injective Request.twin_twin

@[simp] theorem Event.destroyed?_twin (e : Event α) : e.twin.destroyed? = e.destroyed? := by
  cases e <;> rfl

/-! ### Layers and ways -/

section layers

variable {β : Type}

/-- New cells of twin flavours are twins. -/
theorem Flavour.contents_twin (f : Flavour) (v : β) : f.twin.contents v = (f.contents v).twin := by
  cases f <;> rfl

@[simp] theorem Contents.flavour_twin (contents : Contents β) :
    contents.twin.flavour = contents.flavour.twin := by
  cases contents <;> rfl

@[simp] theorem Contents.value_twin (contents : Contents β) : contents.twin.value = contents.value := by
  cases contents <;> rfl

theorem Contents.map_twin {γ : Type} (f : β → γ) (contents : Contents β) :
    contents.twin.map f = (contents.map f).twin := by
  cases contents <;> rfl

/-- **The way of a guard leads to the value that the way of its twin leads to**, whatever the cell
contains. -/
theorem Contents.get?_twin (contents : Contents β) (g : Guard) :
    contents.twin.get? g.twin.target.way = contents.get? g.target.way := by
  cases contents <;> cases g <;> rfl

/-- What is put at the ends of these ways makes twins of twins. -/
theorem Contents.put_twin (contents : Contents β) (g : Guard) (v : β) :
    contents.twin.put v g.twin.target.way = (contents.put v g.target.way).twin := by
  cases contents <;> cases g <;> rfl

end layers

namespace Guard

variable (g : Guard)

/-- A guard knows the cell that its twin knows. -/
theorem cell_twin : g.twin.cell = g.cell := by
  cases g <;> rfl

theorem cell_target_twin : g.twin.target.cell = g.target.cell := by
  cases g <;> rfl

/-- A guard leaves the lock as its twin does. -/
theorem demand?_twin : g.twin.demand? = g.demand? := by
  cases g <;> rfl

end Guard

/-- The guards of handles of twin kinds are twins. -/
theorem HandleKind.guard_twin (k : HandleKind) (c : CellId) : k.twin.guard c = (k.guard c).twin := by
  cases k <;> rfl

theorem Handle.guard?_twin (h : Handle) : h.twin.guard? = h.guard?.map Guard.twin := by
  have hgrant : h.twin.grant = h.grant := rfl
  unfold Handle.guard?
  rw [hgrant]
  cases h.grant with
  | none => rfl
  | some c => exact congrArg some (h.kind.guard_twin c)

/-- A guard can be used in some way if its twin can, and leads to its value then. -/
theorem World.Use.place?_twin (u : World.Use) (g : Guard) :
    (u.place? g = none ∧ u.place? g.twin = none) ∨
    (u.place? g = some g.target ∧ u.place? g.twin = some g.twin.target) := by
  cases u <;> cases g <;> first | exact .inl ⟨rfl, rfl⟩ | exact .inr ⟨rfl, rfl⟩

/-! ### Looking at a world -/

namespace World

variable {P : Policy} (w : World α)

@[simp] theorem getElem?_twin (c : CellId) : w.twin.cells[c]? = w.cells[c]?.map Cell.twin :=
  List.getElem?_map

@[simp] theorem get?_twin (key : ThreadId × HandleName) :
    w.twin.handles.get? key = (w.handles.get? key).map Handle.twin :=
  Table.get?_mapValues _ _ _

@[simp] theorem flavour?_twin (c : CellId) : w.twin.flavour? c = (w.flavour? c).map Flavour.twin := by
  unfold flavour?
  rw [getElem?_twin]
  cases w.cells[c]? with
  | none => rfl
  | some cell => exact congrArg some cell.contents.flavour_twin

@[simp] theorem value?_twin (c : CellId) : w.twin.value? c = w.value? c := by
  unfold value?
  rw [getElem?_twin]
  cases w.cells[c]? with
  | none => rfl
  | some cell => exact cell.contents.value_twin

/-- Where a guard leads in the twin world there is what there was. -/
theorem at?_twin (g : Guard) : w.twin.at? g.twin.target = w.at? g.target := by
  unfold at?
  rw [getElem?_twin, g.cell_target_twin]
  cases w.cells[g.target.cell]? with
  | none => rfl
  | some cell => exact congrArg Option.join (cell.contents.get?_twin g)

@[simp] theorem read?_twin (h : Handle) : w.twin.read? h.twin = w.read? h := by
  unfold read?
  rw [h.guard?_twin]
  cases h.guard? with
  | none => rfl
  | some g => exact w.at?_twin g

@[simp] theorem identity_twin (o : Option CellId) : w.twin.identity o = w.identity o := by
  unfold identity
  cases o with
  | none => rfl
  | some c =>
    simp only [Option.bind_some, getElem?_twin]
    cases w.cells[c]? <;> rfl

/-- A handle has the identity of its twin, for their guards know the same cell. -/
@[simp] theorem identityOf_twin (h : Handle) : w.twin.identityOf h.twin = w.identityOf h := by
  unfold identityOf
  rw [identity_twin, h.guard?_twin]
  cases h.guard? with
  | none => rfl
  | some g => exact congrArg (fun c => w.identity (some c)) g.cell_twin

@[simp] theorem isBlocked_twin (t : ThreadId) : w.twin.isBlocked t = w.isBlocked t := by
  unfold isBlocked twin
  rw [List.any_map]
  rfl

@[simp] theorem waiting_twin (c : CellId) : w.twin.waiting c = w.waiting c := by
  unfold waiting twin
  rw [List.filter_map, List.filterMap_map]
  simp only [Function.comp_def, Request.twin, HandleKind.demand?_twin]
  rfl

@[simp] theorem admits_twin (c : CellId) (k : HandleKind) :
    w.twin.admits P c k.twin = w.admits P c k := by
  unfold admits
  rw [HandleKind.demand?_twin, waiting_twin, getElem?_twin]
  cases k.demand? with
  | none => rfl
  | some d => cases w.cells[c]? <;> rfl

@[simp] theorem taken_twin : w.twin.taken = w.taken := by
  have hvalue : ∀ cell : Cell α, cell.twin.value = cell.value := fun cell => cell.contents.value_twin
  unfold taken twin
  rw [List.filter_map, List.map_map]
  simp only [Function.comp_def, hvalue]
  rfl

@[simp] theorem destroyed_twin : w.twin.destroyed = w.destroyed := by
  unfold destroyed twin
  rw [List.filterMap_map]
  simp only [Function.comp_def, Event.destroyed?_twin]

/-! ### Changes of a world -/

/-- Changes of a cell and of its twin that make twins of them. -/
theorem modifyCell_twin {f f' : Cell α → Cell α} (hf : ∀ cell, (f cell).twin = f' cell.twin)
    (c : CellId) : w.twin.modifyCell c f' = (w.modifyCell c f).twin := by
  have hcells : (w.cells.map Cell.twin).modify c f' = (w.cells.modify c f).map Cell.twin := by
    apply List.ext_getElem?
    intro i
    rw [List.getElem?_modify, List.getElem?_map, List.getElem?_map, List.getElem?_modify]
    cases w.cells[i]? with
    | none => rfl
    | some cell =>
      simp only [Option.map_some]
      split
      · exact congrArg some (hf cell).symm
      · rfl
  unfold modifyCell
  rw [show w.twin.cells = w.cells.map Cell.twin from rfl, hcells]
  rfl

/-- What is put where a guard leads, and where its twin does. -/
theorem putAt_twin (g : Guard) (v : α) :
    w.twin.putAt g.twin.target v = (w.putAt g.target v).twin := by
  unfold putAt
  rw [g.cell_target_twin]
  refine w.modifyCell_twin (fun cell => ?_) _
  exact congrArg (Cell.mk · cell.address cell.hold cell.owners)
    (cell.contents.put_twin g (some v)).symm

@[simp] theorem own_twin (c : CellId) : w.twin.own c = (w.own c).twin :=
  w.modifyCell_twin (f := fun cell => { cell with owners := cell.owners + 1 }) (fun _ => rfl) c

@[simp] theorem disown_twin (c : CellId) : w.twin.disown c = (w.disown c).twin := by
  have hfewer : w.twin.modifyCell c (fun cell => { cell with owners := cell.owners - 1 }) =
      (w.modifyCell c fun cell => { cell with owners := cell.owners - 1 }).twin := by
    apply modifyCell_twin
    exact fun _ => rfl
  unfold disown
  rw [getElem?_twin]
  cases w.cells[c]? with
  | none => rfl
  | some cell =>
    simp only [Option.map_some, hfewer]
    have howners : cell.twin.owners = cell.owners := rfl
    have hvalue : cell.twin.value = cell.value := cell.contents.value_twin
    have hfill : ∀ cell : Cell α, (cell.fill none).twin = cell.twin.fill none := fun cell =>
      congrArg (Cell.mk · cell.address cell.hold cell.owners) (cell.contents.map_twin _).symm
    rw [howners, hvalue]
    split
    · rw [modifyCell_twin _ hfill]
      rfl
    · rfl

@[simp] theorem disown?_twin (o : Option CellId) : w.twin.disown? o = (w.disown? o).twin := by
  cases o with
  | none => rfl
  | some c => exact w.disown_twin c

/-- A change of the lock of a cell is the same for handles of the twin kind. -/
theorem relock_twin (f : Hold → Demand → Hold) (c : CellId) (k : HandleKind) :
    w.twin.relock f c k.twin = (w.relock f c k).twin := by
  unfold relock
  rw [HandleKind.demand?_twin]
  cases k.demand? with
  | none => rfl
  | some d =>
    exact w.modifyCell_twin (f := fun cell => { cell with hold := f cell.hold d }) (fun _ => rfl) c

@[simp] theorem surrender_twin (h : Handle) : w.twin.surrender h.twin = (w.surrender h).twin := by
  unfold surrender
  rw [h.guard?_twin]
  cases h.guard? with
  | none => rfl
  | some g =>
    simp only [Option.map_some, g.demand?_twin, g.cell_twin]
    cases g.demand? with
    | none => exact w.disown_twin g.cell
    | some d =>
      have hleave : w.twin.modifyCell g.cell (fun cell => { cell with hold := cell.hold.leave d }) =
          (w.modifyCell g.cell fun cell => { cell with hold := cell.hold.leave d }).twin := by
        apply modifyCell_twin
        exact fun _ => rfl
      simp only [hleave, disown_twin]

@[simp] theorem surrender?_twin (o : Option Handle) :
    w.twin.surrender? (o.map Handle.twin) = (w.surrender? o).twin := by
  cases o with
  | none => rfl
  | some h => exact w.surrender_twin h

/-! ### Tables -/

theorem put_twin (key : ThreadId × HandleName) (h : Handle) :
    { w.twin with handles := w.twin.handles.put key h.twin } =
      ({ w with handles := w.handles.put key h } : World α).twin := by
  unfold twin
  rw [Table.mapValues_put]

theorem erase_twin (key : ThreadId × HandleName) :
    { w.twin with handles := w.twin.handles.erase key } =
      ({ w with handles := w.handles.erase key } : World α).twin := by
  unfold twin
  rw [Table.mapValues_erase]

@[simp] theorem keep_twin (key : ThreadId × HandleName) (h : Handle) :
    w.twin.keep key h.twin = (w.keep key h).twin := by
  unfold keep
  rw [put_twin, get?_twin, surrender?_twin]

@[simp] theorem letIn_twin (t : ThreadId) (name : HandleName) (c : CellId) (k : HandleKind) :
    w.twin.letIn t name c k.twin = (w.letIn t name c k).twin := by
  have henter := w.relock_twin Hold.enter c k
  show ((w.twin.relock Hold.enter c k.twin).note (.granted t c k.twin)).keep (t, name)
      ⟨k.twin, some c⟩ =
    (((w.relock Hold.enter c k).note (.granted t c k)).keep (t, name) ⟨k, some c⟩).twin
  rw [henter, ← keep_twin]
  rfl

theorem request?_twin (t : ThreadId) (phase : Phase) :
    w.twin.request? t phase = (w.request? t phase).map Request.twin := by
  unfold request? twin
  rw [List.find?_map]
  rfl

@[simp] theorem withdraw_twin (r : Request) : w.twin.withdraw r.twin = (w.withdraw r).twin := by
  unfold withdraw twin
  rw [List.map_erase Request.twin_injective]

/-- Who is let in next is the same. -/
theorem next?_twin : w.twin.next? P = (w.next? P).map Request.twin := by
  unfold next?
  rw [show w.twin.requests = w.requests.map Request.twin from rfl, List.find?_map]
  congr 2
  funext r
  show (r.phase = .waiting && (w.twin.withdraw r.twin).admits P r.cell r.kind.twin : Bool) = _
  rw [withdraw_twin, admits_twin]

/-! ### Steps -/

theorem stepAttempt_twin (t : ThreadId) (name : String) (access : Access) (h : HandleName) :
    w.twin.stepAttempt P t name access h = outcomeTwin (w.stepAttempt P t name access h) := by
  unfold stepAttempt
  have hname : w.twin.requesters.get? name = w.requesters.get? name := rfl
  rw [hname]
  cases w.requesters.get? name with
  | none => rfl
  | some c =>
    have hoffer : (w.twin.flavour? c).bind (·.handle? access) =
        ((w.flavour? c).bind (·.handle? access)).map HandleKind.twin := by
      rw [flavour?_twin]
      cases w.flavour? c with
      | none => rfl
      | some f => exact f.handle?_twin access
    simp only [hoffer]
    cases (w.flavour? c).bind (·.handle? access) with
    | none => rfl
    | some k =>
      simp only [Option.map_some, admits_twin, own_twin, letIn_twin]
      split
      · rfl
      · show ((_ : World α), Reply.contended) = (World.twin _, Reply.contended)
        congr 1
        simp [twin, note, Event.twin, Request.twin]

theorem stepEnter_twin (t : ThreadId) (phase : Phase) :
    w.twin.stepEnter P t phase = outcomeTwin (w.stepEnter P t phase) := by
  unfold stepEnter
  rw [request?_twin]
  cases w.request? t phase with
  | none => rfl
  | some r =>
    simp only [Option.map_some, withdraw_twin]
    have hadmits : (w.withdraw r).twin.admits P r.twin.cell r.twin.kind =
        (w.withdraw r).admits P r.cell r.kind := admits_twin _ _ _
    rw [hadmits]
    split
    · exact Prod.ext (letIn_twin _ _ _ _ _) rfl
    · cases phase with
      | waiting => rfl
      | refused =>
        refine Prod.ext ?_ rfl
        simp [outcomeTwin, twin, Request.twin]

theorem stepCreate_twin (name : String) (f : Flavour) (v : α) (near : Nat) :
    w.twin.stepCreate name f.twin v near = outcomeTwin (w.stepCreate name f v near) := by
  refine Prod.ext ?_ rfl
  simp only [stepCreate, outcomeTwin, taken_twin, ← disown?_twin]
  congr 1
  simp [twin, note, Event.twin, Cell.twin, Cell.new, Flavour.contents_twin]

theorem stepClone_twin (name copy : String) :
    w.twin.stepClone name copy = outcomeTwin (w.stepClone name copy) := by
  unfold stepClone
  have hname : ∀ name, w.twin.requesters.get? name = w.requesters.get? name := fun _ => rfl
  simp only [hname]
  cases w.requesters.get? name with
  | none => rfl
  | some c =>
    refine Prod.ext ?_ rfl
    simp only [outcomeTwin, own_twin, ← disown?_twin]
    rfl

theorem stepDropRequester_twin (name : String) :
    w.twin.stepDropRequester name = outcomeTwin (w.stepDropRequester name) := by
  unfold stepDropRequester
  have hname : w.twin.requesters.get? name = w.requesters.get? name := rfl
  rw [hname]
  cases w.requesters.get? name with
  | none => rfl
  | some c =>
    refine Prod.ext ?_ rfl
    simp only [outcomeTwin, ← disown_twin]
    rfl

/-- What is done where the guard of a handle leads is done where that of its twin does. -/
theorem stepAccess_twin (u : Use) (f : α → α) (h : Handle) :
    w.twin.stepAccess u f h.twin = outcomeTwin (w.stepAccess u f h) := by
  unfold stepAccess
  have hallowed : u.allows h.twin.kind = u.allows h.kind := u.allows_twin h.kind
  rw [hallowed, h.guard?_twin]
  split
  · rfl
  · cases h.guard? with
    | none => rfl
    | some g =>
      simp only [Option.map_some]
      rcases u.place?_twin g with ⟨hplace, htwin⟩ | ⟨hplace, htwin⟩
      · rw [hplace, htwin]
        rfl
      · simp only [hplace, htwin, at?_twin]
        cases w.at? g.target with
        | none => rfl
        | some v => exact Prod.ext (w.putAt_twin g (f v)) rfl

/-- What is done with the handle is the same if it is for each handle and its twin. -/
theorem withHandle_twin {t : ThreadId} {h : HandleName} {f f' : Handle → World α × Reply α}
    (hf : ∀ handle, f' handle.twin = outcomeTwin (f handle)) :
    w.twin.withHandle t h f' = outcomeTwin (w.withHandle t h f) := by
  unfold withHandle
  rw [get?_twin]
  cases w.handles.get? (t, h) with
  | none => rfl
  | some handle => exact hf handle

theorem released_twin (h : Handle) : h.twin.released = h.released.twin := rfl

theorem stepThread_twin (s : Step α) :
    w.twin.stepThread P s.twin = outcomeTwin (w.stepThread P s) := by
  cases s with
  | attempt t name access h => exact w.stepAttempt_twin t name access h
  | read t h => exact w.withHandle_twin fun handle => w.stepAccess_twin .read id handle
  | update t h f => exact w.withHandle_twin fun handle => w.stepAccess_twin .update f handle
  | overwrite t h f => exact w.withHandle_twin fun handle => w.stepAccess_twin .overwrite f handle
  | release t h =>
    refine w.withHandle_twin fun handle => Prod.ext ?_ rfl
    simp only [outcomeTwin, released_twin, put_twin, surrender_twin]
  | take t h new =>
    refine w.withHandle_twin fun handle => Prod.ext ?_ rfl
    simp only [outcomeTwin, released_twin, put_twin, keep_twin]
  | move t h new =>
    refine w.withHandle_twin fun handle => ?_
    split
    · rfl
    · refine Prod.ext ?_ rfl
      simp only [outcomeTwin, erase_twin, keep_twin]
  | drop t h =>
    refine w.withHandle_twin fun handle => Prod.ext ?_ rfl
    simp only [outcomeTwin, erase_twin, surrender_twin]
  | create name f v near => rfl
  | cloneRequester name copy => rfl
  | dropRequester name => rfl
  | block t => rfl
  | grant t => rfl

/-- **A step does the same in the twin of a world**, and answers the same up to the kind of a
handle that was released. -/
theorem step_twin (s : Step α) : w.twin.step P s.twin = outcomeTwin (w.step P s) := by
  have hthread : s.twin.thread? = s.thread? := by cases s <;> rfl
  unfold step
  rw [hthread]
  cases s.thread? with
  | some t =>
    simp only [isBlocked_twin]
    split
    · rfl
    · exact w.stepThread_twin s
  | none =>
    cases s with
    | create name f v near => exact w.stepCreate_twin name f v near
    | cloneRequester name copy => exact w.stepClone_twin name copy
    | dropRequester name => exact w.stepDropRequester_twin name
    | block t => exact w.stepEnter_twin t .refused
    | grant t => exact w.stepEnter_twin t .waiting
    | _ => rfl

/-- **A run goes the same way** when each cell is made with the twin flavour. -/
theorem run_twin : ∀ (ss : List (Step α)) (w : World α),
    w.twin.run P (ss.map Step.twin) = (w.run P ss).twin
  | [], _ => rfl
  | s :: ss, w => by
    have hstep : (w.twin.step P s.twin).1 = (w.step P s).1.twin := by rw [step_twin]; rfl
    show run P (w.twin.step P s.twin).1 (ss.map Step.twin) = (run P (w.step P s).1 ss).twin
    rw [hstep, run_twin ss]

end World

/-! ### What is seen of both worlds -/

/-- The texts are the same, but that one has a name where the other has the other name. -/
def SameUpTo (name name' text text' : String) : Prop :=
  ∃ front back, text = front ++ name ++ back ∧ text' = front ++ name' ++ back

theorem sameUpTo_names (name name' : String) : SameUpTo name name' name name' :=
  ⟨"", "", by simp, by simp⟩

theorem SameUpTo.append {name name' text text' : String} (h : SameUpTo name name' text text')
    (s : String) : SameUpTo name name' (text ++ s) (text' ++ s) := by
  obtain ⟨front, back, rfl, rfl⟩ := h
  exact ⟨front, back ++ s, String.append_assoc .., String.append_assoc ..⟩

theorem SameUpTo.prepend {name name' text text' : String} (h : SameUpTo name name' text text')
    (s : String) : SameUpTo name name' (s ++ text) (s ++ text') := by
  obtain ⟨front, back, rfl, rfl⟩ := h
  exact ⟨s ++ front, back, by simp only [String.append_assoc], by simp only [String.append_assoc]⟩

/-- What a handle shows whose type is called that, and which reads that, if anything. -/
def shownAs (name : String) : Option Shown → Shown
  | some s => .tuple name [s]
  | none => .atom (name ++ "(<released>)")

theorem shown_eq (draw : α → Shown) (w : World α) (h : Handle) :
    w.shown draw h = shownAs h.kind.name ((w.read? h).map draw) := by
  unfold World.shown
  cases w.read? h <;> rfl

/-- The name of its type stands in front of all else that a handle shows. -/
theorem render_shownAs (f : Format) (name : String) (o : Option Shown) :
    (shownAs name o).render f = name ++ (shownAs "" o).render f := by
  unfold Shown.render
  cases o <;> split <;>
    simp only [shownAs, Shown.tall, Shown.flat, String.append_assoc, String.empty_append]

theorem render_partly (f : Format) (name : String) (parts : List (String × Shown)) :
    (Shown.partly name parts).render f = name ++ (Shown.partly "" parts).render f := by
  unfold Shown.render
  split <;> simp only [Shown.tall, Shown.flat, String.append_assoc, String.empty_append]

/-- What a locked handle has by its guard: the cell, which is there, its value, its identity, and
the part of its lock that is due to the kind of the handle. -/
structure Handle.Has (w : World α) (h : Handle) (c : CellId) (cell : Cell α) (v : α) : Prop where
  there : w.cells[c]? = some cell
  value : cell.value = some v
  reads : w.read? h = some v
  identity : w.identityOf h = ⟨cell.address⟩
  held : cell.hold.HeldAs h.kind.demand?

/-- Two handles, each in a world of its own, answer the same up to the name of their type. -/
structure Handle.Alike (w w' : World α) (h h' : Handle) : Prop where
  kind : h'.kind = h.kind.twin
  valid : h'.isValid = h.isValid
  reads : w'.read? h' = w.read? h
  identity : w'.identityOf h' = w.identityOf h
  /-- If they are locked, each by its own guard has its cell and what is in it. -/
  locked : ∀ c, h.grant = some c →
    h'.grant = some c ∧ ∃ cell v, h.Has w c cell v ∧ h'.Has w' c cell.twin v
  /-- If they are released, neither has anything. -/
  released : h.grant = none →
    w.read? h = none ∧ w'.read? h' = none ∧ w.identityOf h = ⟨0⟩ ∧ w'.identityOf h' = ⟨0⟩
  shown : ∀ (draw : α → Shown) (f : Format), SameUpTo h.kind.name h'.kind.name
    ((w.shown draw h).render f) ((w'.shown draw h').render f)

/-- Two worlds are in the same state, up to the layers of cells and the kinds of handles, and
answer each step the same. -/
structure World.Alike (P : Policy) (w w' : World α) : Prop where
  /-- Granted, refused, waiting, a value, or done: the answer is the same, up to the kind of a
  handle that is released. -/
  answer : ∀ s, (w'.step P s.twin).2 = (w.step P s).2.twin
  /-- The same request is let in next. -/
  next : w'.next? P = (w.next? P).map Request.twin
  requests : w'.requests = w.requests.map Request.twin
  blocked : ∀ t, w'.isBlocked t = w.isBlocked t
  requesters : w'.requesters = w.requesters
  /-- The locks are held alike, and the cells have as many owners. -/
  cells : ∀ c : CellId, w'.cells[c]? = w.cells[c]?.map Cell.twin
  value : ∀ c, w'.value? c = w.value? c
  /-- What is compared and hashed is the same. -/
  identity : ∀ o, w'.identity o = w.identity o
  handles : ∀ key, Option.Rel (Handle.Alike w w') (w.handles.get? key) (w'.handles.get? key)
  /-- The same happened, and the same values are destroyed. -/
  log : w'.log = w.log.map Event.twin
  destroyed : w'.destroyed = w.destroyed

/-- In a reachable world a locked handle has what its guard gives access to. -/
theorem World.Reachable.has {w : World α} (hw : w.Reachable) {key : HandleKey} {h : Handle}
    (hh : w.handles.get? key = some h) {c : CellId} (hg : h.grant = some c) :
    ∃ cell v, h.Has w c cell v := by
  obtain ⟨v, hv⟩ := hw.read_of_grant hh hg
  have hvalue : w.value? c = some v := by
    rwa [hw.read?_eq hh, hg] at hv
  obtain ⟨cell, hc, hcell⟩ := World.value?_eq_some hvalue
  refine ⟨cell, v, hc, hcell, hv, ?_, hw.heldAs hc hh hg⟩
  rw [World.identityOf_of_some hg, World.identity_of_cell hc]

/-- A handle that has a cell has the twin of the cell in the twin world. -/
theorem Handle.Has.twin {w : World α} {h : Handle} {c : CellId} {cell : Cell α} {v : α}
    (hhas : h.Has w c cell v) : h.twin.Has w.twin c cell.twin v where
  there := by rw [World.getElem?_twin, hhas.there]; rfl
  value := cell.contents.value_twin.trans hhas.value
  reads := (w.read?_twin h).trans hhas.reads
  identity := (w.identityOf_twin h).trans hhas.identity
  held := by
    have hdemand : h.twin.kind.demand? = h.kind.demand? := h.kind.demand?_twin
    rw [hdemand]
    exact hhas.held

theorem Handle.alike_twin {w : World α} (hw : w.Reachable) {key : HandleKey} {h : Handle}
    (hh : w.handles.get? key = some h) : Handle.Alike w w.twin h h.twin where
  kind := rfl
  valid := rfl
  reads := w.read?_twin h
  identity := w.identityOf_twin h
  locked c hg := by
    obtain ⟨cell, v, hhas⟩ := hw.has hh hg
    exact ⟨hg, cell, v, hhas, hhas.twin⟩
  released hg := by
    have hgrant : h.twin.grant = none := hg
    exact ⟨World.read?_of_none hg, World.read?_of_none hgrant, World.identityOf_of_none hg w,
      World.identityOf_of_none hgrant w.twin⟩
  shown draw f := by
    rw [shown_eq, shown_eq, World.read?_twin, render_shownAs, render_shownAs f h.twin.kind.name]
    exact (sameUpTo_names _ _).append _

theorem World.alike_twin (P : Policy) {w : World α} (hw : w.Reachable) : World.Alike P w w.twin where
  answer s := by
    rw [step_twin]
    rfl
  next := w.next?_twin
  requests := rfl
  blocked := w.isBlocked_twin
  requesters := rfl
  cells := w.getElem?_twin
  value := w.value?_twin
  identity := w.identity_twin
  handles key := by
    rw [get?_twin]
    cases hh : w.handles.get? key with
    | none => exact .none
    | some h => exact .some (Handle.alike_twin hw hh)
  log := rfl
  destroyed := w.destroyed_twin

theorem releasedAccess_sameUpTo (shape : Shape) (k : HandleKind) :
    SameUpTo k.name k.twin.name (Session.releasedAccess shape k).message
      (Session.releasedAccess shape k.twin).message := by
  have hpath : SameUpTo k.name k.twin.name
      ("rc_shared::handle::" ++ k.name ++ "<" ++ shape.typeName ++ ">")
      ("rc_shared::handle::" ++ k.twin.name ++ "<" ++ shape.typeName ++ ">") :=
    (((sameUpTo_names _ _).prepend _).append _ |>.append _).append _
  exact hpath.prepend _

/-- What a session says of a requester of a flavour. -/
theorem debugRequester_twin {s s' : Session.State} (hs : s'.world = s.world.twin) {m : Message}
    {text : String} (ht : Session.debugRequester s m = .ok (.text text)) :
    ∃ c f text', s.world.requesters.get? (m.textAt "r") = some c ∧ s.world.flavour? c = some f ∧
      Session.debugRequester s' m = .ok (.text text') ∧
      SameUpTo f.requesterName f.twin.requesterName text text' := by
  have hrequesters : s'.world.requesters = s.world.requesters := by
    rw [hs]
    rfl
  unfold Session.debugRequester Session.requester? at ht ⊢
  rw [hrequesters]
  cases hc : s.world.requesters.get? (m.textAt "r") with
  | none =>
    rw [hc] at ht
    cases ht
  | some c =>
    rw [hc] at ht
    simp only at ht ⊢
    rw [hs, World.flavour?_twin]
    cases hf : s.world.flavour? c with
    | none =>
      rw [hf] at ht
      cases ht
    | some f =>
      rw [hf] at ht
      have htext := (Message.text.inj (Except.ok.inj ht)).symm
      refine ⟨c, f, _, rfl, hf, rfl, ?_⟩
      rw [htext, render_partly, render_partly _ f.twin.requesterName]
      exact (sameUpTo_names _ _).append _

/-- **A cell whose value nobody checks cannot be told from one whose value is checked.** Let any
number of threads make the same steps in the same order, once with cells of some flavours and once
with cells of their twins. Then after any number of steps each next step is answered the same, the
same requests wait and the same is let in next, and the same values are destroyed. Each handle is
locked in both runs or in none. If it is, its guard in either run leads to the value of the cell,
knows the address of the cell and holds the lock of the cell, and these are the same in both; if
it is not, it has nothing in either. The error of a handle that was released, and what handles and
requesters show of themselves, are the same up to the name of the type. -/
theorem World.run_alike (P : Policy) (ss : List (World.Step α)) :
    World.Alike P (World.run P .empty ss) (World.run P .empty (ss.map World.Step.twin)) ∧
    (∀ (shape : Shape) (k : HandleKind), SameUpTo k.name k.twin.name
      (Session.releasedAccess shape k).message (Session.releasedAccess shape k.twin).message) ∧
    ∀ (s s' : Session.State) (m : Message) (text : String), s'.world = s.world.twin →
      Session.debugRequester s m = .ok (.text text) →
      ∃ c f text', s.world.requesters.get? (m.textAt "r") = some c ∧ s.world.flavour? c = some f ∧
        Session.debugRequester s' m = .ok (.text text') ∧
        SameUpTo f.requesterName f.twin.requesterName text text' := by
  refine ⟨?_, releasedAccess_sameUpTo, fun s s' m text hs ht => debugRequester_twin hs ht⟩
  have hempty : (World.empty : World α).twin = .empty := rfl
  have hrun := World.run_twin (P := P) ss (.empty : World α)
  rw [hempty] at hrun
  rw [hrun]
  exact World.alike_twin P (.run P ss .empty)

end Custody.Shared
