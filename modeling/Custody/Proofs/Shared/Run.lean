/-
# Steps are edits

Whatever a thread or a lock does, the world goes through edits only, and between the
steps nothing is in hand and nothing is owed. The policy of the locks may be another
one at each step, as long as each is sound, and any request that waits may be let
in; so whatever holds of all reachable worlds holds for every order in which threads
take turns.

Key definitions: `World.Reachable`.
Key theorems: `step_edits`, `Reachable.sound`, `Reachable.induct`.
-/
import Custody.Proofs.Shared.Guards

namespace Custody.Shared

variable {α : Type} {w : World α} {hand : List Handle} {owed : List CellId} {P : Policy}

/-! ### Going away -/

theorem edit_disown {c : CellId} (hs : Sound ⟨w, hand, c :: owed⟩) :
    Edit ⟨w, hand, c :: owed⟩ ⟨w.disown c, hand, owed⟩ := by
  obtain ⟨cell, hc⟩ : ∃ cell, w.cells[c]? = some cell := ⟨_, List.getElem?_eq_getElem hs.owed_lt⟩
  by_cases hn : cell.owners = 1
  · have hf := hs.cells c cell hc
    have hvalue : cell.value.isSome := by
      rw [hf.alive, ← hf.owners, hn]
      exact Nat.one_pos
    obtain ⟨v, hv⟩ := Option.isSome_iff_exists.mp hvalue
    exact .destroy hc hn hv
  · exact .leave hc hn

theorem edits_disown? {o : Option CellId} (hs : Sound ⟨w, hand, o.toList ++ owed⟩) :
    Edits ⟨w, hand, o.toList ++ owed⟩ ⟨w.disown? o, hand, owed⟩ := by
  cases o with
  | none => exact .refl
  | some c => exact .single (edit_disown hs)

theorem World.surrender_eq {h : Handle} {c : CellId} (hg : h.grant = some c) (w : World α) :
    w.surrender h = (w.quit c h.kind).disown c := by
  unfold World.surrender World.quit World.relock
  rw [Handle.guard?_of_some hg]
  simp only [HandleKind.demand?_guard, HandleKind.cell_guard]
  cases h.kind.demand? <;> rfl

theorem World.surrender_of_none {h : Handle} (hg : h.grant = none) (w : World α) :
    w.surrender h = w := by
  unfold World.surrender
  rw [Handle.guard?_of_none hg]

theorem edits_surrender {h : Handle} (hs : Sound ⟨w, h :: hand, owed⟩) :
    Edits ⟨w, h :: hand, owed⟩ ⟨w.surrender h, hand, owed⟩ := by
  cases hg : h.grant with
  | none =>
    rw [World.surrender_of_none hg]
    exact .single (.scrap hg)
  | some c =>
    rw [World.surrender_eq hg]
    have hunlock : Edit ⟨w, h :: hand, owed⟩ ⟨w.quit c h.kind, hand, c :: owed⟩ := .unlock hg
    exact .tail (.single hunlock) (edit_disown (hunlock.sound hs))

theorem edits_surrender? {o : Option Handle} (hs : Sound ⟨w, o.toList ++ hand, owed⟩) :
    Edits ⟨w, o.toList ++ hand, owed⟩ ⟨w.surrender? o, hand, owed⟩ := by
  cases o with
  | none => exact .refl
  | some h => exact edits_surrender hs

/-! ### Handles that are stored -/

theorem edits_keep {key : ThreadId × HandleName} {h : Handle} (hs : Sound ⟨w, h :: hand, owed⟩) :
    Edits ⟨w, h :: hand, owed⟩ ⟨w.keep key h, hand, owed⟩ := by
  have hstore : Edit ⟨w, h :: hand, owed⟩
    ⟨{ w with handles := w.handles.put key h }, (w.handles.get? key).toList ++ hand, owed⟩ :=
    .store key h
  exact .head hstore (edits_surrender? (hstore.sound hs))

/-- What a sound policy admits is allowed by the lock. -/
theorem allows_of_admits {c : CellId} {k : HandleKind} (ha : w.admits P c k = true) {d : Demand}
    (hd : k.demand? = some d) {cell : Cell α} (hc : w.cells[c]? = some cell) :
    cell.hold.allows d = true := by
  unfold World.admits at ha
  rw [hd] at ha
  simp only [hc] at ha
  exact P.sound _ _ _ ha

theorem edits_letIn {t : ThreadId} {name : HandleName} {c : CellId} {k : HandleKind}
    (hs : Sound ⟨w, hand, c :: owed⟩) (hk : w.Offers c k)
    (ok : ∀ d, k.demand? = some d → ∀ cell, w.cells[c]? = some cell → cell.hold.allows d = true) :
    Edits ⟨w, hand, c :: owed⟩ ⟨w.letIn t name c k, hand, owed⟩ := by
  have hlock : Edit ⟨w, hand, c :: owed⟩ ⟨w.enter c k, ⟨k, some c⟩ :: hand, owed⟩ := .lock hk ok
  have hgrant : Edits ⟨w, hand, c :: owed⟩
      ⟨(w.enter c k).note (.granted t c k), ⟨k, some c⟩ :: hand, owed⟩ :=
    .tail (.single hlock) (.remark rfl)
  exact hgrant.trans (edits_keep (hgrant.sound hs))

/-! ### Requests -/

/-- The cell of a requester has its value. -/
theorem Sound.isSome_of_requester (hs : Sound ⟨w, hand, owed⟩) {name : String} {c : CellId}
    (hc : w.requesters.get? name = some c) : (w.value? c).isSome := by
  have hpos : 0 < (⟨w, hand, owed⟩ : Draft α).keepers c := by
    have : 0 < w.requesters.values.countP (· = c) :=
      List.countP_pos_iff.mpr ⟨c, Table.mem_values_of_get? hc, by simp⟩
    rw [keepers_eq]
    omega
  have hcell := List.getElem?_eq_getElem (hs.there c hpos)
  have halive := (hs.cells c _ hcell).alive.mpr hpos
  simpa [World.value?, hcell] using halive

theorem offers_own (c c' : CellId) (k : HandleKind) : (w.own c).Offers c' k ↔ w.Offers c' k :=
  offers_modifyCell (f := fun cell => { cell with owners := cell.owners + 1 }) (fun _ => rfl) c' k

theorem stepAttempt_edits (hs : Sound ⟨w, [], []⟩) (t : ThreadId) (name : String) (access : Access)
    (h : HandleName) :
    Edits ⟨w, [], []⟩ ⟨(w.stepAttempt P t name access h).1, [], []⟩ := by
  unfold World.stepAttempt
  split
  · exact .refl
  · rename_i c hc
    split
    · exact .refl
    · rename_i k hk
      have hown : Edit ⟨w, [], []⟩ ⟨w.own c, [], [c]⟩ := .own (hs.isSome_of_requester hc)
      have hoffers : (w.own c).Offers c k := (offers_own c c k).mpr ⟨access, hk⟩
      simp only
      split
      · rename_i hadmits
        refine .head hown (edits_letIn (hown.sound hs) hoffers fun d hd cell hcell => ?_)
        -- owning a cell changes nothing about its lock
        unfold World.own at hcell
        rw [getElem?_modifyCell, if_pos rfl] at hcell
        obtain ⟨cell₀, hcell₀, rfl⟩ := Option.map_eq_some_iff.mp hcell
        have hallows := allows_of_admits hadmits hd hcell₀
        exact hallows
      · have hask : Edit ⟨w.own c, [], [c]⟩ _ := .ask ⟨t, h, c, k, .refused⟩ hoffers
        exact .head hown (.tail (.single hask) (.remark rfl))

theorem stepEnter_edits (hs : Sound ⟨w, [], []⟩) (t : ThreadId) (phase : Phase) :
    Edits ⟨w, [], []⟩ ⟨(w.stepEnter P t phase).1, [], []⟩ := by
  unfold World.stepEnter
  split
  · exact .refl
  · rename_i r hr
    have hmem : r ∈ w.requests := List.mem_of_find?_eq_some hr
    have hwithdraw : Edit ⟨w, [], []⟩ ⟨w.withdraw r, [], [r.cell]⟩ := .withdraw hmem
    have hoffers : (w.withdraw r).Offers r.cell r.kind := hs.asked r hmem
    simp only
    split
    · rename_i hadmits
      exact .head hwithdraw (edits_letIn (hwithdraw.sound hs) hoffers
        fun d hd cell hcell => allows_of_admits hadmits hd hcell)
    · split
      · exact .refl
      · have hask : Edit ⟨w.withdraw r, [], [r.cell]⟩ _ := .ask { r with phase := .waiting } hoffers
        exact .head hwithdraw (.single hask)

/-! ### Requesters -/

theorem stepCreate_edits (hs : Sound ⟨w, [], []⟩) (name : String) (f : Flavour) (v : α) (near : Nat) :
    Edits ⟨w, [], []⟩ ⟨(w.stepCreate name f v near).1, [], []⟩ := by
  have hmake : Edit ⟨w, [], []⟩
      ⟨{ w with cells := w.cells ++ [.new f v (freeAddress w.taken near)] }, [],
        [w.cells.length]⟩ := .make f (freeAddress w.taken near) v
  have hmade : Edits ⟨w, [], []⟩ _ := .tail (.single hmake) (.register name w.cells.length)
  have hnoted := hmade.tail (.remark (e := .created w.cells.length f) rfl)
  exact hnoted.trans (edits_disown? (Edits.sound hnoted hs))

theorem stepClone_edits (hs : Sound ⟨w, [], []⟩) (name copy : String) :
    Edits ⟨w, [], []⟩ ⟨(w.stepClone name copy).1, [], []⟩ := by
  unfold World.stepClone
  split
  · exact .refl
  · rename_i c hc
    have hown : Edit ⟨w, [], []⟩ ⟨w.own c, [], [c]⟩ := .own (hs.isSome_of_requester hc)
    have hcopy : Edits ⟨w, [], []⟩ _ := .tail (.single hown) (.register copy c)
    exact hcopy.trans (edits_disown? (hcopy.sound hs))

theorem stepDropRequester_edits (hs : Sound ⟨w, [], []⟩) (name : String) :
    Edits ⟨w, [], []⟩ ⟨(w.stepDropRequester name).1, [], []⟩ := by
  unfold World.stepDropRequester
  split
  · exact .refl
  · rename_i c hc
    have herase : Edit ⟨w, [], []⟩ _ := .unregister hc
    exact .tail (.single herase) (edit_disown (herase.sound hs))

/-! ### Steps with a handle -/

theorem stepAccess_edits (u : World.Use) (f : α → α) (h : Handle) :
    Edits ⟨w, [], []⟩ ⟨(w.stepAccess u f h).1, [], []⟩ := by
  rcases w.stepAccess_cases u f h with ⟨r, heq, -⟩ | ⟨c, v, -, -, hv, heq⟩
  · rw [heq]
  · rw [heq]
    exact .single (.write (f v) hv)

theorem withHandle_edits {t : ThreadId} {h : HandleName} {f : Handle → World α × World.Reply α}
    (hf : ∀ handle, w.handles.get? (t, h) = some handle →
      Edits ⟨w, [], []⟩ ⟨(f handle).1, [], []⟩) :
    Edits ⟨w, [], []⟩ ⟨(w.withHandle t h f).1, [], []⟩ := by
  unfold World.withHandle
  split
  · exact .refl
  · rename_i handle hh
    exact hf handle hh

/-- A handle is taken out, and a released one is left in its place. -/
theorem edits_empty {key : ThreadId × HandleName} {handle : Handle}
    (hh : w.handles.get? key = some handle) :
    Edits ⟨w, [], []⟩ ⟨{ w with handles := w.handles.put key handle.released }, [handle], []⟩ := by
  have hstore : Edit ⟨w, [handle.released], []⟩
      ⟨{ w with handles := w.handles.put key handle.released },
        (w.handles.get? key).toList ++ [], []⟩ := .store key handle.released
  rw [hh] at hstore
  exact .head (.shell rfl) (.single hstore)

theorem stepThread_edits (hs : Sound ⟨w, [], []⟩) (s : World.Step α) :
    Edits ⟨w, [], []⟩ ⟨(w.stepThread P s).1, [], []⟩ := by
  cases s with
  | attempt t name access h => exact stepAttempt_edits hs t name access h
  | read t h => exact withHandle_edits fun handle _ => stepAccess_edits _ _ handle
  | update t h f => exact withHandle_edits fun handle _ => stepAccess_edits _ _ handle
  | overwrite t h f => exact withHandle_edits fun handle _ => stepAccess_edits _ _ handle
  | release t h =>
    refine withHandle_edits fun handle hh => ?_
    have hempty := edits_empty hh
    exact hempty.trans (edits_surrender (hempty.sound hs))
  | take t h new =>
    refine withHandle_edits fun handle hh => ?_
    have hempty := edits_empty hh
    exact hempty.trans (edits_keep (hempty.sound hs))
  | move t h new =>
    refine withHandle_edits fun handle hh => ?_
    split
    · exact .refl
    · have hfetch : Edit ⟨w, [], []⟩ _ := .fetch hh
      exact .head hfetch (edits_keep (hfetch.sound hs))
  | drop t h =>
    refine withHandle_edits fun handle hh => ?_
    have hfetch : Edit ⟨w, [], []⟩ _ := .fetch hh
    exact .head hfetch (edits_surrender (hfetch.sound hs))
  | create name f v near => exact .refl
  | cloneRequester name copy => exact .refl
  | dropRequester name => exact .refl
  | block t => exact .refl
  | grant t => exact .refl

/-- **A step is edits.** -/
theorem step_edits (hs : Sound ⟨w, [], []⟩) (s : World.Step α) :
    Edits ⟨w, [], []⟩ ⟨(w.step P s).1, [], []⟩ := by
  unfold World.step
  split
  · split
    · exact .refl
    · exact stepThread_edits hs s
  · split
    · exact stepCreate_edits hs _ _ _ _
    · exact stepClone_edits hs _ _
    · exact stepDropRequester_edits hs _
    · exact stepEnter_edits hs _ _
    · exact stepEnter_edits hs _ _
    · exact .refl

/-! ### Reachable worlds -/

/-- The worlds that are met when threads take turns in any order, under sound policies. -/
inductive World.Reachable : World α → Prop
  | empty : Reachable .empty
  | step {w : World α} (P : Policy) (s : World.Step α) : Reachable w → Reachable (w.step P s).1

theorem run_append (P : Policy) : ∀ (before after : List (World.Step α)) (w : World α),
    w.run P (before ++ after) = (w.run P before).run P after
  | [], _, _ => rfl
  | s :: before, after, w => run_append P before after (w.step P s).1

theorem World.Reachable.run (P : Policy) : ∀ (ss : List (World.Step α)) {w : World α},
    w.Reachable → (w.run P ss).Reachable
  | [], _, hw => hw
  | s :: ss, _, hw => World.Reachable.run P ss (.step P s hw)

theorem sound_empty : Sound (⟨.empty, [], []⟩ : Draft α) := by
  refine ⟨.nil, .nil, fun c cell hc => ?_, fun c hc => ?_, fun h hh => ?_, fun r hr => ?_⟩
  · simp [World.empty] at hc
  · simp [Draft.keepers, Draft.handles, World.empty, Table.values] at hc
  · simp [Draft.handles, World.empty, Table.values] at hh
  · simp [World.empty] at hr

/-- **Every reachable world is sound.** -/
theorem World.Reachable.sound (hw : w.Reachable) : Sound ⟨w, [], []⟩ := by
  induction hw with
  | empty => exact sound_empty
  | step P s _ ih => exact (step_edits ih s).sound ih

/-- In a reachable world each handle reads the value of its cell. -/
theorem World.Reachable.read?_eq (hw : w.Reachable) {key : ThreadId × HandleName} {h : Handle}
    (hh : w.handles.get? key = some h) : w.read? h = h.grant.bind w.value? :=
  hw.sound.read?_eq (mem_handles.mpr (.inl (Table.mem_values_of_get? hh)))

/-- What holds of the world without cells, and is preserved by each edit of a sound draft,
holds of every reachable world. -/
theorem World.Reachable.induct {Q : Draft α → Prop} (hempty : Q ⟨.empty, [], []⟩)
    (hedit : ∀ {d d' : Draft α}, Sound d → Edit d d' → Q d → Q d') (hw : w.Reachable) :
    Q ⟨w, [], []⟩ := by
  induction hw with
  | empty => exact hempty
  | step P s h ih => exact Edits.induct hedit (step_edits h.sound s) h.sound ih

end Custody.Shared
