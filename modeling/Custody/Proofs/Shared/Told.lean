/-
# Annals tell the truth

One who has exclusive access to a cell is alone with it, so nothing is changed in a
tenure after a later one of the same cell has begun. What the annals say of access is
what the handles say, and each value is what the changes in the exclusive tenures made
of the one that its cell was made with.

Key definitions: `Annals.Begun`, `Told`.
Key theorems: `Reachable.alone`, `Told.change`, `Told.turn`, `History.told`.
-/
import Custody.Proofs.Shared.Turns

namespace Custody.Shared

variable {α : Type} {w w' : World α} {A A' : Annals α} {key key' : ThreadId × HandleName}
  {c : CellId} {k k' : HandleKind} {i : Nat} {T : Tenure α}

/-! ### One who is alone -/

/-- What has a lock has one for all kinds of handles. -/
theorem demand?_ne_none {f : Flavour} {a a' : Access} (ha : f.handle? a = some k)
    (ha' : f.handle? a' = some k') (hd : k.demand? ≠ none) : k'.demand? ≠ none := by
  cases f <;> cases a <;> cases a' <;> cases ha <;> cases ha' <;>
    first | exact hd | decide

theorem World.Reachable.exists_cell (hw : w.Reachable) (h : w.access? key = some (c, k)) :
    ∃ cell, w.cells[c]? = some cell := by
  rw [World.access?_eq_some] at h
  have hlt : c < w.cells.length := hw.lt_of_kept (.inl (.inr ⟨key, _, h, rfl⟩))
  exact ⟨_, List.getElem?_eq_getElem hlt⟩

/-- **One who has exclusive access to a cell is the only one who has access to it.** -/
theorem World.Reachable.alone (hw : w.Reachable) (h : w.access? key = some (c, k))
    (hd : k.demand? = some .exclusive) (h' : w.access? key' = some (c, k')) : key' = key := by
  obtain ⟨cell, hc⟩ := hw.exists_cell h
  rw [World.access?_eq_some] at h h'
  obtain ⟨a, ha⟩ := hw.offered hc (Table.mem_values_of_get? h) rfl
  obtain ⟨a', ha'⟩ := hw.offered hc (Table.mem_values_of_get? h') rfl
  have hlocks : k'.demand? ≠ none := demand?_ne_none ha ha' (by simp [hd])
  exact (hw.eq_of_exclusive hc h h' rfl rfl hd hlocks).symm

/-! ### What the annals say of access -/

namespace Annals

theorem access?_eq_some : A.access? key = some (c, k) ↔
    ∃ i T, A.current.get? key = some i ∧ A.tenures[i]? = some T ∧ T.cell = c ∧ T.kind = k := by
  unfold Annals.access?
  constructor
  · intro h
    obtain ⟨i, hi, hT⟩ := Option.bind_eq_some_iff.mp h
    obtain ⟨T, hT, heq⟩ := Option.map_eq_some_iff.mp hT
    exact ⟨i, T, hi, hT, (Prod.mk.inj heq).1, (Prod.mk.inj heq).2⟩
  · rintro ⟨i, T, hi, hT, rfl, rfl⟩
    rw [hi, Option.bind_some, hT]
    rfl

/-- All tenures that go on have begun. -/
def Begun (A : Annals α) : Prop :=
  ∀ key i, A.current.get? key = some i → i < A.tenures.length

theorem access?_of_tenure (hi : A.current.get? key = some i) (hT : A.tenures[i]? = some T) :
    A.access? key = some (T.cell, T.kind) :=
  access?_eq_some.mpr ⟨i, T, hi, hT, rfl, rfl⟩

theorem get?_enroll (A : Annals α) (key : ThreadId × HandleName) (c : CellId) (k : HandleKind) :
    (A.enroll key c k).current.get? key' =
      if key' = key then some A.tenures.length else A.current.get? key' :=
  Table.get?_put ..

theorem tenures_enroll (A : Annals α) (key : ThreadId × HandleName) (c : CellId) (k : HandleKind) :
    (A.enroll key c k).tenures = A.tenures ++ [⟨c, k, []⟩] := rfl

/-- A tenure in which nothing was changed yet. -/
theorem chronicle_enroll (A : Annals α) (key : ThreadId × HandleName) (c : CellId) (k : HandleKind)
    (c' : CellId) : chronicle c' (A.enroll key c k).tenures = chronicle c' A.tenures := by
  have hnone : chronicle c' [(⟨c, k, []⟩ : Tenure α)] = [] := by
    apply chronicle_eq_nil
    intro T hT _
    obtain rfl := List.mem_singleton.mp hT
    rfl
  rw [tenures_enroll, chronicle_append, hnone, List.append_nil]

theorem tenures_finish (A : Annals α) (key : ThreadId × HandleName) :
    (A.finish key).tenures = A.tenures := rfl

theorem get?_finish (A : Annals α) (key : ThreadId × HandleName) :
    (A.finish key).current.get? key' = if key' = key then none else A.current.get? key' :=
  Table.get?_erase ..

theorem get?_pass (A : Annals α) (key new : ThreadId × HandleName) :
    (A.pass key new).current.get? key' =
      if key' = new then A.current.get? key
      else if key' = key then none else A.current.get? key' := by
  unfold Annals.pass
  cases hi : A.current.get? key with
  | none => rw [Table.get?_erase, Table.get?_erase]
  | some i => rw [Table.get?_put, Table.get?_erase]

/-- A tenure that goes on when another has ended. -/
theorem current_of_finish (hi : (A.finish key).current.get? key' = some i) :
    ∃ key, A.current.get? key = some i := by
  rw [get?_finish] at hi
  split at hi
  · simp at hi
  · exact ⟨key', hi⟩

/-- A tenure that goes on when one has another handle. -/
theorem current_of_pass {new : ThreadId × HandleName}
    (hi : (A.pass key new).current.get? key' = some i) : ∃ key, A.current.get? key = some i := by
  rw [get?_pass] at hi
  split at hi
  · exact ⟨key, hi⟩
  · split at hi
    · simp at hi
    · exact ⟨key', hi⟩

theorem tenures_pass (A : Annals α) (key new : ThreadId × HandleName) :
    (A.pass key new).tenures = A.tenures := by
  unfold Annals.pass
  split <;> rfl

theorem origins_pass (A : Annals α) (key new : ThreadId × HandleName) :
    (A.pass key new).origins = A.origins := by
  unfold Annals.pass
  split <;> rfl

theorem record_of_current (hi : A.current.get? key = some i) (f : α → α) :
    A.record key f = { A with tenures := A.tenures.modify i (Tenure.record f) } := by
  unfold Annals.record
  rw [hi]

/-- A change leaves the cells and kinds of tenures as they are. -/
theorem map_modify_record (Ts : List (Tenure α)) (i j : Nat) (f : α → α) :
    ((Ts.modify i (Tenure.record f))[j]?).map (fun T => (T.cell, T.kind)) =
      (Ts[j]?).map fun T => (T.cell, T.kind) := by
  rw [List.getElem?_modify]
  split <;> cases Ts[j]? <;> rfl

theorem exists_of_modify_record {Ts : List (Tenure α)} {j : Nat} {f : α → α}
    (hT : (Ts.modify i (Tenure.record f))[j]? = some T) :
    ∃ T₀, Ts[j]? = some T₀ ∧ T₀.cell = T.cell ∧ T₀.kind = T.kind := by
  have hsame := map_modify_record Ts i j f
  rw [hT] at hsame
  obtain ⟨T₀, hT₀, heq⟩ := Option.map_eq_some_iff.mp hsame.symm
  obtain ⟨hcell, hkind⟩ := Prod.mk.inj heq
  exact ⟨T₀, hT₀, hcell, hkind⟩

theorem access?_enroll (hA : A.Begun) (key : ThreadId × HandleName) (c : CellId) (k : HandleKind) :
    (A.enroll key c k).access? key' = if key' = key then some (c, k) else A.access? key' := by
  unfold Annals.access?
  rw [get?_enroll, tenures_enroll]
  by_cases hkey : key' = key
  · rw [if_pos hkey, if_pos hkey, Option.bind_some, List.getElem?_concat_length]
    rfl
  · rw [if_neg hkey, if_neg hkey]
    cases hi : A.current.get? key' with
    | none => rfl
    | some i => rw [Option.bind_some, Option.bind_some, List.getElem?_append_left (hA key' i hi)]

theorem access?_finish (A : Annals α) (key : ThreadId × HandleName) :
    (A.finish key).access? key' = if key' = key then none else A.access? key' := by
  unfold Annals.access?
  rw [get?_finish]
  split <;> rfl

theorem access?_pass (A : Annals α) (key new : ThreadId × HandleName) :
    (A.pass key new).access? key' =
      if key' = new then A.access? key else if key' = key then none else A.access? key' := by
  unfold Annals.access?
  rw [get?_pass, tenures_pass]
  split
  · rfl
  · split <;> rfl

theorem access?_record (A : Annals α) (key : ThreadId × HandleName) (f : α → α) :
    (A.record key f).access? key' = A.access? key' := by
  cases hi : A.current.get? key with
  | none =>
    unfold Annals.record
    rw [hi]
  | some i =>
    rw [record_of_current hi]
    unfold Annals.access?
    congr 1
    funext j
    exact map_modify_record A.tenures i j f

end Annals

/-! ### Annals that tell the truth -/

/-- What the annals have to do with the world. -/
structure Told (w : World α) (A : Annals α) : Prop where
  origins : A.origins.length = w.cells.length
  access : ∀ key, A.access? key = w.access? key
  begun : A.Begun
  cells : ∀ T ∈ A.tenures, T.cell < A.origins.length
  /-- Nothing is changed in tenures that are shared. -/
  shared : ∀ T ∈ A.tenures, T.kind.demand? ≠ some .exclusive → T.updates = []
  /-- Nothing was changed yet in a tenure later than one that goes on. -/
  later : ∀ key i T, A.current.get? key = some i → A.tenures[i]? = some T →
    ∀ T' ∈ A.tenures.drop (i + 1), T'.cell = T.cell → T'.updates = []
  /-- A value is what the changes made of the one that its cell was made with. -/
  value : ∀ c v, w.value? c = some v ∨ .destroyed c v ∈ w.log →
    ∃ a, A.origins[c]? = some a ∧ v = replay a (chronicle c A.tenures)

theorem told_empty : Told (.empty : World α) .empty where
  origins := rfl
  access _ := rfl
  begun _ _ hi := by simp [Annals.empty, Table.get?] at hi
  cells _ hT := by simp [Annals.empty] at hT
  shared _ hT := by simp [Annals.empty] at hT
  later _ _ _ hi := by simp [Annals.empty, Table.get?] at hi
  value _ _ hv := by simp [World.empty, World.value?] at hv

/-- Values that stay or go are told of still. -/
theorem Fades.told (hf : Fades w w') {v : α}
    (hv : w'.value? c = some v ∨ .destroyed c v ∈ w'.log) :
    w.value? c = some v ∨ .destroyed c v ∈ w.log := by
  rcases hv with hv | hlog
  · exact .inl (hf.value c v hv)
  · rcases hf.log c v hlog with hlog | hv
    · exact .inr hlog
    · exact .inl hv

/-- If a cell has its value, the log does not have that it was destroyed. -/
theorem World.Reachable.not_destroyed (hw : w.Reachable) {v u : α} (hv : w.value? c = some v) :
    .destroyed c u ∉ w.log := by
  intro hlog
  have hmem : c ∈ w.destroyed := List.mem_filterMap.mpr ⟨_, hlog, rfl⟩
  obtain ⟨cell, hc, hnone⟩ := (hw.recorded.mem c).mp hmem
  obtain ⟨cell', hc', hsome⟩ := World.value?_eq_some hv
  rw [hc] at hc'
  obtain rfl := Option.some.inj hc'
  rw [hnone] at hsome
  simp at hsome

/-- The tenure of one who has access. -/
theorem Told.exists_tenure (h : Told w A) (hk : w.access? key = some (c, k)) :
    ∃ i T, A.current.get? key = some i ∧ A.tenures[i]? = some T ∧ T.cell = c ∧ T.kind = k := by
  rw [← h.access] at hk
  exact Annals.access?_eq_some.mp hk

theorem Told.access?_of_tenure (h : Told w A) (hi : A.current.get? key = some i)
    (hT : A.tenures[i]? = some T) : w.access? key = some (T.cell, T.kind) := by
  rw [← h.access]
  exact Annals.access?_of_tenure hi hT

theorem Told.create (h : Told w A) {v : α} (hlength : w'.cells.length = w.cells.length + 1)
    (hvalue : ∀ c u, w'.value? c = some u → w.value? c = some u ∨ c = w.cells.length ∧ u = v)
    (hlog : ∀ c u, .destroyed c u ∈ w'.log →
      .destroyed c u ∈ w.log ∨ w.value? c = some u ∨ c = w.cells.length ∧ u = v)
    (haccess : ∀ key, w'.access? key = w.access? key) :
    Told w' { A with origins := A.origins ++ [v] } where
  origins := by rw [List.length_append, List.length_singleton, h.origins, hlength]
  access key := by
    rw [haccess]
    exact h.access key
  begun := h.begun
  cells T hT := by
    rw [List.length_append]
    exact Nat.lt_add_right _ (h.cells T hT)
  shared := h.shared
  later := h.later
  value c u hu := by
    have hcases : (w.value? c = some u ∨ .destroyed c u ∈ w.log) ∨ c = w.cells.length ∧ u = v := by
      rcases hu with hu | hu
      · rcases hvalue c u hu with hold | hnew
        · exact .inl (.inl hold)
        · exact .inr hnew
      · rcases hlog c u hu with hold | hold | hnew
        · exact .inl (.inr hold)
        · exact .inl (.inl hold)
        · exact .inr hnew
    rcases hcases with hold | ⟨rfl, rfl⟩
    · obtain ⟨a, ha, heq⟩ := h.value c u hold
      have hlt : c < A.origins.length := (List.getElem?_eq_some_iff.mp ha).1
      exact ⟨a, by rw [List.getElem?_append_left hlt, ha], heq⟩
    · -- nobody has had access to the new cell
      have hnone : chronicle w.cells.length A.tenures = [] := by
        apply chronicle_eq_nil
        intro T hT hc
        have hlt := h.cells T hT
        rw [hc, h.origins] at hlt
        exact absurd hlt (Nat.lt_irrefl _)
      refine ⟨u, ?_, ?_⟩
      · rw [← h.origins, List.getElem?_concat_length]
      · show u = replay u (chronicle w.cells.length A.tenures)
        rw [hnone, replay_nil]

theorem Told.grant (h : Told w A) (hw' : w'.Reachable) (hf : Fades w w')
    (haccess : ∀ key', w'.access? key' = if key' = key then some (c, k) else w.access? key') :
    Told w' (A.enroll key c k) where
  origins := h.origins.trans hf.length.symm
  access key' := by rw [Annals.access?_enroll h.begun, haccess, h.access]
  begun key' i hi := by
    rw [Annals.get?_enroll] at hi
    rw [Annals.tenures_enroll, List.length_append, List.length_singleton]
    split at hi
    · obtain rfl := Option.some.inj hi
      exact Nat.lt_succ_self _
    · exact Nat.lt_succ_of_lt (h.begun key' i hi)
  cells T hT := by
    show T.cell < A.origins.length
    rw [Annals.tenures_enroll] at hT
    rcases List.mem_append.mp hT with hT | hT
    · exact h.cells T hT
    · obtain rfl := List.mem_singleton.mp hT
      have hkey : w'.access? key = some (c, k) := by rw [haccess, if_pos rfl]
      rw [World.access?_eq_some] at hkey
      rw [h.origins, ← hf.length]
      exact hw'.lt_of_kept (.inl (.inr ⟨key, _, hkey, rfl⟩))
  shared T hT hd := by
    rw [Annals.tenures_enroll] at hT
    rcases List.mem_append.mp hT with hT | hT
    · exact h.shared T hT hd
    · obtain rfl := List.mem_singleton.mp hT
      rfl
  later key' i T hi hT T' hT' hc := by
    rw [Annals.get?_enroll] at hi
    rw [Annals.tenures_enroll] at hT hT'
    split at hi
    · -- the new tenure is the last
      obtain rfl := Option.some.inj hi
      rw [List.drop_eq_nil_of_le (by simp)] at hT'
      simp at hT'
    · have hlt := h.begun key' i hi
      rw [List.getElem?_append_left hlt] at hT
      rw [List.drop_append_of_le_length hlt] at hT'
      rcases List.mem_append.mp hT' with hold | hnew
      · exact h.later key' i T hi hT T' hold hc
      · obtain rfl := List.mem_singleton.mp hnew
        rfl
  value c' v hv := by
    obtain ⟨a, ha, heq⟩ := h.value c' v (hf.told hv)
    exact ⟨a, ha, by rw [Annals.chronicle_enroll, heq]⟩

/-- Fewer tenures go on, or they go on with other handles. -/
theorem Told.of_tenures (h : Told w A) (hf : Fades w w') (horigins : A'.origins = A.origins)
    (htenures : A'.tenures = A.tenures) (haccess : ∀ key, A'.access? key = w'.access? key)
    (hcurrent : ∀ key i, A'.current.get? key = some i → ∃ key, A.current.get? key = some i) :
    Told w' A' where
  origins := by rw [horigins, h.origins, hf.length]
  access := haccess
  begun key i hi := by
    obtain ⟨key', hi'⟩ := hcurrent key i hi
    rw [htenures]
    exact h.begun key' i hi'
  cells := by
    rw [horigins, htenures]
    exact h.cells
  shared := by
    rw [htenures]
    exact h.shared
  later key i T hi hT := by
    obtain ⟨key', hi'⟩ := hcurrent key i hi
    rw [htenures] at hT ⊢
    exact h.later key' i T hi' hT
  value c v hv := by
    rw [horigins, htenures]
    exact h.value c v (hf.told hv)

theorem Told.finish (h : Told w A) (hf : Fades w w')
    (haccess : ∀ key', w'.access? key' = if key' = key then none else w.access? key') :
    Told w' (A.finish key) := by
  have horigins : (A.finish key).origins = A.origins := rfl
  apply h.of_tenures hf horigins (Annals.tenures_finish ..)
  · intro key'
    rw [Annals.access?_finish, haccess, h.access]
  · exact fun key' i hi => Annals.current_of_finish hi

theorem Told.pass {new : ThreadId × HandleName} (h : Told w A) (hf : Fades w w')
    (haccess : ∀ key', w'.access? key' =
      if key' = new then w.access? key else if key' = key then none else w.access? key') :
    Told w' (A.pass key new) := by
  apply h.of_tenures hf (Annals.origins_pass ..) (Annals.tenures_pass ..)
  · intro key'
    rw [Annals.access?_pass, haccess, h.access, h.access]
  · exact fun key' i hi => Annals.current_of_pass hi

section record

variable (h : Told w A) (hw : w.Reachable) (hi : A.current.get? key = some i)
  (hT : A.tenures[i]? = some T) (hd : T.kind.demand? = some .exclusive) (f : α → α)
include h hw hi hT hd

/-- No tenure goes on that is older than one that is exclusive, and of the same cell. -/
theorem Told.later_record {j : Nat} {T₁ : Tenure α} (hj : A.current.get? key' = some j)
    (hT₁ : (A.tenures.modify i (Tenure.record f))[j]? = some T₁) :
    ∀ T' ∈ (A.tenures.modify i (Tenure.record f)).drop (j + 1), T'.cell = T₁.cell →
      T'.updates = [] := by
  intro T' hT' hc
  obtain ⟨T₀, hT₀, hcell, -⟩ := Annals.exists_of_modify_record hT₁
  by_cases hji : i < j + 1
  · rw [List.drop_modify_of_lt _ _ _ _ hji] at hT'
    exact h.later key' j T₀ hj hT₀ T' hT' (hc.trans hcell.symm)
  · -- an older tenure goes on, of another cell
    rw [List.drop_modify_of_ge _ _ _ _ (Nat.not_lt.mp hji)] at hT'
    have hother : T₀.cell ≠ T.cell := by
      intro heq
      have hkey := h.access?_of_tenure hi hT
      have hkey' := h.access?_of_tenure hj hT₀
      rw [heq] at hkey'
      obtain rfl := hw.alone hkey hd hkey'
      rw [hi] at hj
      obtain rfl := Option.some.inj hj
      exact hji (Nat.lt_succ_self _)
    have hdrop : (A.tenures.drop (j + 1))[i - (j + 1)]? = some T := by
      rw [List.getElem?_drop, Nat.add_sub_cancel' (Nat.not_lt.mp hji), hT]
    rcases mem_modify hdrop hT' with hold | rfl
    · exact h.later key' j T₀ hj hT₀ T' hold (hc.trans hcell.symm)
    · exact absurd (hcell.trans hc.symm) hother

/-- The value that was changed is what one change more makes of the first. -/
theorem Told.value_record {v u : α} (hv : w.value? T.cell = some v)
    (hu : (if c = T.cell then some (f v) else w.value? c) = some u ∨ .destroyed c u ∈ w.log) :
    ∃ a, A.origins[c]? = some a ∧
      u = replay a (chronicle c (A.tenures.modify i (Tenure.record f))) := by
  by_cases hcc : c = T.cell
  · subst hcc
    have hfresh : u = f v := by
      rcases hu with hu | hu
      · rw [if_pos rfl] at hu
        exact (Option.some.inj hu).symm
      · exact absurd hu (hw.not_destroyed hv)
    have hlast := h.later key i T hi hT
    obtain ⟨a, ha, heq⟩ := h.value T.cell v (.inl hv)
    refine ⟨a, ha, ?_⟩
    calc u = f v := hfresh
      _ = replay (replay a (chronicle T.cell A.tenures)) [f] := by rw [← heq]; rfl
      _ = replay a (chronicle T.cell (A.tenures.modify i (Tenure.record f))) := by
        rw [chronicle_modify_of_last hT hd hlast, replay_append]
  · rw [if_neg hcc] at hu
    rw [chronicle_modify_of_ne hT (Ne.symm hcc)]
    exact h.value c u hu

end record

/-- A change through a handle that has exclusive access. -/
theorem Told.change (h : Told w A) (hw : w.Reachable) {v : α} (f : α → α)
    (hkey : w.access? key = some (c, k)) (hd : k.demand? = some .exclusive)
    (hv : w.value? c = some v) (hlength : w'.cells.length = w.cells.length)
    (hvalue : ∀ c', w'.value? c' = if c' = c then some (f v) else w.value? c')
    (hlog : w'.log = w.log) (haccess : ∀ key, w'.access? key = w.access? key) :
    Told w' (A.record key f) := by
  obtain ⟨i, T, hi, hT, hc, hk⟩ := h.exists_tenure hkey
  subst hc hk
  have hrecord := Annals.record_of_current hi f
  refine ⟨?_, fun key' => ?_, fun key' j hj => ?_, fun T' hT' => ?_, fun T' hT' hd' => ?_,
    fun key' j T₁ hj hT₁ => ?_, fun c' u hu => ?_⟩
  · rw [hrecord, hlength]
    exact h.origins
  · rw [Annals.access?_record, haccess, h.access]
  · rw [hrecord] at hj ⊢
    rw [List.length_modify]
    exact h.begun key' j hj
  · rw [hrecord] at hT' ⊢
    rcases mem_modify hT hT' with hold | rfl
    · exact h.cells T' hold
    · exact h.cells T (List.mem_of_getElem? hT)
  · rw [hrecord] at hT'
    rcases mem_modify hT hT' with hold | rfl
    · exact h.shared T' hold hd'
    · exact absurd hd hd'
  · rw [hrecord] at hj hT₁ ⊢
    exact h.later_record hw hi hT hd f hj hT₁
  · rw [hvalue, hlog] at hu
    rw [hrecord]
    exact h.value_record hw hi hT hd f hv hu

/-- **The annals tell the truth after each turn.** -/
theorem Told.turn (h : Told w A) (hw : w.Reachable) (hw' : w'.Reachable) (ht : Turn w A w' A') :
    Told w' A' := by
  cases ht with
  | idle hf haccess =>
    exact h.of_tenures hf rfl rfl (fun key => by rw [haccess, h.access]) fun key i hi => ⟨key, hi⟩
  | create v hlength hvalue hlog haccess => exact h.create hlength hvalue hlog haccess
  | grant key c k hf haccess => exact h.grant hw' hf haccess
  | change f hkey hd hv hlength hvalue hlog haccess =>
    exact h.change hw f hkey hd hv hlength hvalue hlog haccess
  | finish key hf haccess => exact h.finish hf haccess
  | pass key new hf haccess => exact h.pass hf haccess

/-- **The annals of every history tell the truth.** -/
theorem World.History.told (hw : w.History A) : Told w A := by
  induction hw with
  | empty => exact told_empty
  | step P s hw ih => exact ih.turn hw.reachable (hw.reachable.step P s) (step_turn P _ _ s)

end Custody.Shared
