/-
# Walks in a graph of edges

A value that holds a pointer owns the pointer's target. So the pointers in values
are the edges of a graph whose nodes are cells. A walk follows edges from one cell
to another, and a cell is on a cycle if a walk with at least one edge leads back
to it. A cell whose predecessors go back only finitely far is on no cycle; and who
looks for predecessors in a finite graph ends at a cell that needs none, or
comes back to one that was passed before.

Key definitions: `Edge`, `Walk`, `Reaches`, `OnCycle`, `Grounded`.
Key theorems: `walk_append`, `Grounded.not_onCycle`, `exists_origin`.
-/
import Mathlib.Data.Finset.Card
import Mathlib.Data.Set.Basic
import Custody.Heap.Act

namespace Custody.Heap

/-- A pointer in a value: the cell of the value, where in it, and the owner that the pointer is. -/
structure Edge where
  source : CellId
  hop : Hop
  owner : Owner
  deriving DecidableEq

/-- The cell that is owned. -/
def Edge.target (e : Edge) : CellId :=
  e.owner.cell

/-- Whether the edges lead, one after the other, from one cell to another. -/
def Walk (G : Set Edge) : CellId → List Edge → CellId → Prop
  | c, [], d => c = d
  | c, e :: es, d => e ∈ G ∧ e.source = c ∧ Walk G e.target es d

/-- Whether some walk leads from one cell to another. -/
def Reaches (G : Set Edge) (c d : CellId) : Prop :=
  ∃ es, Walk G c es d

/-- Whether some walk with at least one edge leads from the cell back to it. -/
def OnCycle (G : Set Edge) (c : CellId) : Prop :=
  ∃ es, es ≠ [] ∧ Walk G c es c

/-- Whether some edge leads from one cell to another. -/
def Owns (G : Set Edge) (c d : CellId) : Prop :=
  ∃ e ∈ G, e.source = c ∧ e.target = d

/-- Whether the predecessors of the cell go back only finitely far. -/
abbrev Grounded (G : Set Edge) (c : CellId) : Prop :=
  Acc (Owns G) c

variable {G G' : Set Edge} {c d : CellId} {es : List Edge}

/-! ### Walks -/

theorem Walk.mono (hG : ∀ e ∈ es, e ∈ G → e ∈ G') (hw : Walk G c es d) : Walk G' c es d := by
  induction es generalizing c with
  | nil => exact hw
  | cons e es ih =>
    obtain ⟨he, hs, hw⟩ := hw
    refine ⟨hG e List.mem_cons_self he, hs, ih (fun e' he' => ?_) hw⟩
    exact hG e' (List.mem_cons_of_mem _ he')

theorem Walk.mem (hw : Walk G c es d) : ∀ e ∈ es, e ∈ G := by
  induction es generalizing c with
  | nil => simp
  | cons e es ih =>
    obtain ⟨he, -, hw⟩ := hw
    intro e' he'
    rcases List.mem_cons.mp he' with rfl | he'
    · exact he
    · exact ih hw e' he'

/-- A walk in two parts passes through some cell between them. -/
theorem walk_append {es es' : List Edge} :
    Walk G c (es ++ es') d ↔ ∃ m, Walk G c es m ∧ Walk G m es' d := by
  induction es generalizing c with
  | nil =>
    constructor
    · intro hw
      exact ⟨c, rfl, hw⟩
    · rintro ⟨m, rfl, hw⟩
      exact hw
  | cons e es ih =>
    constructor
    · rintro ⟨he, hs, hw⟩
      obtain ⟨m, hm, hw⟩ := ih.mp hw
      exact ⟨m, ⟨he, hs, hm⟩, hw⟩
    · rintro ⟨m, ⟨he, hs, hm⟩, hw⟩
      exact ⟨he, hs, ih.mpr ⟨m, hm, hw⟩⟩

/-- The source of an edge on the way from a cell back to it is on a cycle. -/
theorem Walk.source_onCycle (hw : Walk G c es c) {e : Edge} (he : e ∈ es) : OnCycle G e.source := by
  obtain ⟨before, after, rfl⟩ := List.append_of_mem he
  obtain ⟨m, hbefore, hmem, rfl, hafter⟩ := walk_append.mp hw
  refine ⟨e :: (after ++ before), by simp, hmem, rfl, ?_⟩
  exact walk_append.mpr ⟨c, hafter, hbefore⟩

/-! ### Cells on no cycle -/

/-- Whoever is on a cycle has a predecessor that is. -/
theorem OnCycle.exists_owns (hc : OnCycle G c) : ∃ a, Owns G a c ∧ OnCycle G a := by
  obtain ⟨es, hne, hw⟩ := hc
  obtain ⟨init, e, rfl⟩ : ∃ init e, es = init ++ [e] :=
    ⟨_, _, (List.dropLast_concat_getLast hne).symm⟩
  obtain ⟨m, -, hmem, hs, ht⟩ := walk_append.mp hw
  exact ⟨e.source, ⟨e, hmem, rfl, ht⟩, hw.source_onCycle (by simp)⟩

theorem Grounded.not_onCycle (hc : Grounded G c) : ¬ OnCycle G c := by
  induction hc with
  | intro c _ ih =>
    intro hcycle
    obtain ⟨a, howns, ha⟩ := hcycle.exists_owns
    exact ih a howns ha

/-! ### Looking for predecessors -/

theorem Reaches.refl (G : Set Edge) (c : CellId) : Reaches G c c := ⟨[], rfl⟩

theorem Reaches.head {e : Edge} (he : e ∈ G) (h : Reaches G e.target d) : Reaches G e.source d := by
  obtain ⟨es, hw⟩ := h
  exact ⟨e :: es, he, rfl, hw⟩

theorem Reaches.trans {a b : CellId} (h : Reaches G a b) (h' : Reaches G b c) : Reaches G a c := by
  obtain ⟨es, hw⟩ := h
  obtain ⟨es', hw'⟩ := h'
  exact ⟨es ++ es', walk_append.mpr ⟨b, hw, hw'⟩⟩

/-- Whatever is reached is where one started, or comes after something that is reached. -/
theorem Reaches.cases_tail (h : Reaches G c d) :
    c = d ∨ ∃ e ∈ G, Reaches G c e.source ∧ e.target = d := by
  obtain ⟨es, hw⟩ := h
  rcases es.eq_nil_or_concat with rfl | ⟨init, e, rfl⟩
  · exact .inl hw
  · rw [List.concat_eq_append] at hw
    obtain ⟨m, hinit, hmem, rfl, ht⟩ := walk_append.mp hw
    exact .inr ⟨e, hmem, ⟨init, hinit⟩, ht⟩

theorem Reaches.mono (hG : G ⊆ G') (h : Reaches G c d) : Reaches G' c d := by
  obtain ⟨es, hw⟩ := h
  exact ⟨es, hw.mono fun e _ he => hG he⟩

theorem OnCycle.mono (hG : G ⊆ G') (h : OnCycle G c) : OnCycle G' c := by
  obtain ⟨es, hne, hw⟩ := h
  exact ⟨es, hne, hw.mono fun e _ he => hG he⟩

/-- Of some cells, of which there are finitely many, each is one that satisfies `P`, or has
a predecessor among them. Then each of them is reached from one of them that satisfies `P`,
or is on a cycle. -/
theorem exists_origin {V P : CellId → Prop} {n : Nat} (hfinite : ∀ c, V c → c < n)
    (hpred : ∀ c, V c → P c ∨ ∃ e ∈ G, e.target = c ∧ V e.source) (hc : V c) :
    ∃ d, V d ∧ Reaches G d c ∧ (P d ∨ OnCycle G d) := by
  -- the cells that were passed on the way back to `a` are reached from `a`
  have hsearch : ∀ (k : Nat) (seen : Finset CellId) (a : CellId), n = seen.card + k →
      (∀ b ∈ seen, b < n ∧ Reaches G a b) → V a → a ∉ seen →
      ∃ d, V d ∧ Reaches G d a ∧ (P d ∨ OnCycle G d) := by
    intro k
    induction k with
    | zero =>
      intro seen a hn hseen ha hnew
      have hsub : insert a seen ⊆ Finset.range n := by
        intro b hb
        rcases Finset.mem_insert.mp hb with rfl | hb
        · exact Finset.mem_range.mpr (hfinite b ha)
        · exact Finset.mem_range.mpr (hseen b hb).1
      have hcard := Finset.card_le_card hsub
      rw [Finset.card_insert_of_notMem hnew, Finset.card_range] at hcard
      omega
    | succ k ih =>
      intro seen a hn hseen ha hnew
      rcases hpred a ha with hP | ⟨e, he, rfl, hs⟩
      · exact ⟨a, ha, .refl G a, .inl hP⟩
      · have hstep : Reaches G e.source e.target := .head he (.refl G _)
        have hback : ∀ b ∈ insert e.target seen, b < n ∧ Reaches G e.target b := by
          intro b hb
          rcases Finset.mem_insert.mp hb with rfl | hb
          · exact ⟨hfinite _ ha, .refl G _⟩
          · exact hseen b hb
        by_cases hloop : e.source ∈ insert e.target seen
        · obtain ⟨es, hw⟩ := (hback _ hloop).2
          exact ⟨e.source, hs, hstep, .inr ⟨e :: es, by simp, he, rfl, hw⟩⟩
        · have hcard := Finset.card_insert_of_notMem hnew
          obtain ⟨d, hd, hreach, hend⟩ := ih (insert e.target seen) e.source (by omega)
            (fun b hb => ⟨(hback b hb).1, hstep.trans (hback b hb).2⟩) hs hloop
          exact ⟨d, hd, hreach.trans hstep, hend⟩
  exact hsearch n ∅ c (by simp) (by simp) hc (by simp)

end Custody.Heap
