import FexTestBins.Library.IntervalGaps
import Mathlib.Data.List.Sort

/-!
# Laying an interval over a list of intervals

A new interval takes the place of whatever it overlaps: of each interval in the list the parts to
its left and to its right are left. The list stays in order, and if the new interval overlaps none,
it is added and all others are as they were.
-/

namespace IntervalGaps

variable {α : Type*} [LinearOrder α] {prev point : α} {range interval : α × α}
  {intervals others : List (α × α)}

/-- The parts of the intervals left of a point. -/
def before (point : α) (intervals : List (α × α)) : List (α × α) :=
  intervals.flatMap fun i => gap i.1 (min i.2 point)

def behind (point : α) (intervals : List (α × α)) : List (α × α) :=
  intervals.flatMap fun i => gap (max i.1 point) i.2

def overlay (range : α × α) (intervals : List (α × α)) : List (α × α) :=
  before range.1 intervals ++ range :: behind range.2 intervals

/-! ### Order -/

theorem Sorted.mono {prev' : α} (hsorted : Sorted prev intervals) (hle : prev' ≤ prev) :
    Sorted prev' intervals := by
  cases intervals with
  | nil => trivial
  | cons first rest => exact ⟨hle.trans hsorted.1, hsorted.2⟩

theorem sorted_gap_append {left right : α} (hleft : prev ≤ left)
    (hrest : Sorted (max prev right) intervals) : Sorted prev (gap left right ++ intervals) := by
  unfold gap
  split
  · rename_i hlt
    exact ⟨hleft, hlt, hrest.mono (le_max_right _ _)⟩
  · exact hrest.mono (le_max_left _ _)

theorem sorted_before (hsorted : Sorted prev intervals) : Sorted prev (before point intervals) := by
  induction intervals generalizing prev with
  | nil => trivial
  | cons first rest ih =>
      obtain ⟨hprev, hfirst, hrest⟩ := hsorted
      apply sorted_gap_append hprev
      apply (ih hrest).mono
      exact max_le (hprev.trans hfirst.le) (min_le_left _ _)

theorem sorted_behind (hsorted : Sorted prev intervals) :
    Sorted (max prev point) (behind point intervals) := by
  induction intervals generalizing prev with
  | nil => trivial
  | cons first rest ih =>
      obtain ⟨hprev, hfirst, hrest⟩ := hsorted
      apply sorted_gap_append (max_le_max hprev le_rfl)
      apply (ih hrest).mono
      have hend := hprev.trans hfirst.le
      exact max_le (max_le_max hend le_rfl) (le_max_left _ _)

theorem lastEnd_le (hprev : prev ≤ point) (hends : ∀ i ∈ intervals, i.2 ≤ point) :
    lastEnd prev intervals ≤ point := by
  induction intervals generalizing prev with
  | nil => exact hprev
  | cons first rest ih =>
      obtain ⟨hfirst, hrest⟩ := List.forall_mem_cons.mp hends
      exact ih hfirst hrest

theorem end_le_of_mem_before (hmem : interval ∈ before point intervals) : interval.2 ≤ point := by
  obtain ⟨i, -, hgap⟩ := List.mem_flatMap.mp hmem
  obtain ⟨rfl, -⟩ := mem_gap.mp hgap
  exact min_le_right _ _

theorem sorted_overlay (hsorted : Sorted prev intervals) (hprev : prev ≤ range.1)
    (hrange : range.1 < range.2) : Sorted prev (overlay range intervals) := by
  have hleft : lastEnd prev (before range.1 intervals) ≤ range.1 := by
    apply lastEnd_le hprev
    intro i hi
    exact end_le_of_mem_before hi
  have hright : Sorted range.2 (behind range.2 intervals) :=
    (sorted_behind hsorted).mono (le_max_right _ _)
  exact sorted_append.mpr ⟨sorted_before hsorted, hleft, hrange, hright⟩

/-! ### Members -/

def Apart (first second : α × α) : Prop := first.2 ≤ second.1 ∨ second.2 ≤ first.1

/-- **An interval that overlaps none of the others is added to them.** -/
theorem mem_overlay_of_apart (hintervals : ∀ i ∈ intervals, i.1 < i.2)
    (hrange : range.1 < range.2) (hapart : ∀ i ∈ intervals, Apart i range) :
    interval ∈ overlay range intervals ↔ interval ∈ intervals ∨ interval = range := by
  constructor
  · intro hmem
    rcases List.mem_append.mp hmem with hmem | hmem
    · obtain ⟨i, hi, hgap⟩ := List.mem_flatMap.mp hmem
      obtain ⟨rfl, hlt⟩ := mem_gap.mp hgap
      rcases hapart i hi with hleft | hright
      · rw [min_eq_left hleft]
        exact Or.inl hi
      · have hle := min_le_right i.2 range.1
        order
    · rcases List.mem_cons.mp hmem with rfl | hmem
      · exact Or.inr rfl
      · obtain ⟨i, hi, hgap⟩ := List.mem_flatMap.mp hmem
        obtain ⟨rfl, hlt⟩ := mem_gap.mp hgap
        rcases hapart i hi with hleft | hright
        · have hle := le_max_right i.1 range.2
          order
        · rw [max_eq_left hright]
          exact Or.inl hi
  · rintro (hmem | rfl)
    · have hnonempty := hintervals interval hmem
      rcases hapart interval hmem with hleft | hright
      · apply List.mem_append_left
        apply List.mem_flatMap.mpr
        refine ⟨interval, hmem, mem_gap.mpr ?_⟩
        rw [min_eq_left hleft]
        exact ⟨rfl, hnonempty⟩
      · apply List.mem_append_right
        apply List.mem_cons_of_mem
        apply List.mem_flatMap.mpr
        refine ⟨interval, hmem, mem_gap.mpr ?_⟩
        rw [max_eq_left hright]
        exact ⟨rfl, hnonempty⟩
    · exact List.mem_append_right _ List.mem_cons_self

theorem Sorted.end_le_lastEnd (hsorted : Sorted prev intervals) (hmem : interval ∈ intervals) :
    interval.2 ≤ lastEnd prev intervals := by
  induction intervals generalizing prev with
  | nil => cases hmem
  | cons first rest ih =>
      obtain ⟨-, -, hrest⟩ := hsorted
      rcases List.mem_cons.mp hmem with rfl | hmem
      · exact hrest.le_lastEnd
      · exact ih hrest hmem

theorem Sorted.pairwise (hsorted : Sorted prev intervals) :
    intervals.Pairwise fun first second => first.2 ≤ second.1 := by
  induction intervals generalizing prev with
  | nil => exact List.Pairwise.nil
  | cons first rest ih =>
      obtain ⟨-, -, hrest⟩ := hsorted
      apply List.pairwise_cons.mpr
      refine ⟨?_, ih hrest⟩
      intro later hlater
      exact hrest.le_of_mem hlater

theorem Sorted.starts (hsorted : Sorted prev intervals) :
    intervals.Pairwise fun first second => first.1 < second.1 := by
  apply hsorted.pairwise.imp_of_mem
  intro first second hfirst _ hle
  exact (hsorted.lt_of_mem hfirst).trans_le hle

theorem Sorted.ext {prev' : α} (hsorted : Sorted prev intervals) (hsorted' : Sorted prev' others)
    (hmem : ∀ i, i ∈ intervals ↔ i ∈ others) : intervals = others := by
  have hirrefl : Std.Irrefl fun first second : α × α => first.1 < second.1 :=
    ⟨fun i => lt_irrefl i.1⟩
  have hantisymm : Std.Antisymm fun first second : α × α => first.1 < second.1 :=
    ⟨fun _ _ hlt hgt => absurd hlt hgt.not_gt⟩
  exact hsorted.starts.eq_of_mem_iff hsorted'.starts hmem

theorem Sorted.filter (p : α × α → Bool) (hsorted : Sorted prev intervals) :
    Sorted prev (intervals.filter p) := by
  induction intervals generalizing prev with
  | nil => trivial
  | cons first rest ih =>
      obtain ⟨hprev, hfirst, hrest⟩ := hsorted
      rw [List.filter_cons]
      split
      · exact ⟨hprev, hfirst, ih hrest⟩
      · exact (ih hrest).mono (hprev.trans hfirst.le)

theorem apart_of_mem_gaps {lo hi : α} (hsorted : Sorted prev intervals)
    (hgap : range ∈ gaps lo hi prev intervals) (hmem : interval ∈ intervals) :
    Apart interval range := by
  induction intervals generalizing prev with
  | nil => cases hmem
  | cons first rest ih =>
      obtain ⟨-, hfirst, hrest⟩ := hsorted
      rw [gaps_cons] at hgap
      rcases List.mem_append.mp hgap with hgap | hgap
      · obtain ⟨rfl, -⟩ := mem_gap.mp hgap
        have hend : min first.1 hi ≤ first.1 := min_le_left _ _
        rcases List.mem_cons.mp hmem with rfl | hmem
        · exact Or.inr hend
        · apply Or.inr
          calc min first.1 hi ≤ first.1 := hend
            _ ≤ first.2 := hfirst.le
            _ ≤ interval.1 := hrest.le_of_mem hmem
      · rcases List.mem_cons.mp hmem with rfl | hmem
        · exact Or.inl ((le_max_left _ _).trans (bounds_of_mem_gaps hrest hgap).1)
        · exact ih hrest hgap hmem

end IntervalGaps
