import Mathlib.Data.Set.Lattice
import Mathlib.Order.Interval.Set.Basic
import Mathlib.Order.MinMax
import Mathlib.Tactic.Order

/-!
# The gaps between sorted intervals

A list of half-open intervals in increasing order leaves gaps in a window `[lo, hi)`: one before
each interval and one after the last. They are computed from left to right, each from the end of
the interval before it, so every fact below is an induction over the list that carries that end
along as `prev`.
-/

namespace IntervalGaps

variable {α : Type*} [LinearOrder α]

def cover (intervals : List (α × α)) : Set α :=
  ⋃ interval ∈ intervals, Set.Ico interval.1 interval.2

/-- Non-empty intervals in increasing order, the first of them not before `prev`. -/
def Sorted : α → List (α × α) → Prop
  | _, [] => True
  | prev, interval :: rest =>
      prev ≤ interval.1 ∧ interval.1 < interval.2 ∧ Sorted interval.2 rest

instance Sorted.decidable :
    (prev : α) → (intervals : List (α × α)) → Decidable (Sorted prev intervals)
  | _, [] => inferInstanceAs (Decidable True)
  | prev, interval :: rest =>
      have := Sorted.decidable interval.2 rest
      inferInstanceAs
        (Decidable (prev ≤ interval.1 ∧ interval.1 < interval.2 ∧ Sorted interval.2 rest))

/-- The end of the last interval, `prev` if there is none. -/
def lastEnd : α → List (α × α) → α
  | prev, [] => prev
  | _, interval :: rest => lastEnd interval.2 rest

def gap (left right : α) : List (α × α) :=
  if left < right then [(left, right)] else []

/-- The gaps of `[lo, hi)` that end at one of the intervals. -/
def gapsBefore (lo hi : α) : α → List (α × α) → List (α × α)
  | _, [] => []
  | prev, interval :: rest =>
      gap (max prev lo) (min interval.1 hi) ++ gapsBefore lo hi interval.2 rest

/-- All gaps of `[lo, hi)`: those before an interval and the one after the last. -/
def gaps (lo hi prev : α) (intervals : List (α × α)) : List (α × α) :=
  gapsBefore lo hi prev intervals ++ gap (max (lastEnd prev intervals) lo) hi

variable {lo hi prev left right x : α} {intervals others : List (α × α)} {interval : α × α}

theorem mem_cover : x ∈ cover intervals ↔ ∃ i ∈ intervals, i.1 ≤ x ∧ x < i.2 := by
  simp only [cover, Set.mem_iUnion, Set.mem_Ico, exists_prop]

@[simp]
theorem cover_nil : cover ([] : List (α × α)) = ∅ := by
  simp [cover]

theorem cover_cons : cover (interval :: intervals)
    = Set.Ico interval.1 interval.2 ∪ cover intervals := by
  simp [cover]

theorem cover_append : cover (intervals ++ others) = cover intervals ∪ cover others := by
  ext x
  simp only [mem_cover, List.mem_append, Set.mem_union, or_and_right, exists_or]

theorem mem_gap : interval ∈ gap left right ↔ interval = (left, right) ∧ left < right := by
  unfold gap
  split <;> simp_all

theorem lt_of_mem_gapsBefore (hmem : interval ∈ gapsBefore lo hi prev intervals) :
    interval.1 < interval.2 := by
  induction intervals generalizing prev with
  | nil => cases hmem
  | cons first rest ih =>
      rcases List.mem_append.mp hmem with hmem | hmem
      · obtain ⟨rfl, hlt⟩ := mem_gap.mp hmem
        exact hlt
      · exact ih hmem

theorem lt_of_mem_gaps (hmem : interval ∈ gaps lo hi prev intervals) :
    interval.1 < interval.2 := by
  rcases List.mem_append.mp hmem with hmem | hmem
  · exact lt_of_mem_gapsBefore hmem
  · obtain ⟨rfl, hlt⟩ := mem_gap.mp hmem
    exact hlt

theorem cover_gap : cover (gap left right) = Set.Ico left right := by
  unfold gap
  split
  · simp [cover]
  · rename_i hempty
    rw [cover_nil, Set.Ico_eq_empty hempty]

theorem Sorted.le_of_mem (hsorted : Sorted prev intervals) (hmem : interval ∈ intervals) :
    prev ≤ interval.1 := by
  induction intervals generalizing prev with
  | nil => cases hmem
  | cons first rest ih =>
      obtain ⟨hprev, hfirst, hrest⟩ := hsorted
      rcases List.mem_cons.mp hmem with rfl | hmem
      · exact hprev
      · exact hprev.trans (hfirst.le.trans (ih hrest hmem))

theorem Sorted.lt_of_mem (hsorted : Sorted prev intervals) (hmem : interval ∈ intervals) :
    interval.1 < interval.2 := by
  induction intervals generalizing prev with
  | nil => cases hmem
  | cons first rest ih =>
      rcases List.mem_cons.mp hmem with rfl | hmem
      · exact hsorted.2.1
      · exact ih hsorted.2.2 hmem

theorem Sorted.le_lastEnd (hsorted : Sorted prev intervals) : prev ≤ lastEnd prev intervals := by
  induction intervals generalizing prev with
  | nil => exact le_rfl
  | cons first rest ih => exact hsorted.1.trans (hsorted.2.1.le.trans (ih hsorted.2.2))

theorem sorted_append : Sorted prev (intervals ++ others)
    ↔ Sorted prev intervals ∧ Sorted (lastEnd prev intervals) others := by
  induction intervals generalizing prev with
  | nil => simp [Sorted, lastEnd]
  | cons first rest ih => simp [Sorted, lastEnd, ih, and_assoc]

omit [LinearOrder α] in
theorem lastEnd_append :
    lastEnd prev (intervals ++ others) = lastEnd (lastEnd prev intervals) others := by
  induction intervals generalizing prev with
  | nil => rfl
  | cons first rest ih => exact ih

theorem gapsBefore_append : gapsBefore lo hi prev (intervals ++ others)
    = gapsBefore lo hi prev intervals ++ gapsBefore lo hi (lastEnd prev intervals) others := by
  induction intervals generalizing prev with
  | nil => rfl
  | cons first rest ih => simp [gapsBefore, lastEnd, ih, List.append_assoc]

theorem bounds_of_mem_gapsBefore (hsorted : Sorted prev intervals)
    (hmem : interval ∈ gapsBefore lo hi prev intervals) :
    max prev lo ≤ interval.1 ∧ interval.1 < interval.2
      ∧ interval.2 ≤ lastEnd prev intervals ∧ interval.2 ≤ hi := by
  induction intervals generalizing prev with
  | nil => cases hmem
  | cons first rest ih =>
      obtain ⟨hprev, hfirst, hrest⟩ := hsorted
      rcases List.mem_append.mp hmem with hmem | hmem
      · obtain ⟨rfl, hlt⟩ := mem_gap.mp hmem
        have hend : min first.1 hi ≤ lastEnd first.2 rest := by
          calc min first.1 hi ≤ first.1 := min_le_left _ _
            _ ≤ first.2 := hfirst.le
            _ ≤ lastEnd first.2 rest := hrest.le_lastEnd
        exact ⟨le_rfl, hlt, hend, min_le_right _ _⟩
      · obtain ⟨hleft, hlt, hend, hhi⟩ := ih hrest hmem
        have hlater : max prev lo ≤ max first.2 lo := max_le_max (hprev.trans hfirst.le) le_rfl
        exact ⟨hlater.trans hleft, hlt, hend, hhi⟩

theorem bounds_of_mem_gaps (hsorted : Sorted prev intervals)
    (hmem : interval ∈ gaps lo hi prev intervals) :
    max prev lo ≤ interval.1 ∧ interval.1 < interval.2 ∧ interval.2 ≤ hi := by
  rcases List.mem_append.mp hmem with hmem | hmem
  · obtain ⟨hleft, hlt, -, hhi⟩ := bounds_of_mem_gapsBefore hsorted hmem
    exact ⟨hleft, hlt, hhi⟩
  · obtain ⟨rfl, hlt⟩ := mem_gap.mp hmem
    exact ⟨max_le_max hsorted.le_lastEnd le_rfl, hlt, le_rfl⟩

theorem gap_pairwise {r : α × α → α × α → Prop} : (gap left right).Pairwise r := by
  unfold gap
  split <;> simp

theorem gapsBefore_pairwise (hsorted : Sorted prev intervals) :
    (gapsBefore lo hi prev intervals).Pairwise fun first second => first.2 ≤ second.1 := by
  induction intervals generalizing prev with
  | nil => exact List.Pairwise.nil
  | cons first rest ih =>
      obtain ⟨-, hfirst, hrest⟩ := hsorted
      apply List.pairwise_append.mpr
      refine ⟨gap_pairwise, ih hrest, ?_⟩
      intro g hg later hlater
      obtain ⟨rfl, -⟩ := mem_gap.mp hg
      calc min first.1 hi ≤ first.1 := min_le_left _ _
        _ ≤ first.2 := hfirst.le
        _ ≤ max first.2 lo := le_max_left _ _
        _ ≤ later.1 := (bounds_of_mem_gapsBefore hrest hlater).1

theorem gaps_pairwise (hsorted : Sorted prev intervals) :
    (gaps lo hi prev intervals).Pairwise fun first second => first.2 ≤ second.1 := by
  apply List.pairwise_append.mpr
  refine ⟨gapsBefore_pairwise hsorted, gap_pairwise, ?_⟩
  intro g hg later hlater
  obtain ⟨rfl, -⟩ := mem_gap.mp hlater
  exact (bounds_of_mem_gapsBefore hsorted hg).2.2.1.trans (le_max_left _ _)

theorem gaps_cons : gaps lo hi prev (interval :: intervals)
    = gap (max prev lo) (min interval.1 hi) ++ gaps lo hi interval.2 intervals := by
  simp [gaps, gapsBefore, lastEnd, List.append_assoc]

/-- **The gaps are the free points.** Together they hold exactly the points of the window from
`prev` on that are in no interval. -/
theorem cover_gaps (hsorted : Sorted prev intervals) :
    cover (gaps lo hi prev intervals) = Set.Ico (max prev lo) hi \ cover intervals := by
  induction intervals generalizing prev with
  | nil => simp [gaps, gapsBefore, lastEnd, cover_gap]
  | cons first rest ih =>
      obtain ⟨hprev, hfirst, hrest⟩ := hsorted
      rw [gaps_cons, cover_append, cover_gap, ih hrest, cover_cons]
      ext x
      simp only [Set.mem_union, Set.mem_sdiff, Set.mem_Ico, max_le_iff, lt_min_iff, not_or, not_and,
        not_lt]
      constructor
      · rintro (⟨⟨hx, hlo⟩, hxfirst, hxhi⟩ | ⟨⟨⟨hx, hlo⟩, hxhi⟩, hfree⟩)
        · have hlater : x ∉ cover rest := by
            intro hcover
            obtain ⟨later, hmem, hle, -⟩ := mem_cover.mp hcover
            have hstart := hrest.le_of_mem hmem
            order
          exact ⟨⟨⟨hx, hlo⟩, hxhi⟩, fun hle => absurd hxfirst hle.not_gt, hlater⟩
        · exact ⟨⟨⟨hprev.trans (hfirst.le.trans hx), hlo⟩, hxhi⟩, fun _ => hx, hfree⟩
      · rintro ⟨⟨⟨hx, hlo⟩, hxhi⟩, hnotFirst, hfree⟩
        rcases lt_or_ge x first.1 with hlt | hge
        · exact Or.inl ⟨⟨hx, hlo⟩, hlt, hxhi⟩
        · exact Or.inr ⟨⟨⟨hnotFirst hge, hlo⟩, hxhi⟩, hfree⟩

theorem endpoint_of_mem_gaps {p : α → Prop} (hlo : p lo) (hhi : p hi) (hprev : p prev)
    (hintervals : ∀ i ∈ intervals, p i.1 ∧ p i.2) (hmem : interval ∈ gaps lo hi prev intervals) :
    p interval.1 ∧ p interval.2 := by
  induction intervals generalizing prev with
  | nil =>
      obtain ⟨rfl, -⟩ := mem_gap.mp hmem
      exact ⟨max_rec' p hprev hlo, hhi⟩
  | cons first rest ih =>
      obtain ⟨hfirst, hrest⟩ := List.forall_mem_cons.mp hintervals
      rw [gaps_cons] at hmem
      rcases List.mem_append.mp hmem with hmem | hmem
      · obtain ⟨rfl, -⟩ := mem_gap.mp hmem
        exact ⟨max_rec' p hprev hlo, min_rec' p hfirst.1 hhi⟩
      · exact ih hfirst.2 hrest hmem

end IntervalGaps
