import Mathlib.Data.List.Basic
import Mathlib.Logic.Function.Basic

/-!
# Pages that share memory

An address space gives pages a view: of which object it is a page, and with what protection.
Several pages, also of several address spaces, may be views of one page of an object, and what is
stored through one of them is read through all.
-/

namespace SharedPages

variable {Prot Byte : Type*}

structure View (Prot : Type*) where
  object : Nat
  index : Nat
  prot : Prot

/-- The pages of an address space that are mapped. -/
abbrev Views (Prot : Type*) := List (Nat × View Prot)

namespace Views

def pages (views : Views Prot) : List Nat := views.map Prod.fst

def view? (views : Views Prot) (page : Nat) : Option (View Prot) := views.lookup page

/-- Views for consecutive pages, which had none. -/
def map (views : Views Prot) (page count : Nat) (view : Nat → View Prot) : Views Prot :=
  (List.range count).map (fun i => (page + i, view i)) ++ views

def unmap (views : Views Prot) (gone : Nat → View Prot → Bool) : Views Prot :=
  views.filter fun entry => !gone entry.1 entry.2

def protect (views : Views Prot) (page : Nat) (prot : Prot) : Views Prot :=
  List.map (fun entry =>
    if entry.1 = page then (page, { entry.2 with prot := prot }) else entry) views

variable {views : Views Prot} {page count : Nat} {view : Nat → View Prot}

@[simp]
theorem pages_map : (views.map page count view).pages
    = (List.range count).map (page + ·) ++ views.pages := by
  simp [map, pages]

@[simp]
theorem pages_protect (prot : Prot) : (views.protect page prot).pages = views.pages := by
  rw [protect, pages, List.map_map]
  refine List.map_congr_left fun entry _ => ?_
  by_cases hpage : entry.1 = page <;> simp [hpage]

theorem mem_pages_map {p : Nat} (hmem : p ∈ views.pages) :
    p ∈ (views.map page count view).pages := by
  rw [pages_map]
  exact List.mem_append_right _ hmem

theorem mem_pages_of_view? {p : Nat} {kept : View Prot} (hview : views.view? p = some kept) :
    p ∈ views.pages := by
  induction views with
  | nil => cases hview
  | cons entry views ih =>
      obtain ⟨q, view⟩ := entry
      by_cases hq : p = q
      · simp [pages, hq]
      · have hne : (p == q) = false := beq_eq_false_iff_ne.mpr hq
        rw [view?, List.lookup_cons, hne] at hview
        exact List.mem_cons_of_mem _ (ih hview)

theorem lookup_range (page count p : Nat) (view : Nat → View Prot) :
    ((List.range count).map fun i => (page + i, view i)).lookup p
      = if page ≤ p ∧ p < page + count then some (view (p - page)) else none := by
  induction count with
  | zero => simp
  | succ count ih =>
      rw [List.range_succ, List.map_append, List.lookup_append, ih]
      rcases Nat.lt_trichotomy p (page + count) with hlt | rfl | hgt
      · have hne : (p == page + count) = false := by
          rw [beq_eq_false_iff_ne]
          omega
        by_cases hle : page ≤ p
        · simp [hle, hlt, Nat.lt_succ_of_lt hlt, ← Nat.add_assoc]
        · simp [hle, hne, List.lookup_cons]
      · simp
      · have hne : (p == page + count) = false := by
          rw [beq_eq_false_iff_ne]
          omega
        have hnot : ¬ p < page + count := by omega
        have hnot' : ¬ p < page + (count + 1) := by omega
        simp [hne, hnot, hnot', List.lookup_cons]

theorem view?_map (p : Nat) : (views.map page count view).view? p
    = if page ≤ p ∧ p < page + count then some (view (p - page)) else views.view? p := by
  rw [view?, map, List.lookup_append, lookup_range]
  split <;> simp [view?]

theorem view?_protect (p : Nat) (prot : Prot) : (views.protect page prot).view? p
    = (views.view? p).map fun view => if p = page then { view with prot := prot } else view := by
  induction views with
  | nil => rfl
  | cons entry views ih =>
      obtain ⟨q, view⟩ := entry
      have hfirst : protect ((q, view) :: views) page prot
          = (q, if q = page then { view with prot := prot } else view)
            :: protect views page prot := by
        by_cases hpage : q = page
        · simp [protect, hpage]
        · simp [protect, hpage]
      rw [hfirst]
      simp only [view?, List.lookup_cons] at ih ⊢
      by_cases hq : p = q
      · simp [hq]
      · simpa [beq_eq_false_iff_ne.mpr hq] using ih

theorem view?_unmap {gone : Nat → View Prot → Bool} {p : Nat} {kept : View Prot}
    (hview : views.view? p = some kept) (hkept : gone p kept = false) :
    (views.unmap gone).view? p = some kept := by
  induction views with
  | nil => cases hview
  | cons entry views ih =>
      obtain ⟨q, view⟩ := entry
      simp only [view?, List.lookup_cons] at hview ih
      by_cases hq : p = q
      · subst hq
        obtain rfl : view = kept := by simpa using hview
        simp [view?, unmap, hkept]
      · have hne : (p == q) = false := beq_eq_false_iff_ne.mpr hq
        have hrest := ih (by simpa [hne] using hview)
        by_cases hgone : gone q view = true
        · simpa [view?, unmap, hgone] using hrest
        · simpa [view?, unmap, hgone, List.lookup_cons, hne] using hrest

end Views

/-- What is in the objects: their pages, and the bytes in these. -/
abbrev Contents (Byte : Type*) := Nat → Nat → Nat → Byte

def Contents.page (contents : Contents Byte) (view : View Prot) : Nat → Byte :=
  contents view.object view.index

def Contents.store (contents : Contents Byte) (object index k : Nat) (value : Byte) :
    Contents Byte :=
  Function.update contents object (Function.update (contents object) index
    (Function.update (contents object index) k value))

end SharedPages
