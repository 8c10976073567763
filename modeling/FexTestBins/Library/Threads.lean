import FexTestBins.Library.Transition
import Mathlib.Algebra.BigOperators.Group.Finset.Basic

/-!
# Threads that share memory

A step is a statement of one thread, which reads and changes the shared state and the thread's own
locals. What is asserted of each thread holds in every interleaving, if the statements of the thread
keep it and those of the other threads do not disturb it.
-/

namespace Threads

open Transition

variable {ι Shared : Type*} {Local : ι → Type*}

structure State (Shared : Type*) {ι : Type*} (Local : ι → Type*) where
  shared : Shared
  locals : (i : ι) → Local i

/-- The statements of the threads. -/
abbrev Program (Shared : Type*) {ι : Type*} (Local : ι → Type*) :=
  (i : ι) → Shared → Local i → Shared → Local i → Prop

variable [DecidableEq ι]

def State.set (s : State Shared Local) (i : ι) (shared : Shared) (loc : Local i) :
    State Shared Local :=
  { shared := shared, locals := Function.update s.locals i loc }

inductive Step (program : Program Shared Local) :
    State Shared Local → ι → State Shared Local → Prop
  | mk {s : State Shared Local} {i : ι} {shared : Shared} {loc : Local i} :
      program i s.shared (s.locals i) shared loc → Step program s i (s.set i shared loc)

variable {program : Program Shared Local} {s start finish : State Shared Local} {labels : List ι}
  {i j : ι}

@[simp]
theorem State.set_shared (shared : Shared) (loc : Local i) : (s.set i shared loc).shared = shared :=
  rfl

@[simp]
theorem State.set_locals_self (shared : Shared) (loc : Local i) :
    (s.set i shared loc).locals i = loc :=
  Function.update_self ..

theorem State.set_locals_of_ne (hne : j ≠ i) (shared : Shared) (loc : Local i) :
    (s.set i shared loc).locals j = s.locals j :=
  Function.update_of_ne hne ..

/-- An assertion about each thread that no statement refutes. -/
structure Outline (program : Program Shared Local)
    (assertion : (i : ι) → Shared → Local i → Prop) : Prop where
  kept : ∀ i shared loc shared' loc', assertion i shared loc → program i shared loc shared' loc' →
    assertion i shared' loc'
  undisturbed : ∀ i j shared loc other shared' loc', i ≠ j → assertion i shared loc →
    assertion j shared other → program i shared loc shared' loc' → assertion j shared' other

variable {assertion : (i : ι) → Shared → Local i → Prop}

theorem Outline.step (h : Outline program assertion) {next : State Shared Local}
    (hstate : ∀ i, assertion i s.shared (s.locals i)) (hstep : Step program s i next) :
    ∀ j, assertion j next.shared (next.locals j) := by
  cases hstep with
  | mk hact =>
      intro j
      by_cases hj : j = i
      · subst hj
        rw [State.set_locals_self]
        exact h.kept _ _ _ _ _ (hstate j) hact
      · rw [State.set_locals_of_ne hj]
        exact h.undisturbed _ _ _ _ _ _ _ (Ne.symm hj) (hstate i) (hstate j) hact

/-- The assertions hold in every interleaving. -/
theorem Outline.run (h : Outline program assertion) (hrun : Run (Step program) start labels finish)
    (hstart : ∀ i, assertion i start.shared (start.locals i)) :
    ∀ i, assertion i finish.shared (finish.locals i) :=
  hrun.invariant (fun s => ∀ i, assertion i s.shared (s.locals i))
    (fun _ _ _ hstate hstep => h.step hstate hstep) hstart

/-! ### Counting statements -/

/-- The statements a thread has still to execute, where each of them is one less. -/
def Counts (program : Program Shared Local) (assertion : (i : ι) → Shared → Local i → Prop)
    (left : (i : ι) → Local i → Nat) : Prop :=
  ∀ i shared loc shared' loc', assertion i shared loc → program i shared loc shared' loc' →
    left i loc' + 1 = left i loc

theorem Counts.step {left : (i : ι) → Local i → Nat} {next : State Shared Local}
    (h : Counts program assertion left) (hstate : ∀ i, assertion i s.shared (s.locals i))
    (hstep : Step program s i next) (j : ι) :
    [i].count j + left j (next.locals j) = left j (s.locals j) := by
  cases hstep with
  | mk hact =>
      by_cases hj : j = i
      · subst hj
        rw [State.set_locals_self, List.count_singleton_self, Nat.add_comm]
        exact h _ _ _ _ _ (hstate j) hact
      · rw [State.set_locals_of_ne hj, List.count_eq_zero_of_not_mem (by simpa using hj),
          Nat.zero_add]

theorem Outline.count_run {left : (i : ι) → Local i → Nat} (h : Outline program assertion)
    (hcounts : Counts program assertion left) (hrun : Run (Step program) start labels finish)
    (hstart : ∀ i, assertion i start.shared (start.locals i)) (j : ι) :
    labels.count j + left j (finish.locals j) = left j (start.locals j) := by
  induction hrun with
  | refl => rw [List.count_nil, Nat.zero_add]
  | @cons start middle finish i labels hstep _ ih =>
      have hfirst := hcounts.step hstart hstep j
      have hrest := ih (h.step hstart hstep)
      have hcount : ([i] ++ labels).count j = [i].count j + labels.count j := List.count_append
      rw [List.singleton_append] at hcount
      omega

theorem length_eq_sum_count [Fintype ι] (labels : List ι) :
    labels.length = ∑ i, labels.count i := by
  rw [← List.sum_toFinset_count_eq_length]
  refine Finset.sum_subset (Finset.subset_univ _) ?_
  intro i _ hnot
  exact List.count_eq_zero_of_not_mem fun hmem => hnot (List.mem_toFinset.mpr hmem)

/-- A run has the statements that its threads have executed. -/
theorem Outline.length_run [Fintype ι] {left : (i : ι) → Local i → Nat}
    (h : Outline program assertion) (hcounts : Counts program assertion left)
    (hrun : Run (Step program) start labels finish)
    (hstart : ∀ i, assertion i start.shared (start.locals i)) :
    labels.length + ∑ i, left i (finish.locals i) = ∑ i, left i (start.locals i) := by
  rw [length_eq_sum_count, ← Finset.sum_add_distrib]
  exact Finset.sum_congr rfl fun i _ => h.count_run hcounts hrun hstart i

/-! ### Output -/

section Output

variable {κ α : Type*} [DecidableEq κ]

/-- What one of the writers has written, where the output records who wrote what. -/
def writtenBy (i : κ) (output : List (κ × α)) : List α :=
  output.filterMap fun entry => if entry.1 = i then some entry.2 else none

theorem writtenBy_snoc (i j : κ) (output : List (κ × α)) (value : α) :
    writtenBy j (output ++ [(i, value)]) = writtenBy j output ++ if i = j then [value] else [] := by
  rw [writtenBy, List.filterMap_append, writtenBy]
  by_cases hij : i = j <;> simp [hij]

end Output

end Threads
