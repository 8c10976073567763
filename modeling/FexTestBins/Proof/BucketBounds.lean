import FexTestBins.Proof.AllocReserve
import Mathlib.Data.List.Induction

/-!
# Stores beyond the end of a bucket

A bucket is declared with 33 slots, but filled with up to 32 pairs: the seventeenth pair goes into
slots 32 and 33, and everything after it is beyond the end as well.
-/

namespace FexTestBins.Alloc

open Words IntervalGaps Transition

namespace Buckets

variable {args : Args} {b : Buckets} {mapBegin mapSize : Word} {calls : List (Word × Word)}

def appendAll (args : Args) (calls : List (Word × Word)) : Buckets :=
  calls.foldl (fun b call => b.append args call.1 call.2) (init args)

theorem appendAll_snoc {call : Word × Word} : appendAll args (calls ++ [call])
    = (appendAll args calls).append args call.1 call.2 := by
  rw [appendAll, List.foldl_append, ← appendAll]
  rfl

/-- How many buckets are full and linked, and how many pairs the last one has, after `n` pairs. -/
def linked (n : Nat) : Nat := (n - 1) / bucketEntries

def used (n : Nat) : Nat := n - bucketEntries * linked n

/-- The three variables that say where the next pair goes. -/
structure Counts (args : Args) (n : Nat) (b : Buckets) : Prop where
  current : b.current = args.alloca (linked n)
  position : b.position = 2 * used n
  allocas : b.allocas = linked n + 1

theorem counts_init : Counts args 0 (init args) := ⟨rfl, rfl, rfl⟩

theorem grow_of_full (hfull : b.position = bucketEntries * 2) : b.grow args
    = { b.store (bucketEntries * 2 + 1) (args.alloca b.allocas) with
        current := args.alloca b.allocas, position := 0, allocas := b.allocas + 1 } :=
  if_pos hfull

theorem grow_of_room (hroom : b.position ≠ bucketEntries * 2) : b.grow args = b :=
  if_neg hroom

theorem Counts.append {n : Nat} (h : Counts args n b) :
    Counts args (n + 1) (b.append args mapBegin mapSize) := by
  have hposition := h.position
  by_cases hfull : b.position = bucketEntries * 2
  · have hlinked : linked (n + 1) = linked n + 1 := by
      unfold used linked bucketEntries at *
      omega
    have hused : used (n + 1) = 1 := by
      unfold used linked bucketEntries at *
      omega
    rw [Buckets.append, grow_of_full hfull]
    refine ⟨?_, ?_, ?_⟩
    · rw [hlinked, ← h.allocas]
      rfl
    · rw [hused]
      rfl
    · rw [hlinked, ← h.allocas]
      rfl
  · have hlinked : linked (n + 1) = linked n := by
      unfold used linked bucketEntries at *
      omega
    have hused : used (n + 1) = used n + 1 := by
      unfold used linked bucketEntries at *
      omega
    rw [Buckets.append, grow_of_room hfull]
    refine ⟨?_, ?_, ?_⟩
    · rw [hlinked]
      exact h.current
    · rw [hused, Nat.mul_add, ← hposition]
      rfl
    · rw [hlinked]
      exact h.allocas

theorem counts_appendAll (args : Args) (calls : List (Word × Word)) :
    Counts args calls.length (appendAll args calls) := by
  induction calls using List.reverseRecOn with
  | nil => exact counts_init
  | append_singleton calls call ih =>
      rw [appendAll_snoc, List.length_append]
      exact ih.append

theorem stores_append : (b.append args mapBegin mapSize).stores = b.stores ++
    if b.position = bucketEntries * 2 then [bucketEntries * 2 + 1, 0, 1, 2]
    else [b.position, b.position + 1, b.position + 2] := by
  by_cases hfull : b.position = bucketEntries * 2
  · rw [if_pos hfull, append, grow_of_full hfull]
    simp [push, store]
  · rw [if_neg hfull, append, grow_of_room hfull]
    simp [push, store]

/-- The stores are inside the buckets as long as the first bucket is at most half full. -/
theorem stores_inside_iff (args : Args) (calls : List (Word × Word)) :
    (∀ index ∈ (appendAll args calls).stores, index < bucketEntries + 1)
      ↔ calls.length ≤ 16 := by
  induction calls using List.reverseRecOn with
  | nil => simp [appendAll, init]
  | append_singleton calls call ih =>
      have hposition := (counts_appendAll args calls).position
      rw [appendAll_snoc, stores_append, List.length_append, List.length_singleton]
      simp only [List.mem_append, or_imp, forall_and, ih]
      unfold used linked bucketEntries at *
      split
      · simp
        omega
      · simp
        omega

end Buckets

variable {args : Args} {lines : List MapsLine}

theorem buckets_finalProgram (hsorted : Sorted 0 (lines.map MapsLine.region)) :
    (finalProgram args lines).buckets
      = Buckets.appendAll args (Vars.calls (freeGaps args lines)) :=
  Vars.buckets_reserveAll (lt_of_mem_freeGaps hsorted)

theorem exists_final (args : Args) (hsorted : Sorted 0 (lines.map MapsLine.region))
    (delivery : Delivery (mapsText lines)) (buffer : Nat → Byte) :
    ∃ final : State (List (List Byte)),
      Iterates (State.step frozenKernel args) (State.start args delivery.pieces buffer) final
        ∧ final.pc = .afterGrab (args.alloca 0)
        ∧ final.vars.mmaps = Vars.calls (freeGaps args lines)
        ∧ final.vars.buckets = Buckets.appendAll args (Vars.calls (freeGaps args lines)) := by
  obtain ⟨final, hrun, hpc, hprogram⟩ := State.iterates_frozen args delivery buffer
  have hmmaps : final.vars.mmaps = (finalProgram args lines).mmaps := congrArg Vars.mmaps hprogram
  have hbuckets : final.vars.buckets = (finalProgram args lines).buckets :=
    congrArg Vars.buckets hprogram
  exact ⟨final, hrun, hpc, hmmaps.trans (mmaps_finalProgram hsorted),
    hbuckets.trans (buckets_finalProgram hsorted)⟩

/-- **When the stores stay inside.** With the bounds of `steal`, every index stored to is below the
length of `PtrSize` if and only if the listed regions leave at most 16 gaps. -/
theorem stores_inside_iff_gaps (alloca : Nat → Word) (lines : List MapsLine)
    (hsorted : Sorted 0 (lines.map MapsLine.region)) (delivery : Delivery (mapsText lines))
    (buffer : Nat → Byte) : ∃ final : State (List (List Byte)),
    Iterates (State.step frozenKernel (stealArgs alloca))
        (State.start (stealArgs alloca) delivery.pieces buffer) final
      ∧ final.pc = .afterGrab (alloca 0)
      ∧ ((∀ index ∈ final.vars.buckets.stores, index < bucketEntries + 1)
        ↔ (freeGaps (stealArgs alloca) lines).length ≤ 16) := by
  obtain ⟨final, hrun, hpc, -, hbuckets⟩ := exists_final (stealArgs alloca) hsorted delivery buffer
  refine ⟨final, hrun, hpc, ?_⟩
  rw [hbuckets, Buckets.stores_inside_iff, Vars.calls, List.length_map]

theorem stores_inside_iff_gaps_short :
    ∃ final : State (List (List Byte)),
      Iterates (State.step frozenKernel (stealArgs fun _ => 0x9000))
          (State.start (stealArgs fun _ => 0x9000) shortDelivery.pieces fun _ => 0) final
        ∧ final.pc = .afterGrab 0x9000
        ∧ ∀ index ∈ final.vars.buckets.stores, index < bucketEntries + 1 := by
  obtain ⟨final, hrun, hpc, hinside⟩ := stores_inside_iff_gaps (fun _ => 0x9000) [shortLine]
    (by decide) shortDelivery fun _ => 0
  exact ⟨final, hrun, hpc, hinside.mpr (by decide)⟩

/-- Regions of one page with a page free before each of them, and free space behind. -/
def spacedRegions (count : Nat) : List (Word × Word) :=
  (List.range count).map fun i =>
    (BitVec.ofNat 64 (0x11000 + 0x2000 * i), BitVec.ofNat 64 (0x12000 + 0x2000 * i))

def spacedText (count : Nat) : List Byte := mapsText ((spacedRegions count).map .padded)

def sixteenRegions : List MapsLine := (spacedRegions 16).map .padded

/-- With 17 gaps a store is beyond the end of the bucket. -/
theorem stores_outside_sixteenRegions : ∃ final : State (List (List Byte)),
    Iterates (State.step frozenKernel (stealArgs fun _ => 0x9000))
        (State.start (stealArgs fun _ => 0x9000)
          (Delivery.bytewise (mapsText sixteenRegions)).pieces fun _ => 0) final
      ∧ final.pc = .afterGrab 0x9000
      ∧ ¬ ∀ index ∈ final.vars.buckets.stores, index < bucketEntries + 1 := by
  have hsorted : Sorted 0 (sixteenRegions.map MapsLine.region) := by decide
  obtain ⟨final, hrun, hpc, -, hbuckets⟩ := exists_final (stealArgs fun _ => 0x9000) hsorted
    (Delivery.bytewise (mapsText sixteenRegions)) fun _ => 0
  refine ⟨final, hrun, hpc, ?_⟩
  have hcount : (freeGaps (stealArgs fun _ => 0x9000) sixteenRegions).length = 17 := by decide
  rw [hbuckets, Buckets.stores_inside_iff, Vars.calls, List.length_map, hcount]
  decide

/-- A listing in one piece, and `mmap` calls that all succeed. -/
def spacedScript (count : Nat) : Script where
  result i := [.data (spacedText count)].getD i (.data [])
  succeeds _ := true

theorem cut_spacedScript {count : Nat} (hsome : spacedText count ≠ []) :
    Cut (spacedScript count) 1 (spacedText count) where
  not_final := by
    intro i hi
    obtain rfl : i = 0 := by omega
    exact hsome
  delivered := List.append_nil _
  end_of_file := rfl

end FexTestBins.Alloc
