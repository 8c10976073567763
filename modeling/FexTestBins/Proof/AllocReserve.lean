import FexTestBins.Proof.AllocLoop

/-!
# `StealMemoryRegion` reserves the free space

The ranges mapped are the gaps between the listed regions, so what is known of gaps in general
applies to them.
-/

namespace FexTestBins.Alloc

open Words IntervalGaps Transition

def rangesOf (mmaps : List (Word × Word)) : List (Word × Word) :=
  mmaps.map fun call => (call.1, call.1 + call.2)

theorem rangesOf_calls (ranges : List (Word × Word)) : rangesOf (Vars.calls ranges) = ranges := by
  rw [rangesOf, Vars.calls, List.map_map]
  apply List.map_id''
  intro range
  have hend : range.1 + (range.2 - range.1) = range.2 := by
    rw [BitVec.add_comm, BitVec.sub_add_cancel]
  exact Prod.ext rfl hend

def PageAligned (addr : Word) : Prop := addr.toNat % 4096 = 0

/-- What a sequence of `mmap` calls has to be, to take all free space and nothing else. -/
structure ReservesFreeSpace (args : Args) (regions mmaps : List (Word × Word)) : Prop where
  nonempty : ∀ range ∈ rangesOf mmaps, range.1 < range.2
  increasing : (rangesOf mmaps).Pairwise fun first second => first.2 ≤ second.1
  exact : cover (rangesOf mmaps) = Set.Ico args.beginAddr args.endAddr \ cover regions
  aligned : PageAligned args.beginAddr → PageAligned args.endAddr →
    (∀ region ∈ regions, PageAligned region.1 ∧ PageAligned region.2) →
    ∀ range ∈ rangesOf mmaps, PageAligned range.1 ∧ PageAligned range.2

variable {args : Args} {lines : List MapsLine}

theorem lt_of_mem_freeGaps (hsorted : Sorted 0 (lines.map MapsLine.region)) :
    ∀ gap ∈ freeGaps args lines, gap.1 < gap.2 := by
  intro gap hgap
  exact (bounds_of_mem_gaps hsorted hgap).2.1

theorem mmaps_finalProgram (hsorted : Sorted 0 (lines.map MapsLine.region)) :
    (finalProgram args lines).mmaps = Vars.calls (freeGaps args lines) :=
  Vars.mmaps_reserveAll (lt_of_mem_freeGaps hsorted)

theorem reservesFreeSpace_finalProgram (hsorted : Sorted 0 (lines.map MapsLine.region)) :
    ReservesFreeSpace args (lines.map MapsLine.region) (finalProgram args lines).mmaps := by
  rw [mmaps_finalProgram hsorted]
  constructor
  · rw [rangesOf_calls]
    exact lt_of_mem_freeGaps hsorted
  · rw [rangesOf_calls]
    exact gaps_pairwise hsorted
  · rw [rangesOf_calls, freeGaps, cover_gaps hsorted, max_zero_word]
  · intro hbegin hend hregions range hrange
    rw [rangesOf_calls] at hrange
    exact endpoint_of_mem_gaps hbegin hend (show PageAligned 0 by rfl) hregions hrange

/-- The line `1000-2000 r`. -/
def shortLine : MapsLine where
  regionBegin := 0x1000
  regionEnd := 0x2000
  beginNumeral := ⟨lastDigits 4 0x1000, by decide, by decide, by decide⟩
  endNumeral := ⟨lastDigits 4 0x2000, by decide, by decide, by decide⟩
  rest := [ascii 'r']
  no_newline := by decide

def shortDelivery : Delivery (mapsText [shortLine]) where
  pieces := [shortLine.text.take 7, shortLine.text.drop 7]
  flatten_eq := by decide
  nonempty := by decide
  length_le := by decide

end FexTestBins.Alloc
