import FexTestBins.Library.Transition
import Mathlib.Order.Interval.Finset.Nat

/-!
# `reserve-address-space.cpp`

`main` asks for ever smaller ranges, from `2^51` bytes down to a page, as long as the kernel still
finds a gap of the size. The kernel is the set of free pages; which gap a request is served from is
its choice, so the program is a transition relation labelled by what `mmap` returned.
-/

namespace FexTestBins.ReserveAddressSpace

open Transition

def pageSize : Nat := 4096

def enomem : Nat := 12

def eperm : Nat := 1

/-- The first page of the new mapping, or `MAP_FAILED` with the value of `errno`. -/
inductive MmapResult where
  | mapped (page : Nat)
  | failed (errno : Nat)
  deriving DecidableEq

/-- Where `main` is: at the test of the outer loop, at the `mmap` of the inner loop, behind the
`break` of the inner loop, or back from `main`. -/
inductive Pc where
  | outer
  | inner
  | halve
  | returned (value : Int)
  deriving DecidableEq

structure State where
  pc : Pc
  totalLen : BitVec 64
  allocLen : BitVec 64
  free : Finset Nat

def start (free : Finset Nat) : State :=
  { pc := .outer, totalLen := 0, allocLen := 1 <<< 51, free := free }

def pages (page len : Nat) : Finset Nat :=
  Finset.Ico page (page + len / pageSize)

/-- The body of the inner loop after `mmap` has returned. -/
def State.afterMmap (state : State) : MmapResult → State
  | .failed errno =>
      if errno ≠ enomem ∧ errno ≠ eperm then
        { state with pc := .returned (-1) }
      else
        { state with pc := .halve }
  | .mapped page =>
      { state with
        totalLen := state.totalLen + state.allocLen
        free := state.free \ pages page state.allocLen.toNat }

/-- Every byte from `addr` on, `len` of them, lies in a free page. -/
def FreeRun (free : Finset Nat) (addr len : Nat) : Prop :=
  ∀ byte, addr ≤ byte → byte < addr + len → byte / pageSize ∈ free

/-- A kernel: what `mmap` of a length may return, given the free pages. -/
abbrev Kernel := Finset Nat → Nat → MmapResult → Prop

/-- A request succeeds exactly if some free run is long enough, and may then take any such run that
is page-aligned. -/
inductive Exact : Kernel
  | mapped {free : Finset Nat} {len page : Nat} :
      FreeRun free (page * pageSize) len → Exact free len (.mapped page)
  | failed {free : Finset Nat} {len errno : Nat} :
      (∀ addr, ¬ FreeRun free addr len) → errno = enomem ∨ errno = eperm →
        Exact free len (.failed errno)

/-- A request may also fail at any time and for any reason. -/
inductive Flaky : Kernel
  | mapped {free : Finset Nat} {len page : Nat} :
      FreeRun free (page * pageSize) len → Flaky free len (.mapped page)
  | failed {free : Finset Nat} {len errno : Nat} : Flaky free len (.failed errno)

/-- The steps of `main` over a kernel; a step at the `mmap` is labelled by its result. -/
inductive Step (kernel : Kernel) : State → Option MmapResult → State → Prop
  | enter {state : State} : state.pc = .outer → pageSize ≤ state.allocLen.toNat →
      Step kernel state none { state with pc := .inner }
  | leave {state : State} : state.pc = .outer → state.allocLen.toNat < pageSize →
      Step kernel state none { state with pc := .returned 0 }
  | mmap {state : State} {result : MmapResult} : state.pc = .inner →
      kernel state.free state.allocLen.toNat result →
      Step kernel state (some result) (state.afterMmap result)
  | halve {state : State} : state.pc = .halve →
      Step kernel state none { state with pc := .outer, allocLen := state.allocLen >>> 1 }

end FexTestBins.ReserveAddressSpace
