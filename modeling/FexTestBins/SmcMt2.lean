import FexTestBins.Library.Threads
import FexTestBins.Smc

/-!
# `smc-mt-2.cpp`

A thread writes a function into a page and calls it until the number that it returns is another one.
Meanwhile `main` stores a byte of the function. Only its `sleep` lets the thread go first, and how
long that takes is left open here, so that the statements of the two come in any order.

On a machine that is not coherent, a call may execute what an earlier one found in the page.
-/

namespace FexTestBins.SmcMt2

open Words SmcSignals Threads

inductive Who where
  | main
  | thread
  deriving DecidableEq

inductive Line where
  | generatingCode
  | waitingForCode
  | threadExiting
  | modifyingCode
  | waitingForThread
  | shouldExitNow
  deriving DecidableEq

inductive ThreadPc where
  | generating
  | store (k : Nat)
  | waiting
  | loop
  | exiting
  | ret
  | ended
  deriving DecidableEq

inductive MainPc where
  | create
  | sleep
  | modifying
  | store
  | waiting
  | sleepAgain
  | shouldExit
  | join
  | returned
  deriving DecidableEq

abbrev Local : Who → Type
  | .main => MainPc
  | .thread => ThreadPc

/-- The page, which may be written and executed throughout, `stdout`, a record of the calls and of
whether `main` has made its store, and whether the thread was created and has ended. -/
structure Shared where
  page : Page
  output : List (Who × Line)
  calls : List Smc.Call
  patched : Bool
  created : Bool
  ended : Bool

/-- What the thread stores at `code[0]`, …, `code[5]`. -/
def code : List Byte := [0xB8, 0xAA, 0xBB, 0xCC, 0xDD, 0xC3]

def Shared.print (shared : Shared) (who : Who) (line : Line) : Shared :=
  { shared with output := shared.output ++ [(who, line)] }

def Shared.called (shared : Shared) (executed : List Byte) : Shared :=
  { shared with calls := shared.calls ++ [⟨shared.page.fn, executed⟩] }

def Executable (coherent : Bool) (shared : Shared) (executed : List Byte) : Prop :=
  executed = shared.page.fn
    ∨ coherent = false ∧ ∃ call ∈ shared.calls, executed = call.current

inductive Thread (coherent : Bool) : Shared → ThreadPc → Shared → ThreadPc → Prop
  | generating {shared : Shared} : shared.created = true →
      Thread coherent shared .generating (shared.print .thread .generatingCode) (.store 0)
  | store {shared : Shared} {k : Nat} {value : Byte} : code[k]? = some value →
      Thread coherent shared (.store k) { shared with page := shared.page.store k value }
        (.store (k + 1))
  | call {shared : Shared} {executed : List Byte} : Executable coherent shared executed →
      Thread coherent shared (.store 6) (shared.called executed) .waiting
  | waiting {shared : Shared} :
      Thread coherent shared .waiting (shared.print .thread .waitingForCode) .loop
  | again {shared : Shared} {executed : List Byte} : Executable coherent shared executed →
      immediate executed = 0xDDCCBBAA →
      Thread coherent shared .loop (shared.called executed) .loop
  | leave {shared : Shared} {executed : List Byte} : Executable coherent shared executed →
      immediate executed ≠ 0xDDCCBBAA →
      Thread coherent shared .loop (shared.called executed) .exiting
  | exiting {shared : Shared} :
      Thread coherent shared .exiting (shared.print .thread .threadExiting) .ret
  | ret {shared : Shared} : Thread coherent shared .ret { shared with ended := true } .ended

/-- The statements of `main` behind `mmap`. -/
inductive Main : Shared → MainPc → Shared → MainPc → Prop
  | create {shared : Shared} : Main shared .create { shared with created := true } .sleep
  | sleep {shared : Shared} : Main shared .sleep shared .modifying
  | modifying {shared : Shared} :
      Main shared .modifying (shared.print .main .modifyingCode) .store
  | store {shared : Shared} :
      Main shared .store { shared with page := shared.page.store 3 0xFE, patched := true } .waiting
  | waiting {shared : Shared} :
      Main shared .waiting (shared.print .main .waitingForThread) .sleepAgain
  | sleepAgain {shared : Shared} : Main shared .sleepAgain shared .shouldExit
  | shouldExit {shared : Shared} :
      Main shared .shouldExit (shared.print .main .shouldExitNow) .join
  | join {shared : Shared} : shared.ended = true → Main shared .join shared .returned

def program (coherent : Bool) : Program Shared Local
  | .main => Main
  | .thread => Thread coherent

abbrev State := Threads.State Shared Local

def start : State where
  shared :=
    { page := ⟨rwx, fun _ => 0⟩
      output := []
      calls := []
      patched := false
      created := false
      ended := false }
  locals
    | .main => .create
    | .thread => .generating

end FexTestBins.SmcMt2
