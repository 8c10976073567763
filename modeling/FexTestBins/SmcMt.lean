import FexTestBins.Library.Threads
import FexTestBins.Smc
import Mathlib.Logic.Function.Basic

/-!
# `smc-mt.cpp`

Threads that each map a page and, a hundred times over, run on it the statements of `test` in
`smc.cpp` and print a verdict on each of the four values. A call executes the six bytes in the page
or, on a machine that keeps stale translations, six bytes that were executed from the same address
before, by whichever thread. How many threads there are is a parameter, which is 100 in the source.
-/

namespace FexTestBins.SmcMt

open Words SmcSignals Smc Threads

variable {n : Nat}

/-- A mapped page, with a record of the thread that mapped it, if any did. -/
structure Mapping (n : Nat) where
  owner : Option (Fin n)
  page : Page

/-- What the threads share: the address space, `stdout` with a record of who printed a line, a
record of the calls that each thread made, and which threads were created and have ended. -/
structure Shared (n : Nat) where
  pages : Addr → Option (Mapping n)
  output : List (Fin n × Line)
  calls : Fin n → List SmcSignals.Call
  created : Nat
  ended : Fin n → Bool

/-- Where a thread is: before its `mmap`, in round `k` before statement `i` of the loop, of which
the last four are the lines, or behind the loop. -/
inductive Pc where
  | mmap
  | body (k i : Nat)
  | ended
  deriving DecidableEq

structure Frame where
  pc : Pc
  code : Addr
  e : Fin 4 → BitVec 32

/-- `pthread_create(&tid[k], …)`, `pthread_join(tid[k], …)`, and the end of `main`. -/
inductive MainPc where
  | create (k : Nat)
  | join (k : Nat)
  | returned
  deriving DecidableEq

/-- The main thread, and those that it creates. -/
abbrev Who (n : Nat) := Option (Fin n)

abbrev Local : Who n → Type
  | none => MainPc
  | some _ => Frame

def Shared.map (shared : Shared n) (code : Addr) (mapping : Mapping n) : Shared n :=
  { shared with pages := Function.update shared.pages code (some mapping) }

def Shared.called (shared : Shared n) (i : Fin n) (call : SmcSignals.Call) : Shared n :=
  { shared with calls := Function.update shared.calls i (shared.calls i ++ [call]) }

/-- The bytes that a call may execute. -/
def Executable (shared : Shared n) (code : Addr) (current executed : List Byte) : Prop :=
  executed = current
    ∨ ∃ i, ∃ call ∈ shared.calls i, call.addr = code ∧ executed = call.current

/-- The line that `printf` writes for the value `e(j+1)`. -/
def line (e : Fin 4 → BitVec 32) (j : Fin 4) : Line :=
  ⟨j.val + 1, e j, verdict (e j ≠ expected j)⟩

/-- The statements of `thread`. A store into a page that is not writable, or a call into one that is
not executable, is a fault and has no step. -/
inductive Thread (i : Fin n) : Shared n → Frame → Shared n → Frame → Prop
  | mmap {shared : Shared n} {frame : Frame} {addr : Addr} :
      i.val < shared.created → frame.pc = .mmap → shared.pages addr = none →
      Thread i shared frame (shared.map addr ⟨some i, rwx, fun _ => 0⟩)
        { frame with pc := .body 0 0, code := addr }
  | store {shared : Shared n} {frame : Frame} {k r : Nat} {b : Nat} {value : Byte}
      {mapping : Mapping n} :
      frame.pc = .body k r → Smc.body[r]? = some (.store b value) →
      shared.pages frame.code = some mapping → mapping.page.prot.write = true →
      Thread i shared frame
        (shared.map frame.code { mapping with page := mapping.page.store b value })
        { frame with pc := .body k (r + 1) }
  | call {shared : Shared n} {frame : Frame} {k r : Nat} {j : Fin 4} {executed : List Byte}
      {mapping : Mapping n} :
      frame.pc = .body k r → Smc.body[r]? = some (.call j) →
      shared.pages frame.code = some mapping → mapping.page.prot.exec = true →
      Executable shared frame.code mapping.page.fn executed →
      Thread i shared frame (shared.called i ⟨frame.code, mapping.page.fn, executed⟩)
        { frame with pc := .body k (r + 1), e := Function.update frame.e j (immediate executed) }
  | mprotect {shared : Shared n} {frame : Frame} {k r : Nat} {prot : Prot} {mapping : Mapping n} :
      frame.pc = .body k r → Smc.body[r]? = some (.mprotect prot) →
      shared.pages frame.code = some mapping →
      Thread i shared frame
        (shared.map frame.code { mapping with page := { mapping.page with prot := prot } })
        { frame with pc := .body k (r + 1) }
  | printf {shared : Shared n} {frame : Frame} {k : Nat} {j : Fin 4} :
      frame.pc = .body k (17 + j) →
      Thread i shared frame { shared with output := shared.output ++ [(i, line frame.e j)] }
        { frame with pc := .body k (17 + j + 1) }
  | again {shared : Shared n} {frame : Frame} {k : Nat} :
      frame.pc = .body k 21 → k + 1 < 100 →
      Thread i shared frame shared { frame with pc := .body (k + 1) 0 }
  | ret {shared : Shared n} {frame : Frame} {k : Nat} :
      frame.pc = .body k 21 → ¬ k + 1 < 100 →
      Thread i shared frame { shared with ended := Function.update shared.ended i true }
        { frame with pc := .ended }

/-- The statements of `main`, where no `pthread_create` fails. -/
inductive Main : Shared n → MainPc → Shared n → MainPc → Prop
  | create {shared : Shared n} {k : Nat} :
      k < n → Main shared (.create k) { shared with created := k + 1 } (.create (k + 1))
  | created {shared : Shared n} : Main shared (.create n) shared (.join 0)
  | join {shared : Shared n} {k : Fin n} :
      shared.ended k = true → Main shared (.join k) shared (.join (k + 1))
  | ret {shared : Shared n} : Main shared (.join n) shared .returned

def program : Program (Shared n) (Local (n := n))
  | none => Main
  | some i => Thread i

abbrev State (n : Nat) := Threads.State (Shared n) (Local (n := n))

/-- The start of `main`, with whatever the process has mapped. -/
def start (n : Nat) (init : Pages) : State n where
  shared :=
    { pages := fun addr => (init addr).map fun page => ⟨none, page⟩
      output := []
      calls := fun _ => []
      created := 0
      ended := fun _ => false }
  locals
    | none => .create 0
    | some _ => { pc := .mmap, code := 0, e := fun _ => 0 }

end FexTestBins.SmcMt
