import FexTestBins.Library.Interrupts
import FexTestBins.Library.Words
import Mathlib.Data.Fin.VecNotation
import Mathlib.Logic.Function.Basic

/-!
# `smc-signals.cpp`

Every signal runs `sig_handler`, which counts it and calls `smc_test`: map a page, and ten times
over write a small function into it, patch it, change its protection and call it. Signals interrupt
the main program and active handlers alike between any two statements.

A call executes the six bytes in the page or, on a machine that keeps stale translations, six bytes
that were executed from the same address before; which, is the machine's choice.
-/

namespace FexTestBins.SmcSignals

open Words

structure Prot where
  write : Bool
  exec : Bool
  deriving DecidableEq

/-- `PROT_READ | PROT_WRITE | PROT_EXEC` -/
def rwx : Prot := { write := true, exec := true }

/-- `PROT_READ | PROT_EXEC` -/
def rx : Prot := { write := false, exec := true }

structure Page where
  prot : Prot
  bytes : Nat → Byte

/-- The six bytes at the start of a page, which are the function called. -/
def Page.fn (page : Page) : List Byte := (List.range 6).map page.bytes

abbrev Addr := BitVec 64

abbrev Pages := Addr → Option Page

/-- The statements of the loop in `smc_test`; `call j` is `auto e(j+1) = fn()`. -/
inductive Stmt where
  | store (k : Nat) (value : Byte)
  | call (j : Fin 4)
  | mprotect (prot : Prot)
  | check
  | count
  | usleep
  deriving DecidableEq

def body : List Stmt :=
  [.store 0 0xB8, .store 1 0xAA, .store 2 0xBB, .store 3 0xCC, .store 4 0xDD,
    .store 5 0xC3,
    .call 0,
    .store 3 0xFE,
    .call 1,
    .mprotect rx,
    .mprotect rwx,
    .store 3 0xF3,
    .mprotect rx,
    .call 2,
    .mprotect rwx,
    .store 3 0xF1,
    .call 3,
    .check,
    .count,
    .usleep]

/-- The constants that `e1`, …, `e4` are compared with. -/
def expected : Fin 4 → BitVec 32 := ![0xDDCCBBAA, 0xDDFEBBAA, 0xDDF3BBAA, 0xDDF1BBAA]

/-- Where an invocation is: before its `mmap`, in round `k` before statement `i` of the body,
before its `munmap`, before its return. -/
inductive Pc where
  | mmap
  | body (k i : Nat)
  | munmap
  | ret
  deriving DecidableEq

/-- An invocation of `sig_handler` and `smc_test` with its locals. `stored` is a record of the last
byte it stored at each index of `code`. -/
structure Frame where
  pc : Pc
  code : Addr
  e : Fin 4 → BitVec 32
  stored : Nat → Option Byte

def Frame.stmt (frame : Frame) : Option Stmt :=
  match frame.pc with
  | .body _ i => body[i]?
  | _ => none

/-- The page that an invocation has mapped and not yet unmapped. -/
def Frame.page (frame : Frame) : Option Addr :=
  match frame.pc with
  | .body _ _ => some frame.code
  | .munmap => some frame.code
  | _ => none

def Frame.advance (frame : Frame) : Frame :=
  match frame.pc with
  | .body k i => { frame with pc := .body k (i + 1) }
  | _ => frame

/-- A call that was made: where, the six bytes then in the page, and the six bytes executed. -/
structure Call where
  addr : Addr
  current : List Byte
  executed : List Byte

/-- What the invocations share: the page table, the three counters and flags of the program, the
calls made so far, and the exit code once `main` has returned. -/
structure Env where
  pages : Pages
  failed : Bool
  count : Nat
  sigcount : Nat
  calls : List Call
  exitCode : Option Nat

/-- The little-endian immediate of the `mov` at the start of the bytes executed. -/
def immediate (executed : List Byte) : BitVec 32 :=
  BitVec.ofNat 32 (ofLE ((executed.drop 1).take 4))

/-- The bytes that a call at an address may execute: those in the page, or those that were there
when some earlier call was made at the same address. -/
def Executable (env : Env) (addr : Addr) (current executed : List Byte) : Prop :=
  executed = current ∨ ∃ call ∈ env.calls, call.addr = addr ∧ executed = call.current

/-- `code[k] = value` -/
def Page.store (page : Page) (k : Nat) (value : Byte) : Page :=
  { page with bytes := Function.update page.bytes k value }

/-- The statements of an invocation. A store into a page that is not writable, or a call into one
that is not executable, is a fault and has no step. -/
inductive Act : Env → Frame → Env → Option Frame → Prop
  | mmap {env : Env} {frame : Frame} {addr : Addr} :
      frame.pc = .mmap → env.pages addr = none →
      Act env frame
        { env with pages := Function.update env.pages addr (some ⟨rwx, fun _ => 0⟩) }
        (some { frame with pc := .body 0 0, code := addr })
  | store {env : Env} {frame : Frame} {page : Page} {k : Nat} {value : Byte} :
      frame.stmt = some (.store k value) → env.pages frame.code = some page →
      page.prot.write = true →
      Act env frame
        { env with pages := Function.update env.pages frame.code (some (page.store k value)) }
        (some { frame.advance with stored := Function.update frame.stored k (some value) })
  | call {env : Env} {frame : Frame} {page : Page} {j : Fin 4} {executed : List Byte} :
      frame.stmt = some (.call j) → env.pages frame.code = some page → page.prot.exec = true →
      Executable env frame.code page.fn executed →
      Act env frame
        { env with calls := ⟨frame.code, page.fn, executed⟩ :: env.calls }
        (some { frame.advance with e := Function.update frame.e j (immediate executed) })
  | mprotect {env : Env} {frame : Frame} {page : Page} {prot : Prot} :
      frame.stmt = some (.mprotect prot) → env.pages frame.code = some page →
      Act env frame
        { env with
          pages := Function.update env.pages frame.code (some { page with prot := prot }) }
        (some frame.advance)
  | check {env : Env} {frame : Frame} :
      frame.stmt = some .check →
      Act env frame
        { env with failed := env.failed || decide (∃ j, frame.e j ≠ expected j) }
        (some frame.advance)
  | count {env : Env} {frame : Frame} :
      frame.stmt = some .count →
      Act env frame { env with count := env.count + 1 } (some frame.advance)
  | usleep {env : Env} {frame : Frame} :
      frame.stmt = some .usleep → Act env frame env (some frame.advance)
  | again {env : Env} {frame : Frame} {k : Nat} :
      frame.pc = .body k body.length → k + 1 < 10 →
      Act env frame env (some { frame with pc := .body (k + 1) 0 })
  | done {env : Env} {frame : Frame} {k : Nat} :
      frame.pc = .body k body.length → ¬ k + 1 < 10 →
      Act env frame env (some { frame with pc := .munmap })
  | munmap {env : Env} {frame : Frame} :
      frame.pc = .munmap →
      Act env frame { env with pages := Function.update env.pages frame.code none }
        (some { frame with pc := .ret })
  | ret {env : Env} {frame : Frame} :
      frame.pc = .ret → Act env frame env none

/-- The delivery of a signal, which is taken to include the first statement of the handler,
`sigcount++`. With that an invocation counts as started. -/
inductive Enter : Env → Env → Frame → Prop
  | mk {env : Env} {frame : Frame} : env.exitCode = none → frame.pc = .mmap →
      frame.stored = (fun _ => none) → Enter env { env with sigcount := env.sigcount + 1 } frame

/-- `return failed ? 1 : 0`, once `pthread_join` has returned. -/
inductive Main : Env → Env → Prop
  | mk {env : Env} : env.exitCode = none →
      Main env { env with exitCode := some (if env.failed then 1 else 0) }

def program : Interrupts.Program Env Frame :=
  { enter := Enter, act := Act, main := Main }

/-- Before the first signal, with whatever else the process has mapped. -/
def start (pages : Pages) : Interrupts.State Env Frame :=
  { env := { pages := pages, failed := false, count := 0, sigcount := 0, calls := []
             exitCode := none }
    frames := [] }

end FexTestBins.SmcSignals
