import FexTestBins.Library.Contexts
import FexTestBins.Library.Transition

/-!
# `context-demo.c`

`NUMCONTEXTS` fibers take turns. At each `SIGALRM`, `timer_interrupt` saves the running fiber and
starts a new context that runs `scheduler`, which installs the next fiber. This is the build without
`BUGGYSETUP`; `NUMCONTEXTS` is a parameter, and so is what the calls of `malloc` return. The timer
itself is not modelled: a `SIGALRM` may arrive ahead of every statement.
-/

namespace FexTestBins.ContextDemo

open Contexts

def stackSize : BitVec 64 := 4096

/-- `contexts[i]` and `signal_context`. -/
inductive Name where
  | fiber (i : Nat)
  | signal
  deriving DecidableEq

/-- The statements of `main`: the two of `setup_signals` that matter are `signal` and `block`. -/
inductive MainPc where
  | signalStack
  | mkcontext (i : Nat)
  | signal
  | block
  | setCurContext
  | setcontext
  deriving DecidableEq

inductive SchedulerPc where
  | advance
  | setCurContext
  | setcontext
  deriving DecidableEq

inductive HandlerPc where
  | count
  | check
  | makecontext
  | swapcontext
  | uncount
  | ret
  deriving DecidableEq

inductive Base where
  | main (pc : MainPc)
  | fiber (i : Nat)
  | scheduler (pc : SchedulerPc)
  deriving DecidableEq

/-- An invocation of `timer_interrupt`, with the address of its argument `j`. -/
structure Handler where
  pc : HandlerPc
  address : BitVec 64
  deriving DecidableEq

inductive Ending where
  | exited (code : Int)
  | killed
  deriving DecidableEq

/-- The global variables; a pointer to `contexts[i]` is given by `i`, and `ssSp i` is the
`uc_stack.ss_sp` of `contexts[i]`. `installed` is the disposition of `SIGALRM`. -/
structure State where
  machine : Machine Name Base Handler
  installed : Bool
  curcontext : Nat
  curContext : Option Nat
  insig : Nat → Int
  ssSp : Nat → BitVec 64
  ending : Option Ending

inductive Event where
  | run
  | alarm (address : BitVec 64)
  deriving DecidableEq

namespace State

def endWith (s : State) (ending : Ending) : State := { s with ending := some ending }

def goto (s : State) (base : Base) : State := { s with machine := s.machine.goto base }

def handlerGoto (s : State) (pc : HandlerPc) (address : BitVec 64) : State :=
  { s with machine := s.machine.handlerGoto ⟨pc, address⟩ }

/-- A context that was never made or saved cannot be installed. -/
def install (s : State) : Option (Machine Name Base Handler) → State
  | some machine => { s with machine := machine }
  | none => s.endWith .killed

end State

def scheduler (numContexts : Nat) (s : State) : SchedulerPc → State
  | .advance =>
      { s with curcontext := (s.curcontext + 1) % numContexts }.goto (.scheduler .setCurContext)
  | .setCurContext =>
      { s with curContext := some s.curcontext }.goto (.scheduler .setcontext)
  | .setcontext =>
      match s.curContext with
      | none => s.endWith .killed
      | some i => s.install (s.machine.setcontext (.fiber i))

/-- A statement of `timer_interrupt`; behind the null pointer `cur_context` there is no context. -/
def timerInterrupt (s : State) (address : BitVec 64) : HandlerPc → State
  | .count =>
      let signest := s.insig s.curcontext
      let s := { s with insig := Function.update s.insig s.curcontext (signest + 1) }
      if signest ≠ 0 then
        s.endWith (.exited (-2))
      else
        s.handlerGoto .check address
  | .check =>
      match s.curContext with
      | none => s.endWith .killed
      | some i =>
          let used := stackSize - (address - s.ssSp i)
          if stackSize ≤ used then
            s.endWith (.exited (-1))
          else
            s.handlerGoto .makecontext address
  | .makecontext =>
      -- `sigemptyset(&signal_context.uc_sigmask)`
      { s with machine := s.machine.makecontext .signal (.scheduler .advance) false }.handlerGoto
        .swapcontext address
  | .swapcontext =>
      match s.curContext with
      | none => s.endWith .killed
      | some i =>
          let s := s.handlerGoto .uncount address
          s.install (s.machine.swapcontext (.fiber i) .signal)
  | .uncount =>
      let s := { s with insig := Function.update s.insig s.curcontext (s.insig s.curcontext - 1) }
      s.handlerGoto .ret address
  | .ret => { s with machine := s.machine.ret }

/-- `mkcontext(&contexts[i], …)`, given what `malloc` returns. -/
def mkcontext (s : State) (i : Nat) (stack : BitVec 64) : Option State :=
  if stack = 0 then
    none
  else
    some { s with
      ssSp := Function.update s.ssSp i stack
      machine := s.machine.makecontext (.fiber i) (.fiber i) false }

def main (numContexts : Nat) (malloc : Nat → BitVec 64) (s : State) : MainPc → State
  | .signalStack =>
      if malloc 0 = 0 then
        s.endWith (.exited 1)
      else
        s.goto (.main (.mkcontext 0))
  | .mkcontext i =>
      match mkcontext s i (malloc (i + 1)) with
      | none => s.endWith (.exited 1)
      | some s => s.goto (.main (if i + 1 < numContexts then .mkcontext (i + 1) else .signal))
  | .signal => { s with installed := true }.goto (.main .block)
  | .block =>
      { s with machine := { s.machine with masked := true } }.goto (.main .setCurContext)
  | .setCurContext => { s with curContext := some 0 }.goto (.main .setcontext)
  | .setcontext => s.install (s.machine.setcontext (.fiber 0))

/-- What runs goes on by one statement; the fibers do nothing. -/
def run (numContexts : Nat) (malloc : Nat → BitVec 64) (s : State) : State :=
  match s.machine.running.frames with
  | frame :: _ => timerInterrupt s frame.handler.address frame.handler.pc
  | [] =>
      match s.machine.running.base with
      | .main pc => main numContexts malloc s pc
      | .fiber _ => s
      | .scheduler pc => scheduler numContexts s pc

/-- `SIGALRM` is delivered, which ends the program as long as there is no handler for it. -/
def deliver (s : State) (address : BitVec 64) : State :=
  if s.installed then
    { s with machine := s.machine.interrupt ⟨.count, address⟩ }
  else
    s.endWith .killed

inductive Step (numContexts : Nat) (malloc : Nat → BitVec 64) : State → Event → State → Prop
  | run {s : State} (hending : s.ending = none) :
      Step numContexts malloc s .run (run numContexts malloc s)
  | alarm {s : State} (address : BitVec 64) (hending : s.ending = none)
      (hmasked : s.machine.masked = false) :
      Step numContexts malloc s (.alarm address) (deliver s address)

def start : State :=
  { machine := { running := ⟨.main .signalStack, []⟩, masked := false, contexts := fun _ => none }
    installed := false
    curcontext := 0
    curContext := none
    insig := fun _ => 0
    ssSp := fun _ => 0
    ending := none }

end FexTestBins.ContextDemo
