import FexTestBins.Library.Interrupts
import FexTestBins.NestedTest

/-!
# `sighandler` and `main` of `signals-nested.cpp`

`main` arms a timer and sleeps. Each `SIGALRM` runs `sighandler`, with `SA_NODEFER` also on top of
handlers that are still active: it counts the signal, exits from the 1001st on, and otherwise calls
`test` ten times. The generated code is a parameter. The timer is not modelled: a signal may come at
any time, also between the last two statements of `main`.
-/

namespace FexTestBins.SignalsNestedMain

open X86 NestedTest

/-- Where `sighandler` is: at `sigcount++`, in the three statements of the exit, or in its loop. -/
inductive Pc where
  | count
  | timerDelete
  | printf
  | exit
  | test (pc : NestedTest.Pc)

/-- Where `main` is behind its sleep. -/
inductive MainPc where
  | printf
  | ret
  deriving DecidableEq

/-- `"Count: %ld"` and `"Partial Count: %ld"`. -/
inductive Line where
  | count (n : Nat)
  | partialCount (n : Nat)
  deriving DecidableEq

structure Env where
  maps : Addr → Option Code
  sigcount : Nat
  main : MainPc
  output : List Line
  exitCode : Option Nat

/-- `if (sigcount++ >= 1000)` -/
def afterCount (sigcount : Nat) : Pc := if 1000 ≤ sigcount then .timerDelete else .test (.loop 0)

/-- The statements of `sighandler`. -/
inductive Act (code : Code) : Env → Pc → Env → Option Pc → Prop
  | count {env : Env} :
      Act code env .count { env with sigcount := env.sigcount + 1 } (some (afterCount env.sigcount))
  | timerDelete {env : Env} : Act code env .timerDelete env (some .printf)
  | printf {env : Env} :
      Act code env .printf { env with output := env.output ++ [.count env.sigcount] } (some .exit)
  | exit {env : Env} : Act code env .exit { env with exitCode := some 0 } (some .exit)
  | test {env : Env} {pc : NestedTest.Pc} {maps : Addr → Option Code}
      {after : Option NestedTest.Pc} :
      NestedTest.Act code 10 env.maps pc maps after →
      Act code env (.test pc) { env with maps := maps } (after.map .test)

/-- A signal is delivered as long as the process lives. -/
inductive Enter : Env → Env → Pc → Prop
  | mk {env : Env} : env.exitCode = none → Enter env env .count

/-- `sleep(1)` has returned, because of a signal or for the time: `main` prints, and returns 1. -/
inductive Main : Env → Env → Prop
  | printf {env : Env} :
      env.exitCode = none → env.main = .printf →
      Main env { env with main := .ret, output := env.output ++ [.partialCount env.sigcount] }
  | ret {env : Env} :
      env.exitCode = none → env.main = .ret → Main env { env with exitCode := some 1 }

def program (code : Code) : Interrupts.Program Env Pc :=
  { enter := Enter
    act := fun env pc env' after => env.exitCode = none ∧ Act code env pc env' after
    main := Main }

/-- When the timer has been armed, with whatever else the process has mapped. -/
def start (maps : Addr → Option Code) : Interrupts.State Env Pc :=
  { env := { maps := maps, sigcount := 0, main := .printf, output := [], exitCode := none }
    frames := [] }

end FexTestBins.SignalsNestedMain
