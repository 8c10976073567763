import FexTestBins.Library.Raise

/-!
# `sigtest_no_defer.cpp`

The handler raises its own signal, up to `NUMCOUNT` times, and each of these signals should
interrupt it. It would notice one that waits until the handler has returned by `count`, which is
counted up after the raise. `NUMCOUNT` is a parameter here.
-/

namespace FexTestBins.SigtestNoDefer

open Raise

inductive Message where
  | insideHandler
  | noDeferBug
  | nestedRaising (number : Nat)
  | sigactionFailed
  | insideMainLoop
  deriving DecidableEq

structure Env where
  loop : Bool
  count : Nat
  count2 : Nat
  printed : List Message

def Env.print (env : Env) (message : Message) : Env :=
  { env with printed := env.printed ++ [message] }

inductive MainPc where
  | start
  | loop
  deriving DecidableEq

inductive HandlerPc where
  | entry
  | raised
  deriving DecidableEq

/-- `sig_handler`, up to its raise and behind it. -/
def sigHandler (numCount : Nat) (env : Env) : HandlerPc → Env × Outcome HandlerPc Unit
  | .entry =>
      let env := env.print .insideHandler
      if env.count ≠ 0 then
        (env.print .noDeferBug, .exit (-1))
      else
        let env := { env with loop := false }
        if env.count2 < numCount then
          ({ env.print (.nestedRaising (1 + env.count)) with count2 := env.count2 + 1 },
            .raise .raised)
        else
          (env, .exit 0)
  | .raised => ({ env with count := env.count + 1 }, .done ())

/-- `main`, given what `sigaction` returns. -/
def main (sigactionReturns : Int) (env : Env) : MainPc → Env × Outcome MainPc Int
  | .start =>
      if sigactionReturns ≠ 0 then
        (env.print .sigactionFailed, .done (-3))
      else
        (env, .goto .loop)
  | .loop =>
      if env.loop then
        (env.print .insideMainLoop, .raise .loop)
      else
        (env, .done (-2))

def program (numCount : Nat) (sigactionReturns : Int) : Program Env MainPc HandlerPc :=
  { main := main sigactionReturns, handler := sigHandler numCount, entry := .entry }

def start : State Env MainPc HandlerPc :=
  { env := { loop := true, count := 0, count2 := 0, printed := [] }
    main := .start
    frames := []
    ending := none }

end FexTestBins.SigtestNoDefer
