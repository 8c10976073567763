import FexTestBins.Library.Raise

/-!
# `sigtest_samask.cpp`

The handler raises its own signal, `NUMCOUNT` times in all, and each of these signals should wait
until the handler has returned. It would notice one that does not by `count2`, which is ahead of
`count` during the raise. `NUMCOUNT` is a parameter here.
-/

namespace FexTestBins.SigtestSamask

open Raise

inductive Message where
  | insideHandler
  | handlingLast
  | reentering
  | nestedRaising (number : Nat)
  | signalFailed
  | insideMainLoop
  | insideLastLoop
  | notRaised
  | allGood
  deriving DecidableEq

/-- The four variables, what was printed, and a record of the value of `last` at each run of the
handler. -/
structure Env where
  loop : Bool
  last : Bool
  count : Nat
  count2 : Nat
  printed : List Message
  runs : List Bool

def Env.print (env : Env) (message : Message) : Env :=
  { env with printed := env.printed ++ [message] }

/-- Where `main` is: at its first statement, at the test of one of its loops, or behind the raise
in the second one. -/
inductive MainPc where
  | start
  | loop
  | lastLoop
  | raised
  deriving DecidableEq

inductive HandlerPc where
  | entry
  | raised
  deriving DecidableEq

/-- `sig_handler`, up to its raise and behind it. -/
def sigHandler (numCount : Nat) (env : Env) : HandlerPc → Env × Outcome HandlerPc Unit
  | .entry =>
      let env := { env.print .insideHandler with runs := env.runs ++ [env.last] }
      if env.last then
        ({ env.print .handlingLast with loop := false }, .done ())
      else if env.count2 ≠ env.count then
        (env.print .reentering, .exit (-1))
      else
        let env := { env with loop := false }
        if env.count < numCount then
          ({ env.print (.nestedRaising (1 + env.count)) with count2 := env.count2 + 1 },
            .raise .raised)
        else
          (env, .done ())
  | .raised => ({ env with count := env.count + 1 }, .done ())

/-- `main`, given what `signal` returns. -/
def main (signalReturns : Int) (env : Env) : MainPc → Env × Outcome MainPc Int
  | .start =>
      if signalReturns ≠ 0 then
        (env.print .signalFailed, .done (-2))
      else
        ({ env with last := false, loop := true }, .goto .loop)
  | .loop =>
      if env.loop then
        (env.print .insideMainLoop, .raise .loop)
      else
        ({ env with last := true, loop := true }, .goto .lastLoop)
  | .lastLoop =>
      if env.loop then
        (env.print .insideLastLoop, .raise .raised)
      else
        (env.print .allGood, .done 0)
  | .raised =>
      if env.loop then
        (env.print .notRaised, .done (-3))
      else
        (env, .goto .lastLoop)

def program (numCount : Nat) (signalReturns : Int) : Program Env MainPc HandlerPc :=
  { main := main signalReturns, handler := sigHandler numCount, entry := .entry }

def start : State Env MainPc HandlerPc :=
  { env := { loop := true, last := false, count := 0, count2 := 0, printed := [], runs := [] }
    main := .start
    frames := []
    ending := none }

end FexTestBins.SigtestSamask
