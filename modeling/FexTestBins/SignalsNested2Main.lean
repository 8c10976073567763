import FexTestBins.Library.Interrupts
import FexTestBins.NestedTest

/-!
# `sighandler`, `thread` and `main` of `signals-nested-2.cpp`

`main` waits for a thread, which sends it `SIGUSR1` again and again until a thousand signals are
counted, and then exits. The signal is masked when `sighandler` is entered. Having printed and
counted, the handler empties the mask, so that its hundred calls of `test` can be interrupted by the
next one. A signal that is sent while one is pending is lost. The generated code is a parameter.
-/

namespace FexTestBins.SignalsNested2Main

open X86 NestedTest

/-- Where `sighandler` is: at its first statements, up to `sigprocmask`, or in its loop. -/
inductive Pc where
  | printf
  | count
  | sigprocmask
  | test (pc : NestedTest.Pc)

/-- Whether `SIGUSR1` is masked there. -/
def Pc.masked : Pc → Bool
  | .test _ => false
  | _ => true

inductive ThreadPc where
  | pthreadKill
  | usleep
  | check
  | printf
  | exit
  deriving DecidableEq

/-- `"Signal"` and `"Finished"`. -/
inductive Line where
  | signal
  | finished
  deriving DecidableEq

structure Env where
  maps : Addr → Option Code
  sigcount : Nat
  output : List Line
  exitCode : Option Nat

/-- The statements of `sighandler`. -/
inductive Act (code : Code) : Env → Pc → Env → Option Pc → Prop
  | printf {env : Env} :
      Act code env .printf { env with output := env.output ++ [.signal] } (some .count)
  | count {env : Env} :
      Act code env .count { env with sigcount := env.sigcount + 1 } (some .sigprocmask)
  | sigprocmask {env : Env} : Act code env .sigprocmask env (some (.test (.loop 0)))
  | test {env : Env} {pc : NestedTest.Pc} {maps : Addr → Option Code}
      {after : Option NestedTest.Pc} :
      NestedTest.Act code 100 env.maps pc maps after →
      Act code env (.test pc) { env with maps := maps } (after.map .test)

/-- The main thread, which has nothing but handlers to run: it is in `pthread_join`. -/
def program (code : Code) : Interrupts.Program Env Pc :=
  { enter := fun env env' pc => env.exitCode = none ∧ env' = env ∧ pc = .printf
    act := fun env pc env' after => env.exitCode = none ∧ Act code env pc env' after
    main := fun _ _ => False }

/-- The main thread, whether a signal is pending for it, and the other thread. There is a record of
whether the main thread has made a step since the last `pthread_kill`. -/
structure State where
  mainthread : Interrupts.State Env Pc
  pending : Bool
  thread : ThreadPc
  moved : Bool

inductive Event where
  | kill
  | wake
  | check
  | report
  | exit
  | deliver
  | run
  deriving DecidableEq

/-- A pending signal is delivered when it is not masked, that is, unless the handler entered last
has not emptied the mask yet. -/
inductive Step (code : Code) : State → Event → State → Prop
  | kill {s : State} :
      s.mainthread.env.exitCode = none → s.thread = .pthreadKill →
      Step code s .kill { s with pending := true, thread := .usleep, moved := false }
  | wake {s : State} :
      s.mainthread.env.exitCode = none → s.thread = .usleep →
      Step code s .wake { s with thread := .check }
  | check {s : State} :
      s.mainthread.env.exitCode = none → s.thread = .check →
      Step code s .check { s with
        thread := if 1000 ≤ s.mainthread.env.sigcount then .printf else .pthreadKill }
  | report {env : Env} {frames : List Pc} {pending moved : Bool} :
      env.exitCode = none →
      Step code ⟨⟨env, frames⟩, pending, .printf, moved⟩ .report
        ⟨⟨{ env with output := env.output ++ [.finished] }, frames⟩, pending, .exit, moved⟩
  | exit {env : Env} {frames : List Pc} {pending moved : Bool} :
      env.exitCode = none →
      Step code ⟨⟨env, frames⟩, pending, .exit, moved⟩ .exit
        ⟨⟨{ env with exitCode := some 0 }, frames⟩, pending, .exit, moved⟩
  | deliver {s : State} {mainthread : Interrupts.State Env Pc} :
      s.pending = true → (∀ pc ∈ s.mainthread.frames.head?, pc.masked = false) →
      Interrupts.Step (program code) s.mainthread .signal mainthread →
      Step code s .deliver { s with mainthread := mainthread, pending := false, moved := true }
  | run {s : State} {mainthread : Interrupts.State Env Pc} :
      Interrupts.Step (program code) s.mainthread .run mainthread →
      Step code s .run { s with mainthread := mainthread, moved := true }

/-- The steps if `usleep` lasts long enough for the main thread to make one. -/
def Prompt (code : Code) (s : State) (event : Event) (next : State) : Prop :=
  Step code s event next ∧ (event = .wake → s.moved = true)

/-- When the thread has been created, with whatever else the process has mapped. -/
def start (maps : Addr → Option Code) : State :=
  { mainthread := ⟨{ maps := maps, sigcount := 0, output := [], exitCode := none }, []⟩
    pending := false
    thread := .pthreadKill
    moved := false }

end FexTestBins.SignalsNested2Main
