import FexTestBins.Library.Threads

/-!
# `pthread_cancel.cpp`

A thread that sleeps with cancellation disabled, enables it and sleeps again, and `main`, which asks
for its cancellation and prints whether the thread was canceled. How long anything sleeps is left
open, so that the request may come at any time.
-/

namespace FexTestBins.PthreadCancel

open Threads

inductive Who where
  | main
  | thread
  deriving DecidableEq

inductive Line where
  | cancellationDisabled
  | aboutToEnable
  | notCanceled
  | keyDtor
  | sendingRequest
  | wasCanceled
  | wasNotCanceled
  deriving DecidableEq

/-- What `pthread_join` stores. -/
inductive Result where
  | canceled
  | null
  deriving DecidableEq

/-- What the program meets: whether the thread can be created; whether `pthread_key_create`,
`malloc` and `pthread_setspecific` succeed, without which there is nothing to destroy; whether
`printf` is a cancellation point; and whether `pthread_cancel` fails with `ESRCH` for a thread that
has ended and is not yet joined. -/
structure Platform where
  creates : Bool
  keyed : Bool
  printfCancels : Bool
  endedIsUnknown : Bool

/-- Where the thread is; `sleeping` is inside the second `sleep`, and `destroy` behind everything
but the destructor of the key. -/
inductive ThreadPc where
  | setspecific
  | disable
  | started
  | sleep
  | about
  | enable
  | sleepAgain
  | sleeping
  | notCanceled
  | destroy (result : Result)
  | ended (result : Result)
  deriving DecidableEq

/-- Where `main` is; in the last three positions the process has ended. -/
inductive MainPc where
  | create
  | sleep
  | sending
  | cancel
  | join
  | report (result : Result)
  | exit (result : Result)
  | createFailed
  | cancelFailed
  | exited (result : Result)
  deriving DecidableEq

abbrev Local : Who → Type
  | .main => MainPc
  | .thread => ThreadPc

/-- Besides `stdout`: whether the thread was created, whether its cancellation was requested and how
it ended, whether its key has a value, and the exit status of the process once it has one. -/
structure Shared where
  output : List (Who × Line)
  created : Bool
  requested : Bool
  value : Bool
  result : Option Result
  status : Option Nat

def Shared.print (shared : Shared) (who : Who) (line : Line) : Shared :=
  { shared with output := shared.output ++ [(who, line)] }

/-- `key_dtor`, which is called for a value that is not null. -/
def Shared.destroy (shared : Shared) : Shared :=
  if shared.value then { shared.print .thread .keyDtor with value := false } else shared

variable (platform : Platform)

/-- What `main` prints about a result. -/
def verdict : Result → Line
  | .canceled => .wasCanceled
  | .null => .wasNotCanceled

/-- The statements of `thread_func` and what the library does at its end. A cancellation point acts
upon a request that was there when it was called. A request that comes during the second `sleep` is
acted upon unless the time is up. -/
inductive Thread : Shared → ThreadPc → Shared → ThreadPc → Prop
  | setspecific {shared : Shared} : shared.created = true →
      Thread shared .setspecific { shared with value := platform.keyed } .disable
  | disable {shared : Shared} : Thread shared .disable shared .started
  | started {shared : Shared} :
      Thread shared .started (shared.print .thread .cancellationDisabled) .sleep
  | sleep {shared : Shared} : Thread shared .sleep shared .about
  | about {shared : Shared} : Thread shared .about (shared.print .thread .aboutToEnable) .enable
  | enable {shared : Shared} : Thread shared .enable shared .sleepAgain
  | sleepAgain {shared : Shared} : shared.requested = false →
      Thread shared .sleepAgain shared .sleeping
  | canceledAtOnce {shared : Shared} : shared.requested = true →
      Thread shared .sleepAgain shared (.destroy .canceled)
  | timeIsUp {shared : Shared} : Thread shared .sleeping shared .notCanceled
  | canceledAsleep {shared : Shared} : shared.requested = true →
      Thread shared .sleeping shared (.destroy .canceled)
  | notCanceled {shared : Shared} : (shared.requested = false ∨ platform.printfCancels = false) →
      Thread shared .notCanceled (shared.print .thread .notCanceled) (.destroy .null)
  | canceledInPrintf {shared : Shared} : shared.requested = true →
      platform.printfCancels = true → Thread shared .notCanceled shared (.destroy .canceled)
  | destroy {shared : Shared} {result : Result} :
      Thread shared (.destroy result) { shared.destroy with result := some result } (.ended result)

/-- The statements of `main`, where `handle_error_en` exits. -/
inductive Main : Shared → MainPc → Shared → MainPc → Prop
  | create {shared : Shared} : platform.creates = true →
      Main shared .create { shared with created := true } .sleep
  | createFails {shared : Shared} : platform.creates = false →
      Main shared .create { shared with status := some 1 } .createFailed
  | sleep {shared : Shared} : Main shared .sleep shared .sending
  | sending {shared : Shared} : Main shared .sending (shared.print .main .sendingRequest) .cancel
  | cancel {shared : Shared} : (shared.result = none ∨ platform.endedIsUnknown = false) →
      Main shared .cancel { shared with requested := true } .join
  | cancelFails {shared : Shared} : shared.result ≠ none → platform.endedIsUnknown = true →
      Main shared .cancel { shared with status := some 1 } .cancelFailed
  | join {shared : Shared} {result : Result} : shared.result = some result →
      Main shared .join shared (.report result)
  | report {shared : Shared} {result : Result} :
      Main shared (.report result) (shared.print .main (verdict result)) (.exit result)
  | exit {shared : Shared} {result : Result} :
      Main shared (.exit result) { shared with status := some 0 } (.exited result)

/-- Both go on until the process ends. -/
def program : Program Shared Local
  | .main => fun shared pc shared' pc' => shared.status = none ∧ Main platform shared pc shared' pc'
  | .thread => fun shared pc shared' pc' =>
      shared.status = none ∧ Thread platform shared pc shared' pc'

abbrev State := Threads.State Shared Local

def start : State where
  shared :=
    { output := []
      created := false
      requested := false
      value := false
      result := none
      status := none }
  locals
    | .main => .create
    | .thread => .setspecific

end FexTestBins.PthreadCancel
