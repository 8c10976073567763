import FexTestBins.Library.MaskedSignals
import FexTestBins.SmcSignals

/-!
# The thread of `smc-signals.cpp`

`main` installs `sig_handler` for five signals with `signal`, which masks the signal in its own
handler and no other, and joins a thread that sends it six thousand of them. The kernel is one that
keeps the rules of delivery and has room for the signals it queues.
-/

namespace FexTestBins.SmcSignals

inductive Signal where
  | sigint
  | sigsegv
  | sig63
  | sigusr1
  | sigusr2
  deriving DecidableEq

/-- A real-time signal is queued as often as it is sent. -/
def Signal.queued : Signal → Bool
  | .sig63 => true
  | _ => false

def signals : List Signal := [.sigint, .sigsegv, .sig63, .sigusr1, .sigusr2]

/-- The signals in the order in which `thread` sends them. -/
def thread : List Signal :=
  signals.flatMap (List.replicate 1000)
    ++ (List.range 1000).map fun i => signals.get ⟨i % 5, Nat.mod_lt i (by decide)⟩

abbrev Deliver : MaskedSignals.State Env Frame Signal → MaskedSignals.Event Signal →
    MaskedSignals.State Env Frame Signal → Prop :=
  MaskedSignals.Step program Signal.queued thread

def begin (pages : Pages) : MaskedSignals.State Env Frame Signal :=
  MaskedSignals.start (start pages)

end FexTestBins.SmcSignals
