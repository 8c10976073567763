import FexTestBins.Library.Transition
import FexTestBins.ProcMaps

/-!
# Arbitrary system calls

Nothing obliges `read` to deliver a well-formed text, nor `mmap` to succeed. Here both are given by
a script: what the `read` calls return one after another, and which of the `mmap` calls succeed. A
step of the loop is labelled with the byte that it takes from the buffer.
-/

namespace FexTestBins.Alloc

open Words

namespace ReadResult

def bytes : ReadResult → List Byte
  | .data bytes => bytes
  | .error _ => []

/-- The end of the file, or an error that is not worth another try. -/
def Final : ReadResult → Prop
  | .data bytes => bytes = []
  | .error errno => errno ≠ eagain

instance (result : ReadResult) : Decidable result.Final :=
  match result with
  | .data bytes => inferInstanceAs (Decidable (bytes = []))
  | .error errno => inferInstanceAs (Decidable (errno ≠ eagain))

end ReadResult

structure Script where
  result : Nat → ReadResult
  succeeds : Nat → Bool

/-- How many reads were made, and the `mmap` calls with whether they succeeded. -/
structure Scripted where
  reads : Nat
  answers : List ((Word × Word) × Bool)

def Scripted.init : Scripted := { reads := 0, answers := [] }

def Script.kernel (script : Script) : Kernel Scripted where
  read k := (script.result k.reads, { k with reads := k.reads + 1 })
  mmap k mapBegin mapSize :=
    { k with answers := k.answers ++ [((mapBegin, mapSize), script.succeeds k.answers.length)] }

/-- What the first reads deliver. -/
def Script.delivered (script : Script) (reads : Nat) : List Byte :=
  (List.range reads).flatMap fun i => (script.result i).bytes

/-- A stream is cut into the bytes of the first reads, some of which may have to be tried again, and
after them the file is at its end. -/
structure Cut (script : Script) (reads : Nat) (bytes : List Byte) : Prop where
  not_final : ∀ i < reads, ¬ (script.result i).Final
  delivered : script.delivered reads = bytes
  end_of_file : script.result reads = .data []

namespace State

variable {σ : Type}

/-- What `*Cursor++` yields in the next step, if it comes to it. -/
def consumed (s : State σ) : Option Byte :=
  if s.pc = .body ∧ ¬ (s.remaining = 0 ∧ s.vars.state = .parseBegin) then
    some (s.buffer s.cursor)
  else
    none

def ByteStep (kernel : Kernel σ) (args : Args) (s : State σ) (label : Option Byte)
    (next : State σ) : Prop :=
  label = s.consumed ∧ s.step kernel args = next

/-- A byte is taken only if one remains, and it is one of those the last read delivered. -/
def InsideInput (script : Script) (s : State Scripted) : Prop :=
  ∀ c, s.consumed = some c → 0 < s.remaining
    ∧ ∃ last bytes, s.vars.kernel.reads = last + 1 ∧ script.result last = .data bytes
      ∧ bytes[s.cursor]? = some c

end State

end FexTestBins.Alloc
