import FexTestBins.Library.Transition
import FexTestBins.Library.Words

/-!
# `alloc.cpp`

Before `_start`, `StealMemoryRegion` reads `/proc/self/maps` byte by byte and maps every range
between two listed regions, so that later only memory it hands out itself is left. The ranges it
took are recorded in a chain of buckets on the stack, which `AfterGrab` gets.

The kernel is a parameter with a state of its own, since `mmap` changes what a later `read` of the
maps file returns. `open`, `close` and the copy of the text that goes to `stderr` are left out.
-/

namespace FexTestBins.Alloc

open Words

abbrev Word := BitVec 64

def bucketEntries : Nat := 32

def eagain : Nat := 11

def ascii (c : Char) : Byte := BitVec.ofNat 8 c.toNat

/-- What `read` returned: the bytes, none at the end of the file, or -1 with `errno`. -/
inductive ReadResult where
  | data (bytes : List Byte)
  | error (errno : Nat)

/-- The system calls on the maps file and the address space. -/
structure Kernel (σ : Type) where
  read : σ → ReadResult × σ
  mmap : σ → Word → Word → σ

/-- The arguments of `StealMemoryRegion`, and what its calls of `alloca` return one by one. -/
structure Args where
  beginAddr : Word
  endAddr : Word
  alloca : Nat → Word

def stealArgs (alloca : Nat → Word) : Args :=
  { beginAddr := 1 <<< 16, endAddr := 0x800000000000 - 4 * 1024, alloca := alloca }

/-! ### The chain of buckets -/

/-- The buckets by address, with every slot that was not written `none`; `stores` is a record of
the indices stored to. They have as many slots here as the code indexes. What becomes of the loop
with the slots that `PtrSize` is declared with, is `State.boundedStep`. -/
structure Buckets where
  current : Word
  position : Nat
  allocas : Nat
  ptrSize : Word → Nat → Option Word
  stores : List Nat

namespace Buckets

def init (args : Args) : Buckets :=
  { current := args.alloca 0
    position := 0
    allocas := 1
    ptrSize := fun _ _ => none
    stores := [] }

/-- `Current->PtrSize[index] = value` -/
def store (b : Buckets) (index : Nat) (value : Word) : Buckets :=
  { b with
    ptrSize := Function.update b.ptrSize b.current
      (Function.update (b.ptrSize b.current) index (some value))
    stores := b.stores ++ [index] }

/-- `Current->PtrSize[Position++] = value` -/
def push (b : Buckets) (value : Word) : Buckets :=
  { b.store b.position value with position := b.position + 1 }

def grow (args : Args) (b : Buckets) : Buckets :=
  if b.position = bucketEntries * 2 then
    let next := args.alloca b.allocas
    { b.store (bucketEntries * 2 + 1) next with
      current := next
      position := 0
      allocas := b.allocas + 1 }
  else
    b

def append (args : Args) (b : Buckets) (mapBegin mapSize : Word) : Buckets :=
  let b := ((b.grow args).push mapBegin).push mapSize
  b.store b.position 0

end Buckets

/-! ### One byte -/

/-- `enum {ParseBegin, ParseEnd, ScanEnd} State` -/
inductive ParseState where
  | parseBegin
  | parseEnd
  | scanEnd
  deriving DecidableEq

/-- The variables that outlive a byte, with the kernel and a record of the `mmap` calls made. -/
structure Vars (σ : Type) where
  buckets : Buckets
  state : ParseState
  regionBegin : Word
  regionEnd : Word
  kernel : σ
  mmaps : List (Word × Word)

/-- `c <= '9' ? (c - '0') : (c - 'a' + 10)`, an `int`, as it is converted to `uintptr_t`. -/
def digit (c : Byte) : Word :=
  BitVec.ofInt 64 (if c.toInt ≤ (ascii '9').toInt then c.toInt - (ascii '0').toInt
    else c.toInt - (ascii 'a').toInt + 10)

/-- `(r << 4) | digit`, with which `RegionBegin` and `RegionEnd` are read. -/
def shiftIn (r : Word) (c : Byte) : Word := r <<< 4 ||| digit c

variable {σ : Type} (kernel : Kernel σ) (args : Args)

namespace Vars

def init (k : σ) : Vars σ :=
  { buckets := Buckets.init args
    state := .parseBegin
    regionBegin := 0
    regionEnd := 0
    kernel := k
    mmaps := [] }

/-- The block that maps a range and records it, which the source has twice. -/
def reserve (v : Vars σ) (mapBegin mapEnd : Word) : Vars σ :=
  if mapEnd > mapBegin then
    let mapSize := mapEnd - mapBegin
    { v with
      kernel := kernel.mmap v.kernel mapBegin mapSize
      mmaps := v.mmaps ++ [(mapBegin, mapSize)]
      buckets := v.buckets.append args mapBegin mapSize }
  else
    v

/-- The body of the loop for one byte. -/
def consume (v : Vars σ) (c : Byte) : Vars σ :=
  match v.state with
  | .scanEnd => if c = ascii '\n' then { v with state := .parseBegin } else v
  | .parseBegin =>
      if c = ascii '-' then
        { v.reserve kernel args (max v.regionEnd args.beginAddr)
            (min v.regionBegin args.endAddr) with
          regionBegin := 0
          regionEnd := 0
          state := .parseEnd }
      else
        { v with regionBegin := shiftIn v.regionBegin c }
  | .parseEnd =>
      if c = ascii ' ' then
        { v with state := .scanEnd }
      else
        { v with regionEnd := shiftIn v.regionEnd c }

end Vars

/-! ### The loop -/

/-- Where the loop is: before the test of `Remaining`, behind it, or left through `AfterGrab`. -/
inductive Pc where
  | top
  | body
  | afterGrab (root : Word)
  deriving DecidableEq

structure State (σ : Type) where
  vars : Vars σ
  buffer : Nat → Byte
  cursor : Nat
  remaining : Int
  pc : Pc

namespace State

/-- `read` into the buffer, once more if it fails with `EAGAIN`. -/
def refill (s : State σ) : State σ :=
  match kernel.read s.vars.kernel with
  | (.data bytes, k) =>
      { vars := { s.vars with kernel := k }
        buffer := fun i => bytes.getD i (s.buffer i)
        cursor := 0
        remaining := bytes.length
        pc := .body }
  | (.error errno, k) =>
      if errno = eagain then
        { s with vars := { s.vars with kernel := k } }
      else
        { s with vars := { s.vars with kernel := k }, cursor := 0, remaining := -1, pc := .body }

def endOfFile (s : State σ) : State σ :=
  { s with
    vars := s.vars.reserve kernel args (max s.vars.regionEnd args.beginAddr) args.endAddr
    pc := .afterGrab (args.alloca 0) }

def nextByte (s : State σ) : State σ :=
  { s with
    vars := s.vars.consume kernel args (s.buffer s.cursor)
    cursor := s.cursor + 1
    remaining := s.remaining - 1
    pc := .top }

def step (s : State σ) : State σ :=
  match s.pc with
  | .top => if s.remaining = 0 then s.refill kernel else { s with pc := .body }
  | .body =>
      if s.remaining = 0 ∧ s.vars.state = .parseBegin then
        s.endOfFile kernel args
      else
        s.nextByte kernel args
  | .afterGrab _ => s

/-- `StealMemoryRegion` before its loop, over whatever is on the stack where the buffer is. -/
def start (k : σ) (buffer : Nat → Byte) : State σ :=
  { vars := Vars.init args k, buffer := buffer, cursor := 0, remaining := 0, pc := .top }

end State

/-! ### Buckets of the declared length -/

/-- All stores went to one of the `BucketEntries + 1` slots of `PtrSize`. -/
def Buckets.Inside (b : Buckets) : Prop := ∀ index ∈ b.stores, index < bucketEntries + 1

instance (b : Buckets) : Decidable b.Inside :=
  inferInstanceAs (Decidable (∀ index ∈ b.stores, index < bucketEntries + 1))

/-- The loop with `PtrSize` as it is declared: a store beyond its end overwrites whatever the stack
has there, such as `End`, and counts as a fault. -/
def State.boundedStep : Option (State σ) → Option (State σ) :=
  Transition.checked (fun s => s.vars.buckets.Inside) (State.step kernel args)

end FexTestBins.Alloc
