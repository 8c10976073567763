import FexTestBins.Library.Words

/-!
# `section-test.cpp` and `copyable-functions.h`

A function is specialised at run time by copying the section it is in and storing a pair of
pointers, the target and the marshaler to call it through, into the info area of the copy. In
`section-test.cpp` the function finds its info area through the immediate of a `movabs`, which is
patched as well; `CopyableTrampoline` relies on an address relative to the instruction pointer.
-/

namespace FexTestBins.CopyableFunctions

open Words

abbrev Word := BitVec 64

/-- A section with a copyable function and its info area, as linked. -/
structure Section where
  start : Word
  stop : Word
  canonical : Word
  info : Word
  info_inside : (info - start).toNat + 16 ≤ (stop - start).toNat

namespace Section

/-- `__stop_test_func_section - __start_test_func_section` -/
def size (sec : Section) : Nat := (sec.stop - sec.start).toNat

def codeOffset (sec : Section) : Word := sec.canonical - sec.start

def infoOffset (sec : Section) : Word := sec.info - sec.start

end Section

/-- The section of `test_func_canonical`, where `patch` is the `movabs`; its immediate lies inside
the section and outside the info area. -/
structure TestFuncSection extends Section where
  patch : Word
  patch_inside : (patch - start).toNat + 2 + 8 ≤ (stop - start).toNat
  patch_apart : (patch - start).toNat + 2 + 8 ≤ (info - start).toNat
    ∨ (info - start).toNat + 16 ≤ (patch - start).toNat + 2

def TestFuncSection.patchOffset (sec : TestFuncSection) : Word := sec.patch - sec.start

/-- `test_func_make_instance` with `ADDR_PATCH`, when `mmap` returns `inst`: the memory afterwards
and the function returned. -/
def testFuncMakeInstance (sec : TestFuncSection) (mem : Memory 64) (inst fnPtr fnMarshal : Word) :
    Memory 64 × Word :=
  let mem := mem.write inst (mem.read sec.start sec.size)
  let info := inst + sec.infoOffset
  let mem := mem.storeWord (inst + sec.patchOffset + 2) info
  let mem := mem.storeWord info fnPtr
  let mem := mem.storeWord (info + 8) fnMarshal
  (mem, inst + sec.codeOffset)

/-- `CopyableTrampoline::make_instance`, which is built without `ADDR_PATCH`. -/
def makeInstance (sec : Section) (mem : Memory 64) (inst target marshaler : Word) :
    Memory 64 × Word :=
  let mem := mem.write inst (mem.read sec.start sec.size)
  let info := inst + sec.infoOffset
  let mem := mem.storeWord info target
  let mem := mem.storeWord (info + 8) marshaler
  (mem, inst + sec.codeOffset)

/-- The call that a trampoline ends in. -/
structure MarshalerCall (Args : Type) where
  marshaler : Word
  args : Args
  target : Word
  deriving DecidableEq

/-- `info->marshaler(args..., info->target)` -/
def callThrough {Args : Type} (mem : Memory 64) (info : Word) (args : Args) : MarshalerCall Args :=
  { marshaler := mem.loadWord (info + 8), args := args, target := mem.loadWord info }

/-- A copy of `test_func_canonical` at `entry`, where the immediate of its `movabs` is at the same
distance as in the original. -/
def testFuncCanonical (sec : TestFuncSection) (mem : Memory 64) (entry : Word)
    (args : BitVec 32 × Word) : MarshalerCall (BitVec 32 × Word) :=
  callThrough mem (mem.loadWord (entry + (sec.patch - sec.canonical) + 2)) args

/-- A copy of `trampoline_canonical` at `entry`, which addresses its info area relative to the
instruction pointer. -/
def trampolineCanonical {Args : Type} (sec : Section) (mem : Memory 64) (entry : Word)
    (args : Args) : MarshalerCall Args :=
  callThrough mem (entry + (sec.info - sec.canonical)) args

/-- The arguments of a call of `make_instance` with what its `mmap` returned. -/
structure Request where
  inst : Word
  target : Word
  marshaler : Word

def testFuncMakeInstances (sec : TestFuncSection) (mem : Memory 64) (requests : List Request) :
    Memory 64 :=
  requests.foldl (fun mem r => (testFuncMakeInstance sec mem r.inst r.target r.marshaler).1) mem

/-- Successive calls of `CopyableTrampoline::make_instance`, each with a section of its own. -/
def makeInstances (mem : Memory 64) (requests : List (Section × Request)) : Memory 64 :=
  requests.foldl (fun mem (sec, r) => (makeInstance sec mem r.inst r.target r.marshaler).1) mem

/-- What is assumed of `mmap`: an instance has no byte in common with a section or with an earlier
instance. -/
structure Fresh (requests : List (Section × Request)) : Prop where
  sections : ∀ x ∈ requests, ∀ y ∈ requests,
    Memory.Apart x.1.start x.1.size y.2.inst y.1.size
  instances : requests.Pairwise fun x y => Memory.Apart x.2.inst x.1.size y.2.inst y.1.size

end FexTestBins.CopyableFunctions
