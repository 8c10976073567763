import FexTestBins.Library.Layouts

/-!
# `fexreader.cpp`

`read_debug_info` gets a block of memory from the process that is being debugged, and turns the
table of blocks and the table of lines in it into calls of the debugger's callbacks. What it does is
listed in order: the loads from the block and the calls. `printf` is defined to nothing in the
source, so that the loop over the lines has an empty body.

Types are those of LP64: `long` and pointers have eight bytes, `int` has four. `GDB_CORE_ADDR` has
eight bytes, and a `gdb_line_mapping` sixteen: the line, four bytes of padding, and the address.
-/

namespace FexTestBins.FexReader

open Words Memory

abbrev Word := BitVec 64

/-- The address of a field or of an element. -/
def field (base : Word) (offset : Nat) : Word := base + BitVec.ofNat 64 offset

/-! ### `info_t`, `blocks_t` and `gdb_line_mapping` -/

def nameSize : Nat := 512

def blocksOfsAt : Nat := 512

def linesOfsAt : Nat := 520

def nblocksAt : Nat := 528

def nlinesAt : Nat := 532

def infoSize : Nat := 536

def startAt : Nat := 512

def endAt : Nat := 520

def blockSize : Nat := 528

def pcAt : Nat := 8

def lineSize : Nat := 16

def loadLong (mem : Memory 64) (addr : Word) : BitVec 64 := mem.load addr 8

def loadInt (mem : Memory 64) (addr : Word) : BitVec 32 := mem.load addr 4

/-! ### What the reader does -/

inductive Event where
  | load (addr : Word) (size : Nat)
  | objectOpen
  | symtabOpen (object fileName : Word)
  | blockOpen (symtab parent start stop name : Word)
  | lineMappingAdd (symtab : Word) (nlines : BitVec 32) (lines : Word)
  | symtabClose (symtab : Word)
  | objectClose (object : Word)
  deriving DecidableEq

/-- What the callbacks of the debugger return that open something. -/
structure Callbacks where
  objectOpen : Word
  symtabOpen : Word → Word → Word

inductive Status where
  | fail
  | success
  deriving DecidableEq

structure Result where
  events : List Event
  status : Status

variable (mem : Memory 64) (info : Word)

def nblocks : BitVec 32 := loadInt mem (field info nblocksAt)

def nlines : BitVec 32 := loadInt mem (field info nlinesAt)

/-- The body of the loop over the blocks. -/
def openBlock (blocks symtab : Word) (i : Nat) : List Event :=
  let block := field blocks (blockSize * i)
  let start := field block startAt
  let stop := field block endAt
  [.load start 8, .load stop 8,
    .blockOpen symtab 0 (loadLong mem start) (loadLong mem stop) block]

/-- `for (int i = 0; i < info->nblocks; i++)`, from some `i` on. -/
def openBlocks (blocks symtab : Word) (i : Nat) : List Event :=
  if i < (nblocks mem info).toInt then
    .load (field info nblocksAt) 4 :: openBlock mem blocks symtab i
      ++ openBlocks blocks symtab (i + 1)
  else
    [.load (field info nblocksAt) 4]
termination_by ((nblocks mem info).toInt - i).toNat
decreasing_by omega

/-- `for (int i = 0; i < info->nlines; i++)`, from some `i` on. -/
def passLines (i : Nat) : List Event :=
  if i < (nlines mem info).toInt then
    .load (field info nlinesAt) 4 :: passLines (i + 1)
  else
    [.load (field info nlinesAt) 4]
termination_by ((nlines mem info).toInt - i).toNat
decreasing_by omega

def readDebugInfo (cbs : Callbacks) (memory : Word) (_memorySz : BitVec 64) : Result :=
  let info := memory
  let blocks := loadLong mem (field info blocksOfsAt) + memory
  let lines := loadLong mem (field info linesOfsAt) + memory
  let object := cbs.objectOpen
  let symtab := cbs.symtabOpen object info
  { events :=
      [.load (field info blocksOfsAt) 8, .load (field info linesOfsAt) 8, .objectOpen,
          .symtabOpen object info]
        ++ openBlocks mem info blocks symtab 0
        ++ passLines mem info 0
        ++ [.load (field info nlinesAt) 4, .lineMappingAdd symtab (nlines mem info) lines,
          .symtabClose symtab, .objectClose object]
    status := .success }

end FexTestBins.FexReader
