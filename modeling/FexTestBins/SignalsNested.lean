import FexTestBins.Library.X86
import Mathlib.Logic.Function.Basic

/-!
# Code generation in `signals-nested.cpp` and `signals-nested-2.cpp`

Both programs fill a file with blocks of twelve bytes and a final `ret`, map it executable and call
it from a signal handler. `CODE_SIZE` is a parameter here; the two generators differ in the bytes
of a block only.
-/

namespace FexTestBins

open Words X86

/-- `gencode` while it runs: the shared mapping, `i`, and a record of the indices stored to. -/
structure Generator where
  code : Nat → Byte
  i : Nat
  stores : List Nat

namespace Generator

/-- `code[i++] = byte` -/
def emit (gen : Generator) (byte : Byte) : Generator :=
  { code := Function.update gen.code gen.i byte
    i := gen.i + 1
    stores := gen.stores ++ [gen.i] }

@[simp]
theorem i_emit (gen : Generator) (byte : Byte) : (gen.emit byte).i = gen.i + 1 := rfl

@[simp]
theorem stores_emit (gen : Generator) (byte : Byte) :
    (gen.emit byte).stores = gen.stores ++ [gen.i] := rfl

@[simp]
theorem code_emit (gen : Generator) (byte : Byte) :
    (gen.emit byte).code = Function.update gen.code gen.i byte := rfl

def emitAll (gen : Generator) (bytes : List Byte) : Generator :=
  bytes.foldl emit gen

theorem i_emitAll (gen : Generator) (bytes : List Byte) :
    (gen.emitAll bytes).i = gen.i + bytes.length := by
  induction bytes generalizing gen with
  | nil => rfl
  | cons byte rest ih =>
      rw [emitAll, List.foldl_cons, ← emitAll, ih, i_emit, List.length_cons]
      omega

/-- `while (i < (CODE_SIZE - 100))`, with the twelve stores of its body. -/
def emitBlocks (block : Vector Byte 12) (codeSize : Nat) (gen : Generator) : Generator :=
  if gen.i < codeSize - 100 then
    emitBlocks block codeSize (gen.emitAll block.toList)
  else
    gen
termination_by codeSize - 100 - gen.i
decreasing_by
  rw [i_emitAll, Vector.length_toList]
  omega

end Generator

/-- The loop, then `code[i++] = 0xC3`, on a file with arbitrary content. -/
def gencodeWith (block : Vector Byte 12) (codeSize : Nat) (file : Nat → Byte) : Generator :=
  (Generator.emitBlocks block codeSize ⟨file, 0, []⟩).emit 0xC3

/-- What `test` maps and calls: the first `CODE_SIZE` bytes of the file. -/
def mappedCode (codeSize : Nat) (file : Nat → Byte) : Code := fun offset =>
  if offset < codeSize then some (file offset) else none

/-- The call `fn()`. -/
def fnEntry (eax : BitVec 32) (zf : Bool) : Cpu :=
  { ip := 0, eax := eax, zf := zf, returned := false }

namespace SignalsNested

/-- `mov eax, 0xFFFFFFFE`, `ladd: add eax, 1`, `jnz ladd`, say the comments on these bytes. -/
def block : Vector Byte 12 :=
  ⟨#[0xB8, 0xFF, 0xFF, 0xFF, 0xFE, 0x05, 0, 0, 0, 1, 0x75, BitVec.ofInt 8 (-7)], rfl⟩

def gencode (codeSize : Nat) (file : Nat → Byte) : Generator := gencodeWith block codeSize file

end SignalsNested

namespace SignalsNested2

def block : Vector Byte 12 :=
  ⟨#[0xB8, 0xFE, 0xFF, 0xFF, 0xFF, 0x05, 1, 0, 0, 0, 0x75, BitVec.ofInt 8 (-7)], rfl⟩

def gencode (codeSize : Nat) (file : Nat → Byte) : Generator := gencodeWith block codeSize file

end SignalsNested2

end FexTestBins
