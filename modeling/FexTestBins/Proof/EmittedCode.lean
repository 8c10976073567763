import FexTestBins.SignalsNested

/-!
# What the generated code does

The emission loop is a power of one block emission, so the finished buffer is known byte by byte.
Its execution is then followed block by block, and inside a block instruction by instruction.
-/

namespace FexTestBins

open Words X86 Transition

/-! ### The buffer that `gencode` leaves behind -/

namespace Generator

variable {gen : Generator} {bytes : List Byte} {block : Vector Byte 12} {codeSize : Nat}

theorem emitAll_cons {byte : Byte} :
    gen.emitAll (byte :: bytes) = (gen.emit byte).emitAll bytes := rfl

theorem stores_emitAll :
    (gen.emitAll bytes).stores = gen.stores ++ List.range' gen.i bytes.length := by
  induction bytes generalizing gen with
  | nil => simp [emitAll]
  | cons byte rest ih =>
      rw [emitAll_cons, ih, stores_emit, i_emit, List.length_cons, List.range'_succ,
        List.append_assoc, List.singleton_append]

theorem code_emitAll_of_lt {offset : Nat} (hlt : offset < gen.i) :
    (gen.emitAll bytes).code offset = gen.code offset := by
  induction bytes generalizing gen with
  | nil => rfl
  | cons byte rest ih =>
      rw [emitAll_cons, ih (by rw [i_emit]; omega), code_emit, Function.update_of_ne (by omega)]

theorem code_emitAll {k : Nat} (hk : k < bytes.length) :
    (gen.emitAll bytes).code (gen.i + k) = bytes[k] := by
  induction bytes generalizing gen k with
  | nil => simp at hk
  | cons byte rest ih =>
      rw [emitAll_cons]
      cases k with
      | zero =>
          rw [code_emitAll_of_lt (by rw [i_emit]; omega)]
          simp
      | succ k =>
          have hrest := @ih (gen.emit byte) k (by simpa using hk)
          rw [List.getElem_cons_succ, ← hrest, i_emit]
          congr 1
          omega

/-- The number of blocks the loop emits, `(CODE_SIZE - 100) / 12` rounded up. -/
def blockCount (codeSize : Nat) : Nat := (codeSize - 100 + 11) / 12

/-- The loop runs as often as blocks of twelve fit before `CODE_SIZE - 100` is reached. -/
theorem emitBlocks_eq_iterate :
    gen.emitBlocks block codeSize
      = (fun g : Generator => g.emitAll block.toList)^[(codeSize - 100 - gen.i + 11) / 12] gen := by
  fun_induction emitBlocks block codeSize gen with
  | case1 gen hlt ih =>
      rw [ih, i_emitAll, Vector.length_toList]
      have hcount : (codeSize - 100 - gen.i + 11) / 12
          = (codeSize - 100 - (gen.i + 12) + 11) / 12 + 1 := by omega
      rw [hcount, Function.iterate_succ_apply]
  | case2 gen hge =>
      have hcount : (codeSize - 100 - gen.i + 11) / 12 = 0 := by omega
      rw [hcount, Function.iterate_zero_apply]

/-- The state after a number of blocks: `i` and the stores have advanced by twelve for each, and
each block is in place. -/
structure Emitted (block : Vector Byte 12) (count : Nat) (gen : Generator) : Prop where
  i_eq : gen.i = 12 * count
  stores_eq : gen.stores = List.range (12 * count)
  code_eq : ∀ b < count, ∀ k (hk : k < 12), gen.code (12 * b + k) = block[k]

theorem Emitted.emitAll {count : Nat} (h : Emitted block count gen) :
    Emitted block (count + 1) (gen.emitAll block.toList) where
  i_eq := by
    rw [i_emitAll, h.i_eq, Vector.length_toList]
    omega
  stores_eq := by
    have hrange := List.range'_append_1 (s := 0) (m := 12 * count) (n := 12)
    rw [Nat.zero_add, ← List.range_eq_range', ← List.range_eq_range'] at hrange
    rw [stores_emitAll, h.stores_eq, h.i_eq, Vector.length_toList, hrange, Nat.mul_succ]
  code_eq := by
    intro b hb k hk
    by_cases hlast : b = count
    · subst hlast
      rw [← h.i_eq, code_emitAll (by simpa using hk), Vector.getElem_toList]
    · rw [code_emitAll_of_lt (by rw [h.i_eq]; omega)]
      exact h.code_eq b (by omega) k hk

theorem emitted_iterate (block : Vector Byte 12) (file : Nat → Byte) (count : Nat) :
    Emitted block count ((fun g : Generator => g.emitAll block.toList)^[count] ⟨file, 0, []⟩) := by
  induction count with
  | zero => exact ⟨rfl, rfl, fun b hb => absurd hb (by omega)⟩
  | succ count ih =>
      rw [Function.iterate_succ_apply']
      exact ih.emitAll

end Generator

open Generator

section Buffer

variable (block : Vector Byte 12) (codeSize : Nat) (file : Nat → Byte)

theorem gencodeWith_eq : gencodeWith block codeSize file
    = ((fun g : Generator => g.emitAll block.toList)^[blockCount codeSize]
        ⟨file, 0, []⟩).emit 0xC3 := by
  rw [gencodeWith, emitBlocks_eq_iterate]
  rfl

theorem stores_gencodeWith :
    (gencodeWith block codeSize file).stores = List.range (12 * blockCount codeSize + 1) := by
  have h := emitted_iterate block file (blockCount codeSize)
  rw [gencodeWith_eq, stores_emit, h.stores_eq, h.i_eq, List.range_succ]

/-- The slack of 100 bytes leaves room for the last block and the `ret`. -/
theorem blockCount_lt (hsize : 100 ≤ codeSize) : 12 * blockCount codeSize + 1 ≤ codeSize := by
  rw [blockCount]
  omega

theorem placed_block (hsize : 100 ≤ codeSize) {b : Nat} (hb : b < blockCount codeSize) :
    Placed (mappedCode codeSize (gencodeWith block codeSize file).code) (12 * b)
      block.toList := by
  intro k hk
  have hk' : k < 12 := by simpa using hk
  have h := emitted_iterate block file (blockCount codeSize)
  have hroom := blockCount_lt codeSize hsize
  rw [mappedCode, if_pos (by omega), gencodeWith_eq, code_emit, h.i_eq,
    Function.update_of_ne (by omega), h.code_eq b hb k hk', Vector.getElem_toList]

theorem placed_ret (hsize : 100 ≤ codeSize) :
    Placed (mappedCode codeSize (gencodeWith block codeSize file).code)
      (12 * blockCount codeSize) (encode .ret) := by
  intro k hk
  obtain rfl : k = 0 := by simpa [encode] using hk
  have h := emitted_iterate block file (blockCount codeSize)
  have hroom := blockCount_lt codeSize hsize
  rw [mappedCode, if_pos (by omega), gencodeWith_eq, code_emit, h.i_eq]
  simp [encode]

end Buffer

end FexTestBins
