import FexTestBins.Proof.EmittedCode

/-!
# Executing the generated code

In `signals-nested-2.cpp` a block counts from `0xFFFFFFFE` to zero in two additions. In
`signals-nested.cpp` the bytes of both immediates are in the wrong order: the block adds
`0x01000000` to a number whose low 24 bits are all ones, and these stay ones for ever.
-/

namespace FexTestBins

open Words X86 Transition Generator

namespace SignalsNested2

/-- The instructions of one block in the order they are executed, with their offsets. -/
def blockFetches (base : Nat) : List (Nat × Instr) :=
  [(base, .movEax 0xFFFFFFFE), (base + 5, .addEax 1), (base + 10, .jnz 0xF9),
    (base + 5, .addEax 1), (base + 10, .jnz 0xF9)]

theorem block_eq : block.toList
    = encode (.movEax 0xFFFFFFFE) ++ (encode (.addEax 1) ++ encode (.jnz 0xF9)) := by
  decide

variable {code : Code} {base : Nat}

theorem run_block (eax : BitVec 32) (zf : Bool) (hplaced : Placed code base block.toList) :
    Run (Step code) ⟨base, eax, zf, false⟩ (blockFetches base) ⟨base + 12, 0, true, false⟩ := by
  obtain ⟨hmov, hadd, hjnz⟩ := placed_loop (block_eq ▸ hplaced)
  have hload : Step code ⟨base, eax, zf, false⟩ (base, .movEax 0xFFFFFFFE)
      ⟨base + 5, 0xFFFFFFFE, zf, false⟩ := step_of_placed hmov rfl (exec_movEax _)
  have hfirst : Step code ⟨base + 5, 0xFFFFFFFE, zf, false⟩ (base + 5, .addEax 1)
      ⟨base + 10, 0xFFFFFFFF, false, false⟩ := step_of_placed hadd rfl (exec_addEax _ _ rfl)
  have hback : Step code ⟨base + 10, 0xFFFFFFFF, false, false⟩ (base + 10, .jnz 0xF9)
      ⟨base + 5, 0xFFFFFFFF, false, false⟩ := by
    refine step_of_placed hjnz rfl (exec_jnz_of_not_zero rfl ?_)
    have hrel : (0xF9 : BitVec 8).toInt = -7 := by decide
    simp only [hrel]
    omega
  have hsecond : Step code ⟨base + 5, 0xFFFFFFFF, false, false⟩ (base + 5, .addEax 1)
      ⟨base + 10, 0, true, false⟩ := by
    have hwrap : (0xFFFFFFFF : BitVec 32) + 1 = 0 := by decide
    exact step_of_placed hadd rfl (exec_addEax _ _ hwrap)
  have hthrough : Step code ⟨base + 10, 0, true, false⟩ (base + 10, .jnz 0xF9)
      ⟨base + 12, 0, true, false⟩ := step_of_placed hjnz rfl (exec_jnz_of_zero rfl)
  exact .cons hload (.cons hfirst (.cons hback (.cons hsecond (.single hthrough))))

theorem run_blocks (eax : BitVec 32) (zf : Bool) (count : Nat)
    (hplaced : ∀ b < count, Placed code (12 * b) block.toList) :
    ∃ after : Cpu, Run (Step code) (fnEntry eax zf)
        ((List.range count).flatMap fun b => blockFetches (12 * b)) after
      ∧ after.ip = 12 * count ∧ after.eax = (if count = 0 then eax else 0)
      ∧ after.returned = false := by
  induction count with
  | zero => exact ⟨fnEntry eax zf, .refl _, rfl, rfl, rfl⟩
  | succ count ih =>
      obtain ⟨⟨ip, eax', zf', returned⟩, hrun, hip, -, hlive⟩ := ih fun b hb => hplaced b (by omega)
      cases hip
      cases hlive
      have hblock := run_block eax' zf' (hplaced count (by omega))
      refine ⟨⟨12 * count + 12, 0, true, false⟩, ?_, rfl, rfl, rfl⟩
      rw [List.range_succ, List.flatMap_append, List.flatMap_singleton]
      exact hrun.trans hblock

theorem length_blockFetches (count : Nat) :
    ((List.range count).flatMap fun b => blockFetches (12 * b)).length = 5 * count := by
  induction count with
  | zero => rfl
  | succ count ih =>
      rw [List.range_succ, List.flatMap_append, List.length_append, ih, List.flatMap_singleton]
      simp only [blockFetches, List.length_cons, List.length_nil]
      omega

theorem fetched_of_mem_blockFetches {fetch : Nat × Instr} (hmem : fetch ∈ blockFetches base) :
    fetch.1 + fetch.2.size ≤ base + 12 := by
  simp only [blockFetches, List.mem_cons, List.not_mem_nil, or_false] at hmem
  rcases hmem with rfl | rfl | rfl | rfl | rfl <;> simp

theorem run_gencode {codeSize : Nat} (hsize : 100 ≤ codeSize) (file : Nat → Byte)
    (eax : BitVec 32) (zf : Bool) :
    ∃ fetches after, Run (Step (mappedCode codeSize (gencode codeSize file).code)) (fnEntry eax zf)
        fetches after
      ∧ after.returned = true
      ∧ fetches.length = 5 * blockCount codeSize + 1
      ∧ after.eax = (if blockCount codeSize = 0 then eax else 0)
      ∧ ∀ fetch ∈ fetches, fetch.1 + fetch.2.size ≤ 12 * blockCount codeSize + 1 := by
  obtain ⟨before, hrun, hip, heax, hlive⟩ := run_blocks eax zf (blockCount codeSize)
    fun b hb => placed_block block codeSize file hsize hb
  have hret : Step (mappedCode codeSize (gencode codeSize file).code) before (before.ip, .ret)
      { before with returned := true } :=
    step_of_placed (by rw [hip]; exact placed_ret block codeSize file hsize) hlive rfl
  refine ⟨_, _, hrun.snoc hret, rfl, ?_, heax, ?_⟩
  · rw [List.length_append, length_blockFetches, List.length_singleton]
  · intro fetch hmem
    rcases List.mem_append.mp hmem with hmem | hmem
    · obtain ⟨b, hb, hmem⟩ := List.mem_flatMap.mp hmem
      have hfetched := fetched_of_mem_blockFetches hmem
      rw [List.mem_range] at hb
      omega
    · obtain rfl := List.mem_singleton.mp hmem
      rw [hip, size_ret]

/-- **The code of `signals-nested-2.cpp` returns.** Every store of `gencode` is inside the buffer,
and its counter stays at most `CODE_SIZE`, so that `int i` does not overflow below `2^31`; the loop
emits `(CODE_SIZE - 100) / 12` blocks, rounded up. Whatever the file and the registers held,
executing the buffer fetches only bytes that `gencode` stored and returns after five instructions
for each block and the `ret`; there is no other way for it to return. -/
theorem gencode_returns (codeSize : Nat) (hsize : 100 ≤ codeSize) (file : Nat → Byte)
    (eax : BitVec 32) (zf : Bool) :
    (∀ index ∈ (gencode codeSize file).stores, index < codeSize)
      ∧ (gencode codeSize file).i ≤ codeSize
      ∧ gencode codeSize file
          = ((fun g : Generator => g.emitAll block.toList)^[blockCount codeSize]
              ⟨file, 0, []⟩).emit 0xC3
      ∧ ∃ fetches after, Run (Step (mappedCode codeSize (gencode codeSize file).code))
            (fnEntry eax zf) fetches after
          ∧ after.returned = true
          ∧ fetches.length = 5 * blockCount codeSize + 1
          ∧ after.eax = (if blockCount codeSize = 0 then eax else 0)
          ∧ (∀ fetch ∈ fetches, ∀ j < fetch.2.size,
              fetch.1 + j ∈ (gencode codeSize file).stores)
          ∧ ∀ fetches' after', Run (Step (mappedCode codeSize (gencode codeSize file).code))
              (fnEntry eax zf) fetches' after' → after'.returned = true →
              fetches' = fetches ∧ after' = after := by
  have hroom := blockCount_lt codeSize hsize
  have hstores : (gencode codeSize file).stores = List.range (12 * blockCount codeSize + 1) :=
    stores_gencodeWith block codeSize file
  obtain ⟨fetches, after, hrun, hreturned, hlength, heax, hfetched⟩ :=
    run_gencode hsize file eax zf
  refine ⟨?_, ?_, gencodeWith_eq block codeSize file, fetches, after, hrun, hreturned, hlength,
    heax, ?_, ?_⟩
  · intro index hmem
    rw [hstores, List.mem_range] at hmem
    omega
  · rw [gencode, gencodeWith_eq, i_emit, (emitted_iterate block file _).i_eq]
    omega
  · intro fetch hmem j hj
    have hbound := hfetched fetch hmem
    rw [hstores, List.mem_range]
    omega
  · intro fetches' after' hrun' hreturned'
    exact hrun'.eq_of_stuck step_deterministic (stuck_of_returned hreturned') hrun
      (stuck_of_returned hreturned)

theorem gencode_returns_four_mib :
    ∃ fetches after, Run
        (Step (mappedCode (4 * 1024 * 1024) (gencode (4 * 1024 * 1024) fun _ => 0).code))
        (fnEntry 7 false) fetches after
      ∧ after.returned = true ∧ fetches.length = 5 * 349517 + 1 ∧ after.eax = 0 := by
  obtain ⟨-, -, -, fetches, after, hrun, hreturned, hlength, heax, -, -⟩ :=
    gencode_returns (4 * 1024 * 1024) (by decide) (fun _ => 0) 7 false
  exact ⟨fetches, after, hrun, hreturned, hlength, heax⟩

end SignalsNested2

namespace SignalsNested

theorem block_eq : block.toList
    = encode (.movEax 0xFEFFFFFF) ++ (encode (.addEax 0x01000000) ++ encode (.jnz 0xF9)) := by
  decide

/-- What the comments on the bytes of a block say is executed, with the two additions that take
`0xFFFFFFFE` to zero. -/
def commentedBlock : List Instr :=
  [.movEax 0xFFFFFFFE, .addEax 1, .jnz 0xF9, .addEax 1, .jnz 0xF9]

/-- Called at its start, the buffer executes its blocks as commented, reaches the `ret` behind them
and returns. -/
def DoesAsCommented (codeSize : Nat) (file : Nat → Byte) (eax : BitVec 32) (zf : Bool) : Prop :=
  ∃ fetches after, Run (Step (mappedCode codeSize (gencode codeSize file).code)) (fnEntry eax zf)
      fetches after
    ∧ after.returned = true
    ∧ fetches.map Prod.snd
        = (List.replicate (blockCount codeSize) commentedBlock).flatten ++ [.ret]

/-- Where the first block can be: before its load, or at the addition or the jump with the low 24
bits of `eax` all ones, and at the jump not zero. -/
def InFirstBlock (cpu : Cpu) : Prop :=
  cpu.returned = false ∧
    (cpu.ip = 0
      ∨ cpu.ip = 5 ∧ cpu.eax.toNat % 2 ^ 24 = 2 ^ 24 - 1
      ∨ cpu.ip = 10 ∧ cpu.eax.toNat % 2 ^ 24 = 2 ^ 24 - 1 ∧ cpu.zf = false)

theorem inFirstBlock_step {code : Code} (hplaced : Placed code 0 block.toList)
    (cpu : Cpu) (fetched : Nat × Instr) (after : Cpu) (hin : InFirstBlock cpu)
    (hstep : Step code cpu fetched after) : InFirstBlock after := by
  obtain ⟨hmov, hadd, hjnz⟩ := placed_loop (block_eq ▸ hplaced)
  rw [Nat.zero_add] at hadd hjnz
  obtain ⟨hlive, hip | ⟨hip, hlow⟩ | ⟨hip, hlow, hzf⟩⟩ := hin
  · obtain ⟨-, -, hexec⟩ := step_placed_inv (hip ▸ hmov) hstep
    rw [exec_movEax, hip] at hexec
    obtain rfl := Option.some.inj hexec
    have hloaded : (0xFEFFFFFF : BitVec 32).toNat % 2 ^ 24 = 2 ^ 24 - 1 := by decide
    exact ⟨hlive, Or.inr (Or.inl ⟨rfl, hloaded⟩)⟩
  · obtain ⟨-, -, hexec⟩ := step_placed_inv (hip ▸ hadd) hstep
    rw [exec_addEax _ _ rfl, hip] at hexec
    obtain rfl := Option.some.inj hexec
    have hlow' : (cpu.eax + 0x01000000).toNat % 2 ^ 24 = 2 ^ 24 - 1 := by
      bv_omega
    refine ⟨hlive, Or.inr (Or.inr ⟨rfl, hlow', ?_⟩)⟩
    apply beq_eq_false_iff_ne.mpr
    intro hzero
    rw [hzero] at hlow'
    exact absurd hlow' (by decide)
  · obtain ⟨-, -, hexec⟩ := step_placed_inv (hip ▸ hjnz) hstep
    have hback : (cpu.ip : Int) + 2 + (0xF9 : BitVec 8).toInt = (5 : Nat) := by
      rw [hip]
      decide
    rw [exec_jnz_of_not_zero hzf hback] at hexec
    obtain rfl := Option.some.inj hexec
    exact ⟨hlive, Or.inr (Or.inl ⟨rfl, hlow⟩)⟩

/-- With at least one block in the buffer, no run from its start returns. -/
theorem not_returned {codeSize : Nat} (hsize : 100 < codeSize) {file : Nat → Byte}
    {eax : BitVec 32} {zf : Bool} {fetches : List (Nat × Instr)} {after : Cpu}
    (hrun : Run (Step (mappedCode codeSize (gencode codeSize file).code)) (fnEntry eax zf)
      fetches after) : after.returned = false := by
  have hcount : 0 < blockCount codeSize := by
    rw [blockCount]
    omega
  have hplaced := placed_block block codeSize file hsize.le hcount
  exact (hrun.invariant InFirstBlock (inFirstBlock_step hplaced) ⟨rfl, Or.inl rfl⟩).1

/-- **The code of `signals-nested.cpp` returns from the empty program only.** For a `CODE_SIZE` of
exactly 100 no block is emitted and the `ret` is executed at once; for every larger one the call
never returns. -/
theorem doesAsCommented_iff (codeSize : Nat) (hsize : 100 ≤ codeSize) (file : Nat → Byte)
    (eax : BitVec 32) (zf : Bool) :
    (DoesAsCommented codeSize file eax zf ↔ codeSize = 100)
      ∧ ((∃ fetches after, Run (Step (mappedCode codeSize (gencode codeSize file).code))
            (fnEntry eax zf) fetches after ∧ after.returned = true) ↔ codeSize = 100) := by
  have hnever : (∃ fetches after, Run (Step (mappedCode codeSize (gencode codeSize file).code))
      (fnEntry eax zf) fetches after ∧ after.returned = true) → codeSize = 100 := by
    rintro ⟨fetches, after, hrun, hreturned⟩
    by_contra hne
    rw [not_returned (by omega) hrun] at hreturned
    cases hreturned
  have hempty : codeSize = 100 → DoesAsCommented codeSize file eax zf := by
    rintro rfl
    have hret : Step (mappedCode 100 (gencode 100 file).code) (fnEntry eax zf) (0, .ret)
        { fnEntry eax zf with returned := true } :=
      step_of_placed (placed_ret block 100 file le_rfl) rfl rfl
    exact ⟨_, _, .single hret, rfl, rfl⟩
  have hweaken : DoesAsCommented codeSize file eax zf →
      ∃ fetches after, Run (Step (mappedCode codeSize (gencode codeSize file).code))
        (fnEntry eax zf) fetches after ∧ after.returned = true := by
    rintro ⟨fetches, after, hrun, hreturned, -⟩
    exact ⟨fetches, after, hrun, hreturned⟩
  exact ⟨⟨hnever ∘ hweaken, hempty⟩, ⟨hnever, hweaken ∘ hempty⟩⟩

theorem doesAsCommented_hundred : DoesAsCommented 100 (fun _ => 0) 0 false :=
  (doesAsCommented_iff 100 le_rfl (fun _ => 0) 0 false).1.mpr rfl

/-- On a file of zeros, with the `CODE_SIZE` of the source, the call does not return. -/
theorem not_doesAsCommented_four_mib :
    ¬ DoesAsCommented (4 * 1024 * 1024) (fun _ => 0) 0 false := by
  rintro ⟨fetches, after, hrun, hreturned, -⟩
  rw [not_returned (by decide) hrun] at hreturned
  cases hreturned

end SignalsNested

end FexTestBins
