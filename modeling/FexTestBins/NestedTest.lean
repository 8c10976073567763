import FexTestBins.SignalsNested

/-!
# `test` in `signals-nested.cpp` and `signals-nested-2.cpp`

The two programs have the same `test`, which maps the generated code, calls it and unmaps it. Their
handlers call it in a loop, and may be interrupted anywhere in that.
-/

namespace FexTestBins.NestedTest

open X86

abbrev Addr := BitVec 64

/-- Where a handler is in its loop: at the test with `i` calls of `test` made, or inside `fn()` of
the next one, with a record of the number of instructions that were executed there. -/
inductive Pc where
  | loop (i : Nat)
  | call (i : Nat) (code : Addr) (cpu : Cpu) (fetched : Nat)

/-- The mapping that `test` has made and not yet removed. -/
def Pc.mapping : Pc → Option Addr
  | .loop _ => none
  | .call _ code _ _ => some code

/-- `for (int i = 0; i < rounds; i++) { test(); }`, behind which the handler returns. The mapping is
of the generated code, and registers and flags are arbitrary when it is called. An instruction that
cannot be fetched is a fault and has no step. -/
inductive Act (code : Code) (rounds : Nat) :
    (Addr → Option Code) → Pc → (Addr → Option Code) → Option Pc → Prop
  | mmap {maps : Addr → Option Code} {i : Nat} {addr : Addr} (eax : BitVec 32) (zf : Bool) :
      i < rounds → maps addr = none →
      Act code rounds maps (.loop i) (Function.update maps addr (some code))
        (some (.call i addr (fnEntry eax zf) 0))
  | fetch {maps : Addr → Option Code} {i fetched : Nat} {addr : Addr} {cpu after : Cpu}
      {mapped : Code} {instr : Nat × Instr} :
      maps addr = some mapped → X86.Step mapped cpu instr after →
      Act code rounds maps (.call i addr cpu fetched) maps
        (some (.call i addr after (fetched + 1)))
  | munmap {maps : Addr → Option Code} {i fetched : Nat} {addr : Addr} {cpu : Cpu} :
      cpu.returned = true →
      Act code rounds maps (.call i addr cpu fetched) (Function.update maps addr none)
        (some (.loop (i + 1)))
  | ret {maps : Addr → Option Code} {i : Nat} :
      ¬ i < rounds → Act code rounds maps (.loop i) maps none

end FexTestBins.NestedTest
