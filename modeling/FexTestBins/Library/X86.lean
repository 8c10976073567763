import FexTestBins.Library.Transition
import FexTestBins.Library.Words

/-!
# A fragment of x86

The four instructions that hand-written code buffers use to count: load an immediate, add an
immediate, jump back while the sum is not zero, return. Code is a partial map from offsets to
bytes, so that running off what is there is a missing step rather than an arbitrary one.
-/

namespace X86

open Words Transition

inductive Instr where
  | movEax (imm : BitVec 32)
  | addEax (imm : BitVec 32)
  | jnz (rel : BitVec 8)
  | ret
  deriving DecidableEq, Repr

/-- `B8 imm32`, `05 imm32`, `75 rel8` and `C3`. -/
def encode : Instr → List Byte
  | .movEax imm => 0xB8#8 :: toLE 4 imm.toNat
  | .addEax imm => 0x05#8 :: toLE 4 imm.toNat
  | .jnz rel => [0x75#8, rel]
  | .ret => [0xC3#8]

def Instr.size (instr : Instr) : Nat := (encode instr).length

abbrev Code := Nat → Option Byte

def imm32 (code : Code) (offset : Nat) : Option (BitVec 32) := do
  let b0 ← code offset
  let b1 ← code (offset + 1)
  let b2 ← code (offset + 2)
  let b3 ← code (offset + 3)
  return BitVec.ofNat 32 (ofLE [b0, b1, b2, b3])

def decode (code : Code) (offset : Nat) : Option Instr :=
  match code offset with
  | some 0xB8#8 => (imm32 code (offset + 1)).map .movEax
  | some 0x05#8 => (imm32 code (offset + 1)).map .addEax
  | some 0x75#8 => (code (offset + 1)).map .jnz
  | some 0xC3#8 => some .ret
  | _ => none

structure Cpu where
  ip : Nat
  eax : BitVec 32
  zf : Bool
  returned : Bool
  deriving DecidableEq, Repr

/-- The effect of an instruction, `none` for a jump to before the code. -/
def exec (instr : Instr) (cpu : Cpu) : Option Cpu :=
  let next := cpu.ip + instr.size
  match instr with
  | .movEax imm => some { cpu with ip := next, eax := imm }
  | .addEax imm => some { cpu with ip := next, eax := cpu.eax + imm, zf := cpu.eax + imm == 0 }
  | .jnz rel =>
      if cpu.zf then
        some { cpu with ip := next }
      else
        let target : Int := next + rel.toInt
        if 0 ≤ target then some { cpu with ip := target.toNat } else none
  | .ret => some { cpu with returned := true }

/-- Fetch and execute one instruction; the label is its offset and what it decoded to. -/
def fetchExec (code : Code) (cpu : Cpu) : Option ((Nat × Instr) × Cpu) :=
  if cpu.returned then none else do
    let instr ← decode code cpu.ip
    let after ← exec instr cpu
    return ((cpu.ip, instr), after)

def Step (code : Code) (cpu : Cpu) (fetched : Nat × Instr) (after : Cpu) : Prop :=
  fetchExec code cpu = some (fetched, after)

def Placed (code : Code) (base : Nat) (bytes : List Byte) : Prop :=
  ∀ i (hi : i < bytes.length), code (base + i) = some bytes[i]

variable {code : Code} {base : Nat} {bytes bytes' : List Byte} {instr : Instr} {cpu after : Cpu}

@[simp]
theorem size_movEax (imm : BitVec 32) : (Instr.movEax imm).size = 5 := by
  simp [Instr.size, encode]

@[simp]
theorem size_addEax (imm : BitVec 32) : (Instr.addEax imm).size = 5 := by
  simp [Instr.size, encode]

@[simp]
theorem size_jnz (rel : BitVec 8) : (Instr.jnz rel).size = 2 := rfl

@[simp]
theorem size_ret : Instr.ret.size = 1 := rfl

theorem exec_movEax (imm : BitVec 32) :
    exec (.movEax imm) cpu = some { cpu with ip := cpu.ip + 5, eax := imm } := by
  rw [exec, size_movEax]

theorem exec_addEax (imm sum : BitVec 32) (hsum : cpu.eax + imm = sum) :
    exec (.addEax imm) cpu
      = some { cpu with ip := cpu.ip + 5, eax := sum, zf := sum == 0 } := by
  rw [exec, size_addEax, hsum]

theorem exec_jnz_of_zero {rel : BitVec 8} (hzf : cpu.zf = true) :
    exec (.jnz rel) cpu = some { cpu with ip := cpu.ip + 2 } := by
  simp [exec, hzf]

theorem exec_jnz_of_not_zero {rel : BitVec 8} {target : Nat} (hzf : cpu.zf = false)
    (htarget : (cpu.ip : Int) + 2 + rel.toInt = target) :
    exec (.jnz rel) cpu = some { cpu with ip := target } := by
  simp [exec, hzf, htarget]

theorem placed_append :
    Placed code base (bytes ++ bytes')
      ↔ Placed code base bytes ∧ Placed code (base + bytes.length) bytes' := by
  constructor
  · intro h
    constructor
    · intro i hi
      rw [h i (by simp; omega), List.getElem_append_left hi]
    · intro i hi
      rw [Nat.add_assoc, h _ (by simp; omega), List.getElem_append_right (by omega)]
      simp
  · rintro ⟨hleft, hright⟩ i hi
    by_cases hlt : i < bytes.length
    · rw [hleft i hlt, List.getElem_append_left hlt]
    · have hi' : i - bytes.length < bytes'.length := by simp at hi; omega
      rw [List.getElem_append_right (by omega), ← hright _ hi']
      congr 1
      omega

theorem placed_loop {imm imm' : BitVec 32} {rel : BitVec 8}
    (h : Placed code base (encode (.movEax imm) ++ (encode (.addEax imm') ++ encode (.jnz rel)))) :
    Placed code base (encode (.movEax imm)) ∧ Placed code (base + 5) (encode (.addEax imm'))
      ∧ Placed code (base + 10) (encode (.jnz rel)) := by
  obtain ⟨hmov, hrest⟩ := placed_append.mp h
  obtain ⟨hadd, hjnz⟩ := placed_append.mp hrest
  have hmovSize : (encode (.movEax imm)).length = 5 := size_movEax imm
  have haddSize : (encode (.addEax imm')).length = 5 := size_addEax imm'
  rw [hmovSize] at hadd hjnz
  rw [haddSize, Nat.add_assoc] at hjnz
  exact ⟨hmov, hadd, hjnz⟩

theorem imm32_of_placed {imm : BitVec 32} (h : Placed code base (toLE 4 imm.toNat)) :
    imm32 code base = some imm := by
  have hvalue : BitVec.ofNat 32 (ofLE (toLE 4 imm.toNat)) = imm := by
    rw [ofLE_toLE]
    apply BitVec.eq_of_toNat_eq
    have hlt : imm.toNat < 256 ^ 4 := imm.isLt
    rw [BitVec.toNat_ofNat, Nat.mod_eq_of_lt hlt, Nat.mod_eq_of_lt imm.isLt]
  have h0 : code base = some (BitVec.ofNat 8 imm.toNat) := h 0 (by simp)
  have h1 : code (base + 1) = some (BitVec.ofNat 8 (imm.toNat / 256)) := h 1 (by simp)
  have h2 : code (base + 2) = some (BitVec.ofNat 8 (imm.toNat / 256 / 256)) := h 2 (by simp)
  have h3 : code (base + 3) = some (BitVec.ofNat 8 (imm.toNat / 256 / 256 / 256)) := h 3 (by simp)
  rw [imm32, h0, h1, h2, h3]
  exact congrArg some hvalue

/-- Decoding inverts encoding, wherever the instruction was placed. -/
theorem decode_of_placed (h : Placed code base (encode instr)) : decode code base = some instr := by
  cases instr with
  | movEax imm =>
      have hop : code base = some 0xB8#8 := h 0 (by simp [encode])
      have hsplit : encode (.movEax imm) = [0xB8#8] ++ toLE 4 imm.toNat := rfl
      have himm := imm32_of_placed (placed_append.mp (hsplit ▸ h)).2
      simp only [List.length_singleton] at himm
      simp [decode, hop, himm]
  | addEax imm =>
      have hop : code base = some 0x05#8 := h 0 (by simp [encode])
      have hsplit : encode (.addEax imm) = [0x05#8] ++ toLE 4 imm.toNat := rfl
      have himm := imm32_of_placed (placed_append.mp (hsplit ▸ h)).2
      simp only [List.length_singleton] at himm
      simp [decode, hop, himm]
  | jnz rel =>
      have hop : code base = some 0x75#8 := h 0 (by simp [encode])
      have hrel : code (base + 1) = some rel := h 1 (by simp [encode])
      simp [decode, hop, hrel]
  | ret =>
      have hop : code base = some 0xC3#8 := h 0 (by simp [encode])
      simp [decode, hop]

theorem step_of_placed (hplaced : Placed code cpu.ip (encode instr)) (hlive : cpu.returned = false)
    (hexec : exec instr cpu = some after) : Step code cpu (cpu.ip, instr) after := by
  simp [Step, fetchExec, hlive, decode_of_placed hplaced, hexec]

theorem step_deterministic : Deterministic (Step code) := by
  intro cpu label next label' next' h h'
  obtain ⟨rfl, rfl⟩ := Prod.mk.inj (Option.some.inj (h.symm.trans h'))
  exact ⟨rfl, rfl⟩

theorem stuck_of_returned (hreturned : cpu.returned = true) : Stuck (Step code) cpu := by
  intro label next hstep
  simp [Step, fetchExec, hreturned] at hstep

theorem step_placed_inv {label : Nat × Instr} (hplaced : Placed code cpu.ip (encode instr))
    (hstep : Step code cpu label after) :
    cpu.returned = false ∧ label = (cpu.ip, instr) ∧ exec instr cpu = some after := by
  cases hreturned : cpu.returned with
  | true => exact absurd hstep (stuck_of_returned hreturned _ _)
  | false =>
      simp only [Step, fetchExec, hreturned, decode_of_placed hplaced, Bool.false_eq_true,
        if_false, Option.bind_eq_bind, Option.bind_some, Option.bind_eq_some_iff] at hstep
      obtain ⟨next, hexec, heq⟩ := hstep
      obtain ⟨rfl, rfl⟩ := Prod.mk.inj (Option.some.inj heq)
      exact ⟨rfl, rfl, hexec⟩

end X86
