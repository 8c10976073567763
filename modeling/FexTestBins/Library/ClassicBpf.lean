import Mathlib.Tactic.Common

/-!
# Classic BPF

A filter loads words of the data it is given, compares them with constants and returns a number.
Its jumps only go forward, so that it returns after at most as many steps as it has instructions.
-/

namespace ClassicBpf

abbrev Word := BitVec 32

/-- `struct sock_filter` -/
structure SockFilter where
  code : BitVec 16
  jt : BitVec 8
  jf : BitVec 8
  k : Word
  deriving DecidableEq, Repr

def bpfStmt (code : BitVec 16) (k : Word) : SockFilter := ⟨code, 0, 0, k⟩

def bpfJump (code : BitVec 16) (k : Word) (jt jf : BitVec 8) : SockFilter := ⟨code, jt, jf, k⟩

/-! The parts of a code. -/

def bpfLd : BitVec 16 := 0x00
def bpfJmp : BitVec 16 := 0x05
def bpfRet : BitVec 16 := 0x06
def bpfW : BitVec 16 := 0x00
def bpfAbs : BitVec 16 := 0x20
def bpfJeq : BitVec 16 := 0x10
def bpfJge : BitVec 16 := 0x30
def bpfK : BitVec 16 := 0x00

inductive Instr where
  | ldAbs (k : Word)
  | jeq (k : Word) (jt jf : Nat)
  | jge (k : Word) (jt jf : Nat)
  | ret (k : Word)
  deriving DecidableEq, Repr

def decode (filter : SockFilter) : Option Instr :=
  if filter.code = bpfLd ||| bpfW ||| bpfAbs then
    some (.ldAbs filter.k)
  else if filter.code = bpfJmp ||| bpfJeq ||| bpfK then
    some (.jeq filter.k filter.jt.toNat filter.jf.toNat)
  else if filter.code = bpfJmp ||| bpfJge ||| bpfK then
    some (.jge filter.k filter.jt.toNat filter.jf.toNat)
  else if filter.code = bpfRet ||| bpfK then
    some (.ret filter.k)
  else
    none

/-- The next instruction with the accumulator, or the number returned. -/
inductive State where
  | running (pc : Nat) (acc : Word)
  | returned (value : Word)
  deriving DecidableEq, Repr

/-- The effect of the instruction at `pc` on the data, of which `load` gives the words. -/
def exec (load : Word → Option Word) (pc : Nat) (acc : Word) : Instr → Option State
  | .ldAbs k => (load k).map fun value => .running (pc + 1) value
  | .jeq k jt jf => some (.running (pc + 1 + if acc = k then jt else jf) acc)
  | .jge k jt jf => some (.running (pc + 1 + if k ≤ acc then jt else jf) acc)
  | .ret k => some (.returned k)

def step? (program : List SockFilter) (load : Word → Option Word) : State → Option State
  | .running pc acc => do
      let filter ← program[pc]?
      let instr ← decode filter
      exec load pc acc instr
  | .returned _ => none

/-- The number returned within some steps. -/
def run (program : List SockFilter) (load : Word → Option Word) : Nat → State → Option Word
  | _, .returned value => some value
  | 0, .running _ _ => none
  | fuel + 1, state => do
      let next ← step? program load state
      run program load fuel next

/-- The number that a filter returns, which takes no more steps than it has instructions. -/
def eval (program : List SockFilter) (load : Word → Option Word) : Option Word :=
  run program load program.length (.running 0 0)

/-! ### One instruction -/

theorem decode_ldAbs (k : Word) :
    decode (bpfStmt (bpfLd ||| bpfW ||| bpfAbs) k) = some (.ldAbs k) := rfl

theorem decode_jeq (k : Word) (jt jf : BitVec 8) :
    decode (bpfJump (bpfJmp ||| bpfJeq ||| bpfK) k jt jf) = some (.jeq k jt.toNat jf.toNat) := rfl

theorem decode_jge (k : Word) (jt jf : BitVec 8) :
    decode (bpfJump (bpfJmp ||| bpfJge ||| bpfK) k jt jf) = some (.jge k jt.toNat jf.toNat) := rfl

theorem decode_ret (k : Word) : decode (bpfStmt (bpfRet ||| bpfK) k) = some (.ret k) := rfl

variable {program : List SockFilter} {load : Word → Option Word} {pc target fuel : Nat}
  {acc k : Word} {jt jf : BitVec 8}

theorem run_of_exec {filter : SockFilter} {instr : Instr} {next : State}
    (hfilter : program[pc]? = some filter) (hdecode : decode filter = some instr)
    (hexec : exec load pc acc instr = some next) :
    run program load (fuel + 1) (.running pc acc) = run program load fuel next := by
  simp [run, step?, hfilter, hdecode, hexec]

theorem run_ldAbs {value : Word}
    (hfilter : program[pc]? = some (bpfStmt (bpfLd ||| bpfW ||| bpfAbs) k))
    (hload : load k = some value) :
    run program load (fuel + 1) (.running pc acc)
      = run program load fuel (.running (pc + 1) value) :=
  run_of_exec hfilter (decode_ldAbs k) (by rw [exec, hload]; rfl)

theorem run_jeq_of_eq (hfilter : program[pc]? = some (bpfJump (bpfJmp ||| bpfJeq ||| bpfK) k jt jf))
    (h : acc = k) (htarget : pc + 1 + jt.toNat = target) :
    run program load (fuel + 1) (.running pc acc) = run program load fuel (.running target acc) :=
  run_of_exec hfilter (decode_jeq k jt jf) (by rw [exec, if_pos h, htarget])

theorem run_jeq_of_ne (hfilter : program[pc]? = some (bpfJump (bpfJmp ||| bpfJeq ||| bpfK) k jt jf))
    (h : acc ≠ k) (htarget : pc + 1 + jf.toNat = target) :
    run program load (fuel + 1) (.running pc acc) = run program load fuel (.running target acc) :=
  run_of_exec hfilter (decode_jeq k jt jf) (by rw [exec, if_neg h, htarget])

theorem run_jge_of_le (hfilter : program[pc]? = some (bpfJump (bpfJmp ||| bpfJge ||| bpfK) k jt jf))
    (h : k ≤ acc) (htarget : pc + 1 + jt.toNat = target) :
    run program load (fuel + 1) (.running pc acc) = run program load fuel (.running target acc) :=
  run_of_exec hfilter (decode_jge k jt jf) (by rw [exec, if_pos h, htarget])

theorem run_jge_of_not_le
    (hfilter : program[pc]? = some (bpfJump (bpfJmp ||| bpfJge ||| bpfK) k jt jf))
    (h : ¬k ≤ acc) (htarget : pc + 1 + jf.toNat = target) :
    run program load (fuel + 1) (.running pc acc) = run program load fuel (.running target acc) :=
  run_of_exec hfilter (decode_jge k jt jf) (by rw [exec, if_neg h, htarget])

theorem run_ret (hfilter : program[pc]? = some (bpfStmt (bpfRet ||| bpfK) k)) :
    run program load (fuel + 1) (.running pc acc) = some k := by
  have hstep : run program load (fuel + 1) (.running pc acc)
      = run program load fuel (.returned k) := run_of_exec hfilter (decode_ret k) rfl
  rw [hstep]
  cases fuel <;> rfl

end ClassicBpf
