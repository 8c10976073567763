import FexTestBins.SmcSignals

/-!
# `smc.cpp`

`test` writes, patches and calls the function that `smc_test` of `smc-signals.cpp` does, once and
with no signals, on a page it is given. It then prints a verdict on each of the four values that
were returned, and returns the failures as a set of bits.
-/

namespace FexTestBins.Smc

open Words SmcSignals

/-- The statements of `test` up to the last call; `call j` is `auto e(j+1) = fn()`. -/
inductive Stmt where
  | store (k : Nat) (value : Byte)
  | call (j : Fin 4)
  | mprotect (prot : Prot)
  deriving DecidableEq

def body : List Stmt :=
  [.store 0 0xB8, .store 1 0xAA, .store 2 0xBB, .store 3 0xCC, .store 4 0xDD,
    .store 5 0xC3,
    .call ⟨0, by decide⟩,
    .store 3 0xFE,
    .call ⟨1, by decide⟩,
    .mprotect rx,
    .mprotect rwx,
    .store 3 0xF3,
    .mprotect rx,
    .call ⟨2, by decide⟩,
    .mprotect rwx,
    .store 3 0xF1,
    .call ⟨3, by decide⟩]

/-- The statement of `smc_test` that does the same. -/
def Stmt.inLoop : Stmt → SmcSignals.Stmt
  | .store k value => .store k value
  | .call j => .call j
  | .mprotect prot => .mprotect prot

theorem map_inLoop_body : body.map Stmt.inLoop = SmcSignals.body.take 17 := rfl

/-- A call that was made: the six bytes then in the page, and the six bytes executed. -/
structure Call where
  current : List Byte
  executed : List Byte

/-- The page, the calls made so far, and `e1`, …, `e4`. -/
structure State where
  page : Page
  calls : List Call
  e : Fin 4 → BitVec 32

/-- What a machine executes that is free to choose the bytes that were in the page at an earlier
call; without a choice, those in the page now. -/
def executes (choice : Option Nat) (earlier : List Call) (current : List Byte) : List Byte :=
  ((choice.bind fun i => earlier[i]?).map Call.current).getD current

/-- A statement, with a fault if the protection of the page forbids it. -/
def State.step (choice : Fin 4 → Option Nat) (s : State) : Stmt → Option State
  | .store k value =>
      if s.page.prot.write then some { s with page := s.page.store k value } else none
  | .call j =>
      if s.page.prot.exec then
        let executed := executes (choice j) s.calls s.page.fn
        some { s with
          calls := s.calls ++ [⟨s.page.fn, executed⟩]
          e := Function.update s.e j (immediate executed) }
      else
        none
  | .mprotect prot => some { s with page := { s.page with prot := prot } }

/-- The calls of `test` on a page with any content. -/
def run (choice : Fin 4 → Option Nat) (bytes : Nat → Byte) : Option State :=
  body.foldlM (State.step choice) { page := ⟨rwx, bytes⟩, calls := [], e := fun _ => 0 }

inductive Verdict where
  | fail
  | pass
  deriving DecidableEq

/-- What is printed behind the name: `"-%d: %X, %s\n"`. -/
structure Line where
  number : Nat
  value : BitVec 32
  verdict : Verdict

def verdict (failed : Prop) [Decidable failed] : Verdict := if failed then .fail else .pass

def printed (e1 e2 e3 e4 : BitVec 32) : List Line :=
  [⟨1, e1, verdict (e1 ≠ 0xDDCCBBAA)⟩, ⟨2, e2, verdict (e2 ≠ 0xDDFEBBAA)⟩,
    ⟨3, e3, verdict (e3 ≠ 0xDDF3BBAA)⟩, ⟨4, e4, verdict (e4 ≠ 0xDDF1BBAA)⟩]

/-- A `bool` as an `int`. -/
def flag (b : Bool) : BitVec 32 := if b then 1 else 0

/-- `failure_set`, of which every term compares `e1`. -/
def failureSet (e1 _e2 _e3 _e4 : BitVec 32) : BitVec 32 :=
  0 ||| flag (e1 ≠ 0xDDCCBBAA) <<< 0 ||| flag (e1 ≠ 0xDDFEBBAA) <<< 1
    ||| flag (e1 ≠ 0xDDF3BBAA) <<< 2 ||| flag (e1 ≠ 0xDDF1BBAA) <<< 3

end FexTestBins.Smc
