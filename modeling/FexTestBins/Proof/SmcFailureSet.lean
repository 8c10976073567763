import FexTestBins.Proof.SmcVerdict
import FexTestBins.Smc
import Mathlib.Data.Fintype.Basic
import Mathlib.Tactic.FinCases

/-!
# The failure set of `smc`

Every bit of the set is computed from the first value alone, while the verdicts are printed of all
four. The first call has nothing stale to execute, so in an execution the set is always `0b1110`,
and agrees with the verdicts only where the other three calls fail.
-/

namespace FexTestBins.Smc

open Words SmcSignals

variable {choice : Fin 4 → Option Nat} {bytes : Nat → Byte} {e : Fin 4 → BitVec 32} {k : Fin 4}

def verdicts (e1 e2 e3 e4 : BitVec 32) : List Verdict := (printed e1 e2 e3 e4).map Line.verdict

/-- **The promise on any four values.** A bit is set where a failure is printed, and none only where
all verdicts are passes. -/
structure Agrees (e1 e2 e3 e4 : BitVec 32) : Prop where
  bit : ∀ k : Fin 4, (failureSet e1 e2 e3 e4).getLsbD k = true
    ↔ (verdicts e1 e2 e3 e4)[k.val]? = some .fail
  zero : failureSet e1 e2 e3 e4 = 0 ↔ ∀ verdict ∈ verdicts e1 e2 e3 e4, verdict = .pass

/-- Call `k` executed other bytes than those in the page at that moment. -/
def State.Stale (s : State) (k : Fin 4) : Prop :=
  ∃ call, s.calls[k.val]? = some call ∧ call.executed ≠ call.current

/-- **The promise on an execution.** -/
structure Reports (final : State) : Prop where
  agrees : Agrees (final.e 0) (final.e 1) (final.e 2) (final.e 3)
  stale : ∀ k : Fin 4, (verdicts (final.e 0) (final.e 1) (final.e 2) (final.e 3))[k.val]?
    = some .fail ↔ final.Stale k

/-! ### Bits and verdicts -/

theorem getLsbD_flags : ∀ b₁ b₂ b₃ b₄ : Bool, ∀ k : Fin 4,
    (0 ||| flag b₁ <<< 0 ||| flag b₂ <<< 1 ||| flag b₃ <<< 2 ||| flag b₄ <<< 3).getLsbD k
      = ![b₁, b₂, b₃, b₄] k := by
  decide

theorem flags_eq_zero_iff : ∀ b₁ b₂ b₃ b₄ : Bool,
    0 ||| flag b₁ <<< 0 ||| flag b₂ <<< 1 ||| flag b₃ <<< 2 ||| flag b₄ <<< 3 = 0
      ↔ ∀ k, ![b₁, b₂, b₃, b₄] k = false := by
  decide

theorem differ_eq (value : BitVec 32) (k : Fin 4) :
    ![decide (value ≠ 0xDDCCBBAA), decide (value ≠ 0xDDFEBBAA), decide (value ≠ 0xDDF3BBAA),
      decide (value ≠ 0xDDF1BBAA)] k = decide (value ≠ expected k) := by
  fin_cases k <;> rfl

theorem getLsbD_failureSet (e1 e2 e3 e4 : BitVec 32) (k : Fin 4) :
    (failureSet e1 e2 e3 e4).getLsbD k = true ↔ e1 ≠ expected k := by
  rw [failureSet, getLsbD_flags, differ_eq, decide_eq_true_iff]

theorem failureSet_eq_zero_iff (e1 e2 e3 e4 : BitVec 32) :
    failureSet e1 e2 e3 e4 = 0 ↔ ∀ k, e1 = expected k := by
  rw [failureSet, flags_eq_zero_iff]
  apply forall_congr'
  intro k
  rw [differ_eq, decide_eq_false_iff_not, not_not]

theorem verdicts_get (e : Fin 4 → BitVec 32) (k : Fin 4) :
    (verdicts (e 0) (e 1) (e 2) (e 3))[k.val]? = some (verdict (e k ≠ expected k)) := by
  fin_cases k <;> rfl

theorem verdict_eq_fail_iff (p : Prop) [Decidable p] : verdict p = .fail ↔ p := by
  by_cases hp : p
  · simp [verdict, hp]
  · simp [verdict, hp]

theorem verdict_eq_pass_iff (p : Prop) [Decidable p] : verdict p = .pass ↔ ¬ p := by
  by_cases hp : p
  · simp [verdict, hp]
  · simp [verdict, hp]

theorem forall_verdicts (e : Fin 4 → BitVec 32) :
    (∀ verdict ∈ verdicts (e 0) (e 1) (e 2) (e 3), verdict = .pass)
      ↔ ∀ k, verdict (e k ≠ expected k) = .pass := by
  simp only [verdicts, printed, List.map_cons, List.map_nil, List.forall_mem_cons,
    List.not_mem_nil, implies_true, and_true, Fin.forall_fin_succ, IsEmpty.forall_iff]
  rfl

theorem verdicts_fail_iff (e : Fin 4 → BitVec 32) (k : Fin 4) :
    (verdicts (e 0) (e 1) (e 2) (e 3))[k.val]? = some .fail ↔ e k ≠ expected k := by
  rw [verdicts_get, Option.some.injEq, verdict_eq_fail_iff]

theorem agrees_iff (e : Fin 4 → BitVec 32) :
    Agrees (e 0) (e 1) (e 2) (e 3) ↔ ∀ k, e k = expected k ↔ e 0 = expected k := by
  constructor
  · intro h k
    have hbit := h.bit k
    rw [getLsbD_failureSet, verdicts_fail_iff] at hbit
    exact (not_iff_not.mp hbit).symm
  · intro h
    constructor
    · intro k
      rw [getLsbD_failureSet, verdicts_fail_iff, ne_eq, ne_eq, h k]
    · rw [failureSet_eq_zero_iff, forall_verdicts]
      apply forall_congr'
      intro k
      rw [verdict_eq_pass_iff, not_not, h k]

/-- Where `e1` equals one of the constants, the value at its place is the only one that equals its
own; where it equals none, no value does. So at most one verdict is a pass. -/
inductive OnlyFirst (e : Fin 4 → BitVec 32) : Prop
  | one {j : Fin 4} (hfirst : e 0 = expected j) (honly : ∀ k, e k = expected k ↔ k = j)
  | none (hfirst : ∀ k, e 0 ≠ expected k) (hown : ∀ k, e k ≠ expected k)

theorem expected_inj : ∀ j k, expected j = expected k ↔ j = k := by decide

/-- The four constants are different. -/
theorem agrees_iff_onlyFirst (e : Fin 4 → BitVec 32) :
    Agrees (e 0) (e 1) (e 2) (e 3) ↔ OnlyFirst e := by
  rw [agrees_iff]
  constructor
  · intro h
    by_cases hnone : ∀ k, e 0 ≠ expected k
    · exact .none hnone fun k => mt (h k).mp (hnone k)
    · obtain ⟨j, hj⟩ := not_forall_not.mp hnone
      refine .one hj fun k => ?_
      rw [h k, hj, expected_inj, eq_comm]
  · intro h k
    cases h with
    | one hfirst honly => rw [honly, hfirst, expected_inj, eq_comm]
    | none hfirst hown => exact iff_of_false (hown k) (hfirst k)

/-! ### Executions -/

def addCall (choice : Fin 4 → Option Nat) (calls : List Call) (k : Fin 4) : List Call :=
  calls ++ [⟨version k, executes (choice k) calls (version k)⟩]

def made (choice : Fin 4 → Option Nat) (n : Nat) : List Call :=
  ((List.finRange 4).take n).foldl (addCall choice) []

theorem exists_run (choice : Fin 4 → Option Nat) (bytes : Nat → Byte) :
    ∃ final, run choice bytes = some final ∧ final.calls = made choice 4
      ∧ ∀ k, final.e k = immediate (executes (choice k) (made choice k) (version k)) := by
  refine ⟨_, rfl, rfl, ?_⟩
  intro k
  fin_cases k <;> rfl

theorem map_current_foldl (choice : Fin 4 → Option Nat) (ks : List (Fin 4)) (calls : List Call) :
    (ks.foldl (addCall choice) calls).map Call.current
      = calls.map Call.current ++ ks.map version := by
  induction ks generalizing calls with
  | nil => exact (List.append_nil _).symm
  | cons k ks ih =>
      rw [List.foldl_cons, ih, addCall, List.map_append, List.map_cons, List.append_assoc]
      rfl

theorem current_made {i : Nat} (hi : i < k.val) :
    ((made choice k)[i]?).map Call.current = some (version ⟨i, hi.trans k.isLt⟩) := by
  have hfour : i < 4 := hi.trans k.isLt
  have hnth : ((List.finRange 4).take k.val)[i]? = some ⟨i, hfour⟩ := by
    rw [List.getElem?_take_of_lt hi, List.getElem?_eq_getElem (by simpa using hfour)]
    simp
  rw [← List.getElem?_map, made, map_current_foldl, List.map_nil, List.nil_append,
    List.getElem?_map, hnth]
  rfl

/-- The machine chooses the bytes of an earlier call. -/
def Earlier (choice : Fin 4 → Option Nat) (k : Fin 4) : Prop := ∃ i < k.val, choice k = some i

theorem executes_of_earlier (hearlier : Earlier choice k) :
    ∃ j, j ≠ k ∧ executes (choice k) (made choice k) (version k) = version j := by
  obtain ⟨i, hi, hchoice⟩ := hearlier
  refine ⟨⟨i, hi.trans k.isLt⟩, ?_, ?_⟩
  · intro heq
    exact hi.ne (congrArg Fin.val heq)
  · rw [executes, hchoice, Option.bind_some, current_made hi, Option.getD_some]

theorem length_made (choice : Fin 4 → Option Nat) (k : Fin 4) : (made choice k).length = k := by
  fin_cases k <;> rfl

theorem executes_of_not_earlier (hnot : ¬ Earlier choice k) :
    executes (choice k) (made choice k) (version k) = version k := by
  cases hchoice : choice k with
  | none => rfl
  | some i =>
      have hnone : (made choice k)[i]? = none := by
        apply List.getElem?_eq_none
        rw [length_made]
        by_contra hlt
        exact hnot ⟨i, by omega, hchoice⟩
      rw [executes, Option.bind_some, hnone, Option.map_none, Option.getD_none]

theorem executes_eq_version_iff (choice : Fin 4 → Option Nat) (k : Fin 4) :
    executes (choice k) (made choice k) (version k) = version k ↔ ¬ Earlier choice k := by
  have hinjective : ∀ j k : Fin 4, version j = version k → j = k := by decide
  constructor
  · intro heq hearlier
    obtain ⟨j, hj, hversion⟩ := executes_of_earlier hearlier
    exact hj (hinjective j k (hversion.symm.trans heq))
  · exact executes_of_not_earlier

theorem immediate_executes_iff (choice : Fin 4 → Option Nat) (k : Fin 4) :
    immediate (executes (choice k) (made choice k) (version k)) = expected k
      ↔ ¬ Earlier choice k := by
  rw [← executes_eq_version_iff]
  by_cases hearlier : Earlier choice k
  · obtain ⟨j, -, hversion⟩ := executes_of_earlier hearlier
    rw [hversion]
    exact immediate_version_eq k j
  · rw [executes_of_not_earlier hearlier]
    exact immediate_version_eq k k

theorem stale_iff {final : State} (hcalls : final.calls = made choice 4) (k : Fin 4) :
    final.Stale k ↔ Earlier choice k := by
  have hcall : final.calls[k.val]?
      = some ⟨version k, executes (choice k) (made choice k) (version k)⟩ := by
    rw [hcalls]
    fin_cases k <;> rfl
  rw [State.Stale, hcall, ← not_iff_not, ← executes_eq_version_iff]
  simp

theorem not_earlier_zero (choice : Fin 4 → Option Nat) : ¬ Earlier choice 0 := by
  rintro ⟨i, hi, -⟩
  exact Nat.not_lt_zero i hi

/-- The first value is always its constant, so the others have to differ from theirs. -/
theorem agrees_iff_earlier (hvalue : ∀ k, e k = expected k ↔ ¬ Earlier choice k) :
    Agrees (e 0) (e 1) (e 2) (e 3) ↔ ∀ k, k ≠ 0 → Earlier choice k := by
  have hfirst : ∀ k, e 0 = expected k ↔ k = 0 := by
    rw [(hvalue 0).mpr (not_earlier_zero choice)]
    decide
  rw [agrees_iff]
  apply forall_congr'
  intro k
  rw [hvalue, hfirst]
  by_cases hk : k = 0
  · subst hk
    simp [not_earlier_zero]
  · simp [hk]

theorem reports_iff {final : State} (hcalls : final.calls = made choice 4)
    (hvalue : ∀ k, final.e k = expected k ↔ ¬ Earlier choice k) :
    Reports final ↔ ∀ k, k ≠ 0 → Earlier choice k := by
  constructor
  · intro h
    exact (agrees_iff_earlier hvalue).mp h.agrees
  · intro hearlier
    refine ⟨(agrees_iff_earlier hvalue).mpr hearlier, ?_⟩
    intro k
    rw [verdicts_fail_iff, stale_iff hcalls, ne_eq, hvalue, not_not]

/-- **When the failure set is right.** For any four values, exactly if at most one of them equals
its constant, which is the one that the first value equals; for an execution, exactly if each of the
last three calls executes what the page held at an earlier call. -/
theorem failureSet_right_iff (e : Fin 4 → BitVec 32) (choice : Fin 4 → Option Nat)
    (bytes : Nat → Byte) :
    (Agrees (e 0) (e 1) (e 2) (e 3) ↔ OnlyFirst e)
      ∧ ∃ final, run choice bytes = some final
        ∧ (Reports final ↔ ∀ k, k ≠ 0 → Earlier choice k) := by
  refine ⟨agrees_iff_onlyFirst e, ?_⟩
  obtain ⟨final, hrun, hcalls, he⟩ := exists_run choice bytes
  refine ⟨final, hrun, reports_iff hcalls ?_⟩
  intro k
  rw [he, immediate_executes_iff]

/-- On a machine that executes what is in the page, all verdicts are passes and 14 is returned. -/
theorem not_reports_coherent : ∃ final, run (fun _ => none) (fun _ => 0) = some final
    ∧ (∀ verdict ∈ verdicts (final.e 0) (final.e 1) (final.e 2) (final.e 3), verdict = .pass)
    ∧ failureSet (final.e 0) (final.e 1) (final.e 2) (final.e 3) = 14
    ∧ ¬ Reports final := by
  obtain ⟨final, hrun, -, he⟩ := exists_run (fun _ => none) fun _ => 0
  have heq : final.e = expected := by
    funext k
    apply (he k).trans
    apply (immediate_executes_iff (fun _ => none) k).mpr
    rintro ⟨i, -, hchoice⟩
    cases hchoice
  have hpass : ∀ verdict ∈ verdicts (expected 0) (expected 1) (expected 2) (expected 3),
      verdict = .pass := by decide
  have hset : failureSet (expected 0) (expected 1) (expected 2) (expected 3) = 14 := by decide
  refine ⟨final, hrun, by rwa [heq], by rwa [heq], ?_⟩
  intro h
  have hzero := h.agrees.zero.mpr (by rwa [heq])
  rw [heq, hset] at hzero
  exact absurd hzero (by decide)

/-- A machine that executes at every call what the page held at the first. -/
theorem failureSet_right_iff_stale :
    ∃ final, run (fun _ => some 0) (fun _ => 0) = some final ∧ Reports final := by
  obtain ⟨final, hrun, hreports⟩ :=
    (failureSet_right_iff (fun _ => 0) (fun _ => some 0) fun _ => 0).2
  refine ⟨final, hrun, hreports.mpr ?_⟩
  intro k hk
  exact ⟨0, Nat.pos_of_ne_zero (Fin.val_ne_of_ne hk), rfl⟩

end FexTestBins.Smc
