import FexTestBins.ReserveAddressSpace
import Mathlib.Data.Nat.Log
import Mathlib.Tactic.Ring

/-!
# The gap-filling loop takes everything

The lengths asked for are the powers of two from `2^51` down to `2^12`. Two facts are carried along
a run: `total_len` counts the pages taken, and once a length has been given up no free run of that
length is left, since pages are only ever taken. The last length is one page.
-/

namespace FexTestBins.ReserveAddressSpace

open Transition

variable {kernel : Kernel} {free : Finset Nat} {state next : State} {label : Option MmapResult}
  {labels : List (Option MmapResult)} {addr len page errno k : Nat}

/-! ### Free runs -/

/-- A free run can be moved down to the page its first byte is in. -/
theorem FreeRun.align (hrun : FreeRun free addr len) :
    FreeRun free (addr / pageSize * pageSize) len := by
  unfold pageSize at *
  intro byte hge hlt
  by_cases hin : addr ≤ byte
  · exact hrun byte hin (by omega)
  · have hpage : byte / 4096 = addr / 4096 := by omega
    rw [pageSize, hpage]
    exact hrun addr le_rfl (by omega)

theorem FreeRun.mono {free' : Finset Nat} {len' : Nat} (hrun : FreeRun free addr len)
    (hfree : free ⊆ free') (hlen : len' ≤ len) : FreeRun free' addr len' := by
  intro byte hge hlt
  apply hfree
  exact hrun byte hge (by omega)

theorem pages_subset (hrun : FreeRun free (page * pageSize) len) : pages page len ⊆ free := by
  intro p hp
  rw [pages, Finset.mem_Ico, pageSize] at hp
  have hbyte := hrun (p * pageSize) (by rw [pageSize]; omega) (by rw [pageSize]; omega)
  rwa [pageSize, Nat.mul_div_cancel _ (by decide)] at hbyte

theorem eq_empty_of_no_page (hnone : ∀ addr, ¬ FreeRun free addr pageSize) : free = ∅ := by
  apply Finset.eq_empty_of_forall_notMem
  intro p hp
  apply hnone (p * pageSize)
  intro byte hge hlt
  have hpage : byte / pageSize = p := by
    unfold pageSize at *
    omega
  rwa [hpage]

theorem card_taken {initial current taken : Finset Nat} (hcurrent : current ⊆ initial)
    (htaken : taken ⊆ current) :
    (initial \ (current \ taken)).card = (initial \ current).card + taken.card := by
  have hsplit : initial \ (current \ taken) = (initial \ current) ∪ taken := by
    ext p
    have hin := @hcurrent p
    have hout := @htaken p
    simp only [Finset.mem_sdiff, Finset.mem_union]
    tauto
  rw [hsplit]
  apply Finset.card_union_of_disjoint
  apply Finset.disjoint_left.mpr
  intro p hp htake
  exact (Finset.mem_sdiff.mp hp).2 (htaken htake)

/-! ### What holds along every run -/

/-- Whatever the kernel does: the length is a power of two, at least a page inside the loop, and
`total_len` is the number of bytes taken, without a wrap. -/
structure Counts (free : Finset Nat) (state : State) : Prop where
  fits : free.card * pageSize < 2 ^ 64
  subset : state.free ⊆ free
  total : state.totalLen.toNat = pageSize * (free \ state.free).card
  length : ∃ k, 11 ≤ k ∧ k ≤ 51 ∧ state.allocLen.toNat = 2 ^ k
    ∧ (state.pc = .inner ∨ state.pc = .halve → 12 ≤ k)

theorem counts_start (hfits : free.card * pageSize < 2 ^ 64) : Counts free (start free) where
  fits := hfits
  subset := Finset.Subset.refl _
  total := by simp [start]
  length := by
    have hlen : ((1 : BitVec 64) <<< 51).toNat = 2 ^ 51 := by decide
    exact ⟨51, by decide, by decide, hlen, fun _ => by decide⟩

theorem two_pow_div_pageSize (hk : 12 ≤ k) : 2 ^ k / pageSize * pageSize = 2 ^ k := by
  obtain ⟨m, rfl⟩ := Nat.exists_eq_add_of_le hk
  have hpow : 2 ^ (12 + m) = pageSize * 2 ^ m := pow_add 2 12 m
  rw [hpow, Nat.mul_div_cancel_left _ (by decide), Nat.mul_comm]

def MapsFree (kernel : Kernel) : Prop :=
  ∀ free len page, kernel free len (.mapped page) → FreeRun free (page * pageSize) len

theorem mapsFree_exact : MapsFree Exact := by
  rintro free len page ⟨hrun⟩
  exact hrun

theorem mapsFree_flaky : MapsFree Flaky := by
  rintro free len page ⟨hrun⟩
  exact hrun

theorem afterMmap_failed (state : State) (errno : Nat) :
    (errno ≠ enomem ∧ errno ≠ eperm
        ∧ state.afterMmap (.failed errno) = { state with pc := .returned (-1) })
      ∨ ((errno = enomem ∨ errno = eperm)
        ∧ state.afterMmap (.failed errno) = { state with pc := .halve }) := by
  by_cases hother : errno ≠ enomem ∧ errno ≠ eperm
  · exact Or.inl ⟨hother.1, hother.2, by rw [State.afterMmap, if_pos hother]⟩
  · exact Or.inr ⟨by tauto, by rw [State.afterMmap, if_neg hother]⟩

theorem Counts.mapped (h : Counts free state) (hpc : state.pc = .inner)
    (hrun : FreeRun state.free (page * pageSize) state.allocLen.toNat) :
    Counts free (state.afterMmap (.mapped page)) := by
  obtain ⟨k, hk, hk', hlen, hpage⟩ := h.length
  have hsub := pages_subset hrun
  have hcard : (pages page state.allocLen.toNat).card * pageSize = state.allocLen.toNat := by
    calc (pages page state.allocLen.toNat).card * pageSize
        = state.allocLen.toNat / pageSize * pageSize := by
          rw [pages, Nat.card_Ico, Nat.add_sub_cancel_left]
      _ = state.allocLen.toNat := by rw [hlen, two_pow_div_pageSize (hpage (Or.inl hpc))]
  have htaken := card_taken h.subset hsub
  have hbound : (free \ (state.free \ pages page state.allocLen.toNat)).card ≤ free.card :=
    Finset.card_le_card Finset.sdiff_subset
  refine ⟨h.fits, Finset.sdiff_subset.trans h.subset, ?_, k, hk, hk', hlen, hpage⟩
  have htotal := h.total
  have hfits := h.fits
  simp only [State.afterMmap, BitVec.toNat_add]
  rw [htaken] at hbound ⊢
  unfold pageSize at *
  omega

theorem toNat_halve {len : BitVec 64} (hlen : len.toNat = 2 ^ (k + 1)) :
    (len >>> 1).toNat = 2 ^ k := by
  calc (len >>> 1).toNat = len.toNat / 2 := by
        rw [BitVec.toNat_ushiftRight, Nat.shiftRight_eq_div_pow, pow_one]
    _ = 2 ^ k := by rw [hlen, pow_succ, Nat.mul_div_cancel _ (by decide)]

theorem Counts.step (hkernel : MapsFree kernel) (h : Counts free state)
    (hstep : Step kernel state label next) : Counts free next := by
  obtain ⟨k, hk, hk', hlen, hpage⟩ := h.length
  cases hstep with
  | enter hpc hle =>
      refine ⟨h.fits, h.subset, h.total, k, hk, hk', hlen, ?_⟩
      intro _
      rw [hlen] at hle
      exact (Nat.pow_le_pow_iff_right (by decide : 1 < 2)).mp hle
  | leave hpc hlt => exact ⟨h.fits, h.subset, h.total, k, hk, hk', hlen, by simp⟩
  | mmap hpc hallowed =>
      rename_i result
      cases result with
      | mapped page => exact h.mapped hpc (hkernel _ _ _ hallowed)
      | failed errno =>
          rcases afterMmap_failed state errno with ⟨-, -, heq⟩ | ⟨-, heq⟩ <;> rw [heq]
          · exact ⟨h.fits, h.subset, h.total, k, hk, hk', hlen, by simp⟩
          · exact ⟨h.fits, h.subset, h.total, k, hk, hk', hlen, fun _ => hpage (Or.inl hpc)⟩
  | halve hpc =>
      have hpage' := hpage (Or.inr hpc)
      obtain ⟨m, rfl⟩ := Nat.exists_eq_add_of_le' (Nat.le_trans (by decide : 1 ≤ 12) hpage')
      exact ⟨h.fits, h.subset, h.total, m, by omega, by omega, toNat_halve hlen, by simp⟩

/-- What is left to do: pages to take, and three stops for each length still to come. -/
def remaining (state : State) : Nat :=
  state.free.card + match state.pc with
    | .outer => 3 * Nat.log 2 state.allocLen.toNat + 2
    | .inner => 3 * Nat.log 2 state.allocLen.toNat + 1
    | .halve => 3 * Nat.log 2 state.allocLen.toNat
    | .returned _ => 0

theorem remaining_step (hkernel : MapsFree kernel) (h : Counts free state)
    (hstep : Step kernel state label next) : remaining next < remaining state := by
  obtain ⟨k, hk, hk', hlen, hpage⟩ := h.length
  have hlog : Nat.log 2 state.allocLen.toNat = k := by rw [hlen, Nat.log_pow (by decide)]
  cases hstep with
  | enter hpc hle => simp [remaining, hpc]
  | leave hpc hlt => simp [remaining, hpc]
  | mmap hpc hallowed =>
      rename_i result
      cases result with
      | mapped page =>
          have hsub := pages_subset (hkernel _ _ _ hallowed)
          have hlen' := two_pow_div_pageSize (hpage (Or.inl hpc))
          have hpos : 0 < 2 ^ k := Nat.two_pow_pos k
          have hnonempty : page ∈ pages page state.allocLen.toNat := by
            rw [pages, Finset.mem_Ico, hlen]
            refine ⟨le_rfl, ?_⟩
            apply Nat.lt_add_of_pos_right
            apply Nat.pos_of_ne_zero
            intro hzero
            rw [hzero] at hlen'
            omega
          have hless : (state.free \ pages page state.allocLen.toNat).card < state.free.card :=
            Finset.card_lt_card (Finset.sdiff_ssubset hsub ⟨page, hnonempty⟩)
          simp only [remaining, State.afterMmap, hpc]
          omega
      | failed errno =>
          rcases afterMmap_failed state errno with ⟨-, -, heq⟩ | ⟨-, heq⟩ <;> rw [heq] <;>
            simp [remaining, hpc]
  | halve hpc =>
      have hpage' := hpage (Or.inr hpc)
      have hhalf : Nat.log 2 (state.allocLen >>> 1).toNat = k - 1 := by
        rw [BitVec.toNat_ushiftRight, Nat.shiftRight_eq_div_pow, pow_one, Nat.log_div_base, hlog]
      simp only [remaining, hpc, hhalf, hlog]
      omega

theorem Counts.run (hkernel : MapsFree kernel) (hfits : free.card * pageSize < 2 ^ 64)
    (hrun : Run (Step kernel) (start free) labels state) : Counts free state := by
  apply hrun.invariant (Counts free) _ (counts_start hfits)
  intro state label next h hstep
  exact h.step hkernel hstep

theorem length_le_remaining (hkernel : MapsFree kernel) (hfits : free.card * pageSize < 2 ^ 64)
    (hrun : Run (Step kernel) (start free) labels state) :
    labels.length ≤ remaining (start free) := by
  apply hrun.length_le remaining (Counts free) _ _ (counts_start hfits)
  · intro state label next h hstep
    exact h.step hkernel hstep
  · intro state label next h hstep
    exact remaining_step hkernel h hstep

/-! ### A kernel that fails only for want of a gap -/

/-- A length given up is exhausted; at the test of the outer loop that is twice the length. -/
structure Exhausts (state : State) : Prop where
  halve : state.pc = .halve → ∀ addr, ¬ FreeRun state.free addr state.allocLen.toNat
  outer : state.pc = .outer → state.allocLen.toNat = 2 ^ 51
    ∨ ∀ addr, ¬ FreeRun state.free addr (2 * state.allocLen.toNat)
  returned : ∀ value, state.pc = .returned value → value = 0 ∧ state.free = ∅

theorem exhausts_start (free : Finset Nat) : Exhausts (start free) where
  halve := by simp [start]
  outer := fun _ => Or.inl (by decide : ((1 : BitVec 64) <<< 51).toNat = 2 ^ 51)
  returned := by simp [start]

theorem Exhausts.step (hcounts : Counts free state) (h : Exhausts state)
    (hstep : Step Exact state label next) : Exhausts next := by
  obtain ⟨k, hk, hk', hlen, hpage⟩ := hcounts.length
  cases hstep with
  | enter hpc hle => exact ⟨by simp, by simp, by simp⟩
  | leave hpc hlt =>
      refine ⟨by simp, by simp, ?_⟩
      intro value hvalue
      cases hvalue
      refine ⟨rfl, ?_⟩
      apply eq_empty_of_no_page
      intro addr hrun
      have hk11 : k = 11 := by
        by_contra hne
        have hpow : 2 ^ 12 ≤ 2 ^ k := Nat.pow_le_pow_right (by decide) (by omega)
        unfold pageSize at hlt
        omega
      subst hk11
      rcases h.outer hpc with htop | hnone
      · omega
      · exact hnone addr (hrun.mono (Finset.Subset.refl _) (by rw [hlen]; decide))
  | mmap hpc hallowed =>
      rename_i result
      cases hallowed with
      | mapped hrun =>
          exact ⟨by simp [State.afterMmap, hpc], by simp [State.afterMmap, hpc],
            by simp [State.afterMmap, hpc]⟩
      | @failed _ _ errno hnone herrno =>
          rcases afterMmap_failed state errno with ⟨hmem, hperm, -⟩ | ⟨-, heq⟩
          · exact absurd herrno (by tauto)
          · rw [heq]
            exact ⟨fun _ => hnone, by simp, by simp⟩
  | halve hpc =>
      have hpage' := hpage (Or.inr hpc)
      obtain ⟨m, rfl⟩ := Nat.exists_eq_add_of_le' (Nat.le_trans (by decide : 1 ≤ 12) hpage')
      have hhalf : 2 * (state.allocLen >>> 1).toNat = state.allocLen.toNat := by
        rw [toNat_halve hlen, hlen, pow_succ']
      refine ⟨by simp, ?_, by simp⟩
      intro _
      apply Or.inr
      intro addr hrun
      apply h.halve hpc addr
      simpa only [hhalf] using hrun

theorem Exhausts.run (hfits : free.card * pageSize < 2 ^ 64)
    (hrun : Run (Step Exact) (start free) labels state) : Exhausts state := by
  have hboth : Counts free state ∧ Exhausts state := by
    apply hrun.invariant (fun s => Counts free s ∧ Exhausts s) _
      ⟨counts_start hfits, exhausts_start free⟩
    rintro s label next ⟨hcounts, hexhausts⟩ hstep
    exact ⟨hcounts.step mapsFree_exact hstep, hexhausts.step hcounts hstep⟩
  exact hboth.2

theorem exists_step (state : State) (hlive : ∀ value, state.pc ≠ .returned value) :
    ∃ label next, Step Exact state label next := by
  cases hpc : state.pc with
  | outer =>
      by_cases hle : pageSize ≤ state.allocLen.toNat
      · exact ⟨_, _, .enter hpc hle⟩
      · exact ⟨_, _, .leave hpc (by omega)⟩
  | inner =>
      by_cases hrun : ∃ addr, FreeRun state.free addr state.allocLen.toNat
      · obtain ⟨addr, hrun⟩ := hrun
        exact ⟨_, _, .mmap hpc (.mapped hrun.align)⟩
      · exact ⟨_, _, .mmap hpc (.failed (not_exists.mp hrun) (Or.inl rfl))⟩
  | halve => exact ⟨_, _, .halve hpc⟩
  | returned value => exact absurd hpc (hlive value)

/-! ### A kernel that may fail at any time -/

def Reported (labels : List (Option MmapResult)) : Prop :=
  ∃ errno, some (.failed errno) ∈ labels ∧ errno ≠ enomem ∧ errno ≠ eperm

theorem returned_iff_reported_step (past : List (Option MmapResult)) (state : State)
    (label : Option MmapResult) (next : State)
    (h : state.pc = .returned (-1) ↔ Reported past) (hstep : Step kernel state label next) :
    next.pc = .returned (-1) ↔ Reported (past ++ [label]) := by
  have hpast : ¬ Reported past := by
    rw [← h]
    cases hstep with
    | enter hpc | leave hpc | mmap hpc | halve hpc => simp [hpc]
  have hsplit : Reported (past ++ [label])
      ↔ ∃ errno, label = some (.failed errno) ∧ errno ≠ enomem ∧ errno ≠ eperm := by
    constructor
    · rintro ⟨errno, hmem, herrno⟩
      rcases List.mem_append.mp hmem with hmem | hmem
      · exact absurd ⟨errno, hmem, herrno⟩ hpast
      · exact ⟨errno, (List.mem_singleton.mp hmem).symm, herrno⟩
    · rintro ⟨errno, rfl, herrno⟩
      exact ⟨errno, by simp, herrno⟩
  rw [hsplit]
  cases hstep with
  | enter | leave | halve => simp
  | mmap hpc hallowed =>
      rename_i result
      cases result with
      | mapped page => simp [State.afterMmap, hpc]
      | failed errno =>
          rcases afterMmap_failed state errno with ⟨hmem, hperm, heq⟩ | ⟨herrno, heq⟩ <;> rw [heq]
          · exact ⟨fun _ => ⟨errno, rfl, hmem, hperm⟩, fun _ => rfl⟩
          · simp only [reduceCtorEq, Option.some.injEq, MmapResult.failed.injEq, false_iff]
            rintro ⟨_, rfl, hmem, hperm⟩
            tauto

theorem returned_iff_reported (hrun : Run (Step kernel) (start free) labels state) :
    state.pc = .returned (-1) ↔ Reported labels := by
  have hstart : (start free).pc = .returned (-1) ↔ Reported [] := by simp [start, Reported]
  exact hrun.invariant_history (fun past s => s.pc = .returned (-1) ↔ Reported past)
    returned_iff_reported_step hstart

/-- **The gap-filling loop takes everything.** If `mmap` succeeds exactly when some gap is long
enough, then wherever it places the mappings, `main` gets to its end: runs are bounded and never
stuck before `main` has returned, which it does with 0 and with no page left free, and whenever it
gives up a length no run of that length is free. If `mmap` may fail at any time with any error, runs
are bounded all the same, and `main` returns -1 exactly if some error was neither `ENOMEM` nor
`EPERM`; `total_len` is then at every step the number of bytes reserved so far. -/
theorem main_reserves_everything (free : Finset Nat) (hfits : free.card * pageSize < 2 ^ 64) :
    (∀ labels state, Run (Step Exact) (start free) labels state →
        labels.length ≤ remaining (start free)
        ∧ ((∀ value, state.pc ≠ .returned value) → ∃ label next, Step Exact state label next)
        ∧ (∀ value, state.pc = .returned value → value = 0 ∧ state.free = ∅
            ∧ state.totalLen.toNat = pageSize * free.card)
        ∧ (state.pc = .halve → ∀ addr, ¬ FreeRun state.free addr state.allocLen.toNat))
      ∧ ∀ labels state, Run (Step Flaky) (start free) labels state →
        labels.length ≤ remaining (start free)
        ∧ state.free ⊆ free
        ∧ state.totalLen.toNat = pageSize * (free \ state.free).card
        ∧ (state.pc = .returned (-1) ↔ Reported labels) := by
  constructor
  · intro labels state hrun
    have hcounts := Counts.run mapsFree_exact hfits hrun
    have hexhausts := Exhausts.run hfits hrun
    refine ⟨length_le_remaining mapsFree_exact hfits hrun, exists_step state, ?_, hexhausts.halve⟩
    intro value hvalue
    obtain ⟨hzero, hempty⟩ := hexhausts.returned value hvalue
    refine ⟨hzero, hempty, ?_⟩
    rw [hcounts.total, hempty, Finset.sdiff_empty]
  · intro labels state hrun
    have hcounts := Counts.run mapsFree_flaky hfits hrun
    exact ⟨length_le_remaining mapsFree_flaky hfits hrun, hcounts.subset, hcounts.total,
      returned_iff_reported hrun⟩

theorem main_reserves_everything_three_pages :
    ∃ labels state, Run (Step Exact) (start {3, 4, 9}) labels state
      ∧ state.pc = .returned 0 ∧ state.free = ∅ ∧ state.totalLen.toNat = 12288 := by
  have hmain := (main_reserves_everything {3, 4, 9} (by decide)).1
  obtain ⟨labels, state, hrun, hstuck⟩ :=
    Run.exists_stuck fun labels state hrun => (hmain labels state hrun).1
  obtain ⟨-, hlive, hreturned, -⟩ := hmain labels state hrun
  have hdone : ∃ value, state.pc = .returned value := by
    by_contra hnone
    obtain ⟨label, next, hstep⟩ := hlive (not_exists.mp hnone)
    exact hstuck label next hstep
  obtain ⟨value, hvalue⟩ := hdone
  obtain ⟨rfl, hempty, htotal⟩ := hreturned value hvalue
  exact ⟨labels, state, hrun, hvalue, hempty, htotal⟩

end FexTestBins.ReserveAddressSpace
