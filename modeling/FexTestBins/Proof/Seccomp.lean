import FexTestBins.Seccomp

/-!
# What the filter decides, and what becomes of the process

What the filter returns depends on the architecture and the number of a system call alone. So a
process of the ABI that it is written for goes on after `SIGSYS`, and one of another is killed at
its next system call.
-/

namespace FexTestBins.Seccomp

open ClassicBpf Crashing

/-! ### The filter -/

/-- The number has neither bit 30, which marks the system calls of x32, nor bit 31. -/
def Unmarked (nr : Word) : Prop := nr.getLsbD 30 = false ∧ nr.getLsbD 31 = false

theorem x32SyscallBit_le_iff (nr : Word) : x32SyscallBit ≤ nr ↔ ¬Unmarked nr := by
  have hlt := nr.isLt
  rw [Unmarked, BitVec.le_def]
  simp only [BitVec.getLsbD, Nat.testBit_eq_decide_div_mod_eq, decide_eq_false_iff_not]
  change 2 ^ 30 ≤ nr.toNat ↔ _
  omega

variable {nrGetppid : Word} {data : SeccompData}

theorem load_arch (data : SeccompData) : data.load offsetofArch = some data.arch := rfl

theorem load_nr (data : SeccompData) : data.load offsetofNr = some data.nr := rfl

theorem eval_of_foreign (h : data.arch ≠ auditArchX86_64) :
    eval (filter nrGetppid) data.load = some seccompRetKill := by
  calc
    eval (filter nrGetppid) data.load
      = run (filter nrGetppid) data.load 8 (.running 1 data.arch) :=
        run_ldAbs rfl (load_arch data)
    _ = run (filter nrGetppid) data.load 7 (.running 2 data.arch) := run_jeq_of_ne rfl h rfl
    _ = some seccompRetKill := run_ret rfl

/-- On the architecture that it expects, the filter looks at the number of the system call. -/
theorem eval_of_arch (h : data.arch = auditArchX86_64) :
    eval (filter nrGetppid) data.load
      = run (filter nrGetppid) data.load 6 (.running 4 data.nr) := by
  calc
    eval (filter nrGetppid) data.load
      = run (filter nrGetppid) data.load 8 (.running 1 data.arch) :=
        run_ldAbs rfl (load_arch data)
    _ = run (filter nrGetppid) data.load 7 (.running 3 data.arch) := run_jeq_of_eq rfl h rfl
    _ = run (filter nrGetppid) data.load 6 (.running 4 data.nr) := run_ldAbs rfl (load_nr data)

theorem eval_of_marked (harch : data.arch = auditArchX86_64) (hnr : x32SyscallBit ≤ data.nr) :
    eval (filter nrGetppid) data.load = some seccompRetKillProcess := by
  calc
    eval (filter nrGetppid) data.load
      = run (filter nrGetppid) data.load 6 (.running 4 data.nr) := eval_of_arch harch
    _ = run (filter nrGetppid) data.load 5 (.running 5 data.nr) := run_jge_of_le rfl hnr rfl
    _ = some seccompRetKillProcess := run_ret rfl

theorem eval_of_getppid (harch : data.arch = auditArchX86_64) (hnr : ¬x32SyscallBit ≤ data.nr)
    (hgetppid : data.nr = nrGetppid) :
    eval (filter nrGetppid) data.load = some seccompRetTrap := by
  calc
    eval (filter nrGetppid) data.load
      = run (filter nrGetppid) data.load 6 (.running 4 data.nr) := eval_of_arch harch
    _ = run (filter nrGetppid) data.load 5 (.running 6 data.nr) := run_jge_of_not_le rfl hnr rfl
    _ = run (filter nrGetppid) data.load 4 (.running 7 data.nr) := run_jeq_of_eq rfl hgetppid rfl
    _ = some seccompRetTrap := run_ret rfl

theorem eval_of_other (harch : data.arch = auditArchX86_64) (hnr : ¬x32SyscallBit ≤ data.nr)
    (hother : data.nr ≠ nrGetppid) :
    eval (filter nrGetppid) data.load = some seccompRetAllow := by
  calc
    eval (filter nrGetppid) data.load
      = run (filter nrGetppid) data.load 6 (.running 4 data.nr) := eval_of_arch harch
    _ = run (filter nrGetppid) data.load 5 (.running 6 data.nr) := run_jge_of_not_le rfl hnr rfl
    _ = run (filter nrGetppid) data.load 4 (.running 8 data.nr) := run_jeq_of_ne rfl hother rfl
    _ = some seccompRetAllow := run_ret rfl

/-- The system calls that the filter is meant to let through, or to trap. -/
def Native (data : SeccompData) : Prop := data.arch = auditArchX86_64 ∧ Unmarked data.nr

theorem decision_of_foreign (h : ¬Native data) : decision nrGetppid data = some .kill := by
  by_cases harch : data.arch = auditArchX86_64
  · have hmarked : ¬Unmarked data.nr := fun hnr => h ⟨harch, hnr⟩
    rw [decision, eval_of_marked harch ((x32SyscallBit_le_iff _).mpr hmarked)]
    rfl
  · rw [decision, eval_of_foreign harch]
    rfl

theorem decision_of_getppid (h : Native data) (hnr : data.nr = nrGetppid) :
    decision nrGetppid data = some .trap := by
  have hbit : ¬x32SyscallBit ≤ data.nr := fun hle => (x32SyscallBit_le_iff _).mp hle h.2
  rw [decision, eval_of_getppid h.1 hbit hnr]
  rfl

theorem decision_of_other (h : Native data) (hnr : data.nr ≠ nrGetppid) :
    decision nrGetppid data = some .allow := by
  have hbit : ¬x32SyscallBit ≤ data.nr := fun hle => (x32SyscallBit_le_iff _).mp hle h.2
  rw [decision, eval_of_other h.1 hbit hnr]
  rfl

/-- The filter answers every system call. The process dies of one of another architecture or with
bit 30 or 31 in its number, `getppid` is trapped, and all others are allowed. -/
theorem filter_decides (nrGetppid : Word) (data : SeccompData) :
    decision nrGetppid data = some
      (if data.arch ≠ auditArchX86_64 ∨ data.nr.getLsbD 30 ∨ data.nr.getLsbD 31 then .kill
      else if data.nr = nrGetppid then .trap
      else .allow) := by
  have hnative_iff : Native data ↔
      ¬(data.arch ≠ auditArchX86_64 ∨ data.nr.getLsbD 30 ∨ data.nr.getLsbD 31) := by
    rw [Native, Unmarked, not_or, not_or, not_not, Bool.not_eq_true, Bool.not_eq_true]
  by_cases hforeign : data.arch ≠ auditArchX86_64 ∨ data.nr.getLsbD 30 ∨ data.nr.getLsbD 31
  · rw [decision_of_foreign fun hnative => hnative_iff.mp hnative hforeign, if_pos hforeign]
  · have hnative := hnative_iff.mpr hforeign
    rw [if_neg hforeign]
    by_cases hnr : data.nr = nrGetppid
    · rw [decision_of_getppid hnative hnr, if_pos hnr]
    · rw [decision_of_other hnative hnr, if_neg hnr]

/-! ### System calls -/

variable {platform : Platform} {trapped effect : M PUnit} {nr : Word} {s : State}

theorem systemCall_unfiltered (h : s.filtered = false) :
    systemCall platform trapped nr effect s = effect s := by
  rw [systemCall, h]
  rfl

theorem systemCall_other (h : s.filtered = true) (hnative : Native (platform.data nr))
    (hnr : nr ≠ platform.nrGetppid) : systemCall platform trapped nr effect s = effect s := by
  rw [← platform.data_nr nr] at hnr
  rw [systemCall, if_pos h, decision_of_other hnative hnr]

theorem systemCall_getppid (h : s.filtered = true)
    (hnative : Native (platform.data platform.nrGetppid)) :
    systemCall platform trapped platform.nrGetppid effect s = trapped s := by
  rw [systemCall, if_pos h, decision_of_getppid hnative (platform.data_nr platform.nrGetppid)]

theorem systemCall_foreign (h : s.filtered = true) (hforeign : ¬Native (platform.data nr)) :
    systemCall platform trapped nr effect s = finish .killed s := by
  rw [systemCall, if_pos h, decision_of_foreign hforeign]

/-! ### Calls that the filter does not hinder -/

/-- The calls other than `getppid` that the program makes. -/
def Platform.others (platform : Platform) : List Word :=
  platform.nrSigaction :: platform.nrSigreturn :: platform.nrExit :: platform.nrsPrintf

/-- There is no filter, or it allows all calls of the program other than `getppid`. -/
def Unhindered (platform : Platform) (filtered : Bool) : Prop :=
  filtered = true → ∀ nr ∈ platform.others, Native (platform.data nr) ∧ nr ≠ platform.nrGetppid

theorem systemCall_unhindered (h : Unhindered platform s.filtered) (hnr : nr ∈ platform.others) :
    systemCall platform trapped nr effect s = effect s := by
  cases hfiltered : s.filtered with
  | false => exact systemCall_unfiltered hfiltered
  | true =>
      obtain ⟨hnative, hother⟩ := h hfiltered nr hnr
      exact systemCall_other hfiltered hnative hother

theorem forM_unhindered (h : Unhindered platform s.filtered) (nrs : List Word)
    (hnrs : ∀ nr ∈ nrs, nr ∈ platform.others) :
    (nrs.forM fun nr => systemCall platform trapped nr (pure .unit)) s = (some .unit, s) := by
  induction nrs with
  | nil => rfl
  | cons nr nrs ih =>
      have hcall : systemCall platform trapped nr (pure .unit) s = (some .unit, s) :=
        systemCall_unhindered h (hnrs nr List.mem_cons_self)
      exact (bind_of_returned hcall).trans
        (ih fun nr' hnr' => hnrs nr' (List.mem_cons_of_mem nr hnr'))

theorem nrsPrintf_unhindered (h : Unhindered platform s.filtered) :
    (platform.nrsPrintf.forM fun nr => systemCall platform trapped nr (pure .unit)) s
      = (some .unit, s) :=
  forM_unhindered h platform.nrsPrintf fun nr hnr => by simp [Platform.others, hnr]

theorem printf_unhindered (h : Unhindered platform s.filtered) (line : String) :
    printf platform trapped line s = (some .unit, s.print platform line) :=
  bind_of_returned (nrsPrintf_unhindered h)

@[simp]
theorem State.print_filtered (platform : Platform) (line : String) :
    (s.print platform line).filtered = s.filtered := by
  rw [State.print]
  split <;> rfl

@[simp]
theorem State.print_handler (platform : Platform) (line : String) :
    (s.print platform line).handler = s.handler := by
  rw [State.print]
  split <;> rfl

theorem sigHandler_unhindered (h : Unhindered platform s.filtered) :
    sigHandler platform s = (some .unit, s.print platform "SIGSYS!") := by
  refine (bind_of_returned (printf_unhindered h "SIGSYS!")).trans ?_
  rw [← State.print_filtered platform "SIGSYS!"] at h
  exact systemCall_unhindered h (by simp [Platform.others])

theorem exit_unhindered (h : Unhindered platform s.filtered) (status : Int) :
    exit platform status s = (none, { s.flush with ending := some (.exited status) }) := by
  refine (bind_of_returned (nrsPrintf_unhindered h)).trans ?_
  exact systemCall_unhindered (s := s.flush) h (by simp [Platform.others])

theorem sigaction_unhindered (h : Unhindered platform s.filtered) :
    sigaction platform s
      = (some .unit, if platform.sigactionSucceeds then { s with handler := true } else s) :=
  systemCall_unhindered h (by simp [Platform.others])

/-! ### The runs of `main` -/

theorem unhindered_of_unfiltered (platform : Platform) : Unhindered platform false := by
  intro h
  cases h

theorem main_of_prctl_fails (h : platform.prctlSucceeds = false) :
    main platform start = (none, { start.flush with ending := some (.exited (-11)) }) := by
  unfold main
  rw [h]
  exact bind_of_crashed (exit_unhindered (unhindered_of_unfiltered platform) (-11))

/-- The state in which the handler is set up. -/
def installed (platform : Platform) : State := { start with filtered := platform.seccompSucceeds }

theorem installFilter_start : installFilter platform start = (some .unit, installed platform) := by
  cases h : platform.seccompSucceeds <;> simp [installFilter, update, installed, h, start]

theorem main_of_foreign (hprctl : platform.prctlSucceeds = true)
    (hseccomp : platform.seccompSucceeds = true)
    (hforeign : ¬Native (platform.data platform.nrSigaction)) :
    main platform start = (none, { installed platform with ending := some .killed }) := by
  unfold main
  rw [hprctl]
  exact (bind_of_returned installFilter_start).trans
    (bind_of_crashed (systemCall_foreign hseccomp hforeign))

theorem main_of_sigaction_fails (hprctl : platform.prctlSucceeds = true)
    (hsigaction : platform.sigactionSucceeds = false)
    (h : Unhindered platform platform.seccompSucceeds) :
    main platform start
      = (none, { (installed platform).flush with ending := some (.exited (-18)) }) := by
  have hsigaction' := sigaction_unhindered (s := installed platform) h
  rw [hsigaction] at hsigaction'
  unfold main
  rw [hprctl, hsigaction]
  refine (bind_of_returned installFilter_start).trans ?_
  refine (bind_of_returned hsigaction').trans ?_
  exact bind_of_crashed (exit_unhindered h (-18))

/-- The state in which `getppid` is called. -/
def ready (platform : Platform) : State :=
  ({ installed platform with handler := true }).print platform "About to call getppid()"

theorem ready_filtered : (ready platform).filtered = platform.seccompSucceeds := by
  rw [ready, State.print_filtered]
  rfl

theorem ready_handler : (ready platform).handler = true := by
  rw [ready, State.print_handler]

theorem main_of_ready (hprctl : platform.prctlSucceeds = true)
    (hsigaction : platform.sigactionSucceeds = true)
    (h : Unhindered platform platform.seccompSucceeds) :
    main platform start
      = (do
          systemCall platform (sigsys platform) platform.nrGetppid (pure .unit)
          printf platform (sigsys platform) "Bye"
          exit platform 0 : M PUnit) (ready platform) := by
  have hsigaction' := sigaction_unhindered (s := installed platform) h
  rw [hsigaction] at hsigaction'
  unfold main
  rw [hprctl, hsigaction]
  refine (bind_of_returned installFilter_start).trans ?_
  refine (bind_of_returned hsigaction').trans ?_
  exact bind_of_returned
    (printf_unhindered (s := { installed platform with handler := true }) h _)

/-- The process goes on after the call, and ends well. -/
theorem main_of_call {after : State} (hprctl : platform.prctlSucceeds = true)
    (hsigaction : platform.sigactionSucceeds = true)
    (h : Unhindered platform platform.seccompSucceeds)
    (hcall : systemCall platform (sigsys platform) platform.nrGetppid (pure .unit) (ready platform)
      = (some .unit, after))
    (hafter : after.filtered = platform.seccompSucceeds) :
    main platform start
      = (none, { (after.print platform "Bye").flush with ending := some (.exited 0) }) := by
  rw [← hafter] at h
  have hbye : Unhindered platform (after.print platform "Bye").filtered := by
    rw [State.print_filtered]
    exact h
  calc
    main platform start
      = _ := main_of_ready hprctl hsigaction (hafter ▸ h)
    _ = _ := bind_of_returned hcall
    _ = _ := bind_of_returned (printf_unhindered h "Bye")
    _ = _ := exit_unhindered hbye 0

/-- With these lines on `stdout` the process ends. -/
def Ends (platform : Platform) (output : List String) (ending : Ending) : Prop :=
  (main platform start).2.output = output ∧ (main platform start).2.ending = some ending

theorem ends_of_main {last : State} {output : List String} {ending : Ending}
    (h : main platform start = (none, { last with ending := some ending }))
    (houtput : last.output = output) : Ends platform output ending := by
  rw [Ends, h]
  exact ⟨houtput, rfl⟩

theorem ends_of_passed (hprctl : platform.prctlSucceeds = true)
    (hsigaction : platform.sigactionSucceeds = true) (hseccomp : platform.seccompSucceeds = false) :
    Ends platform ["About to call getppid()", "Bye"] (.exited 0) := by
  have hfiltered : (ready platform).filtered = false := ready_filtered.trans hseccomp
  have hunhindered : Unhindered platform platform.seccompSucceeds := by
    rw [hseccomp]
    exact unhindered_of_unfiltered platform
  refine ends_of_main
    (main_of_call hprctl hsigaction hunhindered (systemCall_unfiltered hfiltered) ready_filtered) ?_
  cases h : platform.lineBuffered <;>
    simp [ready, State.print, State.flush, installed, start, h]

/-- The program was built for the ABI that its filter expects. -/
structure BuiltNatively (platform : Platform) : Prop where
  getppid : Native (platform.data platform.nrGetppid)
  others : ∀ nr ∈ platform.others, Native (platform.data nr)

theorem BuiltNatively.unhindered (hnative : BuiltNatively platform)
    (hothers : platform.nrGetppid ∉ platform.others) (filtered : Bool) :
    Unhindered platform filtered := by
  rintro - nr hnr
  refine ⟨hnative.others nr hnr, ?_⟩
  rintro rfl
  exact hothers hnr

theorem ends_of_trapped (hprctl : platform.prctlSucceeds = true)
    (hseccomp : platform.seccompSucceeds = true) (hsigaction : platform.sigactionSucceeds = true)
    (hblocked : platform.sigsysBlocked = false) (hnative : BuiltNatively platform)
    (hothers : platform.nrGetppid ∉ platform.others) :
    Ends platform ["About to call getppid()", "SIGSYS!", "Bye"] (.exited 0) := by
  have hcall : systemCall platform (sigsys platform) platform.nrGetppid (pure .unit)
      (ready platform) = (some .unit, (ready platform).print platform "SIGSYS!") := by
    rw [systemCall_getppid (ready_filtered.trans hseccomp) hnative.getppid, sigsys, ready_handler,
      hblocked]
    exact sigHandler_unhindered (hnative.unhindered hothers _)
  refine ends_of_main (main_of_call hprctl hsigaction (hnative.unhindered hothers _) hcall
    ((State.print_filtered platform _).trans ready_filtered)) ?_
  cases h : platform.lineBuffered <;>
    simp [ready, State.print, State.flush, installed, start, h]

theorem ends_of_blocked (hprctl : platform.prctlSucceeds = true)
    (hseccomp : platform.seccompSucceeds = true) (hsigaction : platform.sigactionSucceeds = true)
    (hblocked : platform.sigsysBlocked = true) (hnative : BuiltNatively platform)
    (hothers : platform.nrGetppid ∉ platform.others) :
    Ends platform (if platform.lineBuffered then ["About to call getppid()"] else []) .killed := by
  have hcall : systemCall platform (sigsys platform) platform.nrGetppid (pure .unit)
      (ready platform) = finish .killed (ready platform) := by
    rw [systemCall_getppid (ready_filtered.trans hseccomp) hnative.getppid, sigsys, ready_handler,
      hblocked]
    rfl
  have hmain : main platform start = (none, { ready platform with ending := some .killed }) :=
    (main_of_ready hprctl hsigaction (hnative.unhindered hothers _)).trans (bind_of_crashed hcall)
  refine ends_of_main hmain ?_
  cases h : platform.lineBuffered <;> simp [ready, State.print, installed, start, h]

/-- How the program is meant to end, when it was built for the ABI of its filter, and when not. -/
def outcome (platform : Platform) (native : Bool) : List String × Ending :=
  if !platform.prctlSucceeds then ([], .exited (-11))
  else if platform.seccompSucceeds && !native then ([], .killed)
  else if !platform.sigactionSucceeds then ([], .exited (-18))
  else if !platform.seccompSucceeds then (["About to call getppid()", "Bye"], .exited 0)
  else if platform.sigsysBlocked then
    (if platform.lineBuffered then ["About to call getppid()"] else [], .killed)
  else (["About to call getppid()", "SIGSYS!", "Bye"], .exited 0)

/-- So the program ends. A filter that is not installed goes unnoticed, and one that is installed in
a program of another ABI kills it at `sigaction`, before it prints anything. -/
theorem main_ends (platform : Platform) (native : Bool)
    (hothers : platform.nrGetppid ∉ platform.others)
    (hnative : native = true → BuiltNatively platform)
    (hforeign : native = false → ¬Native (platform.data platform.nrSigaction)) :
    Ends platform (outcome platform native).1 (outcome platform native).2 := by
  cases hprctl : platform.prctlSucceeds with
  | false =>
      rw [outcome, hprctl]
      exact ends_of_main (main_of_prctl_fails hprctl) rfl
  | true =>
      cases hseccomp : platform.seccompSucceeds with
      | false =>
          have hunhindered : Unhindered platform platform.seccompSucceeds := by
            rw [hseccomp]
            exact unhindered_of_unfiltered platform
          cases hsigaction : platform.sigactionSucceeds with
          | false =>
              rw [outcome, hprctl, hseccomp, hsigaction]
              exact ends_of_main (main_of_sigaction_fails hprctl hsigaction hunhindered) rfl
          | true =>
              rw [outcome, hprctl, hseccomp, hsigaction]
              exact ends_of_passed hprctl hsigaction hseccomp
      | true =>
          cases native with
          | false =>
              rw [outcome, hprctl, hseccomp]
              exact ends_of_main (main_of_foreign hprctl hseccomp (hforeign rfl)) rfl
          | true =>
              have hbuilt := hnative rfl
              cases hsigaction : platform.sigactionSucceeds with
              | false =>
                  rw [outcome, hprctl, hseccomp, hsigaction]
                  exact ends_of_main (main_of_sigaction_fails hprctl hsigaction
                    (hbuilt.unhindered hothers _)) rfl
              | true =>
                  cases hblocked : platform.sigsysBlocked with
                  | false =>
                      rw [outcome, hprctl, hseccomp, hsigaction, hblocked]
                      exact ends_of_trapped hprctl hseccomp hsigaction hblocked hbuilt hothers
                  | true =>
                      rw [outcome, hprctl, hseccomp, hsigaction, hblocked]
                      exact ends_of_blocked hprctl hseccomp hsigaction hblocked hbuilt hothers

/-- A terminal on x86-64, whose `printf` calls `newfstatat`, `brk` and `write`. -/
def terminal : Platform where
  nrGetppid := 110
  nrSigaction := 13
  nrSigreturn := 15
  nrExit := 231
  nrsPrintf := [262, 12, 1]
  data nr := ⟨nr, auditArchX86_64, 0x7ffff7ea0000, fun _ => 0⟩
  data_nr _ := rfl
  prctlSucceeds := true
  seccompSucceeds := true
  sigactionSucceeds := true
  sigsysBlocked := false
  lineBuffered := true

theorem terminal_native : BuiltNatively terminal where
  getppid := ⟨rfl, rfl, rfl⟩
  others nr hnr := by
    simp only [Platform.others, terminal, List.mem_cons, List.not_mem_nil, or_false] at hnr
    rcases hnr with rfl | rfl | rfl | rfl | rfl | rfl <;> exact ⟨rfl, rfl, rfl⟩

theorem main_ends_natively :
    Ends terminal ["About to call getppid()", "SIGSYS!", "Bye"] (.exited 0) :=
  main_ends terminal true (by decide) (fun _ => terminal_native) (by simp)

end FexTestBins.Seccomp
