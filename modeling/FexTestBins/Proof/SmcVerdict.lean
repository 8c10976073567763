import FexTestBins.Proof.SmcPages

/-!
# The verdict of `smc-signals`

At its four calls `smc_test` has four different functions in its page, the same four in every round
of every invocation. So a stale execution, from whatever time and invocation, is an execution of
another of the four, and each returns a different number. A mismatch is first in the locals of its
round and then, from the check on, in the flag that all invocations share.
-/

namespace FexTestBins.SmcSignals

open Words Transition Interrupts

/-- The function in the page at the `j`-th call of a round. -/
def version : Fin 4 → List Byte :=
  ![[0xB8, 0xAA, 0xBB, 0xCC, 0xDD, 0xC3], [0xB8, 0xAA, 0xBB, 0xFE, 0xDD, 0xC3],
    [0xB8, 0xAA, 0xBB, 0xF3, 0xDD, 0xC3], [0xB8, 0xAA, 0xBB, 0xF1, 0xDD, 0xC3]]

/-- The number a version returns tells it from every other. -/
theorem immediate_version_eq : ∀ j j' : Fin 4,
    immediate (version j') = expected j ↔ version j' = version j := by
  decide

theorem storedAt_version : ∀ i < 20, ∀ j, body[i]? = some (.call j) →
    ∀ k < 6, storedAt i k = (version j)[k]? := by
  decide

variable {pages : Pages} {env env' : Env} {frame : Frame} {after : Option Frame}
  {stmt : Stmt} {k i : Nat}

theorem FrameOk.fn_eq_version {j : Fin 4} {page : Page} (h : FrameOk pages frame)
    (hstmt : frame.stmt = some (.call j)) (hmapped : pages frame.code = some page) :
    page.fn = version j := by
  obtain ⟨round, i, hpc, hbody⟩ := pc_of_stmt hstmt
  rw [FrameOk, hpc] at h
  obtain ⟨-, -, ⟨page', hmapped', -, hsame⟩, hrecent⟩ := h
  obtain rfl := Option.some.inj (hmapped.symm.trans hmapped')
  have hlength : ∀ j, (version j).length = 6 := by decide
  apply List.ext_getElem (by rw [hlength]; rfl)
  intro k hk hk'
  rw [hlength] at hk'
  have hstored := storedAt_version i (lt_of_stmt hbody) j hbody k hk'
  rw [List.getElem?_eq_getElem (by rw [hlength]; exact hk')] at hstored
  have hbyte := hsame k _ (hrecent k _ hstored)
  simpa [Page.fn] using hbyte

/-! ### Mismatches that are not yet in the flag -/

/-- A call of the current round returned another number than the one it is compared with, and the
check is still to come. -/
def Frame.Pending (frame : Frame) : Prop :=
  match frame.pc with
  | .body _ i => i ≤ 17 ∧ ∃ j, .call j ∈ body.take i ∧ frame.e j ≠ expected j
  | _ => False

theorem pending_of_body (hpc : frame.pc = .body k i) :
    frame.Pending ↔ i ≤ 17 ∧ ∃ j, .call j ∈ body.take i ∧ frame.e j ≠ expected j := by
  rw [Frame.Pending, hpc]

theorem not_pending_of_end (hpc : frame.pc = .body k body.length) : ¬ frame.Pending := by
  rw [pending_of_body hpc]
  rintro ⟨hle, -⟩
  exact absurd hle (by decide)

theorem not_pending_of_start (hpc : frame.pc = .body k 0) : ¬ frame.Pending := by
  rw [pending_of_body hpc]
  simp

theorem pending_of_idle {next : Frame} (hstmt : frame.stmt = some stmt)
    (hpc : next.pc = frame.advance.pc) (he : next.e = frame.e)
    (hcall : ∀ j, stmt ≠ .call j) (hcheck : stmt ≠ .check) :
    next.Pending ↔ frame.Pending := by
  obtain ⟨round, i, hat, hbody⟩ := pc_of_stmt hstmt
  have hchecked : ∀ i < 20, body[i]? = some .check ↔ i = 17 := by decide
  have hi := hchecked i (lt_of_stmt hbody)
  rw [hbody, Option.some.injEq] at hi
  have hne : i ≠ 17 := by
    intro heq
    exact hcheck (hi.mpr heq)
  rw [pending_of_body hat, pending_of_body (hpc.trans (pc_advance hat)), take_body_succ hbody, he]
  have hmem : ∀ j, .call j ∈ body.take i ++ [stmt] ↔ .call j ∈ body.take i := by
    intro j
    rw [List.mem_append, List.mem_singleton]
    apply or_iff_left
    intro heq
    exact hcall j heq.symm
  simp only [hmem]
  apply and_congr_left
  intro _
  omega

theorem pending_of_call {next : Frame} {j : Fin 4} {value : BitVec 32}
    (hstmt : frame.stmt = some (.call j)) (hpc : next.pc = frame.advance.pc)
    (he : next.e = Function.update frame.e j value) :
    next.Pending ↔ frame.Pending ∨ value ≠ expected j := by
  obtain ⟨round, i, hat, hbody⟩ := pc_of_stmt hstmt
  have honce : ∀ i < 20, ∀ j, body[i]? = some (.call j) → i ≤ 16 ∧ .call j ∉ body.take i := by
    decide
  obtain ⟨hle, hnew⟩ := honce i (lt_of_stmt hbody) j hbody
  rw [pending_of_body hat, pending_of_body (hpc.trans (pc_advance hat)), take_body_succ hbody, he]
  constructor
  · rintro ⟨-, j', hmem, hne⟩
    by_cases hj : j' = j
    · subst hj
      exact Or.inr (by simpa using hne)
    · have hold : .call j' ∈ body.take i := by
        rcases List.mem_append.mp hmem with hmem | hmem
        · exact hmem
        · exact absurd (Stmt.call.inj (List.mem_singleton.mp hmem)) hj
      exact Or.inl ⟨by omega, j', hold, by rwa [Function.update_of_ne hj] at hne⟩
  · rintro (⟨-, j', hmem, hne⟩ | hne)
    · have hj : j' ≠ j := fun heq => hnew (heq ▸ hmem)
      exact ⟨by omega, j', List.mem_append_left _ hmem, by rwa [Function.update_of_ne hj]⟩
    · exact ⟨by omega, j, List.mem_append_right _ (List.mem_singleton_self _),
        by rwa [Function.update_self]⟩

/-- Before the check all four calls of the round have been made. -/
theorem pending_of_check (hstmt : frame.stmt = some .check) :
    frame.Pending ↔ ∃ j, frame.e j ≠ expected j := by
  obtain ⟨round, i, hat, hbody⟩ := pc_of_stmt hstmt
  have hchecked : ∀ i < 20, body[i]? = some .check → i = 17 := by decide
  obtain rfl := hchecked i (lt_of_stmt hbody) hbody
  have hall : ∀ j, .call j ∈ body.take 17 := by decide
  rw [pending_of_body hat]
  simp [hall]

theorem not_pending_after_check {next : Frame} (hstmt : frame.stmt = some .check)
    (hpc : next.pc = frame.advance.pc) : ¬ next.Pending := by
  obtain ⟨round, i, hat, hbody⟩ := pc_of_stmt hstmt
  have hchecked : ∀ i < 20, body[i]? = some .check → i = 17 := by decide
  obtain rfl := hchecked i (lt_of_stmt hbody) hbody
  rw [pending_of_body (hpc.trans (pc_advance hat))]
  omega

/-! ### Stale executions -/

def Call.Stale (call : Call) : Prop := call.executed ≠ call.current

def AnyStale (env : Env) : Prop := ∃ call ∈ env.calls, call.Stale

def CallsKnown (env : Env) : Prop := ∀ call ∈ env.calls, ∃ j, call.current = version j

/-- What a step does to the verdict: it may find one more stale execution, and that is then either
pending in the frame or already in the flag. -/
structure Judged (env : Env) (frame : Frame) (env' : Env) (after : Option Frame) : Prop where
  known : CallsKnown env'
  verdict : ∃ found : Prop, (AnyStale env' ↔ AnyStale env ∨ found)
    ∧ ((env'.failed = true ∨ ∃ frame' ∈ after, frame'.Pending)
      ↔ (env.failed = true ∨ frame.Pending) ∨ found)

theorem judged_of_same (hknown : CallsKnown env) (hcalls : env'.calls = env.calls)
    (hfailed : env'.failed = env.failed)
    (hpending : (∃ frame' ∈ after, frame'.Pending) ↔ frame.Pending) :
    Judged env frame env' after where
  known := by rwa [CallsKnown, hcalls]
  verdict := ⟨False, by rw [AnyStale, hcalls, or_false]; rfl, by rw [hfailed, hpending, or_false]⟩

theorem pending_some {frame' : Frame} :
    (∃ f ∈ some frame', f.Pending) ↔ frame'.Pending := by
  simp

theorem judged_of_idle {next : Frame} (hknown : CallsKnown env)
    (hstmt : frame.stmt = some stmt) (hcalls : env'.calls = env.calls)
    (hfailed : env'.failed = env.failed) (hpc : next.pc = frame.advance.pc)
    (he : next.e = frame.e) (hcall : ∀ j, stmt ≠ .call j) (hcheck : stmt ≠ .check) :
    Judged env frame env' (some next) := by
  apply judged_of_same hknown hcalls hfailed
  rw [pending_some]
  exact pending_of_idle hstmt hpc he hcall hcheck

/-- The call itself: stale means another version, and another version means another number. -/
theorem judged_of_call {page : Page} {j : Fin 4} {executed : List Byte} {next : Frame}
    (h : FrameOk env.pages frame) (hknown : CallsKnown env) (hstmt : frame.stmt = some (.call j))
    (hmapped : env.pages frame.code = some page)
    (hexecutable : Executable env frame.code page.fn executed) (hpc : next.pc = frame.advance.pc)
    (he : next.e = Function.update frame.e j (immediate executed)) :
    Judged env frame { env with calls := ⟨frame.code, page.fn, executed⟩ :: env.calls }
      (some next) := by
  have hcurrent := h.fn_eq_version hstmt hmapped
  obtain ⟨j', hexecuted⟩ : ∃ j', executed = version j' := by
    rcases hexecutable with rfl | ⟨call, hmem, -, rfl⟩
    · exact ⟨j, hcurrent⟩
    · exact hknown call hmem
  refine ⟨?_, executed ≠ page.fn, ?_, ?_⟩
  · intro call hmem
    rcases List.mem_cons.mp hmem with rfl | hmem
    · exact ⟨j, hcurrent⟩
    · exact hknown call hmem
  · simp only [AnyStale, List.mem_cons, exists_eq_or_imp, Call.Stale]
    exact or_comm
  · rw [pending_some, pending_of_call hstmt hpc he, hcurrent, hexecuted, Ne,
      immediate_version_eq j j', or_assoc]

theorem judged_of_act (h : FrameOk env.pages frame) (hknown : CallsKnown env)
    (hact : Act env frame env' after) : Judged env frame env' after := by
  cases hact with
  | mmap hpc hfree =>
      refine judged_of_same hknown rfl rfl ?_
      rw [pending_some, Frame.Pending, Frame.Pending, hpc]
      simp
  | store hstmt =>
      exact judged_of_idle hknown hstmt rfl rfl rfl (e_advance frame) (by simp) (by simp)
  | call hstmt hmapped hexec hexecutable =>
      exact judged_of_call h hknown hstmt hmapped hexecutable rfl rfl
  | mprotect hstmt =>
      exact judged_of_idle hknown hstmt rfl rfl rfl (e_advance frame) (by simp) (by simp)
  | check hstmt =>
      refine ⟨hknown, False, by rw [or_false]; rfl, ?_⟩
      rw [pending_some, or_iff_left (not_pending_after_check hstmt rfl), pending_of_check hstmt,
        or_false, Bool.or_eq_true, decide_eq_true_eq]
  | count hstmt =>
      exact judged_of_idle hknown hstmt rfl rfl rfl (e_advance frame) (by simp) (by simp)
  | usleep hstmt =>
      exact judged_of_idle hknown hstmt rfl rfl rfl (e_advance frame) (by simp) (by simp)
  | again hpc =>
      exact judged_of_same hknown rfl rfl
        (pending_some.trans (iff_of_false (not_pending_of_start rfl) (not_pending_of_end hpc)))
  | done hpc =>
      exact judged_of_same hknown rfl rfl
        (pending_some.trans (iff_of_false id (not_pending_of_end hpc)))
  | munmap hpc =>
      refine judged_of_same hknown rfl rfl (pending_some.trans (iff_of_false id ?_))
      rw [Frame.Pending, hpc]
      exact id
  | ret hpc =>
      refine judged_of_same hknown rfl rfl (iff_of_false (by simp) ?_)
      rw [Frame.Pending, hpc]
      exact id

/-! ### Runs -/

/-- The flag and the frames together hold exactly the stale executions so far, and an exit code is
the flag's at a time when no handler was active any more. -/
structure Verdict (state : State Env Frame) : Prop where
  known : CallsKnown state.env
  verdict : (state.env.failed = true ∨ ∃ frame ∈ state.frames, frame.Pending)
    ↔ AnyStale state.env
  exit : ∀ code, state.env.exitCode = some code →
    state.frames = [] ∧ code = if state.env.failed then 1 else 0

theorem verdict_start (init : Pages) : Verdict (start init) where
  known := by simp [start, CallsKnown]
  verdict := by simp [start, AnyStale]
  exit := by simp [start]

theorem Verdict.run {rest : List Frame} (hok : FrameOk env.pages frame)
    (h : Verdict ⟨env, frame :: rest⟩) (hact : Act env frame env' after) :
    Verdict ⟨env', after.toList ++ rest⟩ := by
  obtain ⟨hknown, found, hstale, hfound⟩ := judged_of_act hok h.known hact
  refine ⟨hknown, ?_, ?_⟩
  · have hold := h.verdict
    have hframes : (∃ f ∈ after.toList ++ rest, f.Pending)
        ↔ (∃ f ∈ after, f.Pending) ∨ ∃ f ∈ rest, f.Pending := by
      simp only [List.mem_append, Option.mem_toList, Option.mem_def, or_and_right, exists_or]
    simp only [List.mem_cons, exists_eq_or_imp] at hold
    rw [hframes, hstale, ← hold, ← or_assoc, hfound, ← or_assoc]
    exact or_right_comm
  · intro code hcode
    rw [(effect_of_act hact).exitCode] at hcode
    cases (h.exit code hcode).1

theorem Verdict.step {event : Event} {state next : State Env Frame}
    (hsep : Separate Frame.page (fun env frame => FrameOk env.pages frame) state)
    (h : Verdict state) (hstep : Step program state event next) : Verdict next := by
  cases hstep with
  | signal henter =>
      obtain ⟨hlive, hpc, -⟩ := henter
      refine ⟨h.known, ?_, ?_⟩
      · have hnone : ∀ frame : Frame, frame.pc = .mmap → ¬ frame.Pending := by
          intro frame hpc
          rw [Frame.Pending, hpc]
          exact id
        have hold := h.verdict
        simp only [List.mem_cons, exists_eq_or_imp, hnone _ hpc, false_or]
        exact hold
      · intro code hcode
        rw [hlive] at hcode
        cases hcode
  | run hact => exact h.run (hsep.ok _ (List.mem_cons_self ..)) hact
  | main hmain =>
      obtain ⟨-⟩ := hmain
      exact ⟨h.known, h.verdict, fun code hcode => ⟨rfl, (Option.some.inj hcode).symm⟩⟩

theorem verdict_run {init : Pages} {events : List Event} {state : State Env Frame}
    (hrun : Run (Step program) (start init) events state) : Verdict state := by
  have hboth : Inv init events state ∧ Verdict state := by
    apply hrun.invariant_history (fun past s => Inv init past s ∧ Verdict s) _
      ⟨inv_start init, verdict_start init⟩
    rintro past s event next ⟨hinv, hverdict⟩ hstep
    exact ⟨hinv.step hstep, hverdict.step hinv.separate hstep⟩
  exact hboth.2

/-- **The verdict is exact.** However the signals fall and whatever the calls execute, once all
handlers have returned the flag is set if and only if some call executed other bytes than those in
its page, and `main` then returns 1 in that case and 0 in the other. -/
theorem failed_iff_stale (init : Pages) (events : List Event) (state : State Env Frame)
    (hrun : Run (Step program) (start init) events state) :
    (state.frames = [] → (state.env.failed = true
        ↔ ∃ call ∈ state.env.calls, call.executed ≠ call.current))
      ∧ ∀ code, state.env.exitCode = some code →
        (code = 1 ↔ ∃ call ∈ state.env.calls, call.executed ≠ call.current)
          ∧ (code = 0 ↔ ¬ ∃ call ∈ state.env.calls, call.executed ≠ call.current) := by
  have h := verdict_run hrun
  have hquiet : state.frames = [] → (state.env.failed = true ↔ AnyStale state.env) := by
    intro hframes
    have hverdict := h.verdict
    rwa [hframes, or_iff_left (by simp)] at hverdict
  refine ⟨hquiet, ?_⟩
  intro code hcode
  obtain ⟨hframes, rfl⟩ := h.exit code hcode
  have hstale := hquiet hframes
  change (_ = 1 ↔ AnyStale state.env) ∧ (_ = 0 ↔ ¬ AnyStale state.env)
  rw [← hstale]
  cases state.env.failed <;> simp

/-! ### An invocation left alone returns -/

def Frame.stepsLeft (frame : Frame) : Nat :=
  match frame.pc with
  | .mmap => 213
  | .body k i => 21 * (9 - k) + (20 - i) + 3
  | .munmap => 2
  | .ret => 1

theorem exists_act_of_stmt (h : FrameOk env.pages frame) (hstmt : frame.stmt = some stmt) :
    ∃ env' next, Act env frame env' (some next) ∧ next.pc = frame.advance.pc
      ∧ (AnyStale env' → AnyStale env) := by
  cases stmt with
  | store k value =>
      obtain ⟨page, hmapped, hwrite⟩ := h.store_ok hstmt
      exact ⟨_, _, .store hstmt hmapped hwrite, rfl, id⟩
  | call j =>
      obtain ⟨page, hmapped, hexec, -⟩ := h.call_ok hstmt
      refine ⟨_, _, .call hstmt hmapped hexec (Or.inl rfl), rfl, ?_⟩
      rintro ⟨call, hmem, hstale⟩
      rcases List.mem_cons.mp hmem with rfl | hmem
      · exact absurd rfl hstale
      · exact ⟨call, hmem, hstale⟩
  | mprotect prot =>
      obtain ⟨page, hmapped⟩ := Option.isSome_iff_exists.mp (h.mapped (page_of_stmt hstmt))
      exact ⟨_, _, .mprotect hstmt hmapped, rfl, id⟩
  | check => exact ⟨_, _, .check hstmt, rfl, id⟩
  | count => exact ⟨_, _, .count hstmt, rfl, id⟩
  | usleep => exact ⟨_, _, .usleep hstmt, rfl, id⟩

theorem exists_act (h : FrameOk env.pages frame)
    (hroom : frame.pc = .mmap → ∃ addr, env.pages addr = none) :
    ∃ env' after, Act env frame env' after ∧ (AnyStale env' → AnyStale env)
      ∧ ∀ next ∈ after, next.pc ≠ .mmap ∧ next.stepsLeft < frame.stepsLeft := by
  cases hpc : frame.pc with
  | mmap =>
      obtain ⟨addr, hfree⟩ := hroom hpc
      exact ⟨_, _, .mmap hpc hfree, id, by simp [Frame.stepsLeft, hpc]⟩
  | body k i =>
      have hbounds : k < 10 ∧ i ≤ 20 := by
        rw [FrameOk, hpc] at h
        exact ⟨h.1, h.2.1⟩
      by_cases hlast : i = 20
      · subst hlast
        by_cases hround : k + 1 < 10
        · refine ⟨_, _, .again hpc hround, id, ?_⟩
          simp only [Option.mem_def, Option.some.injEq, forall_eq', Frame.stepsLeft, hpc]
          exact ⟨by simp, by omega⟩
        · refine ⟨_, _, .done hpc hround, id, ?_⟩
          simp only [Option.mem_def, Option.some.injEq, forall_eq', Frame.stepsLeft, hpc]
          exact ⟨by simp, by omega⟩
      · have hstmt : frame.stmt = some (body.get ⟨i, by simp [body]; omega⟩) := by
          rw [Frame.stmt, hpc]
          exact List.getElem?_eq_getElem _
        obtain ⟨env', next, hact, hnext, hstale⟩ := exists_act_of_stmt h hstmt
        rw [pc_advance hpc] at hnext
        refine ⟨env', some next, hact, hstale, ?_⟩
        simp only [Option.mem_def, Option.some.injEq, forall_eq', Frame.stepsLeft, hpc, hnext]
        exact ⟨by simp, by omega⟩
  | munmap => exact ⟨_, _, .munmap hpc, id, by simp [Frame.stepsLeft, hpc]⟩
  | ret => exact ⟨_, _, .ret hpc, id, by simp⟩

/-- From any point on, an invocation that is not interrupted again returns; its calls can all be
coherent. -/
theorem exists_return (rest : List Frame) (h : FrameOk env.pages frame)
    (hroom : frame.pc = .mmap → ∃ addr, env.pages addr = none) :
    ∃ events env', Run (Step program) ⟨env, frame :: rest⟩ events ⟨env', rest⟩
      ∧ (AnyStale env' → AnyStale env) ∧ env'.exitCode = env.exitCode := by
  induction hsteps : frame.stepsLeft using Nat.strong_induction_on generalizing env frame with
  | _ steps ih =>
      obtain ⟨env', after, hact, hstale, hafter⟩ := exists_act h hroom
      have hstep : Step program ⟨env, frame :: rest⟩ .run ⟨env', after.toList ++ rest⟩ := .run hact
      have hexit := (effect_of_act hact).exitCode
      cases after with
      | none => exact ⟨_, env', .single hstep, hstale, hexit⟩
      | some next =>
          obtain ⟨hpc, hless⟩ := hafter next rfl
          obtain ⟨events, last, hrun, hstale', hexit'⟩ :=
            ih _ (hsteps ▸ hless) (h.act hact) (fun hmmap => absurd hmmap hpc) rfl
          exact ⟨_, last, .cons hstep hrun, hstale ∘ hstale', hexit'.trans hexit⟩

theorem failed_iff_stale_coherent :
    ∃ events state, Run (Step program) (start fun _ => none) events state
      ∧ state.frames = [] ∧ state.env.exitCode = some 0 := by
  have henter : Enter (start fun _ => none).env _ entered := Enter.mk rfl rfl rfl
  have hsignal : Step program (start fun _ => none) .signal _ := .signal henter
  obtain ⟨events, env, hrun, hstale, hexit⟩ :=
    exists_return [] (discipline.enter_ok _ _ _ henter) fun _ => ⟨0x1000, rfl⟩
  have hmain : Step program ⟨env, []⟩ .main _ := .main (.mk hexit)
  have hall := Run.cons hsignal (hrun.snoc hmain)
  refine ⟨_, _, hall, rfl, ?_⟩
  have hzero := ((failed_iff_stale _ _ _ hall).2 _ rfl).2
  have hcoherent : ¬ AnyStale env := by
    intro hany
    obtain ⟨call, hmem, -⟩ := hstale hany
    cases hmem
  exact congrArg some (hzero.mpr hcoherent)

end FexTestBins.SmcSignals
