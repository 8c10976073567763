import FexTestBins.Library.OwnedMaps
import FexTestBins.Proof.SmcVerdict
import FexTestBins.SmcSignalsThread

/-!
# The signals of `smc-signals.cpp`

What becomes of the six thousand signals of the thread, and that the process returns after a number
of steps that only depends on how many of them were delivered.
-/

namespace FexTestBins.SmcSignals

open Transition Interrupts MaskedSignals

variable {init : Pages} {env env' : Env} {frame : Frame} {after : Option Frame}
  {events : List (MaskedSignals.Event Signal)} {state : MaskedSignals.State Env Frame Signal}

theorem count_thread (sig : Signal) : thread.count sig = 1200 := by
  cases sig <;> decide +kernel

theorem length_thread : thread.length = 6000 := by
  decide +kernel

theorem mem_signals (sig : Signal) : sig ∈ signals := by
  cases sig <;> decide

theorem length_eq_count (sigs : List Signal) : sigs.length = sigs.count .sigint
    + sigs.count .sigsegv + sigs.count .sig63 + sigs.count .sigusr1 + sigs.count .sigusr2 := by
  induction sigs with
  | nil => rfl
  | cons sig sigs ih => cases sig <;> simp [ih] <;> omega

/-! ### Once the thread has been joined -/

/-- `main` returns when the thread is done. -/
theorem sent_of_exit (hrun : Run Deliver (begin init) events state)
    (hexit : state.inner.env.exitCode ≠ none) : state.sent = thread.length := by
  apply hrun.invariant (fun s => s.inner.env.exitCode ≠ none → s.sent = thread.length) _
    (fun hexit => absurd rfl hexit) hexit
  intro s event next h hstep hexit
  cases hstep with
  | send hsig =>
      have hlt := (List.getElem?_eq_some_iff.mp hsig).1
      rw [h hexit] at hlt
      exact absurd hlt (lt_irrefl _)
  | deliver _ _ henter =>
      obtain ⟨hlive, -, -⟩ := henter
      exact absurd hlive hexit
  | run hact => exact h ((effect_of_act hact).exitCode ▸ hexit)
  | main hsent => exact hsent

/-! ### The length of a run -/

theorem stepsLeft_of_stmt {stmt : Stmt} {next : Frame} (hstmt : frame.stmt = some stmt)
    (hpc : next.pc = frame.advance.pc) : next.stepsLeft + 1 = frame.stepsLeft := by
  obtain ⟨k, i, hbody, hget⟩ := pc_of_stmt hstmt
  have hlt := lt_of_stmt hget
  rw [pc_advance hbody] at hpc
  simp only [Frame.stepsLeft, hpc, hbody]
  omega

theorem stepsLeft_act (h : FrameOk env.pages frame) (hact : Act env frame env' after) :
    after.elim 0 Frame.stepsLeft + 1 = frame.stepsLeft := by
  cases hact with
  | store hstmt | call hstmt | mprotect hstmt | check hstmt | count hstmt | usleep hstmt =>
      exact stepsLeft_of_stmt hstmt rfl
  | again hpc hlt =>
      simp only [Option.elim_some, Frame.stepsLeft, hpc, body, List.length_cons, List.length_nil]
      omega
  | done hpc hlast =>
      rw [FrameOk, hpc] at h
      obtain ⟨hlt, -⟩ := h
      simp only [Option.elim_some, Frame.stepsLeft, hpc, body, List.length_cons, List.length_nil]
      omega
  | mmap hpc | munmap hpc | ret hpc => simp [Frame.stepsLeft, hpc]

/-- A handler takes 213 steps. -/
theorem fixedWork : FixedWork program (fun env frame => FrameOk env.pages frame)
    Frame.stepsLeft 213 where
  enter := by
    rintro _ _ frame ⟨-, hpc, -⟩
    rw [Frame.stepsLeft, hpc]
  act := fun _ _ _ _ => stepsLeft_act

/-- `main` returns once. -/
theorem count_main {events : List Interrupts.Event} {state : Interrupts.State Env Frame}
    (hrun : Run (Interrupts.Step program) (start init) events state) :
    events.count .main = if state.env.exitCode = none then 0 else 1 := by
  apply hrun.invariant_history fun past s =>
    past.count .main = if s.env.exitCode = none then 0 else 1
  · intro past s event next h hstep
    cases hstep with
    | signal henter =>
        obtain ⟨hlive, -, -⟩ := henter
        simpa [hlive] using h
    | run hact => simpa [(effect_of_act hact).exitCode] using h
    | main hmain =>
        obtain ⟨hlive⟩ := hmain
        simpa [hlive] using h
  · rfl

theorem length_run (hrun : Run Deliver (begin init) events state) :
    events.length + (state.inner.frames.map Frame.stepsLeft).sum
      = state.sent + 214 * state.inner.env.sigcount
        + if state.inner.env.exitCode = none then 0 else 1 := by
  have hinner := project_run hrun
  have hwork := fixedWork.count_run discipline rfl hinner
  have hmain := count_main hinner
  have hsend := (posted_run hrun).sent_eq
  have hsignal := (inv_run hinner).sigcount
  rw [MaskedSignals.length_eq, Interrupts.length_events, hmain, hsend]
  rw [← hsignal] at hwork ⊢
  omega

/-- The handler that is about to map a page finds one of five that were free at the start. -/
theorem exists_page {rest : List Frame} {events : List Interrupts.Event} (room : Finset Addr)
    (hcard : 5 ≤ room.card) (hroom : ∀ addr ∈ room, init addr = none)
    (hinv : Inv init events ⟨env, frame :: rest⟩) (hfew : (frame :: rest).length ≤ 5)
    (hpc : frame.pc = .mmap) : ∃ addr, env.pages addr = none := by
  have hkept : Kept Frame.page (fun env frame => FrameOk env.pages frame) (fun env => env.pages)
      init ⟨env, frame :: rest⟩ := ⟨hinv.separate, hinv.outside, hinv.unmapped⟩
  apply hkept.exists_free room hroom
  have hnone : frame.page = none := by rw [Frame.page, hpc]
  have hle := List.length_filterMap_le Frame.page rest
  rw [List.filterMap_cons_none hnone]
  rw [List.length_cons] at hfew
  omega

theorem exists_deliver (room : Finset Addr) (hcard : 5 ≤ room.card)
    (hroom : ∀ addr ∈ room, init addr = none) (hrun : Run Deliver (begin init) events state)
    (hlive : state.inner.env.exitCode = none) : ∃ event next, Deliver state event next := by
  have hinv := inv_run (project_run hrun)
  have hmasked := masked_run rfl hrun
  have hfew := hmasked.frames_le signals mem_signals
  by_cases hsent : state.sent < thread.length
  · exact ⟨.send, _, .send (List.getElem?_eq_getElem hsent)⟩
  obtain ⟨⟨env, frames⟩, active, pending, sent⟩ := state
  cases frames with
  | nil =>
      have hdone : sent = thread.length := le_antisymm (posted_run hrun).sent_le (not_lt.mp hsent)
      exact ⟨.main, _, .main hdone ⟨hlive⟩⟩
  | cons frame rest =>
      have hroom := exists_page room hcard hroom hinv hfew
      obtain ⟨env', after, hact, -⟩ :=
        exists_act (hinv.separate.ok frame List.mem_cons_self) hroom
      cases active with
      | nil => exact absurd hmasked.length (by simp)
      | cons sig active => exact ⟨.run, _, .run hact⟩

theorem stuck_of_exit (hrun : Run Deliver (begin init) events state)
    (hexit : state.inner.env.exitCode ≠ none) : Stuck Deliver state := by
  obtain ⟨code, hcode⟩ := Option.ne_none_iff_exists'.mp hexit
  have hframes := ((verdict_run (project_run hrun)).exit code hcode).1
  have hsent := sent_of_exit hrun hexit
  intro event next hstep
  cases hstep with
  | send hsig =>
      have hlt := (List.getElem?_eq_some_iff.mp hsig).1
      rw [hsent] at hlt
      exact absurd hlt (lt_irrefl _)
  | deliver _ _ henter =>
      obtain ⟨hlive, -, -⟩ := henter
      exact absurd hlive hexit
  | run => cases hframes
  | main _ hmain =>
      obtain ⟨hlive⟩ := hmain
      exact absurd hlive hexit

theorem length_le (hrun : Run Deliver (begin init) events state) :
    events.length ≤ 6000 + 214 * 6000 + 1 := by
  have hlength := length_run hrun
  have hposted := posted_run hrun
  have hsent := hposted.sent_le
  have hdelivered := hposted.length_le
  have hsigcount := (inv_run (project_run hrun)).sigcount
  rw [count_signal] at hsigcount
  rw [length_thread] at hsent
  split at hlength <;> omega

theorem exists_returned (room : Finset Addr) (hcard : 5 ≤ room.card)
    (hroom : ∀ addr ∈ room, init addr = none) :
    ∃ events state, Run Deliver (begin init) events state ∧ state.inner.env.exitCode ≠ none := by
  obtain ⟨events, state, hrun, hstuck⟩ := Run.exists_stuck fun _ _ => length_le
  refine ⟨events, state, hrun, ?_⟩
  intro hlive
  obtain ⟨event, next, hstep⟩ := exists_deliver room hcard hroom hrun hlive
  exact hstuck event next hstep

/-- **The process returns.** Where five pages are free, every run goes on until `main` has returned,
with one step for each signal sent and 214 for each that was delivered. -/
theorem smc_signals_returns (init : Pages) (room : Finset Addr) (hcard : 5 ≤ room.card)
    (hroom : ∀ addr ∈ room, init addr = none) (events : List (MaskedSignals.Event Signal))
    (state : MaskedSignals.State Env Frame Signal) (hrun : Run Deliver (begin init) events state) :
    (Stuck Deliver state ↔ state.inner.env.exitCode ≠ none)
      ∧ events.length ≤ 6000 + 214 * 6000 + 1
      ∧ (state.inner.env.exitCode ≠ none →
        events.length = 6000 + 214 * state.inner.env.sigcount + 1) := by
  refine ⟨⟨?_, stuck_of_exit hrun⟩, length_le hrun, ?_⟩
  · intro hstuck hlive
    obtain ⟨event, next, hstep⟩ := exists_deliver room hcard hroom hrun hlive
    exact hstuck event next hstep
  · intro hexit
    obtain ⟨code, hcode⟩ := Option.ne_none_iff_exists'.mp hexit
    have hframes := ((verdict_run (project_run hrun)).exit code hcode).1
    have hlength := length_run hrun
    rw [sent_of_exit hrun hexit, length_thread, if_neg hexit, hframes] at hlength
    simpa using hlength

/-- Five pages. -/
def five : Finset Addr := {0x1000, 0x2000, 0x3000, 0x4000, 0x5000}

/-- With nothing else mapped, there is a run to the end. -/
theorem exists_alone : ∃ events state,
    Run Deliver (begin fun _ => none) events state ∧ state.inner.env.exitCode ≠ none :=
  exists_returned five (by decide) fun _ _ => rfl

theorem smc_signals_returns_alone : ∃ events state,
    Run Deliver (begin fun _ => none) events state ∧ Stuck Deliver state
      ∧ events.length = 6000 + 214 * state.inner.env.sigcount + 1 := by
  obtain ⟨events, state, hrun, hexit⟩ := exists_alone
  obtain ⟨hstuck, -, hlength⟩ :=
    smc_signals_returns _ five (by decide) (fun _ _ => rfl) events state hrun
  exact ⟨events, state, hrun, hstuck.mpr hexit, hlength hexit⟩

/-! ### What becomes of the signals -/

/-- What the rules of delivery add to the safety of the handlers. Each of the five signals has at
most one handler at a time. When `main` has returned, every signal has been sent, and signals of a
kind have been handled, or are still pending, at least once and at most as often as they were sent,
and exactly as often in the case of 63. -/
structure Delivered (init : Pages) (events : List (MaskedSignals.Event Signal))
    (state : MaskedSignals.State Env Frame Signal) : Prop where
  safe : Safe init (events.filterMap Event.inner) state.inner
  masked : state.active.Nodup ∧ state.active.length = state.inner.frames.length
  few : state.inner.frames.length ≤ 5
  sigcount : state.inner.env.sigcount = (delivered events).length
  handled : state.inner.env.exitCode ≠ none → ∀ sig,
    0 < (delivered events).count sig + state.pending sig
      ∧ (delivered events).count sig + state.pending sig ≤ 1200
  queued : state.inner.env.exitCode ≠ none →
    (delivered events).count .sig63 + state.pending .sig63 = 1200
  returned : state.inner.env.exitCode ≠ none →
    state.inner.env.count = 10 * state.inner.env.sigcount ∧ state.inner.env.pages = init
      ∧ state.inner.env.sigcount ≤ 6000
      ∧ ((∀ sig, state.pending sig = 0) → 1204 ≤ state.inner.env.sigcount)

/-- **No signal is lost track of.** In every run of the handlers, the thread and `main`, however the
signals are delivered and the handlers nest. -/
theorem signals_delivered (init : Pages) (events : List (MaskedSignals.Event Signal))
    (state : MaskedSignals.State Env Frame Signal) (hrun : Run Deliver (begin init) events state) :
    Delivered init events state := by
  have hinner := project_run hrun
  have hsafe := (inv_run hinner).safe
  have hmasked := masked_run rfl hrun
  have hposted := posted_run hrun
  have hsigcount : state.inner.env.sigcount = (delivered events).length := by
    rw [hsafe.sigcount, count_signal]
  have hall : state.inner.env.exitCode ≠ none → thread.take state.sent = thread := by
    intro hexit
    rw [sent_of_exit hrun hexit, List.take_length]
  have hle : state.inner.env.exitCode ≠ none → ∀ sig,
      (delivered events).count sig + state.pending sig ≤ 1200 := by
    intro hexit sig
    rw [← count_thread sig, ← hall hexit]
    exact hposted.le sig
  have hone : state.inner.env.exitCode ≠ none → ∀ sig,
      0 < (delivered events).count sig + state.pending sig := by
    intro hexit sig
    apply hposted.one sig
    rw [hall hexit, ← List.count_pos_iff, count_thread]
    decide
  have hqueued : state.inner.env.exitCode ≠ none →
      (delivered events).count .sig63 + state.pending .sig63 = 1200 := by
    intro hexit
    rw [← count_thread .sig63, ← hall hexit]
    exact hposted.queued .sig63 rfl
  refine ⟨hsafe, ⟨hmasked.nodup, hmasked.length⟩, hmasked.frames_le signals mem_signals, hsigcount,
    fun hexit sig => ⟨hone hexit sig, hle hexit sig⟩, hqueued, ?_⟩
  intro hexit
  obtain ⟨code, hcode⟩ := Option.ne_none_iff_exists'.mp hexit
  have hframes := ((verdict_run hinner).exit code hcode).1
  obtain ⟨hcount, hpages⟩ := hsafe.quiet hframes
  refine ⟨hcount, hpages, ?_, ?_⟩
  · rw [hsigcount, ← length_thread, ← sent_of_exit hrun hexit]
    exact hposted.length_le
  · intro hnone
    have hone := hone hexit
    have hqueued := hqueued hexit
    simp only [hnone, Nat.add_zero] at hone hqueued
    rw [hsigcount, length_eq_count]
    have hint := hone .sigint
    have hsegv := hone .sigsegv
    have husr1 := hone .sigusr1
    have husr2 := hone .sigusr2
    omega

theorem signals_delivered_alone : ∃ events state, state.inner.env.exitCode ≠ none
    ∧ Delivered (fun _ => none) events state := by
  obtain ⟨events, state, hrun, hexit⟩ := exists_alone
  exact ⟨events, state, hexit, signals_delivered _ events state hrun⟩

end FexTestBins.SmcSignals
