import FexTestBins.SigtestSamask

/-!
# What `sigtest_samask` detects

As long as every nested signal is held, the runs of the handler follow one another, and each of them
begins with `count2 = count`. A signal that is delivered at once finds `count2` ahead, whatever has
happened before, and its handler exits.
-/

namespace FexTestBins.SigtestSamask

open Raise Transition

variable {numCount left : Nat} {s next : State Env MainPc HandlerPc} {event : Event}
  {events : List Event} {signalReturns : Int}

/-- Neither of the messages that something went wrong was printed. -/
def Clean (printed : List Message) : Prop :=
  .reentering ∉ printed ∧ .notRaised ∉ printed

/-- The states as long as every nested signal was held, with the number of steps that are left then:
`count` counts the handlers that have returned. -/
inductive Quiet (numCount : Nat) : Nat → State Env MainPc HandlerPc → Prop
  | start : Quiet numCount (2 * numCount + 8) start
  | loop {printed : List Message} : Clean printed → Quiet numCount (2 * numCount + 7)
      { env := ⟨true, false, 0, 0, printed, []⟩, main := .loop, frames := [], ending := none }
  | entry {count : Nat} {loop : Bool} {printed : List Message} :
      count ≤ numCount → Clean printed → Quiet numCount (2 * (numCount - count) + 6)
      { env := ⟨loop, false, count, count, printed, List.replicate count false⟩
        main := .loop
        frames := [⟨.entry, false⟩]
        ending := none }
  | raised {count : Nat} {printed : List Message} :
      count < numCount → Clean printed → Quiet numCount (2 * (numCount - count) + 5)
      { env := ⟨false, false, count, count + 1, printed, List.replicate (count + 1) false⟩
        main := .loop
        frames := [⟨.raised, true⟩]
        ending := none }
  | loopDone {printed : List Message} : Clean printed → Quiet numCount 5
      { env := ⟨false, false, numCount, numCount, printed, List.replicate (numCount + 1) false⟩
        main := .loop
        frames := []
        ending := none }
  | lastLoop {printed : List Message} : Clean printed → Quiet numCount 4
      { env := ⟨true, true, numCount, numCount, printed, List.replicate (numCount + 1) false⟩
        main := .lastLoop
        frames := []
        ending := none }
  | lastEntry {printed : List Message} : Clean printed → Quiet numCount 3
      { env := ⟨true, true, numCount, numCount, printed, List.replicate (numCount + 1) false⟩
        main := .raised
        frames := [⟨.entry, false⟩]
        ending := none }
  | lastRaised {printed : List Message} : Clean printed → Quiet numCount 2
      { env := ⟨false, true, numCount, numCount, printed,
          List.replicate (numCount + 1) false ++ [true]⟩
        main := .raised
        frames := []
        ending := none }
  | lastDone {printed : List Message} : Clean printed → Quiet numCount 1
      { env := ⟨false, true, numCount, numCount, printed,
          List.replicate (numCount + 1) false ++ [true]⟩
        main := .lastLoop
        frames := []
        ending := none }
  | ended {printed : List Message} : Clean printed → Quiet numCount 0
      { env := ⟨false, true, numCount, numCount, printed,
          List.replicate (numCount + 1) false ++ [true]⟩
        main := .lastLoop
        frames := []
        ending := some (.returned 0) }

/-- A nested signal was delivered at once, and its handler is about to compare the counters. -/
structure Reentered (s : State Env MainPc HandlerPc) : Prop where
  frames : ∃ rest, s.frames = ⟨.entry, false⟩ :: rest
  last : s.env.last = false
  ahead : s.env.count2 ≠ s.env.count
  printed : .notRaised ∉ s.env.printed
  ending : s.ending = none

structure Failed (s : State Env MainPc HandlerPc) : Prop where
  printed : .notRaised ∉ s.env.printed
  reported : .reentering ∈ s.env.printed
  ending : s.ending = some (.exited (-1))

/-- What the events so far say about the state that was reached. -/
inductive Reached (numCount : Nat) (events : List Event) (s : State Env MainPc HandlerPc) : Prop
  | quiet {left : Nat} (hevents : .atOnce ∉ events)
      (hlength : events.length + left = 2 * numCount + 8) (hquiet : Quiet numCount left s)
  | reentered (hevents : .atOnce ∈ events) (hlength : events.length < 2 * numCount + 8)
      (hreentered : Reentered s)
  | failed (hevents : .atOnce ∈ events) (hlength : events.length ≤ 2 * numCount + 8)
      (hfailed : Failed s)

/-! ### One step -/

theorem handler_last {env : Env} (hlast : env.last = true) :
    (program numCount signalReturns).handler env .entry =
      ({ env with
          loop := false
          printed := env.printed ++ [.insideHandler, .handlingLast]
          runs := env.runs ++ [true] },
        .done ()) := by
  simp [program, sigHandler, Env.print, hlast]

theorem handler_reentered {env : Env} (hlast : env.last = false)
    (hcounts : env.count2 ≠ env.count) :
    (program numCount signalReturns).handler env .entry =
      ({ env with
          printed := env.printed ++ [.insideHandler, .reentering]
          runs := env.runs ++ [false] },
        .exit (-1)) := by
  simp [program, sigHandler, Env.print, hlast, hcounts]

theorem handler_nested {env : Env} (hlast : env.last = false) (hcounts : env.count2 = env.count)
    (hlt : env.count < numCount) :
    (program numCount signalReturns).handler env .entry =
      ({ env with
          loop := false
          count2 := env.count + 1
          printed := env.printed ++ [.insideHandler, .nestedRaising (1 + env.count)]
          runs := env.runs ++ [false] },
        .raise .raised) := by
  simp [program, sigHandler, Env.print, hlast, hcounts, hlt]

theorem handler_enough {env : Env} (hlast : env.last = false) (hcounts : env.count2 = env.count)
    (hge : ¬ env.count < numCount) :
    (program numCount signalReturns).handler env .entry =
      ({ env with
          loop := false
          printed := env.printed ++ [.insideHandler]
          runs := env.runs ++ [false] },
        .done ()) := by
  simp [program, sigHandler, Env.print, hlast, hcounts, hge]

theorem Clean.append {printed messages : List Message} (h : Clean printed)
    (hmessages : Clean messages) : Clean (printed ++ messages) := by
  simp only [Clean, List.mem_append, not_or]
  exact ⟨⟨h.1, hmessages.1⟩, h.2, hmessages.2⟩

theorem Quiet.step (h : Quiet numCount left s) (hstep : Step (program numCount 0) s event next) :
    (event ≠ .atOnce ∧ ∃ left', left = left' + 1 ∧ Quiet numCount left' next)
      ∨ event = .atOnce ∧ 1 < left ∧ Reentered next := by
  cases h with
  | start =>
      obtain ⟨rfl, rfl⟩ := hstep.main_goto rfl rfl rfl
      exact .inl ⟨by simp, _, rfl, .loop (by simp [SigtestSamask.start, Clean])⟩
  | loop hprinted =>
      obtain ⟨rfl, rfl⟩ := hstep.main_raise rfl rfl rfl
      exact .inl ⟨by simp, _, rfl,
        .entry (Nat.zero_le numCount) (hprinted.append (by simp [Clean]))⟩
  | @entry count loop printed hle hprinted =>
      by_cases hlt : count < numCount
      · have hmessages : Clean [.insideHandler, .nestedRaising (1 + count)] := by simp [Clean]
        obtain ⟨rfl, rfl⟩ | ⟨rfl, rfl⟩ :=
          hstep.handler_raise rfl rfl (handler_nested rfl rfl hlt)
        · -- the handler that runs now finds the counters apart
          exact .inr ⟨rfl, by omega, ⟨⟨_, rfl⟩, rfl, Nat.succ_ne_self count,
            (hprinted.append hmessages).2, rfl⟩⟩
        · refine .inl ⟨by simp, _, rfl, ?_⟩
          rw [← List.replicate_succ']
          exact .raised hlt (hprinted.append hmessages)
      · obtain ⟨rfl, rfl⟩ := hstep.handler_done rfl rfl (handler_enough rfl rfl hlt)
        obtain rfl : count = numCount := by omega
        refine .inl ⟨by simp, 5, by omega, ?_⟩
        rw [← List.replicate_succ']
        exact .loopDone (hprinted.append (by simp [Clean]))
  | @raised count printed hlt hprinted =>
      obtain ⟨rfl, rfl⟩ := hstep.handler_done rfl rfl rfl
      have hleft : 2 * (numCount - count) + 5 = 2 * (numCount - (count + 1)) + 6 + 1 := by omega
      exact .inl ⟨by simp, _, hleft, .entry hlt hprinted⟩
  | loopDone hprinted =>
      obtain ⟨rfl, rfl⟩ := hstep.main_goto rfl rfl rfl
      exact .inl ⟨by simp, _, rfl, .lastLoop hprinted⟩
  | lastLoop hprinted =>
      obtain ⟨rfl, rfl⟩ := hstep.main_raise rfl rfl rfl
      exact .inl ⟨by simp, _, rfl, .lastEntry (hprinted.append (by simp [Clean]))⟩
  | lastEntry hprinted =>
      obtain ⟨rfl, rfl⟩ := hstep.handler_done rfl rfl (handler_last rfl)
      exact .inl ⟨by simp, _, rfl, .lastRaised (hprinted.append (by simp [Clean]))⟩
  | lastRaised hprinted =>
      obtain ⟨rfl, rfl⟩ := hstep.main_goto rfl rfl rfl
      exact .inl ⟨by simp, _, rfl, .lastDone hprinted⟩
  | lastDone hprinted =>
      obtain ⟨rfl, rfl⟩ := hstep.main_done rfl rfl rfl
      exact .inl ⟨by simp, _, rfl, .ended (hprinted.append (by simp [Clean]))⟩
  | ended hprinted => exact absurd hstep (stuck_of_ended rfl _ _)

theorem Reentered.step (h : Reentered s) (hstep : Step (program numCount 0) s event next) :
    Failed next := by
  obtain ⟨rest, hframes⟩ := h.frames
  obtain ⟨rfl, rfl⟩ :=
    hstep.handler_exit h.ending hframes (handler_reentered h.last h.ahead)
  exact ⟨by simp [h.printed], by simp, rfl⟩

theorem Reached.step (h : Reached numCount events s)
    (hstep : Step (program numCount 0) s event next) :
    Reached numCount (events ++ [event]) next := by
  cases h with
  | quiet hevents hlength hquiet =>
      obtain ⟨hevent, left', rfl, hnext⟩ | ⟨rfl, hleft, hnext⟩ := hquiet.step hstep
      · refine .quiet ?_ ?_ hnext
        · simp [hevents, hevent.symm]
        · rw [List.length_append, List.length_singleton]
          omega
      · refine .reentered (by simp) ?_ hnext
        simp only [List.length_append, List.length_singleton]
        omega
  | reentered hevents hlength hreentered =>
      refine .failed (by simp [hevents]) ?_ (hreentered.step hstep)
      rw [List.length_append, List.length_singleton]
      exact hlength
  | failed hevents hlength hfailed => exact absurd hstep (stuck_of_ended hfailed.ending _ _)

/-! ### Whole runs -/

theorem reached_of_run (hrun : Run (Step (program numCount 0)) start events s) :
    Reached numCount events s := by
  apply hrun.invariant_history (Reached numCount)
  · intro past s event next hpast hstep
    exact hpast.step hstep
  · exact .quiet (by simp) (by simp) .start

theorem Quiet.ended_of_ending {ending : Ending} (h : Quiet numCount left s)
    (hending : s.ending = some ending) :
    ending = .returned 0 ∧ s.env.runs = List.replicate (numCount + 1) false ++ [true]
      ∧ s.env.count = numCount ∧ s.env.count2 = numCount := by
  cases h with
  | ended => exact ⟨(Option.some.inj hending).symm, rfl, rfl, rfl⟩
  | _ => cases hending

theorem Quiet.clean (h : Quiet numCount left s) : Clean s.env.printed := by
  cases h with
  | start => simp [SigtestSamask.start, Clean]
  | _ => assumption

/-- **What the test reports.** Every run ends; it ends with `exit(-1)` exactly if a nested signal
was delivered at once. -/
theorem exits_iff_atOnce (hrun : Run (Step (program numCount 0)) start events s) :
    events.length ≤ 2 * numCount + 8
      ∧ (s.ending = none → ∃ event next, Step (program numCount 0) s event next)
      ∧ .notRaised ∉ s.env.printed
      ∧ s.ending ≠ some (.returned (-3))
      ∧ (s.ending ≠ none →
          (s.ending = some (.exited (-1)) ↔ .atOnce ∈ events)
            ∧ (.reentering ∈ s.env.printed ↔ .atOnce ∈ events)
            ∧ (.atOnce ∉ events → s.ending = some (.returned 0)
                ∧ s.env.runs = List.replicate (numCount + 1) false ++ [true]
                ∧ s.env.count = numCount ∧ s.env.count2 = numCount)) := by
  obtain ⟨hevents, hlength, hquiet⟩ | ⟨hevents, hlength, hreentered⟩
    | ⟨hevents, hlength, hfailed⟩ := reached_of_run hrun
  · refine ⟨by omega, exists_step, hquiet.clean.2, ?_, ?_⟩
    · intro hending
      obtain ⟨hreturned, -⟩ := hquiet.ended_of_ending hending
      simp at hreturned
    · intro hended
      obtain ⟨ending, hending⟩ := Option.ne_none_iff_exists'.mp hended
      obtain ⟨rfl, hresults⟩ := hquiet.ended_of_ending hending
      refine ⟨by simp [hending, hevents], by simp [hquiet.clean.1, hevents], ?_⟩
      intro _
      exact ⟨hending, hresults⟩
  · refine ⟨Nat.le_of_lt hlength, exists_step, hreentered.printed, by simp [hreentered.ending], ?_⟩
    intro hended
    exact absurd hreentered.ending hended
  · refine ⟨hlength, exists_step, hfailed.printed, by simp [hfailed.ending], ?_⟩
    intro _
    refine ⟨by simp [hfailed.ending, hevents], by simp [hfailed.reported, hevents], ?_⟩
    intro hnone
    exact absurd hevents hnone

/-- The first nested signal is delivered at once. -/
theorem exits_iff_atOnce_first :
    ∃ s, Run (Step (program 1 0)) start [.run, .run, .atOnce, .run] s
      ∧ s.ending = some (.exited (-1)) := by
  have hrun : Run (Step (program 1 0)) start [.run, .run, .atOnce, .run] _ :=
    .cons (.head _) (.cons (.head _) (.cons (.head _) (.single (.head _))))
  obtain ⟨-, -, -, -, hends⟩ := exits_iff_atOnce hrun
  exact ⟨_, hrun, (hends (by simp)).1.mpr (by decide)⟩

end FexTestBins.SigtestSamask
