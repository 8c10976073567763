import FexTestBins.SigtestNoDefer

/-!
# What `sigtest_no_defer` accepts

As long as every nested signal is delivered at once, the active handlers pile up behind their raises
and `count` stays at zero. A handler whose signal is held counts up before that signal is delivered,
however many others wait below it, and the one that is entered next exits.
-/

namespace FexTestBins.SigtestNoDefer

open Raise Transition

variable {numCount : Nat} {s next : State Env MainPc HandlerPc} {event : Event}
  {events : List Event} {sigactionReturns : Int}

/-- The states as long as no nested signal was held, with the events that lead to them. -/
inductive Nesting (numCount : Nat) : List Event → State Env MainPc HandlerPc → Prop
  | start : Nesting numCount [] start
  | loop : Nesting numCount [.run]
      { env := ⟨true, 0, 0, []⟩, main := .loop, frames := [], ending := none }
  | entry {depth : Nat} {loop : Bool} {printed : List Message} :
      depth ≤ numCount → Nesting numCount (.run :: .run :: List.replicate depth .atOnce)
      { env := ⟨loop, 0, depth, printed⟩
        main := .loop
        frames := ⟨.entry, false⟩ :: List.replicate depth ⟨.raised, false⟩
        ending := none }
  | ended {printed : List Message} :
      Nesting numCount (.run :: .run :: List.replicate numCount .atOnce ++ [.run])
      { env := ⟨false, 0, numCount, printed⟩
        main := .loop
        frames := ⟨.entry, false⟩ :: List.replicate numCount ⟨.raised, false⟩
        ending := some (.exited 0) }

/-- The topmost handler has raised a signal that is held. -/
structure Deferred (s : State Env MainPc HandlerPc) : Prop where
  frames : ∃ rest, s.frames = ⟨.raised, true⟩ :: rest
  ending : s.ending = none

structure Late (s : State Env MainPc HandlerPc) : Prop where
  frames : ∃ rest, s.frames = ⟨.entry, false⟩ :: rest
  counted : s.env.count ≠ 0
  ending : s.ending = none

structure Failed (s : State Env MainPc HandlerPc) : Prop where
  reported : .noDeferBug ∈ s.env.printed
  ending : s.ending = some (.exited (-1))

/-- What the events so far say about the state that was reached. -/
inductive Reached (numCount : Nat) (events : List Event) (s : State Env MainPc HandlerPc) : Prop
  | nesting (hnesting : Nesting numCount events s)
  | deferred (hheld : .held ∈ events) (hatOnce : events.count .atOnce < numCount)
      (hlength : events.length ≤ numCount + 2) (hdeferred : Deferred s)
  | late (hheld : .held ∈ events) (hatOnce : events.count .atOnce < numCount)
      (hlength : events.length ≤ numCount + 3) (hlate : Late s)
  | failed (hheld : .held ∈ events) (hatOnce : events.count .atOnce < numCount)
      (hlength : events.length ≤ numCount + 4) (hfailed : Failed s)

/-! ### One step -/

theorem handler_nested {env : Env} (hcount : env.count = 0) (hlt : env.count2 < numCount) :
    (program numCount sigactionReturns).handler env .entry =
      ({ env with
          loop := false
          count2 := env.count2 + 1
          printed := env.printed ++ [.insideHandler, .nestedRaising 1] },
        .raise .raised) := by
  simp [program, sigHandler, Env.print, hcount, hlt]

theorem handler_enough {env : Env} (hcount : env.count = 0) (hge : ¬ env.count2 < numCount) :
    (program numCount sigactionReturns).handler env .entry =
      ({ env with
          loop := false
          printed := env.printed ++ [.insideHandler] },
        .exit 0) := by
  simp [program, sigHandler, Env.print, hcount, hge]

theorem handler_late {env : Env} (hcount : env.count ≠ 0) :
    (program numCount sigactionReturns).handler env .entry =
      ({ env with printed := env.printed ++ [.insideHandler, .noDeferBug] }, .exit (-1)) := by
  simp [program, sigHandler, Env.print, hcount]

theorem Nesting.step (h : Nesting numCount events s)
    (hstep : Step (program numCount 0) s event next) :
    Nesting numCount (events ++ [event]) next
      ∨ event = .held ∧ events.count .atOnce < numCount ∧ events.length ≤ numCount + 1
        ∧ Deferred next := by
  cases h with
  | start =>
      obtain ⟨rfl, rfl⟩ := hstep.main_goto rfl rfl rfl
      exact .inl .loop
  | loop =>
      obtain ⟨rfl, rfl⟩ := hstep.main_raise rfl rfl rfl
      exact .inl (.entry (Nat.zero_le numCount))
  | @entry depth loop printed hle =>
      by_cases hlt : depth < numCount
      · obtain ⟨rfl, rfl⟩ | ⟨rfl, rfl⟩ := hstep.handler_raise rfl rfl (handler_nested rfl hlt)
        · left
          rw [List.cons_append, List.cons_append, ← List.replicate_succ']
          exact .entry hlt
        · refine .inr ⟨rfl, ?_, ?_, ⟨⟨_, rfl⟩, rfl⟩⟩
          · simpa using hlt
          · simpa using Nat.succ_le_of_lt hlt
      · obtain ⟨rfl, rfl⟩ := hstep.handler_exit rfl rfl (handler_enough rfl hlt)
        obtain rfl : depth = numCount := by omega
        exact .inl .ended
  | ended => exact absurd hstep (stuck_of_ended rfl _ _)

/-- The handler counts up, and the held signal is delivered on its return. -/
theorem Deferred.step (h : Deferred s) (hstep : Step (program numCount 0) s event next) :
    event = .run ∧ Late next := by
  obtain ⟨rest, hframes⟩ := h.frames
  obtain ⟨rfl, rfl⟩ := hstep.handler_done h.ending hframes rfl
  exact ⟨rfl, ⟨⟨rest, rfl⟩, Nat.succ_ne_zero _, h.ending⟩⟩

theorem Late.step (h : Late s) (hstep : Step (program numCount 0) s event next) :
    event = .run ∧ Failed next := by
  obtain ⟨rest, hframes⟩ := h.frames
  obtain ⟨rfl, rfl⟩ := hstep.handler_exit h.ending hframes (handler_late h.counted)
  exact ⟨rfl, ⟨by simp, rfl⟩⟩

theorem Reached.step (h : Reached numCount events s)
    (hstep : Step (program numCount 0) s event next) :
    Reached numCount (events ++ [event]) next := by
  cases h with
  | nesting hnesting =>
      obtain hnext | ⟨rfl, hatOnce, hlength, hnext⟩ := hnesting.step hstep
      · exact .nesting hnext
      · exact .deferred (by simp) (by simpa using hatOnce) (by simpa using hlength) hnext
  | deferred hheld hatOnce hlength hdeferred =>
      obtain ⟨rfl, hnext⟩ := hdeferred.step hstep
      exact .late (by simp [hheld]) (by simpa using hatOnce) (by simpa using hlength) hnext
  | late hheld hatOnce hlength hlate =>
      obtain ⟨rfl, hnext⟩ := hlate.step hstep
      exact .failed (by simp [hheld]) (by simpa using hatOnce) (by simpa using hlength) hnext
  | failed _ _ _ hfailed => exact absurd hstep (stuck_of_ended hfailed.ending _ _)

/-! ### Whole runs -/

theorem reached_of_run (hrun : Run (Step (program numCount 0)) start events s) :
    Reached numCount events s := by
  apply hrun.invariant_history (Reached numCount)
  · intro past s event next hpast hstep
    exact hpast.step hstep
  · exact .nesting .start

theorem Nesting.held_not_mem (h : Nesting numCount events s) : .held ∉ events := by
  cases h <;> simp

theorem Nesting.length_le (h : Nesting numCount events s) : events.length ≤ numCount + 3 := by
  cases h with
  | entry hle => simpa using Nat.le_succ_of_le hle
  | _ => simp

theorem Nesting.ended_of_ending {ending : Ending} (h : Nesting numCount events s)
    (hending : s.ending = some ending) :
    ending = .exited 0 ∧ events.count .atOnce = numCount ∧ s.frames.length = numCount + 1
      ∧ s.env.count = 0 ∧ s.env.count2 = numCount := by
  cases h with
  | ended =>
      refine ⟨(Option.some.inj hending).symm, ?_, ?_, rfl, rfl⟩
      · simp
      · simp
  | _ => cases hending

/-- **What the test accepts.** Every run ends; it ends with `exit(0)` exactly if all `NUMCOUNT`
nested signals were delivered at once. -/
theorem accepts_iff_nested (hrun : Run (Step (program numCount 0)) start events s) :
    events.length ≤ numCount + 4
      ∧ (s.ending = none → ∃ event next, Step (program numCount 0) s event next)
      ∧ s.ending ≠ some (.returned (-2))
      ∧ (s.ending ≠ none →
          (s.ending = some (.exited 0) ↔ events.count .atOnce = numCount)
            ∧ (s.ending = some (.exited 0) ↔ .held ∉ events)
            ∧ (s.ending = some (.exited 0) → s.frames.length = numCount + 1
                ∧ s.env.count = 0 ∧ s.env.count2 = numCount)
            ∧ (s.ending ≠ some (.exited 0) →
                s.ending = some (.exited (-1)) ∧ .noDeferBug ∈ s.env.printed)) := by
  obtain hnesting | ⟨_, _, hlength, hdeferred⟩ | ⟨_, _, hlength, hlate⟩
    | ⟨hheld, hatOnce, hlength, hfailed⟩ := reached_of_run hrun
  · refine ⟨Nat.le_succ_of_le hnesting.length_le, exists_step, ?_, ?_⟩
    · intro hending
      obtain ⟨hreturned, -⟩ := hnesting.ended_of_ending hending
      simp at hreturned
    · intro hended
      obtain ⟨ending, hending⟩ := Option.ne_none_iff_exists'.mp hended
      obtain ⟨rfl, hcount, hresults⟩ := hnesting.ended_of_ending hending
      refine ⟨by simp [hending, hcount], by simp [hending, hnesting.held_not_mem], ?_, ?_⟩
      · intro _
        exact hresults
      · intro hother
        exact absurd hending hother
  · refine ⟨by omega, exists_step, by simp [hdeferred.ending], ?_⟩
    intro hended
    exact absurd hdeferred.ending hended
  · refine ⟨by omega, exists_step, by simp [hlate.ending], ?_⟩
    intro hended
    exact absurd hlate.ending hended
  · refine ⟨hlength, exists_step, by simp [hfailed.ending], ?_⟩
    intro _
    refine ⟨by simp [hfailed.ending, Nat.ne_of_lt hatOnce], by simp [hfailed.ending, hheld], ?_, ?_⟩
    · intro hending
      simp [hfailed.ending] at hending
    · intro _
      exact ⟨hfailed.ending, hfailed.reported⟩

/-- The second nested signal of two is held. -/
theorem accepts_iff_nested_second :
    ∃ s, Run (Step (program 2 0)) start [.run, .run, .atOnce, .held, .run, .run] s
      ∧ s.ending = some (.exited (-1)) ∧ .noDeferBug ∈ s.env.printed := by
  have hrun : Run (Step (program 2 0)) start [.run, .run, .atOnce, .held, .run, .run] _ :=
    .cons (.head _) (.cons (.head _) (.cons (.head _) (.cons (.tail _ (.head _))
      (.cons (.head _) (.single (.head _))))))
  obtain ⟨-, -, -, hends⟩ := accepts_iff_nested hrun
  obtain ⟨-, -, -, hreports⟩ := hends (by simp)
  exact ⟨_, hrun, hreports (by simp)⟩

end FexTestBins.SigtestNoDefer
