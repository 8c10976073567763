import FexTestBins.Proof.Nested2Handlers
import FexTestBins.Proof.NestedRuns

/-!
# `signals-nested-2.cpp` finishes

A handler takes a fixed number of steps and at most 1002 are entered. Each time round its loop the
thread waits for the main thread to make one step at least, so that its own steps are bounded too.
-/

namespace FexTestBins.SignalsNested2Main

open Words X86 Transition Interrupts Generator NestedTest

variable {code : Code} {env env' : Env} {pc pc' : Pc} {after : Option Pc}
  {init : Addr → Option Code} {s s' : State} {mainthread : Interrupts.State Env Pc}
  {event : Event} {events : List Event} {count : Nat}

/-! ### The steps of the handlers -/

/-- What a handler does in all if a call takes `count` instructions. -/
def handlerWork (count : Nat) : Nat := 100 * (count + 2) + 4

/-- What a handler still has to do. -/
def Pc.work (count : Nat) : Pc → Nat
  | .printf => handlerWork count
  | .count => handlerWork count - 1
  | .sigprocmask => handlerWork count - 2
  | .test pc => pc.work 100 count

def handlersLeft (count : Nat) (s : State) : Nat :=
  (s.mainthread.frames.map (Pc.work count)).sum

theorem fixedWork (htakes : Takes code count) :
    FixedWork (program code) (FrameOk code 100 Pc.inTest Env.maps) (Pc.work count)
      (handlerWork count) where
  enter := by
    rintro _ _ _ ⟨-, -, rfl⟩
    rfl
  act := by
    rintro env pc env' after hok ⟨-, hact⟩
    cases hact with
    | test htest =>
        rw [Option.elim_map]
        exact work_act htakes (hok _ rfl) htest
    | printf | count | sigprocmask =>
        simp [Pc.work, NestedTest.Pc.work, handlerWork]

/-- The steps made and those left make up what the signals have asked for. -/
theorem count_run (htakes : Takes code count) (hrun : Run (Step code) (start init) events s) :
    events.count .run + handlersLeft count s = handlerWork count * events.count .deliver := by
  have hboth : Inv code init events s
      ∧ events.count .run + handlersLeft count s = handlerWork count * events.count .deliver := by
    apply hrun.invariant_history fun past s => Inv code init past s
      ∧ past.count .run + handlersLeft count s = handlerWork count * past.count .deliver
    · rintro past s event s' ⟨hinv, heq⟩ hstep
      refine ⟨hinv.step hstep, ?_⟩
      rw [List.count_append, List.count_append, Nat.mul_add, ← heq]
      cases hstep with
      | kill | wake | check | report | exit => rfl
      | deliver _ _ hmain | run hmain =>
          have hsum := (fixedWork htakes).sum_step hinv.kept.separate hmain
          simp [handlersLeft] at hsum ⊢
          omega
    · exact ⟨inv_start code init, rfl⟩
  exact hboth.2

/-- A handler never faults, if there is room for a mapping for each. -/
theorem Inv.exists_run (hfetchable : Fetchable code) (h : Inv code init events s)
    (room : Finset Addr) (hcard : 1002 ≤ room.card) (hroom : ∀ addr ∈ room, init addr = none)
    (hlive : s.mainthread.env.exitCode = none) (hactive : s.mainthread.frames ≠ []) :
    ∃ s', Step code s .run s' := by
  have hkept := h.kept
  have hfew : s.mainthread.frames.length ≤ 1002 :=
    h.counts.active.trans ((Nat.le_add_right _ _).trans h.counts.few)
  obtain ⟨⟨env, frames⟩, pending, thread, moved⟩ := s
  cases frames with
  | nil => exact absurd rfl hactive
  | cons pc rest =>
      have hact : ∃ env' after, Act code env pc env' after := by
        cases pc with
        | printf => exact ⟨_, _, .printf⟩
        | count => exact ⟨_, _, .count⟩
        | sigprocmask => exact ⟨_, _, .sigprocmask⟩
        | test testPc =>
            obtain ⟨maps', after, htest⟩ := exists_act_of_kept hfetchable hkept rfl room hroom
              ((List.countP_le_length.trans hfew).trans hcard)
            exact ⟨_, _, .test htest⟩
      obtain ⟨env', after, hact⟩ := hact
      exact ⟨_, .run (.run ⟨hlive, hact⟩)⟩

/-! ### The steps of the thread -/

/-- What the main thread may still have to do, which is more the fewer signals it has had. -/
def mainLeft (count : Nat) (s : State) : Nat :=
  (1002 - (s.mainthread.env.sigcount + s.mainthread.frames.countP Pc.uncounted))
    * (handlerWork count + 1) + handlersLeft count s

/-- What the thread does before the main thread's next step, and in its last time round. -/
def threadLeft (s : State) : Nat :=
  match s.mainthread.env.exitCode, s.thread with
  | some _, _ => 0
  | none, .pthreadKill => 3
  | none, .usleep => if s.moved then 5 else 2
  | none, .check => 4
  | none, .printf => 2
  | none, .exit => 1

/-- How many steps there are at most to the end. A step of the main thread is worth four, since the
thread may then go round its loop. -/
def left (count : Nat) (s : State) : Nat := 4 * mainLeft count s + threadLeft s

theorem mainLeft_deliver (htakes : Takes code count) (h : Inv code init events s)
    (hstep : Step code s .deliver s') : mainLeft count s' + 1 = mainLeft count s := by
  have hnext := h.step hstep
  cases hstep with
  | @deliver _ next hpending hhead hmain =>
      have hsum := (fixedWork htakes).sum_step h.kept.separate hmain
      have hcounted := (mainStep_signal hmain).1.counted
      have hfew := hnext.counts.counted.le.trans ((Nat.le_add_right _ _).trans hnext.counts.few)
      obtain ⟨more, hmore⟩ := Nat.exists_eq_add_of_le hfew
      simp only at hmore
      have hless : 1002 - (next.env.sigcount + next.frames.countP Pc.uncounted) = more := by omega
      have hequal : 1002 - (s.mainthread.env.sigcount
          + s.mainthread.frames.countP Pc.uncounted) = more + 1 := by omega
      simp [mainLeft, handlersLeft, hless, hequal, Nat.succ_mul] at hsum ⊢
      omega

theorem mainLeft_run (htakes : Takes code count) (h : Inv code init events s)
    (hstep : Step code s .run s') : mainLeft count s' + 1 = mainLeft count s := by
  cases hstep with
  | run hmain =>
      have hsum := (fixedWork htakes).sum_step h.kept.separate hmain
      have hcounted := (mainStep_run hmain).1.counted
      simp [mainLeft, handlersLeft, hcounted] at hsum ⊢
      omega

theorem threadLeft_moved (hlive : s.mainthread.env.exitCode = none)
    (hlives : mainthread.env.exitCode = none) (pending : Bool) :
    threadLeft { s with mainthread := mainthread, pending := pending, moved := true }
      ≤ threadLeft s + 3 := by
  simp only [threadLeft, hlive, hlives, if_true]
  cases s.thread with
  | usleep =>
      simp only
      split <;> omega
  | pthreadKill | check | printf | exit => simp

/-- In a step the main thread or the thread has something less to do. -/
theorem left_step (htakes : Takes code count) (h : Inv code init events s)
    (hstep : Prompt code s event s') : left count s' < left count s := by
  obtain ⟨hstep, hprompt⟩ := hstep
  have hsame := hstep
  cases hstep with
  | kill hlive hthread =>
      simp [left, mainLeft, handlersLeft, threadLeft, hlive, hthread]
  | wake hlive hthread =>
      simp [left, mainLeft, handlersLeft, threadLeft, hlive, hthread, hprompt rfl]
  | check hlive hthread =>
      by_cases henough : 1000 ≤ s.mainthread.env.sigcount <;>
        simp [left, mainLeft, handlersLeft, threadLeft, hlive, hthread, henough]
  | report hlive | exit hlive =>
      simp [left, mainLeft, handlersLeft, threadLeft, hlive]
  | deliver hpending hhead hmain =>
      have hless := mainLeft_deliver htakes h hsame
      have hlive := (mainStep_signal hmain).1
      have hthread := threadLeft_moved hlive.live hlive.lives false
      simp only [left]
      omega
  | run hmain =>
      have hless := mainLeft_run htakes h hsame
      have hlive := (mainStep_run hmain).1
      have hthread := threadLeft_moved hlive.live hlive.lives s.pending
      simp only [left]
      omega

/-- A pending signal is delivered, or the handler that has it masked goes on. -/
theorem exists_main (hlive : s.mainthread.env.exitCode = none) (hpending : s.pending = true) :
    ∃ event s', Prompt code s event s' := by
  obtain ⟨⟨env, frames⟩, pending, thread, moved⟩ := s
  have hstuck : ∀ {env' pc rest after}, frames = pc :: rest → Act code env pc env' after →
      ∃ event s', Prompt code ⟨⟨env, frames⟩, pending, thread, moved⟩ event s' := by
    rintro env' pc rest after rfl hact
    exact ⟨.run, _, .run (.run ⟨hlive, hact⟩), by simp⟩
  by_cases hhead : ∀ pc ∈ frames.head?, pc.masked = false
  · exact ⟨.deliver, _, .deliver hpending hhead (.signal ⟨hlive, rfl, rfl⟩), by simp⟩
  · cases frames with
    | nil => simp at hhead
    | cons pc rest =>
        cases pc with
        | printf => exact hstuck rfl .printf
        | count => exact hstuck rfl .count
        | sigprocmask => exact hstuck rfl .sigprocmask
        | test testPc => simp [Pc.masked] at hhead

/-- The thread waits for nothing but a main thread that can make a step. -/
theorem Inv.exists_prompt (h : Inv code init events s)
    (hlive : s.mainthread.env.exitCode = none) : ∃ event s', Prompt code s event s' := by
  cases hthread : s.thread with
  | pthreadKill => exact ⟨.kill, _, .kill hlive hthread, by simp⟩
  | usleep =>
      cases hmoved : s.moved with
      | true => exact ⟨.wake, _, .wake hlive hthread, fun _ => hmoved⟩
      | false => exact exists_main hlive (h.counts.asleep hthread hmoved)
  | check => exact ⟨.check, _, .check hlive hthread, by simp⟩
  | printf =>
      obtain ⟨mainthread, pending, thread, moved⟩ := s
      obtain rfl : thread = .printf := hthread
      exact ⟨.report, _, .report hlive, by simp⟩
  | exit =>
      obtain ⟨mainthread, pending, thread, moved⟩ := s
      obtain rfl : thread = .exit := hthread
      exact ⟨.exit, _, .exit hlive, by simp⟩

theorem live_of_step (hstep : Step code s event s') : s.mainthread.env.exitCode = none := by
  cases hstep with
  | kill hlive | wake hlive | check hlive | report hlive | exit hlive => exact hlive
  | deliver _ _ hmain => exact (mainStep_signal hmain).1.live
  | run hmain => exact (mainStep_run hmain).1.live

theorem Inv.stuck_iff (h : Inv code init events s) :
    Stuck (Prompt code) s ↔ s.mainthread.env.exitCode = some 0 := by
  constructor
  · intro hstuck
    by_cases hlive : s.mainthread.env.exitCode = none
    · obtain ⟨event, s', hstep⟩ := h.exists_prompt hlive
      exact absurd hstep (hstuck event s')
    · exact (h.counts.ended hlive).1
  · intro hended event s' hstep
    rw [live_of_step hstep.1] at hended
    cases hended

/-- What `test` maps. -/
def code2 (codeSize : Nat) (file : Nat → Byte) : Code :=
  mappedCode codeSize (SignalsNested2.gencode codeSize file).code

end FexTestBins.SignalsNested2Main
