import FexTestBins.ContextDemo

/-!
# Nested timer signals in `context-demo`

A fiber that does not run is either as it was made or was saved inside `timer_interrupt`, and then
its `insig` is 1. This stays so unless a signal hits the scheduler, which runs with an empty signal
mask although `timer_interrupt` is still active for the fiber that `curcontext` names.
-/

namespace FexTestBins.ContextDemo

open Contexts Transition

variable {numContexts : Nat} {malloc : Nat → BitVec 64} {s next : State} {event : Event}
  {events : List Event} {pc : MainPc} {i : Nat}

/-- `timer_interrupt` is entered with `insig[curcontext] = 0` and `cur_context` at
`contexts[curcontext]`, and does not exit with -2. `contexts[i]` keeps executions of fiber `i`, and
is overwritten only after what it keeps has been resumed. -/
structure Undisturbed (s : State) : Prop where
  notNested : s.ending ≠ some (.exited (-2))
  entry : ∀ frame rest, s.machine.running.frames = frame :: rest → frame.handler.pc = .count →
    s.insig s.curcontext = 0 ∧ s.curContext = some s.curcontext
  owned : ∀ i context, s.machine.contexts (.fiber i) = some context →
    context.execution.base = .fiber i
  overwrites : ∀ frame rest i context, s.machine.running.frames = frame :: rest →
    frame.handler.pc = .swapcontext → s.curContext = some i →
    s.machine.contexts (.fiber i) = some context → context.resumed = true

/-- Where no signal must arrive: in `scheduler`, and in `setup_signals` between `signal` and
`sigprocmask`. -/
def Exposed (s : State) : Prop :=
  s.machine.running.base = .main .block ∨ ∃ pc, s.machine.running.base = .scheduler pc

structure CalmStep (numContexts : Nat) (malloc : Nat → BitVec 64) (s : State) (event : Event)
    (next : State) : Prop where
  step : Step numContexts malloc s event next
  calm : ∀ address, event = .alarm address → ¬ Exposed s

/-! ### The invariant -/

def owns : Name → Base → Prop
  | .fiber i, base => base = .fiber i
  | .signal, base => ∃ pc, base = .scheduler pc

/-- A fiber that does not run. -/
inductive Parked (s : State) (i : Nat) : Prop
  | fresh (hcontext : s.machine.contexts (.fiber i) = some ⟨⟨.fiber i, []⟩, false, false⟩)
      (hinsig : s.insig i = 0)
  | interrupted (address : BitVec 64) (hcontext : s.machine.contexts (.fiber i)
        = some ⟨⟨.fiber i, [⟨⟨.uncount, address⟩, false⟩]⟩, true, false⟩)
      (hinsig : s.insig i = 1)

/-- The fiber that `curcontext` names has been resumed. -/
structure Active (numContexts : Nat) (s : State) : Prop where
  lt : s.curcontext < numContexts
  curContext : s.curContext = some s.curcontext
  resumed : ∀ context, s.machine.contexts (.fiber s.curcontext) = some context →
    context.resumed = true
  parked : ∀ i < numContexts, i ≠ s.curcontext → Parked s i

def MainPc.made (numContexts : Nat) : MainPc → Nat
  | .signalStack => 0
  | .mkcontext i => i
  | _ => numContexts

def MainPc.installed : MainPc → Bool
  | .signalStack => false
  | .mkcontext _ => false
  | .signal => false
  | _ => true

def MainPc.masked : MainPc → Bool
  | .setCurContext => true
  | .setcontext => true
  | _ => false

structure Setup (numContexts : Nat) (pc : MainPc) (s : State) : Prop where
  ending : s.ending = none
  running : s.machine.running = ⟨.main pc, []⟩
  installed : s.installed = pc.installed
  masked : s.machine.masked = pc.masked
  curcontext : s.curcontext = 0
  curContext : s.curContext = if pc = .setcontext then some 0 else none
  insig : ∀ i, s.insig i = 0
  lt : ∀ i, pc = .mkcontext i → i < numContexts
  parked : ∀ i < pc.made numContexts, Parked s i

structure Calm (numContexts : Nat) (s : State) : Prop where
  ending : s.ending = none
  active : Active numContexts s
  running : s.machine.running = ⟨.fiber s.curcontext, []⟩
  installed : s.installed = true
  masked : s.machine.masked = false
  insig : s.insig s.curcontext = 0

/-- What `insig` counts at a place in `timer_interrupt`. -/
def HandlerPc.counted : HandlerPc → Int
  | .count => 0
  | .ret => 0
  | _ => 1

structure Interrupted (numContexts : Nat) (pc : HandlerPc) (address : BitVec 64) (s : State) :
    Prop where
  ending : s.ending = none
  active : Active numContexts s
  running : s.machine.running = ⟨.fiber s.curcontext, [⟨⟨pc, address⟩, false⟩]⟩
  installed : s.installed = true
  masked : s.machine.masked = true
  insig : s.insig s.curcontext = pc.counted
  signal : pc = .swapcontext →
    s.machine.contexts .signal = some ⟨⟨.scheduler .advance, []⟩, false, false⟩

structure Scheduling (numContexts : Nat) (pc : SchedulerPc) (s : State) : Prop where
  ending : s.ending = none
  running : s.machine.running = ⟨.scheduler pc, []⟩
  installed : s.installed = true
  masked : s.machine.masked = false
  lt : s.curcontext < numContexts
  curContext : pc = .setcontext → s.curContext = some s.curcontext
  suspended : pc ≠ .setcontext → ∃ last, s.curContext = some last ∧ s.insig last = 1
  parked : ∀ i < numContexts, Parked s i

structure Ended (s : State) : Prop where
  ending : s.ending ≠ none
  code : s.ending ≠ some (.exited (-2))
  frames : ∀ frame ∈ s.machine.running.frames, frame.handler.pc = .check

inductive Phase (numContexts : Nat) (s : State) : Prop
  | setup (pc : MainPc) (h : Setup numContexts pc s)
  | calm (h : Calm numContexts s)
  | interrupted {pc : HandlerPc} {address : BitVec 64} (h : Interrupted numContexts pc address s)
  | scheduling {pc : SchedulerPc} (h : Scheduling numContexts pc s)
  | ended (h : Ended s)

structure Inv (numContexts : Nat) (s : State) : Prop where
  owned : s.machine.Owned owns
  phase : Phase numContexts s

theorem Inv.undisturbed (h : Inv numContexts s) : Undisturbed s := by
  have howned : ∀ i context, s.machine.contexts (.fiber i) = some context →
      context.execution.base = .fiber i := by
    intro i context hcontext
    exact h.owned _ _ hcontext
  obtain ⟨_, hsetup⟩ | hcalm | hinterrupted | hscheduling | hended := h.phase
  · exact ⟨by simp [hsetup.ending], by simp [hsetup.running], howned, by simp [hsetup.running]⟩
  · exact ⟨by simp [hcalm.ending], by simp [hcalm.running], howned, by simp [hcalm.running]⟩
  · refine ⟨by simp [hinterrupted.ending], ?_, howned, ?_⟩
    · intro frame rest hframes hpc
      simp only [hinterrupted.running, List.cons.injEq] at hframes
      obtain ⟨rfl, -⟩ := hframes
      obtain rfl : _ = HandlerPc.count := hpc
      exact ⟨hinterrupted.insig, hinterrupted.active.curContext⟩
    · intro frame rest i context _ _ hcur hcontext
      obtain rfl : s.curcontext = i :=
        Option.some.inj (hinterrupted.active.curContext.symm.trans hcur)
      exact hinterrupted.active.resumed context hcontext
  · exact ⟨by simp [hscheduling.ending], by simp [hscheduling.running], howned,
      by simp [hscheduling.running]⟩
  · refine ⟨hended.code, ?_, howned, ?_⟩
    · intro frame rest hcons hpc
      have hcheck := hended.frames frame (by simp [hcons])
      simp [hpc] at hcheck
    · intro frame rest i context hcons hpc
      have hcheck := hended.frames frame (by simp [hcons])
      simp [hpc] at hcheck

theorem Parked.congr (h : Parked s i)
    (hcontext : next.machine.contexts (.fiber i) = s.machine.contexts (.fiber i))
    (hinsig : next.insig i = s.insig i) : Parked next i := by
  cases h with
  | fresh hcontext' hinsig' => exact .fresh (hcontext.trans hcontext') (hinsig.trans hinsig')
  | interrupted address hcontext' hinsig' =>
      exact .interrupted address (hcontext.trans hcontext') (hinsig.trans hinsig')

theorem Active.congr (h : Active numContexts s) (hcurcontext : next.curcontext = s.curcontext)
    (hcurContext : next.curContext = s.curContext)
    (hcontexts : ∀ i, next.machine.contexts (.fiber i) = s.machine.contexts (.fiber i))
    (hinsig : ∀ i, i ≠ s.curcontext → next.insig i = s.insig i) : Active numContexts next := by
  constructor
  · simpa [hcurcontext] using h.lt
  · rw [hcurContext, hcurcontext, h.curContext]
  · intro context hcontext
    rw [hcurcontext, hcontexts] at hcontext
    exact h.resumed context hcontext
  · intro i hlt hne
    rw [hcurcontext] at hne
    exact (h.parked i hlt hne).congr (hcontexts i) (hinsig i hne)

/-! ### The statements of `timer_interrupt` -/

section

variable {address : BitVec 64}

theorem Interrupted.handlerGoto {pc : HandlerPc} (h : Interrupted numContexts pc address s)
    (handler : Handler) : s.machine.handlerGoto handler
      = { s.machine with running := ⟨.fiber s.curcontext, [⟨handler, false⟩]⟩ } :=
  Machine.handlerGoto_of_running h.running handler

theorem Interrupted.run_count (h : Interrupted numContexts .count address s) :
    Interrupted numContexts .check address (run numContexts malloc s) := by
  have hzero : s.insig s.curcontext = 0 := h.insig
  have hrun : run numContexts malloc s = { s with
      insig := Function.update s.insig s.curcontext 1
      machine := { s.machine with
        running := ⟨.fiber s.curcontext, [⟨⟨.check, address⟩, false⟩]⟩ } } := by
    simp [run, h.running, timerInterrupt, hzero, State.handlerGoto, h.handlerGoto]
  rw [hrun]
  refine ⟨h.ending, ?_, rfl, h.installed, h.masked, Function.update_self .., by simp⟩
  exact h.active.congr rfl rfl (fun _ => rfl) fun i hne => Function.update_of_ne hne _ _

/-- The check of the stack may end the program. -/
theorem Interrupted.run_check (h : Interrupted numContexts .check address s) :
    Ended (run numContexts malloc s)
      ∨ Interrupted numContexts .makecontext address (run numContexts malloc s) := by
  by_cases hused : stackSize ≤ stackSize - (address - s.ssSp s.curcontext)
  · have hrun : run numContexts malloc s = s.endWith (.exited (-1)) := by
      simp [run, h.running, timerInterrupt, h.active.curContext, hused]
    rw [hrun]
    refine .inl ⟨by simp [State.endWith], by simp [State.endWith], ?_⟩
    simp [State.endWith, h.running]
  · have hrun : run numContexts malloc s = { s with
        machine := { s.machine with
          running := ⟨.fiber s.curcontext, [⟨⟨.makecontext, address⟩, false⟩]⟩ } } := by
      simp [run, h.running, timerInterrupt, h.active.curContext, hused, State.handlerGoto,
        h.handlerGoto]
    rw [hrun]
    refine .inr ⟨h.ending, ?_, rfl, h.installed, h.masked, h.insig, by simp⟩
    exact h.active.congr rfl rfl (fun _ => rfl) fun _ _ => rfl

theorem Interrupted.run_makecontext (h : Interrupted numContexts .makecontext address s) :
    Interrupted numContexts .swapcontext address (run numContexts malloc s) := by
  have hrun : run numContexts malloc s = { s with
      machine := {
        running := ⟨.fiber s.curcontext, [⟨⟨.swapcontext, address⟩, false⟩]⟩
        masked := s.machine.masked
        contexts := Function.update s.machine.contexts .signal
          (some ⟨⟨.scheduler .advance, []⟩, false, false⟩) } } := by
    simp [run, h.running, timerInterrupt, State.handlerGoto, Machine.handlerGoto,
      Machine.makecontext]
  rw [hrun]
  refine ⟨h.ending, ?_, rfl, h.installed, h.masked, h.insig, by simp⟩
  exact h.active.congr rfl rfl (by simp) fun _ _ => rfl

/-- The interrupted fiber is parked, and the scheduler runs without a mask. -/
theorem Interrupted.run_swapcontext (h : Interrupted numContexts .swapcontext address s) :
    Scheduling numContexts .advance (run numContexts malloc s) := by
  have hrun : run numContexts malloc s = { s with
      machine := {
        running := ⟨.scheduler .advance, []⟩
        masked := false
        contexts := Function.update (Function.update s.machine.contexts (.fiber s.curcontext)
            (some ⟨⟨.fiber s.curcontext, [⟨⟨.uncount, address⟩, false⟩]⟩, true, false⟩)) .signal
          (some ⟨⟨.scheduler .advance, []⟩, false, true⟩) } } := by
    simp [run, h.running, timerInterrupt, h.active.curContext, State.handlerGoto, h.handlerGoto,
      State.install, Machine.swapcontext, Machine.setcontext, Machine.save, h.signal, h.masked]
  rw [hrun]
  refine ⟨h.ending, rfl, h.installed, rfl, h.active.lt, by simp, ?_, ?_⟩
  · intro _
    exact ⟨s.curcontext, h.active.curContext, h.insig⟩
  · intro i hlt
    by_cases heq : i = s.curcontext
    · subst heq
      exact .interrupted address (by simp) h.insig
    · refine (h.active.parked i hlt heq).congr ?_ rfl
      simp [heq]

theorem Interrupted.run_uncount (h : Interrupted numContexts .uncount address s) :
    Interrupted numContexts .ret address (run numContexts malloc s) := by
  have hone : s.insig s.curcontext = 1 := h.insig
  have hrun : run numContexts malloc s = { s with
      insig := Function.update s.insig s.curcontext 0
      machine := { s.machine with
        running := ⟨.fiber s.curcontext, [⟨⟨.ret, address⟩, false⟩]⟩ } } := by
    simp [run, h.running, timerInterrupt, hone, State.handlerGoto, h.handlerGoto]
  rw [hrun]
  refine ⟨h.ending, ?_, rfl, h.installed, h.masked, Function.update_self .., by simp⟩
  exact h.active.congr rfl rfl (fun _ => rfl) fun i hne => Function.update_of_ne hne _ _

theorem Interrupted.run_ret (h : Interrupted numContexts .ret address s) :
    Calm numContexts (run numContexts malloc s) := by
  have hrun : run numContexts malloc s = { s with
      machine := { s.machine with running := ⟨.fiber s.curcontext, []⟩, masked := false } } := by
    simp [run, h.running, timerInterrupt, Machine.ret_of_running h.running]
  rw [hrun]
  refine ⟨h.ending, ?_, rfl, h.installed, rfl, h.insig⟩
  exact h.active.congr rfl rfl (fun _ => rfl) fun _ _ => rfl

theorem Interrupted.run_phase {pc : HandlerPc} (h : Interrupted numContexts pc address s) :
    Phase numContexts (run numContexts malloc s) := by
  cases pc with
  | count => exact .interrupted h.run_count
  | check =>
      obtain hended | hnext := h.run_check
      · exact .ended hended
      · exact .interrupted hnext
  | makecontext => exact .interrupted h.run_makecontext
  | swapcontext => exact .scheduling h.run_swapcontext
  | uncount => exact .interrupted h.run_uncount
  | ret => exact .calm h.run_ret

end

/-! ### The statements of `scheduler` -/

/-- The context of a fiber that does not run is installed: it goes on where it was interrupted, or
begins. -/
theorem phase_setcontext (hending : s.ending = none) (hinstalled : s.installed = true)
    (hlt : s.curcontext < numContexts) (hcurContext : s.curContext = some s.curcontext)
    (hparked : ∀ i < numContexts, Parked s i) :
    Phase numContexts (s.install (s.machine.setcontext (.fiber s.curcontext))) := by
  have hactive : ∀ context, s.machine.contexts (.fiber s.curcontext) = some context →
      Active numContexts
        { s with machine := { running := context.execution
                              masked := context.masked
                              contexts := Function.update s.machine.contexts (.fiber s.curcontext)
                                (some { context with resumed := true }) } } := by
    intro context _
    refine ⟨hlt, hcurContext, ?_, ?_⟩
    · intro kept hkept
      simp only [Function.update_self, Option.some.injEq] at hkept
      exact hkept ▸ rfl
    · intro i hlt' hne
      refine (hparked i hlt').congr ?_ rfl
      simp [hne]
  obtain ⟨hcontext, hinsig⟩ | ⟨address, hcontext, hinsig⟩ := hparked s.curcontext hlt
  · rw [Machine.setcontext_of_context hcontext]
    exact .calm ⟨hending, hactive _ hcontext, rfl, hinstalled, rfl, hinsig⟩
  · rw [Machine.setcontext_of_context hcontext]
    exact .interrupted ⟨hending, hactive _ hcontext, rfl, hinstalled, rfl, hinsig, nofun⟩

theorem Scheduling.run_advance (h : Scheduling numContexts .advance s) :
    Scheduling numContexts .setCurContext (run numContexts malloc s) := by
  have hrun : run numContexts malloc s = { s with
      curcontext := (s.curcontext + 1) % numContexts
      machine := { s.machine with running := ⟨.scheduler .setCurContext, []⟩ } } := by
    simp [run, h.running, scheduler, State.goto, Machine.goto]
  rw [hrun]
  have hpos : 0 < numContexts := Nat.zero_lt_of_lt h.lt
  refine ⟨h.ending, rfl, h.installed, h.masked, Nat.mod_lt _ hpos, nofun, ?_, ?_⟩
  · intro _
    exact h.suspended nofun
  · intro i hlt
    exact (h.parked i hlt).congr rfl rfl

theorem Scheduling.run_setCurContext (h : Scheduling numContexts .setCurContext s) :
    Scheduling numContexts .setcontext (run numContexts malloc s) := by
  have hrun : run numContexts malloc s = { s with
      curContext := some s.curcontext
      machine := { s.machine with running := ⟨.scheduler .setcontext, []⟩ } } := by
    simp [run, h.running, scheduler, State.goto, Machine.goto]
  rw [hrun]
  refine ⟨h.ending, rfl, h.installed, h.masked, h.lt, fun _ => rfl, nofun, ?_⟩
  intro i hlt
  exact (h.parked i hlt).congr rfl rfl

theorem Scheduling.run_phase {pc : SchedulerPc} (h : Scheduling numContexts pc s) :
    Phase numContexts (run numContexts malloc s) := by
  cases pc with
  | advance => exact .scheduling h.run_advance
  | setCurContext => exact .scheduling h.run_setCurContext
  | setcontext =>
      have hrun : run numContexts malloc s
          = s.install (s.machine.setcontext (.fiber s.curcontext)) := by
        simp [run, h.running, scheduler, h.curContext]
      rw [hrun]
      exact phase_setcontext h.ending h.installed h.lt (h.curContext rfl) h.parked

/-! ### The statements of `main` -/

theorem Setup.ended (h : Setup numContexts pc s) (code : Int) (hcode : code ≠ -2) :
    Phase numContexts (s.endWith (.exited code)) := by
  refine .ended ⟨by simp [State.endWith], by simpa [State.endWith] using hcode, ?_⟩
  simp [State.endWith, h.running]

/-- The context of fiber `i` is made, and `main` goes on with the next one or behind the loop. -/
theorem Setup.mkcontext (h : Setup numContexts (.mkcontext i) s) (stack : BitVec 64)
    (hinstalled : pc.installed = false) (hmasked : pc.masked = false)
    (hmade : pc.made numContexts = i + 1) (hlt : ∀ j, pc = .mkcontext j → j < numContexts) :
    Setup numContexts pc (State.goto { s with
      ssSp := Function.update s.ssSp i stack
      machine := s.machine.makecontext (.fiber i) (.fiber i) false } (.main pc)) := by
  refine ⟨h.ending, ?_, ?_, ?_, h.curcontext, ?_, h.insig, hlt, ?_⟩
  · simp [State.goto, Machine.goto, Machine.makecontext, h.running]
  · rw [hinstalled]
    exact h.installed
  · rw [hmasked]
    exact h.masked
  · have hne : pc ≠ .setcontext := by
      rintro rfl
      simp [MainPc.masked] at hmasked
    rw [if_neg hne]
    exact h.curContext
  · rw [hmade]
    intro j hj
    by_cases heq : j = i
    · subst heq
      exact .fresh (by simp [State.goto, Machine.goto, Machine.makecontext]) (h.insig j)
    · refine (h.parked j (by simp only [MainPc.made]; omega)).congr ?_ rfl
      simp [State.goto, Machine.goto, Machine.makecontext, heq]

theorem Setup.run_phase (hnum : 0 < numContexts) (h : Setup numContexts pc s) :
    Phase numContexts (run numContexts malloc s) := by
  have hrun : run numContexts malloc s = main numContexts malloc s pc := by
    simp [run, h.running]
  rw [hrun]
  cases pc with
  | signalStack =>
      by_cases hmalloc : malloc 0 = 0
      · simpa [main, hmalloc] using h.ended 1 (by decide)
      · simp only [main, hmalloc, if_false]
        refine .setup (.mkcontext 0) ⟨h.ending, ?_, h.installed, h.masked, h.curcontext,
          h.curContext, h.insig, ?_, ?_⟩
        · simp [State.goto, Machine.goto, h.running]
        · rintro i ⟨rfl⟩
          exact hnum
        · simp [MainPc.made]
  | mkcontext i =>
      by_cases hmalloc : malloc (i + 1) = 0
      · simpa [main, ContextDemo.mkcontext, hmalloc] using h.ended 1 (by decide)
      · have hlt := h.lt i rfl
        simp only [main, ContextDemo.mkcontext, hmalloc, if_false]
        by_cases hmore : i + 1 < numContexts
        · simp only [hmore, if_true]
          refine .setup _ (h.mkcontext _ rfl rfl rfl ?_)
          rintro j ⟨rfl⟩
          exact hmore
        · simp only [hmore, if_false]
          refine .setup _ (h.mkcontext _ rfl rfl ?_ nofun)
          simp only [MainPc.made]
          omega
  | signal =>
      refine .setup .block ⟨h.ending, ?_, rfl, h.masked, h.curcontext, h.curContext, h.insig, nofun,
        ?_⟩
      · simp [main, State.goto, Machine.goto, h.running]
      · intro i hlt
        exact (h.parked i hlt).congr rfl rfl
  | block =>
      refine .setup .setCurContext ⟨h.ending, ?_, h.installed, rfl, h.curcontext, h.curContext,
        h.insig, nofun, ?_⟩
      · simp [main, State.goto, Machine.goto, h.running]
      · intro i hlt
        exact (h.parked i hlt).congr rfl rfl
  | setCurContext =>
      refine .setup .setcontext ⟨h.ending, ?_, h.installed, h.masked, h.curcontext, rfl,
        h.insig, nofun, ?_⟩
      · simp [main, State.goto, Machine.goto, h.running]
      · intro i hlt
        exact (h.parked i hlt).congr rfl rfl
  | setcontext =>
      have hcurContext : s.curContext = some s.curcontext := by
        rw [h.curcontext]
        exact h.curContext
      have hlt : s.curcontext < numContexts := by
        rw [h.curcontext]
        exact hnum
      have hphase := phase_setcontext h.ending h.installed hlt hcurContext h.parked
      rwa [h.curcontext] at hphase

/-! ### Whose executions are saved -/

theorem owned_install {machine? : Option (Machine Name Base Handler)}
    (h : s.machine.Owned owns)
    (hinstall : ∀ machine, machine? = some machine → machine.Owned owns) :
    (s.install machine?).machine.Owned owns := by
  cases machine? with
  | none => exact h
  | some machine => exact hinstall machine rfl

theorem owned_handlerGoto (h : s.machine.Owned owns) (pc : HandlerPc) (address : BitVec 64) :
    (s.handlerGoto pc address).machine.Owned owns :=
  h.handlerGoto ⟨pc, address⟩

theorem owned_timerInterrupt (h : s.machine.Owned owns) (address : BitVec 64) (pc : HandlerPc)
    (hswap : ∀ i, pc = .swapcontext → s.curContext = some i → s.machine.running.base = .fiber i) :
    (timerInterrupt s address pc).machine.Owned owns := by
  cases pc with
  | count =>
      simp only [timerInterrupt]
      split
      · exact h
      · exact owned_handlerGoto h _ _
  | check =>
      simp only [timerInterrupt]
      split
      · exact h
      · split
        · exact h
        · exact owned_handlerGoto h _ _
  | makecontext =>
      have hbase : owns .signal (.scheduler .advance) := ⟨_, rfl⟩
      exact (h.makecontext hbase false).handlerGoto _
  | swapcontext =>
      simp only [timerInterrupt]
      split
      · exact h
      · rename_i i hcur
        refine owned_install (owned_handlerGoto h _ _) ?_
        intro machine hswapped
        have hbase : owns (.fiber i) (s.handlerGoto .uncount address).machine.running.base := by
          rw [State.handlerGoto, Machine.handlerGoto_base]
          exact hswap i rfl hcur
        exact (owned_handlerGoto h _ _).swapcontext hbase hswapped
  | uncount => exact owned_handlerGoto h _ _
  | ret => exact h.ret

theorem owned_run (h : s.machine.Owned owns)
    (hswap : ∀ frame rest i, s.machine.running.frames = frame :: rest →
      frame.handler.pc = .swapcontext → s.curContext = some i → s.machine.running.base = .fiber i) :
    (run numContexts malloc s).machine.Owned owns := by
  unfold run
  split
  · rename_i frame rest hframes
    exact owned_timerInterrupt h _ _ fun i => hswap frame rest i hframes
  · split
    · rename_i pc _
      cases pc with
      | signalStack =>
          simp only [main]
          split <;> exact h
      | mkcontext i =>
          have hbase : owns (.fiber i) (.fiber i) := rfl
          by_cases hmalloc : malloc (i + 1) = 0
          · simp only [main, mkcontext, hmalloc, if_true]
            exact h
          · simp only [main, mkcontext, hmalloc, if_false]
            exact h.makecontext hbase false
      | signal => exact h
      | block => exact h
      | setCurContext => exact h
      | setcontext => exact owned_install h fun _ => h.setcontext
    · exact h
    · rename_i pc _
      cases pc with
      | advance => exact h
      | setCurContext => exact h
      | setcontext =>
          simp only [scheduler]
          split
          · exact h
          · exact owned_install h fun _ => h.setcontext

/-! ### Deliveries -/

theorem Setup.deliver_phase (h : Setup numContexts pc s) (hmasked : s.machine.masked = false)
    (hcalm : ¬ Exposed s) (address : BitVec 64) : Phase numContexts (deliver s address) := by
  have hinstalled : s.installed = false := by
    rw [h.installed]
    rw [h.masked] at hmasked
    cases pc with
    | block =>
        have hexposed : Exposed s := .inl (by rw [h.running])
        exact absurd hexposed hcalm
    | setCurContext => simp [MainPc.masked] at hmasked
    | setcontext => simp [MainPc.masked] at hmasked
    | _ => rfl
  rw [deliver, if_neg (by simp [hinstalled])]
  refine .ended ⟨by simp [State.endWith], by simp [State.endWith], ?_⟩
  simp [State.endWith, h.running]

theorem Calm.deliver (h : Calm numContexts s) (address : BitVec 64) :
    Interrupted numContexts .count address (deliver s address) := by
  rw [ContextDemo.deliver, if_pos h.installed]
  refine ⟨h.ending, ?_, ?_, h.installed, rfl, h.insig, nofun⟩
  · exact h.active.congr rfl rfl (fun _ => rfl) fun _ _ => rfl
  · simp only [Machine.interrupt, h.running, h.masked]

theorem Phase.run (hnum : 0 < numContexts) (h : Phase numContexts s) (hending : s.ending = none) :
    Phase numContexts (run numContexts malloc s) := by
  cases h with
  | setup pc hsetup => exact hsetup.run_phase hnum
  | calm hcalm =>
      have hrun : ContextDemo.run numContexts malloc s = s := by
        simp [ContextDemo.run, hcalm.running]
      rw [hrun]
      exact .calm hcalm
  | interrupted hinterrupted => exact hinterrupted.run_phase
  | scheduling hscheduling => exact hscheduling.run_phase
  | ended hended => exact absurd hending hended.ending

theorem Phase.deliver (h : Phase numContexts s) (hending : s.ending = none)
    (hmasked : s.machine.masked = false) (hcalm : ¬ Exposed s) (address : BitVec 64) :
    Phase numContexts (deliver s address) := by
  cases h with
  | setup pc hsetup => exact hsetup.deliver_phase hmasked hcalm address
  | calm hcalm => exact .interrupted (hcalm.deliver address)
  | interrupted hinterrupted => simp [hinterrupted.masked] at hmasked
  | scheduling hscheduling =>
      have hexposed : Exposed s := .inr ⟨_, by rw [hscheduling.running]⟩
      exact absurd hexposed hcalm
  | ended hended => exact absurd hending hended.ending

/-- `timer_interrupt` saves into the context of the fiber that it has interrupted. -/
theorem Phase.swap_base (h : Phase numContexts s) (hending : s.ending = none)
    {frame : Frame Handler} {rest : List (Frame Handler)}
    (hframes : s.machine.running.frames = frame :: rest) (hcurContext : s.curContext = some i) :
    s.machine.running.base = .fiber i := by
  cases h with
  | interrupted hinterrupted =>
      obtain rfl : s.curcontext = i :=
        Option.some.inj (hinterrupted.active.curContext.symm.trans hcurContext)
      rw [hinterrupted.running]
  | setup pc hsetup => simp [hsetup.running] at hframes
  | calm hcalm => simp [hcalm.running] at hframes
  | scheduling hscheduling => simp [hscheduling.running] at hframes
  | ended hended => exact absurd hending hended.ending

theorem Inv.step (hnum : 0 < numContexts) (h : Inv numContexts s)
    (hstep : CalmStep numContexts malloc s event next) : Inv numContexts next := by
  obtain ⟨hstep, hcalm⟩ := hstep
  cases hstep with
  | run hending =>
      refine ⟨owned_run h.owned ?_, h.phase.run hnum hending⟩
      intro frame rest i hframes _ hcurContext
      exact h.phase.swap_base hending hframes hcurContext
  | alarm address hending hmasked =>
      refine ⟨?_, h.phase.deliver hending hmasked (hcalm address rfl) address⟩
      unfold deliver
      split <;> exact h.owned

theorem inv_start : Inv numContexts start := by
  refine ⟨nofun, .setup .signalStack ⟨rfl, rfl, rfl, rfl, rfl, rfl, fun _ => rfl, nofun, ?_⟩⟩
  simp [MainPc.made]

/-- A signal between the two calls of `setup_signals`, or ahead of the second assignment of
`scheduler`, finds the variables apart. -/
theorem Inv.disturbed (h : Inv numContexts s) {address : BitVec 64}
    (hstep : Step numContexts malloc s (.alarm address) next) (hexposed : Exposed s)
    (hinsig : s.machine.running.base = .scheduler .setcontext → s.insig s.curcontext ≠ 0) :
    ¬ Undisturbed next := by
  intro hnext
  obtain ⟨hending, rfl⟩ : s.ending = none ∧ next = deliver s address := by
    cases hstep with
    | alarm _ hending => exact ⟨hending, rfl⟩
  have hentry : s.installed = true →
      s.insig s.curcontext = 0 ∧ s.curContext = some s.curcontext := by
    intro hinstalled
    rw [deliver, if_pos hinstalled] at hnext
    exact hnext.entry _ _ rfl rfl
  cases h.phase with
  | setup pc hsetup =>
      simp only [Exposed, hsetup.running, Base.main.injEq, reduceCtorEq, exists_false, or_false]
        at hexposed
      subst hexposed
      have hcurContext := hsetup.curContext
      simp [(hentry hsetup.installed).2] at hcurContext
  | scheduling hscheduling =>
      obtain ⟨hzero, hcurContext⟩ := hentry hscheduling.installed
      rename_i pc
      by_cases hpc : pc = .setcontext
      · subst hpc
        exact hinsig (by rw [hscheduling.running]) hzero
      · obtain ⟨last, hlast, hone⟩ := hscheduling.suspended hpc
        obtain rfl : s.curcontext = last := Option.some.inj (hcurContext.symm.trans hlast)
        simp [hzero] at hone
  | calm hcalm => simp [Exposed, hcalm.running] at hexposed
  | interrupted hinterrupted => simp [Exposed, hinterrupted.running] at hexposed
  | ended hended => exact hended.ending hending

/-- **No nested timer signal.** As long as no signal hits `scheduler`, or `setup_signals` while the
signal is not yet blocked, the fibers are never disturbed. Apart from a fiber that has not begun yet
when its context is about to be installed, such a signal disturbs them at once. -/
theorem undisturbed_of_calm (hnum : 0 < numContexts)
    (hrun : Run (CalmStep numContexts malloc) start events s) :
    Undisturbed s ∧ ∀ address next, Step numContexts malloc s (.alarm address) next → Exposed s →
      (s.machine.running.base = .scheduler .setcontext → s.insig s.curcontext ≠ 0) →
        ¬ Undisturbed next := by
  have hinv : Inv numContexts s := by
    apply hrun.invariant (Inv numContexts) _ inv_start
    intro s event next h hstep
    exact h.step hnum hstep
  exact ⟨hinv.undisturbed, fun _ _ => hinv.disturbed⟩

/-! ### Two runs -/

theorem run_calm {count : Nat}
    (hending : ∀ k < count, ((run numContexts malloc)^[k] s).ending = none) :
    Run (CalmStep numContexts malloc) s (List.replicate count .run)
      ((run numContexts malloc)^[count] s) := by
  induction count with
  | zero => exact .refl s
  | succ count ih =>
      rw [List.replicate_succ', Function.iterate_succ_apply']
      have hlast := hending count (Nat.lt_succ_self count)
      exact (ih fun k hk => hending k (Nat.lt_succ_of_lt hk)).snoc ⟨.run hlast, nofun⟩

theorem run_alarm (address : BitVec 64) (hending : s.ending = none)
    (hmasked : s.machine.masked = false) (hbase : s.machine.running.base = .fiber i) :
    Run (CalmStep numContexts malloc) s [.alarm address] (deliver s address) := by
  refine .single ⟨.alarm address hending hmasked, ?_⟩
  simp [Exposed, hbase]

/-- Every `malloc` returns a page of its own. -/
def pages (k : Nat) : BitVec 64 := BitVec.ofNat 64 (4096 * (k + 1))

/-- The second fiber of two, after a signal for the first one. -/
theorem undisturbed_of_calm_second : ∃ events s, Run (CalmStep 2 pages) start events s
    ∧ s.machine.running.base = .fiber 1 ∧ Undisturbed s := by
  have hfirst : Run (CalmStep 2 pages) start _ ((run 2 pages)^[7] start) := run_calm (by decide)
  have halarm := hfirst.trans (run_alarm 0x2FF0 rfl rfl rfl)
  have hrun := halarm.trans (run_calm (show ∀ k < 7, _ by decide))
  exact ⟨_, _, hrun, rfl, (undisturbed_of_calm (by decide) hrun).1⟩

/-- A signal for the first of ten fibers, and one for `scheduler`. -/
theorem not_undisturbed_scheduler :
    ¬ ∀ events s, Run (Step 10 pages) start events s → Undisturbed s := by
  intro hall
  have hfirst : Run (CalmStep 10 pages) start _ ((run 10 pages)^[15] start) := run_calm (by decide)
  have halarm := hfirst.trans (run_alarm 0x2FF0 rfl rfl rfl)
  have hscheduler := halarm.trans (run_calm (show ∀ k < 4, _ by decide))
  have hrun := (hscheduler.mono fun _ _ _ h => h.step).snoc (.alarm 0x1FF0 rfl rfl)
  have hexit := (hall _ _ (hrun.snoc (.run rfl))).notNested
  exact hexit rfl

end FexTestBins.ContextDemo
