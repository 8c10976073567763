import FexTestBins.Proof.Fibers
import Mathlib.Data.Nat.ModEq

/-!
# The turns of the fibers in `context-demo`

As long as no signal hits `scheduler` or `setup_signals`, the fibers are interrupted in turn: the
signal with number `m`, counted from zero, interrupts fiber `m % numContexts`, and the invocation of
`timer_interrupt` that this signal has started returns when this fiber has its next turn.
-/

namespace FexTestBins.ContextDemo

open Contexts Transition

variable {numContexts : Nat} {malloc : Nat → BitVec 64} {s next : State} {event : Event}
  {events : List Event} {i swaps : Nat} {address : BitVec 64} {addresses : List (BitVec 64)}

/-- The addresses of `j` in the invocations of `timer_interrupt`. -/
def alarms (events : List Event) : List (BitVec 64) :=
  events.filterMap fun
    | .run => none
    | .alarm address => some address

theorem alarms_snoc_run (events : List Event) : alarms (events ++ [.run]) = alarms events := by
  simp [alarms]

theorem alarms_snoc_alarm (events : List Event) (address : BitVec 64) :
    alarms (events ++ [.alarm address]) = alarms events ++ [address] := by
  simp [alarms]

/-- An invocation that has not swapped contexts yet. -/
def HandlerPc.early : HandlerPc → Bool
  | .uncount => false
  | .ret => false
  | _ => true

/-- What `contexts[i]` keeps. -/
def State.saved (s : State) (i : Nat) : Option (Execution Base Handler) :=
  (s.machine.contexts (.fiber i)).map Context.execution

/-- Fiber `i` in `timer_interrupt`, behind the call of `swapcontext`. -/
def suspended (i : Nat) (address : BitVec 64) : Execution Base Handler :=
  ⟨.fiber i, [⟨⟨.uncount, address⟩, false⟩]⟩

/-- After a number of swaps, the contexts keep what the last `numContexts` of them have saved, and
those of fibers that had no turn yet are as they were made. -/
structure Saved (numContexts : Nat) (addresses : List (BitVec 64)) (swaps : Nat) (s : State) :
    Prop where
  fresh : ∀ i < numContexts, swaps ≤ i → s.saved i = some ⟨.fiber i, []⟩
  kept : ∀ m address, m < swaps → swaps ≤ m + numContexts → addresses[m]? = some address →
    s.saved (m % numContexts) = some (suspended (m % numContexts) address)

/-- The state of the program after a number of swaps. One more signal may have arrived. -/
structure Rotation (numContexts : Nat) (malloc : Nat → BitVec 64) (addresses : List (BitVec 64))
    (swaps : Nat) (s : State) : Prop where
  length : addresses.length
    = swaps + s.machine.running.frames.countP fun frame => frame.handler.pc.early
  begun : ∀ pc, s.machine.running.base ≠ .main pc
  turn : s.machine.running.base ≠ .scheduler .advance → s.curcontext = swaps % numContexts
  advance : s.machine.running.base = .scheduler .advance →
    ∃ last, swaps = last + 1 ∧ s.curcontext = last % numContexts
  early : ∀ frame ∈ s.machine.running.frames, frame.handler.pc.early = true →
    addresses[swaps]? = some frame.handler.address
  late : ∀ frame ∈ s.machine.running.frames, frame.handler.pc.early = false →
    numContexts ≤ swaps ∧ addresses[swaps - numContexts]? = some frame.handler.address
  saved : Saved numContexts addresses swaps s
  ssSp : ∀ i < numContexts, s.ssSp i = malloc (i + 1)

inductive Turn (numContexts : Nat) (malloc : Nat → BitVec 64) (addresses : List (BitVec 64))
    (s : State) : Prop
  | setup (pc : MainPc) (hbase : s.machine.running.base = .main pc) (hnone : addresses = [])
      (hssSp : ∀ i < pc.made numContexts, s.ssSp i = malloc (i + 1))
  | turning (swaps : Nat) (h : Rotation numContexts malloc addresses swaps s)
  | ended (hending : s.ending ≠ none)

/-! ### What the statements leave alone -/

theorem saved_install_setcontext (s : State) (name : Name) (i : Nat) :
    (s.install (s.machine.setcontext name)).saved i = s.saved i := by
  cases hcontext : s.machine.contexts name with
  | none => simp [Machine.setcontext, hcontext, State.install, State.endWith, State.saved]
  | some context =>
      rw [Machine.setcontext_of_context hcontext]
      by_cases heq : Name.fiber i = name
      · subst heq
        simp [State.install, State.saved, hcontext]
      · simp [State.install, State.saved, heq]

theorem saved_install_swapcontext {context : Context Base Handler}
    (hsignal : s.machine.contexts .signal = some context) (i j : Nat) :
    (s.install (s.machine.swapcontext (.fiber j) .signal)).saved i
      = if i = j then some s.machine.running else s.saved i := by
  have hcontext : (s.machine.save (.fiber j)).contexts .signal = some context := by
    simpa [Machine.save] using hsignal
  rw [Machine.swapcontext, Machine.setcontext_of_context hcontext]
  by_cases heq : i = j
  · simp [heq, State.install, State.saved, Machine.save]
  · simp [heq, State.install, State.saved, Machine.save]

theorem timerInterrupt_saved {pc : HandlerPc} (hpc : pc ≠ .swapcontext) (i : Nat) :
    (timerInterrupt s address pc).saved i = s.saved i := by
  cases pc with
  | count =>
      simp only [timerInterrupt]
      split <;> simp [State.saved, State.endWith, State.handlerGoto]
  | check =>
      simp only [timerInterrupt]
      split
      · rfl
      · split <;> simp [State.saved, State.endWith, State.handlerGoto]
  | makecontext => simp [timerInterrupt, State.saved, State.handlerGoto, Machine.makecontext]
  | swapcontext => exact absurd rfl hpc
  | uncount => simp [timerInterrupt, State.saved, State.handlerGoto]
  | ret => simp [timerInterrupt, State.saved]

theorem install_curcontext (s : State) (machine? : Option (Machine Name Base Handler)) :
    (s.install machine?).curcontext = s.curcontext := by
  cases machine? <;> rfl

theorem install_ssSp (s : State) (machine? : Option (Machine Name Base Handler)) :
    (s.install machine?).ssSp = s.ssSp := by
  cases machine? <;> rfl

theorem timerInterrupt_curcontext (s : State) (address : BitVec 64) (pc : HandlerPc) :
    (timerInterrupt s address pc).curcontext = s.curcontext := by
  cases pc with
  | count | check | swapcontext =>
      simp only [timerInterrupt]
      repeat' split
      all_goals simp [State.endWith, State.handlerGoto, install_curcontext]
  | makecontext | uncount | ret => rfl

theorem timerInterrupt_ssSp (s : State) (address : BitVec 64) (pc : HandlerPc) :
    (timerInterrupt s address pc).ssSp = s.ssSp := by
  cases pc with
  | count | check | swapcontext =>
      simp only [timerInterrupt]
      repeat' split
      all_goals simp [State.endWith, State.handlerGoto, install_ssSp]
  | makecontext | uncount | ret => rfl

/-! ### What the contexts keep -/

theorem Saved.congr (h : Saved numContexts addresses swaps s)
    (hsaved : ∀ i, next.saved i = s.saved i) :
    Saved numContexts addresses swaps next where
  fresh := by
    intro i hlt hle
    rw [hsaved]
    exact h.fresh i hlt hle
  kept := by
    intro m address hlt hle hget
    rw [hsaved]
    exact h.kept m address hlt hle hget

theorem Saved.append (h : Saved numContexts addresses swaps s) (hle : swaps ≤ addresses.length)
    (address : BitVec 64) : Saved numContexts (addresses ++ [address]) swaps s where
  fresh := h.fresh
  kept := by
    intro m last hlt hlast hget
    rw [List.getElem?_append_left (Nat.lt_of_lt_of_le hlt hle)] at hget
    exact h.kept m last hlt hlast hget

/-- The swap is into the context whose save is the oldest, or that has none. -/
theorem Saved.swap (h : Saved numContexts addresses swaps s)
    (haddress : addresses[swaps]? = some address)
    (hself : next.saved (swaps % numContexts)
      = some (suspended (swaps % numContexts) address))
    (hother : ∀ i, i ≠ swaps % numContexts → next.saved i = s.saved i) :
    Saved numContexts addresses (swaps + 1) next where
  fresh := by
    intro i hlt hle
    have hmod : swaps % numContexts = swaps := Nat.mod_eq_of_lt (by omega)
    rw [hother i (by omega)]
    exact h.fresh i hlt (by omega)
  kept := by
    intro m last hlt hle hget
    rcases Nat.lt_succ_iff_lt_or_eq.mp hlt with hlt | rfl
    · have hne : m % numContexts ≠ swaps % numContexts := by
        intro heq
        have hdvd : numContexts ∣ swaps - m := (Nat.modEq_iff_dvd' hlt.le).mp heq
        have hfar := Nat.le_of_dvd (by omega) hdvd
        omega
      rw [hother _ hne]
      exact h.kept m last hlt (by omega) hget
    · obtain rfl := Option.some.inj (haddress.symm.trans hget)
      exact hself

/-! ### The statements of `timer_interrupt` -/

theorem Interrupted.run_eq {pc : HandlerPc} (h : Interrupted numContexts pc address s) :
    run numContexts malloc s = timerInterrupt s address pc := by
  simp [run, h.running]

theorem Rotation.within {pc pc' : HandlerPc}
    (h : Rotation numContexts malloc addresses swaps s) (hs : Interrupted numContexts pc address s)
    (hnext : Interrupted numContexts pc' address (run numContexts malloc s))
    (hearly : pc'.early = pc.early) (hpc : pc ≠ .swapcontext) :
    Rotation numContexts malloc addresses swaps (run numContexts malloc s) := by
  have hrun : run numContexts malloc s = timerInterrupt s address pc := hs.run_eq
  have hbase : s.machine.running.base ≠ .scheduler .advance := by simp [hs.running]
  constructor
  · simpa [hs.running, hnext.running, hearly] using h.length
  · simp [hnext.running]
  · intro _
    rw [hrun, timerInterrupt_curcontext, h.turn hbase]
  · simp [hnext.running]
  · simpa [hs.running, hnext.running, hearly] using h.early
  · simpa [hs.running, hnext.running, hearly] using h.late
  · rw [hrun]
    exact h.saved.congr fun i => timerInterrupt_saved hpc i
  · intro i hlt
    rw [hrun, timerInterrupt_ssSp, h.ssSp i hlt]

theorem Rotation.swapcontext (h : Rotation numContexts malloc addresses swaps s)
    (hs : Interrupted numContexts .swapcontext address s) :
    Rotation numContexts malloc addresses (swaps + 1) (run numContexts malloc s) := by
  have hrun : run numContexts malloc s = timerInterrupt s address .swapcontext := hs.run_eq
  have hnext : Scheduling numContexts .advance (run numContexts malloc s) := hs.run_swapcontext
  have hturn : s.curcontext = swaps % numContexts := h.turn (by simp [hs.running])
  have hlength : addresses.length = swaps + 1 := by
    simpa [hs.running, HandlerPc.early] using h.length
  have haddress : addresses[swaps]? = some address := by
    simpa [hs.running, HandlerPc.early] using h.early
  have hsaved : ∀ i, (run numContexts malloc s).saved i
      = if i = s.curcontext then some (suspended i address) else s.saved i := by
    intro i
    have hsignal : (s.handlerGoto .uncount address).machine.contexts .signal = _ :=
      (congrFun (Machine.handlerGoto_contexts _ _) _).trans (hs.signal rfl)
    simp only [hrun, timerInterrupt, hs.active.curContext, saved_install_swapcontext hsignal]
    by_cases heq : i = s.curcontext
    · simp [heq, suspended, State.handlerGoto, hs.handlerGoto]
    · simp [heq, State.saved, State.handlerGoto]
  constructor
  · simpa [hnext.running] using hlength
  · simp [hnext.running]
  · simp [hnext.running]
  · intro _
    refine ⟨swaps, rfl, ?_⟩
    rw [hrun, timerInterrupt_curcontext, hturn]
  · simp [hnext.running]
  · simp [hnext.running]
  · rw [hturn] at hsaved
    refine h.saved.swap haddress (by rw [hsaved, if_pos rfl]) ?_
    intro i hne
    rw [hsaved, if_neg hne]
  · intro i hlt
    rw [hrun, timerInterrupt_ssSp, h.ssSp i hlt]

theorem Rotation.ret (h : Rotation numContexts malloc addresses swaps s)
    (hs : Interrupted numContexts .ret address s) :
    Rotation numContexts malloc addresses swaps (run numContexts malloc s) := by
  have hrun : run numContexts malloc s = timerInterrupt s address .ret := hs.run_eq
  have hnext : Calm numContexts (run numContexts malloc s) := hs.run_ret
  have hbase : s.machine.running.base ≠ .scheduler .advance := by simp [hs.running]
  constructor
  · simpa [hs.running, hnext.running, HandlerPc.early] using h.length
  · simp [hnext.running]
  · intro _
    rw [hrun, timerInterrupt_curcontext, h.turn hbase]
  · simp [hnext.running]
  · simp [hnext.running]
  · simp [hnext.running]
  · rw [hrun]
    exact h.saved.congr fun i => timerInterrupt_saved (by decide) i
  · intro i hlt
    rw [hrun, timerInterrupt_ssSp, h.ssSp i hlt]

theorem Rotation.interrupted {pc : HandlerPc}
    (h : Rotation numContexts malloc addresses swaps s)
    (hs : Interrupted numContexts pc address s) :
    Turn numContexts malloc addresses (run numContexts malloc s) := by
  cases pc with
  | count => exact .turning swaps (h.within hs hs.run_count rfl nofun)
  | check =>
      obtain hended | hnext := hs.run_check
      · exact .ended hended.ending
      · exact .turning swaps (h.within hs hnext rfl nofun)
  | makecontext => exact .turning swaps (h.within hs hs.run_makecontext rfl nofun)
  | swapcontext => exact .turning (swaps + 1) (h.swapcontext hs)
  | uncount => exact .turning swaps (h.within hs hs.run_uncount rfl nofun)
  | ret => exact .turning swaps (h.ret hs)

/-! ### The statements of `scheduler` -/

theorem Scheduling.run_eq {pc : SchedulerPc} (h : Scheduling numContexts pc s) :
    run numContexts malloc s = scheduler numContexts s pc := by
  simp [run, h.running]

/-- Whose turn is next was never interrupted, or was so `numContexts` signals ago. -/
theorem Saved.next_turn (hpos : 0 < numContexts) (h : Saved numContexts addresses swaps s)
    (hlength : addresses.length = swaps) :
    s.saved (swaps % numContexts) = some ⟨.fiber (swaps % numContexts), []⟩
      ∨ ∃ address, numContexts ≤ swaps ∧ addresses[swaps - numContexts]? = some address
        ∧ s.saved (swaps % numContexts) = some (suspended (swaps % numContexts) address) := by
  rcases Nat.lt_or_ge swaps numContexts with hlt | hle
  · left
    rw [Nat.mod_eq_of_lt hlt]
    exact h.fresh swaps hlt le_rfl
  · right
    have hmod : (swaps - numContexts) % numContexts = swaps % numContexts :=
      (Nat.mod_eq_sub_mod hle).symm
    have hget := List.getElem?_eq_getElem (show swaps - numContexts < addresses.length by omega)
    refine ⟨_, hle, hget, ?_⟩
    rw [← hmod]
    exact h.kept _ _ (by omega) (by omega) hget

theorem running_install {execution : Execution Base Handler}
    (hsaved : s.saved i = some execution) :
    (s.install (s.machine.setcontext (.fiber i))).machine.running = execution := by
  obtain ⟨context, hcontext, rfl⟩ := Option.map_eq_some_iff.mp hsaved
  rw [Machine.setcontext_of_context hcontext]
  rfl

theorem ending_install {execution : Execution Base Handler}
    (hsaved : s.saved i = some execution) :
    (s.install (s.machine.setcontext (.fiber i))).ending = s.ending := by
  obtain ⟨context, hcontext, rfl⟩ := Option.map_eq_some_iff.mp hsaved
  rw [Machine.setcontext_of_context hcontext]
  rfl

theorem rotation_install (hpos : 0 < numContexts) (hsaved : Saved numContexts addresses swaps s)
    (hlength : addresses.length = swaps) (hcurcontext : s.curcontext = swaps % numContexts)
    (hssSp : ∀ i < numContexts, s.ssSp i = malloc (i + 1)) :
    Rotation numContexts malloc addresses swaps
      (s.install (s.machine.setcontext (.fiber (swaps % numContexts)))) := by
  have hkept := hsaved.congr fun i => saved_install_setcontext s (.fiber (swaps % numContexts)) i
  obtain hnext | ⟨address, hle, haddress, hnext⟩ := hsaved.next_turn hpos hlength
  · refine ⟨?_, ?_, ?_, ?_, ?_, ?_, hkept, ?_⟩
    · simp [running_install hnext, hlength]
    · simp [running_install hnext]
    · intro _
      rw [install_curcontext, hcurcontext]
    · simp [running_install hnext]
    · simp [running_install hnext]
    · simp [running_install hnext]
    · intro i hlt
      rw [install_ssSp, hssSp i hlt]
  · refine ⟨?_, ?_, ?_, ?_, ?_, ?_, hkept, ?_⟩
    · simp [running_install hnext, suspended, HandlerPc.early, hlength]
    · simp [running_install hnext, suspended]
    · intro _
      rw [install_curcontext, hcurcontext]
    · simp [running_install hnext, suspended]
    · simp [running_install hnext, suspended, HandlerPc.early]
    · simpa [running_install hnext, suspended, HandlerPc.early] using ⟨hle, haddress⟩
    · intro i hlt
      rw [install_ssSp, hssSp i hlt]

theorem Rotation.length_eq {pc : SchedulerPc} (h : Rotation numContexts malloc addresses swaps s)
    (hs : Scheduling numContexts pc s) : addresses.length = swaps := by
  simpa [hs.running] using h.length

theorem Rotation.scheduling {pc : SchedulerPc} (h : Rotation numContexts malloc addresses swaps s)
    (hs : Scheduling numContexts pc s) :
    Rotation numContexts malloc addresses swaps (run numContexts malloc s) := by
  have hlength := h.length_eq hs
  rw [hs.run_eq]
  cases pc with
  | advance =>
      obtain ⟨last, rfl, hcurcontext⟩ := h.advance (by simp [hs.running])
      refine ⟨?_, ?_, ?_, ?_, ?_, ?_, h.saved.congr fun _ => rfl, h.ssSp⟩
      · simpa [scheduler, State.goto, Machine.goto, hs.running] using hlength
      · simp [scheduler, State.goto, Machine.goto]
      · intro _
        simp [scheduler, State.goto, hcurcontext]
      · simp [scheduler, State.goto, Machine.goto]
      · simp [scheduler, State.goto, Machine.goto, hs.running]
      · simp [scheduler, State.goto, Machine.goto, hs.running]
  | setCurContext =>
      refine ⟨?_, ?_, ?_, ?_, ?_, ?_, h.saved.congr fun _ => rfl, h.ssSp⟩
      · simpa [scheduler, State.goto, Machine.goto, hs.running] using hlength
      · simp [scheduler, State.goto, Machine.goto]
      · intro _
        exact h.turn (by simp [hs.running])
      · simp [scheduler, State.goto, Machine.goto]
      · simp [scheduler, State.goto, Machine.goto, hs.running]
      · simp [scheduler, State.goto, Machine.goto, hs.running]
  | setcontext =>
      have hcurcontext := h.turn (by simp [hs.running])
      have hpos := Nat.zero_lt_of_lt hs.lt
      simp only [scheduler, hs.curContext, hcurcontext]
      exact rotation_install hpos h.saved hlength hcurcontext h.ssSp

/-! ### The statements of `main` -/

theorem Parked.saved_of_insig (h : Parked s i) (hinsig : s.insig i = 0) :
    s.saved i = some ⟨.fiber i, []⟩ := by
  cases h with
  | fresh hcontext => simp [State.saved, hcontext]
  | interrupted address hcontext hone => simp [hinsig] at hone

theorem Setup.turn {pc : MainPc} (hpos : 0 < numContexts) (h : Setup numContexts pc s)
    (hssSp : ∀ i < pc.made numContexts, s.ssSp i = malloc (i + 1)) :
    Turn numContexts malloc [] (run numContexts malloc s) := by
  have hrun : run numContexts malloc s = main numContexts malloc s pc := by
    simp [run, h.running]
  rw [hrun]
  cases pc with
  | signalStack =>
      by_cases hmalloc : malloc 0 = 0
      · simp only [main, hmalloc, if_true]
        exact .ended (by simp [State.endWith])
      · simp only [main, hmalloc, if_false]
        exact .setup (.mkcontext 0) rfl rfl (by simp [MainPc.made])
  | mkcontext i =>
      by_cases hmalloc : malloc (i + 1) = 0
      · simp only [main, ContextDemo.mkcontext, hmalloc, if_true]
        exact .ended (by simp [State.endWith])
      · have hlt := h.lt i rfl
        simp only [main, ContextDemo.mkcontext, hmalloc, if_false]
        refine .setup _ rfl rfl ?_
        have hmade : (if i + 1 < numContexts then MainPc.mkcontext (i + 1) else .signal).made
            numContexts = i + 1 := by
          split
          · rfl
          · simp only [MainPc.made]
            omega
        rw [hmade]
        intro j hj
        by_cases heq : j = i
        · subst heq
          exact Function.update_self ..
        · refine (Function.update_of_ne heq _ _).trans (hssSp j ?_)
          simp only [MainPc.made]
          omega
  | signal | block | setCurContext =>
      refine .setup _ rfl rfl ?_
      exact hssSp
  | setcontext =>
      have hsaved : Saved numContexts [] 0 s := by
        refine ⟨?_, by simp⟩
        intro i hlt _
        exact (h.parked i hlt).saved_of_insig (h.insig i)
      have hinstall := rotation_install hpos hsaved rfl (by simp [h.curcontext]) hssSp
      rw [Nat.zero_mod] at hinstall
      exact .turning 0 hinstall

/-! ### Runs -/

theorem Calm.run_eq (h : Calm numContexts s) : run numContexts malloc s = s := by
  simp [run, h.running]

theorem Turn.run (hpos : 0 < numContexts) (h : Turn numContexts malloc addresses s)
    (hphase : Phase numContexts s) (hending : s.ending = none) :
    Turn numContexts malloc addresses (run numContexts malloc s) := by
  cases h with
  | setup pc hbase hnone hssSp =>
      subst hnone
      cases hphase with
      | setup pc' hsetup =>
          obtain rfl : pc' = pc := by simpa [hsetup.running] using hbase
          exact hsetup.turn hpos hssSp
      | calm hcalm => simp [hcalm.running] at hbase
      | interrupted hinterrupted => simp [hinterrupted.running] at hbase
      | scheduling hscheduling => simp [hscheduling.running] at hbase
      | ended hended => exact absurd hending hended.ending
  | turning swaps h =>
      cases hphase with
      | setup pc hsetup => exact absurd (by simp [hsetup.running]) (h.begun pc)
      | calm hcalm =>
          rw [hcalm.run_eq]
          exact .turning swaps h
      | interrupted hinterrupted => exact h.interrupted hinterrupted
      | scheduling hscheduling => exact .turning swaps (h.scheduling hscheduling)
      | ended hended => exact absurd hending hended.ending
  | ended hended => exact absurd hending hended

theorem Rotation.deliver (h : Rotation numContexts malloc addresses swaps s)
    (hs : Calm numContexts s) (address : BitVec 64) :
    Rotation numContexts malloc (addresses ++ [address]) swaps (deliver s address) := by
  have hlength : addresses.length = swaps := by simpa [hs.running] using h.length
  have hrunning : (s.machine.interrupt ⟨.count, address⟩).running
      = ⟨.fiber s.curcontext, [⟨⟨.count, address⟩, false⟩]⟩ := by
    simp [Machine.interrupt, hs.running, hs.masked]
  rw [ContextDemo.deliver, if_pos hs.installed]
  refine ⟨?_, ?_, ?_, ?_, ?_, ?_, ?_, h.ssSp⟩
  · simp [hrunning, HandlerPc.early, hlength]
  · simp [hrunning]
  · intro _
    exact h.turn (by simp [hs.running])
  · simp [hrunning]
  · simp [hrunning, ← hlength]
  · simp [hrunning, HandlerPc.early]
  · exact (h.saved.append hlength.ge address).congr fun _ => rfl

/-- Where a signal may hit `main`, it is not handled yet. -/
theorem Setup.not_installed {pc : MainPc} (h : Setup numContexts pc s)
    (hmasked : s.machine.masked = false) (hcalm : ¬ Exposed s) : s.installed = false := by
  rw [h.installed]
  rw [h.masked] at hmasked
  cases pc with
  | block =>
      have hexposed : Exposed s := .inl (by rw [h.running])
      exact absurd hexposed hcalm
  | setCurContext | setcontext => simp [MainPc.masked] at hmasked
  | signalStack | mkcontext | signal => rfl

theorem Turn.deliver (h : Turn numContexts malloc addresses s) (hphase : Phase numContexts s)
    (hending : s.ending = none) (hmasked : s.machine.masked = false) (hcalm : ¬ Exposed s)
    (address : BitVec 64) :
    Turn numContexts malloc (addresses ++ [address]) (deliver s address) := by
  cases hphase with
  | setup pc hsetup =>
      rw [ContextDemo.deliver, if_neg (by simp [hsetup.not_installed hmasked hcalm])]
      exact .ended (by simp [State.endWith])
  | calm hcalm =>
      cases h with
      | setup pc hbase => simp [hcalm.running] at hbase
      | turning swaps h => exact .turning swaps (h.deliver hcalm address)
      | ended hended => exact absurd hending hended
  | interrupted hinterrupted => simp [hinterrupted.masked] at hmasked
  | scheduling hscheduling =>
      have hexposed : Exposed s := .inr ⟨_, by rw [hscheduling.running]⟩
      exact absurd hexposed hcalm
  | ended hended => exact absurd hending hended.ending

theorem turn_start : Turn numContexts malloc [] start :=
  .setup .signalStack rfl rfl (by simp [MainPc.made])

theorem turn_run (hpos : 0 < numContexts)
    (hrun : Run (CalmStep numContexts malloc) start events s) :
    Inv numContexts s ∧ Turn numContexts malloc (alarms events) s := by
  apply hrun.invariant_history
    fun past s => Inv numContexts s ∧ Turn numContexts malloc (alarms past) s
  · rintro past s event next ⟨hinv, hturn⟩ hstep
    refine ⟨hinv.step hpos hstep, ?_⟩
    obtain ⟨hstep, hcalm⟩ := hstep
    cases hstep with
    | run hending =>
        rw [alarms_snoc_run]
        exact hturn.run hpos hinv.phase hending
    | alarm address hending hmasked =>
        rw [alarms_snoc_alarm]
        exact hturn.deliver hinv.phase hending hmasked (hcalm address rfl) address
  · exact ⟨inv_start, turn_start⟩

/-- Where the program stands after the signals whose handlers got these addresses. Before the call
of `swapcontext`, `timer_interrupt` belongs to the last of them; behind it, to the one that came
`numContexts` signals before the next one. -/
structure RoundRobin (numContexts : Nat) (addresses : List (BitVec 64)) (s : State) : Prop where
  fiber : ∀ i, s.machine.running = ⟨.fiber i, []⟩ → i = addresses.length % numContexts
  interrupted : ∀ i frame rest, s.machine.running = ⟨.fiber i, frame :: rest⟩ →
    frame.handler.pc.early = true → ∃ last, addresses.length = last + 1 ∧ i = last % numContexts
      ∧ addresses[last]? = some frame.handler.address
  resumed : ∀ i frame rest, s.machine.running = ⟨.fiber i, frame :: rest⟩ →
    frame.handler.pc.early = false → i = addresses.length % numContexts
      ∧ numContexts ≤ addresses.length
      ∧ addresses[addresses.length - numContexts]? = some frame.handler.address
  waiting : ∀ pc, s.machine.running.base = .scheduler pc →
    Saved numContexts addresses addresses.length s

theorem Rotation.roundRobin (h : Rotation numContexts malloc addresses swaps s)
    (hphase : Phase numContexts s) (hending : s.ending = none) :
    RoundRobin numContexts addresses s := by
  have hlength := h.length
  cases hphase with
  | setup pc hsetup => exact absurd (by simp [hsetup.running]) (h.begun pc)
  | calm hcalm =>
      have hturn := h.turn (by simp [hcalm.running])
      simp only [hcalm.running, List.countP_nil, Nat.add_zero] at hlength
      refine ⟨?_, by simp [hcalm.running], by simp [hcalm.running], by simp [hcalm.running]⟩
      intro i hrunning
      obtain rfl : s.curcontext = i := by simpa [hcalm.running] using hrunning
      rw [hturn, hlength]
  | @interrupted pc address hs =>
      have hturn := h.turn (by simp [hs.running])
      have hearly := h.early
      have hlate := h.late
      simp only [hs.running, List.countP_singleton] at hlength
      simp only [hs.running, List.forall_mem_singleton] at hearly hlate
      refine ⟨by simp [hs.running], ?_, ?_, by simp [hs.running]⟩
      · intro i frame rest hrunning hpc
        rw [hs.running] at hrunning
        obtain ⟨rfl, rfl, -⟩ := by simpa using hrunning
        rw [if_pos hpc] at hlength
        exact ⟨swaps, hlength, hturn, hearly hpc⟩
      · intro i frame rest hrunning hpc
        rw [hs.running] at hrunning
        obtain ⟨rfl, rfl, -⟩ := by simpa using hrunning
        simp only [hpc, Bool.false_eq_true, if_false, Nat.add_zero] at hlength
        rw [hlength]
        exact ⟨hturn, hlate hpc⟩
  | scheduling hs =>
      have hlength := h.length_eq hs
      refine ⟨by simp [hs.running], by simp [hs.running], by simp [hs.running], ?_⟩
      intro pc _
      rw [hlength]
      exact h.saved
  | ended hended => exact absurd hending hended.ending

/-- **Round robin.** As long as no signal hits `scheduler`, or `setup_signals` while the signal is
not yet blocked, the fibers take turns in the order of their numbers, and each goes on exactly where
its last turn ended. -/
theorem round_robin (hpos : 0 < numContexts)
    (hrun : Run (CalmStep numContexts malloc) start events s) (hending : s.ending = none) :
    RoundRobin numContexts (alarms events) s := by
  obtain ⟨hinv, hturn⟩ := turn_run hpos hrun
  cases hturn with
  | setup pc hbase hnone =>
      constructor
      · intro i hrunning
        simp [hrunning] at hbase
      · intro i frame rest hrunning
        simp [hrunning] at hbase
      · intro i frame rest hrunning
        simp [hrunning] at hbase
      · intro pc hbase'
        simp [hbase'] at hbase
  | turning swaps h => exact h.roundRobin hinv.phase hending
  | ended hended => exact absurd hending hended

/-- The first of two fibers, resumed after a signal for each. -/
theorem round_robin_two : ∃ events s, Run (CalmStep 2 pages) start events s
    ∧ s.machine.running = ⟨.fiber 0, [⟨⟨.uncount, 0x2FF0⟩, false⟩]⟩
    ∧ RoundRobin 2 [0x2FF0, 0x3FF0] s := by
  have hfirst : Run (CalmStep 2 pages) start _ ((run 2 pages)^[7] start) := run_calm (by decide)
  have halarm := hfirst.trans (run_alarm 0x2FF0 rfl rfl rfl)
  have hsecond := halarm.trans (run_calm (show ∀ k < 7, _ by decide))
  have halarm := hsecond.trans (run_alarm 0x3FF0 rfl rfl rfl)
  have hrun := halarm.trans (run_calm (show ∀ k < 7, _ by decide))
  exact ⟨_, _, hrun, rfl, round_robin (by decide) hrun rfl⟩

/-! ### A turn -/

/-- The difference that `timer_interrupt` compares with the size of the stack. -/
theorem stackSize_le_iff (depth : BitVec 64) :
    stackSize ≤ stackSize - depth ↔ ¬ (0 < depth.toNat ∧ depth.toNat ≤ 4096) := by
  have hlt := depth.isLt
  have hsize : (4096 : BitVec 64).toNat = 4096 := rfl
  simp only [stackSize, BitVec.le_def, BitVec.toNat_sub, hsize]
  omega

theorem Interrupted.ending_check (h : Interrupted numContexts .check address s) :
    (run numContexts malloc s).ending
      = if stackSize ≤ stackSize - (address - s.ssSp s.curcontext) then some (.exited (-1))
        else none := by
  rw [h.run_eq]
  simp only [timerInterrupt, h.active.curContext]
  split
  · rfl
  · exact h.ending

/-- One more statement of a run without signals. -/
theorem run_snoc {count : Nat} {first last : State}
    (hrun : Run (CalmStep numContexts malloc) first (.alarm address :: List.replicate count .run)
      last) (hending : last.ending = none) :
    Run (CalmStep numContexts malloc) first (.alarm address :: List.replicate (count + 1) .run)
      (run numContexts malloc last) := by
  rw [List.replicate_succ', ← List.cons_append]
  exact hrun.snoc ⟨.run hending, by simp⟩

theorem Phase.calm_of_running (hphase : Phase numContexts s) (hending : s.ending = none)
    (hrunning : s.machine.running = ⟨.fiber i, []⟩) : Calm numContexts s := by
  cases hphase with
  | setup pc hsetup => simp [hsetup.running] at hrunning
  | calm hcalm => exact hcalm
  | interrupted hinterrupted => simp [hinterrupted.running] at hrunning
  | scheduling hscheduling => simp [hscheduling.running] at hrunning
  | ended hended => exact absurd hending hended.ending

theorem Phase.interrupted_of_running (hphase : Phase numContexts s) (hending : s.ending = none)
    (hrunning : s.machine.running = suspended i address) :
    Interrupted numContexts .uncount address s := by
  cases hphase with
  | setup pc hsetup => simp [hsetup.running, suspended] at hrunning
  | calm hcalm => simp [hcalm.running, suspended] at hrunning
  | interrupted hinterrupted =>
      obtain ⟨-, rfl, rfl⟩ := by simpa [hinterrupted.running, suspended] using hrunning
      exact hinterrupted
  | scheduling hscheduling => simp [hscheduling.running, suspended] at hrunning
  | ended hended => exact absurd hending hended.ending

/-- `timer_interrupt` leaves the turn to the scheduler, which finds the next fiber. -/
theorem Rotation.schedule {first : State} {count : Nat}
    (h : Rotation numContexts malloc addresses swaps s)
    (hs : Interrupted numContexts .makecontext address s)
    (hrun : Run (CalmStep numContexts malloc) first (.alarm address :: List.replicate count .run)
      s) :
    ∃ next, Run (CalmStep numContexts malloc) first
        (.alarm address :: List.replicate (count + 4) .run) next
      ∧ Rotation numContexts malloc addresses (swaps + 1) next
      ∧ Scheduling numContexts .setcontext next := by
  have hs1 : Interrupted numContexts .swapcontext address (run numContexts malloc _) :=
    hs.run_makecontext
  have hr1 := h.within hs hs1 rfl nofun
  have hs2 : Scheduling numContexts .advance (run numContexts malloc _) := hs1.run_swapcontext
  have hr2 := hr1.swapcontext hs1
  have hs3 : Scheduling numContexts .setCurContext (run numContexts malloc _) := hs2.run_advance
  have hr3 := hr2.scheduling hs2
  have hs4 : Scheduling numContexts .setcontext (run numContexts malloc _) := hs3.run_setCurContext
  have hr4 := hr3.scheduling hs3
  have hrun2 := run_snoc (run_snoc hrun hs.ending) hs1.ending
  exact ⟨_, run_snoc (run_snoc hrun2 hs2.ending) hs3.ending, hr4, hs4⟩

/-- The scheduler installs the fiber whose turn is next, which is running two statements later. -/
theorem Rotation.install_turn {first : State} {count : Nat}
    (h : Rotation numContexts malloc addresses swaps s)
    (hs : Scheduling numContexts .setcontext s)
    (hrun : Run (CalmStep numContexts malloc) first (.alarm address :: List.replicate count .run)
      s) :
    ∃ next, Run (CalmStep numContexts malloc) first
        (.alarm address :: List.replicate (count + 3) .run) next
      ∧ Calm numContexts next ∧ next.curcontext = swaps % numContexts := by
  have hpos := Nat.zero_lt_of_lt hs.lt
  have hcurcontext := h.turn (by simp [hs.running])
  have hrun1 := run_snoc hrun hs.ending
  have hinstall : run numContexts malloc s
      = s.install (s.machine.setcontext (.fiber (swaps % numContexts))) := by
    simp only [hs.run_eq, scheduler, hs.curContext, hcurcontext]
  have hcur : (run numContexts malloc s).curcontext = swaps % numContexts := by
    rw [hinstall, install_curcontext, hcurcontext]
  have hphase : Phase numContexts (run numContexts malloc s) := hs.run_phase
  obtain hfresh | ⟨last, -, -, hkept⟩ := h.saved.next_turn hpos (h.length_eq hs)
  · have hrunning := running_install hfresh
    rw [← hinstall] at hrunning
    have hending := ending_install hfresh
    rw [← hinstall, hs.ending] at hending
    have hcalm := hphase.calm_of_running hending hrunning
    have hrun2 := run_snoc hrun1 hending
    rw [hcalm.run_eq] at hrun2
    have hrun3 := run_snoc hrun2 hending
    rw [hcalm.run_eq] at hrun3
    exact ⟨_, hrun3, hcalm, hcur⟩
  · have hrunning := running_install hkept
    rw [← hinstall] at hrunning
    have hending := ending_install hkept
    rw [← hinstall, hs.ending] at hending
    have hs1 := hphase.interrupted_of_running hending hrunning
    have hs2 : Interrupted numContexts .ret last (run numContexts malloc _) := hs1.run_uncount
    have hs3 : Calm numContexts (run numContexts malloc _) := hs2.run_ret
    refine ⟨_, run_snoc (run_snoc hrun1 hs1.ending) hs2.ending, hs3, ?_⟩
    rw [hs2.run_eq, timerInterrupt_curcontext, hs1.run_eq, timerInterrupt_curcontext, hcur]

/-- **A turn ends with a signal.** If the address of `j` is above the base of the running fiber's
stack, by its size at most, the next fiber is running nine statements after the signal. Otherwise,
and so at the base itself, the program exits with -1. -/
theorem turn_taken (hpos : 0 < numContexts)
    (hrun : Run (CalmStep numContexts malloc) start events s)
    (hending : s.ending = none) (hrunning : s.machine.running = ⟨.fiber i, []⟩)
    (address : BitVec 64) :
    (0 < (address - malloc (i + 1)).toNat ∧ (address - malloc (i + 1)).toNat ≤ 4096 →
        ∃ next, Run (CalmStep numContexts malloc) s (.alarm address :: List.replicate 9 .run) next
          ∧ next.machine.running = ⟨.fiber ((i + 1) % numContexts), []⟩
          ∧ next.ending = none ∧ next.machine.masked = false)
      ∧ (¬ (0 < (address - malloc (i + 1)).toNat ∧ (address - malloc (i + 1)).toNat ≤ 4096) →
        ∃ next, Run (CalmStep numContexts malloc) s (.alarm address :: List.replicate 2 .run) next
          ∧ next.ending = some (.exited (-1))) := by
  obtain ⟨hinv, hturn⟩ := turn_run hpos hrun
  have hcalm := hinv.phase.calm_of_running hending hrunning
  obtain rfl : s.curcontext = i := by simpa [hcalm.running] using hrunning
  obtain ⟨pc, hbase, -⟩ | ⟨swaps, h⟩ | hended := hturn
  · simp [hcalm.running] at hbase
  · have hcurcontext : s.curcontext = swaps % numContexts := h.turn (by simp [hcalm.running])
    have hs0 := hcalm.deliver address
    have hr0 := h.deliver hcalm address
    have hrun0 : Run (CalmStep numContexts malloc) s (.alarm address :: List.replicate 0 .run) _ :=
      run_alarm address hending hcalm.masked (congrArg Execution.base hcalm.running)
    have hs1 : Interrupted numContexts .check address (run numContexts malloc _) := hs0.run_count
    have hr1 := hr0.within hs0 hs1 rfl (by simp)
    have hrun1 := run_snoc hrun0 hs0.ending
    have hcur1 : (run numContexts malloc (deliver s address)).curcontext = s.curcontext := by
      rw [hs0.run_eq, timerInterrupt_curcontext, deliver, if_pos hcalm.installed]
    have hcheck :
        (run numContexts malloc (run numContexts malloc (deliver s address))).ending = _ :=
      hs1.ending_check
    rw [hcur1, hr1.ssSp _ hcalm.active.lt] at hcheck
    have hrun2 := run_snoc hrun1 hs1.ending
    refine ⟨fun hinside => ?_, fun houtside => ⟨_, hrun2, ?_⟩⟩
    swap
    · rw [hcheck, if_pos ((stackSize_le_iff _).mpr houtside)]
    rw [if_neg fun hle => (stackSize_le_iff _).mp hle hinside] at hcheck
    obtain hended | hs2 : Ended (run numContexts malloc _) ∨ _ := hs1.run_check
    · exact absurd hcheck hended.ending
    obtain ⟨middle, hrun6, hr6, hs6⟩ := (hr1.within hs1 hs2 rfl (by simp)).schedule hs2 hrun2
    obtain ⟨next, hrun9, hnext, hcur⟩ := hr6.install_turn hs6 hrun6
    refine ⟨next, hrun9, ?_, hnext.ending, hnext.masked⟩
    rw [hnext.running, hcur, hcurcontext, Nat.mod_add_mod]
  · exact absurd hending hended

theorem turn_taken_first : ∃ s next, s.machine.running = ⟨.fiber 0, []⟩
    ∧ Run (CalmStep 2 pages) s (.alarm 0x2FF0 :: List.replicate 9 .run) next
    ∧ next.machine.running = ⟨.fiber 1, []⟩ := by
  have hrun : Run (CalmStep 2 pages) start _ ((run 2 pages)^[7] start) := run_calm (by decide)
  obtain ⟨next, hnext, hrunning, -⟩ :=
    (turn_taken (by decide) hrun rfl rfl 0x2FF0).1 (by decide)
  exact ⟨_, next, rfl, hnext, hrunning⟩

end FexTestBins.ContextDemo
