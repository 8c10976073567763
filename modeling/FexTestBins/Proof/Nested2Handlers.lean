import FexTestBins.Proof.NestedTest
import FexTestBins.SignalsNested2Main

/-!
# Nested handlers on a main thread

A handler of `signals-nested-2.cpp` cannot be interrupted before it has counted, so that the count
is behind the deliveries by one at most. With one more signal pending and one more sent after the
last look at the count, the thread has at most 1002 signals delivered before it exits.
-/

namespace FexTestBins.SignalsNested2Main

open X86 Transition Interrupts NestedTest

variable {code : Code} {env env' : Env} {pc pc' : Pc} {after : Option Pc}
  {init : Addr → Option Code} {s s' : State} {mainthread : Interrupts.State Env Pc}
  {event : Event} {events : List Event}

/-! ### The mappings -/

/-- Where a handler is in its loop. -/
def Pc.inTest : Pc → Option NestedTest.Pc
  | .test pc => some pc
  | _ => none

/-- The mapping of the code that a handler has. -/
def Pc.mapping (pc : Pc) : Option Addr := NestedTest.mapping inTest pc

theorem bind_inTest (after : Option NestedTest.Pc) :
    (after.map Pc.test).bind Pc.inTest = after := by
  cases after <;> rfl

theorem hosts (code : Code) : Hosts code 100 (program code) Pc.inTest Env.maps where
  enter := by
    rintro _ _ _ ⟨-, rfl, rfl⟩
    exact ⟨rfl, rfl⟩
  main := fun _ _ hmain => hmain.elim
  act := by
    rintro env pc env' after ⟨-, hact⟩
    cases hact with
    | test htest => exact .inr ⟨_, rfl, by rwa [bind_inTest]⟩
    | printf | count | sigprocmask => exact .inl ⟨rfl, rfl, by simp [Pc.inTest]⟩

/-- The mappings are those of the active handlers, in the main thread's part of the state. -/
abbrev MapsKept (code : Code) (init : Addr → Option Code)
    (mainthread : Interrupts.State Env Pc) : Prop :=
  Kept Pc.mapping (FrameOk code 100 Pc.inTest Env.maps) Env.maps init mainthread

theorem mapsKept_step (h : MapsKept code init s.mainthread) (hstep : Step code s event s') :
    MapsKept code init s'.mainthread := by
  cases hstep with
  | kill | wake | check => exact h
  | report | exit => exact (hosts code).mapDiscipline.kept_congr h rfl
  | deliver _ _ hmain | run hmain => exact (hosts code).mapDiscipline.kept_step h hmain

/-! ### The counts -/

def Pc.unprinted : Pc → Bool
  | .printf => true
  | _ => false

def Pc.uncounted : Pc → Bool
  | .printf => true
  | .count => true
  | _ => false

theorem masked_of_uncounted (h : pc.uncounted = true) : pc.masked = true := by
  cases pc <;> first | rfl | cases h

/-- Only the handler entered last may have its signal masked. -/
def OneMasked (frames : List Pc) : Prop := ∀ pc ∈ frames.tail, pc.masked = false

theorem OneMasked.countP_uncounted_le {frames : List Pc} (h : OneMasked frames) :
    frames.countP Pc.uncounted ≤ 1 := by
  cases frames with
  | nil => simp
  | cons pc rest =>
      have hrest : rest.countP Pc.uncounted = 0 := by
        apply List.countP_eq_zero.mpr
        intro other hother huncounted
        have hmasked := h other hother
        rw [masked_of_uncounted huncounted] at hmasked
        cases hmasked
      rw [List.countP_cons, hrest]
      split <;> omega

theorem countP_unprinted_le (frames : List Pc) :
    frames.countP Pc.unprinted ≤ frames.countP Pc.uncounted := by
  apply List.countP_mono_left
  intro pc _ h
  cases pc <;> first | rfl | cases h

/-- What a step of the main thread does to the counts, the mask and the output. -/
structure MainStep (mainthread : Interrupts.State Env Pc) (signals : Nat)
    (next : Interrupts.State Env Pc) : Prop where
  live : mainthread.env.exitCode = none
  lives : next.env.exitCode = none
  sigcount_le : mainthread.env.sigcount ≤ next.env.sigcount
  length_le : next.frames.length ≤ mainthread.frames.length + signals
  counted : next.env.sigcount + next.frames.countP Pc.uncounted
    = mainthread.env.sigcount + mainthread.frames.countP Pc.uncounted + signals
  printed : ∃ n, next.env.output = mainthread.env.output ++ List.replicate n .signal
    ∧ n + next.frames.countP Pc.unprinted = mainthread.frames.countP Pc.unprinted + signals

theorem mainStep_signal {next : Interrupts.State Env Pc}
    (hstep : Interrupts.Step (program code) mainthread .signal next) :
    MainStep mainthread 1 next ∧ next.frames = .printf :: mainthread.frames := by
  cases hstep with
  | signal henter =>
      obtain ⟨hlive, rfl, rfl⟩ := henter
      refine ⟨⟨hlive, hlive, le_rfl, le_rfl, ?_, 0, by simp, ?_⟩, rfl⟩
      · rw [List.countP_cons_of_pos (by rfl), Nat.add_assoc]
      · rw [List.countP_cons_of_pos (by rfl), Nat.zero_add]

theorem mainStep_run {next : Interrupts.State Env Pc}
    (hstep : Interrupts.Step (program code) mainthread .run next) :
    MainStep mainthread 0 next ∧ next.frames.tail ⊆ mainthread.frames.tail := by
  cases hstep with
  | @run env env' pc after rest hact =>
      obtain ⟨hlive, hact⟩ := hact
      have htail : (after.toList ++ rest).tail ⊆ rest := by
        cases after with
        | none => exact List.tail_subset rest
        | some pc' => exact List.Subset.refl rest
      refine ⟨?_, htail⟩
      cases hact with
      | printf =>
          refine ⟨hlive, hlive, le_rfl, le_rfl, ?_, 1, rfl, ?_⟩ <;>
            simp [Pc.uncounted, Pc.unprinted, List.countP_cons]
          omega
      | count =>
          refine ⟨hlive, hlive, Nat.le_succ _, le_rfl, ?_, 0, by simp, ?_⟩ <;>
            simp [Pc.uncounted, Pc.unprinted, List.countP_cons]
          omega
      | sigprocmask =>
          refine ⟨hlive, hlive, le_rfl, le_rfl, ?_, 0, by simp, ?_⟩ <;>
            simp [Pc.uncounted, Pc.unprinted]
      | @test _ _ _ after =>
          refine ⟨hlive, hlive, le_rfl, ?_, ?_, 0, by simp, ?_⟩ <;>
            cases after <;> simp [Pc.uncounted, Pc.unprinted]

/-- What is sent, pending, delivered and counted. -/
structure Counts (events : List Event) (s : State) : Prop where
  masked : OneMasked s.mainthread.frames
  active : s.mainthread.frames.length ≤ events.count .deliver
  counted : s.mainthread.env.sigcount + s.mainthread.frames.countP Pc.uncounted
    = events.count .deliver
  sent : events.count .deliver + s.pending.toNat ≤ events.count .kill
  few : events.count .deliver + s.pending.toNat ≤ 1002
  again : s.thread = .pthreadKill → events.count .deliver + s.pending.toNat ≤ 1001
  enough : s.thread = .printf ∨ s.thread = .exit → 1000 ≤ s.mainthread.env.sigcount
  asleep : s.thread = .usleep → s.moved = false → s.pending = true
  ended : s.mainthread.env.exitCode ≠ none → s.mainthread.env.exitCode = some 0 ∧ s.thread = .exit

theorem counts_start (init : Addr → Option Code) : Counts [] (start init) where
  masked := by simp [OneMasked, start]
  active := Nat.le_refl _
  counted := rfl
  sent := Nat.le_refl _
  few := Nat.zero_le _
  again := fun _ => Nat.zero_le _
  enough := by simp [start]
  asleep := by simp [start]
  ended := by simp [start]

theorem toNat_le_one (pending : Bool) : pending.toNat ≤ 1 := by
  cases pending <;> decide

/-- Where the thread goes on, it may send one more. -/
theorem Counts.again_le (h : Counts events s) (hmore : s.mainthread.env.sigcount < 1000) :
    events.count .deliver + s.pending.toNat ≤ 1001 := by
  have hone := h.masked.countP_uncounted_le
  have hpending := toNat_le_one s.pending
  have hcounted := h.counted
  omega

theorem Counts.deliver (h : Counts events s) (hpending : s.pending = true)
    (hhead : ∀ pc ∈ s.mainthread.frames.head?, pc.masked = false)
    (hmain : Interrupts.Step (program code) s.mainthread .signal mainthread) :
    Counts (events ++ [.deliver])
      { s with mainthread := mainthread, pending := false, moved := true } := by
  obtain ⟨hmain, hframes⟩ := mainStep_signal hmain
  have hsent := h.sent
  have hfew := h.few
  have hagain := h.again
  have hcounted := hmain.counted
  rw [hpending] at hsent hfew hagain
  constructor
  · intro pc hpc
    rw [hframes, List.tail_cons] at hpc
    cases hold : s.mainthread.frames with
    | nil => simp [hold] at hpc
    | cons top rest =>
        rcases List.mem_cons.mp (hold ▸ hpc) with rfl | hpc
        · exact hhead pc (by simp [hold])
        · exact h.masked pc (by simpa [hold] using hpc)
  · simpa using hmain.length_le.trans (Nat.succ_le_succ h.active)
  · rw [hcounted, h.counted]
    simp
  · simpa using hsent
  · simpa using hfew
  · simpa using hagain
  · exact fun hthread => (h.enough hthread).trans hmain.sigcount_le
  · simp
  · simp [hmain.lives]

theorem Counts.run (h : Counts events s)
    (hmain : Interrupts.Step (program code) s.mainthread .run mainthread) :
    Counts (events ++ [.run]) { s with mainthread := mainthread, moved := true } := by
  obtain ⟨hmain, htail⟩ := mainStep_run hmain
  refine ⟨fun pc hpc => h.masked pc (htail hpc), ?_, ?_, ?_, ?_, ?_, ?_, by simp,
    by simp [hmain.lives]⟩
  · simpa using hmain.length_le.trans h.active
  · rw [hmain.counted, h.counted]
    simp
  · simpa using h.sent
  · simpa using h.few
  · simpa using h.again
  · exact fun hthread => (h.enough hthread).trans hmain.sigcount_le

/-- A step of the thread that sends nothing. -/
theorem Counts.quiet (h : Counts events s) (hkill : [event].count .kill = 0)
    (hdeliver : [event].count .deliver = 0)
    (hframes : s'.mainthread.frames = s.mainthread.frames)
    (hsigcount : s'.mainthread.env.sigcount = s.mainthread.env.sigcount)
    (hpending : s'.pending = s.pending)
    (hmore : s'.thread = .pthreadKill → s.mainthread.env.sigcount < 1000)
    (henough : s'.thread = .printf ∨ s'.thread = .exit → 1000 ≤ s.mainthread.env.sigcount)
    (hawake : s'.thread ≠ .usleep)
    (hended : s'.mainthread.env.exitCode ≠ none →
      s'.mainthread.env.exitCode = some 0 ∧ s'.thread = .exit) :
    Counts (events ++ [event]) s' where
  masked := hframes ▸ h.masked
  active := by simpa [hframes, List.count_append, hdeliver] using h.active
  counted := by rw [hframes, hsigcount, h.counted, List.count_append, hdeliver, Nat.add_zero]
  sent := by simpa [hpending, List.count_append, hkill, hdeliver] using h.sent
  few := by simpa [hpending, List.count_append, hdeliver] using h.few
  again := fun hthread => by
    simpa [hpending, List.count_append, hdeliver] using h.again_le (hmore hthread)
  enough := fun hthread => hsigcount ▸ henough hthread
  asleep := fun hthread => absurd hthread hawake
  ended := hended

theorem Counts.step (h : Counts events s) (hstep : Step code s event s') :
    Counts (events ++ [event]) s' := by
  cases hstep with
  | kill hlive hthread =>
      have hsent := h.sent
      have hagain := h.again hthread
      refine ⟨h.masked, by simpa using h.active, by simpa using h.counted, ?_, ?_, by simp, by simp,
        fun _ _ => rfl, by simp [hlive]⟩
      · simp
        omega
      · simp
        omega
  | wake hlive =>
      exact h.quiet rfl rfl rfl rfl rfl (by simp) (by simp) (by simp) (by simp [hlive])
  | check hlive =>
      refine h.quiet rfl rfl rfl rfl rfl ?_ ?_ ?_ ?_
      · by_cases henough : 1000 ≤ s.mainthread.env.sigcount
        · simp [henough]
        · exact fun _ => Nat.lt_of_not_le henough
      · by_cases henough : 1000 ≤ s.mainthread.env.sigcount
        · exact fun _ => henough
        · simp [henough]
      · simp only
        split <;> simp
      · simp [hlive]
  | report hlive =>
      exact h.quiet rfl rfl rfl rfl rfl (by simp) (fun _ => h.enough (.inl rfl)) (by simp)
        (by simp [hlive])
  | exit =>
      exact h.quiet rfl rfl rfl rfl rfl (by simp) (fun _ => h.enough (.inr rfl)) (by simp)
        (by simp)
  | deliver hpending hhead hmain => exact h.deliver hpending hhead hmain
  | run hmain => exact h.run hmain

/-! ### The output -/

/-- What is written when that many handlers have printed. -/
def Written (thread : ThreadPc) (output : List Line) (signals : Nat) : Prop :=
  match thread with
  | .exit => ∃ before behind, 1000 ≤ before ∧ before + behind = signals
      ∧ output = List.replicate before .signal ++ .finished :: List.replicate behind .signal
  | _ => output = List.replicate signals .signal

theorem Written.signals {thread : ThreadPc} {output : List Line} {signals : Nat}
    (h : Written thread output signals) (n : Nat) :
    Written thread (output ++ List.replicate n .signal) (signals + n) := by
  cases thread with
  | exit =>
      obtain ⟨before, behind, hmany, rfl, rfl⟩ := h
      exact ⟨before, behind + n, hmany, (Nat.add_assoc _ _ _).symm, by simp⟩
  | pthreadKill | usleep | check | printf =>
      obtain rfl : output = _ := h
      simp [Written]

/-- Every handler that is past its first statement has printed. -/
def Printed (events : List Event) (s : State) : Prop :=
  ∃ signals, Written s.thread s.mainthread.env.output signals
    ∧ signals + s.mainthread.frames.countP Pc.unprinted = events.count .deliver

theorem Printed.main {signals : Nat} (h : Printed events s)
    (hmain : MainStep s.mainthread signals mainthread)
    (hevent : [event].count .deliver = signals) (hthread : s'.thread = s.thread)
    (hnext : s'.mainthread = mainthread) : Printed (events ++ [event]) s' := by
  obtain ⟨before, hwritten, hbefore⟩ := h
  obtain ⟨n, houtput, hprinted⟩ := hmain.printed
  refine ⟨before + n, ?_, ?_⟩
  · rw [hthread, hnext, houtput]
    exact hwritten.signals n
  · rw [hnext, List.count_append, hevent]
    omega

theorem Printed.step (h : Printed events s) (hcounts : Counts events s)
    (hstep : Step code s event s') : Printed (events ++ [event]) s' := by
  obtain ⟨signals, hwritten, hsignals⟩ := h
  cases hstep with
  | kill _ hthread | wake _ hthread =>
      rw [hthread] at hwritten
      exact ⟨signals, hwritten, by simpa using hsignals⟩
  | check _ hthread =>
      rw [hthread] at hwritten
      refine ⟨signals, ?_, by simpa using hsignals⟩
      split <;> exact hwritten
  | @report env frames pending moved hlive =>
      have hmany := hcounts.enough (.inl rfl)
      have hcounted := hcounts.counted
      have hle := countP_unprinted_le frames
      have houtput : env.output = List.replicate signals .signal := hwritten
      simp only at hmany hcounted hsignals
      refine ⟨signals, ⟨signals, 0, by omega, rfl, by simp [houtput]⟩, by simpa using hsignals⟩
  | exit => exact ⟨signals, hwritten, by simpa using hsignals⟩
  | deliver _ _ hmain =>
      exact .main ⟨signals, hwritten, hsignals⟩ (mainStep_signal hmain).1 rfl rfl rfl
  | run hmain => exact .main ⟨signals, hwritten, hsignals⟩ (mainStep_run hmain).1 rfl rfl rfl

/-! ### Runs -/

structure Inv (code : Code) (init : Addr → Option Code) (events : List Event) (s : State) :
    Prop where
  kept : MapsKept code init s.mainthread
  counts : Counts events s
  printed : Printed events s

theorem inv_start (code : Code) (init : Addr → Option Code) : Inv code init [] (start init) where
  kept :=
    (.of_start rfl : Kept _ _ Env.maps (start init).mainthread.env.maps (start init).mainthread)
  counts := counts_start init
  printed := ⟨0, rfl, rfl⟩

theorem Inv.step (h : Inv code init events s) (hstep : Step code s event s') :
    Inv code init (events ++ [event]) s' where
  kept := mapsKept_step h.kept hstep
  counts := h.counts.step hstep
  printed := h.printed.step h.counts hstep

theorem inv_run (hrun : Run (Step code) (start init) events s) : Inv code init events s := by
  apply hrun.invariant_history (Inv code init) _ (inv_start code init)
  intro past s event s' h hstep
  exact h.step hstep

/-- The active handlers have different mappings of the code where there was none, and nothing else
in the address space has changed. At most one handler has its signal masked, that entered last.
Every signal delivered was sent, and is counted or about to be, and its line is printed or about to
be; there are at most 1002 of them. The process only ends with 0, after at least a thousand were
counted and printed, with one line of the thread behind the thousandth. -/
structure Orderly (code : Code) (init : Addr → Option Code) (events : List Event) (s : State) :
    Prop where
  distinct : (s.mainthread.frames.filterMap Pc.mapping).Nodup
  mapped : ∀ pc ∈ s.mainthread.frames, ∀ addr, pc.mapping = some addr →
    s.mainthread.env.maps addr = some code ∧ init addr = none
  others : ∀ addr, (∀ pc ∈ s.mainthread.frames, pc.mapping ≠ some addr) →
    s.mainthread.env.maps addr = init addr
  masked : ∀ pc ∈ s.mainthread.frames.tail, pc.masked = false
  counted : s.mainthread.env.sigcount + s.mainthread.frames.countP Pc.uncounted
    = events.count .deliver
  sent : events.count .deliver + s.pending.toNat ≤ events.count .kill
  few : events.count .deliver + s.pending.toNat ≤ 1002
  output : ∃ signals, Written s.thread s.mainthread.env.output signals
    ∧ signals + s.mainthread.frames.countP Pc.unprinted = events.count .deliver
  ended : s.mainthread.env.exitCode = none
    ∨ s.mainthread.env.exitCode = some 0 ∧ s.thread = .exit ∧ 1000 ≤ s.mainthread.env.sigcount

/-- **Deliveries are orderly**, however the two threads take turns and whether or not `usleep` is
long enough for a signal to come. -/
theorem deliveries_orderly (code : Code) (init : Addr → Option Code) (events : List Event)
    (s : State) (hrun : Run (Step code) (start init) events s) : Orderly code init events s := by
  have h := inv_run hrun
  refine ⟨h.kept.separate.nodup, fun pc hpc addr hown => mapped_of_kept h.kept hpc hown,
    h.kept.outside, h.counts.masked, h.counts.counted, h.counts.sent, h.counts.few, h.printed, ?_⟩
  by_cases hlive : s.mainthread.env.exitCode = none
  · exact .inl hlive
  · obtain ⟨hzero, hthread⟩ := h.counts.ended hlive
    exact .inr ⟨hzero, hthread, h.counts.enough (.inr hthread)⟩

/-- A second signal arrives when the handler of the first has just mapped the code. -/
theorem deliveries_orderly_nested : ∃ s,
    Run (Step fun _ => some 0xC3) (start fun _ => none)
        [.kill, .deliver, .run, .run, .run, .run, .wake, .check, .kill, .deliver] s
      ∧ s.mainthread.frames.length = 2 ∧ s.mainthread.env.output = [.signal]
      ∧ Orderly (fun _ => some 0xC3) (fun _ => none)
        [.kill, .deliver, .run, .run, .run, .run, .wake, .check, .kill, .deliver] s := by
  have hmmap : NestedTest.Act (fun _ => some 0xC3) 100 (fun _ => none) (.loop 0) _ _ :=
    @Act.mmap _ _ _ 0 0x1000 7 true (by decide) rfl
  have hrun : Run (Step fun _ => some 0xC3) (start fun _ => none)
      [.kill, .deliver, .run, .run, .run, .run, .wake, .check, .kill, .deliver] _ :=
    .cons (.kill rfl rfl) (.cons (.deliver rfl (by simp [start]) (.signal ⟨rfl, rfl, rfl⟩))
      (.cons (.run (.run ⟨rfl, .printf⟩)) (.cons (.run (.run ⟨rfl, .count⟩))
      (.cons (.run (.run ⟨rfl, .sigprocmask⟩)) (.cons (.run (.run ⟨rfl, .test hmmap⟩))
      (.cons (.wake rfl rfl) (.cons (.check rfl rfl) (.cons (.kill rfl rfl)
      (.single (.deliver rfl (by simp [Pc.masked]) (.signal ⟨rfl, rfl, rfl⟩)))))))))))
  exact ⟨_, hrun, rfl, rfl, deliveries_orderly _ _ _ _ hrun⟩

end FexTestBins.SignalsNested2Main
