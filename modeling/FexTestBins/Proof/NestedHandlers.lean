import FexTestBins.Proof.NestedTest
import FexTestBins.SignalsNestedMain

/-!
# Nested runs of `sighandler`

Every handler of `signals-nested.cpp` that gets past its count either tests or leaves, so that at
most a thousand ever test, and who leaves has seen more than a thousand signals. What `main` prints
comes first, since it only goes on while no handler is active.
-/

namespace FexTestBins.SignalsNestedMain

open X86 Transition Interrupts NestedTest

variable {code : Code} {env env' : Env} {pc pc' : Pc} {after : Option Pc}
  {init : Addr → Option Code} {state next : State Env Pc} {event : Event}
  {events : List Event}

theorem afterCount_cases (sigcount : Nat) :
    1000 ≤ sigcount ∧ afterCount sigcount = .timerDelete
      ∨ sigcount < 1000 ∧ afterCount sigcount = .test (.loop 0) := by
  unfold afterCount
  split <;> simp_all

/-! ### The mappings -/

/-- Where a handler is in its loop. -/
def Pc.inTest : Pc → Option NestedTest.Pc
  | .test pc => some pc
  | _ => none

/-- The mapping of the code that a handler has. -/
def Pc.mapping (pc : Pc) : Option Addr := NestedTest.mapping inTest pc

theorem bind_inTest (after : Option NestedTest.Pc) :
    (after.map Pc.test).bind Pc.inTest = after := by
  cases after <;> rfl

theorem hosts (code : Code) : Hosts code 10 (program code) Pc.inTest Env.maps where
  enter := by
    rintro _ _ _ ⟨-⟩
    exact ⟨rfl, rfl⟩
  main := by
    rintro _ _ (_ | _) <;> rfl
  act := by
    rintro env pc env' after ⟨-, hact⟩
    cases hact with
    | test htest => exact .inr ⟨_, rfl, by rwa [bind_inTest]⟩
    | count =>
        refine .inl ⟨rfl, rfl, ?_⟩
        rintro _ ⟨⟩
        rcases afterCount_cases env.sigcount with ⟨-, hafter⟩ | ⟨-, hafter⟩ <;>
          simp [hafter, Pc.inTest]
    | timerDelete | printf | exit => exact .inl ⟨rfl, rfl, by simp [Pc.inTest]⟩

/-! ### The counts -/

def Pc.entering : Pc → Bool
  | .count => true
  | _ => false

/-- The handler has decided to exit. -/
def Pc.leaving : Pc → Bool
  | .timerDelete => true
  | .printf => true
  | .exit => true
  | _ => false

/-- The handler is in its loop. -/
def Pc.testing (pc : Pc) : Bool := pc.inTest.isSome

/-- What is counted, who got past the count, and how the process has ended. -/
structure Counts (events : List Event) (state : State Env Pc) : Prop where
  signals : state.env.sigcount + state.frames.countP Pc.entering = events.count .signal
  testing : state.frames.countP Pc.testing ≤ min state.env.sigcount 1000
  leaving : 1001 ≤ state.env.sigcount ↔ 0 < state.frames.countP Pc.leaving
  exitCode : state.env.exitCode = none ∨ state.env.exitCode = some 0 ∧ 1001 ≤ state.env.sigcount
    ∨ state.env.exitCode = some 1 ∧ state.frames = []

theorem counts_start (init : Addr → Option Code) : Counts [] (start init) where
  signals := rfl
  testing := by simp [start]
  leaving := by simp [start]
  exitCode := .inl rfl

theorem Counts.run {rest : List Pc} (h : Counts events ⟨env, pc :: rest⟩)
    (hlive : env.exitCode = none) (hact : Act code env pc env' after) :
    Counts (events ++ [.run]) ⟨env', after.toList ++ rest⟩ := by
  obtain ⟨hsignals, htesting, hleaving, -⟩ := h
  cases hact with
  | count =>
      rcases afterCount_cases env.sigcount with ⟨hle, hafter⟩ | ⟨hlt, hafter⟩ <;>
        constructor <;>
        simp [Pc.entering, Pc.testing, Pc.inTest, Pc.leaving, List.countP_cons, hafter, hlive,
          -List.countP_pos_iff] at * <;>
        omega
  | exit =>
      have hleaves : 0 < (Pc.exit :: rest).countP Pc.leaving := by simp [Pc.leaving]
      exact ⟨by simpa using hsignals, htesting, hleaving, .inr (.inl ⟨rfl, hleaving.mpr hleaves⟩)⟩
  | @test _ _ _ after =>
      cases after <;>
        constructor <;>
        simp [Pc.entering, Pc.testing, Pc.inTest, Pc.leaving, List.countP_cons, hlive,
          -List.countP_pos_iff] at * <;>
        omega
  | timerDelete | printf =>
      constructor <;>
        simp [Pc.entering, Pc.testing, Pc.inTest, Pc.leaving, List.countP_cons, hlive,
          -List.countP_pos_iff] at * <;>
        omega

theorem Counts.main_le (h : Counts events ⟨env, []⟩) : env.sigcount ≤ 1000 := by
  by_contra hgt
  have hleaves := h.leaving.mp (by simp only; omega)
  simp at hleaves

theorem Counts.step (h : Counts events state)
    (hstep : Interrupts.Step (program code) state event next) :
    Counts (events ++ [event]) next := by
  cases hstep with
  | signal henter =>
      obtain ⟨hlive⟩ := henter
      obtain ⟨hsignals, htesting, hleaving, -⟩ := h
      constructor <;>
        simp [Pc.entering, Pc.testing, Pc.inTest, Pc.leaving, List.countP_cons, hlive,
          -List.countP_pos_iff] at * <;>
        omega
  | run hact => exact h.run hact.1 hact.2
  | main hmain =>
      cases hmain with
      | printf hlive =>
          exact ⟨by simpa using h.signals, h.testing, h.leaving, .inl hlive⟩
      | ret => exact ⟨by simpa using h.signals, h.testing, h.leaving, .inr (.inr ⟨rfl, rfl⟩)⟩

/-! ### The output -/

/-- The signals that came before `main` was back from its sleep. -/
def asleep (events : List Event) : Nat := (events.takeWhile (· != .main)).count .signal

/-- What `main` has printed. -/
def mainLines (events : List Event) : List Line :=
  if .main ∈ events then [.partialCount (asleep events)] else []

theorem asleep_append {later : List Event} (hmain : .main ∈ events) :
    asleep (events ++ later) = asleep events := by
  obtain ⟨before, behind, rfl, hnot⟩ := List.eq_append_cons_of_mem hmain
  have hbefore : ∀ event ∈ before, (event != .main) = true := by
    intro event hevent
    rw [bne_iff_ne]
    rintro rfl
    exact hnot hevent
  rw [asleep, asleep, List.append_assoc, List.takeWhile_append_of_pos hbefore,
    List.takeWhile_append_of_pos hbefore]
  rfl

theorem asleep_snoc_main (hmain : .main ∉ events) :
    asleep (events ++ [.main]) = events.count .signal := by
  have hevents : ∀ event ∈ events, (event != .main) = true := by
    intro event hevent
    rw [bne_iff_ne]
    rintro rfl
    exact hmain hevent
  rw [asleep, List.takeWhile_append_of_pos hevents]
  simp

theorem mainLines_snoc (hevent : event ≠ .main) :
    mainLines (events ++ [event]) = mainLines events := by
  have hmem : .main ∈ events ++ [event] ↔ .main ∈ events := by simp [hevent.symm]
  by_cases hmain : .main ∈ events
  · rw [mainLines, mainLines, if_pos (hmem.mpr hmain), if_pos hmain, asleep_append hmain]
  · rw [mainLines, mainLines, if_neg (mt hmem.mp hmain), if_neg hmain]

/-- The counts that handlers have printed: each was the number of signals counted by then, and one
that exits has printed. -/
structure CountLines (state : State Env Pc) (counts : List Nat) : Prop where
  bounds : ∀ n ∈ counts, 1001 ≤ n ∧ n ≤ state.env.sigcount
  exits : state.env.exitCode = some 0 ∨ .exit ∈ state.frames → counts ≠ []

/-- Before the 1001st signal is counted, no handler has printed. -/
theorem CountLines.eq_nil {counts : List Nat} (h : CountLines state counts)
    (hfew : state.env.sigcount ≤ 1000) : counts = [] := by
  apply List.eq_nil_iff_forall_not_mem.mpr
  intro n hn
  obtain ⟨hle, hge⟩ := h.bounds n hn
  omega

structure Printed (events : List Event) (state : State Env Pc) : Prop where
  main : state.env.main = if .main ∈ events then .ret else .printf
  asleep_le : .main ∈ events → asleep events ≤ 1000
  returned : state.env.exitCode = some 1 → .main ∈ events
  output : ∃ counts, state.env.output = mainLines events ++ counts.map .count
    ∧ CountLines state counts

theorem printed_start (init : Addr → Option Code) : Printed [] (start init) where
  main := rfl
  asleep_le := by simp
  returned := by simp [start]
  output := ⟨[], rfl, by simp, by simp [start]⟩

/-- A step of a handler or the entry of one, in terms of what it adds to the counts printed. -/
theorem Printed.snoc (h : Printed events state) (more : List Nat) (hevent : event ≠ .main)
    (hmain : next.env.main = state.env.main) (hreturned : next.env.exitCode ≠ some 1)
    (houtput : next.env.output = state.env.output ++ more.map .count)
    (hlines : ∀ counts, CountLines state counts → CountLines next (counts ++ more)) :
    Printed (events ++ [event]) next := by
  have hmem : .main ∈ events ++ [event] ↔ .main ∈ events := by simp [hevent.symm]
  refine ⟨?_, ?_, fun hone => absurd hone hreturned, ?_⟩
  · rw [hmain, h.main]
    simp only [hmem]
  · intro hback
    rw [asleep_append (hmem.mp hback)]
    exact h.asleep_le (hmem.mp hback)
  · obtain ⟨counts, hcounts, hcountLines⟩ := h.output
    refine ⟨counts ++ more, ?_, hlines counts hcountLines⟩
    rw [houtput, hcounts, mainLines_snoc hevent, List.map_append, List.append_assoc]

theorem CountLines.of_frames {counts : List Nat} {frames frames' : List Pc}
    (h : CountLines ⟨env, frames⟩ counts) (hlive : env'.exitCode = none)
    (hcount : env.sigcount ≤ env'.sigcount) (hexit : .exit ∈ frames' → .exit ∈ frames) :
    CountLines ⟨env', frames'⟩ (counts ++ []) where
  bounds := by
    intro n hn
    rw [List.append_nil] at hn
    exact ⟨(h.bounds n hn).1, (h.bounds n hn).2.trans hcount⟩
  exits := by
    rw [List.append_nil]
    rintro (hzero | hmem)
    · simp [hlive] at hzero
    · exact h.exits (.inr (hexit hmem))

theorem Printed.run {rest : List Pc} (h : Printed events ⟨env, pc :: rest⟩)
    (hcounts : Counts events ⟨env, pc :: rest⟩) (hlive : env.exitCode = none)
    (hact : Act code env pc env' after) :
    Printed (events ++ [.run]) ⟨env', after.toList ++ rest⟩ := by
  cases hact with
  | count =>
      refine h.snoc [] (by simp) rfl (by simp [hlive]) (by simp) fun counts hlines =>
        hlines.of_frames hlive (Nat.le_succ _) ?_
      rcases afterCount_cases env.sigcount with ⟨-, hafter⟩ | ⟨-, hafter⟩ <;> simp [hafter]
  | printf =>
      have hmany : 1001 ≤ env.sigcount := hcounts.leaving.mpr (by simp [Pc.leaving])
      refine h.snoc [env.sigcount] (by simp) rfl (by simp [hlive]) rfl ?_
      intro counts hlines
      refine ⟨?_, by simp⟩
      intro n hn
      rcases List.mem_append.mp hn with hn | hn
      · exact hlines.bounds n hn
      · rw [List.mem_singleton.mp hn]
        exact ⟨hmany, le_rfl⟩
  | exit =>
      refine h.snoc [] (by simp) rfl (by simp) (by simp) ?_
      intro counts hlines
      rw [List.append_nil]
      exact ⟨hlines.bounds, fun _ => hlines.exits (.inr List.mem_cons_self)⟩
  | timerDelete =>
      exact h.snoc [] (by simp) rfl (by simp [hlive]) (by simp) fun counts hlines =>
        hlines.of_frames hlive le_rfl (by simp)
  | @test _ _ _ after =>
      refine h.snoc [] (by simp) rfl (by simp [hlive]) (by simp) fun counts hlines =>
        hlines.of_frames hlive le_rfl ?_
      cases after <;> simp

theorem Printed.step (h : Printed events state) (hcounts : Counts events state)
    (hstep : Interrupts.Step (program code) state event next) :
    Printed (events ++ [event]) next := by
  cases hstep with
  | signal henter =>
      obtain ⟨hlive⟩ := henter
      exact h.snoc [] (by simp) rfl (by simp [hlive]) (by simp) fun counts hlines =>
        hlines.of_frames hlive le_rfl (by simp)
  | run hact => exact h.run hcounts hact.1 hact.2
  | @main env env' hmain =>
      have hfew := hcounts.main_le
      cases hmain with
      | printf hlive hpc =>
          have hfirst : .main ∉ events := by
            intro hmem
            have hmain := h.main
            rw [if_pos hmem, hpc] at hmain
            cases hmain
          have hasleep : asleep (events ++ [.main]) = env.sigcount := by
            rw [asleep_snoc_main hfirst, ← hcounts.signals]
            rfl
          obtain ⟨counts, hcount, hlines⟩ := h.output
          obtain rfl : counts = [] := hlines.eq_nil hfew
          refine ⟨by simp, fun _ => hasleep.le.trans hfew, by simp, [], ?_, ?_⟩
          · simp only at hcount ⊢
            rw [hcount, mainLines, mainLines, if_neg hfirst, if_pos (by simp), hasleep]
            rfl
          · exact ⟨by simp, by simp [hlive]⟩
      | ret hlive hpc =>
          have hsecond : .main ∈ events := by
            by_contra hmem
            have hmain := h.main
            rw [if_neg hmem, hpc] at hmain
            cases hmain
          have hasleep : asleep (events ++ [.main]) = asleep events := asleep_append hsecond
          obtain ⟨counts, hcount, hlines⟩ := h.output
          refine ⟨by simp [hpc], fun _ => hasleep.le.trans (h.asleep_le hsecond), by simp, counts,
            ?_, hlines.bounds, by simp⟩
          rw [hcount, mainLines, mainLines, if_pos hsecond, if_pos (by simp), hasleep]

/-! ### Runs -/

structure Inv (code : Code) (init : Addr → Option Code) (events : List Event)
    (state : State Env Pc) : Prop where
  kept : Kept Pc.mapping (FrameOk code 10 Pc.inTest Env.maps) Env.maps init state
  counts : Counts events state
  printed : Printed events state

theorem inv_start (code : Code) (init : Addr → Option Code) : Inv code init [] (start init) where
  kept := (.of_start rfl : Kept _ _ Env.maps (start init).env.maps (start init))
  counts := counts_start init
  printed := printed_start init

theorem Inv.step (h : Inv code init events state)
    (hstep : Interrupts.Step (program code) state event next) :
    Inv code init (events ++ [event]) next where
  kept := (hosts code).mapDiscipline.kept_step h.kept hstep
  counts := h.counts.step hstep
  printed := h.printed.step h.counts hstep

theorem inv_run (hrun : Run (Interrupts.Step (program code)) (start init) events state) :
    Inv code init events state := by
  apply hrun.invariant_history (Inv code init) _ (inv_start code init)
  intro past s event next h hstep
  exact h.step hstep

/-- The active handlers have different mappings of the code where there was none, and nothing else
in the address space has changed; every signal is counted or about to be, and at most a thousand
handlers test. If the process has ended, `main` has returned 1 after at most a thousand signals with
the address space as it was, and has printed how many had come before it was back from its sleep, or
a handler has exited with 0 after more than a thousand, and at least one has printed how many; in
front of their lines is that of `main`, if it came to it. -/
structure Orderly (code : Code) (init : Addr → Option Code) (events : List Event)
    (state : State Env Pc) : Prop where
  distinct : (state.frames.filterMap Pc.mapping).Nodup
  mapped : ∀ pc ∈ state.frames, ∀ addr, pc.mapping = some addr →
    state.env.maps addr = some code ∧ init addr = none
  others : ∀ addr, (∀ pc ∈ state.frames, pc.mapping ≠ some addr) →
    state.env.maps addr = init addr
  signals : state.env.sigcount + state.frames.countP Pc.entering = events.count .signal
  testing : state.frames.countP Pc.testing ≤ 1000
  asleep_le : .main ∈ events → asleep events ≤ 1000
  ended : state.env.exitCode = none
    ∨ state.env.exitCode = some 1 ∧ events.count .signal ≤ 1000 ∧ state.env.maps = init
      ∧ state.env.output = [.partialCount (asleep events)]
    ∨ state.env.exitCode = some 0 ∧ 1001 ≤ events.count .signal
      ∧ ∃ counts, counts ≠ [] ∧ (∀ n ∈ counts, 1001 ≤ n ∧ n ≤ events.count .signal)
        ∧ state.env.output = mainLines events ++ counts.map .count

theorem Inv.ended (h : Inv code init events state) : state.env.exitCode = none
    ∨ state.env.exitCode = some 1 ∧ events.count .signal ≤ 1000 ∧ state.env.maps = init
      ∧ state.env.output = [.partialCount (asleep events)]
    ∨ state.env.exitCode = some 0 ∧ 1001 ≤ events.count .signal
      ∧ ∃ counts, counts ≠ [] ∧ (∀ n ∈ counts, 1001 ≤ n ∧ n ≤ events.count .signal)
        ∧ state.env.output = mainLines events ++ counts.map .count := by
  have hsignals := h.counts.signals
  obtain ⟨counts, houtput, hlines⟩ := h.printed.output
  rcases h.counts.exitCode with hlive | ⟨hzero, hmany⟩ | ⟨hone, hframes⟩
  · exact .inl hlive
  · refine .inr (.inr ⟨hzero, by omega, counts, hlines.exits (.inl hzero), ?_, houtput⟩)
    intro n hn
    obtain ⟨hle, hge⟩ := hlines.bounds n hn
    exact ⟨hle, by omega⟩
  · have hfew : state.env.sigcount ≤ 1000 := by
      have hcounts := h.counts
      obtain ⟨env, frames⟩ := state
      obtain rfl : frames = [] := hframes
      exact hcounts.main_le
    obtain rfl : counts = [] := hlines.eq_nil hfew
    rw [mainLines, if_pos (h.printed.returned hone)] at houtput
    rw [hframes, List.countP_nil, Nat.add_zero] at hsignals
    exact .inr (.inl ⟨hone, by omega, h.kept.quiet hframes, houtput⟩)

/-- **Nested handlers are orderly**, whenever the signals come. -/
theorem handlers_orderly (code : Code) (init : Addr → Option Code) (events : List Event)
    (state : State Env Pc)
    (hrun : Run (Interrupts.Step (program code)) (start init) events state) :
    Orderly code init events state := by
  have h := inv_run hrun
  exact ⟨h.kept.separate.nodup, fun pc hpc addr hown => mapped_of_kept h.kept hpc hown,
    h.kept.outside, h.counts.signals, h.counts.testing.trans (min_le_right _ _),
    h.printed.asleep_le, h.ended⟩

/-- `main` has printed and not returned when the first signal comes. A second one arrives when the
handler of the first has just mapped the code. -/
theorem handlers_orderly_nested : ∃ state,
    Run (Interrupts.Step (program fun _ => some 0xC3)) (start fun _ => none)
        [.main, .signal, .run, .run, .signal] state
      ∧ state.frames.length = 2 ∧ state.env.output = [.partialCount 0]
      ∧ Orderly (fun _ => some 0xC3) (fun _ => none) [.main, .signal, .run, .run, .signal]
        state := by
  have hmmap : NestedTest.Act (fun _ => some 0xC3) 10 (fun _ => none) (.loop 0) _ _ :=
    @Act.mmap _ _ _ 0 0x1000 7 true (by decide) rfl
  have hrun : Run (Interrupts.Step (program fun _ => some 0xC3)) (start fun _ => none)
      [.main, .signal, .run, .run, .signal] _ :=
    .cons (.main (.printf rfl rfl)) (.cons (.signal ⟨rfl⟩) (.cons (.run ⟨rfl, .count⟩)
      (.cons (.run ⟨rfl, .test hmmap⟩) (.single (.signal ⟨rfl⟩)))))
  exact ⟨_, hrun, rfl, rfl, handlers_orderly _ _ _ _ hrun⟩

end FexTestBins.SignalsNestedMain
