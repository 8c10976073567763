import FexTestBins.Proof.NestedHandlers
import FexTestBins.Proof.NestedRuns

/-!
# `signals-nested.cpp` never unwinds

No handler ever returns from its first call of the generated code, so that the process only ends
where no signal has come, or where a handler exits.
-/

namespace FexTestBins.SignalsNestedMain

open Words X86 Transition Interrupts Generator NestedTest

variable {code : Code} {env env' : Env} {pc pc' : Pc} {after : Option Pc}
  {init : Addr → Option Code} {state next : State Env Pc} {event : Event} {events : List Event}
  {cpu : Cpu} {fetched codeSize : Nat} {file : Nat → Byte}

/-! ### Going on -/

/-- A step other than the arrival of a signal. -/
def Silent (code : Code) (state : State Env Pc) (event : Event) (next : State Env Pc) : Prop :=
  Interrupts.Step (program code) state event next ∧ event ≠ .signal

/-- Where the address space has room for a thousand mappings, the process is never stuck. -/
theorem Inv.exists_silent (hfetchable : Fetchable code) (h : Inv code init events state)
    (room : Finset Addr) (hcard : 1000 ≤ room.card) (hroom : ∀ addr ∈ room, init addr = none)
    (hlive : state.env.exitCode = none) : ∃ event next, Silent code state event next := by
  obtain ⟨env, frames⟩ := state
  cases frames with
  | nil =>
      cases hmain : env.main with
      | printf => exact ⟨.main, _, .main (.printf hlive hmain), by simp⟩
      | ret => exact ⟨.main, _, .main (.ret hlive hmain), by simp⟩
  | cons pc rest =>
      have hact : ∃ env' after, Act code env pc env' after := by
        cases pc with
        | count => exact ⟨_, _, .count⟩
        | timerDelete => exact ⟨_, _, .timerDelete⟩
        | printf => exact ⟨_, _, .printf⟩
        | exit => exact ⟨_, _, .exit⟩
        | test testPc =>
            have hfew := (h.counts.testing.trans (min_le_right _ _)).trans hcard
            obtain ⟨maps', after, htest⟩ :=
              exists_act_of_kept hfetchable h.kept rfl room hroom hfew
            exact ⟨_, _, .test htest⟩
      obtain ⟨env', after, hact⟩ := hact
      exact ⟨.run, _, .run ⟨hlive, hact⟩, by simp⟩

theorem Inv.silent_run (h : Inv code init events state) {events' : List Event}
    {later : State Env Pc} (hrun : Run (Silent code) state events' later) :
    Inv code init (events ++ events') later := by
  apply hrun.invariant_history (fun past s => Inv code init (events ++ past) s)
  · intro past s event next hinv hstep
    rw [← List.append_assoc]
    exact hinv.step hstep.1
  · simpa using h

theorem count_signal_of_silent {events' : List Event} {later : State Env Pc}
    (hrun : Run (Silent code) state events' later) : events'.count .signal = 0 := by
  induction hrun with
  | refl => rfl
  | cons hstep _ ih => simp [ih, hstep.2]

/-! ### The code -/

/-- What `test` maps. -/
def code1 (codeSize : Nat) (file : Nat → Byte) : Code :=
  mappedCode codeSize (SignalsNested.gencode codeSize file).code

theorem not_returned_of_reached (hsize : 100 < codeSize)
    (h : Reached (code1 codeSize file) cpu fetched) : cpu.returned = false := by
  obtain ⟨eax, zf, fetches, hrun, -⟩ := h
  exact SignalsNested.not_returned hsize hrun

theorem fetchable_code1 (hsize : 100 < codeSize) (file : Nat → Byte) :
    Fetchable (code1 codeSize file) := by
  rintro cpu fetched ⟨eax, zf, fetches, hrun, -⟩ hlive
  have hcount : 0 < blockCount codeSize := by
    rw [blockCount]
    omega
  have hplaced : Placed (code1 codeSize file) 0 SignalsNested.block.toList :=
    placed_block SignalsNested.block codeSize file hsize.le hcount
  obtain ⟨hmov, hadd, hjnz⟩ := placed_loop (SignalsNested.block_eq ▸ hplaced)
  rw [Nat.zero_add] at hadd hjnz
  have hin := hrun.invariant SignalsNested.InFirstBlock
    (SignalsNested.inFirstBlock_step hplaced) ⟨rfl, Or.inl rfl⟩
  obtain ⟨-, hip | ⟨hip, -⟩ | ⟨hip, -, hzf⟩⟩ := hin
  · exact ⟨_, _, step_of_placed (hip ▸ hmov) hlive (exec_movEax _)⟩
  · exact ⟨_, _, step_of_placed (hip ▸ hadd) hlive (exec_addEax _ _ rfl)⟩
  · have hback : (cpu.ip : Int) + 2 + (0xF9 : BitVec 8).toInt = (5 : Nat) := by
      rw [hip]
      decide
    exact ⟨_, _, step_of_placed (hip ▸ hjnz) hlive (exec_jnz_of_not_zero hzf hback)⟩

/-! ### Piling up -/

/-- The handler has not come back from a call. -/
def Pc.firstCall : Pc → Prop
  | .test (.loop i) => i = 0
  | .test (.call i _ _ _) => i = 0
  | _ => True

/-- Every handler that was entered is still active. -/
structure Piled (events : List Event) (state : State Env Pc) : Prop where
  length : state.frames.length = events.count .signal
  firstCall : ∀ pc ∈ state.frames, pc.firstCall
  exitCode : state.env.exitCode = some 1 → events.count .signal = 0

theorem piled_start (init : Addr → Option Code) : Piled [] (start init) where
  length := rfl
  firstCall := by simp [start]
  exitCode := by simp [start]

theorem firstCall_act (hsize : 100 < codeSize)
    (hok : FrameOk (code1 codeSize file) 10 Pc.inTest Env.maps env pc) (h : pc.firstCall)
    (hact : Act (code1 codeSize file) env pc env' after) :
    ∃ pc', after = some pc' ∧ pc'.firstCall
      ∧ (env'.exitCode = some 1 → env.exitCode = some 1) := by
  cases hact with
  | count =>
      refine ⟨_, rfl, ?_, id⟩
      rcases afterCount_cases env.sigcount with ⟨-, hafter⟩ | ⟨-, hafter⟩ <;>
        simp [Pc.firstCall, hafter]
  | exit => exact ⟨_, rfl, trivial, by simp⟩
  | timerDelete | printf => exact ⟨_, rfl, trivial, id⟩
  | test htest =>
      have hok := hok _ rfl
      cases htest with
      | munmap hreturned =>
          rw [not_returned_of_reached hsize hok.2.2] at hreturned
          cases hreturned
      | @ret i hge =>
          have hzero : i = 0 := h
          omega
      | mmap | fetch => exact ⟨_, rfl, h, id⟩

theorem Piled.step (hsize : 100 < codeSize) (hinv : Inv (code1 codeSize file) init events state)
    (h : Piled events state)
    (hstep : Interrupts.Step (program (code1 codeSize file)) state event next) :
    Piled (events ++ [event]) next := by
  cases hstep with
  | @signal env env' pc frames henter =>
      obtain ⟨hlive⟩ := henter
      refine ⟨by simp [h.length], ?_, by simp [hlive]⟩
      intro other hother
      rcases List.mem_cons.mp hother with rfl | hother
      · trivial
      · exact h.firstCall other hother
  | @run env env' pc after rest hact =>
      have hok := hinv.kept.separate.ok pc List.mem_cons_self
      obtain ⟨pc', rfl, hfirst, hexit⟩ :=
        firstCall_act hsize hok (h.firstCall pc List.mem_cons_self) hact.2
      refine ⟨by simpa using h.length, ?_, by simpa using h.exitCode ∘ hexit⟩
      intro other hother
      rcases List.mem_cons.mp hother with rfl | hother
      · exact hfirst
      · exact h.firstCall other (List.mem_cons_of_mem _ hother)
  | main =>
      have hnone : events.count .signal = 0 := by simpa using h.length.symm
      exact ⟨by simpa using h.length, h.firstCall, fun _ => by simpa using hnone⟩

theorem piled_run (hsize : 100 < codeSize)
    (hrun : Run (Interrupts.Step (program (code1 codeSize file))) (start init) events state) :
    Piled events state := by
  have hboth : Inv (code1 codeSize file) init events state ∧ Piled events state := by
    apply hrun.invariant_history fun past s =>
      Inv (code1 codeSize file) init past s ∧ Piled past s
    · rintro past s event next ⟨hinv, h⟩ hstep
      exact ⟨hinv.step hstep, h.step hsize hinv hstep⟩
    · exact ⟨inv_start _ init, piled_start init⟩
  exact hboth.2

/-- **`signals-nested.cpp` never unwinds.** As soon as its code has a block, no handler returns, and
each is still in its first call of `test`, or at its count, or leaving. So `main` returns only if no
signal has come; after up to a thousand signals the process lives on, however many steps it makes;
and when it exits, more than a thousand handlers are active. -/
theorem handlers_never_return (codeSize : Nat) (hsize : 100 < codeSize) (file : Nat → Byte)
    (init : Addr → Option Code) (room : Finset Addr) (hcard : 1000 ≤ room.card)
    (hroom : ∀ addr ∈ room, init addr = none) (events : List Event) (state : State Env Pc)
    (hrun : Run (Interrupts.Step (program (code1 codeSize file))) (start init) events state) :
    state.frames.length = events.count .signal
      ∧ (∀ pc ∈ state.frames, pc.firstCall)
      ∧ (state.env.exitCode = some 1 → events.count .signal = 0)
      ∧ (state.env.exitCode = some 0 → 1001 ≤ state.frames.length)
      ∧ (0 < events.count .signal → events.count .signal ≤ 1000 → ∀ n, ∃ events' later,
          Run (Silent (code1 codeSize file)) state events' later ∧ events'.length = n
            ∧ later.env.exitCode = none) := by
  have hinv := inv_run hrun
  have hpiled := piled_run hsize hrun
  refine ⟨hpiled.length, hpiled.firstCall, hpiled.exitCode, ?_, ?_⟩
  · intro hzero
    rw [hpiled.length]
    rcases hinv.ended with hlive | ⟨hone, -⟩ | ⟨-, hmany, -⟩
    · simp [hzero] at hlive
    · simp [hzero] at hone
    · exact hmany
  · intro hsome hfew n
    have hlives : ∀ events' later, Run (Silent (code1 codeSize file)) state events' later →
        later.env.exitCode = none := by
      intro events' later hsilent
      have hlater := hrun.trans (hsilent.mono fun _ _ _ hstep => hstep.1)
      have hsignals : (events ++ events').count .signal = events.count .signal := by
        rw [List.count_append, count_signal_of_silent hsilent, Nat.add_zero]
      rcases (inv_run hlater).ended with hlive | ⟨hone, -⟩ | ⟨-, hmany, -⟩
      · exact hlive
      · have hnone := (piled_run hsize hlater).exitCode hone
        omega
      · omega
    induction n with
    | zero => exact ⟨[], state, .refl state, rfl, hlives _ _ (.refl state)⟩
    | succ n ih =>
        obtain ⟨events', later, hsilent, hlength, hlive⟩ := ih
        obtain ⟨event, next, hstep⟩ := (hinv.silent_run hsilent).exists_silent
          (fetchable_code1 hsize file) room hcard hroom hlive
        have hnext := hsilent.snoc hstep
        exact ⟨_, next, hnext, by simp [hlength], hlives _ _ hnext⟩

/-- One signal is enough for the process to live on, with the `CODE_SIZE` of the source. -/
theorem handlers_never_return_four_mib : ∃ state,
    Run (Interrupts.Step (program (code1 (4 * 1024 * 1024) fun _ => 0))) (start fun _ => none)
        [.signal] state
      ∧ ∀ n, ∃ events' later,
        Run (Silent (code1 (4 * 1024 * 1024) fun _ => 0)) state events' later
          ∧ events'.length = n ∧ later.env.exitCode = none := by
  have hrun : Run (Interrupts.Step (program (code1 (4 * 1024 * 1024) fun _ => 0)))
      (start fun _ => none) [.signal] _ := .single (.signal (⟨rfl⟩ : Enter _ _ .count))
  exact ⟨_, hrun, (handlers_never_return (4 * 1024 * 1024) (by decide) (fun _ => 0)
    (fun _ => none) (firstAddrs 1000) (card_firstAddrs (by decide)).ge (fun _ _ => rfl) _ _
    hrun).2.2.2.2 (by decide) (by decide)⟩

end FexTestBins.SignalsNestedMain
