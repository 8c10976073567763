import FexTestBins.Proof.ScriptRuns

/-!
# Where the parser stays inside its input

Anything but the end of the file at a begin address leaves `Remaining` at -1, or at zero in the
middle of a line. The next byte is then taken from behind what was read.
-/

namespace FexTestBins.Alloc

open Words Transition

/-- Lines that the parser takes as complete, and behind them no dash yet. -/
inductive BeforeDash : List Byte → Prop
  | field {bytes : List Byte} : ascii '-' ∉ bytes → BeforeDash bytes
  | line {first second rest bytes : List Byte} : ascii '-' ∉ first → ascii ' ' ∉ second →
      ascii '\n' ∉ rest → BeforeDash bytes →
      BeforeDash (first ++ ascii '-' :: (second ++ ascii ' ' :: (rest ++ ascii '\n' :: bytes)))

/-- **The promise.** Bytes are only taken from what the last read delivered, and when a read has
returned nothing or a final error, the loop ends without another read. -/
def StaysInside (script : Script) (args : Args) (buffer : Nat → Byte) : Prop :=
  ∀ labels s, Run (State.ByteStep script.kernel args) (State.start args .init buffer) labels s →
    s.InsideInput script
      ∧ ∀ i < s.vars.kernel.reads, (script.result i).Final → ∃ labels' final,
        Run (State.ByteStep script.kernel args) s labels' final
          ∧ final.pc = .afterGrab (args.alloca 0) ∧ final.vars.kernel.reads = i + 1

variable {script : Script} {args : Args} {buffer : Nat → Byte} {bytes : List Byte}

/-! ### Complete lines -/

namespace ParseState

/-- The byte that the parser looks for. -/
def stop : ParseState → Byte
  | .parseBegin => ascii '-'
  | .parseEnd => ascii ' '
  | .scanEnd => ascii '\n'

theorem next_of_ne_stop {c : Byte} (state : ParseState) (hc : c ≠ state.stop) :
    state.next c = state := by
  cases state with
  | parseBegin => exact if_neg hc
  | parseEnd => exact if_neg hc
  | scanEnd => exact if_neg hc

theorem foldl_next (state : ParseState) (hbytes : state.stop ∉ bytes) :
    bytes.foldl next state = state := by
  apply List.foldlRecOn bytes (motive := (· = state)) next rfl
  intro current hcurrent c hc
  rw [hcurrent]
  apply next_of_ne_stop
  rintro rfl
  exact hbytes hc

theorem foldl_stop (state : ParseState) (hbytes : state.stop ∉ bytes) (rest : List Byte) :
    (bytes ++ state.stop :: rest).foldl next state = rest.foldl next (state.next state.stop) := by
  rw [List.foldl_append, foldl_next state hbytes, List.foldl_cons]

theorem after_dash {first rest : List Byte} (hfirst : ascii '-' ∉ first) :
    after (first ++ ascii '-' :: rest) = rest.foldl next .parseEnd :=
  foldl_stop .parseBegin hfirst rest

theorem foldl_space {second rest : List Byte} (hsecond : ascii ' ' ∉ second) :
    (second ++ ascii ' ' :: rest).foldl next .parseEnd = rest.foldl next .scanEnd :=
  foldl_stop .parseEnd hsecond rest

theorem foldl_newline {rest : List Byte} (hrest : ascii '\n' ∉ rest) :
    (rest ++ ascii '\n' :: bytes).foldl next .scanEnd = after bytes :=
  foldl_stop .scanEnd hrest bytes

/-- The state is `ParseBegin` exactly behind complete lines and before a dash. -/
theorem after_eq_parseBegin_iff (bytes : List Byte) :
    after bytes = .parseBegin ↔ BeforeDash bytes := by
  constructor
  · intro hafter
    induction hlength : bytes.length using Nat.strong_induction_on generalizing bytes with
    | _ length ih =>
        by_cases hdash : ascii '-' ∈ bytes
        · obtain ⟨first, bytes, rfl, hfirst⟩ := List.eq_append_cons_of_mem hdash
          rw [after_dash hfirst] at hafter
          by_cases hspace : ascii ' ' ∈ bytes
          · obtain ⟨second, bytes, rfl, hsecond⟩ := List.eq_append_cons_of_mem hspace
            rw [foldl_space hsecond] at hafter
            by_cases hnewline : ascii '\n' ∈ bytes
            · obtain ⟨rest, bytes, rfl, hrest⟩ := List.eq_append_cons_of_mem hnewline
              rw [foldl_newline hrest] at hafter
              apply BeforeDash.line hfirst hsecond hrest
              apply ih bytes.length _ bytes hafter rfl
              simp only [← hlength, List.length_append, List.length_cons]
              omega
            · rw [foldl_next .scanEnd hnewline] at hafter
              cases hafter
          · rw [foldl_next .parseEnd hspace] at hafter
            cases hafter
        · exact .field hdash
  · intro hlines
    induction hlines with
    | field hdash => exact foldl_next .parseBegin hdash
    | line hfirst hsecond hrest _ ih =>
        rw [after_dash hfirst, foldl_space hsecond, foldl_newline hrest, ih]

end ParseState

/-! ### The end of the loop -/

namespace State

theorem Ending.run {s : State Scripted} (h : Ending script args s) :
    ∃ labels final, Run (ByteStep script.kernel args) s labels final
      ∧ final.pc = .afterGrab (args.alloca 0)
      ∧ final.vars.kernel.reads = s.vars.kernel.reads := by
  rcases h.pc with ⟨hbody, hend⟩ | hgrab
  · exact ⟨_, _, .single (byteStep_body hbody hend), rfl,
      Script.reads_made (Vars.made_reserve script.kernel args s.vars _ _)⟩
  · exact ⟨[], s, .refl s, hgrab, rfl⟩

theorem Inside.ends {s : State Scripted} (h : Inside script args s) {i : Nat}
    (hi : i < s.vars.kernel.reads) (hfinal : (script.result i).Final) :
    ∃ labels final, Run (ByteStep script.kernel args) s labels final
      ∧ final.pc = .afterGrab (args.alloca 0) ∧ final.vars.kernel.reads = i + 1 := by
  rcases h with ⟨left, hfeeding⟩ | hending
  · exact absurd hfinal (hfeeding.not_final i hi)
  · obtain ⟨last, hlast, -, hbefore⟩ := hending.last
    have heq : i = last := by
      by_contra hne
      exact hbefore i (by omega) hfinal
    obtain ⟨labels, final, hrun, hpc, hreads⟩ := hending.run
    exact ⟨labels, final, hrun, hpc, by rw [hreads, hlast, heq]⟩

/-- After a final result that is not the end of the file at a begin address, a byte is taken that
was not read. -/
theorem not_insideInput_refill {s : State Scripted}
    (hfinal : (script.result s.vars.kernel.reads).Final)
    (hbad : ¬ (script.result s.vars.kernel.reads = .data [] ∧ s.vars.state = .parseBegin)) :
    ¬ (s.refill script.kernel).InsideInput script := by
  intro hinside
  have hread := script.read_kernel s.vars.kernel
  cases hresult : script.result s.vars.kernel.reads with
  | data bytes =>
      rw [hresult] at hread hfinal hbad
      obtain rfl : bytes = [] := hfinal
      rw [refill_data hread] at hinside
      obtain ⟨hpos, -⟩ := hinside _ (if_pos ⟨rfl, fun h => hbad ⟨rfl, h.2⟩⟩)
      exact absurd hpos (lt_irrefl _)
  | error errno =>
      rw [hresult] at hread hfinal
      rw [refill_error hread hfinal] at hinside
      obtain ⟨hpos, -⟩ := hinside _ (if_pos ⟨rfl, fun h => absurd h.1 (by decide : (-1 : Int) ≠ 0)⟩)
      exact absurd hpos (by decide : ¬ (0 : Int) < -1)

end State

/-- **When the parser stays inside its input.** Exactly if the first result of `read` that is
neither a positive count nor `EAGAIN`, if one comes, is zero, and the bytes before it are complete
lines and the part of a line before its dash. -/
theorem staysInside_iff (script : Script) (args : Args) (buffer : Nat → Byte) :
    StaysInside script args buffer ↔
      ∀ reads, script.FirstFinal reads →
        script.result reads = .data [] ∧ BeforeDash (script.delivered reads) := by
  simp only [← ParseState.after_eq_parseBegin_iff]
  constructor
  · intro hstays reads hfirst
    obtain ⟨labels, s, hrun, hidle, hreads, -, hprogram⟩ :=
      State.run_delivered args buffer hfirst.2
    have hstate : s.vars.state = ParseState.after (script.delivered reads) := by
      rw [← Vars.state_consumeAll args, ← hprogram]
      rfl
    by_contra hbad
    subst hreads
    rw [← hstate] at hbad
    exact State.not_insideInput_refill hfirst.1 hbad
      (hstays _ _ (hrun.snoc (State.byteStep_idle hidle))).1
  · intro hgood labels s hrun
    have hinside := State.inside_run hgood hrun
    exact ⟨hinside.insideInput, fun i hi hfinal => hinside.ends hi hfinal⟩

/-- What `read` returns when `open` has failed: -1 with `EBADF`. -/
def closedScript : Script where
  result _ := .error 9
  succeeds _ := true

/-- Where `open` fails, the first byte is taken with `Remaining` at -1. -/
theorem not_staysInside_closed :
    ¬ StaysInside closedScript (stealArgs fun _ => 0x9000) fun _ => 0 := by
  intro hstays
  have hstep : State.ByteStep closedScript.kernel (stealArgs fun _ => 0x9000)
      (State.start (stealArgs fun _ => 0x9000) .init fun _ => 0) none _ := ⟨rfl, rfl⟩
  obtain ⟨hpos, -⟩ := (hstays _ _ (.single hstep)).1 _ rfl
  exact absurd hpos (by decide)

end FexTestBins.Alloc
