import FexTestBins.Library.Transition
import FexTestBins.Proof.AllocParse
import FexTestBins.ReadScripts
import Mathlib.Data.List.Basic
import Mathlib.Data.List.ReduceOption

/-!
# The loop of `StealMemoryRegion`

Between two reads the buffer is used up byte by byte, so a `read` that returns a piece of text has
the effect of that piece on the variables, and one that returns nothing between two lines ends the
loop. On a frozen text this gives the whole run, wherever the pieces were cut.
-/

namespace FexTestBins.Alloc

open Words IntervalGaps Transition

variable {σ : Type} {kernel : Kernel σ} {args : Args} {s : State σ} {k : σ}

def freeGaps (args : Args) (lines : List MapsLine) : List (Word × Word) :=
  gaps args.beginAddr args.endAddr 0 (lines.map MapsLine.region)

/-- The program after the whole listing and the end of the file: all gaps are taken. -/
def finalProgram (args : Args) (lines : List MapsLine) : Vars Unit :=
  ((Vars.init args ()).reserveAll noKernel args (freeGaps args lines)).setParser .parseBegin 0
    (lastEnd 0 (lines.map MapsLine.region))

/-- The whole stream byte by byte, and then the end of the file. -/
def wholeProgram (args : Args) (bytes : List Byte) : Vars Unit :=
  let v := (Vars.init args ()).consumeAll noKernel args bytes
  v.reserve noKernel args (max v.regionEnd args.beginAddr) args.endAddr

namespace State

def Idle (s : State σ) : Prop := s.pc = .top ∧ s.remaining = 0

/-- The bytes in the buffer that are still to be consumed. -/
structure Holds (s : State σ) (bytes : List Byte) : Prop where
  remaining : s.remaining = bytes.length
  buffer : ∀ j (hj : j < bytes.length), s.buffer (s.cursor + j) = bytes[j]

variable {c : Byte} {bytes : List Byte}

theorem Holds.remaining_ne_zero (h : s.Holds (c :: bytes)) : s.remaining ≠ 0 := by
  rw [h.remaining, List.length_cons]
  omega

theorem Holds.nextByte (kernel : Kernel σ) (args : Args) (h : s.Holds (c :: bytes)) :
    (s.nextByte kernel args).Holds bytes
      ∧ (s.nextByte kernel args).vars = s.vars.consume kernel args c := by
  refine ⟨⟨?_, ?_⟩, ?_⟩
  · simp only [State.nextByte, h.remaining, List.length_cons]
    omega
  · intro j hj
    have hbyte := h.buffer (j + 1) (by simpa using hj)
    have hshift : s.cursor + 1 + j = s.cursor + (j + 1) := by omega
    simpa only [State.nextByte, hshift, List.getElem_cons_succ] using hbyte
  · have hbyte : s.buffer s.cursor = c := h.buffer 0 (by simp)
    rw [State.nextByte, hbyte]

theorem step_body (kernel : Kernel σ) (args : Args) (hpc : s.pc = .body)
    (h : s.Holds (c :: bytes)) : s.step kernel args = s.nextByte kernel args := by
  rw [step, hpc]
  apply if_neg
  rintro ⟨hend, -⟩
  exact h.remaining_ne_zero hend

theorem consumed_body (hpc : s.pc = .body) (h : s.Holds (c :: bytes)) : s.consumed = some c := by
  have hbyte : s.buffer s.cursor = c := h.buffer 0 (by simp)
  rw [consumed, if_pos, hbyte]
  refine ⟨hpc, ?_⟩
  rintro ⟨hend, -⟩
  exact h.remaining_ne_zero hend

theorem consumed_top (hpc : s.pc = .top) : s.consumed = none := by
  apply if_neg
  rintro ⟨hbody, -⟩
  rw [hpc] at hbody
  cases hbody

/-- **The buffer.** What is in it is consumed, and only then the loop comes to the next read. -/
theorem run_buffered (kernel : Kernel σ) (args : Args) (hpc : s.pc = .body)
    (h : s.Holds (c :: bytes)) :
    ∃ labels, ∃ s' : State σ, Run (ByteStep kernel args) s labels s' ∧ s'.Idle
      ∧ labels.reduceOption = c :: bytes
      ∧ s'.vars = s.vars.consumeAll kernel args (c :: bytes) := by
  induction bytes generalizing s c with
  | nil =>
      obtain ⟨hholds, hvars⟩ := h.nextByte kernel args
      have hbyte : ByteStep kernel args s (some c) (s.nextByte kernel args) :=
        ⟨(consumed_body hpc h).symm, step_body kernel args hpc h⟩
      exact ⟨[some c], _, .single hbyte, ⟨rfl, hholds.remaining⟩, rfl, hvars⟩
  | cons c' bytes ih =>
      have hbyte : ByteStep kernel args s (some c) (s.nextByte kernel args) :=
        ⟨(consumed_body hpc h).symm, step_body kernel args hpc h⟩
      obtain ⟨hholds, hvars⟩ := h.nextByte kernel args
      have hagain : ByteStep kernel args (s.nextByte kernel args) none
          { s.nextByte kernel args with pc := .body } :=
        ⟨(consumed_top rfl).symm, if_neg hholds.remaining_ne_zero⟩
      obtain ⟨labels, s', hrun, hidle, hlabels, hvars'⟩ :=
        @ih { s.nextByte kernel args with pc := .body } c' rfl ⟨hholds.1, hholds.2⟩
      refine ⟨some c :: none :: labels, s', .cons hbyte (.cons hagain hrun), hidle, ?_, ?_⟩
      · rw [List.reduceOption_cons_of_some, List.reduceOption_cons_of_none, hlabels]
      · rw [hvars']
        exact congrArg (Vars.consumeAll kernel args · (c' :: bytes)) hvars

theorem step_idle (hidle : s.Idle) : s.step kernel args = s.refill kernel := by
  obtain ⟨hpc, hremaining⟩ := hidle
  rw [step, hpc]
  exact if_pos hremaining

theorem byteStep_idle (hidle : s.Idle) : ByteStep kernel args s none (s.refill kernel) :=
  ⟨(consumed_top hidle.1).symm, step_idle hidle⟩

theorem refill_data (hread : kernel.read s.vars.kernel = (.data bytes, k)) : s.refill kernel =
    { vars := { s.vars with kernel := k }
      buffer := fun i => bytes.getD i (s.buffer i)
      cursor := 0
      remaining := bytes.length
      pc := .body } := by
  rw [refill, hread]

theorem holds_refill (hread : kernel.read s.vars.kernel = (.data bytes, k)) :
    (s.refill kernel).Holds bytes := by
  rw [refill_data hread]
  refine ⟨rfl, ?_⟩
  intro j hj
  rw [Nat.zero_add]
  exact List.getD_eq_getElem _ _ hj

theorem refill_again (hread : kernel.read s.vars.kernel = (.error eagain, k)) :
    s.refill kernel = { s with vars := { s.vars with kernel := k } } := by
  rw [refill, hread]
  exact if_pos rfl

theorem refill_error {errno : Nat} (hread : kernel.read s.vars.kernel = (.error errno, k))
    (herrno : errno ≠ eagain) : s.refill kernel = { s with
      vars := { s.vars with kernel := k }, cursor := 0, remaining := -1, pc := .body } := by
  rw [refill, hread]
  exact if_neg herrno

/-- A read that returns a piece of text: its bytes are consumed. -/
theorem run_piece (args : Args) (hidle : s.Idle) (hpiece : bytes ≠ [])
    (hread : kernel.read s.vars.kernel = (.data bytes, k)) :
    ∃ labels, ∃ s' : State σ, Run (ByteStep kernel args) s labels s' ∧ s'.Idle
      ∧ labels.reduceOption = bytes
      ∧ s'.vars = { s.vars with kernel := k }.consumeAll kernel args bytes := by
  obtain ⟨c, bytes, rfl⟩ := List.exists_cons_of_ne_nil hpiece
  have hrefill := refill_data hread
  obtain ⟨labels, s', hrun, hidle', hlabels, hvars⟩ :=
    run_buffered kernel args (by rw [hrefill]) (holds_refill hread)
  refine ⟨none :: labels, s', .cons (byteStep_idle hidle) hrun, hidle', ?_, ?_⟩
  · rw [List.reduceOption_cons_of_none, hlabels]
  · rw [hvars, hrefill]

theorem run_again (args : Args) (hidle : s.Idle)
    (hread : kernel.read s.vars.kernel = (.error eagain, k)) :
    ∃ s' : State σ, Run (ByteStep kernel args) s [none] s' ∧ s'.Idle
      ∧ s'.vars = { s.vars with kernel := k } := by
  refine ⟨_, .single (byteStep_idle hidle), ?_, ?_⟩
  · rw [refill_again hread]
    exact hidle
  · rw [refill_again hread]

/-- A read that returns nothing between two lines: the last gap is taken, and the loop ends. -/
theorem run_end (args : Args) (hidle : s.Idle)
    (hread : kernel.read s.vars.kernel = (.data [], k)) (hstate : s.vars.state = .parseBegin) :
    ∃ s' : State σ, Run (ByteStep kernel args) s [none, none] s'
      ∧ s'.pc = .afterGrab (args.alloca 0)
      ∧ s'.vars = { s.vars with kernel := k }.reserve kernel args
          (max s.vars.regionEnd args.beginAddr) args.endAddr := by
  have hrefill := refill_data hread
  have hend : (s.refill kernel).step kernel args = (s.refill kernel).endOfFile kernel args := by
    rw [hrefill]
    exact if_pos ⟨rfl, hstate⟩
  have hconsumed : (s.refill kernel).consumed = none := by
    rw [hrefill]
    apply if_neg
    rintro ⟨-, hnot⟩
    exact hnot ⟨rfl, hstate⟩
  refine ⟨_, .cons (byteStep_idle hidle) (.single ⟨hconsumed.symm, hend⟩), rfl, ?_⟩
  rw [hrefill]
  rfl

theorem iterates_of_run {s' : State σ} {labels : List (Option Byte)}
    (hrun : Run (ByteStep kernel args) s labels s') : Iterates (step kernel args) s s' := by
  apply Iterates.of_run _ hrun
  rintro state label next ⟨-, hstep⟩
  exact hstep

theorem run_end_of_stream (hidle : s.Idle) (hread : kernel.read s.vars.kernel = (.data [], k))
    (hprogram : s.vars.program = (Vars.init args ()).consumeAll noKernel args bytes)
    (hstate : ((Vars.init args ()).consumeAll noKernel args bytes).state = .parseBegin) :
    ∃ s' : State σ, Run (ByteStep kernel args) s [none, none] s'
      ∧ s'.pc = .afterGrab (args.alloca 0)
      ∧ s'.vars = { s.vars with kernel := k }.reserve kernel args
          (max s.vars.regionEnd args.beginAddr) args.endAddr
      ∧ s'.vars.program = wholeProgram args bytes := by
  rw [← hprogram] at hstate
  obtain ⟨s', hrun, hpc, hvars⟩ := run_end args hidle hread hstate
  refine ⟨s', hrun, hpc, hvars, ?_⟩
  have hkernel : { s.vars with kernel := k }.program = s.vars.program := rfl
  have hregionEnd : s.vars.regionEnd = s.vars.program.regionEnd := rfl
  rw [hvars, Vars.program_reserve, hkernel, hregionEnd, hprogram]
  rfl

/-! ### Kernels whose reads are foreseeable -/

/-- What is left to read is known, and no `mmap` changes it. -/
structure Serves (kernel : Kernel σ) (Left : σ → List ReadResult → Prop) : Prop where
  read : ∀ k result results, Left k (result :: results) →
    ∃ k', kernel.read k = (result, k') ∧ Left k' results
  mmap : ∀ k results mapBegin mapSize, Left k results →
    Left (kernel.mmap k mapBegin mapSize) results

theorem Serves.made {Left : σ → List ReadResult → Prop} (h : Serves kernel Left) {v v' : Vars σ}
    {results : List ReadResult} (hmade : Vars.Made kernel v v') (hleft : Left v.kernel results) :
    Left v'.kernel results := by
  obtain ⟨made, -, hkernel⟩ := hmade
  rw [hkernel]
  apply List.foldlRecOn made (motive := (Left · results)) _ hleft
  intro k hk call _
  exact h.mmap k results call.1 call.2 hk

/-- **A list of reads.** Whatever pieces they deliver, the bytes are consumed as if they had come at
once. -/
theorem run_results {Left : σ → List ReadResult → Prop} (hserves : Serves kernel Left)
    (args : Args) {results : List ReadResult} (hresults : ∀ result ∈ results, ¬ result.Final)
    (hidle : s.Idle) (hleft : Left s.vars.kernel results) :
    ∃ labels, ∃ s' : State σ, Run (ByteStep kernel args) s labels s' ∧ s'.Idle
      ∧ Left s'.vars.kernel []
      ∧ labels.reduceOption = results.flatMap ReadResult.bytes
      ∧ s'.vars.program
        = s.vars.program.consumeAll noKernel args (results.flatMap ReadResult.bytes) := by
  induction results generalizing s with
  | nil => exact ⟨[], s, .refl s, hidle, hleft, rfl, rfl⟩
  | cons result results ih =>
      obtain ⟨hresult, hrest⟩ := List.forall_mem_cons.mp hresults
      obtain ⟨k, hread, hnext⟩ := hserves.read _ _ _ hleft
      cases result with
      | data bytes =>
          obtain ⟨labels, middle, hrun, hidle', hlabels, hvars⟩ :=
            run_piece args hidle hresult hread
          have hmade := Vars.made_consumeAll kernel args { s.vars with kernel := k } bytes
          rw [← hvars] at hmade
          obtain ⟨labels', s', hrun', hidle'', hlast, hlabels', hprogram⟩ :=
            ih hrest hidle' (hserves.made hmade hnext)
          refine ⟨labels ++ labels', s', hrun.trans hrun', hidle'', hlast, ?_, ?_⟩
          · rw [List.reduceOption_append, hlabels, hlabels']
            rfl
          · rw [hprogram, hvars, Vars.program_consumeAll, ← Vars.consumeAll_append]
            rfl
      | error errno =>
          obtain rfl : errno = eagain := not_not.mp hresult
          obtain ⟨middle, hrun, hidle', hvars⟩ := run_again args hidle hread
          have hnext' : Left middle.vars.kernel results := by rwa [hvars]
          obtain ⟨labels', s', hrun', hidle'', hlast, hlabels', hprogram⟩ :=
            ih hrest hidle' hnext'
          refine ⟨[none] ++ labels', s', hrun.trans hrun', hidle'', hlast, hlabels', ?_⟩
          rw [hprogram, hvars]
          rfl

end State

/-! ### A frozen text -/

theorem consumeAll_init_mapsText (args : Args) (lines : List MapsLine) :
    (Vars.init args ()).consumeAll noKernel args (mapsText lines)
      = ((Vars.init args ()).reserveAll noKernel args (gapsBefore args.beginAddr args.endAddr 0
          (lines.map MapsLine.region))).setParser .parseBegin 0
            (lastEnd 0 (lines.map MapsLine.region)) := by
  have hinit : Vars.init args () = (Vars.init args ()).setParser .parseBegin 0 0 := rfl
  conv_lhs => rw [hinit]
  exact Vars.consumeAll_mapsText lines

theorem wholeProgram_mapsText (args : Args) (lines : List MapsLine) :
    wholeProgram args (mapsText lines) = finalProgram args lines := by
  unfold wholeProgram
  rw [consumeAll_init_mapsText, Vars.reserve_setParser, Vars.reserve_eq_reserveAll,
    ← Vars.reserveAll_append]
  rfl

namespace State

theorem run_end_of_text {lines : List MapsLine} (hidle : s.Idle)
    (hread : kernel.read s.vars.kernel = (.data [], k))
    (hprogram : s.vars.program = (Vars.init args ()).consumeAll noKernel args (mapsText lines)) :
    ∃ s' : State σ, Run (ByteStep kernel args) s [none, none] s'
      ∧ s'.pc = .afterGrab (args.alloca 0)
      ∧ s'.vars = { s.vars with kernel := k }.reserve kernel args
          (max s.vars.regionEnd args.beginAddr) args.endAddr
      ∧ s'.vars.program = finalProgram args lines := by
  have hstate : ((Vars.init args ()).consumeAll noKernel args (mapsText lines)).state
      = .parseBegin := by
    rw [consumeAll_init_mapsText]
    rfl
  rw [← wholeProgram_mapsText]
  exact run_end_of_stream hidle hread hprogram hstate

theorem serves_frozen : Serves frozenKernel fun pieces results => pieces.map .data = results where
  read := by
    intro pieces result results hleft
    obtain ⟨piece, rest, rfl, rfl, hrest⟩ := List.map_eq_cons_iff.mp hleft
    exact ⟨rest, rfl, hrest⟩
  mmap := fun _ _ _ _ hleft => hleft

/-- **The run on a frozen text.** Wherever it is cut, the loop ends and all gaps are taken. -/
theorem iterates_frozen (args : Args) {lines : List MapsLine} (delivery : Delivery (mapsText lines))
    (buffer : Nat → Byte) : ∃ final : State (List (List Byte)),
    Iterates (step frozenKernel args) (start args delivery.pieces buffer) final
      ∧ final.pc = .afterGrab (args.alloca 0)
      ∧ final.vars.program = finalProgram args lines := by
  have hresults : ∀ result ∈ delivery.pieces.map ReadResult.data, ¬ result.Final := by
    intro result hresult
    obtain ⟨piece, hpiece, rfl⟩ := List.mem_map.mp hresult
    exact delivery.nonempty piece hpiece
  obtain ⟨labels, s, hrun, hidle, hkernel, -, hprogram⟩ := run_results serves_frozen args hresults
    (s := start args delivery.pieces buffer) ⟨rfl, rfl⟩ rfl
  have htext : (delivery.pieces.map ReadResult.data).flatMap ReadResult.bytes = mapsText lines := by
    rw [List.flatMap_map]
    exact List.flatMap_id.trans delivery.flatten_eq
  rw [htext] at hprogram
  have hread : frozenKernel.read s.vars.kernel = (.data [], []) := by
    rw [List.map_eq_nil_iff.mp hkernel]
    rfl
  obtain ⟨final, hlast, hpc, -, hfinal⟩ := run_end_of_text hidle hread hprogram
  exact ⟨final, iterates_of_run (hrun.trans hlast), hpc, hfinal⟩

end State

end FexTestBins.Alloc
