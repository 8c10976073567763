import FexTestBins.Proof.AllocLoop
import Mathlib.Data.List.Induction

/-!
# The loop on arbitrary reads

As long as no read has returned a final result, the bytes still in the buffer are the last ones of
what was delivered, and they are bytes of the last read. If the first final result is the end of the
file and the parser is at a line's begin address then, this holds for good. So the pieces in which a
stream arrives make no difference.
-/

namespace FexTestBins.Alloc

open Words Transition

/-! ### What the parser expects -/

def ParseState.next : ParseState → Byte → ParseState
  | .parseBegin, c => if c = ascii '-' then .parseEnd else .parseBegin
  | .parseEnd, c => if c = ascii ' ' then .scanEnd else .parseEnd
  | .scanEnd, c => if c = ascii '\n' then .parseBegin else .scanEnd

def ParseState.after (bytes : List Byte) : ParseState := bytes.foldl next .parseBegin

theorem ParseState.after_snoc (bytes : List Byte) (c : Byte) :
    after (bytes ++ [c]) = (after bytes).next c := by
  rw [after, List.foldl_append]
  rfl

variable {σ : Type} {kernel : Kernel σ} {args : Args} {script : Script}

theorem Vars.state_consume (v : Vars σ) (c : Byte) :
    (v.consume kernel args c).state = v.state.next c := by
  cases hstate : v.state with
  | parseBegin =>
      by_cases hc : c = ascii '-'
      · simp [consume, hstate, ParseState.next, hc]
      · simp [consume, hstate, ParseState.next, hc]
  | parseEnd =>
      by_cases hc : c = ascii ' '
      · simp [consume, hstate, ParseState.next, hc]
      · simp [consume, hstate, ParseState.next, hc]
  | scanEnd =>
      by_cases hc : c = ascii '\n'
      · simp [consume, hstate, ParseState.next, hc]
      · simp [consume, hstate, ParseState.next, hc]

theorem Vars.state_consumeAll (args : Args) (bytes : List Byte) :
    ((Vars.init args ()).consumeAll noKernel args bytes).state = ParseState.after bytes := by
  induction bytes using List.reverseRecOn with
  | nil => rfl
  | append_singleton bytes c ih =>
      rw [Vars.consumeAll_append, Vars.consumeAll_cons, Vars.consumeAll_nil, Vars.state_consume, ih,
        ParseState.after_snoc]

/-! ### What was delivered -/

theorem Script.read_kernel (script : Script) (k : Scripted) :
    script.kernel.read k = (script.result k.reads, { k with reads := k.reads + 1 }) := rfl

theorem Script.delivered_succ (script : Script) (reads : Nat) :
    script.delivered (reads + 1) = script.delivered reads ++ (script.result reads).bytes := by
  rw [delivered, List.range_succ, List.flatMap_append, List.flatMap_singleton]
  rfl

/-- The kernel has `reads` reads to go, and then these results are delivered. -/
def Script.Left (script : Script) (reads : Nat) (k : Scripted) (results : List ReadResult) : Prop :=
  k.reads + results.length = reads
    ∧ (List.range' k.reads results.length).map script.result = results

theorem Script.serves (script : Script) (reads : Nat) :
    State.Serves script.kernel (script.Left reads) where
  read := by
    rintro k result results ⟨hreads, hresults⟩
    rw [List.length_cons] at hreads
    rw [List.length_cons, List.range'_succ, List.map_cons] at hresults
    obtain ⟨rfl, hrest⟩ := List.cons.inj hresults
    refine ⟨_, rfl, ?_, hrest⟩
    change k.reads + 1 + results.length = reads
    omega
  mmap := fun _ _ _ _ hleft => hleft

theorem Script.reads_made {v v' : Vars Scripted} (hmade : Vars.Made script.kernel v v') :
    v'.kernel.reads = v.kernel.reads := by
  have hleft : script.Left v.kernel.reads v.kernel [] := ⟨rfl, rfl⟩
  exact ((script.serves v.kernel.reads).made hmade hleft).1

def Script.FirstFinal (script : Script) (reads : Nat) : Prop :=
  (script.result reads).Final ∧ ∀ i < reads, ¬ (script.result i).Final

/-- The first final result, if there is one, is the end of the file at a begin address. -/
def Script.EndsWell (script : Script) : Prop :=
  ∀ reads, script.FirstFinal reads →
    script.result reads = .data [] ∧ ParseState.after (script.delivered reads) = .parseBegin

namespace State

variable {s next : State Scripted} {left bytes : List Byte} {reads : Nat} {label : Option Byte}
  {labels : List (Option Byte)} {buffer : Nat → Byte}

/-- **Up to a final result.** All that was delivered is consumed. -/
theorem run_delivered (args : Args) (buffer : Nat → Byte)
    (hresults : ∀ i < reads, ¬ (script.result i).Final) :
    ∃ labels, ∃ s : State Scripted,
      Run (ByteStep script.kernel args) (start args .init buffer) labels s ∧ s.Idle
        ∧ s.vars.kernel.reads = reads
        ∧ labels.reduceOption = script.delivered reads
        ∧ s.vars.program
          = (Vars.init args ()).consumeAll noKernel args (script.delivered reads) := by
  have hnot : ∀ result ∈ (List.range' 0 reads).map script.result, ¬ result.Final := by
    intro result hresult
    obtain ⟨i, hi, rfl⟩ := List.mem_map.mp hresult
    rw [List.mem_range'_1] at hi
    exact hresults i (by omega)
  have hleft : script.Left reads .init ((List.range' 0 reads).map script.result) := by
    constructor
    · change 0 + _ = _
      rw [List.length_map, List.length_range', Nat.zero_add]
    · rw [List.length_map, List.length_range']
      rfl
  obtain ⟨labels, s, hrun, hidle, ⟨hreads, -⟩, hlabels, hprogram⟩ :=
    run_results (s := start args Scripted.init buffer) (script.serves reads) args hnot ⟨rfl, rfl⟩
      hleft
  rw [List.flatMap_map, ← List.range_eq_range'] at hlabels hprogram
  exact ⟨labels, s, hrun, hidle, hreads, hlabels, hprogram⟩

/-! ### Inside the input -/

/-- No read has returned a final result yet, and these bytes are left of the last one. -/
structure Feeding (script : Script) (s : State Scripted) (left : List Byte) : Prop where
  holds : s.Holds left
  not_final : ∀ i < s.vars.kernel.reads, ¬ (script.result i).Final
  parsed : ∃ before, before ++ left = script.delivered s.vars.kernel.reads
    ∧ s.vars.state = ParseState.after before
  last : left = [] ∨ ∃ last bytes, s.vars.kernel.reads = last + 1
    ∧ script.result last = .data bytes ∧ bytes.drop s.cursor = left
  pc : s.pc = .top ∨ s.pc = .body ∧ left ≠ []

/-- The last read was the first to return a final result, and the loop ends or has ended. -/
structure Ending (script : Script) (args : Args) (s : State Scripted) : Prop where
  last : ∃ last, s.vars.kernel.reads = last + 1 ∧ script.FirstFinal last
  pc : s.pc = .body ∧ s.remaining = 0 ∧ s.vars.state = .parseBegin
    ∨ s.pc = .afterGrab (args.alloca 0)

def Inside (script : Script) (args : Args) (s : State Scripted) : Prop :=
  (∃ left, Feeding script s left) ∨ Ending script args s

theorem feeding_start (script : Script) (args : Args) (buffer : Nat → Byte) :
    Feeding script (start args .init buffer) [] where
  holds := ⟨rfl, fun j hj => absurd hj (Nat.not_lt_zero j)⟩
  not_final := fun i hi => absurd hi (Nat.not_lt_zero i)
  parsed := ⟨[], rfl, rfl⟩
  last := .inl rfl
  pc := .inl rfl

theorem Feeding.nextByte {c : Byte} (h : Feeding script s (c :: left)) :
    Feeding script (s.nextByte script.kernel args) left := by
  obtain ⟨hholds, hvars⟩ := h.holds.nextByte script.kernel args
  have hreads : (s.nextByte script.kernel args).vars.kernel.reads = s.vars.kernel.reads := by
    rw [hvars]
    exact Script.reads_made (Vars.made_consumeAll script.kernel args s.vars [c])
  obtain ⟨before, hdelivered, hstate⟩ := h.parsed
  refine ⟨hholds, ?_, ⟨before ++ [c], ?_, ?_⟩, ?_, .inl rfl⟩
  · rw [hreads]
    exact h.not_final
  · rw [hreads, List.append_assoc]
    exact hdelivered
  · rw [hvars, Vars.state_consume, hstate, ParseState.after_snoc]
  · rcases h.last with hnone | ⟨last, bytes, hlast, hresult, hdrop⟩
    · cases hnone
    · refine .inr ⟨last, bytes, hreads.trans hlast, hresult, ?_⟩
      change bytes.drop (s.cursor + 1) = left
      rw [← List.drop_drop, hdrop]
      rfl

theorem Feeding.not_final_succ (h : Feeding script s left)
    (hnot : ¬ (script.result s.vars.kernel.reads).Final) :
    ∀ i < s.vars.kernel.reads + 1, ¬ (script.result i).Final := by
  intro i hi
  obtain hlt | rfl := Nat.lt_succ_iff_lt_or_eq.mp hi
  · exact h.not_final i hlt
  · exact hnot

theorem Feeding.refill_data (h : Feeding script s [])
    (hresult : script.result s.vars.kernel.reads = .data bytes) (hne : bytes ≠ []) :
    Feeding script (s.refill script.kernel) bytes := by
  obtain ⟨before, hdelivered, hstate⟩ := h.parsed
  have hread := script.read_kernel s.vars.kernel
  rw [hresult] at hread
  have hholds := holds_refill hread
  rw [State.refill_data hread] at hholds ⊢
  refine ⟨hholds, h.not_final_succ ?_, ⟨before, ?_, hstate⟩, ?_, .inr ⟨rfl, hne⟩⟩
  · rw [hresult]
    exact hne
  · change _ = script.delivered (s.vars.kernel.reads + 1)
    rw [Script.delivered_succ, hresult, ← hdelivered, List.append_nil]
    rfl
  · exact .inr ⟨_, bytes, rfl, hresult, rfl⟩

theorem Feeding.refill_again (h : Feeding script s []) (hidle : s.Idle)
    (hresult : script.result s.vars.kernel.reads = .error eagain) :
    Feeding script (s.refill script.kernel) [] := by
  obtain ⟨before, hdelivered, hstate⟩ := h.parsed
  have hread := script.read_kernel s.vars.kernel
  rw [hresult] at hread
  rw [State.refill_again hread]
  refine ⟨⟨h.holds.1, h.holds.2⟩, h.not_final_succ ?_, ⟨before, ?_, hstate⟩, .inl rfl,
    .inl hidle.1⟩
  · rw [hresult]
    exact not_not_intro rfl
  · change _ = script.delivered (s.vars.kernel.reads + 1)
    rw [Script.delivered_succ, hresult, hdelivered]
    exact (List.append_nil _).symm

theorem Feeding.refill_end (h : Feeding script s [])
    (hfinal : (script.result s.vars.kernel.reads).Final) (hgood : script.EndsWell) :
    Ending script args (s.refill script.kernel) := by
  obtain ⟨before, hdelivered, hstate⟩ := h.parsed
  obtain ⟨hresult, hafter⟩ := hgood _ ⟨hfinal, h.not_final⟩
  have hread := script.read_kernel s.vars.kernel
  rw [hresult] at hread
  rw [State.refill_data hread]
  refine ⟨⟨_, rfl, hfinal, h.not_final⟩, .inl ⟨rfl, rfl, ?_⟩⟩
  rw [← hafter, ← hdelivered, List.append_nil]
  exact hstate

theorem Feeding.refill (h : Feeding script s []) (hidle : s.Idle)
    (hgood : script.EndsWell) : Inside script args (s.refill script.kernel) := by
  by_cases hfinal : (script.result s.vars.kernel.reads).Final
  · exact .inr (h.refill_end hfinal hgood)
  · left
    cases hresult : script.result s.vars.kernel.reads with
    | data bytes =>
        rw [hresult] at hfinal
        exact ⟨bytes, h.refill_data hresult hfinal⟩
    | error errno =>
        rw [hresult] at hfinal
        obtain rfl : errno = eagain := not_not.mp hfinal
        exact ⟨[], h.refill_again hidle hresult⟩

theorem Feeding.step (h : Feeding script s left) (hgood : script.EndsWell) :
    Inside script args (s.step script.kernel args) := by
  cases left with
  | nil =>
      have htop : s.pc = .top := by
        rcases h.pc with htop | ⟨-, hnot⟩
        · exact htop
        · exact absurd rfl hnot
      have hidle : s.Idle := ⟨htop, h.holds.remaining⟩
      rw [step_idle hidle]
      exact h.refill hidle hgood
  | cons c left =>
      left
      rcases h.pc with htop | ⟨hbody, -⟩
      · have hstep : s.step script.kernel args = { s with pc := .body } := by
          rw [State.step, htop]
          exact if_neg h.holds.remaining_ne_zero
        rw [hstep]
        exact ⟨c :: left, ⟨h.holds.1, h.holds.2⟩, h.not_final, h.parsed, h.last,
          .inr ⟨rfl, List.cons_ne_nil _ _⟩⟩
      · rw [step_body script.kernel args hbody h.holds]
        exact ⟨left, h.nextByte⟩

theorem Ending.byteStep_body (hbody : s.pc = .body)
    (hend : s.remaining = 0 ∧ s.vars.state = .parseBegin) :
    ByteStep script.kernel args s none (s.endOfFile script.kernel args) := by
  constructor
  · exact (if_neg fun h => h.2 hend).symm
  · rw [State.step, hbody]
    exact if_pos hend

theorem Ending.step (h : Ending script args s) :
    Ending script args (s.step script.kernel args) := by
  rcases h.pc with ⟨hbody, hend⟩ | hgrab
  · rw [(byteStep_body hbody hend).2]
    obtain ⟨last, hlast, hfirst⟩ := h.last
    refine ⟨⟨last, ?_, hfirst⟩, .inr rfl⟩
    rw [← hlast]
    exact Script.reads_made (Vars.made_reserve script.kernel args s.vars _ _)
  · have hstep : s.step script.kernel args = s := by rw [State.step, hgrab]
    rwa [hstep]

/-- **Inside the input.** If the script ends well, every state of every run is. -/
theorem inside_run (hgood : script.EndsWell)
    (hrun : Run (ByteStep script.kernel args) (start args .init buffer) labels s) :
    Inside script args s := by
  apply hrun.invariant (Inside script args) _ (.inl ⟨[], feeding_start script args buffer⟩)
  rintro s label next hinside ⟨-, rfl⟩
  rcases hinside with ⟨left, hfeeding⟩ | hending
  · exact hfeeding.step hgood
  · exact .inr hending.step

theorem Inside.insideInput (h : Inside script args s) : s.InsideInput script := by
  intro c hconsumed
  rcases h with ⟨left, hfeeding⟩ | hending
  · cases left with
    | nil =>
        rcases hfeeding.pc with htop | ⟨-, hnot⟩
        · rw [consumed_top htop] at hconsumed
          cases hconsumed
        · exact absurd rfl hnot
    | cons c' left =>
        rcases hfeeding.pc with htop | ⟨hbody, -⟩
        · rw [consumed_top htop] at hconsumed
          cases hconsumed
        obtain rfl : c' = c :=
          Option.some.inj ((consumed_body hbody hfeeding.holds).symm.trans hconsumed)
        constructor
        · rw [hfeeding.holds.remaining, List.length_cons]
          omega
        rcases hfeeding.last with hnone | ⟨last, bytes, hreads, hresult, hdrop⟩
        · cases hnone
        · refine ⟨last, bytes, hreads, hresult, ?_⟩
          rw [← List.head?_drop, hdrop, List.head?_cons]
  · rcases hending.pc with ⟨hbody, hend⟩ | hgrab
    · rw [consumed, if_neg fun h => h.2 hend] at hconsumed
      cases hconsumed
    · rw [consumed, if_neg] at hconsumed
      · cases hconsumed
      · rintro ⟨hbody, -⟩
        rw [hgrab] at hbody
        cases hbody

end State

/-! ### Any cut -/

theorem Cut.firstFinal {reads reads' : Nat} {bytes : List Byte} (cut : Cut script reads bytes)
    (hfirst : script.FirstFinal reads') : reads' = reads := by
  rcases lt_trichotomy reads' reads with hlt | heq | hgt
  · exact absurd hfirst.1 (cut.not_final _ hlt)
  · exact heq
  · refine absurd ?_ (hfirst.2 reads hgt)
    rw [cut.end_of_file]
    rfl

/-- **Any cut.** A stream after which the parser is at a begin address has the effect of its bytes
one by one and of the end of the file, and these are the bytes that the loop takes from its
buffer. -/
theorem run_stream (args : Args) {reads : Nat} {bytes : List Byte} (cut : Cut script reads bytes)
    (hstate : ((Vars.init args ()).consumeAll noKernel args bytes).state = .parseBegin)
    (buffer : Nat → Byte) : ∃ labels final,
    Run (State.ByteStep script.kernel args) (State.start args .init buffer) labels final
      ∧ final.pc = .afterGrab (args.alloca 0)
      ∧ final.vars.program = wholeProgram args bytes
      ∧ labels.reduceOption = bytes := by
  obtain ⟨labels, s, hrun, hidle, hreads, hlabels, hprogram⟩ :=
    State.run_delivered args buffer cut.not_final
  rw [cut.delivered] at hlabels hprogram
  have hread : script.kernel.read s.vars.kernel
      = (.data [], { s.vars.kernel with reads := s.vars.kernel.reads + 1 }) := by
    rw [← cut.end_of_file, ← hreads]
    rfl
  obtain ⟨final, hlast, hpc, -, hfinal⟩ := State.run_end_of_stream hidle hread hprogram hstate
  refine ⟨_, final, hrun.trans hlast, hpc, hfinal, ?_⟩
  rw [List.reduceOption_append, hlabels]
  exact List.append_nil bytes

/-- A listing without sense, cut before the dash and inside the second field. -/
def brokenScript : Script where
  result i := [.data [0xFF, ascii 'A'], .error eagain, .data [ascii '-', 0],
    .data [ascii ' ', ascii '\n']].getD i (.data [])
  succeeds _ := true

def brokenBytes : List Byte := [0xFF, ascii 'A', ascii '-', 0, ascii ' ', ascii '\n']

end FexTestBins.Alloc
