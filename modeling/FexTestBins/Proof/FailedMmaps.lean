import FexTestBins.Proof.BucketChain
import FexTestBins.Proof.ScriptRuns
import Mathlib.Data.List.Indexes

/-!
# Failed reservations

`StealMemoryRegion` does not look at what `mmap` returned. Every call is recorded, so the record
holds only reservations that were made if and only if no call fails.
-/

namespace FexTestBins.Alloc

open Words IntervalGaps Transition

/-- What a step stores as a pair, if it stores: the two slots before `Position`. -/
def storedPair (before after : Buckets) : Option (Option Word × Option Word) :=
  if after.stores = before.stores then
    none
  else
    some (after.ptrSize after.current (after.position - 2),
      after.ptrSize after.current (after.position - 1))

def written (calls : List (Word × Word)) : List (Option Word × Option Word) :=
  calls.map fun call => (some call.1, some call.2)

def Scripted.succeeded (k : Scripted) : List (Word × Word) :=
  (k.answers.filter (·.2)).map (·.1)

/-- A step of the loop, labelled with the pair that it stores. -/
def State.RecordStep {σ : Type} (kernel : Kernel σ) (args : Args) (s : State σ)
    (label : Option (Option Word × Option Word)) (next : State σ) : Prop :=
  label = storedPair s.vars.buckets next.vars.buckets ∧ s.step kernel args = next

/-- **The promise.** When the loop has ended, the pairs stored are the ranges whose `mmap`
succeeded, in order, and a step whose `mmap` failed leaves the record and the place of the next pair
alone. -/
def RecordsSucceeded (script : Script) (args : Args) (buffer : Nat → Byte) : Prop :=
  ∀ labels s, Run (State.RecordStep script.kernel args) (State.start args .init buffer) labels s →
    (∀ root, s.pc = .afterGrab root → labels.reduceOption = written s.vars.kernel.succeeded)
      ∧ ∀ label next call, State.RecordStep script.kernel args s label next →
        next.vars.kernel.answers = s.vars.kernel.answers ++ [(call, false)] →
        next.vars.buckets.current = s.vars.buckets.current
          ∧ next.vars.buckets.position = s.vars.buckets.position
          ∧ next.vars.buckets.ptrSize = s.vars.buckets.ptrSize

variable {script : Script} {args : Args} {buffer : Nat → Byte} {lines : List MapsLine}
  {reads : Nat}

/-! ### One step -/

theorem storedPair_append (b : Buckets) (mapBegin mapSize : Word) :
    storedPair b (b.append args mapBegin mapSize) = some (some mapBegin, some mapSize) := by
  have hstores : (b.append args mapBegin mapSize).stores ≠ b.stores := by
    rw [Buckets.stores_append]
    split <;> simp
  rw [storedPair, if_neg hstores, Buckets.append_eq_record, Buckets.ptrSize_record,
    Buckets.ptrSize_record]
  have hcurrent : ((b.grow args).record mapBegin mapSize).current = (b.grow args).current := rfl
  have hposition : ((b.grow args).record mapBegin mapSize).position
      = (b.grow args).position + 2 := rfl
  rw [hcurrent, hposition]
  simp

/-- On the record, a step is a reservation, perhaps of an empty range. -/
theorem exists_reserve_step (script : Script) (args : Args) (s : State Scripted) :
    ∃ left right,
      (s.step script.kernel args).vars.buckets
          = (s.vars.reserve script.kernel args left right).buckets
        ∧ (s.step script.kernel args).vars.mmaps
          = (s.vars.reserve script.kernel args left right).mmaps
        ∧ (s.step script.kernel args).vars.kernel.answers
          = (s.vars.reserve script.kernel args left right).kernel.answers := by
  have hnone : s.vars.reserve script.kernel args 0 0 = s.vars := if_neg (lt_irrefl _)
  cases hpc : s.pc with
  | top =>
      refine ⟨0, 0, ?_⟩
      rw [hnone, State.step, hpc]
      by_cases hempty : s.remaining = 0
      · simp only [if_pos hempty, State.refill, Script.kernel]
        cases script.result s.vars.kernel.reads with
        | data bytes => exact ⟨rfl, rfl, rfl⟩
        | error errno =>
            by_cases hagain : errno = eagain
            · simp only [if_pos hagain, and_self]
            · simp only [if_neg hagain, and_self]
      · simp only [if_neg hempty, and_self]
  | body =>
      rw [State.step, hpc]
      by_cases hend : s.remaining = 0 ∧ s.vars.state = .parseBegin
      · simp only [if_pos hend]
        exact ⟨_, _, rfl, rfl, rfl⟩
      · simp only [if_neg hend, State.nextByte]
        obtain ⟨left, right, state, regionBegin, regionEnd, heq⟩ :=
          Vars.exists_reserve script.kernel args s.vars (s.buffer s.cursor)
        rw [heq]
        exact ⟨left, right, rfl, rfl, rfl⟩
  | afterGrab root =>
      refine ⟨0, 0, ?_⟩
      rw [hnone, State.step, hpc]
      exact ⟨rfl, rfl, rfl⟩

/-- Every call is answered, and recorded whatever the answer. -/
structure Logged (script : Script) (labels : List (Option (Option Word × Option Word)))
    (s : State Scripted) : Prop where
  answers : s.vars.kernel.answers
    = s.vars.mmaps.mapIdx fun i call => (call, script.succeeds i)
  stored : labels.reduceOption = written s.vars.mmaps

theorem Logged.step {past : List (Option (Option Word × Option Word))} {s next : State Scripted}
    {label : Option (Option Word × Option Word)} (h : Logged script past s)
    (hstep : State.RecordStep script.kernel args s label next) :
    Logged script (past ++ [label]) next := by
  obtain ⟨rfl, rfl⟩ := hstep
  obtain ⟨left, right, hbuckets, hmmaps, hanswers⟩ := exists_reserve_step script args s
  by_cases hlt : left < right
  · have hreserve : s.vars.reserve script.kernel args left right = _ := if_pos hlt
    rw [hreserve] at hbuckets hmmaps hanswers
    have hcount : s.vars.kernel.answers.length = s.vars.mmaps.length := by
      rw [h.answers, List.length_mapIdx]
    constructor
    · rw [hanswers, hmmaps, List.mapIdx_concat, ← h.answers, ← hcount]
      rfl
    · rw [hbuckets, hmmaps, storedPair_append, List.reduceOption_append, h.stored, written,
        written, List.map_append]
      rfl
  · have hreserve : s.vars.reserve script.kernel args left right = s.vars := if_neg hlt
    rw [hreserve] at hbuckets hmmaps hanswers
    constructor
    · rw [hanswers, hmmaps, h.answers]
    · rw [hbuckets, hmmaps, storedPair, if_pos rfl, List.reduceOption_append, h.stored]
      exact List.append_nil _

theorem logged_run {labels : List (Option (Option Word × Option Word))} {s : State Scripted}
    (hrun : Run (State.RecordStep script.kernel args) (State.start args .init buffer) labels s) :
    Logged script labels s := by
  apply hrun.invariant_history (Logged script) _ ⟨rfl, rfl⟩
  intro past s label next h hstep
  exact h.step hstep

theorem Logged.length_answers {labels : List (Option (Option Word × Option Word))}
    {s : State Scripted} (h : Logged script labels s) :
    s.vars.kernel.answers.length = s.vars.mmaps.length := by
  rw [h.answers, List.length_mapIdx]

/-- The ranges recorded are those that succeeded if no call failed, and only then. -/
theorem Logged.written_eq_iff {labels : List (Option (Option Word × Option Word))}
    {s : State Scripted} (h : Logged script labels s) :
    labels.reduceOption = written s.vars.kernel.succeeded
      ↔ ∀ i < s.vars.mmaps.length, script.succeeds i = true := by
  have hfirst : s.vars.kernel.answers.map (·.1) = s.vars.mmaps := by
    rw [h.answers]
    apply List.ext_getElem
    · rw [List.length_map, List.length_mapIdx]
    · intro i _ _
      rw [List.getElem_map, List.getElem_mapIdx]
  have hall : (∀ answer ∈ s.vars.kernel.answers, answer.2 = true)
      ↔ ∀ i < s.vars.mmaps.length, script.succeeds i = true := by
    rw [h.answers]
    constructor
    · intro htrue i hi
      exact htrue _ (List.mem_mapIdx.mpr ⟨i, hi, rfl⟩)
    · intro htrue answer hanswer
      obtain ⟨i, hi, rfl⟩ := List.mem_mapIdx.mp hanswer
      exact htrue i hi
  rw [h.stored, ← hall]
  constructor
  · intro hwritten
    have hlength := congrArg List.length hwritten
    rw [written, written, List.length_map, List.length_map, Scripted.succeeded, List.length_map,
      ← h.length_answers] at hlength
    exact List.length_filter_eq_length_iff.mp hlength.symm
  · intro htrue
    rw [Scripted.succeeded, List.filter_eq_self.mpr htrue, hfirst]

/-! ### The whole run -/

theorem recordStep_deterministic :
    Deterministic (State.RecordStep script.kernel args) := by
  rintro s label next label' next' ⟨rfl, rfl⟩ ⟨rfl, rfl⟩
  exact ⟨rfl, rfl⟩

theorem eq_of_afterGrab {s final : State Scripted} {root : Word}
    {rest : List (Option (Option Word × Option Word))}
    (hrun : Run (State.RecordStep script.kernel args) final rest s)
    (hpc : final.pc = .afterGrab root) : s = final := by
  apply hrun.invariant (· = final) _ rfl
  rintro state label next rfl ⟨-, rfl⟩
  rw [State.step, hpc]

theorem exists_final_script (args : Args) (buffer : Nat → Byte)
    (hsorted : Sorted 0 (lines.map MapsLine.region)) (cut : Cut script reads (mapsText lines)) :
    ∃ labels final,
      Run (State.RecordStep script.kernel args) (State.start args .init buffer) labels final
        ∧ final.pc = .afterGrab (args.alloca 0)
        ∧ final.vars.mmaps = Vars.calls (freeGaps args lines) := by
  have hstate : ((Vars.init args ()).consumeAll noKernel args (mapsText lines)).state
      = .parseBegin := by
    rw [consumeAll_init_mapsText]
    rfl
  obtain ⟨_, final, hrun, hpc, hprogram, -⟩ := run_stream args cut hstate buffer
  rw [wholeProgram_mapsText] at hprogram
  have hmmaps : final.vars.mmaps = (finalProgram args lines).mmaps := congrArg Vars.mmaps hprogram
  have hrelabel : ∀ s byte next, State.ByteStep script.kernel args s byte next →
      ∃ pair, State.RecordStep script.kernel args s pair next := by
    rintro s byte next ⟨-, hstep⟩
    exact ⟨_, rfl, hstep⟩
  obtain ⟨labels, hrun'⟩ := hrun.relabel hrelabel
  exact ⟨labels, final, hrun', hpc, hmmaps.trans (mmaps_finalProgram hsorted)⟩

theorem length_mmaps_le (hsorted : Sorted 0 (lines.map MapsLine.region))
    (cut : Cut script reads (mapsText lines))
    {labels : List (Option (Option Word × Option Word))} {s : State Scripted}
    (hrun : Run (State.RecordStep script.kernel args) (State.start args .init buffer) labels s) :
    s.vars.mmaps.length ≤ (freeGaps args lines).length := by
  obtain ⟨labels', final, hfinal, hpc, hmmaps⟩ := exists_final_script args buffer hsorted cut
  have hcount : final.vars.mmaps.length = (freeGaps args lines).length := by
    rw [hmmaps, Vars.calls, List.length_map]
  rw [← hcount]
  rcases hrun.comparable recordStep_deterministic hfinal with ⟨rest, -, hlabels⟩ | ⟨rest, hrest, -⟩
  · have hstored := (logged_run hrun).stored
    have hstored' := (logged_run hfinal).stored
    rw [hlabels, List.reduceOption_append, hstored] at hstored'
    have hlength := congrArg List.length hstored'
    rw [List.length_append, written, written, List.length_map, List.length_map] at hlength
    omega
  · rw [eq_of_afterGrab hrest hpc]

theorem succeeds_of_recordsSucceeded (hsorted : Sorted 0 (lines.map MapsLine.region))
    (cut : Cut script reads (mapsText lines)) (h : RecordsSucceeded script args buffer) :
    ∀ i < (freeGaps args lines).length, script.succeeds i = true := by
  obtain ⟨labels, final, hrun, hpc, hmmaps⟩ := exists_final_script args buffer hsorted cut
  have hrecorded := (h labels final hrun).1 _ hpc
  rwa [(logged_run hrun).written_eq_iff, hmmaps, Vars.calls, List.length_map] at hrecorded

/-- **When only reservations are recorded.** For every listing, wherever it is cut, exactly if each
of the calls, one for every gap, succeeds. -/
theorem recordsSucceeded_iff (args : Args) (script : Script) (reads : Nat) (lines : List MapsLine)
    (hsorted : Sorted 0 (lines.map MapsLine.region)) (cut : Cut script reads (mapsText lines))
    (buffer : Nat → Byte) :
    RecordsSucceeded script args buffer
      ↔ ∀ i < (freeGaps args lines).length, script.succeeds i = true := by
  refine ⟨succeeds_of_recordsSucceeded hsorted cut, ?_⟩
  intro hsucceeds labels s hrun
  constructor
  · intro root _
    rw [(logged_run hrun).written_eq_iff]
    intro i hi
    exact hsucceeds i (Nat.lt_of_lt_of_le hi (length_mmaps_le hsorted cut hrun))
  · -- no call fails
    intro label next call hstep hfailed
    have hlogged := logged_run (hrun.snoc hstep)
    have hanswer : (call, false) ∈ next.vars.kernel.answers := by
      rw [hfailed]
      exact List.mem_append_right _ (List.mem_singleton_self _)
    rw [hlogged.answers] at hanswer
    obtain ⟨i, hi, heq⟩ := List.mem_mapIdx.mp hanswer
    have hle := length_mmaps_le hsorted cut (hrun.snoc hstep)
    have htrue := hsucceeds i (Nat.lt_of_lt_of_le hi hle)
    rw [(Prod.mk.inj heq).2] at htrue
    cases htrue

/-- Three regions, and so four calls. -/
theorem recordsSucceeded_iff_four :
    RecordsSucceeded (spacedScript 3) (stealArgs fun _ => 0x9000) fun _ => 0 := by
  have hsorted : Sorted 0 (((spacedRegions 3).map MapsLine.padded).map MapsLine.region) := by
    decide
  exact (recordsSucceeded_iff (stealArgs fun _ => 0x9000) (spacedScript 3) 1
    ((spacedRegions 3).map .padded) hsorted (cut_spacedScript (by decide)) fun _ => 0).mpr
    fun _ _ => rfl

/-- The line `1000-2000 r` at once, with the `mmap` calls all successful or not. -/
def shortScript (succeeds : Bool) : Script where
  result i := [.data (mapsText [shortLine])].getD i (.data [])
  succeeds _ := succeeds

theorem cut_shortScript (succeeds : Bool) :
    Cut (shortScript succeeds) 1 (mapsText [shortLine]) where
  not_final := by
    intro i hi
    obtain rfl : i = 0 := by omega
    exact (by decide : mapsText [shortLine] ≠ [])
  delivered := List.append_nil _
  end_of_file := rfl

/-- The only call fails, and its range is recorded. -/
theorem not_recordsSucceeded_short :
    ¬ RecordsSucceeded (shortScript false) (stealArgs fun _ => 0x9000) fun _ => 0 := by
  intro h
  have hcount : 0 < (freeGaps (stealArgs fun _ => 0x9000) [shortLine]).length := by decide
  have htrue := succeeds_of_recordsSucceeded (by decide) (cut_shortScript false) h 0 hcount
  cases htrue

end FexTestBins.Alloc
