import FexTestBins.Proof.AllocReserve
import Mathlib.Order.CompletePartialOrder

/-!
# Reading the maps file while changing the map

Every range mapped so far ends before the position of the file, since it is a gap before a region
that was formatted already. So the kernel never formats a range that the program mapped itself, and
the text read is that of the address space at the start.
-/

namespace FexTestBins.Alloc

open Words IntervalGaps Transition

variable {choices : LiveChoices} {args : Args} {regions issued formatted later : List (Word × Word)}
  {range : Word × Word} {consumed : List Byte} {live : Live}

/-- The address space holds the initial regions and the ranges mapped since, and nothing else. -/
structure Space (regions issued current : List (Word × Word)) : Prop where
  sorted : Sorted 0 current
  mem : ∀ r, r ∈ current ↔ r ∈ regions ∨ r ∈ issued

theorem Space.overlay {lo hi : Word} {current : List (Word × Word)}
    (h : Space regions issued current) (hsorted : Sorted 0 regions)
    (hgaps : issued ++ [range] <+: gaps lo hi 0 regions) :
    Space regions (issued ++ [range]) (overlay range current) := by
  have hgap : range ∈ gaps lo hi 0 regions :=
    hgaps.subset (List.mem_append_right _ (List.mem_singleton_self _))
  have hrange := (bounds_of_mem_gaps hsorted hgap).2.1
  have hearlier : ∀ r ∈ issued, r.2 ≤ range.1 := by
    have hpairwise := (gaps_pairwise hsorted).sublist hgaps.sublist
    intro r hr
    exact (List.pairwise_append.mp hpairwise).2.2 r hr range (List.mem_singleton_self _)
  have hapart : ∀ r ∈ current, Apart r range := by
    intro r hr
    rcases (h.mem r).mp hr with hr | hr
    · exact apart_of_mem_gaps hsorted hgap hr
    · exact Or.inl (hearlier r hr)
  refine ⟨sorted_overlay h.sorted (zero_le_word range.1) hrange, ?_⟩
  intro r
  rw [mem_overlay_of_apart (fun r hr => h.sorted.lt_of_mem hr) hrange hapart, h.mem,
    List.mem_append, List.mem_singleton, or_assoc]

def mmapAll (choices : LiveChoices) (live : Live) (made : List (Word × Word)) : Live :=
  made.foldl (fun k call => (liveKernel choices).mmap k call.1 call.2) live

theorem mmapAll_eq (made : List (Word × Word)) : mmapAll choices live made
    = { live with
        regions := (rangesOf made).foldl (fun current r => overlay r current) live.regions } := by
  induction made generalizing live with
  | nil => rfl
  | cons call made ih =>
      rw [mmapAll, List.foldl_cons, ← mmapAll, ih]
      rfl

theorem Space.mmapAll {lo hi : Word} {made : List (Word × Word)}
    (h : Space regions issued live.regions) (hsorted : Sorted 0 regions)
    (hgaps : issued ++ rangesOf made <+: gaps lo hi 0 regions) :
    Space regions (issued ++ rangesOf made) (mmapAll choices live made).regions := by
  induction made generalizing issued live with
  | nil =>
      rw [rangesOf, List.map_nil, List.append_nil]
      exact h
  | cons call made ih =>
      have hsplit : issued ++ rangesOf (call :: made)
          = issued ++ [(call.1, call.1 + call.2)] ++ rangesOf made := by simp [rangesOf]
      rw [hsplit] at hgaps ⊢
      have hfirst := h.overlay hsorted ((List.prefix_append _ _).trans hgaps)
      exact @ih _ ((liveKernel choices).mmap live call.1 call.2) hfirst hgaps

/-- What a part of a run maps, if the ranges are the next gaps. -/
theorem Space.made {lo hi : Word} {v v' : Vars Live}
    (h : Space regions (rangesOf v.mmaps) v.kernel.regions) (hsorted : Sorted 0 regions)
    (hmade : Vars.Made (liveKernel choices) v v')
    (hgaps : rangesOf v'.mmaps <+: gaps lo hi 0 regions) :
    Space regions (rangesOf v'.mmaps) v'.kernel.regions := by
  obtain ⟨made, hmmaps, hkernel⟩ := hmade
  have hranges : rangesOf v'.mmaps = rangesOf v.mmaps ++ rangesOf made := by
    rw [hmmaps]
    exact List.map_append
  rw [hranges] at hgaps ⊢
  rw [hkernel]
  exact h.mmapAll hsorted hgaps

/-! ### What the kernel has served -/

/-- The file is in step with the initial regions: of these some were formatted, and their text was
either consumed or is still pending. -/
structure Serving (choices : LiveChoices) (regions formatted later : List (Word × Word))
    (consumed : List Byte) (live : Live) : Prop where
  split : regions = formatted ++ later
  text : consumed ++ live.pending = mapsText (formatted.map choices.line)
  position : live.position = lastEnd 0 formatted

/-- The regions from the position on are those initial regions that were not formatted yet. -/
theorem Serving.filter_eq (h : Serving choices regions formatted later consumed live)
    (hsorted : Sorted 0 regions) (hspace : Space regions issued live.regions)
    (hissued : ∀ r ∈ issued, r.1 < r.2 ∧ r.2 ≤ lastEnd 0 formatted) :
    live.regions.filter (fun r => live.position ≤ r.1) = later := by
  have hboth := sorted_append.mp (h.split ▸ hsorted)
  apply (hspace.sorted.filter _).ext hboth.2
  intro r
  rw [List.mem_filter, hspace.mem, decide_eq_true_eq, h.position, h.split, List.mem_append]
  constructor
  · rintro ⟨(hr | hr) | hr, hle⟩
    · have hend := hboth.1.end_le_lastEnd hr
      have hlt := hboth.1.lt_of_mem hr
      order
    · exact hr
    · obtain ⟨hlt, hend⟩ := hissued r hr
      order
  · intro hr
    exact ⟨Or.inl (Or.inr hr), hboth.2.le_of_mem hr⟩

theorem mapsText_append {lines lines' : List MapsLine} :
    mapsText (lines ++ lines') = mapsText lines ++ mapsText lines' :=
  List.flatMap_append

theorem map_region_line : (regions.map choices.line).map MapsLine.region = regions := by
  rw [List.map_map]
  apply List.map_id''
  exact choices.region_line

theorem eq_nil_of_mapsText {lines : List MapsLine} (htext : mapsText lines = []) : lines = [] := by
  cases lines with
  | nil => rfl
  | cons line lines => simp [mapsText, MapsLine.text] at htext

theorem Serving.length_le (h : Serving choices regions formatted later consumed live) :
    consumed.length ≤ (mapsText (regions.map choices.line)).length := by
  calc consumed.length ≤ (consumed ++ live.pending).length := by simp
    _ = (mapsText (formatted.map choices.line)).length := by rw [h.text]
    _ ≤ (mapsText (regions.map choices.line)).length := by
        rw [h.split, List.map_append, mapsText_append, List.length_append]
        omega

/-- Formatting keeps the file in step; if it formats nothing, nothing was left. -/
theorem Serving.format (h : Serving choices regions formatted later consumed live)
    (hlater : live.regions.filter (fun r => live.position ≤ r.1) = later) :
    ∃ formatted' later', Serving choices regions formatted' later' consumed (live.format choices)
      ∧ ((live.format choices).pending = [] → later' = []) := by
  by_cases hpending : live.pending = []
  · have hformat : live.format choices
        = { live with
            pending := mapsText ((later.take (choices.regions live.reads + 1)).map choices.line)
            position := lastEnd live.position (later.take (choices.regions live.reads + 1)) } := by
      rw [Live.format, if_pos hpending, hlater]
    have htext := h.text
    rw [hpending, List.append_nil] at htext
    refine ⟨formatted ++ later.take (choices.regions live.reads + 1),
      later.drop (choices.regions live.reads + 1), ⟨?_, ?_, ?_⟩, ?_⟩
    · rw [List.append_assoc, List.take_append_drop, h.split]
    · rw [hformat, List.map_append, mapsText_append, htext]
    · rw [hformat, lastEnd_append, h.position]
    · intro hnone
      rw [hformat] at hnone
      have hbatch := List.map_eq_nil_iff.mp (eq_nil_of_mapsText hnone)
      rcases List.take_eq_nil_iff.mp hbatch with hzero | hnil
      · cases hzero
      · rw [hnil, List.drop_nil]
  · have hformat : live.format choices = live := if_neg hpending
    exact ⟨formatted, later, hformat.symm ▸ h, fun hnone => absurd (hformat ▸ hnone) hpending⟩

/-! ### One read -/

/-- What holds between two reads: the program is where the text consumed so far leads, the file is
in step, and the address space holds the initial regions and what the program mapped. -/
structure InStep (choices : LiveChoices) (args : Args) (regions : List (Word × Word))
    (consumed : List Byte) (s : State Live) : Prop where
  idle : s.Idle
  program : s.vars.program = (Vars.init args ()).consumeAll noKernel args consumed
  serving : ∃ formatted later, Serving choices regions formatted later consumed s.vars.kernel
  space : Space regions (rangesOf s.vars.mmaps) s.vars.kernel.regions

theorem mapped_prefix_gaps {program : Vars Unit} {pending : List Byte}
    (hsorted : Sorted 0 formatted)
    (hprogram : program = (Vars.init args ()).consumeAll noKernel args consumed)
    (htext : consumed ++ pending = mapsText (formatted.map choices.line)) :
    rangesOf program.mmaps <+: gapsBefore args.beginAddr args.endAddr 0 formatted := by
  have hinit : Vars.init args () = (Vars.init args ()).setParser .parseBegin 0 0 := rfl
  have hall : (program.consumeAll noKernel args pending).mmaps
      = Vars.calls (gapsBefore args.beginAddr args.endAddr 0 formatted) := by
    rw [hprogram, ← Vars.consumeAll_append, htext, hinit, Vars.consumeAll_mapsText, map_region_line]
    exact Vars.mmaps_reserveAll fun g hg => (bounds_of_mem_gapsBefore hsorted hg).2.1
  obtain ⟨made, hmade, -⟩ := Vars.made_consumeAll noKernel args program pending
  have hgaps : program.mmaps <+: Vars.calls (gapsBefore args.beginAddr args.endAddr 0 formatted) :=
    ⟨made, by rw [← hmade, hall]⟩
  have hranges : rangesOf program.mmaps <+: rangesOf (Vars.calls _) := hgaps.map _
  rwa [rangesOf_calls] at hranges

theorem gapsBefore_prefix_gaps {lo hi : Word} (hsplit : regions = formatted ++ later) :
    gapsBefore lo hi 0 formatted <+: gaps lo hi 0 regions := by
  rw [hsplit, gaps, gapsBefore_append, List.append_assoc]
  exact List.prefix_append _ _

variable {s : State Live}

theorem InStep.format (h : InStep choices args regions consumed s) (hsorted : Sorted 0 regions) :
    ∃ formatted later,
      Serving choices regions formatted later consumed (s.vars.kernel.format choices)
        ∧ ((s.vars.kernel.format choices).pending = [] → later = []) := by
  obtain ⟨formatted, later, hserving⟩ := h.serving
  have hformatted : Sorted 0 formatted := (sorted_append.mp (hserving.split ▸ hsorted)).1
  have hmapped := mapped_prefix_gaps hformatted h.program hserving.text
  have hissued : ∀ r ∈ rangesOf s.vars.mmaps, r.1 < r.2 ∧ r.2 ≤ lastEnd 0 formatted := by
    intro r hr
    have hbounds := bounds_of_mem_gapsBefore hformatted (hmapped.subset hr)
    exact ⟨hbounds.2.1, hbounds.2.2.1⟩
  exact hserving.format (hserving.filter_eq hsorted h.space hissued)

theorem regions_format : (live.format choices).regions = live.regions := by
  unfold Live.format
  split <;> rfl

/-- The text that a read hands out, and the state it leaves. -/
def Live.piece (choices : LiveChoices) (live : Live) : List Byte :=
  (live.format choices).pending.take (min (choices.bytes live.reads + 1) 2048)

def Live.afterRead (choices : LiveChoices) (live : Live) : Live :=
  ((liveKernel choices).read live).2

theorem read_liveKernel (choices : LiveChoices) (live : Live) :
    (liveKernel choices).read live = (.data (live.piece choices), live.afterRead choices) := rfl

theorem piece_eq_nil_iff : live.piece choices = [] ↔ (live.format choices).pending = [] := by
  rw [Live.piece, List.take_eq_nil_iff]
  apply or_iff_right
  omega

theorem regions_afterRead (choices : LiveChoices) (live : Live) :
    (live.afterRead choices).regions = live.regions :=
  regions_format

theorem Serving.afterRead
    (h : Serving choices regions formatted later consumed (live.format choices)) :
    Serving choices regions formatted later (consumed ++ live.piece choices)
      (live.afterRead choices) where
  split := h.split
  text := by
    have hpieces : live.piece choices ++ (live.afterRead choices).pending
        = (live.format choices).pending := List.take_append_drop ..
    rw [List.append_assoc, hpieces, h.text]
  position := h.position

theorem Serving.made {v v' : Vars Live} (hmade : Vars.Made (liveKernel choices) v v')
    (h : Serving choices regions formatted later consumed v.kernel) :
    Serving choices regions formatted later consumed v'.kernel := by
  obtain ⟨made, -, hkernel⟩ := hmade
  rw [hkernel, ← mmapAll, mmapAll_eq]
  exact ⟨h.split, h.text, h.position⟩

theorem InStep.piece (h : InStep choices args regions consumed s) (hsorted : Sorted 0 regions)
    (hpiece : s.vars.kernel.piece choices ≠ []) :
    ∃ s', Iterates (State.step (liveKernel choices) args) s s'
      ∧ InStep choices args regions (consumed ++ s.vars.kernel.piece choices) s' := by
  obtain ⟨formatted, later, hserving, -⟩ := h.format hsorted
  have hformatted : Sorted 0 formatted := (sorted_append.mp (hserving.split ▸ hsorted)).1
  have hserved := hserving.afterRead
  -- the program consumes the piece, and its calls reach the kernel behind the read
  obtain ⟨labels, s', hrun, hidle, -, hvars⟩ :=
    State.run_piece args h.idle hpiece (read_liveKernel choices s.vars.kernel)
  have hmade := Vars.made_consumeAll (liveKernel choices) args
    { s.vars with kernel := s.vars.kernel.afterRead choices } (s.vars.kernel.piece choices)
  rw [← hvars] at hmade
  have hprogram : s'.vars.program = (Vars.init args ()).consumeAll noKernel args
      (consumed ++ s.vars.kernel.piece choices) := by
    rw [hvars, Vars.program_consumeAll, Vars.consumeAll_append, ← h.program]
    rfl
  have hmapped : rangesOf s'.vars.mmaps <+: gaps args.beginAddr args.endAddr 0 regions := by
    apply (mapped_prefix_gaps hformatted hprogram hserved.text).trans
    exact gapsBefore_prefix_gaps hserving.split
  have hspace := h.space
  rw [← regions_afterRead choices] at hspace
  exact ⟨s', State.iterates_of_run hrun, hidle, hprogram, ⟨formatted, later, hserved.made hmade⟩,
    hspace.made hsorted hmade hmapped⟩

theorem rangesOf_final {v : Vars Live} (hsorted : Sorted 0 regions)
    (hprogram : v.program = finalProgram args (regions.map choices.line)) :
    rangesOf v.mmaps = gaps args.beginAddr args.endAddr 0 regions := by
  have hmmaps : v.mmaps = (finalProgram args (regions.map choices.line)).mmaps :=
    congrArg Vars.mmaps hprogram
  calc rangesOf v.mmaps
      = rangesOf (Vars.calls (freeGaps args (regions.map choices.line))) := by
        rw [hmmaps, mmaps_finalProgram (map_region_line.symm ▸ hsorted)]
    _ = freeGaps args (regions.map choices.line) := rangesOf_calls _
    _ = gaps args.beginAddr args.endAddr 0 regions := by rw [freeGaps, map_region_line]

/-- A read that returns nothing is the last, and the program ends as it would on a frozen text. -/
theorem InStep.done (h : InStep choices args regions consumed s) (hsorted : Sorted 0 regions)
    (hpiece : s.vars.kernel.piece choices = []) :
    ∃ final, Iterates (State.step (liveKernel choices) args) s final
      ∧ final.pc = .afterGrab (args.alloca 0)
      ∧ final.vars.program = finalProgram args (regions.map choices.line)
      ∧ Space regions (rangesOf final.vars.mmaps) final.vars.kernel.regions := by
  have hpending := piece_eq_nil_iff.mp hpiece
  obtain ⟨formatted, later, hserving, hnone⟩ := h.format hsorted
  have hall : consumed = mapsText (regions.map choices.line) := by
    have htext := hserving.text
    rwa [hpending, List.append_nil, ← List.append_nil formatted, ← hnone hpending,
      ← hserving.split] at htext
  have hread : (liveKernel choices).read s.vars.kernel
      = (.data [], s.vars.kernel.afterRead choices) := by
    rw [read_liveKernel, hpiece]
  obtain ⟨final, hrun, hpc, hvars, hprogram⟩ :=
    State.run_end_of_text h.idle hread (hall ▸ h.program)
  have hmade := Vars.made_reserve (liveKernel choices) args
    { s.vars with kernel := s.vars.kernel.afterRead choices }
    (max s.vars.regionEnd args.beginAddr) args.endAddr
  rw [← hvars] at hmade
  have hspace := h.space
  rw [← regions_afterRead choices] at hspace
  have hmapped : rangesOf final.vars.mmaps <+: gaps args.beginAddr args.endAddr 0 regions :=
    rangesOf_final hsorted hprogram ▸ List.prefix_refl _
  exact ⟨final, State.iterates_of_run hrun, hpc, hprogram, hspace.made hsorted hmade hmapped⟩

/-! ### The whole run -/

theorem InStep.iterates (h : InStep choices args regions consumed s) (hsorted : Sorted 0 regions) :
    ∃ final, Iterates (State.step (liveKernel choices) args) s final
      ∧ final.pc = .afterGrab (args.alloca 0)
      ∧ final.vars.program = finalProgram args (regions.map choices.line)
      ∧ Space regions (rangesOf final.vars.mmaps) final.vars.kernel.regions := by
  induction hleft : (mapsText (regions.map choices.line)).length - consumed.length
    using Nat.strong_induction_on generalizing consumed s with
  | _ left ih =>
      by_cases hpiece : s.vars.kernel.piece choices = []
      · exact h.done hsorted hpiece
      · obtain ⟨s', hrun, h'⟩ := h.piece hsorted hpiece
        -- what is left of the text gets shorter
        obtain ⟨formatted, later, hserving⟩ := h'.serving
        have hle := hserving.length_le
        have hpos := List.length_pos_of_ne_nil hpiece
        rw [List.length_append] at hle
        obtain ⟨final, hrest, hfinal⟩ := ih _ (by rw [List.length_append]; omega) h' rfl
        exact ⟨final, hrun.trans hrest, hfinal⟩

theorem inStep_start (choices : LiveChoices) (args : Args) (hsorted : Sorted 0 regions)
    (buffer : Nat → Byte) :
    InStep choices args regions [] (State.start args (Live.init regions) buffer) where
  idle := ⟨rfl, rfl⟩
  program := rfl
  serving := ⟨[], regions, rfl, rfl, rfl⟩
  space := ⟨hsorted, fun r => by simp [rangesOf, State.start, Vars.init, Live.init]⟩

/-- **Reading the map while changing it.** With room for every pair, for every address space, all
bounds and every choice of the kernel, of how many regions it formats at a time and of how it cuts
the text. -/
theorem exists_live_run (args : Args) (choices : LiveChoices) (hsorted : Sorted 0 regions)
    (buffer : Nat → Byte) :
    ∃ live : State Live,
      Iterates (State.step (liveKernel choices) args)
          (State.start args (Live.init regions) buffer) live
        ∧ live.pc = .afterGrab (args.alloca 0)
        ∧ live.vars.program = finalProgram args (regions.map choices.line)
        ∧ Disjoint (cover (rangesOf live.vars.mmaps)) (cover regions)
        ∧ (∀ region ∈ regions, region ∈ live.vars.kernel.regions)
        ∧ cover live.vars.kernel.regions
          = cover regions ∪ Set.Ico args.beginAddr args.endAddr := by
  obtain ⟨live, hrun, hpc, hprogram, hspace⟩ :=
    (inStep_start choices args hsorted buffer).iterates hsorted
  have hfree : cover (rangesOf live.vars.mmaps)
      = Set.Ico args.beginAddr args.endAddr \ cover regions := by
    rw [rangesOf_final hsorted hprogram, cover_gaps hsorted, max_zero_word]
  refine ⟨live, hrun, hpc, hprogram, ?_, ?_, ?_⟩
  · rw [hfree]
    exact Set.disjoint_sdiff_left
  · intro region hregion
    exact (hspace.mem region).mpr (Or.inl hregion)
  · have hboth : cover live.vars.kernel.regions
        = cover regions ∪ cover (rangesOf live.vars.mmaps) := by
      rw [← cover_append]
      ext x
      simp only [mem_cover, List.mem_append, hspace.mem]
    rw [hboth, hfree, Set.union_sdiff_self]

/-- One region at a time, and its text in pieces of one to seven bytes. -/
def shortChoices : LiveChoices where
  line := .padded
  region_line := fun _ => rfl
  regions := fun _ => 0
  bytes := fun n => n % 7

end FexTestBins.Alloc
