import FexTestBins.Proof.BucketBounds
import FexTestBins.Proof.LiveMaps
import FexTestBins.Proof.ParserSafety

/-!
# What the length of a bucket does to the loop

With the 33 slots that a bucket is declared with, the loop comes to its end if and only if it stores
at most 16 pairs. Up to there it does what it does with room for every pair, so that each promise
about its end holds exactly for the inputs with at most 16 gaps.
-/

namespace FexTestBins.Alloc

open Words IntervalGaps Transition

variable {σ : Type} {kernel : Kernel σ} {args : Args}

/-! ### The loop with and without the bound -/

theorem Vars.stores_reserve (v : Vars σ) (left right : Word) : ∃ more,
    (v.reserve kernel args left right).buckets.stores = v.buckets.stores ++ more := by
  by_cases hlt : left < right
  · rw [reserve, if_pos hlt]
    exact ⟨_, Buckets.stores_append⟩
  · rw [reserve, if_neg hlt]
    exact ⟨[], (List.append_nil _).symm⟩

theorem State.stores_step (kernel : Kernel σ) (args : Args) (s : State σ) : ∃ more,
    (s.step kernel args).vars.buckets.stores = s.vars.buckets.stores ++ more := by
  have hnone : ∀ stores : List Nat, ∃ more, stores = stores ++ more :=
    fun stores => ⟨[], (List.append_nil stores).symm⟩
  cases hpc : s.pc with
  | top =>
      rw [step, hpc]
      by_cases hempty : s.remaining = 0
      · simp only [if_pos hempty, refill]
        split
        · exact hnone _
        · split
          · exact hnone _
          · exact hnone _
      · simp only [if_neg hempty]
        exact hnone _
  | body =>
      rw [step, hpc]
      by_cases hend : s.remaining = 0 ∧ s.vars.state = .parseBegin
      · simp only [if_pos hend]
        exact Vars.stores_reserve s.vars _ _
      · simp only [if_neg hend, nextByte]
        obtain ⟨left, right, state, regionBegin, regionEnd, heq⟩ :=
          Vars.exists_reserve kernel args s.vars (s.buffer s.cursor)
        rw [heq]
        exact Vars.stores_reserve s.vars left right
  | afterGrab root =>
      rw [step, hpc]
      exact hnone _

/-- A store outside stays on record. -/
theorem State.inside_of_step (s : State σ) (h : (s.step kernel args).vars.buckets.Inside) :
    s.vars.buckets.Inside := by
  obtain ⟨more, hmore⟩ := s.stores_step kernel args
  intro index hindex
  apply h index
  rw [hmore]
  exact List.mem_append_left _ hindex

theorem inside_start (args : Args) (k : σ) (buffer : Nat → Byte) :
    (State.start args k buffer).vars.buckets.Inside := by
  intro index hindex
  cases hindex

theorem step_afterGrab {root : Word} (s : State σ) (hpc : s.pc = .afterGrab root) :
    s.step kernel args = s := by
  rw [State.step, hpc]

/-- **The bound.** Where the loop would end, with room for every pair, it does so if and only if
no store was outside. -/
theorem bounded_iff {k : σ} {buffer : Nat → Byte} {final : State σ} {root : Word}
    {post : State σ → Prop}
    (hrun : Iterates (State.step kernel args) (State.start args k buffer) final)
    (hpc : final.pc = .afterGrab root) :
    (∃ final', Iterates (State.boundedStep kernel args) (some (State.start args k buffer))
        (some final') ∧ final'.pc = .afterGrab root ∧ post final')
      ↔ final.vars.buckets.Inside ∧ post final :=
  Iterates.checked_iff State.inside_of_step (inside_start args k buffer) step_afterGrab hrun hpc

theorem bounded_of_inside {s final : State σ} (hrun : Iterates (State.step kernel args) s final)
    (hinside : final.vars.buckets.Inside) :
    Iterates (State.boundedStep kernel args) (some s) (some final) :=
  hrun.checked State.inside_of_step hinside

theorem inside_calls_iff (ranges : List (Word × Word)) :
    (Buckets.appendAll args (Vars.calls ranges)).Inside ↔ ranges.length ≤ 16 := by
  rw [Buckets.Inside, Buckets.stores_inside_iff, Vars.calls, List.length_map]

/-! ### The free space -/

/-- **The first promise.** The loop ends, and the `mmap` calls it made are for non-empty disjoint
ranges in increasing order that hold exactly the addresses between the bounds which are in no listed
region; the ranges are page-aligned if the bounds and the regions are. -/
def TakesFreeSpace (args : Args) (lines : List MapsLine) (pieces : List (List Byte))
    (buffer : Nat → Byte) : Prop :=
  ∃ final : State (List (List Byte)),
    Iterates (State.boundedStep frozenKernel args) (some (State.start args pieces buffer))
        (some final)
      ∧ final.pc = .afterGrab (args.alloca 0)
      ∧ ReservesFreeSpace args (lines.map MapsLine.region) final.vars.mmaps

theorem takesFreeSpace_iff_inside {lines : List MapsLine}
    (hsorted : Sorted 0 (lines.map MapsLine.region)) (delivery : Delivery (mapsText lines))
    (buffer : Nat → Byte) : TakesFreeSpace args lines delivery.pieces buffer
      ↔ (Buckets.appendAll args (Vars.calls (freeGaps args lines))).Inside := by
  obtain ⟨final, hrun, hpc, hmmaps, hbuckets⟩ := exists_final args hsorted delivery buffer
  have hreserves : ReservesFreeSpace args (lines.map MapsLine.region) final.vars.mmaps := by
    rw [hmmaps, ← mmaps_finalProgram hsorted]
    exact reservesFreeSpace_finalProgram hsorted
  rw [TakesFreeSpace, bounded_iff hrun hpc, hbuckets]
  exact and_iff_left hreserves

/-- **When the free space is reserved.** For all bounds and every listing, cut into pieces anywhere,
exactly if the listed regions leave at most 16 gaps. -/
theorem takesFreeSpace_iff (args : Args) (lines : List MapsLine)
    (hsorted : Sorted 0 (lines.map MapsLine.region)) (delivery : Delivery (mapsText lines))
    (buffer : Nat → Byte) :
    TakesFreeSpace args lines delivery.pieces buffer ↔ (freeGaps args lines).length ≤ 16 := by
  rw [takesFreeSpace_iff_inside hsorted, inside_calls_iff]

/-- Fifteen regions, and so sixteen gaps. -/
theorem takesFreeSpace_iff_fifteen :
    TakesFreeSpace (stealArgs fun _ => 0x9000) ((spacedRegions 15).map .padded)
      (Delivery.bytewise (spacedText 15)).pieces fun _ => 0 :=
  (takesFreeSpace_iff (stealArgs fun _ => 0x9000) ((spacedRegions 15).map .padded) (by decide)
    (Delivery.bytewise _) fun _ => 0).mpr (by decide)

/-- With 18 gaps, a pair is stored over `End` before the last gap is mapped. -/
theorem not_takesFreeSpace_seventeen :
    ¬ TakesFreeSpace (stealArgs fun _ => 0x9000) ((spacedRegions 17).map .padded)
      (Delivery.bytewise (spacedText 17)).pieces fun _ => 0 := by
  have hsorted : Sorted 0 (((spacedRegions 17).map MapsLine.padded).map MapsLine.region) := by
    decide
  have hcount : (freeGaps (stealArgs fun _ => 0x9000) ((spacedRegions 17).map .padded)).length
      = 18 := by
    decide
  rw [takesFreeSpace_iff_inside hsorted (Delivery.bytewise (spacedText 17)), inside_calls_iff,
    hcount]
  decide

/-! ### The live address space -/

/-- **The second promise.** On the live address space the loop ends with the `mmap` calls that it
makes on the frozen text of the address space as it was at the start. No call covers an address that
was mapped then; at the end the regions of the start are all there, and mapped are their addresses
and all those between the bounds. -/
def LiveAsFrozen (args : Args) (choices : LiveChoices) (regions : List (Word × Word))
    (pieces : List (List Byte)) (buffer buffer' : Nat → Byte) : Prop :=
  ∃ (live : State Live) (frozen : State (List (List Byte))),
    Iterates (State.boundedStep (liveKernel choices) args)
        (some (State.start args (Live.init regions) buffer)) (some live)
      ∧ live.pc = .afterGrab (args.alloca 0)
      ∧ Iterates (State.boundedStep frozenKernel args) (some (State.start args pieces buffer'))
        (some frozen)
      ∧ frozen.pc = .afterGrab (args.alloca 0)
      ∧ live.vars.mmaps = frozen.vars.mmaps
      ∧ Disjoint (cover (rangesOf live.vars.mmaps)) (cover regions)
      ∧ (∀ region ∈ regions, region ∈ live.vars.kernel.regions)
      ∧ cover live.vars.kernel.regions = cover regions ∪ Set.Ico args.beginAddr args.endAddr

theorem liveAsFrozen_iff_inside {choices : LiveChoices} {regions : List (Word × Word)}
    (hsorted : Sorted 0 regions) (delivery : Delivery (mapsText (regions.map choices.line)))
    (buffer buffer' : Nat → Byte) :
    LiveAsFrozen args choices regions delivery.pieces buffer buffer'
      ↔ (Buckets.appendAll args
          (Vars.calls (gaps args.beginAddr args.endAddr 0 regions))).Inside := by
  obtain ⟨live, hrun, hpc, hprogram, hcovers⟩ := exists_live_run args choices hsorted buffer
  obtain ⟨frozen, hrun', hpc', hprogram'⟩ := State.iterates_frozen args delivery buffer'
  have hfinal : (finalProgram args (regions.map choices.line)).buckets = Buckets.appendAll args
      (Vars.calls (gaps args.beginAddr args.endAddr 0 regions)) := by
    rw [buckets_finalProgram (map_region_line.symm ▸ hsorted), freeGaps, map_region_line]
  have hlive : live.vars.buckets = _ := (congrArg Vars.buckets hprogram).trans hfinal
  have hfrozen : frozen.vars.buckets = _ := (congrArg Vars.buckets hprogram').trans hfinal
  constructor
  · rintro ⟨live', -, hlive', hpc', -⟩
    have hends : ∃ final, Iterates (State.boundedStep (liveKernel choices) args) _ (some final)
        ∧ final.pc = .afterGrab (args.alloca 0) ∧ True := ⟨live', hlive', hpc', trivial⟩
    rw [← hlive]
    exact ((bounded_iff hrun hpc).mp hends).1
  · intro hinside
    have hbounded := bounded_of_inside hrun (by rwa [hlive])
    have hbounded' := bounded_of_inside hrun' (by rwa [hfrozen])
    have hmmaps : live.vars.mmaps = frozen.vars.mmaps :=
      congrArg Vars.mmaps (hprogram.trans hprogram'.symm)
    exact ⟨live, frozen, hbounded, hpc, hbounded', hpc', hmmaps, hcovers⟩

/-- **When reading the map while changing it is safe.** For every address space, all bounds and
every choice of the kernel, of how many regions it formats at a time and of how it cuts the text,
exactly if the address space leaves at most 16 gaps between the bounds. -/
theorem liveAsFrozen_iff (args : Args) (choices : LiveChoices) (regions : List (Word × Word))
    (hsorted : Sorted 0 regions) (delivery : Delivery (mapsText (regions.map choices.line)))
    (buffer buffer' : Nat → Byte) :
    LiveAsFrozen args choices regions delivery.pieces buffer buffer'
      ↔ (gaps args.beginAddr args.endAddr 0 regions).length ≤ 16 := by
  rw [liveAsFrozen_iff_inside hsorted, inside_calls_iff]

theorem liveAsFrozen_iff_fifteen :
    LiveAsFrozen (stealArgs fun _ => 0x9000) shortChoices (spacedRegions 15)
      (Delivery.bytewise (spacedText 15)).pieces (fun _ => 0)
      fun _ => 0 :=
  (liveAsFrozen_iff (stealArgs fun _ => 0x9000) shortChoices (spacedRegions 15) (by decide)
    (Delivery.bytewise _) (fun _ => 0) fun _ => 0).mpr (by decide)

theorem not_liveAsFrozen_seventeen :
    ¬ LiveAsFrozen (stealArgs fun _ => 0x9000) shortChoices (spacedRegions 17)
      (Delivery.bytewise (spacedText 17)).pieces (fun _ => 0)
      fun _ => 0 := by
  have hsorted : Sorted 0 (spacedRegions 17) := by decide
  have hcount : (gaps (stealArgs fun _ => 0x9000).beginAddr (stealArgs fun _ => 0x9000).endAddr 0
      (spacedRegions 17)).length = 18 := by
    decide
  intro hlive
  have hinside := (liveAsFrozen_iff_inside hsorted (Delivery.bytewise _) _ _).mp hlive
  rw [inside_calls_iff, hcount] at hinside
  exact absurd hinside (by decide)

/-! ### Streams of bytes -/

/-- What comes before the first `stop`, and what comes behind it. -/
def upTo (stop : Byte) (bytes : List Byte) : List Byte := bytes.takeWhile (· != stop)

def behind (stop : Byte) (bytes : List Byte) : List Byte := (bytes.dropWhile (· != stop)).tail

theorem length_behind_le (stop : Byte) (bytes : List Byte) :
    (behind stop bytes).length ≤ bytes.length - 1 := by
  rw [behind, List.length_tail]
  exact Nat.sub_le_sub_right (List.dropWhile_suffix _).length_le 1

/-- The value of digits, whatever they are. -/
def number (digits : List Byte) : Word := digits.foldl shiftIn 0

/-- The numbers before the dash and before the space of each line, as far as there is a dash. -/
def fields (bytes : List Byte) : List (Word × Word) :=
  if _ : ascii '-' ∈ bytes then
    let second := behind (ascii '-') bytes
    (number (upTo (ascii '-') bytes), number (upTo (ascii ' ') second))
      :: fields (behind (ascii '\n') (behind (ascii ' ') second))
  else
    []
termination_by bytes.length
decreasing_by
  have hpos := List.length_pos_of_mem ‹ascii '-' ∈ bytes›
  have hfirst := length_behind_le (ascii '-') bytes
  have hsecond := length_behind_le (ascii ' ') (behind (ascii '-') bytes)
  have hrest := length_behind_le (ascii '\n') (behind (ascii ' ') (behind (ascii '-') bytes))
  omega

variable {stop : Byte} {bytes before first second rest : List Byte}

theorem ne_stop_of_mem (hbefore : stop ∉ before) : ∀ c ∈ before, (c != stop) = true := by
  intro c hc
  rw [bne_iff_ne]
  rintro rfl
  exact hbefore hc

theorem upTo_append (hbefore : stop ∉ before) : upTo stop (before ++ stop :: rest) = before := by
  rw [upTo, List.takeWhile_append_of_pos (ne_stop_of_mem hbefore)]
  simp

theorem behind_append (hbefore : stop ∉ before) : behind stop (before ++ stop :: rest) = rest := by
  rw [behind, List.dropWhile_append_of_pos (ne_stop_of_mem hbefore)]
  simp

theorem fields_of_not_mem (hdash : ascii '-' ∉ bytes) : fields bytes = [] := by
  rw [fields, dif_neg hdash]

theorem fields_line (hfirst : ascii '-' ∉ first) (hsecond : ascii ' ' ∉ second)
    (hrest : ascii '\n' ∉ rest) :
    fields (first ++ ascii '-' :: (second ++ ascii ' ' :: (rest ++ ascii '\n' :: bytes)))
      = (number first, number second) :: fields bytes := by
  rw [fields, dif_pos (by simp), upTo_append hfirst, behind_append hfirst]
  simp only [upTo_append hsecond, behind_append hsecond, behind_append hrest]

/-- The fields of a listing are its regions. -/
theorem fields_mapsText (lines : List MapsLine) :
    fields (mapsText lines) = lines.map MapsLine.region := by
  induction lines with
  | nil => exact fields_of_not_mem (by simp [mapsText])
  | cons line lines ih =>
      have hfirst : ascii '-' ∉ line.beginNumeral.text := fun h => (ne_of_mem_numeral h).1 rfl
      have hsecond : ascii ' ' ∉ line.endNumeral.text := fun h => (ne_of_mem_numeral h).2 rfl
      have htext : mapsText (line :: lines) = line.beginNumeral.text ++ ascii '-'
          :: (line.endNumeral.text ++ ascii ' '
            :: (line.rest ++ ascii '\n' :: mapsText lines)) := by
        simp [mapsText, MapsLine.text]
      rw [htext, fields_line hfirst hsecond line.no_newline, ih, number, number, foldl_numeral,
        foldl_numeral]
      rfl

/-- Complete lines amount to the reservations of the gaps before their first fields. -/
theorem consumeAll_fields (kernel : Kernel σ) (args : Args) (h : BeforeDash bytes) (v : Vars σ)
    (regionEnd : Word) : ∃ regionBegin,
    (v.setParser .parseBegin 0 regionEnd).consumeAll kernel args bytes
      = (v.reserveAll kernel args (gapsBefore args.beginAddr args.endAddr regionEnd
          (fields bytes))).setParser .parseBegin regionBegin
            (lastEnd regionEnd (fields bytes)) := by
  induction h generalizing v regionEnd with
  | @field bytes hdash =>
      have hbytes : ∀ c ∈ bytes, c ≠ ascii '-' := fun c hc heq => hdash (heq ▸ hc)
      rw [fields_of_not_mem hdash]
      exact ⟨_, Vars.consumeAll_begin hbytes⟩
  | @line first second rest bytes hfirst hsecond hrest _ ih =>
      have hfirst' : ∀ c ∈ first, c ≠ ascii '-' := fun c hc heq => hfirst (heq ▸ hc)
      have hsecond' : ∀ c ∈ second, c ≠ ascii ' ' := fun c hc heq => hsecond (heq ▸ hc)
      obtain ⟨regionBegin, heq⟩ := ih (v.reserve kernel args (max regionEnd args.beginAddr)
        (min (number first) args.endAddr)) (number second)
      refine ⟨regionBegin, ?_⟩
      rw [fields_line hfirst hsecond hrest, Vars.consumeAll_append, Vars.consumeAll_begin hfirst',
        Vars.consumeAll_cons, Vars.consume_dash, Vars.consumeAll_append,
        Vars.consumeAll_end hsecond', Vars.consumeAll_cons, Vars.consume_space,
        Vars.consumeAll_append, Vars.consumeAll_scan hrest, Vars.consumeAll_cons,
        Vars.consume_newline]
      rw [← number, ← number, heq, Vars.reserve_eq_reserveAll, ← Vars.reserveAll_append]
      rfl

/-- The ranges that a stream describes as free. -/
def freeRanges (args : Args) (bytes : List Byte) : List (Word × Word) :=
  gaps args.beginAddr args.endAddr 0 (fields bytes)

theorem buckets_wholeProgram (args : Args) (h : BeforeDash bytes) :
    (wholeProgram args bytes).buckets
      = Buckets.appendAll args (Vars.calls (freeRanges args bytes)) := by
  obtain ⟨regionBegin, heq⟩ := consumeAll_fields noKernel args h (Vars.init args ()) 0
  have hinit : (Vars.init args ()).setParser .parseBegin 0 0 = Vars.init args () := rfl
  rw [hinit] at heq
  have hwhole : wholeProgram args bytes
      = ((Vars.init args ()).reserveAll noKernel args (freeRanges args bytes)).setParser .parseBegin
          regionBegin (lastEnd 0 (fields bytes)) := by
    unfold wholeProgram
    rw [heq, Vars.reserve_setParser, Vars.reserve_eq_reserveAll, ← Vars.reserveAll_append]
    rfl
  rw [hwhole]
  exact Vars.buckets_reserveAll fun _ hrange => lt_of_mem_gaps hrange

/-- A step of the loop with the declared length, labelled with the byte that it takes. -/
def State.BoundedByteStep (kernel : Kernel σ) (args : Args) (s : State σ) (label : Option Byte)
    (next : State σ) : Prop :=
  label = s.consumed ∧ State.boundedStep kernel args (some s) = some next

/-- **The third promise.** The loop ends with the `mmap` calls and the stores that the bytes one by
one and the end of the file make, and these are the bytes that it takes from its buffer, each from
the piece that the last read delivered. -/
def PiecesAsWhole (args : Args) (script : Script) (bytes : List Byte) (buffer : Nat → Byte) :
    Prop :=
  (∃ labels final,
    Run (State.BoundedByteStep script.kernel args) (State.start args .init buffer) labels final
      ∧ final.pc = .afterGrab (args.alloca 0)
      ∧ final.vars.program = wholeProgram args bytes
      ∧ labels.reduceOption = bytes)
    ∧ ∀ labels s,
      Run (State.BoundedByteStep script.kernel args) (State.start args .init buffer) labels s →
        s.InsideInput script

theorem boundedByteStep_iff {s next : State σ} {label : Option Byte} :
    State.BoundedByteStep kernel args s label next
      ↔ State.ByteStep kernel args s label next ∧ next.vars.buckets.Inside := by
  rw [State.BoundedByteStep, State.boundedStep, checked_eq_some, State.ByteStep, and_assoc]

theorem piecesAsWhole_iff_inside {script : Script} {reads : Nat} (cut : Cut script reads bytes)
    (hstate : ((Vars.init args ()).consumeAll noKernel args bytes).state = .parseBegin)
    (buffer : Nat → Byte) : PiecesAsWhole args script bytes buffer
      ↔ (Buckets.appendAll args (Vars.calls (freeRanges args bytes))).Inside := by
  have hafter : ParseState.after bytes = .parseBegin := by
    rw [← Vars.state_consumeAll args, hstate]
  have hbuckets :=
    buckets_wholeProgram args ((ParseState.after_eq_parseBegin_iff bytes).mp hafter)
  constructor
  · rintro ⟨⟨labels, final, hrun, -, hprogram, -⟩, -⟩
    have hinside : final.vars.buckets.Inside := by
      apply hrun.invariant (fun s => s.vars.buckets.Inside) _ (inside_start args _ buffer)
      intro s label next _ hstep
      exact (boundedByteStep_iff.mp hstep).2
    have hsame : final.vars.buckets = (wholeProgram args bytes).buckets :=
      congrArg Vars.buckets hprogram
    rwa [hsame, hbuckets] at hinside
  · intro hinside
    have hmono : ∀ s label next, State.BoundedByteStep script.kernel args s label next →
        State.ByteStep script.kernel args s label next :=
      fun _ _ _ hstep => (boundedByteStep_iff.mp hstep).1
    constructor
    · obtain ⟨labels, final, hrun, hpc, hprogram, hlabels⟩ := run_stream args cut hstate buffer
      have hsame : final.vars.buckets = (wholeProgram args bytes).buckets :=
        congrArg Vars.buckets hprogram
      have hback : ∀ s label next, State.ByteStep script.kernel args s label next →
          next.vars.buckets.Inside → s.vars.buckets.Inside := by
        rintro s label next ⟨-, rfl⟩
        exact s.inside_of_step
      have hguarded := hrun.guarded hback (by rwa [hsame, hbuckets])
      exact ⟨labels, final, hguarded.mono fun _ _ _ hstep => boundedByteStep_iff.mpr hstep, hpc,
        hprogram, hlabels⟩
    · intro labels s hrun
      apply (State.inside_run _ (hrun.mono hmono)).insideInput
      intro reads' hfirst
      obtain rfl := cut.firstFinal hfirst
      exact ⟨cut.end_of_file, by rw [cut.delivered, hafter]⟩

/-- **When a stream has the effect of its bytes.** For every stream after which the parser is at a
begin address, and every cut, exactly if at most 16 of the ranges are not empty that it describes as
free: between the bounds, from the second field of each line to the first field of the next, the
first of them from 0 and the last one without an end. -/
theorem piecesAsWhole_iff (args : Args) (script : Script) (reads : Nat) (bytes : List Byte)
    (cut : Cut script reads bytes)
    (hstate : ((Vars.init args ()).consumeAll noKernel args bytes).state = .parseBegin)
    (buffer : Nat → Byte) :
    PiecesAsWhole args script bytes buffer ↔ (freeRanges args bytes).length ≤ 16 := by
  rw [piecesAsWhole_iff_inside cut hstate, inside_calls_iff]

theorem fields_brokenBytes :
    fields brokenBytes = [(number [0xFF, ascii 'A'], number [0])] := by
  have hfirst : ascii '-' ∉ [0xFF, ascii 'A'] := by decide
  have hsecond : ascii ' ' ∉ [0] := by decide
  have hline : fields brokenBytes = (number [0xFF, ascii 'A'], number [0]) :: fields [] :=
    fields_line hfirst hsecond List.not_mem_nil
  rw [hline, fields_of_not_mem List.not_mem_nil]

theorem piecesAsWhole_iff_broken :
    PiecesAsWhole (stealArgs fun _ => 0x9000) brokenScript brokenBytes fun _ => 0 := by
  have hcount : (freeRanges (stealArgs fun _ => 0x9000) brokenBytes).length ≤ 16 := by
    rw [freeRanges, fields_brokenBytes]
    decide
  exact (piecesAsWhole_iff (stealArgs fun _ => 0x9000) brokenScript 4 brokenBytes
    ⟨by decide, by decide, rfl⟩ (by decide) fun _ => 0).mpr hcount

theorem not_piecesAsWhole_seventeen :
    ¬ PiecesAsWhole (stealArgs fun _ => 0x9000) (spacedScript 17) (spacedText 17) fun _ => 0 := by
  have hstate : ((Vars.init (stealArgs fun _ => 0x9000) ()).consumeAll noKernel
      (stealArgs fun _ => 0x9000) (spacedText 17)).state = .parseBegin := by
    rw [spacedText, consumeAll_init_mapsText]
    rfl
  have hcount : (freeGaps (stealArgs fun _ => 0x9000) ((spacedRegions 17).map .padded)).length
      = 18 := by
    decide
  rw [piecesAsWhole_iff_inside (cut_spacedScript (by decide)) hstate, inside_calls_iff, freeRanges,
    spacedText, fields_mapsText, ← freeGaps, hcount]
  decide

end FexTestBins.Alloc
