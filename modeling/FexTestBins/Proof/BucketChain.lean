import FexTestBins.Proof.BucketBounds
import Mathlib.Data.List.ReduceOption

/-!
# Reading the chain of buckets back

A reader of the chain takes pair after pair, stops at an address zero, and after 32 pairs follows
the link. What has been recorded stays readable when more is appended, since every slot written
either was blank or held the zero that ends the list. At the end the reader stops unless it comes to
a slot that was never written: the very first if there is no pair, or the link of a full bucket.
-/

namespace FexTestBins.Alloc

open Words IntervalGaps Transition

/-- One step of the reader, from a bucket and the number of pairs read there. A slot that was not
written has no step. -/
inductive ReaderStep (ptrSize : Word → Nat → Option Word) :
    Word × Nat → Option (Word × Word) → Word × Nat → Prop
  | pair {bucket addr size : Word} {k : Nat} : k < bucketEntries →
      ptrSize bucket (2 * k) = some addr → addr ≠ 0 → ptrSize bucket (2 * k + 1) = some size →
      ReaderStep ptrSize (bucket, k) (some (addr, size)) (bucket, k + 1)
  | link {bucket next : Word} : ptrSize bucket (2 * bucketEntries + 1) = some next → next ≠ 0 →
      ReaderStep ptrSize (bucket, bucketEntries) none (next, 0)

/-- The reader finds a zero, in place of an address or of a link. -/
def ReaderStops (ptrSize : Word → Nat → Option Word) (place : Word × Nat) : Prop :=
  place.2 < bucketEntries ∧ ptrSize place.1 (2 * place.2) = some 0
    ∨ place.2 = bucketEntries ∧ ptrSize place.1 (2 * bucketEntries + 1) = some 0

/-- From the root the reader reads exactly these pairs, and only slots that were written. -/
def Reads (ptrSize : Word → Nat → Option Word) (root : Word) (pairs : List (Word × Word)) : Prop :=
  ∃ labels finish, Run (ReaderStep ptrSize) (root, 0) labels finish
    ∧ ReaderStops ptrSize finish ∧ labels.reduceOption = pairs

/-- The first `count` answers of `alloca` and the one after them are different buckets, none of them
at address zero. -/
structure FreshAllocas (alloca : Nat → Word) (count : Nat) : Prop where
  ne_zero : ∀ i ≤ count, alloca i ≠ 0
  injective : ∀ i ≤ count, ∀ j ≤ count, alloca i = alloca j → i = j

variable {ptrSize ptrSize' : Word → Nat → Option Word}

theorem readerStep_deterministic : Deterministic (ReaderStep ptrSize) := by
  intro place label next label' next' h h'
  cases h with
  | pair hk haddr hne hsize =>
      cases h' with
      | pair hk' haddr' hne' hsize' =>
          obtain rfl := Option.some.inj (haddr.symm.trans haddr')
          obtain rfl := Option.some.inj (hsize.symm.trans hsize')
          exact ⟨rfl, rfl⟩
      | link => exact absurd hk (lt_irrefl _)
  | link hlink hne =>
      cases h' with
      | pair hk' => exact absurd hk' (lt_irrefl _)
      | link hlink' hne' =>
          obtain rfl := Option.some.inj (hlink.symm.trans hlink')
          exact ⟨rfl, rfl⟩

theorem stuck_of_stops {place : Word × Nat} (hstops : ReaderStops ptrSize place) :
    Stuck (ReaderStep ptrSize) place := by
  intro label next hstep
  cases hstep with
  | pair hk haddr hne =>
      rcases hstops with ⟨-, hzero⟩ | ⟨heq, -⟩
      · exact hne (Option.some.inj (haddr.symm.trans hzero))
      · exact absurd hk heq.not_lt
  | link hlink hne =>
      rcases hstops with ⟨hlt, -⟩ | ⟨-, hzero⟩
      · exact absurd hlt (lt_irrefl _)
      · exact hne (Option.some.inj (hlink.symm.trans hzero))

/-- Where the slot of the next address was not written, the reader neither goes on nor stops. -/
theorem stuck_of_blank_addr {bucket : Word} (hblank : ptrSize bucket 0 = none) :
    Stuck (ReaderStep ptrSize) (bucket, 0) ∧ ¬ ReaderStops ptrSize (bucket, 0) := by
  constructor
  · intro label next hstep
    cases hstep with
    | pair hk haddr => exact absurd (hblank.symm.trans haddr) (by simp)
  · rintro (⟨-, hzero⟩ | ⟨heq, -⟩)
    · exact absurd (hblank.symm.trans hzero) (by simp)
    · exact absurd heq (by decide : 0 ≠ bucketEntries)

theorem stuck_of_blank_link {bucket : Word}
    (hblank : ptrSize bucket (2 * bucketEntries + 1) = none) :
    Stuck (ReaderStep ptrSize) (bucket, bucketEntries)
      ∧ ¬ ReaderStops ptrSize (bucket, bucketEntries) := by
  constructor
  · intro label next hstep
    cases hstep with
    | pair hk => exact absurd hk (lt_irrefl _)
    | link hlink => exact absurd (hblank.symm.trans hlink) (by simp)
  · rintro (⟨hlt, -⟩ | ⟨-, hzero⟩)
    · exact absurd hlt (lt_irrefl _)
    · exact absurd (hblank.symm.trans hzero) (by simp)

theorem not_reads_of_stuck {root : Word} {place : Word × Nat} {labels : List (Option (Word × Word))}
    (hrun : Run (ReaderStep ptrSize) (root, 0) labels place)
    (hstuck : Stuck (ReaderStep ptrSize) place ∧ ¬ ReaderStops ptrSize place)
    (pairs : List (Word × Word)) : ¬ Reads ptrSize root pairs := by
  rintro ⟨labels', finish, hrun', hstops, -⟩
  obtain ⟨-, rfl⟩ := hrun.eq_of_stuck readerStep_deterministic hstuck.1 hrun'
    (stuck_of_stops hstops)
  exact hstuck.2 hstops

/-- Everything but zeros in the place of an address is kept. -/
structure Keeps (ptrSize ptrSize' : Word → Nat → Option Word) : Prop where
  even : ∀ bucket k addr, ptrSize bucket (2 * k) = some addr → addr ≠ 0 →
    ptrSize' bucket (2 * k) = some addr
  odd : ∀ bucket k value, ptrSize bucket (2 * k + 1) = some value →
    ptrSize' bucket (2 * k + 1) = some value

theorem Keeps.step (h : Keeps ptrSize ptrSize') (place : Word × Nat)
    (label : Option (Word × Word)) (next : Word × Nat)
    (hstep : ReaderStep ptrSize place label next) : ReaderStep ptrSize' place label next := by
  cases hstep with
  | pair hk haddr hne hsize => exact .pair hk (h.even _ _ _ haddr hne) hne (h.odd _ _ _ hsize)
  | link hlink hne => exact .link (h.odd _ _ _ hlink) hne

namespace Buckets

variable {args : Args} {b : Buckets} {mapBegin mapSize : Word} {calls : List (Word × Word)}
  {limit k : Nat}

theorem ptrSize_store (index : Nat) (value : Word) (bucket : Word) (j : Nat) :
    (b.store index value).ptrSize bucket j
      = if bucket = b.current ∧ j = index then some value else b.ptrSize bucket j := by
  by_cases hbucket : bucket = b.current
  · subst hbucket
    by_cases hj : j = index
    · simp [store, hj]
    · simp [store, hj]
  · simp [store, hbucket]

/-- A chain that the reader has followed up to the place of the next pair, with all pairs read.
Everything behind that place is blank, and so are all buckets still to come. -/
structure Chain (args : Args) (limit : Nat) (calls : List (Word × Word)) (b : Buckets) : Prop where
  run : ∃ labels, Run (ReaderStep b.ptrSize) (args.alloca 0, 0) labels (b.current, b.position / 2)
    ∧ labels.reduceOption = calls
  even : b.position % 2 = 0
  blank : ∀ j, b.position < j → b.ptrSize b.current j = none
  bucket : ∃ i < b.allocas, i ≤ limit ∧ b.current = args.alloca i
  fresh : ∀ i ≤ limit, b.allocas ≤ i → ∀ j, b.ptrSize (args.alloca i) j = none

theorem Chain.ne_current {i : Nat} (h : Chain args limit calls b)
    (hfresh : FreshAllocas args.alloca limit) (hi : i ≤ limit) (hallocas : b.allocas ≤ i) :
    args.alloca i ≠ b.current := by
  obtain ⟨used, hused, hle, hcurrent⟩ := h.bucket
  rw [hcurrent]
  intro heq
  have hindex := hfresh.injective i hi used hle heq
  omega

/-- There is room for a pair, whose first slot is blank or zero. -/
structure Ready (args : Args) (limit : Nat) (calls : List (Word × Word)) (b : Buckets) : Prop
    extends Chain args limit calls b where
  room : b.position < bucketEntries * 2
  replaceable : ∀ addr, b.ptrSize b.current b.position = some addr → addr = 0

/-- A pair was appended last, and with it the zero that ends the list. -/
structure Recorded (args : Args) (limit : Nat) (calls : List (Word × Word)) (b : Buckets) : Prop
    extends Chain args limit calls b where
  le : b.position ≤ bucketEntries * 2
  terminator : b.ptrSize b.current b.position = some 0

theorem ready_init (args : Args) (limit : Nat) : Ready args limit [] (init args) where
  run := by
    have hstart : (init args).position / 2 = 0 := Nat.zero_div 2
    refine ⟨[], ?_, rfl⟩
    rw [hstart]
    exact .refl _
  even := rfl
  blank := fun _ _ => rfl
  bucket := ⟨0, Nat.zero_lt_one, Nat.zero_le _, rfl⟩
  fresh := fun _ _ _ _ => rfl
  room := (by decide : 0 < bucketEntries * 2)
  replaceable := fun _ h => by cases h

def record (b : Buckets) (mapBegin mapSize : Word) : Buckets :=
  ((b.push mapBegin).push mapSize).store (b.position + 2) 0

theorem append_eq_record :
    b.append args mapBegin mapSize = (b.grow args).record mapBegin mapSize := rfl

theorem ptrSize_record (bucket : Word) (j : Nat) :
    (b.record mapBegin mapSize).ptrSize bucket j
      = if bucket = b.current ∧ j = b.position + 2 then some 0
        else if bucket = b.current ∧ j = b.position + 1 then some mapSize
        else if bucket = b.current ∧ j = b.position then some mapBegin
        else b.ptrSize bucket j := by
  rw [record, ptrSize_store]
  apply if_congr Iff.rfl rfl
  exact (ptrSize_store ..).trans (if_congr Iff.rfl rfl (ptrSize_store ..))

theorem Ready.keeps (h : Ready args limit calls b) :
    Keeps b.ptrSize (b.record mapBegin mapSize).ptrSize where
  even := by
    intro bucket k addr hslot hne
    have heven := h.even
    by_cases hbucket : bucket = b.current
    · subst hbucket
      have hfirst : 2 * k ≠ b.position := fun heq => hne (h.replaceable addr (heq ▸ hslot))
      have hlast : 2 * k ≠ b.position + 2 := by
        intro heq
        rw [h.blank (2 * k) (by omega)] at hslot
        cases hslot
      rw [ptrSize_record, if_neg (by omega), if_neg (by omega), if_neg (by omega), hslot]
    · rw [ptrSize_record, if_neg (by tauto), if_neg (by tauto), if_neg (by tauto), hslot]
  odd := by
    intro bucket k value hslot
    have heven := h.even
    by_cases hbucket : bucket = b.current
    · subst hbucket
      have hle : 2 * k + 1 ≤ b.position := by
        by_contra hgt
        rw [h.blank (2 * k + 1) (by omega)] at hslot
        cases hslot
      rw [ptrSize_record, if_neg (by omega), if_neg (by omega), if_neg (by omega), hslot]
    · rw [ptrSize_record, if_neg (by tauto), if_neg (by tauto), if_neg (by tauto), hslot]

theorem Ready.record (h : Ready args limit calls b) (hfresh : FreshAllocas args.alloca limit)
    (hne : mapBegin ≠ 0) :
    Recorded args limit (calls ++ [(mapBegin, mapSize)]) (b.record mapBegin mapSize) where
  run := by
    obtain ⟨labels, hrun, hpairs⟩ := h.run
    have heven := h.even
    have hroom := h.room
    have hhalf : 2 * (b.position / 2) = b.position := by omega
    have haddr : (b.record mapBegin mapSize).ptrSize b.current (2 * (b.position / 2))
        = some mapBegin := by
      rw [ptrSize_record, hhalf, if_neg (by omega), if_neg (by omega), if_pos ⟨rfl, rfl⟩]
    have hsize : (b.record mapBegin mapSize).ptrSize b.current (2 * (b.position / 2) + 1)
        = some mapSize := by
      rw [ptrSize_record, hhalf, if_neg (by omega), if_pos ⟨rfl, rfl⟩]
    have hpair := ReaderStep.pair (by omega) haddr hne hsize
    have hnext : (b.position + 2) / 2 = b.position / 2 + 1 := by omega
    refine ⟨labels ++ [some (mapBegin, mapSize)], ?_, ?_⟩
    · change Run _ _ _ (b.current, (b.position + 2) / 2)
      rw [hnext]
      exact (hrun.mono h.keeps.step).snoc hpair
    · rw [List.reduceOption_append, hpairs]
      rfl
  even := by
    have heven := h.even
    change (b.position + 2) % 2 = 0
    omega
  blank := by
    intro j hj
    have hj' : b.position + 2 < j := hj
    rw [ptrSize_record, if_neg (by omega), if_neg (by omega), if_neg (by omega)]
    exact h.blank j (by omega)
  bucket := h.bucket
  fresh := by
    intro i hi hallocas j
    have hother := h.ne_current hfresh hi hallocas
    rw [ptrSize_record, if_neg (by tauto), if_neg (by tauto), if_neg (by tauto)]
    exact h.fresh i hi hallocas j
  le := by
    have heven := h.even
    have hroom := h.room
    change b.position + 2 ≤ bucketEntries * 2
    unfold bucketEntries at *
    omega
  terminator := by
    rw [ptrSize_record]
    exact if_pos ⟨rfl, rfl⟩

theorem ptrSize_grow (hfull : b.position = bucketEntries * 2) (bucket : Word) (j : Nat) :
    (b.grow args).ptrSize bucket j
      = if bucket = b.current ∧ j = bucketEntries * 2 + 1 then some (args.alloca b.allocas)
        else b.ptrSize bucket j := by
  rw [grow_of_full hfull]
  exact ptrSize_store ..

theorem Recorded.keeps (h : Recorded args limit calls b)
    (hfull : b.position = bucketEntries * 2) : Keeps b.ptrSize (b.grow args).ptrSize where
  even := by
    intro bucket k addr hslot _
    rw [ptrSize_grow hfull, if_neg (by omega), hslot]
  odd := by
    intro bucket k value hslot
    rw [ptrSize_grow hfull, if_neg, hslot]
    -- the link was blank
    rintro ⟨rfl, hindex⟩
    rw [h.blank (2 * k + 1) (by omega)] at hslot
    cases hslot

theorem Recorded.grow (h : Recorded args limit calls b) (hfresh : FreshAllocas args.alloca limit)
    (hlimit : b.position = bucketEntries * 2 → b.allocas ≤ limit) :
    Ready args limit calls (b.grow args) := by
  by_cases hfull : b.position = bucketEntries * 2
  · have hle := hlimit hfull
    have hnew : ∀ i ≤ limit, b.allocas ≤ i →
        ∀ j, (b.grow args).ptrSize (args.alloca i) j = none := by
      intro i hi hallocas j
      rw [ptrSize_grow hfull, if_neg]
      · exact h.fresh i hi hallocas j
      · rintro ⟨hcurrent, -⟩
        exact h.ne_current hfresh hi hallocas hcurrent
    have hlink : (b.grow args).ptrSize b.current (2 * bucketEntries + 1)
        = some (args.alloca b.allocas) := by
      rw [ptrSize_grow hfull, if_pos ⟨rfl, rfl⟩]
    have hcurrent' : (b.grow args).current = args.alloca b.allocas := by rw [grow_of_full hfull]
    have hposition' : (b.grow args).position = 0 := by rw [grow_of_full hfull]
    have hallocas' : (b.grow args).allocas = b.allocas + 1 := by rw [grow_of_full hfull]
    refine ⟨⟨?_, ?_, ?_, ?_, ?_⟩, ?_, ?_⟩
    · obtain ⟨labels, hrun, hpairs⟩ := h.run
      have hat : b.position / 2 = bucketEntries := by omega
      rw [hat] at hrun
      refine ⟨labels ++ [none], ?_, ?_⟩
      · rw [hcurrent', hposition']
        exact (hrun.mono (h.keeps hfull).step).snoc (.link hlink (hfresh.ne_zero _ hle))
      · rw [List.reduceOption_append, hpairs]
        exact List.append_nil _
    · rw [hposition']
    · intro j _
      rw [hcurrent']
      exact hnew _ hle le_rfl j
    · exact ⟨b.allocas, by omega, hle, hcurrent'⟩
    · intro i hi hallocas j
      exact hnew i hi (by omega) j
    · rw [hposition']
      decide
    · intro addr haddr
      rw [hcurrent', hnew _ hle le_rfl] at haddr
      cases haddr
  · rw [grow_of_room hfull]
    have hle := h.le
    refine ⟨h.toChain, by omega, ?_⟩
    intro addr haddr
    exact Option.some.inj (haddr.symm.trans h.terminator)

theorem recorded_appendAll (hfresh : FreshAllocas args.alloca limit)
    (hlimit : linked calls.length ≤ limit) (haddr : ∀ call ∈ calls, call.1 ≠ 0)
    (hcalls : calls ≠ []) : Recorded args limit calls (appendAll args calls) := by
  induction calls using List.reverseRecOn with
  | nil => exact absurd rfl hcalls
  | append_singleton calls call ih =>
      have hcounts := counts_appendAll args calls
      have hposition := hcounts.position
      have hallocas := hcounts.allocas
      have hcall := haddr call (List.mem_append_right _ (List.mem_singleton_self _))
      rw [List.length_append, List.length_singleton] at hlimit
      rw [appendAll_snoc, append_eq_record]
      by_cases hfirst : calls = []
      · subst hfirst
        have hroom : (init args).position ≠ bucketEntries * 2 :=
          (by decide : 0 ≠ bucketEntries * 2)
        have hready := ready_init args limit
        rw [← grow_of_room hroom] at hready
        exact hready.record hfresh hcall
      · have hbefore : Recorded args limit calls (appendAll args calls) := by
          apply ih _ _ hfirst
          · unfold linked bucketEntries at *
            omega
          · intro call hcall
            exact haddr call (List.mem_append_left _ hcall)
        have hroom : (appendAll args calls).position = bucketEntries * 2 →
            (appendAll args calls).allocas ≤ limit := by
          intro hfull
          unfold linked used bucketEntries at *
          omega
        exact (hbefore.grow hfresh hroom).record hfresh hcall

/-! ### What the reader finds -/

/-- A chain whose last bucket is neither empty nor full can be read back, and no other. -/
theorem reads_iff (hfresh : FreshAllocas args.alloca limit) (hlimit : linked calls.length ≤ limit)
    (haddr : ∀ call ∈ calls, call.1 ≠ 0) :
    Reads (appendAll args calls).ptrSize (args.alloca 0) calls
      ↔ calls.length % bucketEntries ≠ 0 := by
  by_cases hcalls : calls = []
  · subst hcalls
    have hblank := stuck_of_blank_addr
      (show (init args).ptrSize (args.alloca 0) 0 = none from rfl)
    exact iff_of_false (not_reads_of_stuck (.refl _) hblank []) (fun h => h rfl)
  have hrecorded := recorded_appendAll hfresh hlimit haddr hcalls
  have hposition := (counts_appendAll args calls).position
  have hpos := List.length_pos_of_ne_nil hcalls
  obtain ⟨labels, hrun, hpairs⟩ := hrecorded.run
  by_cases hfull : (appendAll args calls).position / 2 = bucketEntries
  · -- the last bucket is full, and its link was not written
    have hlink : (appendAll args calls).ptrSize (appendAll args calls).current
        (2 * bucketEntries + 1) = none := hrecorded.blank _ (by omega)
    rw [hfull] at hrun
    refine iff_of_false (not_reads_of_stuck hrun (stuck_of_blank_link hlink) calls) ?_
    unfold used linked bucketEntries at *
    omega
  · have hterminator := hrecorded.terminator
    have heven := hrecorded.even
    have hle := hrecorded.le
    have hhalf : 2 * ((appendAll args calls).position / 2) = (appendAll args calls).position := by
      omega
    refine iff_of_true ⟨labels, _, hrun, Or.inl ⟨by omega, ?_⟩, hpairs⟩ ?_
    · rw [hhalf]
      exact hterminator
    · unfold used linked bucketEntries at *
      omega

end Buckets

variable {alloca : Nat → Word} {lines : List MapsLine}

theorem addr_ne_zero_of_mem_calls (hsorted : Sorted 0 (lines.map MapsLine.region)) :
    ∀ call ∈ Vars.calls (freeGaps (stealArgs alloca) lines), call.1 ≠ 0 := by
  intro call hcall hzero
  obtain ⟨gap, hgap, rfl⟩ := List.mem_map.mp hcall
  have hle : (stealArgs alloca).beginAddr ≤ gap.1 :=
    (le_max_right _ _).trans (bounds_of_mem_gaps hsorted hgap).1
  have hgap0 : gap.1 = 0 := hzero
  rw [hgap0] at hle
  exact absurd hle (by decide : ¬ (1 <<< 16 : Word) ≤ 0)

/-- **When the chain is a record of the reservations.** Where each bucket is fresh, a reader of the
chain that `AfterGrab` is given reads the reserved ranges, each once and in order, and no slot that
was not written, if and only if the number of gaps is not a multiple of 32. -/
theorem reads_mmaps_iff_gaps (alloca : Nat → Word) (lines : List MapsLine)
    (hsorted : Sorted 0 (lines.map MapsLine.region)) (delivery : Delivery (mapsText lines))
    (buffer : Nat → Byte)
    (hfresh : FreshAllocas alloca ((freeGaps (stealArgs alloca) lines).length / bucketEntries)) :
    ∃ final : State (List (List Byte)),
      Iterates (State.step frozenKernel (stealArgs alloca))
          (State.start (stealArgs alloca) delivery.pieces buffer) final
        ∧ final.pc = .afterGrab (alloca 0)
        ∧ (Reads final.vars.buckets.ptrSize (alloca 0) final.vars.mmaps
          ↔ (freeGaps (stealArgs alloca) lines).length % bucketEntries ≠ 0) := by
  obtain ⟨final, hrun, hpc, hmmaps, hbuckets⟩ :=
    exists_final (stealArgs alloca) hsorted delivery buffer
  refine ⟨final, hrun, hpc, ?_⟩
  have hlength : (Vars.calls (freeGaps (stealArgs alloca) lines)).length
      = (freeGaps (stealArgs alloca) lines).length := List.length_map _
  have hlimit : Buckets.linked (Vars.calls (freeGaps (stealArgs alloca) lines)).length
      ≤ (freeGaps (stealArgs alloca) lines).length / bucketEntries := by
    rw [hlength]
    exact Nat.div_le_div_right (Nat.sub_le _ 1)
  rw [hmmaps, hbuckets, ← hlength]
  have hfresh' : FreshAllocas (stealArgs alloca).alloca _ := hfresh
  exact Buckets.reads_iff hfresh' hlimit (addr_ne_zero_of_mem_calls hsorted)

/-- Two buckets, at `0x9000` and `0xA000`. -/
def twoBuckets (i : Nat) : Word := 0x9000 + 0x1000 * BitVec.ofNat 64 i

/-- The reader goes on from 32 pairs in the first bucket to one in the second. -/
theorem reads_mmaps_iff_gaps_thirtyThree :
    ∃ final : State (List (List Byte)),
      Iterates (State.step frozenKernel (stealArgs twoBuckets))
          (State.start (stealArgs twoBuckets) (Delivery.bytewise (spacedText 32)).pieces
            fun _ => 0) final
        ∧ final.pc = .afterGrab 0x9000
        ∧ Reads final.vars.buckets.ptrSize 0x9000 final.vars.mmaps := by
  have hsorted : Sorted 0 (((spacedRegions 32).map MapsLine.padded).map MapsLine.region) := by
    decide
  have hcount : (freeGaps (stealArgs twoBuckets) ((spacedRegions 32).map .padded)).length = 33 := by
    decide
  have hfresh : FreshAllocas twoBuckets
      ((freeGaps (stealArgs twoBuckets) ((spacedRegions 32).map .padded)).length
        / bucketEntries) := by
    rw [hcount]
    exact ⟨by decide, by decide⟩
  obtain ⟨final, hrun, hpc, hreads⟩ := reads_mmaps_iff_gaps twoBuckets
    ((spacedRegions 32).map .padded) hsorted (Delivery.bytewise _) (fun _ => 0) hfresh
  refine ⟨final, hrun, hpc, hreads.mpr ?_⟩
  rw [hcount]
  decide

def fullRegion : MapsLine := .padded (0x10000, 0x7FFFFFFFF000)

/-- Without a gap the reader comes to slot 0 of the root, which was never written. -/
theorem not_reads_fullRegion : ∃ final : State (List (List Byte)),
    Iterates (State.step frozenKernel (stealArgs fun _ => 0x9000))
        (State.start (stealArgs fun _ => 0x9000)
          (Delivery.bytewise (mapsText [fullRegion])).pieces fun _ => 0) final
      ∧ final.pc = .afterGrab 0x9000
      ∧ ¬ Reads final.vars.buckets.ptrSize 0x9000 final.vars.mmaps := by
  obtain ⟨final, hrun, hpc, hmmaps, hbuckets⟩ := exists_final (stealArgs fun _ => 0x9000)
    (by decide : Sorted 0 ([fullRegion].map MapsLine.region))
    (Delivery.bytewise (mapsText [fullRegion])) fun _ => 0
  refine ⟨final, hrun, hpc, ?_⟩
  have hgaps : freeGaps (stealArgs fun _ => 0x9000) [fullRegion] = [] := by decide
  rw [hmmaps, hbuckets, hgaps]
  exact not_reads_of_stuck (.refl _) (stuck_of_blank_addr rfl) _

end FexTestBins.Alloc
