import FexTestBins.ProcMaps

/-!
# Parsing the maps file

One line of the file amounts to one reservation, of the gap before its region, and a listing to the
reservations of all gaps that end at a region. The program learns nothing from `mmap`, so the same
is true whatever kernel it runs on.
-/

namespace FexTestBins.Alloc

open Words IntervalGaps

variable {σ : Type} (kernel : Kernel σ) (args : Args)

namespace Vars

def consumeAll (v : Vars σ) (bytes : List Byte) : Vars σ := bytes.foldl (consume kernel args) v

def reserveAll (v : Vars σ) (ranges : List (Word × Word)) : Vars σ :=
  ranges.foldl (fun v range => v.reserve kernel args range.1 range.2) v

variable {kernel args} {v : Vars σ} {c : Byte} {bytes bytes' : List Byte} {lines : List MapsLine}
  {ranges ranges' : List (Word × Word)} {left right : Word}

@[simp]
theorem consumeAll_nil : v.consumeAll kernel args [] = v := rfl

@[simp]
theorem consumeAll_cons : v.consumeAll kernel args (c :: bytes)
    = (v.consume kernel args c).consumeAll kernel args bytes := rfl

theorem consumeAll_append : v.consumeAll kernel args (bytes ++ bytes')
    = (v.consumeAll kernel args bytes).consumeAll kernel args bytes' :=
  List.foldl_append

@[simp]
theorem reserveAll_nil : v.reserveAll kernel args [] = v := rfl

theorem reserveAll_cons {range : Word × Word} : v.reserveAll kernel args (range :: ranges)
    = (v.reserve kernel args range.1 range.2).reserveAll kernel args ranges := rfl

theorem reserveAll_append : v.reserveAll kernel args (ranges ++ ranges')
    = (v.reserveAll kernel args ranges).reserveAll kernel args ranges' :=
  List.foldl_append

/-- The test before a reservation asks whether there is a gap. -/
theorem reserve_eq_reserveAll :
    v.reserve kernel args left right = v.reserveAll kernel args (gap left right) := by
  by_cases hlt : left < right
  · rw [gap, if_pos hlt]
    rfl
  · rw [gap, if_neg hlt, reserve, if_neg hlt]
    rfl

def setParser (v : Vars σ) (state : ParseState) (regionBegin regionEnd : Word) : Vars σ :=
  { v with state := state, regionBegin := regionBegin, regionEnd := regionEnd }

theorem reserve_setParser {state : ParseState} {regionBegin regionEnd : Word} :
    (v.setParser state regionBegin regionEnd).reserve kernel args left right
      = (v.reserve kernel args left right).setParser state regionBegin regionEnd := by
  unfold reserve setParser
  split <;> rfl

end Vars

/-! ### Numbers -/

/-- A hexadecimal digit ends no number, and counts as what it stands for. -/
theorem hexDigit_spec : ∀ d : Fin 16, hexDigit d ≠ ascii '-' ∧ hexDigit d ≠ ascii ' '
    ∧ digit (hexDigit d) = BitVec.ofNat 64 d.val := by
  decide

theorem toNat_shiftIn (r : Word) (d : Fin 16) (hfits : 16 * r.toNat + d.val < 2 ^ 64) :
    (shiftIn r (hexDigit d)).toNat = 16 * r.toNat + d.val := by
  have hd : d.val < 2 ^ 4 := d.isLt
  have hlow : (BitVec.ofNat 64 d.val).toNat = d.val := by
    rw [BitVec.toNat_ofNat, Nat.mod_eq_of_lt (by omega)]
  have hshift : (r <<< 4).toNat = r.toNat <<< 4 := by
    rw [BitVec.toNat_shiftLeft, Nat.mod_eq_of_lt]
    rw [Nat.shiftLeft_eq]
    omega
  calc (shiftIn r (hexDigit d)).toNat
      = r.toNat <<< 4 ||| d.val := by
        rw [shiftIn, (hexDigit_spec d).2.2, BitVec.toNat_or, hlow, hshift]
    _ = r.toNat <<< 4 + d.val := (Nat.shiftLeft_add_eq_or_of_lt hd r.toNat).symm
    _ = 16 * r.toNat + d.val := by
        rw [Nat.shiftLeft_eq]
        omega

theorem le_spelled (number : Nat) (digits : List (Fin 16)) : number ≤ spelled number digits := by
  induction digits generalizing number with
  | nil => exact le_rfl
  | cons d digits ih =>
      calc number ≤ 16 * number + d.val := by omega
        _ ≤ spelled number (d :: digits) := ih (16 * number + d.val)

theorem toNat_foldl_shiftIn (r : Word) (digits : List (Fin 16))
    (hfits : spelled r.toNat digits < 2 ^ 64) :
    ((digits.map hexDigit).foldl shiftIn r).toNat = spelled r.toNat digits := by
  induction digits generalizing r with
  | nil => rfl
  | cons d digits ih =>
      have hle := le_spelled (16 * r.toNat + d.val) digits
      have hfits' : spelled (16 * r.toNat + d.val) digits < 2 ^ 64 := hfits
      have hnext := toNat_shiftIn r d (by omega)
      rw [List.map_cons, List.foldl_cons, ih _ (by rw [hnext]; exact hfits'), hnext]
      rfl

theorem foldl_numeral {value : Word} (numeral : Numeral value) :
    numeral.text.foldl shiftIn 0 = value := by
  apply BitVec.eq_of_toNat_eq
  have hfits : spelled 0 numeral.digits < 2 ^ 64 := numeral.spells ▸ value.isLt
  exact (toNat_foldl_shiftIn 0 numeral.digits hfits).trans numeral.spells

theorem ne_of_mem_numeral {value : Word} {numeral : Numeral value} {c : Byte}
    (hmem : c ∈ numeral.text) : c ≠ ascii '-' ∧ c ≠ ascii ' ' := by
  obtain ⟨d, -, rfl⟩ := List.mem_map.mp hmem
  exact ⟨(hexDigit_spec d).1, (hexDigit_spec d).2.1⟩

/-! ### Lines -/

namespace Vars

variable {kernel args} {v : Vars σ} {bytes : List Byte} {regionBegin regionEnd : Word}

theorem consumeAll_begin (hbytes : ∀ c ∈ bytes, c ≠ ascii '-') :
    (v.setParser .parseBegin regionBegin regionEnd).consumeAll kernel args bytes
      = v.setParser .parseBegin (bytes.foldl shiftIn regionBegin) regionEnd := by
  induction bytes generalizing regionBegin with
  | nil => rfl
  | cons c bytes ih =>
      obtain ⟨hc, hbytes⟩ := List.forall_mem_cons.mp hbytes
      have hnext : (v.setParser .parseBegin regionBegin regionEnd).consume kernel args c
          = v.setParser .parseBegin (shiftIn regionBegin c) regionEnd := if_neg hc
      rw [consumeAll_cons, hnext, ih hbytes, List.foldl_cons]

theorem consumeAll_end (hbytes : ∀ c ∈ bytes, c ≠ ascii ' ') :
    (v.setParser .parseEnd regionBegin regionEnd).consumeAll kernel args bytes
      = v.setParser .parseEnd regionBegin (bytes.foldl shiftIn regionEnd) := by
  induction bytes generalizing regionEnd with
  | nil => rfl
  | cons c bytes ih =>
      obtain ⟨hc, hbytes⟩ := List.forall_mem_cons.mp hbytes
      have hnext : (v.setParser .parseEnd regionBegin regionEnd).consume kernel args c
          = v.setParser .parseEnd regionBegin (shiftIn regionEnd c) := if_neg hc
      rw [consumeAll_cons, hnext, ih hbytes, List.foldl_cons]

theorem consumeAll_scan (hbytes : ascii '\n' ∉ bytes) :
    (v.setParser .scanEnd regionBegin regionEnd).consumeAll kernel args bytes
      = v.setParser .scanEnd regionBegin regionEnd := by
  induction bytes with
  | nil => rfl
  | cons c bytes ih =>
      obtain ⟨hc, hbytes⟩ := not_or.mp fun h => hbytes (List.mem_cons.mpr h)
      have hnext : (v.setParser .scanEnd regionBegin regionEnd).consume kernel args c
          = v.setParser .scanEnd regionBegin regionEnd := if_neg (Ne.symm hc)
      rw [consumeAll_cons, hnext, ih hbytes]

theorem consume_dash :
    (v.setParser .parseBegin regionBegin regionEnd).consume kernel args (ascii '-')
      = (v.reserve kernel args (max regionEnd args.beginAddr)
          (min regionBegin args.endAddr)).setParser .parseEnd 0 0 := by
  have hreserve : (v.setParser .parseBegin regionBegin regionEnd).reserve kernel args
        (max regionEnd args.beginAddr) (min regionBegin args.endAddr)
      = (v.reserve kernel args (max regionEnd args.beginAddr)
          (min regionBegin args.endAddr)).setParser .parseBegin regionBegin regionEnd :=
    reserve_setParser
  simp only [consume, if_true]
  exact (congrArg (setParser · .parseEnd 0 0) hreserve).trans rfl

theorem consume_space :
    (v.setParser .parseEnd regionBegin regionEnd).consume kernel args (ascii ' ')
      = v.setParser .scanEnd regionBegin regionEnd := by
  simp only [consume, setParser, if_true]

theorem consume_newline :
    (v.setParser .scanEnd regionBegin regionEnd).consume kernel args (ascii '\n')
      = v.setParser .parseBegin regionBegin regionEnd := by
  simp only [consume, setParser, if_true]

theorem consumeAll_beginField {value : Word} (numeral : Numeral value) :
    (v.setParser .parseBegin 0 regionEnd).consumeAll kernel args
        (numeral.text ++ ascii '-' :: bytes)
      = ((v.reserve kernel args (max regionEnd args.beginAddr)
          (min value args.endAddr)).setParser .parseEnd 0 0).consumeAll kernel args bytes := by
  have hdigits : ∀ c ∈ numeral.text, c ≠ ascii '-' := by
    intro c hc
    exact (ne_of_mem_numeral hc).1
  rw [consumeAll_append, consumeAll_begin hdigits, foldl_numeral, consumeAll_cons, consume_dash]

theorem consumeAll_endField {value : Word} (numeral : Numeral value) :
    (v.setParser .parseEnd regionBegin 0).consumeAll kernel args
        (numeral.text ++ ascii ' ' :: bytes)
      = (v.setParser .scanEnd regionBegin value).consumeAll kernel args bytes := by
  have hdigits : ∀ c ∈ numeral.text, c ≠ ascii ' ' := by
    intro c hc
    exact (ne_of_mem_numeral hc).2
  rw [consumeAll_append, consumeAll_end hdigits, foldl_numeral, consumeAll_cons, consume_space]

theorem consumeAll_restField (hbytes : ascii '\n' ∉ bytes) :
    (v.setParser .scanEnd regionBegin regionEnd).consumeAll kernel args (bytes ++ [ascii '\n'])
      = v.setParser .parseBegin regionBegin regionEnd := by
  rw [consumeAll_append, consumeAll_scan hbytes, consumeAll_cons, consume_newline, consumeAll_nil]

/-- **One line.** The gap up to its region is taken, and the next gap starts behind the region. -/
theorem consumeAll_line (line : MapsLine) :
    (v.setParser .parseBegin 0 regionEnd).consumeAll kernel args line.text
      = (v.reserve kernel args (max regionEnd args.beginAddr)
          (min line.regionBegin args.endAddr)).setParser .parseBegin 0 line.regionEnd := by
  rw [MapsLine.text, consumeAll_beginField, consumeAll_endField,
    consumeAll_restField line.no_newline]

/-- **A listing.** The gaps that end at its regions are taken, from left to right. -/
theorem consumeAll_mapsText (lines : List MapsLine) :
    (v.setParser .parseBegin 0 regionEnd).consumeAll kernel args (mapsText lines)
      = (v.reserveAll kernel args (gapsBefore args.beginAddr args.endAddr regionEnd
          (lines.map MapsLine.region))).setParser .parseBegin 0
            (lastEnd regionEnd (lines.map MapsLine.region)) := by
  induction lines generalizing v regionEnd with
  | nil => rfl
  | cons line lines ih =>
      rw [mapsText, List.flatMap_cons, consumeAll_append, consumeAll_line, ← mapsText, ih,
        reserve_eq_reserveAll, ← reserveAll_append]
      rfl

/-! ### What the kernel has no part in -/

def program (v : Vars σ) : Vars Unit :=
  { buckets := v.buckets
    state := v.state
    regionBegin := v.regionBegin
    regionEnd := v.regionEnd
    kernel := ()
    mmaps := v.mmaps }

end Vars

def noKernel : Kernel Unit where
  read := fun _ => (.data [], ())
  mmap := fun _ _ _ => ()

namespace Vars

variable {kernel args} {v : Vars σ} {bytes : List Byte} {left right : Word}
  {ranges : List (Word × Word)}

theorem program_setParser {state : ParseState} {regionBegin regionEnd : Word} :
    (v.setParser state regionBegin regionEnd).program
      = v.program.setParser state regionBegin regionEnd := rfl

theorem program_reserve : (v.reserve kernel args left right).program
    = v.program.reserve noKernel args left right := by
  unfold reserve
  split <;> rfl

theorem program_consume (c : Byte) :
    (v.consume kernel args c).program = v.program.consume noKernel args c := by
  obtain ⟨w, state, regionBegin, regionEnd, rfl⟩ :
      ∃ w state regionBegin regionEnd, v = setParser w state regionBegin regionEnd :=
    ⟨v, _, _, _, rfl⟩
  rw [program_setParser]
  cases state with
  | parseBegin =>
      by_cases hc : c = ascii '-'
      · rw [hc, consume_dash, consume_dash, program_setParser, program_reserve]
      · simp only [consume, setParser, program, if_neg hc]
  | parseEnd =>
      by_cases hc : c = ascii ' '
      · simp only [consume, setParser, program, if_pos hc]
      · simp only [consume, setParser, program, if_neg hc]
  | scanEnd =>
      by_cases hc : c = ascii '\n'
      · simp only [consume, setParser, program, if_pos hc]
      · simp only [consume, setParser, program, if_neg hc]

theorem program_consumeAll :
    (v.consumeAll kernel args bytes).program = v.program.consumeAll noKernel args bytes := by
  induction bytes generalizing v with
  | nil => rfl
  | cons c bytes ih => rw [consumeAll_cons, ih, program_consume, consumeAll_cons]

/-- A byte sets the parser's variables, and may lead to one reservation. -/
theorem exists_reserve (kernel : Kernel σ) (args : Args) (v : Vars σ) (c : Byte) :
    ∃ left right state regionBegin regionEnd, v.consume kernel args c
      = (v.reserve kernel args left right).setParser state regionBegin regionEnd := by
  have hset : ∀ state regionBegin regionEnd, v.setParser state regionBegin regionEnd
      = (v.reserve kernel args 0 0).setParser state regionBegin regionEnd := by
    intro state regionBegin regionEnd
    rw [reserve, if_neg (lt_irrefl _)]
  cases hstate : v.state with
  | parseBegin =>
      by_cases hc : c = ascii '-'
      · simp only [consume, hstate, if_pos hc]
        exact ⟨_, _, _, _, _, rfl⟩
      · simp only [consume, hstate, if_neg hc]
        exact ⟨_, _, _, _, _, hset .parseBegin (shiftIn v.regionBegin c) v.regionEnd⟩
  | parseEnd =>
      by_cases hc : c = ascii ' '
      · simp only [consume, hstate, if_pos hc]
        exact ⟨_, _, _, _, _, hset .scanEnd v.regionBegin v.regionEnd⟩
      · simp only [consume, hstate, if_neg hc]
        exact ⟨_, _, _, _, _, hset .parseEnd v.regionBegin (shiftIn v.regionEnd c)⟩
  | scanEnd =>
      by_cases hc : c = ascii '\n'
      · simp only [consume, hstate, if_pos hc]
        exact ⟨_, _, _, _, _, hset .parseBegin v.regionBegin v.regionEnd⟩
      · simp only [consume, hstate, if_neg hc]
        exact ⟨_, _, _, _, _, hset v.state v.regionBegin v.regionEnd⟩

/-- Between two points of a run some calls were made, which reached the kernel and are on record. -/
def Made (kernel : Kernel σ) (v v' : Vars σ) : Prop :=
  ∃ made : List (Word × Word), v'.mmaps = v.mmaps ++ made
    ∧ v'.kernel = made.foldl (fun k call => kernel.mmap k call.1 call.2) v.kernel

theorem made_reserve (kernel : Kernel σ) (args : Args) (v : Vars σ) (left right : Word) :
    Made kernel v (v.reserve kernel args left right) := by
  by_cases hlt : left < right
  · exact ⟨[(left, right - left)], by simp [reserve, hlt]⟩
  · exact ⟨[], by simp [reserve, hlt]⟩

theorem made_consumeAll (kernel : Kernel σ) (args : Args) (v : Vars σ) (bytes : List Byte) :
    Made kernel v (v.consumeAll kernel args bytes) := by
  induction bytes generalizing v with
  | nil => exact ⟨[], (List.append_nil _).symm, rfl⟩
  | cons c bytes ih =>
      have hone : Made kernel v (v.consume kernel args c) := by
        obtain ⟨left, right, state, regionBegin, regionEnd, heq⟩ :=
          exists_reserve kernel args v c
        rw [heq]
        exact made_reserve kernel args v left right
      obtain ⟨first, hfirst, hkernel⟩ := hone
      obtain ⟨rest, hrest, hkernel'⟩ := ih (v.consume kernel args c)
      use first ++ rest
      constructor
      · rw [consumeAll_cons, hrest, hfirst, List.append_assoc]
      · rw [consumeAll_cons, hkernel', hkernel, List.foldl_append]

/-! ### What reservations leave behind -/

def calls (ranges : List (Word × Word)) : List (Word × Word) :=
  ranges.map fun range => (range.1, range.2 - range.1)

variable (hranges : ∀ range ∈ ranges, range.1 < range.2)
include hranges

theorem mmaps_reserveAll :
    (v.reserveAll kernel args ranges).mmaps = v.mmaps ++ calls ranges := by
  induction ranges generalizing v with
  | nil => simp [calls]
  | cons range ranges ih =>
      obtain ⟨hrange, hranges⟩ := List.forall_mem_cons.mp hranges
      rw [reserveAll_cons, ih hranges, reserve, if_pos hrange, calls, calls, List.map_cons,
        List.append_assoc, List.singleton_append]

theorem buckets_reserveAll : (v.reserveAll kernel args ranges).buckets
    = (calls ranges).foldl (fun b call => b.append args call.1 call.2) v.buckets := by
  induction ranges generalizing v with
  | nil => rfl
  | cons range ranges ih =>
      obtain ⟨hrange, hranges⟩ := List.forall_mem_cons.mp hranges
      rw [reserveAll_cons, ih hranges, reserve, if_pos hrange]
      rfl

end Vars

end FexTestBins.Alloc
