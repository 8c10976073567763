import FexTestBins.Proof.ReaderDecodes

/-!
# When the reader stays inside its memory

`read_debug_info` is told the size of its block, but looks at neither the size nor the offsets and
counts it finds, and always reports success.
-/

namespace FexTestBins.FexReader

open Words Memory

/-- What is read or passed on lies inside the block: bytes that are loaded, strings with their ends,
and the array of lines. -/
def Event.Inside (mem : Memory 64) (memory : Word) (size : Nat) : Event → Prop
  | .load addr count => Memory.Inside memory size addr count
  | .symtabOpen _ fileName => mem.Terminated memory size fileName
  | .blockOpen _ _ _ _ name => mem.Terminated memory size name
  | .lineMappingAdd _ nlines lines =>
      Memory.Inside memory size lines (lineSize * nlines.toInt.toNat)
  | _ => True

/-- **The promise.** A failure is reported, or everything lies inside. -/
def StaysInBlock (cbs : Callbacks) (mem : Memory 64) (memory : Word) (size : Nat) : Prop :=
  let result := readDebugInfo mem cbs memory (BitVec.ofNat 64 size)
  result.status ≠ .success ∨ ∀ event ∈ result.events, event.Inside mem memory size

/-- A zero at some offset from `first` on, inside the block. -/
def ZeroFrom (mem : Memory 64) (memory : Word) (size first : Nat) : Prop :=
  ∃ n, first ≤ n ∧ n < size ∧ mem (memory + BitVec.ofNat 64 n) = 0

def blocksOfs (mem : Memory 64) (memory : Word) : Word := loadLong mem (field memory blocksOfsAt)

def linesOfs (mem : Memory 64) (memory : Word) : Word := loadLong mem (field memory linesOfsAt)

/-- The block has room for an `info_t` and the arrays that its fields describe, and a zero behind
the beginning of every name. -/
structure WellFormed (mem : Memory 64) (memory : Word) (size : Nat) : Prop where
  info : infoSize ≤ size
  fileName : ZeroFrom mem memory size 0
  blocks : 0 < (nblocks mem memory).toInt → 0 ≤ (blocksOfs mem memory).toInt
    ∧ (blocksOfs mem memory).toInt + blockSize * (nblocks mem memory).toInt ≤ size
    ∧ ∀ i : Nat, i < (nblocks mem memory).toInt →
      ZeroFrom mem memory size ((blocksOfs mem memory).toNat + blockSize * i)
  lines : 0 < (nlines mem memory).toInt → 0 ≤ (linesOfs mem memory).toInt
    ∧ (linesOfs mem memory).toInt + lineSize * (nlines mem memory).toInt ≤ size

variable {mem : Memory 64} {memory info blocks symtab ofs : Word} {size i n : Nat}

/-! ### The events -/

theorem forall_openBlocks (P : Event → Prop) :
    (∀ event ∈ openBlocks mem info blocks symtab 0, P event)
      ↔ P (.load (field info nblocksAt) 4)
        ∧ ∀ i : Nat, i < (nblocks mem info).toInt →
          ∀ event ∈ openBlock mem blocks symtab i, P event := by
  rw [openBlocks_eq, ← List.range_eq_range']
  simp only [List.mem_append, List.mem_flatMap, List.mem_range, List.mem_cons, List.not_mem_nil,
    or_false]
  constructor
  · intro h
    refine ⟨h _ (.inr rfl), ?_⟩
    intro i hi event hevent
    exact h event (.inl ⟨i, by omega, .inr hevent⟩)
  · rintro ⟨hload, hblocks⟩ event (⟨i, hi, rfl | hevent⟩ | rfl)
    · exact hload
    · exact hblocks i (by omega) event hevent
    · exact hload

theorem forall_passLines (P : Event → Prop) :
    (∀ event ∈ passLines mem info 0, P event) ↔ P (.load (field info nlinesAt) 4) := by
  rw [passLines_eq]
  constructor
  · intro h
    exact h _ (List.mem_replicate.mpr ⟨Nat.succ_ne_zero _, rfl⟩)
  · intro hload event hevent
    obtain ⟨-, rfl⟩ := List.mem_replicate.mp hevent
    exact hload

/-! ### Ranges -/

theorem load_inside_iff (hsize : size < 2 ^ 63) {offset count : Nat} (hoffset : offset < infoSize)
    (hcount : 0 < count) :
    (Event.load (field memory offset) count).Inside mem memory size ↔ offset + count ≤ size := by
  unfold infoSize at hoffset
  rw [Event.Inside, field, inside_iff (by omega) hcount, BitVec.toNat_ofNat,
    Nat.mod_eq_of_lt (by omega)]

theorem fileName_inside_iff (hsize : size < 2 ^ 63) {object : Word} :
    (Event.symtabOpen object memory).Inside mem memory size
      ↔ ZeroFrom mem memory size 0 := by
  have hself : mem.Terminated memory size (memory + 0#64) ↔ ZeroFrom mem memory size 0 :=
    terminated_iff (by omega)
  rwa [BitVec.add_zero] at hself

theorem element_eq (ofs memory : Word) (k : Nat) :
    field (ofs + memory) k = memory + (ofs + BitVec.ofNat 64 k) := by
  rw [field, BitVec.add_comm ofs, BitVec.add_assoc]

theorem toInt_ofs_iff (hsize : size < 2 ^ 63) (ofs : Word) (length : Int) (hlength : 0 < length) :
    0 ≤ ofs.toInt ∧ ofs.toInt + length ≤ size ↔ (ofs.toNat : Int) + length ≤ size := by
  rw [BitVec.toInt_eq_toNat_cond]
  have hlt := ofs.isLt
  split <;> omega

/-- One block: where its record is and a zero behind the beginning of its name. -/
theorem openBlock_inside_iff (hsize : size < 2 ^ 63) :
    (∀ event ∈ openBlock mem (ofs + memory) symtab i, event.Inside mem memory size)
      ↔ (ofs + BitVec.ofNat 64 (blockSize * i)).toNat + blockSize ≤ size
        ∧ ZeroFrom mem memory size (ofs + BitVec.ofNat 64 (blockSize * i)).toNat := by
  have hfield : ∀ offset, field (field (ofs + memory) (blockSize * i)) offset
      = memory + (ofs + BitVec.ofNat 64 (blockSize * i) + BitVec.ofNat 64 offset) := by
    intro offset
    rw [element_eq, field, BitVec.add_assoc]
  simp only [openBlock, List.forall_mem_cons, List.not_mem_nil, IsEmpty.forall_iff, implies_true,
    and_true, Event.Inside, hfield]
  rw [element_eq, terminated_iff (by omega), inside_iff (by omega) (by decide),
    inside_iff (by omega) (by decide), ← ZeroFrom]
  generalize ofs + BitVec.ofNat 64 (blockSize * i) = place
  unfold startAt endAt blockSize
  constructor
  · rintro ⟨-, hstop, n, hle, hlt, hzero⟩
    rw [toNat_add_ofNat (by omega)] at hstop
    exact ⟨by omega, n, hle, hlt, hzero⟩
  · rintro ⟨hblock, hname⟩
    rw [toNat_add_ofNat (by omega), toNat_add_ofNat (by omega)]
    exact ⟨by omega, by omega, hname⟩

/-- Records that all lie inside the block follow one another without a wrap. -/
theorem toNat_element (hsize : size < 2 ^ 63)
    (hinside : ∀ i < n, (ofs + BitVec.ofNat 64 (blockSize * i)).toNat + blockSize ≤ size)
    (hi : i < n) : (ofs + BitVec.ofNat 64 (blockSize * i)).toNat = ofs.toNat + blockSize * i := by
  induction i with
  | zero => rw [Nat.mul_zero, BitVec.add_zero, Nat.add_zero]
  | succ i ih =>
      have hbefore := hinside i (by omega)
      rw [ih (by omega)] at hbefore
      apply toNat_add_ofNat
      unfold blockSize at *
      omega

theorem blocks_inside_iff (hsize : size < 2 ^ 63) {n : Int} (hn : n < 2 ^ 31) :
    (∀ i : Nat, i < n → ∀ event ∈ openBlock mem (ofs + memory) symtab i,
        event.Inside mem memory size)
      ↔ (0 < n → 0 ≤ ofs.toInt ∧ ofs.toInt + blockSize * n ≤ size
        ∧ ∀ i : Nat, i < n → ZeroFrom mem memory size (ofs.toNat + blockSize * i)) := by
  simp only [openBlock_inside_iff hsize]
  constructor
  · intro h hpos
    have hinside : ∀ i < n.toNat,
        (ofs + BitVec.ofNat 64 (blockSize * i)).toNat + blockSize ≤ size := by
      intro i hi
      exact (h i (by omega)).1
    have hlast := hinside (n.toNat - 1) (by omega)
    rw [toNat_element hsize hinside (by omega)] at hlast
    have hofs := (toInt_ofs_iff hsize ofs (blockSize * n) (by unfold blockSize; omega)).mpr (by
      unfold blockSize at *
      omega)
    refine ⟨hofs.1, hofs.2, ?_⟩
    intro i hi
    rw [← toNat_element hsize hinside (by omega)]
    exact (h i hi).2
  · intro h i hi
    obtain ⟨hge, hle, hnames⟩ := h (by omega)
    have hend := (toInt_ofs_iff hsize ofs (blockSize * n) (by unfold blockSize; omega)).mp
      ⟨hge, hle⟩
    have hplace : (ofs + BitVec.ofNat 64 (blockSize * i)).toNat = ofs.toNat + blockSize * i := by
      apply toNat_add_ofNat
      unfold blockSize at *
      omega
    rw [hplace]
    refine ⟨?_, hnames i hi⟩
    unfold blockSize at *
    omega

theorem lines_inside_iff (hsize : size < 2 ^ 63) {nlines : BitVec 32} :
    (Event.lineMappingAdd symtab nlines (ofs + memory)).Inside mem memory size
      ↔ (0 < nlines.toInt → 0 ≤ ofs.toInt ∧ ofs.toInt + lineSize * nlines.toInt ≤ size) := by
  rw [Event.Inside, BitVec.add_comm]
  by_cases hpos : 0 < nlines.toInt
  · rw [inside_iff (by omega) (by unfold lineSize; omega),
      toInt_ofs_iff hsize ofs _ (by unfold lineSize; omega)]
    unfold lineSize
    omega
  · have hnone : lineSize * nlines.toInt.toNat = 0 := by
      rw [Int.toNat_of_nonpos (by omega), Nat.mul_zero]
    rw [hnone]
    exact iff_of_true (fun i hi => absurd hi (Nat.not_lt_zero i)) (fun h => absurd h hpos)

/-! ### What was encoded -/

theorem NameField.exists_zero {name : NameField} (offset : Word)
    (h : mem.Holds (memory + offset) name.bytes) (hsize : offset.toNat + nameSize ≤ size) :
    ZeroFrom mem memory size offset.toNat := by
  have hlength := name.length_eq
  refine ⟨offset.toNat + name.name.length, Nat.le_add_right _ _, by omega, ?_⟩
  have hzero := (holds_cons.mp (holds_append.mp h).2).1
  rw [BitVec.ofNat_add, BitVec.ofNat_toNat, BitVec.setWidth_eq, ← BitVec.add_assoc]
  exact hzero

/-- What was encoded is well formed, if the block is large enough for it. -/
theorem LaidOut.wellFormed {debug : DebugInfo} {ofs ofs' : Word}
    (h : LaidOut mem memory debug ofs ofs') (hinfo : infoSize ≤ size)
    (hblocks : ofs.toNat + blockSize * debug.blocks.length ≤ size)
    (hlines : ofs'.toNat + lineSize * debug.lines.length ≤ size) (hsize : size < 2 ^ 63) :
    WellFormed mem memory size := by
  obtain ⟨-, hofs, hofs', hnblocks, hnlines⟩ := h.loads
  refine ⟨hinfo, ?_, ?_, ?_⟩
  · have hname := h.info.part 0 0 rfl rfl
    exact NameField.exists_zero 0 hname (le_trans (by decide) hinfo)
  · rw [blocksOfs, hofs, hnblocks]
    intro hpos
    obtain ⟨hge, hle⟩ := (toInt_ofs_iff hsize ofs (blockSize * debug.blocks.length) (by
      unfold blockSize
      omega)).mpr (by exact_mod_cast hblocks)
    refine ⟨hge, hle, ?_⟩
    intro i hi
    have hi : i < debug.blocks.length := by omega
    have hholds := Holds.get Block.length_bytes h.blocks (List.getElem?_eq_getElem hi)
    have hname := hholds.part 0 0 rfl rfl
    have hplace : (ofs + BitVec.ofNat 64 (blockSize * i)).toNat = ofs.toNat + blockSize * i := by
      apply toNat_add_ofNat
      unfold blockSize at *
      omega
    rw [BitVec.add_zero, BitVec.add_assoc] at hname
    rw [← hplace]
    apply NameField.exists_zero _ hname
    rw [hplace]
    unfold blockSize nameSize at *
    omega
  · rw [linesOfs, hofs', hnlines]
    intro hpos
    exact (toInt_ofs_iff hsize ofs' (lineSize * debug.lines.length) (by
      unfold lineSize
      omega)).mpr (by exact_mod_cast hlines)

/-! ### The whole run -/

/-- **When the reader stays inside.** For every content of the block, exactly if it is well
formed. -/
theorem staysInBlock_iff (cbs : Callbacks) (mem : Memory 64) (memory : Word) (size : Nat)
    (hsize : size < 2 ^ 63) : StaysInBlock cbs mem memory size ↔ WellFormed mem memory size := by
  have hn : (nblocks mem memory).toInt < 2 ^ 31 := by
    have hlt := BitVec.toInt_lt (x := nblocks mem memory)
    omega
  have hevents : StaysInBlock cbs mem memory size ↔
      ∀ event ∈ (readDebugInfo mem cbs memory (BitVec.ofNat 64 size)).events,
        event.Inside mem memory size :=
    or_iff_right fun h => h rfl
  rw [hevents]
  simp only [readDebugInfo, List.forall_mem_append, List.forall_mem_cons, List.not_mem_nil,
    IsEmpty.forall_iff, implies_true, and_true, forall_openBlocks, forall_passLines,
    blocks_inside_iff hsize hn, lines_inside_iff hsize, fileName_inside_iff hsize]
  rw [load_inside_iff hsize (by decide) (by decide), load_inside_iff hsize (by decide) (by decide),
    load_inside_iff hsize (by decide) (by decide), load_inside_iff hsize (by decide) (by decide)]
  constructor
  · rintro ⟨⟨⟨⟨-, -, -, hname⟩, -, hblocks⟩, hinfo⟩, -, hlines, -, -⟩
    exact ⟨hinfo, hname, hblocks, hlines⟩
  · rintro ⟨hinfo, hname, hblocks, hlines⟩
    exact ⟨⟨⟨⟨le_trans (by decide) hinfo, le_trans (by decide) hinfo, trivial, hname⟩,
      le_trans (by decide) hinfo, hblocks⟩, le_trans (by decide) hinfo⟩,
      le_trans (by decide) hinfo, hlines, trivial, trivial⟩

/-- A block of zeros, of the size of an `info_t`, but for the last byte of `nlines`. -/
def manyLines : Memory 64 := fun addr => if addr = 0x1000 + 535 then 0x7F else 0

/-- 0x7F000000 lines are passed on, none of which is there. -/
theorem not_staysInBlock_manyLines :
    ¬ StaysInBlock ⟨1, fun _ _ => 2⟩ manyLines 0x1000 infoSize := by
  rintro (hfail | hall)
  · exact hfail rfl
  have hcount : (nlines manyLines 0x1000).toInt = 0x7F000000 := by decide
  have hofs : loadLong manyLines (field 0x1000 linesOfsAt) = 0 := by decide
  have hlines := hall (.lineMappingAdd 2 (nlines manyLines 0x1000)
    (loadLong manyLines (field 0x1000 linesOfsAt) + 0x1000))
    (List.mem_append_right _ (List.mem_cons_of_mem _ List.mem_cons_self))
  rw [lines_inside_iff (by decide), hcount, hofs] at hlines
  have hle := (hlines (by decide)).2
  exact absurd hle (by decide)

/-- A block that is just large enough for its two functions and three lines. -/
theorem staysInBlock_iff_twoBlocks :
    StaysInBlock ⟨1, fun _ _ => 2⟩ twoBlocksMemory 0x1000 1824 := by
  apply (staysInBlock_iff ⟨1, fun _ _ => 2⟩ twoBlocksMemory 0x1000 1824 (by decide)).mpr
  exact laidOut_twoBlocks.wellFormed (by decide) (by decide) (by decide) (by decide)

end FexTestBins.FexReader
