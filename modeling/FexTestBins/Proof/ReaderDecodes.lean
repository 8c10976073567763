import FexTestBins.FexReader
import Mathlib.Data.List.Forall2

/-!
# The reader decodes what was encoded

Wherever in the block the three parts of the format are, and whatever is in the padding, the
callbacks are told the names, addresses and lines that were written, in their order.
-/

namespace FexTestBins.FexReader

open Words Memory

/-! ### The format -/

/-- A string in a field of `nameSize` bytes, with anything behind its end. -/
structure NameField where
  name : List Byte
  padding : List Byte
  nonzero : 0 ∉ name
  length_eq : name.length + 1 + padding.length = nameSize

def NameField.bytes (field : NameField) : List Byte := field.name ++ 0 :: field.padding

structure Block where
  name : NameField
  start : Word
  stop : Word

def Block.parts (block : Block) : List (List Byte) :=
  [block.name.bytes, toLE 8 block.start.toNat, toLE 8 block.stop.toNat]

def Block.bytes (block : Block) : List Byte := block.parts.flatten

structure LineMapping where
  line : BitVec 32
  pc : Word

/-- A `gdb_line_mapping` with the four bytes between its fields. -/
structure LineRecord extends LineMapping where
  padding : BitVec 32

def LineRecord.parts (record : LineRecord) : List (List Byte) :=
  [toLE 4 record.line.toNat, toLE 4 record.padding.toNat, toLE 8 record.pc.toNat]

def LineRecord.bytes (record : LineRecord) : List Byte := record.parts.flatten

structure DebugInfo where
  filename : NameField
  blocks : List Block
  lines : List LineRecord

def DebugInfo.parts (debug : DebugInfo) (blocksOfs linesOfs : Word) : List (List Byte) :=
  [debug.filename.bytes, toLE 8 blocksOfs.toNat, toLE 8 linesOfs.toNat,
    toLE 4 debug.blocks.length, toLE 4 debug.lines.length]

/-- The three parts in memory, at any offsets; both counts are representable as an `int`. -/
structure LaidOut (mem : Memory 64) (memory : Word) (debug : DebugInfo)
    (blocksOfs linesOfs : Word) : Prop where
  info : mem.Holds memory (debug.parts blocksOfs linesOfs).flatten
  blocks : mem.Holds (memory + blocksOfs) (debug.blocks.flatMap Block.bytes)
  lines : mem.Holds (memory + linesOfs) (debug.lines.flatMap LineRecord.bytes)
  nblocks_lt : debug.blocks.length < 2 ^ 31
  nlines_lt : debug.lines.length < 2 ^ 31

/-! ### What a callback is told -/

inductive Callback where
  | objectOpen
  | symtabOpen (object : Word) (fileName : List Byte)
  | blockOpen (symtab start stop : Word) (name : List Byte)
  | lineMappingAdd (symtab : Word) (lines : List LineMapping)
  | symtabClose (symtab : Word)
  | objectClose (object : Word)

/-- What a call says to a debugger that follows the pointers it is given. -/
inductive Shows (mem : Memory 64) : Event → Callback → Prop
  | objectOpen : Shows mem .objectOpen .objectOpen
  | symtabOpen {object ptr : Word} {fileName : List Byte} : mem.CString ptr fileName →
      Shows mem (.symtabOpen object ptr) (.symtabOpen object fileName)
  | blockOpen {symtab start stop ptr : Word} {name : List Byte} : mem.CString ptr name →
      Shows mem (.blockOpen symtab 0 start stop ptr) (.blockOpen symtab start stop name)
  | lineMappingAdd {symtab ptr : Word} {nlines : BitVec 32} {lines : List LineMapping} :
      nlines.toInt = lines.length →
      (∀ i mapping, lines[i]? = some mapping →
        loadInt mem (field ptr (lineSize * i)) = mapping.line
          ∧ loadLong mem (field (field ptr (lineSize * i)) pcAt) = mapping.pc) →
      Shows mem (.lineMappingAdd symtab nlines ptr) (.lineMappingAdd symtab lines)
  | symtabClose {symtab : Word} : Shows mem (.symtabClose symtab) (.symtabClose symtab)
  | objectClose {object : Word} : Shows mem (.objectClose object) (.objectClose object)

def Event.isCall : Event → Bool
  | .load _ _ => false
  | _ => true

def DebugInfo.callbacks (debug : DebugInfo) (object symtab : Word) : List Callback :=
  [.objectOpen, .symtabOpen object debug.filename.name]
    ++ debug.blocks.map (fun block => .blockOpen symtab block.start block.stop block.name.name)
    ++ [.lineMappingAdd symtab (debug.lines.map LineRecord.toLineMapping), .symtabClose symtab,
      .objectClose object]

variable {mem : Memory 64} {memory info blocks symtab : Word} {blocksOfs linesOfs : Word}
  {debug : DebugInfo} {i : Nat}

theorem Shows.unique {event : Event} {callback callback' : Callback}
    (h : Shows mem event callback) (h' : Shows mem event callback') : callback = callback' := by
  cases h with
  | objectOpen => cases h' with | objectOpen => rfl
  | symtabOpen hname => cases h' with | symtabOpen hname' => rw [hname.unique hname']
  | blockOpen hname => cases h' with | blockOpen hname' => rw [hname.unique hname']
  | lineMappingAdd hcount hlines =>
      cases h' with
      | lineMappingAdd hcount' hlines' =>
          rename_i lines lines'
          have hlength : lines.length = lines'.length := by omega
          congr 1
          apply List.ext_getElem hlength
          intro i hi hi'
          obtain ⟨hline, hpc⟩ := hlines i _ (List.getElem?_eq_getElem hi)
          obtain ⟨hline', hpc'⟩ := hlines' i _ (List.getElem?_eq_getElem hi')
          cases hmapping : lines[i]
          cases hmapping' : lines'[i]
          simp_all
  | symtabClose => cases h' with | symtabClose => rfl
  | objectClose => cases h' with | objectClose => rfl

/-! ### The loops -/

theorem openBlocks_eq (mem : Memory 64) (info blocks symtab : Word) (i : Nat) :
    openBlocks mem info blocks symtab i
      = (List.range' i ((nblocks mem info).toInt - i).toNat).flatMap (fun j =>
          .load (field info nblocksAt) 4 :: openBlock mem blocks symtab j)
        ++ [.load (field info nblocksAt) 4] := by
  induction hleft : ((nblocks mem info).toInt - i).toNat generalizing i with
  | zero =>
      rw [openBlocks, if_neg (by omega)]
      rfl
  | succ left ih =>
      rw [openBlocks, if_pos (by omega), ih (i + 1) (by omega), List.range'_succ,
        List.flatMap_cons, List.append_assoc]

theorem passLines_eq (mem : Memory 64) (info : Word) (i : Nat) :
    passLines mem info i = List.replicate (((nlines mem info).toInt - i).toNat + 1)
      (.load (field info nlinesAt) 4) := by
  induction hleft : ((nlines mem info).toInt - i).toNat generalizing i with
  | zero =>
      rw [passLines, if_neg (by omega)]
      rfl
  | succ left ih =>
      rw [passLines, if_pos (by omega), ih (i + 1) (by omega)]
      rfl

/-- The call that a round of the loop over the blocks makes. -/
def blockCall (mem : Memory 64) (blocks symtab : Word) (i : Nat) : Event :=
  let block := field blocks (blockSize * i)
  .blockOpen symtab 0 (loadLong mem (field block startAt)) (loadLong mem (field block endAt)) block

theorem calls_openBlocks {n : Nat} (hn : (nblocks mem info).toInt = n) :
    (openBlocks mem info blocks symtab 0).filter Event.isCall
      = (List.range n).map (blockCall mem blocks symtab) := by
  have hcount : ((nblocks mem info).toInt - (0 : Nat)).toNat = n := by omega
  rw [openBlocks_eq, hcount, List.filter_append, List.filter_flatMap, ← List.range_eq_range']
  have hround : ∀ j, (Event.load (field info nblocksAt) 4 :: openBlock mem blocks symtab j).filter
      Event.isCall = [blockCall mem blocks symtab j] := fun _ => rfl
  simp only [hround]
  rw [← List.map_eq_flatMap]
  exact List.append_nil _

theorem calls_passLines : (passLines mem info 0).filter Event.isCall = [] := by
  rw [passLines_eq]
  apply List.filter_eq_nil_iff.mpr
  intro event hevent
  obtain ⟨-, rfl⟩ := List.mem_replicate.mp hevent
  exact Bool.false_ne_true

/-! ### The fields -/

@[simp]
theorem NameField.length_bytes (name : NameField) : name.bytes.length = 512 := by
  have hlength := name.length_eq
  unfold nameSize at hlength
  rw [NameField.bytes, List.length_append, List.length_cons]
  omega

@[simp]
theorem Block.length_bytes (block : Block) : block.bytes.length = blockSize := by
  simp [Block.bytes, Block.parts, blockSize]

@[simp]
theorem LineRecord.length_bytes (record : LineRecord) : record.bytes.length = lineSize := by
  simp [LineRecord.bytes, LineRecord.parts, lineSize]

theorem NameField.cString {name : NameField} {addr : Word} (h : mem.Holds addr name.bytes) :
    mem.CString addr name.name :=
  Holds.cString name.nonzero h

theorem toInt_loadInt {addr : Word} {n : Nat} (hn : n < 2 ^ 31)
    (h : mem.Holds addr (toLE 4 n)) : (loadInt mem addr).toInt = n := by
  have hsmall : (BitVec.ofNat 32 n).toNat = n := by
    rw [BitVec.toNat_ofNat, Nat.mod_eq_of_lt (by omega)]
  have hload : mem.load addr 4 = BitVec.ofNat 32 n := by
    apply Holds.load_eq
    rwa [hsmall]
  rw [loadInt, hload, BitVec.toInt_eq_toNat_of_lt (by rw [hsmall]; omega), hsmall]

theorem LaidOut.loads (h : LaidOut mem memory debug blocksOfs linesOfs) :
    mem.CString memory debug.filename.name
      ∧ loadLong mem (field memory blocksOfsAt) = blocksOfs
      ∧ loadLong mem (field memory linesOfsAt) = linesOfs
      ∧ (nblocks mem memory).toInt = debug.blocks.length
      ∧ (nlines mem memory).toInt = debug.lines.length := by
  refine ⟨?_, ?_, ?_, ?_, ?_⟩
  · have hname := h.info.part 0 0 rfl rfl
    rw [BitVec.add_zero] at hname
    exact NameField.cString hname
  · exact Holds.load_eq (h.info.part 1 blocksOfsAt rfl (by simp [DebugInfo.parts, blocksOfsAt]))
  · exact Holds.load_eq (h.info.part 2 linesOfsAt rfl (by simp [DebugInfo.parts, linesOfsAt]))
  · exact toInt_loadInt h.nblocks_lt
      (h.info.part 3 nblocksAt rfl (by simp [DebugInfo.parts, nblocksAt]))
  · exact toInt_loadInt h.nlines_lt
      (h.info.part 4 nlinesAt rfl (by simp [DebugInfo.parts, nlinesAt]))

/-- A round of the loop over the blocks tells the block that is encoded at its place. -/
theorem LaidOut.shows_block (h : LaidOut mem memory debug blocksOfs linesOfs) {block : Block}
    (hblock : debug.blocks[i]? = some block) :
    Shows mem (blockCall mem (blocksOfs + memory) symtab i)
      (.blockOpen symtab block.start block.stop block.name.name) := by
  have hholds := Holds.get Block.length_bytes h.blocks hblock
  rw [BitVec.add_comm memory] at hholds
  have hname := Holds.part hholds 0 0 rfl rfl
  have hstart := Holds.part hholds 1 startAt rfl (by simp [Block.parts, startAt])
  have hstop := Holds.part hholds 2 endAt rfl (by simp [Block.parts, endAt])
  rw [BitVec.add_zero] at hname
  rw [← Holds.load_eq hstart, ← Holds.load_eq hstop]
  exact .blockOpen (NameField.cString hname)

theorem LaidOut.shows_blocks (h : LaidOut mem memory debug blocksOfs linesOfs) :
    List.Forall₂ (Shows mem)
      ((List.range debug.blocks.length).map (blockCall mem (blocksOfs + memory) symtab))
      (debug.blocks.map fun block => .blockOpen symtab block.start block.stop block.name.name) := by
  apply List.forall₂_iff_get.mpr
  refine ⟨by simp, ?_⟩
  intro i hi hi'
  rw [List.length_map] at hi'
  simpa using h.shows_block (List.getElem?_eq_getElem hi')

theorem LaidOut.shows_lines (h : LaidOut mem memory debug blocksOfs linesOfs) :
    Shows mem (.lineMappingAdd symtab (nlines mem memory) (linesOfs + memory))
      (.lineMappingAdd symtab (debug.lines.map LineRecord.toLineMapping)) := by
  obtain ⟨-, -, -, -, hcount⟩ := h.loads
  apply Shows.lineMappingAdd
  · rw [hcount, List.length_map]
  · intro i mapping hmapping
    rw [List.getElem?_map] at hmapping
    obtain ⟨record, hrecord, rfl⟩ := Option.map_eq_some_iff.mp hmapping
    have hholds := Holds.get LineRecord.length_bytes h.lines hrecord
    rw [BitVec.add_comm memory] at hholds
    have hline := Holds.part hholds 0 0 rfl rfl
    have hpc := Holds.part hholds 2 pcAt rfl (by simp [LineRecord.parts, pcAt])
    rw [BitVec.add_zero] at hline
    exact ⟨Holds.load_eq hline, Holds.load_eq hpc⟩

/-- **Decoding inverts encoding.** For every memory in which the format is laid out, the callbacks
are exactly those it stands for, in order, and the reader reports success. -/
theorem readDebugInfo_decodes (cbs : Callbacks) (mem : Memory 64) (memory memorySz : Word)
    (debug : DebugInfo) (blocksOfs linesOfs : Word)
    (h : LaidOut mem memory debug blocksOfs linesOfs) :
    (readDebugInfo mem cbs memory memorySz).status = .success
      ∧ List.Forall₂ (Shows mem)
        ((readDebugInfo mem cbs memory memorySz).events.filter Event.isCall)
        (debug.callbacks cbs.objectOpen (cbs.symtabOpen cbs.objectOpen memory)) := by
  refine ⟨rfl, ?_⟩
  obtain ⟨hname, hblocksOfs, hlinesOfs, hcount, -⟩ := h.loads
  have hopened : List.Forall₂ (Shows mem) [.objectOpen, .symtabOpen cbs.objectOpen memory]
      [.objectOpen, .symtabOpen cbs.objectOpen debug.filename.name] :=
    .cons .objectOpen (.cons (.symtabOpen hname) .nil)
  have hclosed : List.Forall₂ (Shows mem)
      [.symtabClose (cbs.symtabOpen cbs.objectOpen memory), .objectClose cbs.objectOpen]
      [.symtabClose (cbs.symtabOpen cbs.objectOpen memory), .objectClose cbs.objectOpen] :=
    .cons .symtabClose (.cons .objectClose .nil)
  simp only [readDebugInfo, hblocksOfs, hlinesOfs, List.filter_append, calls_openBlocks hcount,
    calls_passLines, DebugInfo.callbacks, List.append_nil]
  apply List.rel_append (List.rel_append hopened h.shows_blocks)
  exact .cons h.shows_lines hclosed

/-! ### An encoder -/

/-- The three parts and their places, in which the offsets are recorded. -/
def DebugInfo.pieces (debug : DebugInfo) (memory blocksOfs linesOfs : Word) :
    List (Word × List Byte) :=
  [(memory, (debug.parts blocksOfs linesOfs).flatten),
    (memory + blocksOfs, debug.blocks.flatMap Block.bytes),
    (memory + linesOfs, debug.lines.flatMap LineRecord.bytes)]

theorem laidOut_place
    (hapart : (debug.pieces memory blocksOfs linesOfs).Pairwise fun x y =>
      Apart x.1 x.2.length y.1 y.2.length)
    (hblocks : debug.blocks.length < 2 ^ 31) (hlines : debug.lines.length < 2 ^ 31) :
    LaidOut (mem.place (debug.pieces memory blocksOfs linesOfs)) memory debug blocksOfs
      linesOfs := by
  have hfits : ∀ piece ∈ debug.pieces memory blocksOfs linesOfs, piece.2.length ≤ 2 ^ 64 := by
    simp only [DebugInfo.pieces, List.forall_mem_cons, List.not_mem_nil, IsEmpty.forall_iff,
      implies_true, and_true, length_records Block.length_bytes,
      length_records LineRecord.length_bytes, blockSize, lineSize]
    refine ⟨?_, by omega, by omega⟩
    simp [DebugInfo.parts]
  have hplaced : ∀ piece ∈ debug.pieces memory blocksOfs linesOfs,
      (mem.place (debug.pieces memory blocksOfs linesOfs)).Holds piece.1 piece.2 :=
    fun piece hpiece => holds_place hapart hfits hpiece
  refine ⟨?_, ?_, ?_, hblocks, hlines⟩
  · exact hplaced _ List.mem_cons_self
  · exact hplaced _ (List.mem_cons_of_mem _ List.mem_cons_self)
  · exact hplaced _ (List.mem_cons_of_mem _ (List.mem_cons_of_mem _ List.mem_cons_self))

def oneLetter (letter : Byte) (hletter : 0 ∉ [letter]) : NameField where
  name := [letter]
  padding := List.replicate 510 0xEE
  nonzero := hletter
  length_eq := by rw [List.length_replicate]; rfl

/-- A file `a` with functions `f` and `g`, and three lines. -/
def twoBlocks : DebugInfo where
  filename := oneLetter 0x61 (by decide)
  blocks := [⟨oneLetter 0x66 (by decide), 0x4000, 0x4010⟩,
    ⟨oneLetter 0x67 (by decide), 0x4010, 0x4080⟩]
  lines := [⟨⟨7, 0x4000⟩, 0⟩, ⟨⟨9, 0x4008⟩, 0xEEEEEEEE⟩, ⟨⟨12, 0x4010⟩, 0⟩]

/-- The lines come first, and there is a gap between them and the blocks. -/
def twoBlocksMemory : Memory 64 :=
  Memory.place (fun _ => 0xCC) (twoBlocks.pieces 0x1000 768 536)

theorem laidOut_twoBlocks : LaidOut twoBlocksMemory 0x1000 twoBlocks 768 536 := by
  apply laidOut_place _ (by decide) (by decide)
  simp only [DebugInfo.pieces, List.pairwise_cons, List.forall_mem_cons, List.not_mem_nil,
    IsEmpty.forall_iff, implies_true, and_true, List.Pairwise.nil]
  refine ⟨⟨apart_of_le ?_ ?_, apart_of_le ?_ ?_⟩, (apart_of_le ?_ ?_).symm⟩ <;>
    simp [twoBlocks, DebugInfo.parts, blockSize, lineSize]

theorem readDebugInfo_decodes_twoBlocks :
    List.Forall₂ (Shows twoBlocksMemory)
      ((readDebugInfo twoBlocksMemory ⟨1, fun _ _ => 2⟩ 0x1000 1824).events.filter Event.isCall)
      [.objectOpen, .symtabOpen 1 [0x61], .blockOpen 2 0x4000 0x4010 [0x66],
        .blockOpen 2 0x4010 0x4080 [0x67],
        .lineMappingAdd 2 [⟨7, 0x4000⟩, ⟨9, 0x4008⟩, ⟨12, 0x4010⟩], .symtabClose 2,
        .objectClose 1] :=
  (readDebugInfo_decodes ⟨1, fun _ _ => 2⟩ twoBlocksMemory 0x1000 1824 twoBlocks 768 536
    laidOut_twoBlocks).2

end FexTestBins.FexReader
