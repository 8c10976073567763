import FexTestBins.Library.Words

/-!
# Binary formats in memory

A format is laid out as one list of bytes after another, records of one size in an array, strings
with a zero behind them. What a reader with a pointer to it may touch is a block of memory, and a
range of bytes lies inside a block exactly if its offset and length say so, whatever wraps around.
-/

namespace Words.Memory

variable {w : Nat} {mem : Memory w} {addr base offset : BitVec w} {bytes bytes' : List Byte}
  {count size : Nat}

/-! ### Bytes in place -/

def Holds (mem : Memory w) (addr : BitVec w) (bytes : List Byte) : Prop :=
  mem.read addr bytes.length = bytes

theorem read_add (mem : Memory w) (addr : BitVec w) (count count' : Nat) :
    mem.read addr (count + count')
      = mem.read addr count ++ mem.read (addr + BitVec.ofNat w count) count' := by
  have hlength : (mem.read addr (count + count')).length = count + count' := length_read
  calc mem.read addr (count + count')
      = (mem.read addr (count + count')).take count
          ++ (mem.read addr (count + count')).drop count := (List.take_append_drop ..).symm
    _ = ((mem.read addr (count + count')).drop 0).take count
          ++ ((mem.read addr (count + count')).drop count).take count' := by
        rw [List.drop_zero, List.take_of_length_le (l := List.drop count _)]
        rw [List.length_drop, hlength]
        omega
    _ = mem.read addr count ++ mem.read (addr + BitVec.ofNat w count) count' := by
        rw [take_drop_read (by omega), take_drop_read le_rfl, BitVec.add_zero]

theorem holds_append : mem.Holds addr (bytes ++ bytes')
    ↔ mem.Holds addr bytes ∧ mem.Holds (addr + BitVec.ofNat w bytes.length) bytes' := by
  rw [Holds, List.length_append, read_add]
  constructor
  · intro heq
    exact List.append_inj heq length_read
  · rintro ⟨hfirst, hsecond⟩
    rw [hfirst, hsecond]

theorem holds_cons {byte : Byte} : mem.Holds addr (byte :: bytes)
    ↔ mem addr = byte ∧ mem.Holds (addr + 1) bytes := by
  have hone : mem.Holds addr [byte] ↔ mem addr = byte := by
    simp [Holds, read]
  rw [← List.singleton_append, holds_append, hone]
  rfl

/-- A record holds each of its fields behind those before it. -/
theorem Holds.part {parts : List (List Byte)} (h : mem.Holds addr parts.flatten) (i offset : Nat)
    {part : List Byte} (hpart : parts[i]? = some part)
    (hoffset : (parts.take i).flatten.length = offset) :
    mem.Holds (addr + BitVec.ofNat w offset) part := by
  obtain ⟨hi, rfl⟩ := List.getElem?_eq_some_iff.mp hpart
  have hsplit : parts.flatten
      = (parts.take i).flatten ++ (parts[i] ++ (parts.drop (i + 1)).flatten) := by
    rw [← List.flatten_cons, ← List.drop_eq_getElem_cons hi, ← List.flatten_append,
      List.take_append_drop]
  rw [hsplit, holds_append, hoffset, holds_append] at h
  exact h.2.1

theorem length_records {Record : Type*} {encode : Record → List Byte}
    (hsize : ∀ record, (encode record).length = size) (records : List Record) :
    (records.flatMap encode).length = size * records.length := by
  induction records with
  | nil => rfl
  | cons first records ih =>
      rw [List.flatMap_cons, List.length_append, hsize, ih, List.length_cons, Nat.mul_succ,
        Nat.add_comm]

/-- An array of records of one size holds each of them at its place. -/
theorem Holds.get {Record : Type*} {encode : Record → List Byte} {records : List Record}
    (hsize : ∀ record, (encode record).length = size)
    (h : mem.Holds addr (records.flatMap encode)) {i : Nat} {record : Record}
    (hrecord : records[i]? = some record) :
    mem.Holds (addr + BitVec.ofNat w (size * i)) (encode record) := by
  induction records generalizing addr i with
  | nil => cases hrecord
  | cons first records ih =>
      rw [List.flatMap_cons, holds_append] at h
      cases i with
      | zero =>
          obtain rfl := Option.some.inj hrecord
          rw [Nat.mul_zero, BitVec.add_zero]
          exact h.1
      | succ i =>
          have hlater := ih h.2 hrecord
          rwa [hsize, BitVec.add_assoc, ← BitVec.ofNat_add, Nat.add_comm, ← Nat.mul_succ] at hlater

/-- Write one part after another, each at its own place. -/
def place (mem : Memory w) (parts : List (BitVec w × List Byte)) : Memory w :=
  parts.foldl (fun mem part => mem.write part.1 part.2) mem

theorem read_place {parts : List (BitVec w × List Byte)}
    (hapart : ∀ part ∈ parts, Apart addr count part.1 part.2.length) :
    (mem.place parts).read addr count = mem.read addr count := by
  induction parts generalizing mem with
  | nil => rfl
  | cons part parts ih =>
      obtain ⟨hfirst, hrest⟩ := List.forall_mem_cons.mp hapart
      exact (ih hrest).trans (read_write_of_apart hfirst)

/-- Parts at places apart from each other are all found where they were written. -/
theorem holds_place {parts : List (BitVec w × List Byte)}
    (hapart : parts.Pairwise fun x y => Apart x.1 x.2.length y.1 y.2.length)
    (hfits : ∀ part ∈ parts, part.2.length ≤ 2 ^ w) {part : BitVec w × List Byte}
    (hpart : part ∈ parts) : (mem.place parts).Holds part.1 part.2 := by
  induction parts generalizing mem with
  | nil => cases hpart
  | cons first parts ih =>
      obtain ⟨hfirst, hrest⟩ := List.pairwise_cons.mp hapart
      obtain ⟨hfit, hfits⟩ := List.forall_mem_cons.mp hfits
      rcases List.mem_cons.mp hpart with rfl | hpart
      · exact (read_place hfirst).trans (read_write mem part.1 part.2 hfit)
      · exact ih hrest hfits hpart

/-! ### Numbers -/

def load (mem : Memory w) (addr : BitVec w) (count : Nat) : BitVec (8 * count) :=
  BitVec.ofNat (8 * count) (ofLE (mem.read addr count))

theorem Holds.load_eq {value : BitVec (8 * count)}
    (h : mem.Holds addr (toLE count value.toNat)) : mem.load addr count = value := by
  rw [Holds, length_toLE] at h
  have hpow : 256 ^ count = 2 ^ (8 * count) := (pow_mul 2 8 count).symm
  rw [load, h, ofLE_toLE, hpow, Nat.mod_eq_of_lt value.isLt, BitVec.ofNat_toNat,
    BitVec.setWidth_eq]

/-! ### Strings -/

/-- The string that a pointer shows: the bytes before the first zero. -/
structure CString (mem : Memory w) (addr : BitVec w) (bytes : List Byte) : Prop where
  nonzero : 0 ∉ bytes
  holds : mem.Holds addr (bytes ++ [0])

theorem Holds.cString {padding : List Byte} (hnonzero : 0 ∉ bytes)
    (h : mem.Holds addr (bytes ++ 0 :: padding)) : mem.CString addr bytes := by
  refine ⟨hnonzero, ?_⟩
  rw [← List.singleton_append, ← List.append_assoc, holds_append] at h
  exact h.1

theorem CString.unique (h : mem.CString addr bytes) (h' : mem.CString addr bytes') :
    bytes = bytes' := by
  obtain ⟨hnonzero, hholds⟩ := h
  obtain ⟨hnonzero', hholds'⟩ := h'
  induction bytes generalizing addr bytes' with
  | nil =>
      cases bytes' with
      | nil => rfl
      | cons byte rest =>
          have hzero := (holds_cons.mp hholds).1
          have hbyte := (holds_cons.mp hholds').1
          rw [hzero] at hbyte
          exact absurd (hbyte ▸ List.mem_cons_self) hnonzero'
  | cons byte rest ih =>
      have hbyte := (holds_cons.mp hholds).1
      cases bytes' with
      | nil =>
          have hzero := (holds_cons.mp hholds').1
          rw [hzero] at hbyte
          exact absurd (hbyte ▸ List.mem_cons_self) hnonzero
      | cons byte' rest' =>
          have hbyte' := (holds_cons.mp hholds').1
          obtain rfl := hbyte.symm.trans hbyte'
          rw [List.mem_cons, not_or] at hnonzero hnonzero'
          rw [ih hnonzero.2 (holds_cons.mp hholds).2 hnonzero'.2 (holds_cons.mp hholds').2]

/-! ### Blocks -/

/-- All `count` bytes from `addr` on are among the `size` bytes from `base` on. -/
def Inside (base : BitVec w) (size : Nat) (addr : BitVec w) (count : Nat) : Prop :=
  ∀ i < count, (addr + BitVec.ofNat w i - base).toNat < size

theorem add_add_sub_self (base offset offset' : BitVec w) :
    base + offset + offset' - base = offset + offset' := by
  rw [BitVec.add_assoc, BitVec.add_comm, BitVec.add_sub_cancel]

/-- A range that is not empty cannot wrap around without leaving the block. -/
theorem inside_iff (hsize : size < 2 ^ w) (hcount : 0 < count) :
    Inside base size (base + offset) count ↔ offset.toNat + count ≤ size := by
  have hbyte : ∀ i, (base + offset + BitVec.ofNat w i - base).toNat
      = (offset.toNat + i) % 2 ^ w := by
    intro i
    rw [add_add_sub_self, BitVec.toNat_add, BitVec.toNat_ofNat, Nat.add_mod_mod]
  unfold Inside
  simp only [hbyte]
  constructor
  · intro hinside
    by_contra hlarge
    have hfirst := hinside 0 hcount
    rw [Nat.add_zero, Nat.mod_eq_of_lt offset.isLt] at hfirst
    have hbeyond := hinside (size - offset.toNat) (by omega)
    rw [Nat.add_sub_cancel' hfirst.le, Nat.mod_eq_of_lt hsize] at hbeyond
    exact absurd hbeyond (lt_irrefl size)
  · intro hle i hi
    rw [Nat.mod_eq_of_lt (by omega)]
    omega

/-- A string that begins and ends inside the block. -/
def Terminated (mem : Memory w) (base : BitVec w) (size : Nat) (addr : BitVec w) : Prop :=
  ∃ n, mem (addr + BitVec.ofNat w n) = 0 ∧ Inside base size addr (n + 1)

theorem terminated_iff (hsize : size < 2 ^ w) :
    mem.Terminated base size (base + offset)
      ↔ ∃ n, offset.toNat ≤ n ∧ n < size ∧ mem (base + BitVec.ofNat w n) = 0 := by
  have haddr : ∀ n, base + offset + BitVec.ofNat w n
      = base + BitVec.ofNat w (offset.toNat + n) := by
    intro n
    rw [BitVec.ofNat_add, BitVec.ofNat_toNat, BitVec.setWidth_eq, BitVec.add_assoc]
  unfold Terminated
  constructor
  · rintro ⟨n, hzero, hinside⟩
    rw [inside_iff hsize (Nat.succ_pos n)] at hinside
    rw [haddr] at hzero
    exact ⟨offset.toNat + n, by omega, by omega, hzero⟩
  · rintro ⟨n, hle, hlt, hzero⟩
    refine ⟨n - offset.toNat, ?_, ?_⟩
    · rw [haddr, Nat.add_sub_cancel' hle, hzero]
    · rw [inside_iff hsize (Nat.succ_pos _)]
      omega

end Words.Memory
