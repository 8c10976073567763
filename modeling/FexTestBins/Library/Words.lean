import Mathlib.Data.List.GetD
import Mathlib.Data.List.OfFn
import Mathlib.Order.Defs.LinearOrder
import Mathlib.Tactic.Ring

/-!
# Machine words and byte memory

Words are bit vectors in their unsigned order. A byte memory is a total function from addresses;
`write` lays a list of bytes down at an address and `read` takes one up, and everything later said
about overlapping views of one memory comes from the two facts that reading back what was written
gives it again, and that a write leaves every byte outside its range alone.
-/

instance BitVec.linearOrder {w : Nat} : LinearOrder (BitVec w) where
  le_refl := BitVec.le_refl
  le_trans _ _ _ := BitVec.le_trans
  lt_iff_le_not_ge _ _ := by
    simp only [BitVec.le_def, BitVec.lt_def]
    omega
  le_antisymm _ _ := BitVec.le_antisymm
  le_total := BitVec.le_total
  toDecidableLE := inferInstance

namespace Words

theorem zero_le_word {w : Nat} (word : BitVec w) : 0 ≤ word :=
  BitVec.le_def.mpr (Nat.zero_le _)

theorem max_zero_word {w : Nat} (word : BitVec w) : max 0 word = word :=
  max_eq_right (zero_le_word word)

abbrev Byte := BitVec 8

/-! ### Little-endian numbers -/

/-- The `count` low bytes of `value`, least significant first. -/
def toLE : Nat → Nat → List Byte
  | 0, _ => []
  | count + 1, value => BitVec.ofNat 8 value :: toLE count (value / 256)

/-- The number whose bytes, least significant first, are given. -/
def ofLE : List Byte → Nat
  | [] => 0
  | byte :: rest => byte.toNat + 256 * ofLE rest

@[simp]
theorem length_toLE (count value : Nat) : (toLE count value).length = count := by
  induction count generalizing value with
  | zero => rfl
  | succ count ih => simp [toLE, ih]

theorem ofLE_toLE (count value : Nat) : ofLE (toLE count value) = value % 256 ^ count := by
  induction count generalizing value with
  | zero => simp [toLE, ofLE, Nat.mod_one]
  | succ count ih =>
      rw [toLE, ofLE, ih, BitVec.toNat_ofNat, pow_succ' 256 count, Nat.mod_mul]

/-! ### Byte memory -/

theorem toNat_add_ofNat {w : Nat} {addr : BitVec w} {offset : Nat}
    (hfits : addr.toNat + offset < 2 ^ w) :
    (addr + BitVec.ofNat w offset).toNat = addr.toNat + offset := by
  rw [BitVec.toNat_add, BitVec.toNat_ofNat, Nat.add_mod_mod, Nat.mod_eq_of_lt hfits]

abbrev Memory (w : Nat) := BitVec w → Byte

namespace Memory

variable {w : Nat} {mem : Memory w} {addr target : BitVec w} {bytes : List Byte} {count : Nat}

def write (mem : Memory w) (addr : BitVec w) (bytes : List Byte) : Memory w := fun target =>
  bytes.getD (target - addr).toNat (mem target)

def read (mem : Memory w) (addr : BitVec w) (count : Nat) : List Byte :=
  List.ofFn fun i : Fin count => mem (addr + BitVec.ofNat w i)

/-- The `count` bytes from `addr` on and the `count'` bytes from `addr'` on are all different. -/
def Apart (addr : BitVec w) (count : Nat) (addr' : BitVec w) (count' : Nat) : Prop :=
  ∀ i < count, ∀ j < count', addr + BitVec.ofNat w i ≠ addr' + BitVec.ofNat w j

theorem apart_of_le {addr' : BitVec w} {count' : Nat} (hle : addr.toNat + count ≤ addr'.toNat)
    (hbound : addr'.toNat + count' ≤ 2 ^ w) : Apart addr count addr' count' := by
  intro i hi j hj heq
  have hnat := congrArg BitVec.toNat heq
  rw [toNat_add_ofNat (by omega), toNat_add_ofNat (by omega)] at hnat
  omega

theorem Apart.symm {addr' : BitVec w} {count' : Nat} (h : Apart addr count addr' count') :
    Apart addr' count' addr count :=
  fun i hi j hj heq => h j hj i hi heq.symm

@[simp]
theorem length_read : (mem.read addr count).length = count := by
  simp [read]

theorem getElem_read {i : Nat} (hi : i < (mem.read addr count).length) :
    (mem.read addr count)[i] = mem (addr + BitVec.ofNat w i) := by
  simp [read]

theorem read_congr {mem' : Memory w}
    (hsame : ∀ i < count, mem' (addr + BitVec.ofNat w i) = mem (addr + BitVec.ofNat w i)) :
    mem'.read addr count = mem.read addr count := by
  apply List.ext_getElem (by simp)
  intro i hi hi'
  rw [getElem_read hi, getElem_read hi', hsame i (by simpa using hi)]

theorem apply_eq_of_read {mem' : Memory w} {i : Nat}
    (hread : mem'.read addr count = mem.read addr count) (hi : i < count) :
    mem' (addr + BitVec.ofNat w i) = mem (addr + BitVec.ofNat w i) := by
  have hbyte := List.getElem_of_eq hread (i := i) (by simpa using hi)
  rwa [getElem_read, getElem_read] at hbyte

theorem write_inside {i : Nat} (hi : i < bytes.length) (hbound : bytes.length ≤ 2 ^ w) :
    mem.write addr bytes (addr + BitVec.ofNat w i) = bytes[i] := by
  have hoffset : (addr + BitVec.ofNat w i - addr).toNat = i := by
    rw [BitVec.add_comm, BitVec.add_sub_cancel, BitVec.toNat_ofNat, Nat.mod_eq_of_lt (by omega)]
  rw [write, hoffset, List.getD_eq_getElem _ _ hi]

theorem write_outside
    (houtside : ∀ i < bytes.length, target ≠ addr + BitVec.ofNat w i) :
    mem.write addr bytes target = mem target := by
  have hlarge : bytes.length ≤ (target - addr).toNat := by
    by_contra hsmall
    refine houtside (target - addr).toNat (by omega) ?_
    rw [BitVec.ofNat_toNat, BitVec.setWidth_eq, BitVec.add_comm, BitVec.sub_add_cancel]
  rw [write, List.getD_eq_default _ _ hlarge]

theorem read_write (mem : Memory w) (addr : BitVec w) (bytes : List Byte)
    (hbound : bytes.length ≤ 2 ^ w) :
    (mem.write addr bytes).read addr bytes.length = bytes := by
  apply List.ext_getElem (by simp)
  intro i hi hi'
  rw [getElem_read hi, write_inside hi' hbound]

/-- The frame rule: a write does not change what is read from a range apart from it. -/
theorem read_write_of_apart {addr' : BitVec w} (hapart : Apart addr count addr' bytes.length) :
    (mem.write addr' bytes).read addr count = mem.read addr count := by
  apply read_congr
  intro i hi
  apply write_outside
  intro j hj
  exact hapart i hi j hj

theorem take_drop_read {offset length : Nat} (hfits : offset + length ≤ count) :
    ((mem.read addr count).drop offset).take length
      = mem.read (addr + BitVec.ofNat w offset) length := by
  apply List.ext_getElem
  · simp
    omega
  · intro i hi hi'
    rw [getElem_read hi', List.getElem_take, List.getElem_drop, getElem_read, BitVec.add_assoc,
      ← BitVec.ofNat_add]

/-! ### Eight-byte pointers -/

/-- The little-endian 64-bit word at `addr`. -/
def loadWord (mem : Memory w) (addr : BitVec w) : BitVec 64 :=
  BitVec.ofNat 64 (ofLE (mem.read addr 8))

def storeWord (mem : Memory w) (addr : BitVec w) (value : BitVec 64) : Memory w :=
  mem.write addr (toLE 8 value.toNat)

theorem loadWord_storeWord (value : BitVec 64) (hw : 8 ≤ 2 ^ w) :
    (mem.storeWord addr value).loadWord addr = value := by
  have hread : (mem.storeWord addr value).read addr 8 = toLE 8 value.toNat := by
    have hwritten := read_write mem addr (toLE 8 value.toNat) (by simpa using hw)
    rwa [length_toLE] at hwritten
  rw [loadWord, hread, ofLE_toLE]
  apply BitVec.eq_of_toNat_eq
  have hlt : value.toNat < 256 ^ 8 := value.isLt
  rw [BitVec.toNat_ofNat, Nat.mod_eq_of_lt hlt, Nat.mod_eq_of_lt value.isLt]

end Memory

end Words
