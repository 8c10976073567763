import FexTestBins.Alloc
import FexTestBins.Library.IntervalOverlay

/-!
# `/proc/self/maps`

A listing of regions in increasing order, one a line, and two kernels that serve it: one whose
text is fixed and merely cut into pieces, and one that formats the address space as it is when the
reader has used up what was formatted before.
-/

namespace FexTestBins.Alloc

open Words IntervalGaps

def hexDigit (d : Fin 16) : Byte :=
  if d.val < 10 then BitVec.ofNat 8 ('0'.toNat + d.val)
  else BitVec.ofNat 8 ('a'.toNat + (d.val - 10))

/-- The number that digits spell when they follow those of `number`. -/
def spelled (number : Nat) (digits : List (Fin 16)) : Nat :=
  digits.foldl (fun n d => 16 * n + d.val) number

/-- An address in hexadecimal, with any zero padding up to 16 digits. -/
structure Numeral (value : Word) where
  digits : List (Fin 16)
  nonempty : digits ≠ []
  length_le : digits.length ≤ 16
  spells : spelled 0 digits = value.toNat

def Numeral.text {value : Word} (numeral : Numeral value) : List Byte :=
  numeral.digits.map hexDigit

def lastDigits : Nat → Nat → List (Fin 16)
  | 0, _ => []
  | count + 1, number => lastDigits count (number / 16) ++ [Fin.ofNat 16 number]

theorem length_lastDigits (count number : Nat) : (lastDigits count number).length = count := by
  induction count generalizing number with
  | zero => rfl
  | succ count ih => simp [lastDigits, ih]

theorem spelled_lastDigits (count number : Nat) :
    spelled 0 (lastDigits count number) = number % 16 ^ count := by
  induction count generalizing number with
  | zero => simp [lastDigits, spelled, Nat.mod_one]
  | succ count ih =>
      have hlast : spelled 0 (lastDigits (count + 1) number)
          = 16 * spelled 0 (lastDigits count (number / 16)) + number % 16 := by
        simp [lastDigits, spelled]
      rw [hlast, ih, pow_succ' 16 count, Nat.mod_mul, Nat.add_comm]

def Numeral.padded (value : Word) : Numeral value where
  digits := lastDigits 16 value.toNat
  nonempty := List.ne_nil_of_length_pos (by rw [length_lastDigits]; decide)
  length_le := (length_lastDigits 16 value.toNat).le
  spells := by
    have hfits : value.toNat < 16 ^ 16 := value.isLt
    rw [spelled_lastDigits, Nat.mod_eq_of_lt hfits]

/-- A line `b-e rest`, where the rest may be anything but the end of the line. -/
structure MapsLine where
  regionBegin : Word
  regionEnd : Word
  beginNumeral : Numeral regionBegin
  endNumeral : Numeral regionEnd
  rest : List Byte
  no_newline : ascii '\n' ∉ rest

namespace MapsLine

def region (line : MapsLine) : Word × Word := (line.regionBegin, line.regionEnd)

def text (line : MapsLine) : List Byte :=
  line.beginNumeral.text ++ ascii '-' :: (line.endNumeral.text ++ ascii ' ' :: (line.rest
    ++ [ascii '\n']))

/-- A region in padded numbers with nothing behind them. -/
def padded (region : Word × Word) : MapsLine where
  regionBegin := region.1
  regionEnd := region.2
  beginNumeral := .padded region.1
  endNumeral := .padded region.2
  rest := []
  no_newline := List.not_mem_nil

end MapsLine

def mapsText (lines : List MapsLine) : List Byte := lines.flatMap MapsLine.text

/-! ### A frozen text -/

/-- A text in the non-empty pieces, of at most the size of the buffer, in which `read` delivers
it. -/
structure Delivery (text : List Byte) where
  pieces : List (List Byte)
  flatten_eq : pieces.flatten = text
  nonempty : ∀ piece ∈ pieces, piece ≠ []
  length_le : ∀ piece ∈ pieces, piece.length ≤ 2048

def Delivery.bytewise (text : List Byte) : Delivery text where
  pieces := text.map fun c => [c]
  flatten_eq := by
    induction text with
    | nil => rfl
    | cons c text ih => rw [List.map_cons, List.flatten_cons, ih, List.singleton_append]
  nonempty := by simp
  length_le := by simp

/-- Piece after piece, and then the end of the file; `mmap` has no effect on the text. -/
def frozenKernel : Kernel (List (List Byte)) where
  read
    | [] => (.data [], [])
    | piece :: pieces => (.data piece, pieces)
  mmap := fun pieces _ _ => pieces

/-! ### The live address space -/

/-- The address space, the position of the file and its formatted text, and how often it was
read. -/
structure Live where
  regions : List (Word × Word)
  position : Word
  pending : List Byte
  reads : Nat

/-- How the kernel formats a region, and for each `read`, how many regions it formats if it has to
and how much of the formatted text it hands out; both count from one. -/
structure LiveChoices where
  line : Word × Word → MapsLine
  region_line : ∀ r, (line r).region = r
  regions : Nat → Nat
  bytes : Nat → Nat

namespace Live

/-- Format regions from the position on, if no text is pending. -/
def format (choices : LiveChoices) (live : Live) : Live :=
  if live.pending = [] then
    let batch := (live.regions.filter fun r => live.position ≤ r.1).take
      (choices.regions live.reads + 1)
    { live with
      pending := mapsText (batch.map choices.line)
      position := lastEnd live.position batch }
  else
    live

end Live

/-- `read` hands out formatted text, and `mmap` puts its range in the place of what it overlaps. -/
def liveKernel (choices : LiveChoices) : Kernel Live where
  read live :=
    let formatted := live.format choices
    let count := min (choices.bytes live.reads + 1) 2048
    (.data (formatted.pending.take count),
      { formatted with pending := formatted.pending.drop count, reads := live.reads + 1 })
  mmap live mapBegin mapSize :=
    { live with regions := overlay (mapBegin, mapBegin + mapSize) live.regions }

def Live.init (regions : List (Word × Word)) : Live :=
  { regions := regions, position := 0, pending := [], reads := 0 }

end FexTestBins.Alloc
