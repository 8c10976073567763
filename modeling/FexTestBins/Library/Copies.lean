import FexTestBins.Library.Words

/-!
# Patched copies of memory

A copy takes a range of bytes to another place and then overwrites some words of it, such as the
operands that have to differ from copy to copy. Copies at places apart from each other and from
the ranges copied do not disturb one another, in whatever number they are made.
-/

namespace Words.Memory

variable {w : Nat} {mem mem' : Memory w} {addr base target : BitVec w} {count size : Nat}
  {words : List (Nat × BitVec 64)}

/-! ### Words at offsets -/

def stamp (mem : Memory w) (base : BitVec w) (words : List (Nat × BitVec 64)) : Memory w :=
  words.foldl (fun mem word => mem.storeWord (base + BitVec.ofNat w word.1) word.2) mem

@[simp]
theorem stamp_nil : mem.stamp base [] = mem := rfl

@[simp]
theorem stamp_cons {word : Nat × BitVec 64} : mem.stamp base (word :: words)
    = (mem.storeWord (base + BitVec.ofNat w word.1) word.2).stamp base words := rfl

theorem storeWord_outside {value : BitVec 64}
    (houtside : ∀ j < 8, target ≠ addr + BitVec.ofNat w j) :
    mem.storeWord addr value target = mem target := by
  apply write_outside
  intro j hj
  exact houtside j (by simpa using hj)

theorem stamp_outside
    (houtside : ∀ word ∈ words, ∀ j < 8, target ≠ base + BitVec.ofNat w (word.1 + j)) :
    mem.stamp base words target = mem target := by
  induction words generalizing mem with
  | nil => rfl
  | cons word words ih =>
      have hlater : ∀ other ∈ words, ∀ j < 8, target ≠ base + BitVec.ofNat w (other.1 + j) := by
        intro other hother
        exact houtside other (List.mem_cons_of_mem _ hother)
      rw [stamp_cons, ih hlater]
      apply storeWord_outside
      intro j hj
      rw [BitVec.add_assoc, ← BitVec.ofNat_add]
      exact houtside word List.mem_cons_self j hj

theorem offset_ne {i j : Nat} (hi : i < 2 ^ w) (hj : j < 2 ^ w) (hne : i ≠ j) :
    base + BitVec.ofNat w i ≠ base + BitVec.ofNat w j := by
  intro heq
  have hnat := congrArg BitVec.toNat ((BitVec.add_right_inj base).mp heq)
  rw [BitVec.toNat_ofNat, BitVec.toNat_ofNat, Nat.mod_eq_of_lt hi, Nat.mod_eq_of_lt hj] at hnat
  exact hne hnat

/-- Words at offsets that keep eight bytes' distance are all found where they were stored. -/
theorem loadWord_stamp (hinside : ∀ word ∈ words, word.1 + 8 ≤ 2 ^ w)
    (hapart : words.Pairwise fun x y => x.1 + 8 ≤ y.1 ∨ y.1 + 8 ≤ x.1)
    {word : Nat × BitVec 64} (hword : word ∈ words) :
    (mem.stamp base words).loadWord (base + BitVec.ofNat w word.1) = word.2 := by
  induction words generalizing mem with
  | nil => cases hword
  | cons first words ih =>
      obtain ⟨hfirst, hrest⟩ := List.pairwise_cons.mp hapart
      have hlater := fun other hother => hinside other (List.mem_cons_of_mem _ hother)
      rcases List.mem_cons.mp hword with rfl | hword
      · have hself := hinside word List.mem_cons_self
        -- the later stores do not reach the eight bytes just written
        have hread : ((mem.storeWord (base + BitVec.ofNat w word.1) word.2).stamp base words).read
              (base + BitVec.ofNat w word.1) 8
            = (mem.storeWord (base + BitVec.ofNat w word.1) word.2).read
              (base + BitVec.ofNat w word.1) 8 := by
          apply read_congr
          intro i hi
          apply stamp_outside
          intro other hother j hj
          have hdistance := hfirst other hother
          have hother' := hlater other hother
          rw [BitVec.add_assoc, ← BitVec.ofNat_add]
          exact offset_ne (by omega) (by omega) (by omega)
        rw [stamp_cons, loadWord, hread, ← loadWord, loadWord_storeWord _ (by omega)]
      · rw [stamp_cons]
        exact ih hlater hrest hword

/-! ### One copy -/

/-- A range of bytes to be copied from `source` to `place`, and the words that the copy then gets
at offsets inside it. -/
structure Copy (w : Nat) where
  source : BitVec w
  size : Nat
  place : BitVec w
  words : List (Nat × BitVec 64)
  size_le : size ≤ 2 ^ w
  inside : ∀ word ∈ words, word.1 + 8 ≤ size
  apart : words.Pairwise fun x y => x.1 + 8 ≤ y.1 ∨ y.1 + 8 ≤ x.1

namespace Copy

variable {copy : Copy w} {copies : List (Copy w)}

def make (copy : Copy w) (mem : Memory w) : Memory w :=
  (mem.write copy.place (mem.read copy.source copy.size)).stamp copy.place copy.words

/-- The bytes at the place of a copy are those of its source in `mem`, except for its words. -/
structure Faithful (copy : Copy w) (mem mem' : Memory w) : Prop where
  words : ∀ word ∈ copy.words, mem'.loadWord (copy.place + BitVec.ofNat w word.1) = word.2
  rest : ∀ i < copy.size, (∀ word ∈ copy.words, i < word.1 ∨ word.1 + 8 ≤ i) →
    mem' (copy.place + BitVec.ofNat w i) = mem (copy.source + BitVec.ofNat w i)

theorem faithful_make (copy : Copy w) (mem : Memory w) : copy.Faithful mem (copy.make mem) where
  words := fun word hword =>
    loadWord_stamp (fun other hother => (copy.inside other hother).trans copy.size_le) copy.apart
      hword
  rest := by
    intro i hi hgap
    have hsize := copy.size_le
    have hstamp : copy.make mem (copy.place + BitVec.ofNat w i)
        = mem.write copy.place (mem.read copy.source copy.size)
          (copy.place + BitVec.ofNat w i) := by
      apply stamp_outside
      intro word hword j hj
      have hword' := copy.inside word hword
      have hgap' := hgap word hword
      exact offset_ne (by omega) (by omega) (by omega)
    rw [hstamp, write_inside (by simpa using hi) (by simpa using hsize), getElem_read]

theorem read_make (hapart : Apart addr count copy.place copy.size) :
    (copy.make mem).read addr count = mem.read addr count := by
  calc (copy.make mem).read addr count
      = (mem.write copy.place (mem.read copy.source copy.size)).read addr count := by
        apply read_congr
        intro i hi
        apply stamp_outside
        intro word hword j hj
        have hword' := copy.inside word hword
        exact hapart i hi (word.1 + j) (by omega)
    _ = mem.read addr count := read_write_of_apart (by simpa using hapart)

theorem Faithful.congr {orig orig' : Memory w} (h : copy.Faithful orig mem)
    (hsource : orig'.read copy.source copy.size = orig.read copy.source copy.size)
    (hplace : mem'.read copy.place copy.size = mem.read copy.place copy.size) :
    copy.Faithful orig' mem' where
  words := by
    intro word hword
    have hpart : mem'.read (copy.place + BitVec.ofNat w word.1) 8
        = mem.read (copy.place + BitVec.ofNat w word.1) 8 := by
      have hinside := copy.inside word hword
      rw [← take_drop_read hinside, hplace, take_drop_read hinside]
    rw [loadWord, hpart, ← loadWord, h.words word hword]
  rest := by
    intro i hi hgap
    calc mem' (copy.place + BitVec.ofNat w i)
        = mem (copy.place + BitVec.ofNat w i) := apply_eq_of_read hplace hi
      _ = orig (copy.source + BitVec.ofNat w i) := h.rest i hi hgap
      _ = orig' (copy.source + BitVec.ofNat w i) := (apply_eq_of_read hsource hi).symm

/-! ### Any number of copies -/

def makeAll (copies : List (Copy w)) (mem : Memory w) : Memory w :=
  copies.foldl (fun mem copy => copy.make mem) mem

structure Fresh (copies : List (Copy w)) : Prop where
  places : copies.Pairwise fun x y => Apart x.place x.size y.place y.size
  sources : ∀ x ∈ copies, ∀ y ∈ copies, Apart x.source x.size y.place y.size

theorem read_makeAll (hapart : ∀ copy ∈ copies, Apart addr count copy.place copy.size) :
    (makeAll copies mem).read addr count = mem.read addr count := by
  induction copies generalizing mem with
  | nil => rfl
  | cons copy copies ih =>
      have hlater : ∀ other ∈ copies, Apart addr count other.place other.size := by
        intro other hother
        exact hapart other (List.mem_cons_of_mem _ hother)
      calc (makeAll (copy :: copies) mem).read addr count
          = (makeAll copies (copy.make mem)).read addr count := rfl
        _ = (copy.make mem).read addr count := ih hlater
        _ = mem.read addr count := read_make (hapart copy List.mem_cons_self)

/-- **Every copy that was made stays faithful** to its source as it was at the start. -/
theorem faithful_makeAll (hfresh : Fresh copies) (hcopy : copy ∈ copies) :
    copy.Faithful mem (makeAll copies mem) := by
  induction copies generalizing mem with
  | nil => cases hcopy
  | cons first copies ih =>
      obtain ⟨hfirst, hplaces⟩ := List.pairwise_cons.mp hfresh.places
      have hsources := hfresh.sources
      rcases List.mem_cons.mp hcopy with rfl | hcopy
      · exact (faithful_make copy mem).congr rfl (read_makeAll hfirst)
      · have hlater : Fresh copies := by
          refine ⟨hplaces, ?_⟩
          intro x hx y hy
          exact hsources x (List.mem_cons_of_mem _ hx) y (List.mem_cons_of_mem _ hy)
        have hsource : (first.make mem).read copy.source copy.size
            = mem.read copy.source copy.size := by
          apply read_make
          exact hsources copy (List.mem_cons_of_mem _ hcopy) first List.mem_cons_self
        exact (ih hlater hcopy).congr hsource.symm rfl

end Copy

end Words.Memory
