import FexTestBins.CopyableFunctions
import FexTestBins.Library.Copies

/-!
# Trampolines stay bound

Making an instance is a patched copy of the section: the words patched are the immediate and the
pair for one kind of trampoline, and the pair alone for the other. So each instance keeps its own
pair, however many are made after it.
-/

namespace FexTestBins.CopyableFunctions

open Words Memory

variable {sec : Section} {mem mem' : Memory 64} {r : Request}

theorem add_offset (addr offset : Word) (k : Nat) :
    addr + BitVec.ofNat 64 (offset.toNat + k) = addr + offset + BitVec.ofNat 64 k := by
  rw [BitVec.ofNat_add, BitVec.ofNat_toNat, BitVec.setWidth_eq, BitVec.add_assoc]

theorem add_ofNat_toNat (addr offset : Word) :
    addr + BitVec.ofNat 64 offset.toNat = addr + offset := by
  rw [BitVec.ofNat_toNat, BitVec.setWidth_eq]

/-! ### Instances as patched copies -/

def pair (sec : Section) (r : Request) : List (Nat × Word) :=
  [(sec.infoOffset.toNat, r.target), (sec.infoOffset.toNat + 8, r.marshaler)]

def instanceCopy (sec : Section) (r : Request) : Copy 64 where
  source := sec.start
  size := sec.size
  place := r.inst
  words := pair sec r
  size_le := (sec.stop - sec.start).isLt.le
  inside := by
    have hinside : sec.infoOffset.toNat + 16 ≤ sec.size := sec.info_inside
    simp only [pair, List.mem_cons, List.not_mem_nil, or_false, forall_eq_or_imp, forall_eq]
    omega
  apart := by simp [pair]

def TestFuncSection.immediateOffset (sec : TestFuncSection) : Nat := sec.patchOffset.toNat + 2

def testFuncCopy (sec : TestFuncSection) (r : Request) : Copy 64 where
  source := sec.start
  size := sec.size
  place := r.inst
  words := (sec.immediateOffset, r.inst + sec.infoOffset) :: pair sec.toSection r
  size_le := (sec.stop - sec.start).isLt.le
  inside := by
    have hpatch : sec.immediateOffset + 8 ≤ sec.size := sec.patch_inside
    intro word hword
    rcases List.mem_cons.mp hword with rfl | hword
    · exact hpatch
    · exact (instanceCopy sec.toSection r).inside word hword
  apart := by
    have hapart : sec.immediateOffset + 8 ≤ sec.infoOffset.toNat
      ∨ sec.infoOffset.toNat + 16 ≤ sec.immediateOffset := sec.patch_apart
    refine List.pairwise_cons.mpr ⟨?_, (instanceCopy sec.toSection r).apart⟩
    simp only [pair, List.mem_cons, List.not_mem_nil, or_false, forall_eq_or_imp, forall_eq]
    omega

theorem makeInstance_eq :
    (makeInstance sec mem r.inst r.target r.marshaler).1 = (instanceCopy sec r).make mem := by
  simp only [Copy.make, instanceCopy, pair, stamp_cons, stamp_nil, add_ofNat_toNat, add_offset]
  rfl

theorem testFuncMakeInstance_eq {sec : TestFuncSection} :
    (testFuncMakeInstance sec mem r.inst r.target r.marshaler).1
      = (testFuncCopy sec r).make mem := by
  simp only [Copy.make, testFuncCopy, TestFuncSection.immediateOffset, pair, stamp_cons, stamp_nil,
    add_ofNat_toNat, add_offset]
  rfl

theorem testFuncMakeInstances_eq (sec : TestFuncSection) (mem : Memory 64)
    (requests : List Request) :
    testFuncMakeInstances sec mem requests
      = Copy.makeAll (requests.map (testFuncCopy sec)) mem := by
  rw [testFuncMakeInstances, Copy.makeAll, List.foldl_map]
  simp only [testFuncMakeInstance_eq]

theorem makeInstances_eq (mem : Memory 64) (requests : List (Section × Request)) :
    makeInstances mem requests
      = Copy.makeAll (requests.map fun x => instanceCopy x.1 x.2) mem := by
  rw [makeInstances, Copy.makeAll, List.foldl_map]
  simp only [makeInstance_eq]

/-! ### What the copies hold -/

structure HoldsPair (sec : Section) (mem : Memory 64) (r : Request) : Prop where
  target : mem.loadWord (r.inst + sec.infoOffset) = r.target
  marshaler : mem.loadWord (r.inst + sec.infoOffset + 8) = r.marshaler

theorem holdsPair_of_words (hwords : ∀ word ∈ pair sec r,
    mem.loadWord (r.inst + BitVec.ofNat 64 word.1) = word.2) : HoldsPair sec mem r where
  target := by
    have hword := hwords (sec.infoOffset.toNat, r.target) (by simp [pair])
    rwa [add_ofNat_toNat] at hword
  marshaler := by
    have hword := hwords (sec.infoOffset.toNat + 8, r.marshaler) (by simp [pair])
    rwa [add_offset] at hword

theorem HoldsPair.callThrough {Args : Type} (h : HoldsPair sec mem r) (args : Args) :
    callThrough mem (r.inst + sec.infoOffset) args = ⟨r.marshaler, args, r.target⟩ := by
  rw [CopyableFunctions.callThrough, h.target, h.marshaler]

/-- From the function returned, the distance to another place of the section leads to the same
place of the instance. -/
theorem entry_add (inst canonical start place : Word) :
    inst + (canonical - start) + (place - canonical) = inst + (place - start) := by
  grind

/-- An instance of `test_func_canonical` made for `r`, when the section was as in `mem`. -/
structure TestFuncBound (sec : TestFuncSection) (mem mem' : Memory 64) (r : Request) : Prop where
  rest : ∀ i < sec.size, (i < sec.immediateOffset ∨ sec.immediateOffset + 8 ≤ i) →
    (i < sec.infoOffset.toNat ∨ sec.infoOffset.toNat + 16 ≤ i) →
    mem' (r.inst + BitVec.ofNat 64 i) = mem (sec.start + BitVec.ofNat 64 i)
  immediate : mem'.loadWord (r.inst + sec.patchOffset + 2) = r.inst + sec.infoOffset
  holds : HoldsPair sec.toSection mem' r
  call : ∀ args, testFuncCanonical sec mem'
      (testFuncMakeInstance sec mem r.inst r.target r.marshaler).2 args
    = ⟨r.marshaler, args, r.target⟩

/-- An instance of `trampoline_canonical` made for `r`, when the section was as in `mem`. -/
structure TrampolineBound (sec : Section) (mem mem' : Memory 64) (r : Request) : Prop where
  rest : ∀ i < sec.size, (i < sec.infoOffset.toNat ∨ sec.infoOffset.toNat + 16 ≤ i) →
    mem' (r.inst + BitVec.ofNat 64 i) = mem (sec.start + BitVec.ofNat 64 i)
  holds : HoldsPair sec mem' r
  call : ∀ (Args : Type) (args : Args), trampolineCanonical sec mem'
      (makeInstance sec mem r.inst r.target r.marshaler).2 args
    = ⟨r.marshaler, args, r.target⟩

theorem trampolineBound_of_faithful (h : (instanceCopy sec r).Faithful mem mem') :
    TrampolineBound sec mem mem' r := by
  have hholds : HoldsPair sec mem' r := holdsPair_of_words h.words
  refine ⟨?_, hholds, ?_⟩
  · intro i hi hinfo
    apply h.rest i hi
    simp only [instanceCopy, pair, List.mem_cons, List.not_mem_nil, or_false, forall_eq_or_imp,
      forall_eq]
    omega
  · intro Args args
    rw [trampolineCanonical, makeInstance, Section.codeOffset, entry_add]
    exact hholds.callThrough args

theorem testFuncBound_of_faithful {sec : TestFuncSection}
    (h : (testFuncCopy sec r).Faithful mem mem') : TestFuncBound sec mem mem' r := by
  have hholds : HoldsPair sec.toSection mem' r := by
    apply holdsPair_of_words
    intro word hword
    exact h.words word (List.mem_cons_of_mem _ hword)
  have himmediate : mem'.loadWord (r.inst + sec.patchOffset + 2) = r.inst + sec.infoOffset := by
    have hword := h.words (sec.immediateOffset, r.inst + sec.infoOffset) List.mem_cons_self
    rwa [TestFuncSection.immediateOffset, add_offset] at hword
  refine ⟨?_, himmediate, hholds, ?_⟩
  · intro i hi hpatch hinfo
    apply h.rest i hi
    simp only [testFuncCopy, pair, List.mem_cons, List.not_mem_nil, or_false, forall_eq_or_imp,
      forall_eq]
    omega
  · intro args
    rw [testFuncCanonical, testFuncMakeInstance, Section.codeOffset, entry_add,
      ← TestFuncSection.patchOffset, himmediate]
    exact hholds.callThrough args

/-! ### Any number of instances -/

theorem Fresh.of_prefix_of {requests made : List (Section × Request)} (h : Fresh requests)
    (hmade : made <+: requests) : Fresh made where
  sections := fun x hx y hy => h.sections x (hmade.subset hx) y (hmade.subset hy)
  instances := h.instances.sublist hmade.sublist

theorem testFunc_makeInstances {sec : TestFuncSection} {made : List Request}
    (hfresh : Fresh (made.map fun r => (sec.toSection, r))) :
    (testFuncMakeInstances sec mem made).read sec.start sec.size = mem.read sec.start sec.size
      ∧ ∀ r ∈ made, TestFuncBound sec mem (testFuncMakeInstances sec mem made) r := by
  have hcopies : Copy.Fresh (made.map (testFuncCopy sec)) := by
    refine ⟨List.pairwise_map.mpr (List.pairwise_map.mp hfresh.instances), ?_⟩
    have hsections := hfresh.sections
    simp only [List.forall_mem_map] at hsections ⊢
    exact hsections
  rw [testFuncMakeInstances_eq]
  constructor
  · apply Copy.read_makeAll
    intro copy hcopy
    obtain ⟨r, hr, rfl⟩ := List.mem_map.mp hcopy
    exact hcopies.sources _ hcopy _ hcopy
  · intro r hr
    apply testFuncBound_of_faithful
    exact Copy.faithful_makeAll hcopies (List.mem_map_of_mem hr)

theorem trampoline_makeInstances {made : List (Section × Request)} (hfresh : Fresh made) :
    ∀ x ∈ made, (makeInstances mem made).read x.1.start x.1.size = mem.read x.1.start x.1.size
      ∧ TrampolineBound x.1 mem (makeInstances mem made) x.2 := by
  have hcopies : Copy.Fresh (made.map fun x => instanceCopy x.1 x.2) := by
    refine ⟨List.pairwise_map.mpr hfresh.instances, ?_⟩
    have hsections := hfresh.sections
    simp only [List.forall_mem_map]
    exact hsections
  intro x hx
  have hcopy : instanceCopy x.1 x.2 ∈ made.map fun x => instanceCopy x.1 x.2 :=
    List.mem_map_of_mem (f := fun x => instanceCopy x.1 x.2) hx
  rw [makeInstances_eq]
  constructor
  · apply Copy.read_makeAll
    intro copy hmem
    exact hcopies.sources _ hcopy copy hmem
  · apply trampolineBound_of_faithful
    exact Copy.faithful_makeAll hcopies hcopy

/-- **Trampolines stay bound to their own target.** After any number of calls of
`test_func_make_instance` the section is as it was; each instance made so far is the section, byte
for byte, outside its immediate and its info area; the immediate is the address of its own info
area, that area holds the pair it was made with, and the function returned calls its own marshaler
with its own target. The same holds of `CopyableTrampoline`, without the immediate, and for any
mix of sections. -/
theorem instances_stay_bound :
    (∀ (sec : TestFuncSection) (mem : Memory 64) (requests : List Request),
        Fresh (requests.map fun r => (sec.toSection, r)) → ∀ made, made <+: requests →
        (testFuncMakeInstances sec mem made).read sec.start sec.size
            = mem.read sec.start sec.size
          ∧ ∀ r ∈ made, TestFuncBound sec mem (testFuncMakeInstances sec mem made) r)
      ∧ ∀ (mem : Memory 64) (requests : List (Section × Request)),
        Fresh requests → ∀ made, made <+: requests → ∀ x ∈ made,
          (makeInstances mem made).read x.1.start x.1.size = mem.read x.1.start x.1.size
            ∧ TrampolineBound x.1 mem (makeInstances mem made) x.2 := by
  constructor
  · intro sec mem requests hfresh made hmade
    have hmade' := hmade.map fun r => (sec.toSection, r)
    exact testFunc_makeInstances (hfresh.of_prefix_of hmade')
  · intro mem requests hfresh made hmade
    exact trampoline_makeInstances (hfresh.of_prefix_of hmade)

def smallSection : TestFuncSection where
  start := 0x1000
  stop := 0x1040
  canonical := 0x1000
  info := 0x1020
  patch := 0x1004
  info_inside := by decide
  patch_inside := by decide
  patch_apart := by decide

def twoRequests : List Request :=
  [⟨0x10000, 0x41, 0x42⟩, ⟨0x20000, 0x51, 0x52⟩]

theorem fresh_twoRequests : Fresh (twoRequests.map fun r => (smallSection.toSection, r)) where
  sections := by
    simp only [twoRequests, List.map_cons, List.map_nil, List.mem_cons, List.not_mem_nil, or_false,
      forall_eq_or_imp, forall_eq]
    exact ⟨⟨apart_of_le (by decide) (by decide), apart_of_le (by decide) (by decide)⟩,
      apart_of_le (by decide) (by decide), apart_of_le (by decide) (by decide)⟩
  instances := by
    simp only [twoRequests, List.map_cons, List.map_nil, List.pairwise_cons, List.mem_singleton,
      forall_eq, List.not_mem_nil, false_imp_iff, implies_true, List.Pairwise.nil, and_true]
    exact apart_of_le (by decide) (by decide)

theorem instances_stay_bound_two :
    testFuncCanonical smallSection
          (testFuncMakeInstances smallSection (fun _ => 0xCC) twoRequests) 0x10000 (1, 0x77)
        = ⟨0x42, (1, 0x77), 0x41⟩
      ∧ trampolineCanonical smallSection.toSection
          (makeInstances (fun _ => 0xCC) (twoRequests.map fun r => (smallSection.toSection, r)))
          0x20000 (2 : Word)
        = ⟨0x52, 2, 0x51⟩ := by
  constructor
  · have hbound := (instances_stay_bound.1 smallSection (fun _ => 0xCC) twoRequests
      fresh_twoRequests _ (List.prefix_refl _)).2
    exact (hbound _ List.mem_cons_self).call (1, 0x77)
  · have hbound := instances_stay_bound.2 (fun _ => 0xCC) _ fresh_twoRequests _
      (List.prefix_refl _)
    exact (hbound _ (List.mem_cons_of_mem _ List.mem_cons_self)).2.call Word 2

end FexTestBins.CopyableFunctions
