import FexTestBins.Library.OwnedMaps
import FexTestBins.NestedTest

/-!
# Handlers in the loop over `test`

A handler that is in a call has a mapping of its own, so that handlers on top of it do not disturb
it. Where the code takes a fixed number of instructions, the loop takes a fixed number of steps.
-/

namespace FexTestBins.NestedTest

open X86 Transition Interrupts

variable {code : Code} {rounds : Nat} {maps maps' : Addr → Option Code} {pc pc' : Pc}
  {after : Option Pc} {addr : Addr} {cpu : Cpu} {fetched count : Nat}

/-! ### The call -/

/-- What the registers and flags may be behind some instructions of the code. -/
def Reached (code : Code) (cpu : Cpu) (fetched : Nat) : Prop :=
  ∃ eax zf fetches, Run (X86.Step code) (fnEntry eax zf) fetches cpu ∧ fetches.length = fetched

theorem reached_entry (code : Code) (eax : BitVec 32) (zf : Bool) :
    Reached code (fnEntry eax zf) 0 :=
  ⟨eax, zf, [], .refl _, rfl⟩

theorem Reached.step {instr : Nat × Instr} {cpu' : Cpu} (h : Reached code cpu fetched)
    (hstep : X86.Step code cpu instr cpu') : Reached code cpu' (fetched + 1) := by
  obtain ⟨eax, zf, fetches, hrun, hlength⟩ := h
  exact ⟨eax, zf, _, hrun.snoc hstep, by simp [hlength]⟩

/-- Code that can always be fetched, until it returns. -/
def Fetchable (code : Code) : Prop :=
  ∀ cpu fetched, Reached code cpu fetched → cpu.returned = false →
    ∃ instr after, X86.Step code cpu instr after

structure Takes (code : Code) (count : Nat) : Prop where
  fetchable : Fetchable code
  length_le : ∀ cpu fetched, Reached code cpu fetched → fetched ≤ count
  returned : ∀ cpu fetched, Reached code cpu fetched → cpu.returned = true → fetched = count

def Ok (code : Code) (rounds : Nat) (maps : Addr → Option Code) : Pc → Prop
  | .loop i => i ≤ rounds
  | .call i addr cpu fetched => i < rounds ∧ maps addr = some code ∧ Reached code cpu fetched

theorem Ok.act (h : Ok code rounds maps pc) (hact : Act code rounds maps pc maps' (some pc')) :
    Ok code rounds maps' pc' := by
  cases hact with
  | mmap eax zf hlt _ => exact ⟨hlt, Function.update_self .., reached_entry code eax zf⟩
  | fetch hmapped hstep =>
      obtain ⟨hlt, hcode, hreached⟩ := h
      obtain rfl := Option.some.inj (hmapped.symm.trans hcode)
      exact ⟨hlt, hcode, hreached.step hstep⟩
  | munmap => exact h.1

theorem Ok.congr (h : Ok code rounds maps pc)
    (hsame : ∀ addr, pc.mapping = some addr → maps' addr = maps addr) :
    Ok code rounds maps' pc := by
  cases pc with
  | loop i => exact h
  | call i addr cpu fetched => exact ⟨h.1, (hsame addr rfl).trans h.2.1, h.2.2⟩

theorem Ok.mapped (h : Ok code rounds maps pc) (hown : pc.mapping = some addr) :
    maps addr = some code := by
  cases pc with
  | loop i => cases hown
  | call i addr' cpu fetched =>
      obtain rfl : addr' = addr := Option.some.inj hown
      exact h.2.1

theorem Act.others (hact : Act code rounds maps pc maps' after) (hown : pc.mapping ≠ some addr)
    (hlost : ∀ pc' ∈ after, pc'.mapping ≠ some addr) : maps' addr = maps addr := by
  cases hact with
  | mmap =>
      apply Function.update_of_ne
      rintro rfl
      exact hlost _ rfl rfl
  | munmap =>
      apply Function.update_of_ne
      rintro rfl
      exact hown rfl
  | fetch | ret => rfl

theorem Act.released (hact : Act code rounds maps pc maps' after) (hown : pc.mapping = some addr)
    (hlost : ∀ pc' ∈ after, pc'.mapping ≠ some addr) : maps' addr = none := by
  cases hact with
  | fetch => exact (hlost _ rfl hown).elim
  | munmap =>
      obtain rfl := Option.some.inj hown
      exact Function.update_self ..
  | mmap | ret => cases hown

theorem Act.acquired (hact : Act code rounds maps pc maps' (some pc'))
    (hown : pc'.mapping = some addr) : pc.mapping = some addr ∨ maps addr = none := by
  cases hact with
  | mmap _ _ _ hfree =>
      obtain rfl := Option.some.inj hown
      exact .inr hfree
  | fetch => exact .inl hown
  | munmap => cases hown

/-! ### Programs with such handlers -/

section Hosts

variable {Env Frame : Type} {program : Interrupts.Program Env Frame} {test : Frame → Option Pc}
  {content : Env → Addr → Option Code}

/-- A program whose handlers come to the loop. All other steps leave the mappings alone, and come to
the beginning of the loop at most. -/
structure Hosts (code : Code) (rounds : Nat) (program : Interrupts.Program Env Frame)
    (test : Frame → Option Pc) (content : Env → Addr → Option Code) : Prop where
  enter : ∀ env env' frame, program.enter env env' frame →
    test frame = none ∧ content env' = content env
  main : ∀ env env', program.main env env' → content env' = content env
  act : ∀ env frame env' after, program.act env frame env' after →
    test frame = none ∧ content env' = content env
        ∧ (∀ frame' ∈ after, ∀ pc ∈ test frame', pc = .loop 0)
      ∨ ∃ pc, test frame = some pc
        ∧ Act code rounds (content env) pc (content env') (after.bind test)

def mapping (test : Frame → Option Pc) (frame : Frame) : Option Addr :=
  (test frame).bind Pc.mapping

def FrameOk (code : Code) (rounds : Nat) (test : Frame → Option Pc)
    (content : Env → Addr → Option Code) (env : Env) (frame : Frame) : Prop :=
  ∀ pc ∈ test frame, Ok code rounds (content env) pc

theorem mapping_of_test {frame : Frame} (htest : test frame = some pc) :
    mapping test frame = pc.mapping := by
  rw [mapping, htest, Option.bind_some]

theorem mapping_of_none {frame : Frame} (htest : test frame = none) :
    mapping test frame = none := by
  rw [mapping, htest, Option.bind_none]

/-- A frame that owns a mapping is in its loop. -/
theorem exists_test {frame : Frame} (hown : mapping test frame = some addr) :
    ∃ pc, test frame = some pc ∧ pc.mapping = some addr :=
  Option.bind_eq_some_iff.mp hown

theorem mapped_of_kept {init : Addr → Option Code} {state : Interrupts.State Env Frame}
    (hkept : Kept (mapping test) (FrameOk code rounds test content) content init state)
    {frame : Frame} (hframe : frame ∈ state.frames) (hown : mapping test frame = some addr) :
    content state.env addr = some code ∧ init addr = none := by
  refine ⟨?_, hkept.unmapped frame hframe addr hown⟩
  obtain ⟨pc, htest, hmapping⟩ := exists_test hown
  exact (hkept.separate.ok frame hframe pc htest).mapped hmapping

theorem Hosts.mapDiscipline (h : Hosts code rounds program test content) :
    MapDiscipline program (mapping test) (FrameOk code rounds test content) content where
  enter_own := fun env env' frame henter => mapping_of_none (h.enter env env' frame henter).1
  enter_ok := by
    intro env env' frame henter pc hpc
    rw [(h.enter env env' frame henter).1] at hpc
    cases hpc
  enter_content := fun env env' frame henter => (h.enter env env' frame henter).2
  main_content := h.main
  act_ok := by
    intro env frame env' frame' hok hact pc' hpc'
    rcases h.act env frame env' _ hact with ⟨-, -, hloop⟩ | ⟨pc, hpc, htest⟩
    · rw [hloop frame' rfl pc' hpc']
      exact Nat.zero_le _
    · rw [Option.bind_some, Option.mem_def.mp hpc'] at htest
      exact (hok pc hpc).act htest
  congr := by
    intro env env' frame hok hsame pc hpc
    apply (hok pc hpc).congr
    intro addr hown
    apply hsame addr
    rw [mapping_of_test hpc, hown]
  mapped := by
    intro env frame addr hok hown
    obtain ⟨pc, hpc, hmapping⟩ := exists_test hown
    simp [(hok pc hpc).mapped hmapping]
  others := by
    intro env frame env' after hact addr hown hlost
    rcases h.act env frame env' after hact with ⟨-, hsame, -⟩ | ⟨pc, hpc, htest⟩
    · rw [hsame]
    · apply htest.others
      · rwa [← mapping_of_test hpc]
      · intro pc' hpc'
        obtain ⟨frame', hframe', hpc'⟩ := Option.bind_eq_some_iff.mp hpc'
        rw [← mapping_of_test hpc']
        exact hlost frame' hframe'
  released := by
    intro env frame env' after hact addr hown hlost
    obtain ⟨pc, hpc, hmapping⟩ := exists_test hown
    rcases h.act env frame env' after hact with ⟨hnone, -⟩ | ⟨pc', hpc', htest⟩
    · rw [hnone] at hpc
      cases hpc
    · obtain rfl := Option.some.inj (hpc.symm.trans hpc')
      apply htest.released hmapping
      intro pc' hpc'
      obtain ⟨frame', hframe', hpc'⟩ := Option.bind_eq_some_iff.mp hpc'
      rw [← mapping_of_test hpc']
      exact hlost frame' hframe'
  acquired := by
    intro env frame env' frame' hact addr hown
    obtain ⟨pc', hpc', hmapping'⟩ := exists_test hown
    rcases h.act env frame env' _ hact with ⟨-, -, hloop⟩ | ⟨pc, hpc, htest⟩
    · rw [hloop frame' rfl pc' hpc'] at hmapping'
      cases hmapping'
    · rw [Option.bind_some, hpc'] at htest
      rw [mapping_of_test hpc]
      exact htest.acquired hmapping'

end Hosts

/-! ### The steps of the loop -/

/-- How many steps are left in the loop, if a call takes `count` instructions. -/
def Pc.work (rounds count : Nat) : Pc → Nat
  | .loop i => (rounds - i) * (count + 2) + 1
  | .call i _ _ fetched => (rounds - 1 - i) * (count + 2) + (count - fetched) + 2

theorem work_act (htakes : Takes code count) (hok : Ok code rounds maps pc)
    (hact : Act code rounds maps pc maps' after) :
    after.elim 0 (Pc.work rounds count) + 1 = pc.work rounds count := by
  cases hact with
  | @mmap i addr eax zf hlt _ =>
      have hloop : rounds - i = rounds - 1 - i + 1 := by omega
      simp only [Option.elim_some, Pc.work, hloop, Nat.succ_mul]
      omega
  | @fetch i fetched addr cpu cpu' mapped instr hmapped hstep =>
      obtain ⟨-, hcode, hreached⟩ := hok
      obtain rfl := Option.some.inj (hmapped.symm.trans hcode)
      have hle := htakes.length_le _ _ (hreached.step hstep)
      simp only [Option.elim_some, Pc.work]
      omega
  | @munmap i fetched addr cpu hreturned =>
      have heq := htakes.returned _ _ hok.2.2 hreturned
      have hloop : rounds - (i + 1) = rounds - 1 - i := by omega
      simp only [Option.elim_some, Pc.work, hloop, heq]
      omega
  | @ret i hge =>
      have hloop : rounds - i = 0 := by omega
      simp [Pc.work, hloop]

/-- A handler in its loop can go on, if there is room for another mapping where it needs one. -/
theorem exists_act (hfetchable : Fetchable code) (hok : Ok code rounds maps pc)
    (hroom : pc.mapping = none → ∃ addr, maps addr = none) :
    ∃ maps' after, Act code rounds maps pc maps' after := by
  cases pc with
  | loop i =>
      by_cases hlt : i < rounds
      · obtain ⟨addr, hfree⟩ := hroom rfl
        exact ⟨_, _, .mmap 0 false hlt hfree⟩
      · exact ⟨_, _, .ret hlt⟩
  | call i addr cpu fetched =>
      obtain ⟨-, hcode, hreached⟩ := hok
      cases hreturned : cpu.returned with
      | true => exact ⟨_, _, .munmap hreturned⟩
      | false =>
          obtain ⟨instr, cpu', hstep⟩ := hfetchable cpu fetched hreached hreturned
          exact ⟨_, _, .fetch hcode hstep⟩

/-- Handlers that are not in their loop have no mapping, and neither has one at the test of it. -/
theorem length_mapping_lt {Frame : Type} {test : Frame → Option Pc} {frame : Frame}
    {rest : List Frame} (htest : test frame = some pc) (hnone : pc.mapping = none) :
    ((frame :: rest).filterMap (mapping test)).length
      < (frame :: rest).countP fun other => (test other).isSome := by
  have hle : (rest.filterMap (mapping test)).length
      ≤ rest.countP fun other => (test other).isSome := by
    rw [List.length_filterMap_eq_countP]
    apply List.countP_mono_left
    intro other _ hsome
    obtain ⟨addr, hown⟩ := Option.isSome_iff_exists.mp hsome
    obtain ⟨pc', hpc', -⟩ := exists_test hown
    rw [hpc', Option.isSome_some]
  rw [List.filterMap_cons_none ((mapping_of_test htest).trans hnone),
    List.countP_cons_of_pos (by rw [htest, Option.isSome_some])]
  exact Nat.lt_succ_of_le hle

/-- Room for as many mappings as there are handlers in their loops is enough. -/
theorem exists_act_of_kept {Env Frame : Type} {test : Frame → Option Pc}
    {content : Env → Addr → Option Code} {init : Addr → Option Code} {env : Env} {frame : Frame}
    {rest : List Frame} (hfetchable : Fetchable code)
    (hkept : Kept (mapping test) (FrameOk code rounds test content) content init
      ⟨env, frame :: rest⟩)
    (htest : test frame = some pc) (room : Finset Addr) (hroom : ∀ addr ∈ room, init addr = none)
    (hcard : ((frame :: rest).countP fun other => (test other).isSome) ≤ room.card) :
    ∃ maps' after, Act code rounds (content env) pc maps' after := by
  apply exists_act hfetchable (hkept.separate.ok frame List.mem_cons_self pc htest)
  intro hnone
  exact hkept.exists_free room hroom ((length_mapping_lt htest hnone).trans_le hcard)

/-- Room in an address space. -/
def firstAddrs (count : Nat) : Finset Addr := (Finset.range count).image (BitVec.ofNat 64)

theorem card_firstAddrs {count : Nat} (hcount : count ≤ 2 ^ 64) :
    (firstAddrs count).card = count := by
  rw [firstAddrs, Finset.card_image_of_injOn, Finset.card_range]
  intro m hm n hn heq
  have hm : m < count := by simpa using hm
  have hn : n < count := by simpa using hn
  have hnat := congrArg BitVec.toNat heq
  rw [BitVec.toNat_ofNat, BitVec.toNat_ofNat, Nat.mod_eq_of_lt (by omega),
    Nat.mod_eq_of_lt (by omega)] at hnat
  exact hnat

end FexTestBins.NestedTest
