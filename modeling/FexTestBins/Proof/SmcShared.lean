import FexTestBins.Proof.SmcTests
import FexTestBins.SmcShared

/-!
# Code patched through another mapping

Each way of `smc-shared.cpp` to map a page twice gives two views of one page of an object, so that a
call through the one finds what was stored through the other. The verdicts then only depend on
whether the machine executes it.
-/

namespace FexTestBins.SmcProcess

open Words SmcSignals Crashing SharedPages

variable {platform : Platform} {s s' s1 : State} {code codeexec object index : Nat}
  {prot prot' : Prot} {rest : Nat → Nat → M PUnit} {post : PUnit → State → Prop}

/-- A page is mapped to be written, and once more to be called, where there was nothing before. -/
structure Twice (s s' : State) (code codeexec : Nat) : Prop where
  grows : Grows s s'
  free : codeexec ∉ s.views.pages
  ne : code ≠ codeexec
  mapped : ∃ object index prot prot', Mapped s' code object index prot ∧ prot.write = true
    ∧ Mapped s' codeexec object index prot' ∧ prot'.exec = true

theorem twice_of_mapped (hgrows : Grows s s1) (hcode : Mapped s1 code object index prot)
    (hwrite : prot.write = true) (hgrows' : Grows s1 s')
    (hexec : Mapped s' codeexec object index prot') (hexecutable : prot'.exec = true)
    (hfree : codeexec ∉ s1.views.pages) : Twice s s' code codeexec where
  grows := hgrows.trans hgrows'
  free := fun hmem => hfree (hgrows.pages hmem)
  ne := by
    rintro rfl
    exact hfree (Views.mem_pages_of_view? hcode.view)
  mapped := ⟨object, index, prot, prot', hcode.grows hgrows', hwrite, hexec, hexecutable⟩

theorem returns_mmap_mremap (hplaces : platform.Places) (count : Nat) {i : Nat} (hi : i < count)
    (hrest : ∀ code code2 s', Twice s s' (code + i) code2 → Returns (rest code code2) s' post) :
    Returns (do
      let code ← mmapAnon platform count rwx
      let code2 ← mremap platform (code + i)
      rest code code2) s post := by
  refine (returns_mmapAnon hplaces s count rwx).bind ?_
  rintro code s1 ⟨hgrows, -, object, hcode⟩
  refine (returns_mremap hplaces (hcode i hi)).bind ?_
  rintro code2 s2 ⟨hgrows', hfree, hexec⟩
  exact hrest code code2 s2 (twice_of_mapped hgrows (hcode i hi) rfl hgrows' hexec rfl hfree)

theorem returns_shmat_shmat (hplaces : platform.Places)
    (hrest : ∀ code3 code4 s', Twice s s' code3 code4 → Returns (rest code3 code4) s' post) :
    Returns (do
      let shm ← shmget 1
      let code3 ← shmat platform shm false
      let code4 ← shmat platform shm true
      rest code3 code4) s post := by
  refine (returns_newObject s 1).bind ?_
  rintro shm s1 ⟨hcreated, -⟩
  refine (returns_shmat hplaces hcreated.lt false).bind ?_
  rintro code3 s2 ⟨hgrows, -, hcode⟩
  have hcode : Mapped s2 code3 shm 0 _ := hcode 0 (by simp [hcreated.size])
  refine (returns_shmat hplaces hcode.object_lt true).bind ?_
  rintro code4 s3 ⟨hgrows', hfree, hexec⟩
  have hpos : 0 < s2.sizes shm := hcode.index_lt
  exact hrest code3 code4 s3 (twice_of_mapped (hcreated.grows.trans hgrows) hcode rfl hgrows'
    (hexec 0 hpos) rfl (hfree 0 hpos))

theorem returns_shmat_mremap (hplaces : platform.Places) (count : Nat) {i : Nat} (hi : i < count)
    (hrest : ∀ code5 code6 s', Twice s s' (code5 + i) code6 → Returns (rest code5 code6) s' post) :
    Returns (do
      let shm2 ← shmget count
      let code5 ← shmat platform shm2 true
      let code6 ← mremap platform (code5 + i)
      rest code5 code6) s post := by
  refine (returns_newObject s count).bind ?_
  rintro shm2 s1 ⟨hcreated, -⟩
  refine (returns_shmat hplaces hcreated.lt true).bind ?_
  rintro code5 s2 ⟨hgrows, -, hcode⟩
  have hcode : Mapped s2 (code5 + i) shm2 i _ := hcode i (by simpa [hcreated.size] using hi)
  refine (returns_mremap hplaces hcode).bind ?_
  rintro code6 s3 ⟨hgrows', hfree, hexec⟩
  exact hrest code5 code6 s3 (twice_of_mapped (hcreated.grows.trans hgrows) hcode rfl hgrows' hexec
    rfl hfree)

/-- A file that is mapped once to be written and once to be executed. -/
theorem returns_mmap_mmap {fd : Nat} (hplaces : platform.Places) (hcreated : Created s s1 fd 1)
    (hrest : ∀ code7 code8 s', Twice s s' code7 code8 → Returns (rest code7 code8) s' post) :
    Returns (do
      let code7 ← mmapFile platform rw fd
      let code8 ← mmapFile platform rx fd
      rest code7 code8) s1 post := by
  refine (returns_mmapFile hplaces hcreated.lt (by simp [hcreated.size]) rw).bind ?_
  rintro code7 s2 ⟨hgrows, -, hcode, -⟩
  refine (returns_mmapFile hplaces hcode.object_lt hcode.index_lt rx).bind ?_
  rintro code8 s3 ⟨hgrows', hfree, hexec, -⟩
  exact hrest code7 code8 s3 (twice_of_mapped (hcreated.grows.trans hgrows) hcode rfl hgrows' hexec
    rfl hfree)

variable {tests : List Test} {flushed : List Line}

/-- A test with a patch between its calls. -/
theorem Done.testCalls (h : Done platform tests [] flushed s) (htwice : Twice s s' code codeexec)
    (name : String) :
    Returns (SmcShared.testCalls platform code codeexec name) s' fun _ s'' => ∃ calls,
      Done platform (tests ++ [⟨name, [0, 1], calls⟩]) [] flushed s'' ∧ Alone s' s'' := by
  obtain ⟨object, index, prot, prot', hcode, hwrite, hexec, hexecutable⟩ := htwice.mapped
  refine returns_written hcode hwrite ?_
  have hstart := Testing.start (h.grows htwice.grows) (h.fresh htwice.free) hexec
  refine hstart.call_bind hexecutable fun c1 hfirst => ?_
  refine hfirst.store_bind 1 (hcode.written _ _).called hwrite (by decide) fun hpatched => ?_
  refine hpatched.call_bind hexecutable fun c2 hsecond => ?_
  refine (hsecond.finish (by decide) name).mono ?_
  rintro - last ⟨hdone, halone⟩
  exact ⟨[c1, c2], hdone, halone.forks, halone.childCalls⟩

end FexTestBins.SmcProcess

namespace FexTestBins.SmcShared

open Words SmcSignals SmcProcess Crashing SharedPages

variable {platform : Platform} {s s' : State} {code codeexec : Nat} {names : List String}
  {rest : M PUnit} {post : PUnit → State → Prop}

theorem returns_test (h : Ran platform 2 names s) (name : String)
    (hrest : ∀ s', Ran platform 2 (names ++ [name]) s' → Returns rest s' post)
    (htwice : Twice s s' code codeexec) :
    Returns (do
      test platform code codeexec name
      rest) s' post := by
  obtain ⟨tests, rfl, horder, hdone⟩ := h
  rw [test, if_neg htwice.ne]
  refine (hdone.testCalls htwice name).bind ?_
  rintro - s'' ⟨calls, hdone', -⟩
  exact hrest s'' (ran_snoc horder hdone' rfl)

/-- The names of the tests. -/
def testNames : List String :=
  ["mmap+mremap", "mmap+mremap_mid", "shmat", "shmat+mremap", "shmat+mremap_mid", "mmap+mmap",
    "mmap+mmap (fd, fd2)", "shm_open+mmap+mmap", "shm_open+mmap+mmap (fd, fd2)"]

theorem returns_main (hplaces : platform.Places) (h : Ran platform 2 [] s) :
    Returns (main platform) s fun _ s' => Reports testNames 2 s' := by
  unfold main
  refine returns_mmap_mremap (i := 0) hplaces 1 Nat.one_pos fun _ _ _ => returns_test h _ ?_
  intro s h
  refine returns_mmap_mremap hplaces 2 Nat.one_lt_two fun _ _ _ => returns_test h _ ?_
  intro s h
  refine returns_shmat_shmat hplaces fun _ _ _ => returns_test h _ ?_
  intro s h
  refine returns_shmat_mremap (i := 0) hplaces 1 Nat.one_pos fun _ _ _ => returns_test h _ ?_
  intro s h
  refine returns_shmat_mremap hplaces 2 Nat.one_lt_two fun _ _ _ => returns_test h _ ?_
  intro s h
  refine returns_file fun fd s1 hcreated => ?_
  refine returns_mmap_mmap hplaces hcreated fun _ _ _ => returns_test h _ ?_
  intro s h
  refine returns_file_twice fun fd s1 hcreated => ?_
  refine returns_mmap_mmap hplaces hcreated fun _ _ _ => returns_test h _ ?_
  intro s h
  refine returns_file fun fd s1 hcreated => ?_
  refine returns_mmap_mmap hplaces hcreated fun _ _ _ => returns_test h _ ?_
  intro s h
  refine returns_file_twice fun fd s1 hcreated => ?_
  refine returns_mmap_mmap hplaces hcreated fun _ _ _ => returns_test h _ ?_
  intro s h
  exact h.exit (by decide)

/-- **The verdicts of `smc-shared.cpp`.** Wherever the kernel places the mappings, the program makes
two calls in each of its nine tests, none of which faults, and prints a line for each. A line fails
exactly if the call did not execute what was in the page. -/
theorem shared_verdicts (platform : Platform) (hplaces : platform.Places) (s : State)
    (hcalls : s.calls = []) (hbuffer : s.buffer = []) (houtput : s.output = []) :
    ∃ final, main platform s = (some .unit, final) ∧ Reports testNames 2 final := by
  obtain ⟨⟨⟩, final, hmain, hreports⟩ := returns_main hplaces (Ran.start 2 hcalls hbuffer houtput)
  exact ⟨final, hmain, hreports⟩

theorem shared_verdicts_coherent : ∃ final, main coherent blank = (some .unit, final)
    ∧ Reports testNames 2 final :=
  shared_verdicts coherent coherent_places blank rfl rfl rfl

end FexTestBins.SmcShared
