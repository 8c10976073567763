import FexTestBins.Proof.SmcTests
import FexTestBins.Smc2

/-!
# The function at other kinds of pages

A test of four calls leaves the page as it was mapped, so that it can be mapped once more. A page
that was mapped over a segment is not part of it any more, and stays when the segment is detached.
-/

namespace FexTestBins.SmcProcess

open Words SmcSignals Crashing SharedPages

variable {platform : Platform} {s s' : State} {tests : List Test} {flushed : List Line}
  {page code object index : Nat} {prot : Prot} {stored : List (Fin 4)} {calls : List Call}
  {j : Fin 4}

theorem Mapped.printed (h : Mapped s page object index prot) (lines : List Line) :
    Mapped (s.printed platform lines) page object index prot := by
  unfold State.printed
  split <;> exact ⟨h.view, h.object_lt, h.index_lt⟩

/-- What four calls have returned. -/
theorem Testing.finish_four {c1 c2 c3 c4 : Call}
    (h : Testing platform tests flushed page object index prot stored [c1, c2, c3, c4] j s)
    (hstored : stored.length ≤ 4) (name : String) :
    Returns (do
      printf platform ⟨name, 1, immediate c1.executed,
        Smc.verdict (immediate c1.executed ≠ 0xDDCCBBAA)⟩
      printf platform ⟨name, 2, immediate c2.executed,
        Smc.verdict (immediate c2.executed ≠ 0xDDFEBBAA)⟩
      printf platform ⟨name, 3, immediate c3.executed,
        Smc.verdict (immediate c3.executed ≠ 0xDDF3BBAA)⟩
      printf platform ⟨name, 4, immediate c4.executed,
        Smc.verdict (immediate c4.executed ≠ 0xDDF1BBAA)⟩) s fun _ s' =>
        Done platform (tests ++ [⟨name, stored, [c1, c2, c3, c4]⟩]) [] flushed s'
          ∧ Mapped s' page object index prot := by
  refine returns_printf_bind (returns_printf_bind (returns_printf_bind
    ((returns_printf _ _).mono ?_)))
  rintro - _ rfl
  rw [State.printed_printed, State.printed_printed, State.printed_printed]
  exact ⟨h.printed hstored name, h.mapped.printed _⟩

/-- A test with three patches, during two of which the page is protected. -/
theorem Done.four_calls (h : Done platform tests [] flushed s)
    (hfresh : ∀ test ∈ tests, ∀ c ∈ test.calls, c.page ≠ code)
    (hmapped : Mapped s code object index rwx) (name : String) :
    Returns (Smc2.test platform code name) s fun _ s' => ∃ calls,
      Done platform (tests ++ [⟨name, [0, 1, 2, 3], calls⟩]) [] flushed s'
        ∧ Mapped s' code object index rwx ∧ ∀ c ∈ calls, c.object = object := by
  refine returns_written hmapped rfl ?_
  have h0 := Testing.start h hfresh hmapped
  refine h0.call_bind rfl fun c1 h1 => ?_
  refine h1.store_bind 1 h1.mapped rfl (by decide) fun h2 => ?_
  refine h2.call_bind rfl fun c2 h3 => ?_
  refine h3.mprotect_bind rx fun s1 h4 => h4.mprotect_bind rwx fun s2 h5 => ?_
  refine h5.store_bind 2 h5.mapped rfl (by decide) fun h6 => ?_
  refine h6.mprotect_bind rx fun s3 h7 => h7.call_bind rfl fun c3 h8 => ?_
  refine h8.mprotect_bind rwx fun s4 h9 => ?_
  refine h9.store_bind 3 h9.mapped rfl (by decide) fun h10 => ?_
  refine h10.call_bind rfl fun c4 h11 => ?_
  refine (h11.finish_four (by decide) name).mono ?_
  rintro - last ⟨hdone, hmapped'⟩
  exact ⟨[c1, c2, c3, c4], hdone, hmapped', fun c hc => (h11.sound.place c hc).2⟩

end FexTestBins.SmcProcess

namespace FexTestBins.Smc2

open Words SmcSignals SmcProcess Crashing SharedPages

variable {platform : Platform} {s s' : State} {code object index : Nat} {names : List String}
  {rest : M PUnit} {post : PUnit → State → Prop}

theorem returns_test (h : Ran platform 4 names s) (hgrows : Grows s s')
    (hmapped : Mapped s' code object index rwx) (hfree : code ∉ s.views.pages) (name : String)
    (hrest : ∀ s', Ran platform 4 (names ++ [name]) s' → Mapped s' code object index rwx →
      Returns rest s' post) :
    Returns (do
      test platform code name
      rest) s' post := by
  obtain ⟨tests, rfl, horder, hdone⟩ := h
  refine ((hdone.grows hgrows).four_calls (hdone.fresh hfree) hmapped name).bind ?_
  rintro - s'' ⟨calls, hdone', hmapped', -⟩
  exact hrest s'' (ran_snoc horder hdone' rfl) hmapped'

theorem returns_main (hplaces : platform.Places) (h : Ran platform 4 [] s) :
    Returns (main platform) s fun _ final =>
      Reports ["mremap", "shmat", "shmat+mremap"] 4 final := by
  refine (returns_mmapAnon hplaces s 1 rwx).bind ?_
  rintro code s1 ⟨hgrows, -, object, hcode⟩
  refine (returns_mremap hplaces (hcode 0 Nat.one_pos)).bind ?_
  rintro code2 s2 ⟨hgrows', hfree, hmapped⟩
  refine returns_test (h.grows hgrows) hgrows' hmapped hfree _ fun s h _ => ?_
  refine (returns_newObject s 1).bind ?_
  rintro shm s1 ⟨hcreated, -⟩
  refine (returns_shmat hplaces hcreated.lt true).bind ?_
  rintro code3 s2 ⟨hgrows, hfree, hmapped⟩
  have hpos : 0 < s1.sizes shm := by simp [hcreated.size]
  refine returns_test (h.grows hcreated.grows) hgrows (hmapped 0 hpos) (hfree 0 hpos) _ ?_
  intro s h hmapped
  refine (returns_mremap hplaces hmapped).bind ?_
  rintro code4 s1 ⟨hgrows, hfree, hmapped⟩
  exact returns_test h hgrows hmapped hfree _ fun s h _ => h.exit le_rfl

/-- **The verdicts of `smc-2.cpp`.** Wherever the kernel places the mappings, no store or call of
the three tests faults, and each of their twelve lines fails exactly if the call did not execute
what was in the page, also where the page still holds the function of the test before. -/
theorem smc2_verdicts (platform : Platform) (hplaces : platform.Places) (s : State)
    (hcalls : s.calls = []) (hbuffer : s.buffer = []) (houtput : s.output = []) :
    ∃ final, main platform s = (some .unit, final)
      ∧ Reports ["mremap", "shmat", "shmat+mremap"] 4 final := by
  obtain ⟨⟨⟩, final, hmain, hreports⟩ := returns_main hplaces (Ran.start 4 hcalls hbuffer houtput)
  exact ⟨final, hmain, hreports⟩

theorem smc2_verdicts_coherent : ∃ final, main coherent blank = (some .unit, final)
    ∧ Reports ["mremap", "shmat", "shmat+mremap"] 4 final :=
  smc2_verdicts coherent coherent_places blank rfl rfl rfl

end FexTestBins.Smc2

namespace FexTestBins.SmcShmatdt

open Words SmcSignals SmcProcess Crashing SharedPages

variable {platform : Platform} {s s' : State}

/-- What is mapped over the middle of a segment is of another object, and stays when the segment is
detached. -/
theorem view?_detached {views : Views Prot} {shm object ptrshm : Nat} (hne : object ≠ shm) :
    ((views.map (ptrshm + 1) 1 fun i => ⟨object, i, rwx⟩).unmap fun p other =>
      other.object == shm && p == ptrshm + other.index).view? (ptrshm + 1)
        = some ⟨object, 0, rwx⟩ := by
  refine Views.view?_unmap ?_ (by simp [hne])
  rw [Views.view?_map, if_pos (by omega), Nat.sub_self]

/-- The start of the segment is still attached when `shmdt` is called. -/
theorem view?_attached {views : Views Prot} {shm object ptrshm : Nat} :
    (((views.map ptrshm 3 fun i => ⟨shm, i, rw⟩).unmap fun p _ => p == ptrshm + 1).map
      (ptrshm + 1) 1 fun i => ⟨object, i, rwx⟩).view? ptrshm = some ⟨shm, 0, rw⟩ := by
  rw [Views.view?_map, if_neg (by omega)]
  refine Views.view?_unmap ?_ (by simp)
  rw [Views.view?_map, if_pos (by omega), Nat.sub_self]

/-- The segment is the first object that is made. -/
theorem returns_main (hplaces : platform.Places) (hcalls : s.calls = []) (hbuffer : s.buffer = [])
    (houtput : s.output = []) :
    Returns (main platform) s fun _ final =>
      Reports ["mmap+shmdt"] 4 final ∧ ∀ c ∈ final.calls, c.object ≠ s.objects := by
  have hsegment : Returns (shmget 3) s fun shm s1 => shm = s.objects ∧ Created s s1 shm 3 :=
    ((returns_newObject s 3).and ⟨_, _, rfl, rfl⟩).mono fun _ _ h => ⟨h.2, h.1.1⟩
  refine hsegment.bind ?_
  rintro shm s1 ⟨rfl, hsegment⟩
  refine (returns_shmat_eq hplaces s1 s.objects false).bind ?_
  rintro ptrshm s2 ⟨hfree, hattached⟩
  have hgrows : Grows s1 s2 := by
    rw [hattached]
    exact grows_map hfree _
  rw [hsegment.size] at hattached
  have hmmap : Returns (mmapFixed (ptrshm + 1) rwx) s2 fun page s3 => page = ptrshm + 1
      ∧ ∃ object s', Created s2 s' object 1 ∧ s3 = { s' with
        views := (s'.views.unmap fun p _ => p == ptrshm + 1).map (ptrshm + 1) 1
          fun i => ⟨object, i, rwx⟩ } := by
    refine (returns_newObject s2 1).bind ?_
    rintro object s' ⟨hcreated, -⟩
    exact returns_update_bind (returns_pure ⟨rfl, object, s', hcreated, rfl⟩)
  refine hmmap.bind ?_
  rintro _ s3 ⟨rfl, object, s', hcreated, hmapped⟩
  have hview : s3.views.view? ptrshm = some ⟨s.objects, 0, rw⟩ := by
    rw [hmapped, hcreated.views, hattached]
    exact view?_attached
  have hdetach : Returns (shmdt ptrshm) s3 fun _ s4 => s4 = { s3 with
      views := s3.views.unmap fun p other =>
        other.object == s.objects && p == ptrshm + other.index } :=
    returns_require_bind hview (returns_update rfl)
  refine hdetach.bind ?_
  rintro - s4 hdetached
  have hne : object ≠ s.objects := by
    have hlt : s.objects < s2.objects := by
      rw [hattached]
      exact hsegment.lt
    have hle := hcreated.le
    omega
  have hpage : Mapped s4 (ptrshm + 1) object 0 rwx := by
    rw [hdetached, hmapped]
    exact ⟨view?_detached hne, hcreated.lt, by simp [hcreated.size]⟩
  have hstart : Done platform [] [] [] s4 := by
    have hgrows : Grows s s' := (hsegment.grows.trans hgrows).trans hcreated.grows
    rw [hdetached, hmapped]
    exact Done.start (hgrows.calls.trans hcalls) (hgrows.buffer.trans hbuffer)
      (hgrows.output.trans houtput)
  refine (hstart.four_calls (by simp) hpage "mmap+shmdt").bind ?_
  rintro - s5 ⟨calls, hdone, -, hobject⟩
  have hran : Ran platform 4 ["mmap+shmdt"] s5 := ran_snoc (by simp) hdone rfl
  refine ((hran.exit le_rfl).and hdone.exit).mono ?_
  rintro - final ⟨hreports, hmade, -⟩
  refine ⟨hreports, fun c hc => ?_⟩
  rw [hobject c (by simpa [hmade] using hc)]
  exact hne

/-- **The verdicts of `smc-shmatdt.cpp`.** The page that was mapped over the middle of the segment
can still be written and called once the segment is detached, and each of the four lines fails
exactly if the call did not execute what was in the page, which is none of the segment's. -/
theorem shmatdt_verdicts (platform : Platform) (hplaces : platform.Places) (s : State)
    (hcalls : s.calls = []) (hbuffer : s.buffer = []) (houtput : s.output = []) :
    ∃ final shmid s', main platform s = (some .unit, final) ∧ Reports ["mmap+shmdt"] 4 final
      ∧ shmget 3 s = (some shmid, s') ∧ ∀ c ∈ final.calls, c.object ≠ shmid := by
  obtain ⟨⟨⟩, final, hmain, hreports, hobject⟩ := returns_main hplaces hcalls hbuffer houtput
  exact ⟨final, s.objects, _, hmain, hreports, rfl, hobject⟩

theorem shmatdt_verdicts_coherent : ∃ final shmid s', main coherent blank = (some .unit, final)
    ∧ Reports ["mmap+shmdt"] 4 final
    ∧ shmget 3 blank = (some shmid, s') ∧ ∀ c ∈ final.calls, c.object ≠ shmid :=
  shmatdt_verdicts coherent coherent_places blank rfl rfl rfl

end FexTestBins.SmcShmatdt

namespace FexTestBins.SmcProcess

open Words SmcSignals Crashing SharedPages

variable {platform : Platform} {s s' : State} {tests : List Test} {flushed : List Line}
  {page fd : Nat} {prot : Prot} {stored : List (Fin 4)} {calls : List Call} {j : Fin 4}
  {α : Type} {post : α → State → Prop}

/-- A position in a file is nothing that the stores and calls depend on. -/
theorem Testing.at_position {object index : Nat} (position : Nat → Nat)
    (h : Testing platform tests flushed page object index prot stored calls j s) :
    Testing platform tests flushed page object index prot stored calls j
      { s with position := position } :=
  ⟨h.done.of_same rfl rfl rfl rfl, h.fresh, h.sound,
    ⟨h.mapped.view, h.mapped.object_lt, h.mapped.index_lt⟩, h.fn_eq⟩

/-- The function is written to the start of the file. -/
theorem returns_write_function (hposition : s.position fd = 0) :
    Returns (write fd [0xB8, 0xAA, 0xBB, 0xCC, 0xDD, 0xC3]) s fun _ s' =>
      ∃ position, s' = { s.written fd 0 with position := position } := by
  refine ⟨.unit, _, rfl, Function.update s.position fd 6, ?_⟩
  simp [hposition, State.written, State.put]

theorem returns_write_byte {k : Nat} (hposition : s.position fd = k) (value : Byte) :
    Returns (write fd [value]) s fun _ s' =>
      ∃ position, s' = { s.put fd 0 k value with position := position } := by
  refine ⟨.unit, _, rfl, Function.update s.position fd (k + 1), ?_⟩
  simp [hposition, State.put]

/-- The byte that tells the functions apart is written to the file. -/
theorem Testing.write_bind {rest : M α} {value : Byte} (j' : Fin 4)
    (h : Testing platform tests flushed page fd 0 prot stored calls j s)
    (hvalue : (version j).set 3 value = version j')
    (hrest : ∀ s', Testing platform tests flushed page fd 0 prot stored calls j' s' →
      Returns rest s' post) :
    Returns (do
      lseek fd 3
      write fd [value]
      rest) s post := by
  refine returns_update_bind ?_
  have hseek := h.at_position (Function.update s.position fd 3)
  refine (returns_write_byte (Function.update_self ..) value).bind ?_
  rintro - _ ⟨position, rfl⟩
  exact hrest _ ((hseek.put hvalue).at_position position)

/-- A test whose function is written to the file that is called. -/
theorem Done.written_calls (h : Done platform tests [] flushed s)
    (hfresh : ∀ test ∈ tests, ∀ c ∈ test.calls, c.page ≠ page) (hmapped : Mapped s page fd 0 rx)
    (hposition : s.position fd = 0) (name : String) :
    Returns (SmcFd.test platform page fd name) s fun _ s' => ∃ calls,
      Done platform (tests ++ [⟨name, [0, 1], calls⟩]) [] flushed s' := by
  refine (returns_write_function hposition).bind ?_
  rintro - _ ⟨position, rfl⟩
  have hstart := (Testing.start h hfresh hmapped).at_position position
  refine hstart.call_bind rfl fun c1 hfirst => ?_
  refine hfirst.write_bind 1 (by decide) fun s1 hpatched => ?_
  refine hpatched.call_bind rfl fun c2 hsecond => ?_
  refine (hsecond.finish (by decide) name).mono ?_
  rintro - last ⟨hdone, -⟩
  exact ⟨[c1, c2], hdone⟩

end FexTestBins.SmcProcess

namespace FexTestBins.SmcFd

open Words SmcSignals SmcProcess Crashing SharedPages

variable {platform : Platform} {s s' : State} {codeexec fd : Nat} {names : List String}
  {rest : M PUnit} {post : PUnit → State → Prop}

/-- A file is mapped to be called. -/
theorem returns_mmap (hplaces : platform.Places) (h : Ran platform 2 names s)
    (hcreated : Created s s' fd 1) (name : String)
    (hrest : ∀ s', Ran platform 2 (names ++ [name]) s' → Returns rest s' post) :
    Returns (do
      let code ← mmapFile platform rx fd
      test platform code fd name
      rest) s' post := by
  obtain ⟨tests, rfl, horder, hdone⟩ := h
  refine (returns_mmapFile hplaces hcreated.lt (by simp [hcreated.size]) rx).bind ?_
  rintro code s1 ⟨hgrows, hfree, hmapped, hsystem⟩
  have hdone' := hdone.grows hcreated.grows
  have hposition : s1.position fd = 0 := by
    rw [hsystem]
    exact hcreated.position
  refine ((hdone'.grows hgrows).written_calls (hdone'.fresh hfree) hmapped hposition name).bind ?_
  rintro - s2 ⟨calls, hdone''⟩
  exact hrest s2 (ran_snoc horder hdone'' rfl)

theorem mmapPrivate_eq (hsees : platform.privateSees = true) (prot : Prot) (fd : Nat) :
    mmapPrivate platform prot fd = mmapFile platform prot fd := by
  rw [mmapPrivate, if_pos hsees]

theorem returns_main (hplaces : platform.Places) (hsees : platform.privateSees = true)
    (h : Ran platform 2 [] s) :
    Returns (main platform) s fun _ final =>
      Reports ["mmap_shared+fd", "mmap_private+fd", "mmap_shared+fd2"] 2 final := by
  simp only [main, mmapPrivate_eq hsees]
  refine returns_file fun fd s1 hcreated => returns_mmap hplaces h hcreated _ fun s h => ?_
  refine returns_file fun fd s1 hcreated => returns_mmap hplaces h hcreated _ fun s h => ?_
  refine returns_file_twice fun fd s1 hcreated => returns_mmap hplaces h hcreated _ fun s h => ?_
  exact h.exit (by decide)

/-- **The verdicts of `smc-fd.cpp`.** What is written to a file is what is called through a mapping
of it which may not be written through, shared or, if the platform shows it there, private: each of
the six lines fails exactly if the call did not execute what was in the file. -/
theorem fd_verdicts (platform : Platform) (hplaces : platform.Places)
    (hsees : platform.privateSees = true) (s : State) (hcalls : s.calls = [])
    (hbuffer : s.buffer = []) (houtput : s.output = []) :
    ∃ final, main platform s = (some .unit, final)
      ∧ Reports ["mmap_shared+fd", "mmap_private+fd", "mmap_shared+fd2"] 2 final := by
  obtain ⟨⟨⟩, final, hmain, hreports⟩ :=
    returns_main hplaces hsees (Ran.start 2 hcalls hbuffer houtput)
  exact ⟨final, hmain, hreports⟩

theorem fd_verdicts_coherent : ∃ final, main coherent blank = (some .unit, final)
    ∧ Reports ["mmap_shared+fd", "mmap_private+fd", "mmap_shared+fd2"] 2 final :=
  fd_verdicts coherent coherent_places rfl blank rfl rfl rfl

end FexTestBins.SmcFd
