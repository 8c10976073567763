import FexTestBins.Proof.SmcShared

/-!
# Code patched by a child process

`smc-shared-2.cpp` also lets a child of `fork` patch the function, or call it. What a child leaves
behind are its stores to shared memory and the lines it flushes at its end, among which are those
that the parent had not flushed before the `fork`.
-/

namespace FexTestBins.SmcProcess

open Words SmcSignals Crashing SharedPages

variable {platform : Platform} {s s' : State} {post : PUnit → State → Prop} {child : M PUnit}
  {rest : PUnit → M PUnit} {tests : List Test} {flushed : List Line} {page object index : Nat}
  {prot : Prot} {stored : List (Fin 4)} {calls : List Call} {j j' : Fin 4}

theorem returns_forkWait_bind {post' : PUnit → State → Prop}
    (hchild : platform.forks s.forks = true → Returns child { s with forks := s.forks + 1 } post')
    (hparent : platform.forks s.forks = true → ∀ s', post' .unit s' →
      Returns (rest .unit) (s.afterChild s') post)
    (halone : platform.forks s.forks = false →
      Returns (rest .unit) { s with forks := s.forks + 1 } post) :
    Returns (forkWait platform child >>= rest) s post := by
  have hfork : Returns (forkWait platform child) s fun _ s' => Returns (rest .unit) s' post := by
    cases hforks : platform.forks s.forks with
    | true =>
        obtain ⟨⟨⟩, s', hrun, hs'⟩ := hchild hforks
        refine ⟨.unit, s.afterChild s', ?_, hparent hforks s' hs'⟩
        simp [forkWait, hforks, hrun, State.afterChild]
    | false =>
        refine ⟨.unit, { s with forks := s.forks + 1 }, ?_, halone hforks⟩
        simp [forkWait, hforks]
  exact hfork.bind fun _ _ h => h

/-- What a child flushes that does not print, if there is one. -/
def Platform.flushes (platform : Platform) (fork : Nat) (tests : List Test) : List Line :=
  if platform.forks fork then tests.flatMap Test.lines else []

theorem Done.writes (h : Done platform tests calls flushed s) {lines : List Line}
    (hpages : s'.views.pages = s.views.pages) (hcalls : s'.calls = s.calls)
    (hbuffer : s'.buffer = s.buffer)
    (houtput : s'.output = s.output ++ if platform.lineBuffered then [] else lines) :
    Done platform tests calls (flushed ++ lines) s' := by
  refine ⟨hcalls.trans h.calls, ?_, hbuffer.trans h.buffer, ?_, h.sound⟩
  · rw [houtput, h.output]
    split <;> simp
  · rw [hcalls, hpages]
    exact h.known

/-- The state of the parent after a child has stored a byte and flushed a copy of the buffer. The
child has made no call. -/
def State.patchedByChild (s : State) (object index : Nat) (value : Byte) : State :=
  { s.put object index 3 value with forks := s.forks + 1, output := s.output ++ s.buffer }

/-- A child patches the function, and flushes what the parent had printed. -/
theorem Testing.fork_bind {value : Byte} (j' : Fin 4)
    (h : Testing platform tests flushed page object index prot stored calls j s)
    (hwrite : prot.write = true) (hvalue : (version j).set 3 value = version j')
    (hrest : ∀ s', Testing platform tests (flushed ++ platform.flushes s.forks tests) page object
      index prot stored calls (if platform.forks s.forks then j' else j) s' →
      s'.forks = s.forks + 1 → s'.childCalls = s.childCalls → Returns (rest .unit) s' post) :
    Returns (forkWait platform (do
      store page 3 value
      exit) >>= rest) s post := by
  have hchild : Returns (do
      store page 3 value
      exit) { s with forks := s.forks + 1 } fun _ s' =>
        s.afterChild s' = s.patchedByChild object index value :=
    returns_store_bind ⟨h.mapped.view, h.mapped.object_lt, h.mapped.index_lt⟩ hwrite
      (returns_update (by simp [State.afterChild, State.patchedByChild, State.put]))
  refine returns_forkWait_bind (fun _ => hchild) ?_ ?_
  · intro hforks s' hs'
    rw [hs']
    refine hrest _ ⟨?_, h.fresh, h.sound, ⟨h.mapped.view, h.mapped.object_lt, h.mapped.index_lt⟩,
      ?_⟩ rfl rfl
    · refine h.done.writes rfl rfl rfl ?_
      change s.output ++ s.buffer = _
      rw [h.done.buffer, Platform.flushes, if_pos hforks]
    · rw [if_pos hforks]
      exact (h.put hvalue).fn_eq
  · intro hforks
    have hnot : ¬ platform.forks s.forks = true := by simp [hforks]
    refine hrest _ ⟨?_, h.fresh, h.sound, ⟨h.mapped.view, h.mapped.object_lt, h.mapped.index_lt⟩,
      ?_⟩ rfl rfl
    · refine h.done.writes rfl rfl rfl ?_
      rw [Platform.flushes, if_neg hnot]
      simp
    · rw [if_neg hnot]
      exact h.fn_eq

/-- A test with a patch by a child between its calls. -/
theorem Done.test2 (h : Done platform tests [] flushed s) (hgrows : Grows s s')
    (hmapped : Mapped s' page object index prot) (hwrite : prot.write = true)
    (hexec : prot.exec = true) (hfree : page ∉ s.views.pages) (name : String) :
    Returns (SmcShared2.test2 platform page page name) s' fun _ s'' => ∃ calls,
      Done platform (tests ++ [⟨name, [0, if platform.forks s'.forks then 1 else 0], calls⟩]) []
        (flushed ++ platform.flushes s'.forks tests) s'' ∧ s''.forks = s'.forks + 1
        ∧ s''.childCalls = s'.childCalls := by
  refine returns_written hmapped hwrite ?_
  have hstart := Testing.start (h.grows hgrows) (h.fresh hfree) hmapped
  refine hstart.call_bind hexec fun c1 hfirst => ?_
  refine hfirst.fork_bind 1 hwrite (by decide) fun s1 hpatched hforks hchildren => ?_
  refine hpatched.call_bind hexec fun c2 hsecond => ?_
  refine (hsecond.finish (by simp) name).mono ?_
  rintro - last ⟨hdone, halone⟩
  exact ⟨[c1, c2], hdone, halone.forks.trans hforks, halone.childCalls.trans hchildren⟩

theorem verdict_congr {p q : Prop} [Decidable p] [Decidable q] (h : p ↔ q) :
    Smc.verdict p = Smc.verdict q := by
  simp [Smc.verdict, h]

/-- A test with a name, and with a patch or without. Its first line passes, and its second fails if
there was no patch, or if the call did not execute what was in the page. -/
structure Printed (test : Test) (p : String × Bool) : Prop where
  name_eq : test.name = p.1
  verdicts : ∃ c1 c2, test.calls = [c1, c2] ∧ test.lines.map Line.verdict
    = [.pass, Smc.verdict (p.2 = false ∨ c2.executed ≠ c2.current)]

theorem Test.Sound.printed {name : String} (patched : Bool)
    (h : Test.Sound ⟨name, [0, if patched then 1 else 0], calls⟩) :
    Printed ⟨name, [0, if patched then 1 else 0], calls⟩ (name, patched) := by
  obtain ⟨-, page, object, hsound⟩ := h
  have hlength := congrArg List.length hsound.current
  rw [List.length_map, List.length_map] at hlength
  obtain ⟨c1, c2, rfl⟩ := List.length_eq_two.mp hlength
  obtain ⟨hcurrent1, hcurrent2⟩ :
      c1.current = version 0 ∧ c2.current = version (if patched then 1 else 0) := by
    simpa using hsound.current
  have hexecuted1 : c1.executed = version 0 := (hsound.first c1 rfl).trans hcurrent1
  have hsecond : immediate c2.executed ≠ expected 1
      ↔ patched = false ∨ c2.executed ≠ c2.current := by
    have hknown := hsound.exists_version (c := c2) (by simp)
    refine (Smc.verdict_eq_fail_iff _).symm.trans ((judges_line hknown name 1).2.trans ?_)
    cases patched with
    | true => simp [hcurrent2]
    | false =>
        refine iff_of_true ?_ (.inl rfl)
        obtain ⟨c, hc, heq⟩ := hsound.executed c2 (by simp)
        have hzero : c.current = version 0 := by
          simp only [List.mem_cons, List.not_mem_nil, or_false] at hc
          rcases hc with rfl | rfl
          · exact hcurrent1
          · exact hcurrent2
        rw [heq, hzero]
        decide
  refine ⟨rfl, c1, c2, rfl, ?_⟩
  change [Smc.verdict (immediate c1.executed ≠ expected 0),
    Smc.verdict (immediate c2.executed ≠ expected 1)] = _
  rw [verdict_congr hsecond, hexecuted1]
  rfl

end FexTestBins.SmcProcess

namespace FexTestBins.SmcShared2

open Words SmcSignals SmcProcess Crashing SharedPages

variable {platform : Platform} {s s' : State} {code codeexec n : Nat} {flushed : List Line}
  {names : List (String × Bool)} {rest : M PUnit} {post : PUnit → State → Prop}

/-- Tests were made, with these names, and with a patch or without, and none by a child. -/
structure Ran (platform : Platform) (n : Nat) (names : List (String × Bool)) (flushed : List Line)
    (tests : List Test) (s : State) : Prop where
  done : Done platform tests [] flushed s
  printed : List.Forall₂ Printed tests names
  forks : s.forks = n
  childCalls : s.childCalls = []

variable {tests : List Test}

theorem Ran.snoc {name : String} (patched : Bool) {calls : List SmcProcess.Call} {n' : Nat}
    {flushed' : List Line} (h : Ran platform n names flushed tests s)
    (hdone : Done platform (tests ++ [⟨name, [0, if patched then 1 else 0], calls⟩]) [] flushed' s')
    (hforks : s'.forks = n') (hchildren : s'.childCalls = s.childCalls) :
    Ran platform n' (names ++ [(name, patched)]) flushed'
      (tests ++ [⟨name, [0, if patched then 1 else 0], calls⟩]) s' where
  done := hdone
  printed := List.rel_append h.printed (.cons ((hdone.sound _ (by simp)).printed patched) .nil)
  forks := hforks
  childCalls := hchildren.trans h.childCalls

theorem returns_test (h : Ran platform n names flushed tests s) (name : String)
    (hrest : ∀ tests s', Ran platform n (names ++ [(name, true)]) flushed tests s' →
      Returns rest s' post)
    (htwice : Twice s s' code codeexec) :
    Returns (do
      test platform code codeexec name
      rest) s' post := by
  refine (h.done.testCalls htwice name).bind ?_
  rintro - s'' ⟨calls, hdone, halone⟩
  have halone := htwice.grows.alone.trans halone
  exact hrest _ s'' (h.snoc true hdone (halone.forks.trans h.forks) halone.childCalls)

theorem returns_test2 {object index : Nat} {prot : Prot} (h : Ran platform n names flushed tests s)
    (hgrows : Grows s s') (hmapped : Mapped s' code object index prot) (hwrite : prot.write = true)
    (hexec : prot.exec = true) (hfree : code ∉ s.views.pages) (name : String)
    (hrest : ∀ test s', Ran platform (n + 1) (names ++ [(name, platform.forks n)])
      (flushed ++ platform.flushes n tests) (tests ++ [test]) s' → Returns rest s' post) :
    Returns (do
      test2 platform code code name
      rest) s' post := by
  have hforks : s'.forks = n := hgrows.alone.forks.trans h.forks
  refine (h.done.test2 hgrows hmapped hwrite hexec hfree name).bind ?_
  rintro - s'' ⟨calls, hdone, hforks', hchildren⟩
  rw [hforks] at hdone hforks'
  exact hrest _ s'' (h.snoc _ hdone hforks' (hchildren.trans hgrows.alone.childCalls))

/-- The tests that the last child makes. -/
def childTests (platform : Platform) (n : Nat) : List (String × Bool) :=
  if platform.forks n then [("fork+shmat (same shmid)", true)] else []

/-- The child makes a test of its own, and flushes its lines behind those of its parent. -/
theorem returns_fork_test {shm : Nat} (hplaces : platform.Places)
    (h : Ran platform n names flushed tests s) (hgrows : Grows s s')
    (hmapped : Mapped s' code shm 0 rw) :
    Returns (do
      forkWait platform do
        let code4 ← shmat platform shm true
        test platform code code4 "fork+shmat (same shmid)"
        exit
      exit) s' fun _ final => ∃ children : List Test,
        List.Forall₂ Printed children (childTests platform n)
          ∧ final.calls = tests.flatMap Test.calls
          ∧ final.childCalls = children.flatMap Test.calls
          ∧ final.output = if platform.lineBuffered then (tests ++ children).flatMap Test.lines
            else flushed ++ platform.flushes n (tests ++ children) ++ tests.flatMap Test.lines := by
  have hforks : s'.forks = n := hgrows.alone.forks.trans h.forks
  have hdone := h.done.grows hgrows
  have hnone : s'.childCalls = [] := hgrows.alone.childCalls.trans h.childCalls
  have hcalls : s'.calls = tests.flatMap Test.calls := by simpa using hdone.calls
  have hchild : Returns (do
      let code4 ← shmat platform shm true
      test platform code code4 "fork+shmat (same shmid)"
      exit) { s' with forks := s'.forks + 1 } fun _ s'' => ∃ last : Test,
        Printed last ("fork+shmat (same shmid)", true)
          ∧ s''.calls = (tests ++ [last]).flatMap Test.calls ∧ s''.childCalls = []
          ∧ s''.output = (if platform.lineBuffered then [] else flushed)
            ++ (tests ++ [last]).flatMap Test.lines := by
    have hdone' : Done platform tests [] flushed { s' with forks := s'.forks + 1 } :=
      hdone.of_same rfl rfl rfl rfl
    have hmapped' : Mapped { s' with forks := s'.forks + 1 } code shm 0 rw :=
      ⟨hmapped.view, hmapped.object_lt, hmapped.index_lt⟩
    have hpos : 0 < s'.sizes shm := hmapped.index_lt
    refine (returns_shmat hplaces hmapped'.object_lt true).bind ?_
    rintro code4 s2 ⟨hgrows', hfree, hexec⟩
    have htwice := twice_of_mapped (Grows.refl _) hmapped' rfl hgrows' (hexec 0 hpos) rfl
      (hfree 0 hpos)
    refine (hdone'.testCalls htwice _).bind ?_
    rintro - s3 ⟨calls, hdone'', halone⟩
    refine hdone''.exit.mono ?_
    rintro - s4 ⟨hmade, houtput, halone'⟩
    have hchildren := (hgrows'.alone.trans (halone.trans halone')).childCalls
    exact ⟨_, (hdone''.sound _ (by simp)).printed true, hmade, hchildren.trans hnone, houtput⟩
  refine returns_forkWait_bind (fun _ => hchild) ?_ ?_
  · rintro hfork s'' ⟨last, hlast, hmade, hnone', houtput⟩
    rw [hforks] at hfork
    refine returns_update ⟨[last], ?_, hcalls, ?_, ?_⟩
    · rw [childTests, if_pos hfork]
      exact .cons hlast .nil
    · change s''.childCalls ++ s''.calls.drop s'.calls.length = _
      rw [hmade, hnone', hcalls, List.flatMap_append, List.drop_left, List.nil_append]
    · change s''.output ++ s'.buffer = _
      rw [houtput, hdone.buffer, Platform.flushes, if_pos hfork]
      split <;> simp
  · intro hfork
    rw [hforks] at hfork
    refine returns_update ⟨[], by simp [childTests, hfork], hcalls, hnone, ?_⟩
    have hnone : platform.flushes n (tests ++ []) = [] := if_neg (by simp [hfork])
    change s'.output ++ s'.buffer = _
    rw [hdone.output, hdone.buffer, hnone]
    split <;> simp

/-- The tests that the program makes itself. -/
def parentTests (platform : Platform) (n : Nat) : List (String × Bool) :=
  [("mmap+mremap", true), ("shmat", true), ("shmat+mremap", true), ("mmap+mmap", true),
    ("mmap+fork", platform.forks n), ("shmat+fork", platform.forks (n + 1))]

/-- What is written at the end, with the calls that it is about. Where `stdout` is not
line-buffered, each child flushes what was printed before its `fork` once more. -/
structure Written (platform : Platform) (n : Nat) (tests children : List Test) (final : State) :
    Prop where
  tests_printed : List.Forall₂ Printed tests (parentTests platform n)
  children_printed : List.Forall₂ Printed children (childTests platform (n + 2))
  calls_eq : final.calls = tests.flatMap Test.calls
  childCalls_eq : final.childCalls = children.flatMap Test.calls
  output_eq : final.output = if platform.lineBuffered then (tests ++ children).flatMap Test.lines
    else platform.flushes n (tests.take 4) ++ platform.flushes (n + 1) (tests.take 5)
      ++ platform.flushes (n + 2) (tests ++ children) ++ tests.flatMap Test.lines

theorem returns_main (hplaces : platform.Places) (h : Ran platform n [] [] [] s) :
    Returns (main platform) s fun _ final => ∃ tests children,
      Written platform n tests children final := by
  unfold main
  refine returns_mmap_mremap (i := 0) hplaces 1 Nat.one_pos fun _ _ _ => returns_test h _ ?_
  intro tests1 s h
  refine returns_shmat_shmat hplaces fun _ _ _ => returns_test h _ ?_
  intro tests2 s h
  refine returns_shmat_mremap (i := 0) hplaces 1 Nat.one_pos fun _ _ _ => returns_test h _ ?_
  intro tests3 s h
  refine returns_file fun fd s1 hcreated => ?_
  refine returns_mmap_mmap hplaces hcreated fun _ _ _ => returns_test h _ ?_
  intro tests4 s h
  refine (returns_mmapAnon hplaces s 1 rwx).bind ?_
  rintro code s1 ⟨hgrows, hfree, object, hcode⟩
  refine returns_test2 h hgrows (hcode 0 Nat.one_pos) rfl rfl (hfree 0 Nat.one_pos) _ ?_
  intro test5 s h
  refine (returns_newObject s 1).bind ?_
  rintro shm s1 ⟨hcreated, -⟩
  refine (returns_shmat hplaces hcreated.lt true).bind ?_
  rintro code s2 ⟨hgrows, hfree, hcode⟩
  have hpos : 0 < s1.sizes shm := by simp [hcreated.size]
  have hfree : code ∉ s.views.pages := fun hmem => hfree 0 hpos (hcreated.grows.pages hmem)
  refine returns_test2 h (hcreated.grows.trans hgrows) (hcode 0 hpos) rfl rfl hfree _ ?_
  intro test6 s h
  refine (returns_newObject s 1).bind ?_
  rintro shm s1 ⟨hcreated, -⟩
  refine (returns_shmat hplaces hcreated.lt false).bind ?_
  rintro code3 s2 ⟨hgrows, -, hcode⟩
  have hpos : 0 < s1.sizes shm := by simp [hcreated.size]
  refine (returns_fork_test hplaces h (hcreated.grows.trans hgrows) (hcode 0 hpos)).mono ?_
  rintro - final ⟨children, hchildren, hcalls, hchildCalls, houtput⟩
  have hlength : tests4.length = 4 := by
    simpa using h.printed.length_eq
  refine ⟨_, children, h.printed, hchildren, hcalls, hchildCalls, ?_⟩
  have hfour : (tests4 ++ [test5] ++ [test6]).take 4 = tests4 := by
    rw [List.append_assoc, List.take_left' hlength]
  have hfive : (tests4 ++ [test5] ++ [test6]).take 5 = tests4 ++ [test5] :=
    List.take_left' (by simp [hlength])
  rw [houtput, hfour, hfive, List.nil_append]

/-- **What `smc-shared-2.cpp` prints.** Wherever the kernel places the mappings, whichever of the
three `fork` calls succeed and however `stdout` is buffered: each of the tests prints a line for its
first call, which passes, and one for its second, which fails if the child was to patch the function
and there is none, or if the call did not execute what was in the page. The calls are those of the
program and, in the test that the last child makes, those of that child. -/
theorem shared2_prints (platform : Platform) (hplaces : platform.Places) (s : State)
    (hcalls : s.calls = []) (hchildren : s.childCalls = []) (hbuffer : s.buffer = [])
    (houtput : s.output = []) :
    ∃ final tests children, main platform s = (some .unit, final)
      ∧ Written platform s.forks tests children final := by
  have hran : Ran platform s.forks [] [] [] s :=
    ⟨Done.start hcalls hbuffer houtput, .nil, rfl, hchildren⟩
  obtain ⟨⟨⟩, final, hmain, tests, children, hwritten⟩ := returns_main hplaces hran
  exact ⟨final, tests, children, hmain, hwritten⟩

theorem shared2_prints_coherent : ∃ final tests children,
    main coherent blank = (some .unit, final) ∧ Written coherent 0 tests children final :=
  shared2_prints coherent coherent_places blank rfl rfl rfl rfl

theorem length_lines (h : List.Forall₂ Printed tests names) :
    (tests.flatMap Test.lines).length = 2 * tests.length := by
  induction h with
  | nil => rfl
  | cons hprinted _ ih =>
      obtain ⟨-, c1, c2, -, hverdicts⟩ := hprinted
      have htwo := congrArg List.length hverdicts
      rw [List.length_map, List.length_cons, List.length_singleton] at htwo
      rw [List.flatMap_cons, List.length_append, ih, htwo, List.length_cons]
      omega

/-- Where `stdout` is not line-buffered, up to 44 lines are written instead of 14. -/
theorem Written.length_output {children : List Test} {final : State}
    (h : Written platform n tests children final) :
    final.output.length = if platform.lineBuffered then
        12 + (if platform.forks (n + 2) then 2 else 0)
      else (if platform.forks n then 8 else 0) + (if platform.forks (n + 1) then 10 else 0)
        + (if platform.forks (n + 2) then 14 else 0) + 12 := by
  have hsix : tests.length = 6 := h.tests_printed.length_eq
  have hchildren : children.length = if platform.forks (n + 2) then 1 else 0 := by
    rw [h.children_printed.length_eq, childTests]
    split <;> rfl
  have hflushes : ∀ k l l', List.Forall₂ Printed l l' →
      (platform.flushes k l).length = if platform.forks k then 2 * l.length else 0 := by
    intro k l l' hl
    unfold Platform.flushes
    split
    · exact length_lines hl
    · rfl
  have hall := List.rel_append h.tests_printed h.children_printed
  have htake := fun k => List.forall₂_take k h.tests_printed
  rw [h.output_eq]
  split
  · rw [length_lines hall, List.length_append, hsix, hchildren]
    split <;> rfl
  · simp only [List.length_append, hflushes _ _ _ (htake _), hflushes _ _ _ hall,
      length_lines h.tests_printed, List.length_take, hsix, hchildren]
    split <;> split <;> split <;> rfl

end FexTestBins.SmcShared2
