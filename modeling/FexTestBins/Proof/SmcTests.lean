import FexTestBins.Proof.SmcProcess
import Mathlib.Algebra.Order.BigOperators.Group.List

/-!
# Tests of patched code

A test stores a function, calls it, and calls it again after each patch. At every call there is one
of four functions in the page, each with a number of its own, so that the lines printed show which
of them was executed. Tests of an address that was not called before do not disturb each other.
-/

namespace FexTestBins.SmcProcess

open Words SmcSignals Crashing SharedPages

variable {platform : Platform} {s s' : State} {page object index : Nat} {prot : Prot}

/-- The calls of a test, all made in one page, and the functions in the page when they were made.
Each executed what was in the page then, or at an earlier call, which the first call has none. -/
structure Sound (page object : Nat) (stored : List (Fin 4)) (calls : List Call) : Prop where
  place : ∀ c ∈ calls, c.page = page ∧ c.object = object
  current : calls.map Call.current = stored.map version
  executed : ∀ c ∈ calls, ∃ c' ∈ calls, c.executed = c'.current
  first : ∀ c ∈ calls.head?, c.executed = c.current

variable {stored : List (Fin 4)} {calls : List Call} {j j' : Fin 4}

theorem Sound.nil (page object : Nat) : Sound page object [] [] :=
  ⟨by simp, rfl, by simp, by simp⟩

theorem Sound.snoc (h : Sound page object stored calls) {executed : List Byte}
    (hexecuted : executed = version j ∨ ∃ c ∈ calls, executed = c.current) :
    Sound page object (stored ++ [j]) (calls ++ [⟨page, object, version j, executed⟩]) := by
  refine ⟨?_, by simp [h.current], ?_, ?_⟩
  · intro c hc
    rcases List.mem_append.mp hc with hc | hc
    · exact h.place c hc
    · obtain rfl := List.mem_singleton.mp hc
      exact ⟨rfl, rfl⟩
  · intro c hc
    rcases List.mem_append.mp hc with hc | hc
    · obtain ⟨c', hmem, heq⟩ := h.executed c hc
      exact ⟨c', List.mem_append_left _ hmem, heq⟩
    · obtain rfl := List.mem_singleton.mp hc
      rcases hexecuted with heq | ⟨c', hmem, heq⟩
      · exact ⟨⟨page, object, version j, executed⟩, List.mem_append_right _ hc, heq⟩
      · exact ⟨c', List.mem_append_left _ hmem, heq⟩
  · intro c hc
    cases calls with
    | nil =>
        obtain rfl : _ = c := by simpa using hc
        simpa using hexecuted
    | cons first rest => exact h.first c (by simpa using hc)

/-- A test with its calls and the functions in the page when these were made. -/
structure Test where
  name : String
  stored : List (Fin 4)
  calls : List Call

def Test.Sound (test : Test) : Prop :=
  test.stored.length ≤ 4 ∧ ∃ page object, SmcProcess.Sound page object test.stored test.calls

/-- The line about the call that should have executed a function. -/
def line (name : String) (c : Call) (j : Fin 4) : Line :=
  ⟨name, j + 1, immediate c.executed, Smc.verdict (immediate c.executed ≠ expected j)⟩

def Test.lines (test : Test) : List Line :=
  (test.calls.zip (List.finRange 4)).map fun (c, j) => line test.name c j

/-- The tests made so far, the calls since, and what processes that have ended wrote in addition to
the lines of the tests. All calls were at pages that are mapped, so that a new mapping begins
without a call. -/
structure Done (platform : Platform) (tests : List Test) (calls : List Call) (flushed : List Line)
    (s : State) : Prop where
  calls : s.calls = tests.flatMap Test.calls ++ calls
  output : s.output = if platform.lineBuffered then tests.flatMap Test.lines else flushed
  buffer : s.buffer = if platform.lineBuffered then [] else tests.flatMap Test.lines
  known : ∀ c ∈ s.calls, c.page ∈ s.views.pages
  sound : ∀ test ∈ tests, test.Sound

variable {tests : List Test} {flushed : List Line}

theorem Done.start (hcalls : s.calls = []) (hbuffer : s.buffer = []) (houtput : s.output = []) :
    Done platform [] [] [] s :=
  ⟨by simpa using hcalls, by simpa using houtput, by simpa using hbuffer, by simp [hcalls],
    by simp⟩

theorem Done.grows (h : Done platform tests calls flushed s) (hgrows : Grows s s') :
    Done platform tests calls flushed s' := by
  refine ⟨hgrows.calls.trans h.calls, hgrows.output.trans h.output, hgrows.buffer.trans h.buffer,
    ?_, h.sound⟩
  intro c hc
  exact hgrows.pages (h.known c (hgrows.calls ▸ hc))

theorem Done.of_same (h : Done platform tests calls flushed s)
    (hpages : s'.views.pages = s.views.pages)
    (hcalls : s'.calls = s.calls) (hbuffer : s'.buffer = s.buffer)
    (houtput : s'.output = s.output) :
    Done platform tests calls flushed s' :=
  ⟨hcalls.trans h.calls, houtput.trans h.output, hbuffer.trans h.buffer,
    by rw [hcalls, hpages]; exact h.known, h.sound⟩

theorem Done.called (h : Done platform tests calls flushed s) {c : Call}
    (hpage : c.page ∈ s.views.pages) :
    Done platform tests (calls ++ [c]) flushed (s.called c) := by
  refine ⟨?_, h.output, h.buffer, ?_, h.sound⟩
  · rw [← List.append_assoc, ← h.calls]
    rfl
  · intro c' hc'
    rcases List.mem_append.mp hc' with hc' | hc'
    · exact h.known c' hc'
    · rwa [List.mem_singleton.mp hc']

theorem Done.printed {test : Test} (h : Done platform tests test.calls flushed s)
    (hsound : test.Sound) :
    Done platform (tests ++ [test]) [] flushed (s.printed platform test.lines) := by
  refine ⟨?_, ?_, ?_, ?_, ?_⟩
  · rw [State.printed_calls, h.calls, List.flatMap_append]
    simp
  · rw [State.printed]
    by_cases hline : platform.lineBuffered = true <;> simp [hline, h.output]
  · rw [State.printed]
    by_cases hline : platform.lineBuffered = true <;> simp [hline, h.buffer]
  · rw [State.printed_calls, State.printed_views]
    exact h.known
  · intro other hother
    rcases List.mem_append.mp hother with hother | hother
    · exact h.sound other hother
    · rwa [List.mem_singleton.mp hother]

/-- During a test, with function `j` in the page that is called. -/
structure Testing (platform : Platform) (tests : List Test) (flushed : List Line)
    (page object index : Nat) (prot : Prot) (stored : List (Fin 4)) (calls : List Call) (j : Fin 4)
    (s : State) : Prop where
  done : Done platform tests calls flushed s
  fresh : ∀ test ∈ tests, ∀ c ∈ test.calls, c.page ≠ page
  sound : Sound page object stored calls
  mapped : Mapped s page object index prot
  fn_eq : fn (s.contents object index) = version j

/-- A page that was not mapped at the end of the tests before was not called in them. -/
theorem Done.fresh (h : Done platform tests [] flushed s) (hfree : page ∉ s.views.pages) :
    ∀ test ∈ tests, ∀ c ∈ test.calls, c.page ≠ page := by
  rintro test htest c hc rfl
  refine hfree (h.known c ?_)
  rw [h.calls, List.append_nil]
  exact List.mem_flatMap.mpr ⟨test, htest, hc⟩

theorem Testing.start (h : Done platform tests [] flushed s)
    (hfresh : ∀ test ∈ tests, ∀ c ∈ test.calls, c.page ≠ page)
    (hmapped : Mapped s page object index prot) :
    Testing platform tests flushed page object index prot [] [] 0 (s.written object index) where
  done := h.of_same rfl rfl rfl rfl
  fresh := hfresh
  sound := Sound.nil page object
  mapped := hmapped.written object index
  fn_eq := fn_written s object index

theorem Testing.put (h : Testing platform tests flushed page object index prot stored calls j s)
    {value : Byte} (hvalue : (version j).set 3 value = version j') :
    Testing platform tests flushed page object index prot stored calls j'
      (s.put object index 3 value) where
  done := h.done.of_same rfl rfl rfl rfl
  fresh := h.fresh
  sound := h.sound
  mapped := h.mapped.put
  fn_eq := fn_patched h.fn_eq hvalue

section

variable {α : Type} {post : α → State → Prop}

theorem Testing.call_bind {rest : BitVec 32 → M α}
    (h : Testing platform tests flushed page object index prot stored calls j s)
    (hexec : prot.exec = true)
    (hrest : ∀ c, Testing platform tests flushed page object index prot (stored ++ [j])
      (calls ++ [c]) j (s.called c) → Returns (rest (immediate c.executed)) (s.called c) post) :
    Returns (call platform page >>= rest) s post := by
  refine returns_call_bind h.mapped hexec h.fn_eq ?_
  intro executed hexecuted
  refine hrest ⟨page, object, version j, executed⟩ ⟨?_, h.fresh, ?_, h.mapped.called, h.fn_eq⟩
  · exact h.done.called (Views.mem_pages_of_view? h.mapped.view)
  · refine h.sound.snoc (hexecuted.imp_right ?_)
    rintro ⟨c, hc, hpage, heq⟩
    rw [h.done.calls] at hc
    rcases List.mem_append.mp hc with hc | hc
    · obtain ⟨test, htest, hc⟩ := List.mem_flatMap.mp hc
      exact absurd hpage (h.fresh test htest c hc)
    · exact ⟨c, hc, heq⟩

/-- The byte that tells the functions apart is stored, through the page itself or through another
view of it. -/
theorem Testing.store_bind {rest : PUnit → M α} {code : Nat} {prot' : Prot} {value : Byte}
    (j' : Fin 4) (h : Testing platform tests flushed page object index prot stored calls j s)
    (hcode : Mapped s code object index prot') (hwrite : prot'.write = true)
    (hvalue : (version j).set 3 value = version j')
    (hrest : Testing platform tests flushed page object index prot stored calls j'
      (s.put object index 3 value) → Returns (rest .unit) (s.put object index 3 value) post) :
    Returns (store code 3 value >>= rest) s post :=
  returns_store_bind hcode hwrite (hrest (h.put hvalue))

/-- The protection of the page changes, and its content stays. -/
theorem Testing.mprotect_bind {rest : PUnit → M α} (prot' : Prot)
    (h : Testing platform tests flushed page object index prot stored calls j s)
    (hrest : ∀ s', Testing platform tests flushed page object index prot' stored calls j s' →
      Returns (rest .unit) s' post) :
    Returns (mprotect page prot' >>= rest) s post := by
  refine returns_update_bind (hrest _ ⟨?_, h.fresh, h.sound, ⟨?_, h.mapped.object_lt,
    h.mapped.index_lt⟩, h.fn_eq⟩)
  · exact h.done.of_same (Views.pages_protect prot') rfl rfl rfl
  · change (s.views.protect page prot').view? page = _
    rw [Views.view?_protect, h.mapped.view, Option.map_some, if_pos rfl]

end

/-- The lines of a test end it. -/
theorem Testing.printed
    (h : Testing platform tests flushed page object index prot stored calls j s)
    (hstored : stored.length ≤ 4) (name : String) :
    Done platform (tests ++ [⟨name, stored, calls⟩]) [] flushed
      (s.printed platform (Test.lines ⟨name, stored, calls⟩)) := by
  have hdone : Done platform tests (Test.calls ⟨name, stored, calls⟩) flushed s := h.done
  exact hdone.printed ⟨hstored, page, object, h.sound⟩

/-- What two calls have returned. -/
theorem Testing.finish {c1 c2 : Call}
    (h : Testing platform tests flushed page object index prot stored [c1, c2] j s)
    (hstored : stored.length ≤ 4) (name : String) :
    Returns (do
      printf platform ⟨name, 1, immediate c1.executed,
        Smc.verdict (immediate c1.executed ≠ 0xDDCCBBAA)⟩
      printf platform ⟨name, 2, immediate c2.executed,
        Smc.verdict (immediate c2.executed ≠ 0xDDFEBBAA)⟩) s fun _ s' =>
        Done platform (tests ++ [⟨name, stored, [c1, c2]⟩]) [] flushed s' ∧ Alone s s' := by
  refine returns_printf_bind ((returns_printf _ _).mono ?_)
  rintro - _ rfl
  rw [State.printed_printed]
  exact ⟨h.printed hstored name, State.alone_printed s _⟩

/-- The end of a process, which flushes what it has printed. -/
theorem Done.exit (h : Done platform tests [] flushed s) :
    Returns exit s fun _ s' => s'.calls = tests.flatMap Test.calls
      ∧ s'.output = (if platform.lineBuffered then [] else flushed) ++ tests.flatMap Test.lines
      ∧ Alone s s' := by
  refine returns_update ⟨by simpa using h.calls, ?_, rfl, rfl⟩
  change s.output ++ s.buffer = _
  rw [h.output, h.buffer]
  split <;> simp

/-! ### Verdicts -/

/-- A line shows what a call returned, and fails if that did not execute a function. -/
def Judges (c : Call) (function : List Byte) (line : Line) : Prop :=
  line.value = immediate c.executed ∧ (line.verdict = .fail ↔ c.executed ≠ function)

theorem judges_line {c : Call} (hknown : ∃ j', c.executed = version j') (name : String)
    (j : Fin 4) : Judges c (version j) (line name c j) := by
  obtain ⟨j', hexecuted⟩ := hknown
  refine ⟨rfl, ?_⟩
  change Smc.verdict (immediate c.executed ≠ expected j) = .fail ↔ _
  rw [Smc.verdict_eq_fail_iff, hexecuted, ne_eq, ne_eq, immediate_version_eq]

theorem Sound.exists_version (h : Sound page object stored calls) {c : Call} (hc : c ∈ calls) :
    ∃ j, c.executed = version j := by
  obtain ⟨c', hc', heq⟩ := h.executed c hc
  have hmem := List.mem_map_of_mem (f := Call.current) hc'
  rw [h.current] at hmem
  obtain ⟨j, -, hj⟩ := List.mem_map.mp hmem
  exact ⟨j, heq.trans hj.symm⟩

/-- A test with functions that differ from call to call, in their order. -/
def Test.InOrder (test : Test) (n : Nat) : Prop := test.stored = (List.finRange 4).take n

variable {test : Test} {n : Nat}

theorem forall₂_zip {R : Call → Line → Prop} {f : Call × Fin 4 → Line}
    {js : List (Fin 4)} (hcurrent : calls.map Call.current = (js.take n).map version)
    (hR : ∀ c ∈ calls, ∀ j, c.current = version j → R c (f (c, j))) :
    List.Forall₂ R calls ((calls.zip js).map f) := by
  induction calls generalizing js n with
  | nil => exact .nil
  | cons c calls ih =>
      cases n with
      | zero => simp at hcurrent
      | succ n =>
          cases js with
          | nil => simp at hcurrent
          | cons j js =>
              simp only [List.map_cons, List.take_succ_cons, List.cons.injEq] at hcurrent
              refine .cons (hR c List.mem_cons_self j hcurrent.1) (ih hcurrent.2 ?_)
              exact fun c' hc' => hR c' (List.mem_cons_of_mem c hc')

/-- The verdicts then tell whether what is in the page was executed. -/
theorem Test.Sound.judges (h : test.Sound) (horder : test.InOrder n) :
    List.Forall₂ (fun c line => Judges c c.current line) test.calls test.lines := by
  obtain ⟨-, page, object, hsound⟩ := h
  have hcurrent := hsound.current
  rw [horder] at hcurrent
  refine forall₂_zip hcurrent ?_
  intro c hc j hj
  rw [hj]
  exact judges_line (hsound.exists_version hc) test.name j

theorem Test.Sound.first_passes (h : test.Sound) (horder : test.InOrder n) :
    ∀ line ∈ test.lines, line.number = 1 → line.verdict = .pass := by
  obtain ⟨-, page, object, hsound⟩ := h
  have hcurrent := hsound.current
  rw [horder] at hcurrent
  have hfour : List.finRange 4 = 0 :: [1, 2, 3] := by decide
  rw [Test.lines, hfour]
  rw [hfour] at hcurrent
  cases hcalls : test.calls with
  | nil => simp
  | cons c rest =>
      rw [hcalls] at hcurrent
      have hexecuted : c.executed = version 0 := by
        have hfirst := hsound.first c (by simp [hcalls])
        cases n with
        | zero => simp at hcurrent
        | succ n =>
            rw [List.take_succ_cons, List.map_cons, List.map_cons] at hcurrent
            exact hfirst.trans (List.cons.inj hcurrent).1
      intro other hother hnumber
      rcases List.mem_cons.mp hother with rfl | hother
      · change Smc.verdict (immediate c.executed ≠ expected 0) = .pass
        rw [Smc.verdict_eq_pass_iff, not_not, hexecuted]
        decide
      · obtain ⟨⟨c', k⟩, hmem, rfl⟩ := List.mem_map.mp hother
        have hne : ∀ k ∈ ([1, 2, 3] : List (Fin 4)), k.val + 1 ≠ 1 := by decide
        exact absurd hnumber (hne k (List.of_mem_zip hmem).2)

theorem forall₂_flatMap {R : Call → Line → Prop}
    (h : ∀ test ∈ tests, List.Forall₂ R test.calls test.lines) :
    List.Forall₂ R (tests.flatMap Test.calls) (tests.flatMap Test.lines) := by
  induction tests with
  | nil => exact .nil
  | cons test tests ih =>
      rw [List.flatMap_cons, List.flatMap_cons]
      exact List.rel_append (h test List.mem_cons_self)
        (ih fun other hmem => h other (List.mem_cons_of_mem _ hmem))

/-- The lines that tests of `n` calls have. -/
def numbered (names : List String) (n : Nat) : List (String × Nat) :=
  names.flatMap fun name => (List.range n).map fun i => (name, i + 1)

theorem Test.numbered_lines (hlength : test.calls.length ≤ 4) :
    test.lines.map (fun line => (line.name, line.number))
      = (List.range test.calls.length).map fun i => (test.name, i + 1) := by
  obtain ⟨name, stored, calls⟩ := test
  match calls, hlength with
  | [], _ => rfl
  | [_], _ => rfl
  | [_, _], _ => rfl
  | [_, _, _], _ => rfl
  | [_, _, _, _], _ => rfl

theorem Test.Sound.length_calls (h : test.Sound) (horder : test.InOrder n) (hn : n ≤ 4) :
    test.calls.length = n := by
  obtain ⟨-, page, object, hsound⟩ := h
  have hlength := congrArg List.length hsound.current
  simpa [show test.stored = _ from horder, hn] using hlength

/-- What a program has printed: a line for each call, which fails exactly if the call did not
execute what was in the page. The first line of a test passes. -/
structure Reports (names : List String) (n : Nat) (final : State) : Prop where
  names : final.output.map (fun line => (line.name, line.number)) = numbered names n
  judged : List.Forall₂ (fun c line => Judges c c.current line) final.calls final.output
  first : ∀ line ∈ final.output, line.number = 1 → line.verdict = .pass

theorem Reports.of_tests {final : State} {names : List String}
    (hnames : tests.map Test.name = names)
    (htests : ∀ test ∈ tests, test.Sound ∧ test.InOrder n) (hn : n ≤ 4)
    (hcalls : final.calls = tests.flatMap Test.calls)
    (houtput : final.output = tests.flatMap Test.lines) : Reports names n final where
  names := by
    subst hnames
    rw [houtput, numbered, List.map_flatMap, List.flatMap_map]
    refine List.flatMap_congr fun test hmem => ?_
    have hlength := (htests test hmem).1.length_calls (htests test hmem).2 hn
    rw [Test.numbered_lines (hlength.trans_le hn), hlength]
  judged := by
    rw [hcalls, houtput]
    exact forall₂_flatMap fun test hmem => (htests test hmem).1.judges (htests test hmem).2
  first := by
    rw [houtput]
    intro line hline
    obtain ⟨test, hmem, hline⟩ := List.mem_flatMap.mp hline
    exact (htests test hmem).1.first_passes (htests test hmem).2 line hline

/-- The tests with the given names were made, each with `n` calls. -/
def Ran (platform : Platform) (n : Nat) (names : List String) (s : State) : Prop :=
  ∃ tests, tests.map Test.name = names ∧ (∀ test ∈ tests, test.InOrder n)
    ∧ Done platform tests [] [] s

theorem Ran.start (n : Nat) (hcalls : s.calls = []) (hbuffer : s.buffer = [])
    (houtput : s.output = []) : Ran platform n [] s :=
  ⟨[], rfl, by simp, Done.start hcalls hbuffer houtput⟩

theorem ran_snoc (horder : ∀ test ∈ tests, test.InOrder n)
    (hdone : Done platform (tests ++ [test]) [] [] s) (hlast : test.InOrder n) :
    Ran platform n (tests.map Test.name ++ [test.name]) s := by
  refine ⟨tests ++ [test], by simp, ?_, hdone⟩
  intro other hother
  rcases List.mem_append.mp hother with hother | hother
  · exact horder other hother
  · rwa [List.mem_singleton.mp hother]

theorem Ran.grows {names : List String} (h : Ran platform n names s) (hgrows : Grows s s') :
    Ran platform n names s' := by
  obtain ⟨tests, hnames, horder, hdone⟩ := h
  exact ⟨tests, hnames, horder, hdone.grows hgrows⟩

theorem Ran.exit {names : List String} (h : Ran platform n names s) (hn : n ≤ 4) :
    Returns exit s fun _ s' => Reports names n s' := by
  obtain ⟨tests, hnames, horder, hdone⟩ := h
  refine hdone.exit.mono ?_
  rintro - final ⟨hcalls, houtput, -⟩
  refine Reports.of_tests hnames ?_ hn hcalls (by simpa using houtput)
  exact fun test hmem => ⟨hdone.sound test hmem, horder test hmem⟩

/-! ### A platform -/

/-- New mappings are placed behind all others, and calls execute what is in the page. -/
def coherent : Platform where
  place used _ := some (used.sum + 1)
  place_free used count page hplace i hi hmem := by
    have hle := List.le_sum_of_mem hmem
    obtain rfl := Option.some.inj hplace
    omega
  executes _ _ current := current
  executable _ _ _ := .inl rfl
  forks _ := true
  lineBuffered := false
  privateSees := true

theorem coherent_places : coherent.Places := fun _ _ => rfl

/-- A process in which nothing is mapped. -/
def blank : State where
  views := []
  calls := []
  buffer := []
  objects := 0
  sizes _ := 0
  contents _ _ _ := 0
  linked _ := false
  position _ := 0
  forks := 0
  output := []
  childCalls := []

end FexTestBins.SmcProcess
