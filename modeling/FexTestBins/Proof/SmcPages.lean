import FexTestBins.SmcSignals

/-!
# Nested invocations of `smc_test` and their pages

An invocation goes through the same twenty statements in every round, so the protection of its page
and the bytes stored in the round so far depend on the next statement alone. That is the invariant
of one invocation; it is kept by its own steps, and by those of others because they touch only
their own pages.
-/

namespace FexTestBins.SmcSignals

open Words Transition Interrupts

/-! ### One round -/

def Stmt.setProt : Stmt → Prot → Prot
  | .mprotect next, _ => next
  | _, prot => prot

def Stmt.stored : Stmt → Nat → Option Byte
  | .store k' value, k => if k' = k then some value else none
  | _, _ => none

def protAt (i : Nat) : Prot :=
  (body.take i).foldl (fun prot stmt => stmt.setProt prot) rwx

def storedAt (i k : Nat) : Option Byte :=
  (body.take i).foldl (fun byte stmt => (stmt.stored k).or byte) none

theorem take_body_succ {i : Nat} {stmt : Stmt} (hstmt : body[i]? = some stmt) :
    body.take (i + 1) = body.take i ++ [stmt] := by
  rw [List.take_add_one, hstmt, Option.toList_some]

theorem protAt_succ {i : Nat} {stmt : Stmt} (hstmt : body[i]? = some stmt) :
    protAt (i + 1) = stmt.setProt (protAt i) := by
  rw [protAt, take_body_succ hstmt, List.foldl_append]
  rfl

theorem storedAt_succ {i k : Nat} {stmt : Stmt} (hstmt : body[i]? = some stmt) :
    storedAt (i + 1) k = (stmt.stored k).or (storedAt i k) := by
  rw [storedAt, take_body_succ hstmt, List.foldl_append]
  rfl

theorem write_of_store : ∀ i < 20, ∀ k value, body[i]? = some (.store k value) →
    (protAt i).write = true := by
  have hall : ∀ i < 20, (protAt i).write = true ∨ body[i]? = some (.mprotect rwx)
      ∨ body[i]? = some (.call 2) := by decide
  intro i hi k value hstmt
  rcases hall i hi with hwrite | hprotect | hcall
  · exact hwrite
  · cases hstmt.symm.trans hprotect
  · cases hstmt.symm.trans hcall

theorem exec_of_call : ∀ i < 20, ∀ j, body[i]? = some (.call j) → (protAt i).exec = true := by
  decide

theorem storedAt_of_call : ∀ i < 20, ∀ j, body[i]? = some (.call j) →
    ∀ k < 6, (storedAt i k).isSome = true := by
  decide

/-! ### One invocation -/

/-- The page of an invocation, as far as the next statement determines it: its protection, and
that it holds the bytes the invocation stored last. -/
def FrameOk (pages : Pages) (frame : Frame) : Prop :=
  match frame.pc with
  | .mmap => frame.stored = fun _ => none
  | .body k i => k < 10 ∧ i ≤ 20
      ∧ (∃ page, pages frame.code = some page ∧ page.prot = protAt i
        ∧ ∀ j value, frame.stored j = some value → page.bytes j = value)
      ∧ ∀ j value, storedAt i j = some value → frame.stored j = some value
  | .munmap => (pages frame.code).isSome
  | .ret => True

variable {pages pages' init : Pages} {env env' : Env} {frame other : Frame} {after : Option Frame}
  {stmt : Stmt} {addr : Addr} {k i : Nat}

theorem pc_of_stmt (hstmt : frame.stmt = some stmt) :
    ∃ k i, frame.pc = .body k i ∧ body[i]? = some stmt := by
  unfold Frame.stmt at hstmt
  split at hstmt
  · rename_i k i hpc
    exact ⟨k, i, hpc, hstmt⟩
  · cases hstmt

theorem lt_of_stmt (hstmt : body[i]? = some stmt) : i < 20 :=
  (List.getElem?_eq_some_iff.mp hstmt).1

@[simp]
theorem code_advance (frame : Frame) : frame.advance.code = frame.code := by
  unfold Frame.advance
  split <;> rfl

@[simp]
theorem stored_advance (frame : Frame) : frame.advance.stored = frame.stored := by
  unfold Frame.advance
  split <;> rfl

@[simp]
theorem e_advance (frame : Frame) : frame.advance.e = frame.e := by
  unfold Frame.advance
  split <;> rfl

theorem pc_advance (hpc : frame.pc = .body k i) : frame.advance.pc = .body k (i + 1) := by
  unfold Frame.advance
  rw [hpc]

theorem FrameOk.mapped (h : FrameOk pages frame) (hpage : frame.page = some addr) :
    (pages addr).isSome := by
  unfold FrameOk Frame.page at *
  cases hpc : frame.pc <;> rw [hpc] at h hpage <;> simp only [reduceCtorEq, Option.some.injEq] at *
  · obtain ⟨-, -, ⟨page, hmapped, -⟩, -⟩ := h
    rw [← hpage, hmapped]
    rfl
  · rwa [← hpage]

theorem FrameOk.congr (h : FrameOk pages frame)
    (hpages : ∀ addr, frame.page = some addr → pages' addr = pages addr) :
    FrameOk pages' frame := by
  unfold FrameOk Frame.page at *
  cases hpc : frame.pc <;> rw [hpc] at h hpages <;> simp only at *
  · exact h
  · rwa [hpages _ rfl]
  · rwa [hpages _ rfl]

/-- The next statement of the body changes the page as it changes the protection and the record of
the stores, and so the invariant moves on by one statement. -/
theorem FrameOk.next {page : Page} {next : Frame} (h : FrameOk pages frame)
    (hstmt : frame.stmt = some stmt) (hpc : next.pc = frame.advance.pc)
    (hcode : next.code = frame.code) (hpage : pages' frame.code = some page)
    (hprot : ∀ old, pages frame.code = some old → page.prot = stmt.setProt old.prot)
    (hstored : ∀ j, next.stored j = (stmt.stored j).or (frame.stored j))
    (hbytes : ∀ old, pages frame.code = some old → ∀ j,
      page.bytes j = (stmt.stored j).getD (old.bytes j)) : FrameOk pages' next := by
  obtain ⟨k, i, hat, hbody⟩ := pc_of_stmt hstmt
  unfold FrameOk at h ⊢
  rw [hpc, pc_advance hat]
  rw [hat] at h
  obtain ⟨hk, -, ⟨old, hold, hprotAt, hsame⟩, hrecent⟩ := h
  refine ⟨hk, lt_of_stmt hbody, ⟨page, by rw [hcode, hpage], ?_, ?_⟩, ?_⟩
  · rw [hprot old hold, protAt_succ hbody, hprotAt]
  · intro j value hvalue
    rw [hstored j] at hvalue
    rw [hbytes old hold j]
    cases hnew : stmt.stored j with
    | some value' => simpa [hnew] using hvalue
    | none => simpa [hnew] using hsame j value (by simpa [hnew] using hvalue)
  · intro j value hvalue
    rw [storedAt_succ hbody] at hvalue
    rw [hstored j]
    cases hnew : stmt.stored j with
    | some value' => simpa [hnew] using hvalue
    | none => simpa [hnew] using hrecent j value (by simpa [hnew] using hvalue)

/-- A statement that stores nothing and sets no protection leaves the page as it is. -/
theorem FrameOk.next_of_idle {next : Frame} (h : FrameOk pages frame)
    (hstmt : frame.stmt = some stmt) (hpc : next.pc = frame.advance.pc)
    (hcode : next.code = frame.code) (hstored : next.stored = frame.stored)
    (hprot : stmt.setProt = id) (hstore : stmt.stored = fun _ => none) : FrameOk pages next := by
  obtain ⟨k, i, hat, hbody⟩ := pc_of_stmt hstmt
  have hpage : frame.page = some frame.code := by simp [Frame.page, hat]
  obtain ⟨page, hmapped⟩ := Option.isSome_iff_exists.mp (h.mapped hpage)
  apply h.next hstmt hpc hcode hmapped
  · intro old hold
    rw [hprot, Option.some.inj (hmapped.symm.trans hold)]
    rfl
  · intro j
    rw [hstored, hstore, Option.none_or]
  · intro old hold j
    rw [hstore, Option.some.inj (hmapped.symm.trans hold), Option.getD_none]

theorem FrameOk.act {frame' : Frame} (h : FrameOk env.pages frame)
    (hact : Act env frame env' (some frame')) : FrameOk env'.pages frame' := by
  cases hact with
  | mmap hpc hfree =>
      unfold FrameOk at h ⊢
      rw [hpc] at h
      simp only at h ⊢
      refine ⟨by decide, by decide, ⟨_, Function.update_self .., rfl, ?_⟩, ?_⟩
      · simp [h]
      · simp [storedAt]
  | store hstmt hmapped hwrite =>
      rename_i page k value
      refine h.next hstmt rfl (code_advance frame) (Function.update_self ..) ?_ ?_ ?_
      · intro old hold
        obtain rfl := Option.some.inj (hmapped.symm.trans hold)
        rfl
      · intro j
        by_cases hj : j = k
        · simp [Stmt.stored, hj]
        · simp [Stmt.stored, hj, Ne.symm hj]
      · intro old hold j
        obtain rfl := Option.some.inj (hmapped.symm.trans hold)
        by_cases hj : j = k
        · simp [Stmt.stored, Page.store, hj]
        · simp [Stmt.stored, Page.store, hj, Ne.symm hj]
  | call hstmt hmapped hexec hexecutable =>
      exact h.next_of_idle hstmt rfl (code_advance frame) (stored_advance frame) rfl rfl
  | mprotect hstmt hmapped =>
      refine h.next hstmt rfl (code_advance frame) (Function.update_self ..) ?_ ?_ ?_
      · intro old hold
        rfl
      · intro j
        rw [stored_advance]
        rfl
      · intro old hold j
        obtain rfl := Option.some.inj (hmapped.symm.trans hold)
        rfl
  | check hstmt =>
      exact h.next_of_idle hstmt rfl (code_advance frame) (stored_advance frame) rfl rfl
  | count hstmt =>
      exact h.next_of_idle hstmt rfl (code_advance frame) (stored_advance frame) rfl rfl
  | usleep hstmt =>
      exact h.next_of_idle hstmt rfl (code_advance frame) (stored_advance frame) rfl rfl
  | again hpc hround =>
      unfold FrameOk at h ⊢
      rw [hpc] at h
      obtain ⟨-, -, ⟨page, hmapped, hprot, hsame⟩, -⟩ := h
      exact ⟨hround, by decide, ⟨page, hmapped, hprot, hsame⟩, by simp [storedAt]⟩
  | done hpc hround =>
      have hpage : frame.page = some frame.code := by simp [Frame.page, hpc]
      exact h.mapped hpage
  | munmap hpc => trivial

/-! ### What a step of an invocation changes -/

def Frame.roundsLeft (frame : Frame) : Nat :=
  match frame.pc with
  | .mmap => 10
  | .body k i => if 18 < i then 9 - k else 10 - k
  | .munmap => 0
  | .ret => 0

def roundsLeft (after : Option Frame) : Nat := after.elim 0 Frame.roundsLeft

/-- Everything that one step of an invocation can do to the state it shares with others. -/
structure Effect (env : Env) (frame : Frame) (env' : Env) (after : Option Frame) : Prop where
  others : ∀ addr, frame.page ≠ some addr → (∀ frame' ∈ after, frame'.page ≠ some addr) →
    env'.pages addr = env.pages addr
  released : ∀ addr, frame.page = some addr → (∀ frame' ∈ after, frame'.page ≠ some addr) →
    env'.pages addr = none
  acquired : ∀ frame' ∈ after, ∀ addr, frame'.page = some addr →
    frame.page = some addr ∨ env.pages addr = none
  sigcount : env'.sigcount = env.sigcount
  exitCode : env'.exitCode = env.exitCode
  rounds : FrameOk env.pages frame →
    env'.count + roundsLeft after = env.count + frame.roundsLeft

theorem page_of_stmt (hstmt : frame.stmt = some stmt) : frame.page = some frame.code := by
  obtain ⟨k, i, hpc, -⟩ := pc_of_stmt hstmt
  simp [Frame.page, hpc]

theorem page_of_advance {next : Frame} (hstmt : frame.stmt = some stmt)
    (hpc : next.pc = frame.advance.pc) (hcode : next.code = frame.code) :
    next.page = some frame.code := by
  obtain ⟨k, i, hat, -⟩ := pc_of_stmt hstmt
  simp [Frame.page, hpc, pc_advance hat, hcode]

/-- Only the statement `count++` ends a round. -/
theorem roundsLeft_of_advance {next : Frame} (h : FrameOk pages frame)
    (hstmt : frame.stmt = some stmt) (hpc : next.pc = frame.advance.pc) :
    (if stmt = .count then 1 else 0) + next.roundsLeft = frame.roundsLeft := by
  obtain ⟨k, i, hat, hbody⟩ := pc_of_stmt hstmt
  have hcount : ∀ i < 20, body[i]? = some .count ↔ i = 18 := by decide
  have hi := hcount i (lt_of_stmt hbody)
  rw [hbody, Option.some.injEq] at hi
  rw [FrameOk, hat] at h
  obtain ⟨hk, -⟩ := h
  simp only [Frame.roundsLeft, hpc, pc_advance hat, hat, hi]
  split <;> split <;> split <;> omega

theorem effect_of_stmt {next : Frame} (hstmt : frame.stmt = some stmt)
    (hpc : next.pc = frame.advance.pc) (hcode : next.code = frame.code)
    (hpages : ∀ addr, addr ≠ frame.code → env'.pages addr = env.pages addr)
    (hsigcount : env'.sigcount = env.sigcount) (hexit : env'.exitCode = env.exitCode)
    (hcount : env'.count = env.count + if stmt = .count then 1 else 0) :
    Effect env frame env' (some next) where
  others := by
    intro addr hown _
    apply hpages addr
    intro heq
    apply hown
    rw [page_of_stmt hstmt, heq]
  released := by
    intro addr hown hlost
    rw [page_of_stmt hstmt] at hown
    exact absurd ((page_of_advance hstmt hpc hcode).trans hown) (hlost next rfl)
  acquired := by
    rintro _ ⟨⟩ addr hown
    rw [page_of_advance hstmt hpc hcode] at hown
    exact Or.inl ((page_of_stmt hstmt).trans hown)
  sigcount := hsigcount
  exitCode := hexit
  rounds := by
    intro h
    have hrounds := roundsLeft_of_advance h hstmt hpc
    simp only [roundsLeft, Option.elim_some, hcount]
    omega

theorem effect_of_same {next : Frame} (hpage : frame.page = some addr)
    (hnext : next.page = some addr)
    (hrounds : FrameOk env.pages frame → next.roundsLeft = frame.roundsLeft) :
    Effect env frame env (some next) where
  others := fun _ _ _ => rfl
  released := by
    intro other hown hlost
    exact absurd (hnext.trans (hpage.symm.trans hown)) (hlost next rfl)
  acquired := by
    rintro _ ⟨⟩ other hown
    exact Or.inl (hpage.trans (hnext.symm.trans hown))
  sigcount := rfl
  exitCode := rfl
  rounds := by
    intro h
    exact congrArg (env.count + ·) (hrounds h)

theorem effect_of_act (hact : Act env frame env' after) : Effect env frame env' after := by
  cases hact with
  | mmap hpc hfree =>
      rename_i addr
      refine ⟨?_, ?_, ?_, rfl, rfl, ?_⟩
      · intro other hown hlost
        apply Function.update_of_ne
        rintro rfl
        exact hlost _ rfl rfl
      · intro other hown
        simp [Frame.page, hpc] at hown
      · rintro _ ⟨⟩ other hown
        obtain rfl : addr = other := Option.some.inj hown
        exact Or.inr hfree
      · intro _
        simp [roundsLeft, Frame.roundsLeft, hpc]
  | store hstmt =>
      exact effect_of_stmt hstmt rfl (code_advance frame)
        (fun addr hne => Function.update_of_ne hne ..) rfl rfl rfl
  | call hstmt => exact effect_of_stmt hstmt rfl (code_advance frame) (fun _ _ => rfl) rfl rfl rfl
  | mprotect hstmt =>
      exact effect_of_stmt hstmt rfl (code_advance frame)
        (fun addr hne => Function.update_of_ne hne ..) rfl rfl rfl
  | check hstmt => exact effect_of_stmt hstmt rfl (code_advance frame) (fun _ _ => rfl) rfl rfl rfl
  | count hstmt => exact effect_of_stmt hstmt rfl (code_advance frame) (fun _ _ => rfl) rfl rfl rfl
  | usleep hstmt => exact effect_of_stmt hstmt rfl (code_advance frame) (fun _ _ => rfl) rfl rfl rfl
  | again hpc hround =>
      have hpage : frame.page = some frame.code := by simp [Frame.page, hpc]
      apply effect_of_same hpage rfl
      intro _
      simp [Frame.roundsLeft, hpc, body]
  | done hpc hround =>
      have hpage : frame.page = some frame.code := by simp [Frame.page, hpc]
      apply effect_of_same hpage rfl
      intro _
      simp [Frame.roundsLeft, hpc, body]
      omega
  | munmap hpc =>
      have hpage : frame.page = some frame.code := by simp [Frame.page, hpc]
      refine ⟨?_, ?_, ?_, rfl, rfl, ?_⟩
      · intro addr hown _
        apply Function.update_of_ne
        rintro rfl
        exact hown hpage
      · intro addr hown _
        obtain rfl : frame.code = addr := Option.some.inj (hpage.symm.trans hown)
        exact Function.update_self ..
      · rintro _ ⟨⟩ addr hown
        simp [Frame.page] at hown
      · intro _
        simp [roundsLeft, Frame.roundsLeft, hpc]
  | ret hpc =>
      refine ⟨fun _ _ _ => rfl, ?_, by simp, rfl, rfl, ?_⟩
      · intro addr hown
        simp [Frame.page, hpc] at hown
      · intro _
        simp [roundsLeft, Frame.roundsLeft, hpc]

/-! ### All invocations together -/

theorem discipline : Discipline program Frame.page (fun env frame => FrameOk env.pages frame)
    (fun env addr => env.pages addr = none) where
  enter_own := by
    rintro _ _ frame ⟨-, hpc, -⟩
    simp [Frame.page, hpc]
  enter_ok := by
    rintro _ _ frame ⟨-, hpc, hstored⟩
    rw [FrameOk, hpc]
    exact hstored
  enter_keeps := by
    rintro _ _ _ other ⟨⟩ h
    exact h
  act_ok := fun _ _ _ _ h hact => h.act hact
  act_keeps := by
    intro _ _ _ _ _ _ hact h hother
    apply h.congr
    intro addr hown
    exact (effect_of_act hact).others addr (hother addr hown).1 (hother addr hown).2
  act_own := by
    intro _ _ _ frame' addr _ hact hown
    exact (effect_of_act hact).acquired frame' rfl addr hown
  not_free := by
    intro env frame addr h hown hfree
    have hmapped := h.mapped hown
    rw [hfree] at hmapped
    cases hmapped

theorem ownWrites : OwnWrites program Frame.page (fun env addr => env.pages addr) where
  enter := by
    rintro _ _ _ ⟨⟩
    rfl
  act := fun _ _ _ _ hact addr hown hlost => (effect_of_act hact).others addr hown hlost
  main := by
    rintro _ _ ⟨⟩
    rfl

/-- The invariant of the program: separate invocations; all other pages as at the start, where the
pages of the invocations were not mapped; and each invocation accounts for ten rounds. -/
structure Inv (init : Pages) (events : List Event) (state : State Env Frame) : Prop where
  separate : Separate Frame.page (fun env frame => FrameOk env.pages frame) state
  outside : ∀ addr, (∀ frame ∈ state.frames, frame.page ≠ some addr) →
    state.env.pages addr = init addr
  unmapped : ∀ frame ∈ state.frames, ∀ addr, frame.page = some addr → init addr = none
  sigcount : state.env.sigcount = events.count .signal
  rounds : state.env.count + (state.frames.map Frame.roundsLeft).sum = 10 * state.env.sigcount

theorem inv_start (init : Pages) : Inv init [] (start init) where
  separate := ⟨by simp [start], by simp [start]⟩
  outside := fun _ _ => rfl
  unmapped := by simp [start]
  sigcount := rfl
  rounds := rfl

theorem Inv.run {events : List Event} {rest : List Frame}
    (h : Inv init events ⟨env, frame :: rest⟩) (hact : Act env frame env' after) :
    Inv init (events ++ [.run]) ⟨env', after.toList ++ rest⟩ := by
  have heffect := effect_of_act hact
  have hok := h.separate.ok frame (List.mem_cons_self ..)
  refine ⟨discipline.separate_run h.separate hact, ?_, ?_, ?_, ?_⟩
  · intro addr hfree
    have hlost : ∀ frame' ∈ after, frame'.page ≠ some addr := by
      intro frame' hafter
      exact hfree frame' (List.mem_append_left _ (Option.mem_toList.mpr hafter))
    by_cases hown : frame.page = some addr
    · rw [heffect.released addr hown hlost,
        h.unmapped frame (List.mem_cons_self ..) addr hown]
    · rw [heffect.others addr hown hlost]
      apply h.outside addr
      intro other hother
      rcases List.mem_cons.mp hother with rfl | hother
      · exact hown
      · exact hfree other (List.mem_append_right _ hother)
  · intro other hother addr hown
    rcases List.mem_append.mp hother with hafter | hother
    · rcases heffect.acquired other (Option.mem_toList.mp hafter) addr hown with hold | hnone
      · exact h.unmapped frame (List.mem_cons_self ..) addr hold
      · -- a page that was not mapped is nobody's, so it is as at the start
        rw [← h.outside addr]
        · exact hnone
        · intro owner howner hpage
          exact discipline.not_free _ _ _ (h.separate.ok owner howner) hpage hnone
    · exact h.unmapped other (List.mem_cons_of_mem _ hother) addr hown
  · rw [heffect.sigcount, h.sigcount, List.count_append]
    rfl
  · have hrounds := heffect.rounds hok
    have hall := h.rounds
    have hsum : (after.toList.map Frame.roundsLeft).sum = roundsLeft after := by
      cases after <;> simp [roundsLeft]
    simp only [List.map_cons, List.sum_cons, List.map_append, List.sum_append, heffect.sigcount,
      hsum] at hall ⊢
    omega

theorem Inv.step {events : List Event} {state : State Env Frame} {event : Event}
    {next : State Env Frame} (h : Inv init events state) (hstep : Step program state event next) :
    Inv init (events ++ [event]) next := by
  have hseparate := discipline.separate_step h.separate hstep
  cases hstep with
  | @signal env env' frame frames henter =>
      obtain ⟨-, hpc, -⟩ := henter
      have hnone : frame.page = none := by simp [Frame.page, hpc]
      refine ⟨hseparate, ?_, ?_, ?_, ?_⟩
      · intro addr hfree
        apply h.outside addr
        intro other hother
        exact hfree other (List.mem_cons_of_mem _ hother)
      · intro other hother addr hown
        rcases List.mem_cons.mp hother with rfl | hother
        · rw [hnone] at hown
          cases hown
        · exact h.unmapped other hother addr hown
      · rw [List.count_append, ← h.sigcount]
        rfl
      · have hall := h.rounds
        have hten : frame.roundsLeft = 10 := by simp [Frame.roundsLeft, hpc]
        simp only [List.map_cons, List.sum_cons, hten] at hall ⊢
        omega
  | run hact => exact h.run hact
  | main hmain =>
      obtain ⟨-⟩ := hmain
      refine ⟨hseparate, h.outside, by simp, ?_, h.rounds⟩
      rw [List.count_append, ← h.sigcount]
      rfl

theorem inv_run {events : List Event} {state : State Env Frame}
    (hrun : Run (Step program) (start init) events state) : Inv init events state := by
  apply hrun.invariant_history (Inv init) _ (inv_start init)
  intro past state event next h hstep
  exact h.step hstep

/-- A state in which nothing can go wrong: the pages of the active invocations are mapped and
pairwise different, a store that comes next finds its own page writable, a call that comes next
finds it executable and holding the bytes stored last, every signal was counted, and between
handlers ten rounds were counted for each signal and nothing is left mapped. -/
structure Safe (init : Pages) (events : List Event) (state : State Env Frame) : Prop where
  distinct : (state.frames.filterMap Frame.page).Nodup
  mapped : ∀ frame ∈ state.frames, ∀ addr, frame.page = some addr →
    ∃ page, state.env.pages addr = some page
  store : ∀ frame ∈ state.frames, ∀ k value, frame.stmt = some (.store k value) →
    frame.page = some frame.code
      ∧ ∃ page, state.env.pages frame.code = some page ∧ page.prot.write = true
  call : ∀ frame ∈ state.frames, ∀ j, frame.stmt = some (.call j) →
    frame.page = some frame.code
      ∧ ∃ page, state.env.pages frame.code = some page ∧ page.prot.exec = true
        ∧ ∀ k < 6, frame.stored k = some (page.bytes k)
  sigcount : state.env.sigcount = events.count .signal
  quiet : state.frames = [] →
    state.env.count = 10 * state.env.sigcount ∧ state.env.pages = init

theorem FrameOk.store_ok {value : Byte} (h : FrameOk pages frame)
    (hstmt : frame.stmt = some (.store k value)) :
    ∃ page, pages frame.code = some page ∧ page.prot.write = true := by
  obtain ⟨round, i, hpc, hbody⟩ := pc_of_stmt hstmt
  rw [FrameOk, hpc] at h
  obtain ⟨-, -, ⟨page, hmapped, hprot, -⟩, -⟩ := h
  refine ⟨page, hmapped, ?_⟩
  rw [hprot]
  exact write_of_store i (lt_of_stmt hbody) k value hbody

theorem FrameOk.call_ok {j : Fin 4} (h : FrameOk pages frame)
    (hstmt : frame.stmt = some (.call j)) :
    ∃ page, pages frame.code = some page ∧ page.prot.exec = true
      ∧ ∀ k < 6, frame.stored k = some (page.bytes k) := by
  obtain ⟨round, i, hpc, hbody⟩ := pc_of_stmt hstmt
  rw [FrameOk, hpc] at h
  obtain ⟨-, -, ⟨page, hmapped, hprot, hsame⟩, hrecent⟩ := h
  have hexec : page.prot.exec = true := by
    rw [hprot]
    exact exec_of_call i (lt_of_stmt hbody) j hbody
  refine ⟨page, hmapped, hexec, ?_⟩
  intro k hk
  obtain ⟨value, hvalue⟩ :=
    Option.isSome_iff_exists.mp (storedAt_of_call i (lt_of_stmt hbody) j hbody k hk)
  have hstored := hrecent k value hvalue
  rw [hstored, hsame k value hstored]

theorem Inv.safe {events : List Event} {state : State Env Frame} (h : Inv init events state) :
    Safe init events state where
  distinct := h.separate.nodup
  mapped := fun frame hframe _ hown =>
    Option.isSome_iff_exists.mp ((h.separate.ok frame hframe).mapped hown)
  store := fun frame hframe _ _ hstmt =>
    ⟨page_of_stmt hstmt, (h.separate.ok frame hframe).store_ok hstmt⟩
  call := fun frame hframe _ hstmt =>
    ⟨page_of_stmt hstmt, (h.separate.ok frame hframe).call_ok hstmt⟩
  sigcount := h.sigcount
  quiet := by
    intro hquiet
    have hrounds := h.rounds
    rw [hquiet] at hrounds
    refine ⟨by simpa using hrounds, ?_⟩
    funext addr
    apply h.outside addr
    intro frame hframe
    rw [hquiet] at hframe
    cases hframe

/-- **Nested invocations are safe.** Every state that a run reaches is safe, however the signals
fall, and from it on, as long as its invocations stay interrupted and until they are resumed, they
stay as they are and their pages keep their bytes and protection. -/
theorem smc_test_safe (init : Pages) (events : List Event) (state : State Env Frame)
    (hrun : Run (Step program) (start init) events state) :
    Safe init events state
      ∧ ∀ events' later, Run (StepAbove program state.frames.length) state events' later →
        state.frames <:+ later.frames
          ∧ ∀ frame ∈ state.frames, ∀ addr, frame.page = some addr →
            later.env.pages addr = state.env.pages addr := by
  have hinv := inv_run hrun
  refine ⟨hinv.safe, ?_⟩
  intro events' later habove
  have hself : state.frames <:+ state.frames := List.suffix_refl _
  refine ⟨suffix_run hself habove, ?_⟩
  intro frame hframe addr hown
  exact discipline.content_run ownWrites hinv.separate hself habove hframe hown

def entered : Frame := { pc := .mmap, code := 0, e := fun _ => 0, stored := fun _ => none }

/-- A second signal arrives when the handler of the first has just mapped its page. -/
theorem smc_test_safe_nested :
    ∃ state, Run (Step program) (start fun _ => none) [.signal, .run, .signal] state
      ∧ state.frames.length = 2 ∧ Safe (fun _ => none) [.signal, .run, .signal] state := by
  have hrun : Run (Step program) (start fun _ => none) [.signal, .run, .signal] _ :=
    .cons (.signal (Enter.mk rfl rfl rfl : Enter _ _ entered))
      (.cons (.run (@Act.mmap _ entered 0x1000 rfl rfl))
        (.single (.signal (Enter.mk rfl rfl rfl : Enter _ _ entered))))
  exact ⟨_, hrun, rfl, (smc_test_safe _ _ _ hrun).1⟩

end FexTestBins.SmcSignals
