import FexTestBins.Proof.SmcFailureSet
import FexTestBins.SmcMt
import Mathlib.Data.Fintype.BigOperators

/-!
# What the threads of `smc-mt` print

A thread goes through the same statements in every round, on a page that no other thread maps, so
that all its calls are of the four functions in turn and can only find functions of its own. That is
the assertion about a thread, which the statements of the others do not disturb.
-/

namespace FexTestBins.SmcMt

open Words SmcSignals Smc Threads Transition

variable {n : Nat} {i j : Fin n} {init : Pages} {shared shared' : Shared n} {frame frame' : Frame}
  {page : Page} {code addr : Addr} {calls : List SmcSignals.Call} {call : SmcSignals.Call}
  {k r : Nat}

/-! ### A round on a page -/

/-- The page before statement `r` of the loop. -/
structure PageAt (page : Page) (r : Nat) : Prop where
  prot : page.prot = protAt r
  bytes : ∀ b value, storedAt r b = some value → page.bytes b = value

theorem body_of_smc_body {stmt : Smc.Stmt} (hstmt : Smc.body[r]? = some stmt) :
    r < 17 ∧ SmcSignals.body[r]? = some stmt.inLoop := by
  have hlt : r < 17 := (List.getElem?_eq_some_iff.mp hstmt).1
  refine ⟨hlt, ?_⟩
  rw [← List.getElem?_take_of_lt hlt, ← map_inLoop_body, List.getElem?_map, hstmt, Option.map_some]

theorem PageAt.store {b : Nat} {value : Byte} (h : PageAt page r)
    (hstmt : SmcSignals.body[r]? = some (.store b value)) :
    PageAt (page.store b value) (r + 1) where
  prot := by
    rw [protAt_succ hstmt]
    exact h.prot
  bytes := by
    intro b' value' hvalue
    rw [storedAt_succ hstmt] at hvalue
    by_cases hb : b' = b
    · subst hb
      simpa [SmcSignals.Stmt.stored, Page.store] using hvalue
    · simp only [SmcSignals.Stmt.stored, Ne.symm hb, if_false, Option.none_or] at hvalue
      simpa [Page.store, hb] using h.bytes b' value' hvalue

theorem PageAt.mprotect {prot : Prot} (h : PageAt page r)
    (hstmt : SmcSignals.body[r]? = some (.mprotect prot)) :
    PageAt { page with prot := prot } (r + 1) where
  prot := by
    rw [protAt_succ hstmt]
    rfl
  bytes := by
    intro b value hvalue
    rw [storedAt_succ hstmt] at hvalue
    exact h.bytes b value (by simpa [SmcSignals.Stmt.stored] using hvalue)

theorem PageAt.called {c : Fin 4} (h : PageAt page r)
    (hstmt : SmcSignals.body[r]? = some (.call c)) : PageAt page (r + 1) where
  prot := by
    rw [protAt_succ hstmt]
    exact h.prot
  bytes := by
    intro b value hvalue
    rw [storedAt_succ hstmt] at hvalue
    exact h.bytes b value (by simpa [SmcSignals.Stmt.stored] using hvalue)

theorem pageAt_mapped : PageAt ⟨rwx, fun _ => 0⟩ 0 := ⟨rfl, fun _ _ hvalue => nomatch hvalue⟩

/-- The protection at the end of a round is that at its start. -/
theorem PageAt.again (h : PageAt page 17) : PageAt page 0 where
  prot := h.prot.trans (by decide)
  bytes := fun _ _ hvalue => nomatch hvalue

theorem PageAt.fn_eq {c : Fin 4} (h : PageAt page r)
    (hstmt : SmcSignals.body[r]? = some (.call c)) : page.fn = version c := by
  have hlength : ∀ c, (version c).length = 6 := by decide
  apply List.ext_getElem (by rw [hlength]; rfl)
  intro b hb hb'
  rw [hlength] at hb'
  have hstored := storedAt_version r (lt_of_stmt hstmt) c hstmt b hb'
  rw [List.getElem?_eq_getElem (by rw [hlength]; exact hb')] at hstored
  simpa [Page.fn] using h.bytes b _ hstored

/-! ### The calls of a thread -/

theorem mod_four_lt (m : Nat) : m % 4 < 4 := Nat.mod_lt m (Nat.succ_pos 3)

/-- The function in the page at the `m`-th call of a thread. -/
def versionAt (m : Nat) : List Byte := version ⟨m % 4, mod_four_lt m⟩

theorem versionAt_round (k : Nat) (c : Fin 4) : versionAt (4 * k + c) = version c := by
  have hindex : (⟨(4 * k + c) % 4, mod_four_lt _⟩ : Fin 4) = c := Fin.ext (by simp)
  rw [versionAt, hindex]

/-- The `m`-th call found its function in the page, and executed it or one of an earlier call. -/
structure Made (calls : List SmcSignals.Call) (code : Addr) (m : Nat) (call : SmcSignals.Call) :
    Prop where
  addr : call.addr = code
  current : call.current = versionAt m
  executed : call.executed = call.current
    ∨ ∃ m' < m, ∃ call', calls[m']? = some call' ∧ call.executed = call'.current

def AllMade (calls : List SmcSignals.Call) (code : Addr) : Prop :=
  ∀ m call, calls[m]? = some call → Made calls code m call

theorem AllMade.snoc (h : AllMade calls code) (haddr : call.addr = code)
    (hcurrent : call.current = versionAt calls.length)
    (hexecuted : call.executed = call.current
      ∨ ∃ call' ∈ calls, call.executed = call'.current) :
    AllMade (calls ++ [call]) code := by
  intro m call' hcall
  rcases Nat.lt_trichotomy m calls.length with hlt | rfl | hgt
  · rw [List.getElem?_append_left hlt] at hcall
    obtain ⟨haddr', hcurrent', hexecuted'⟩ := h m call' hcall
    refine ⟨haddr', hcurrent', hexecuted'.imp_right ?_⟩
    rintro ⟨m', hm', call'', hcall'', heq⟩
    exact ⟨m', hm', call'', by rw [List.getElem?_append_left (hm'.trans hlt), hcall''], heq⟩
  · obtain rfl : call = call' := by simpa using hcall
    refine ⟨haddr, hcurrent, hexecuted.imp_right ?_⟩
    rintro ⟨call', hmem, heq⟩
    obtain ⟨m', hm', rfl⟩ := List.mem_iff_getElem.mp hmem
    exact ⟨m', hm', _, by rw [List.getElem?_append_left hm', List.getElem?_eq_getElem hm'], heq⟩
  · simp [List.getElem?_eq_none (l := calls ++ [call]) (i := m) (by simp; omega)] at hcall

/-- What a call executes is the function of some call. -/
theorem AllMade.executed_version (h : AllMade calls code) {m : Nat}
    (hcall : calls[m]? = some call) : ∃ c, call.executed = version c := by
  rcases (h m call hcall).executed with heq | ⟨m', -, call', hcall', heq⟩
  · exact ⟨_, heq.trans (h m call hcall).current⟩
  · exact ⟨_, heq.trans (h m' call' hcall').current⟩

/-! ### The lines of a thread -/

/-- What is printed for the `m`-th call of a thread. -/
def report (m : Nat) (call : SmcSignals.Call) : Line :=
  ⟨m % 4 + 1, immediate call.executed, verdict (call.executed ≠ call.current)⟩

def reports (calls : List SmcSignals.Call) : List Line := calls.mapIdx report

theorem reports_snoc (calls : List SmcSignals.Call) (call : SmcSignals.Call) :
    reports (calls ++ [call]) = reports calls ++ [report calls.length call] :=
  List.mapIdx_concat

/-- The comparison with the constant finds out what the call executed. -/
theorem AllMade.line_eq (h : AllMade calls code) {e : Fin 4 → BitVec 32} {c : Fin 4}
    (hcall : calls[4 * k + c]? = some call) (he : e c = immediate call.executed) :
    line e c = report (4 * k + c) call := by
  have hnumber : (4 * k + c.val) % 4 = c := by omega
  have hcurrent : call.current = version c :=
    (h _ _ hcall).current.trans (versionAt_round k c)
  obtain ⟨c', hexecuted⟩ := h.executed_version hcall
  have hverdict : e c ≠ expected c ↔ call.executed ≠ call.current := by
    rw [he, hexecuted, hcurrent]
    exact not_congr (immediate_version_eq c c')
  rw [line, report, hnumber, he]
  rw [he] at hverdict
  simp only [verdict, hverdict]

/-! ### The assertion about a thread -/

def isCall : Smc.Stmt → Bool
  | .call _ => true
  | _ => false

/-- The calls of a round before statement `r`. -/
def callsBefore (r : Nat) : Nat := (Smc.body.take r).countP isCall

theorem callsBefore_succ {stmt : Smc.Stmt} (hstmt : Smc.body[r]? = some stmt) :
    callsBefore (r + 1) = callsBefore r + if isCall stmt then 1 else 0 := by
  rw [callsBefore, List.take_add_one, hstmt, List.countP_append]
  cases hcall : isCall stmt <;> simp [callsBefore, hcall]

theorem callsBefore_of_call : ∀ r < 17, ∀ c : Fin 4,
    Smc.body[r]? = some (.call c) → callsBefore r = c := by
  decide

theorem callsBefore_of_printf : ∀ r ≤ 21, 17 ≤ r → callsBefore r = 4 := by
  decide

/-- A thread before statement `r` of round `k`. -/
structure Working (i : Fin n) (shared : Shared n) (frame : Frame) (k r : Nat) : Prop where
  round : k < 100
  statement : r ≤ 21
  page : ∃ page, shared.pages frame.code = some ⟨some i, page⟩ ∧ PageAt page (min r 17)
  made : (shared.calls i).length = 4 * k + callsBefore r
  values : ∀ c : Fin 4, c < callsBefore r → ∀ call, (shared.calls i)[4 * k + c]? = some call →
    frame.e c = immediate call.executed
  printed : writtenBy i shared.output = (reports (shared.calls i)).take (4 * k + (r - 17))
  running : shared.ended i = false

structure Waiting (i : Fin n) (shared : Shared n) : Prop where
  made : shared.calls i = []
  printed : writtenBy i shared.output = []
  running : shared.ended i = false

structure Ended (i : Fin n) (shared : Shared n) (frame : Frame) : Prop where
  page : ∃ page, shared.pages frame.code = some ⟨some i, page⟩
  made : (shared.calls i).length = 400
  printed : writtenBy i shared.output = reports (shared.calls i)
  ended : shared.ended i = true

def At (i : Fin n) (shared : Shared n) (frame : Frame) : Prop :=
  match frame.pc with
  | .mmap => Waiting i shared
  | .body k r => Working i shared frame k r
  | .ended => Ended i shared frame

structure Ok (i : Fin n) (shared : Shared n) (frame : Frame) : Prop where
  made : AllMade (shared.calls i) frame.code
  owned : ∀ addr page, shared.pages addr = some ⟨some i, page⟩ →
    frame.pc ≠ .mmap ∧ addr = frame.code
  position : At i shared frame

/-- What holds of the address space at any time: the pages that no thread has mapped are those from
the start, and calls are made in pages of the thread. -/
structure Kept (init : Pages) (shared : Shared n) : Prop where
  init : ∀ addr page, shared.pages addr = some ⟨none, page⟩ ↔ init addr = some page
  calls : ∀ i, ∀ call ∈ shared.calls i, ∃ page, shared.pages call.addr = some ⟨some i, page⟩

/-- Nothing has happened that thread `j` could notice. -/
structure Unseen (j : Fin n) (shared shared' : Shared n) : Prop where
  pages : ∀ addr page, shared'.pages addr = some ⟨some j, page⟩
    ↔ shared.pages addr = some ⟨some j, page⟩
  calls : shared'.calls j = shared.calls j
  lines : writtenBy j shared'.output = writtenBy j shared.output
  ended : shared'.ended j = shared.ended j

theorem At.unseen (h : At j shared frame) (hunseen : Unseen j shared shared') :
    At j shared' frame := by
  unfold At at *
  cases hpc : frame.pc with
  | mmap =>
      rw [hpc] at h
      exact ⟨hunseen.calls.trans h.made, hunseen.lines.trans h.printed,
        hunseen.ended.trans h.running⟩
  | body k r =>
      rw [hpc] at h
      obtain ⟨page, hpage, hat⟩ := h.page
      exact {
        round := h.round
        statement := h.statement
        page := ⟨page, (hunseen.pages _ _).mpr hpage, hat⟩
        made := hunseen.calls ▸ h.made
        values := hunseen.calls ▸ h.values
        printed := by rw [hunseen.lines, hunseen.calls, h.printed]
        running := hunseen.ended.trans h.running }
  | ended =>
      rw [hpc] at h
      obtain ⟨page, hpage⟩ := h.page
      exact ⟨⟨page, (hunseen.pages _ _).mpr hpage⟩, hunseen.calls ▸ h.made,
        by rw [hunseen.lines, hunseen.calls, h.printed], hunseen.ended.trans h.ended⟩

theorem Ok.unseen (h : Ok j shared frame) (hunseen : Unseen j shared shared') :
    Ok j shared' frame where
  made := hunseen.calls ▸ h.made
  owned := fun addr page hpage => h.owned addr page ((hunseen.pages addr page).mp hpage)
  position := h.position.unseen hunseen

/-! ### What the statements of a thread change -/

/-- A page that is new, or that the thread has mapped itself. -/
def Mine (i : Fin n) (shared : Shared n) (code : Addr) : Prop :=
  shared.pages code = none ∨ ∃ page, shared.pages code = some ⟨some i, page⟩

theorem pages_map_self (shared : Shared n) (code : Addr) (mapping : Mapping n) :
    (shared.map code mapping).pages code = some mapping :=
  Function.update_self ..

theorem pages_map_of_ne (hne : addr ≠ code) (mapping : Mapping n) :
    (shared.map code mapping).pages addr = shared.pages addr :=
  Function.update_of_ne hne ..

theorem Mine.ne (hmine : Mine i shared code) {mapping : Mapping n}
    (hmapping : shared.pages addr = some mapping) (howner : mapping.owner ≠ some i) :
    addr ≠ code := by
  rintro rfl
  rcases hmine with hfree | ⟨page, hpage⟩
  · cases hfree.symm.trans hmapping
  · obtain rfl := Option.some.inj (hpage.symm.trans hmapping)
    exact howner rfl

theorem unseen_map (hmine : Mine i shared code) (hne : j ≠ i) (page : Page) :
    Unseen j shared (shared.map code ⟨some i, page⟩) := by
  refine ⟨fun addr page' => ?_, rfl, rfl, rfl⟩
  constructor
  · intro hpage
    by_cases haddr : addr = code
    · rw [haddr, pages_map_self] at hpage
      simp [hne.symm] at hpage
    · rwa [pages_map_of_ne haddr] at hpage
  · intro hpage
    rw [pages_map_of_ne (hmine.ne hpage (by simpa using hne)), hpage]

theorem Kept.map (h : Kept init shared) (hmine : Mine i shared code) (page : Page) :
    Kept init (shared.map code ⟨some i, page⟩) where
  init := by
    intro addr page'
    rw [← h.init]
    constructor
    · intro hpage
      by_cases haddr : addr = code
      · rw [haddr, pages_map_self] at hpage
        simp at hpage
      · rwa [pages_map_of_ne haddr] at hpage
    · intro hpage
      rw [pages_map_of_ne (hmine.ne hpage (by simp)), hpage]
  calls := by
    intro j call hcall
    obtain ⟨page', hpage⟩ := h.calls j call hcall
    by_cases hj : j = i
    · subst hj
      by_cases haddr : call.addr = code
      · exact ⟨page, by rw [haddr, pages_map_self]⟩
      · exact ⟨page', by rw [pages_map_of_ne haddr, hpage]⟩
    · exact ⟨page', by rw [pages_map_of_ne (hmine.ne hpage (by simpa using hj)), hpage]⟩

theorem Ok.mapped (h : Ok i shared frame) (hpc : frame.pc = .body k r) :
    ∃ page, shared.pages frame.code = some ⟨some i, page⟩ ∧ PageAt page (min r 17) := by
  have hat := h.position
  rw [At, hpc] at hat
  exact hat.page

/-- A mapping found at the code of a thread is its own. -/
theorem Ok.mapping_eq (h : Ok i shared frame) (hpc : frame.pc = .body k r) {mapping : Mapping n}
    (hmapping : shared.pages frame.code = some mapping) :
    ∃ page, mapping = ⟨some i, page⟩ ∧ PageAt page (min r 17) := by
  obtain ⟨page, hpage, hat⟩ := h.mapped hpc
  exact ⟨page, Option.some.inj (hmapping.symm.trans hpage), hat⟩

theorem calls_called (shared : Shared n) (i : Fin n) (call : SmcSignals.Call) :
    (shared.called i call).calls i = shared.calls i ++ [call] :=
  Function.update_self ..

theorem calls_called_of_ne (hne : j ≠ i) (call : SmcSignals.Call) :
    (shared.called i call).calls j = shared.calls j :=
  Function.update_of_ne hne ..

theorem unseen_called (hne : j ≠ i) (call : SmcSignals.Call) :
    Unseen j shared (shared.called i call) :=
  ⟨fun _ _ => Iff.rfl, calls_called_of_ne hne call, rfl, rfl⟩

theorem Kept.called (h : Kept init shared) (hpage : shared.pages call.addr = some ⟨some i, page⟩) :
    Kept init (shared.called i call) where
  init := h.init
  calls := by
    intro j call' hcall
    by_cases hj : j = i
    · subst hj
      rw [calls_called, List.mem_append, List.mem_singleton] at hcall
      rcases hcall with hcall | rfl
      · exact h.calls j call' hcall
      · exact ⟨page, hpage⟩
    · rw [calls_called_of_ne hj] at hcall
      exact h.calls j call' hcall

/-- The other threads notice nothing, and what is kept of the address space is kept. -/
theorem unseen_of_thread (h : Ok i shared frame) (hact : Thread i shared frame shared' frame')
    (hne : j ≠ i) : Unseen j shared shared' := by
  cases hact with
  | mmap hcreated hpc hfree => exact unseen_map (.inl hfree) hne _
  | store hpc hstmt hmapping hwrite =>
      obtain ⟨page, rfl, -⟩ := h.mapping_eq hpc hmapping
      exact unseen_map (.inr ⟨page, hmapping⟩) hne _
  | call hpc hstmt hmapping hexec hexecutable => exact unseen_called hne _
  | mprotect hpc hstmt hmapping =>
      obtain ⟨page, rfl, -⟩ := h.mapping_eq hpc hmapping
      exact unseen_map (.inr ⟨page, hmapping⟩) hne _
  | printf hpc =>
      refine ⟨fun _ _ => Iff.rfl, rfl, ?_, rfl⟩
      rw [writtenBy_snoc, if_neg hne.symm, List.append_nil]
  | again hpc hround => exact ⟨fun _ _ => Iff.rfl, rfl, rfl, rfl⟩
  | ret hpc hround => exact ⟨fun _ _ => Iff.rfl, rfl, rfl, Function.update_of_ne hne ..⟩

theorem kept_of_thread (hkept : Kept init shared) (h : Ok i shared frame)
    (hact : Thread i shared frame shared' frame') : Kept init shared' := by
  cases hact with
  | mmap hcreated hpc hfree => exact hkept.map (.inl hfree) _
  | store hpc hstmt hmapping hwrite =>
      obtain ⟨page, rfl, -⟩ := h.mapping_eq hpc hmapping
      exact hkept.map (.inr ⟨page, hmapping⟩) _
  | call hpc hstmt hmapping hexec hexecutable =>
      obtain ⟨page, rfl, -⟩ := h.mapping_eq hpc hmapping
      exact hkept.called hmapping
  | mprotect hpc hstmt hmapping =>
      obtain ⟨page, rfl, -⟩ := h.mapping_eq hpc hmapping
      exact hkept.map (.inr ⟨page, hmapping⟩) _
  | printf hpc => exact ⟨hkept.init, hkept.calls⟩
  | again hpc hround => exact hkept
  | ret hpc hround => exact ⟨hkept.init, hkept.calls⟩

/-! ### The statements of a thread keep its assertion -/

theorem Ok.working (h : Ok i shared frame) (hpc : frame.pc = .body k r) :
    Working i shared frame k r := by
  have hat := h.position
  rwa [At, hpc] at hat

theorem Ok.of_working (hmade : AllMade (shared.calls i) frame.code)
    (howned : ∀ addr page, shared.pages addr = some ⟨some i, page⟩ → addr = frame.code)
    (hpc : frame.pc = .body k r) (hworking : Working i shared frame k r) :
    Ok i shared frame where
  made := hmade
  owned := fun addr page hpage => ⟨by rw [hpc]; simp, howned addr page hpage⟩
  position := by
    rw [At, hpc]
    exact hworking

theorem Ok.mmap (h : Ok i shared frame) (hpc : frame.pc = .mmap) :
    Ok i (shared.map addr ⟨some i, rwx, fun _ => 0⟩)
      { frame with pc := .body 0 0, code := addr } := by
  have hwaiting := h.position
  rw [At, hpc] at hwaiting
  refine Ok.of_working ?_ ?_ rfl ?_
  · intro m call hcall
    have hnone : (shared.calls i)[m]? = some call := hcall
    simp [hwaiting.made] at hnone
  · intro addr' page hpage
    by_contra haddr
    rw [pages_map_of_ne haddr] at hpage
    exact (h.owned addr' page hpage).1 hpc
  · exact {
      round := by decide
      statement := by decide
      page := ⟨_, pages_map_self .., pageAt_mapped⟩
      made := congrArg List.length hwaiting.made
      values := fun c hc => absurd hc (Nat.not_lt_zero c)
      printed := hwaiting.printed
      running := hwaiting.running }

/-- A statement that changes the page, or nothing at all. -/
theorem Working.map {page : Page} (h : Working i shared frame k r) {stmt : Smc.Stmt}
    (hstmt : Smc.body[r]? = some stmt) (hcall : isCall stmt = false)
    (hat : PageAt page (r + 1)) :
    Working i (shared.map frame.code ⟨some i, page⟩) { frame with pc := .body k (r + 1) } k
      (r + 1) := by
  have hlt := (body_of_smc_body hstmt).1
  have hbefore : callsBefore (r + 1) = callsBefore r := by
    rw [callsBefore_succ hstmt, hcall]
    rfl
  have hlines : r + 1 - 17 = r - 17 := by omega
  exact {
    round := h.round
    statement := by omega
    page := ⟨page, pages_map_self .., by rwa [Nat.min_eq_left (by omega)]⟩
    made := hbefore ▸ h.made
    values := hbefore ▸ h.values
    printed := hlines ▸ h.printed
    running := h.running }

theorem Ok.map {page' : Page} (h : Ok i shared frame) (hpc : frame.pc = .body k r) {stmt : Smc.Stmt}
    (hstmt : Smc.body[r]? = some stmt) (hcall : isCall stmt = false)
    (hat : PageAt page' (r + 1)) :
    Ok i (shared.map frame.code ⟨some i, page'⟩) { frame with pc := .body k (r + 1) } := by
  refine Ok.of_working h.made ?_ rfl ((h.working hpc).map hstmt hcall hat)
  intro addr page hpage
  by_contra haddr
  rw [pages_map_of_ne haddr] at hpage
  exact haddr (h.owned addr page hpage).2

/-- Whatever the call executes, it was found by a call of the same thread. -/
theorem Kept.found {executed : List Byte} (h : Kept init shared)
    (hpage : shared.pages frame.code = some ⟨some i, page⟩)
    (hexecutable : Executable shared frame.code page.fn executed) :
    executed = page.fn ∨ ∃ call' ∈ shared.calls i, executed = call'.current := by
  refine hexecutable.imp_right ?_
  rintro ⟨j, call', hmem, haddr, heq⟩
  obtain ⟨page', hpage'⟩ := h.calls j call' hmem
  rw [haddr, hpage] at hpage'
  obtain rfl : i = j := by simpa using congrArg (Option.map Mapping.owner) hpage'
  exact ⟨call', hmem, heq⟩

theorem Ok.called {c : Fin 4} {executed : List Byte} (hkept : Kept init shared)
    (h : Ok i shared frame) (hpc : frame.pc = .body k r)
    (hstmt : Smc.body[r]? = some (.call c))
    (hpage : shared.pages frame.code = some ⟨some i, page⟩) (hat : PageAt page (min r 17))
    (hexecutable : Executable shared frame.code page.fn executed) :
    Ok i (shared.called i ⟨frame.code, page.fn, executed⟩)
      { frame with
        pc := .body k (r + 1)
        e := Function.update frame.e c (immediate executed) } := by
  obtain ⟨hlt, hbody⟩ := body_of_smc_body hstmt
  have hworking := h.working hpc
  have hbefore := callsBefore_of_call r hlt c hstmt
  have hafter : callsBefore (r + 1) = c + 1 := by
    rw [callsBefore_succ hstmt, hbefore]
    rfl
  have hlength : (shared.calls i).length = 4 * k + c := hbefore ▸ hworking.made
  rw [Nat.min_eq_left hlt.le] at hat
  refine Ok.of_working ?_ (fun addr page hpage => (h.owned addr page hpage).2) rfl ?_
  · rw [calls_called]
    refine h.made.snoc rfl ?_ (hkept.found hpage hexecutable)
    rw [hlength, versionAt_round]
    exact hat.fn_eq hbody
  · exact {
      round := hworking.round
      statement := by omega
      page := ⟨page, hpage, by
        rw [Nat.min_eq_left (by omega)]
        exact hat.called hbody⟩
      made := by rw [calls_called, List.length_append, hlength, hafter]; rfl
      values := by
        intro c' hc' call hcall
        rw [calls_called] at hcall
        rw [hafter] at hc'
        by_cases hc : c' = c
        · subst hc
          obtain rfl : _ = call := by simpa [← hlength] using hcall
          exact Function.update_self ..
        · have hlt' : c'.val < c := by omega
          rw [List.getElem?_append_left (by omega)] at hcall
          exact (Function.update_of_ne hc ..).trans
            (hworking.values c' (by omega) call hcall)
      printed := by
        have hlines : r + 1 - 17 = r - 17 := by omega
        rw [calls_called, reports_snoc, hlines, List.take_append_of_le_length]
        · exact hworking.printed
        · rw [reports, List.length_mapIdx, hlength]
          omega
      running := hworking.running }

theorem Working.length_of_printf (h : Working i shared frame k r) (hle : 17 ≤ r) :
    (shared.calls i).length = 4 * k + 4 := by
  rw [h.made, callsBefore_of_printf r h.statement hle]

/-- The line is the report of the call it is about. -/
theorem Ok.line_eq {c : Fin 4} (h : Ok i shared frame) (hpc : frame.pc = .body k (17 + c)) :
    (reports (shared.calls i))[4 * k + c]? = some (line frame.e c) := by
  have hworking := h.working hpc
  have hlength := hworking.length_of_printf (Nat.le_add_right 17 c)
  have hlt : 4 * k + c < (shared.calls i).length := by omega
  have hcall := List.getElem?_eq_getElem hlt
  have hbefore : c.val < callsBefore (17 + c) := by
    rw [callsBefore_of_printf _ (by omega) (Nat.le_add_right 17 c)]
    exact c.isLt
  rw [reports, List.getElem?_mapIdx, hcall, Option.map_some,
    h.made.line_eq hcall (hworking.values c hbefore _ hcall)]

theorem Ok.printf {c : Fin 4} (h : Ok i shared frame) (hpc : frame.pc = .body k (17 + c)) :
    Ok i { shared with output := shared.output ++ [(i, line frame.e c)] }
      { frame with pc := .body k (17 + c + 1) } := by
  have hworking := h.working hpc
  have hbefore : ∀ r ≤ 21, 17 ≤ r → callsBefore (17 + c) = callsBefore r := by
    intro r hr hle
    rw [callsBefore_of_printf r hr hle, callsBefore_of_printf _ (by omega) (by omega)]
  have hnext := hbefore (17 + c + 1) (by omega) (by omega)
  have hmin : ∀ r, 17 ≤ r → min r 17 = 17 := fun r hr => Nat.min_eq_right hr
  refine Ok.of_working h.made (fun addr page hpage => (h.owned addr page hpage).2) rfl ?_
  obtain ⟨page, hpage, hat⟩ := hworking.page
  exact {
    round := hworking.round
    statement := by omega
    page := ⟨page, hpage, by rwa [hmin _ (by omega)] at hat ⊢⟩
    made := hnext ▸ hworking.made
    values := hnext ▸ hworking.values
    printed := by
      have hlines : 4 * k + (17 + c.val + 1 - 17) = 4 * k + c + 1 := by omega
      have hlines' : 4 * k + (17 + c.val - 17) = 4 * k + c := by omega
      have hprinted := hworking.printed
      rw [hlines'] at hprinted
      rw [writtenBy_snoc, if_pos rfl, hprinted, hlines, List.take_add_one, h.line_eq hpc]
      rfl
    running := hworking.running }

theorem Ok.again (h : Ok i shared frame) (hpc : frame.pc = .body k 21) (hround : k + 1 < 100) :
    Ok i shared { frame with pc := .body (k + 1) 0 } := by
  have hworking := h.working hpc
  refine Ok.of_working h.made (fun addr page hpage => (h.owned addr page hpage).2) rfl ?_
  obtain ⟨page, hpage, hat⟩ := hworking.page
  exact {
    round := hround
    statement := by decide
    page := ⟨page, hpage, hat.again⟩
    made := hworking.length_of_printf (by decide)
    values := fun c hc => absurd hc (Nat.not_lt_zero c)
    printed := hworking.printed
    running := hworking.running }

theorem Ok.ret (h : Ok i shared frame) (hpc : frame.pc = .body k 21) (hround : ¬k + 1 < 100) :
    Ok i { shared with ended := Function.update shared.ended i true }
      { frame with pc := .ended } where
  made := h.made
  owned := fun addr page hpage => ⟨by simp, (h.owned addr page hpage).2⟩
  position := by
    have hworking := h.working hpc
    have hk := hworking.round
    have hlength := hworking.length_of_printf (by decide)
    obtain ⟨page, hpage, -⟩ := hworking.page
    refine ⟨⟨page, hpage⟩, hlength.trans (by omega), ?_, Function.update_self ..⟩
    have hprinted := hworking.printed
    rw [List.take_of_length_le (by rw [reports, List.length_mapIdx, hlength])] at hprinted
    exact hprinted

theorem Ok.thread (hkept : Kept init shared) (h : Ok i shared frame)
    (hact : Thread i shared frame shared' frame') : Ok i shared' frame' := by
  cases hact with
  | mmap hcreated hpc hfree => exact h.mmap hpc
  | store hpc hstmt hmapping hwrite =>
      obtain ⟨hlt, hbody⟩ := body_of_smc_body hstmt
      obtain ⟨page, rfl, hat⟩ := h.mapping_eq hpc hmapping
      rw [Nat.min_eq_left hlt.le] at hat
      exact h.map hpc hstmt rfl (hat.store hbody)
  | call hpc hstmt hmapping hexec hexecutable =>
      obtain ⟨page, rfl, hat⟩ := h.mapping_eq hpc hmapping
      exact h.called hkept hpc hstmt hmapping hat hexecutable
  | mprotect hpc hstmt hmapping =>
      obtain ⟨hlt, hbody⟩ := body_of_smc_body hstmt
      obtain ⟨page, rfl, hat⟩ := h.mapping_eq hpc hmapping
      rw [Nat.min_eq_left hlt.le] at hat
      exact h.map hpc hstmt rfl (hat.mprotect hbody)
  | printf hpc => exact h.printf hpc
  | again hpc hround => exact h.again hpc hround
  | ret hpc hround => exact h.ret hpc hround

/-! ### All threads -/

/-- Where `main` is, the threads are created up to there, and have ended up to there. -/
def MainOk (shared : Shared n) : MainPc → Prop
  | .create k => k ≤ n ∧ shared.created = k
  | .join k => k ≤ n ∧ shared.created = n ∧ ∀ i : Fin n, i < k → shared.ended i = true
  | .returned => shared.created = n ∧ ∀ i, shared.ended i = true

def assertion (init : Pages) : (who : Who n) → Shared n → Local who → Prop
  | none => fun shared pc => Kept init shared ∧ MainOk shared pc
  | some i => fun shared frame => Kept init shared ∧ Ok i shared frame

theorem created_of_thread (hact : Thread i shared frame shared' frame') :
    shared'.created = shared.created := by
  cases hact <;> rfl

theorem ended_of_thread (hact : Thread i shared frame shared' frame')
    (hended : shared.ended j = true) : shared'.ended j = true := by
  cases hact with
  | ret hpc hround =>
      by_cases hj : j = i
      · exact hj ▸ Function.update_self ..
      · exact (Function.update_of_ne hj ..).trans hended
  | _ => exact hended

theorem MainOk.main {pc pc' : MainPc} (h : MainOk shared pc) (hact : Main shared pc shared' pc') :
    MainOk shared' pc' := by
  cases hact with
  | create hlt => exact ⟨hlt, rfl⟩
  | created => exact ⟨Nat.zero_le n, h.2, fun i hi => absurd hi (Nat.not_lt_zero i)⟩
  | join hended =>
      rename_i k
      refine ⟨k.isLt, h.2.1, fun i hi => ?_⟩
      rcases Nat.lt_succ_iff_lt_or_eq.mp hi with hlt | heq
      · exact h.2.2 i hlt
      · rwa [Fin.ext heq]
  | ret => exact ⟨h.2.1, fun i => h.2.2 i i.isLt⟩

theorem MainOk.thread {pc : MainPc} (h : MainOk shared pc)
    (hact : Thread i shared frame shared' frame') : MainOk shared' pc := by
  have hcreated := created_of_thread hact
  cases pc with
  | create k => exact ⟨h.1, hcreated.trans h.2⟩
  | join k =>
      exact ⟨h.1, hcreated.trans h.2.1, fun j hj => ended_of_thread hact (h.2.2 j hj)⟩
  | returned => exact ⟨hcreated.trans h.1, fun j => ended_of_thread hact (h.2 j)⟩

/-- `main` changes nothing but the number of threads created. -/
theorem main_eq {pc pc' : MainPc} (hact : Main shared pc shared' pc') :
    shared' = { shared with created := shared'.created } := by
  cases hact <;> rfl

theorem Kept.main {pc pc' : MainPc} (h : Kept init shared) (hact : Main shared pc shared' pc') :
    Kept init shared' := by
  rw [main_eq hact]
  exact ⟨h.init, h.calls⟩

theorem unseen_of_main {pc pc' : MainPc} (hact : Main shared pc shared' pc') (i : Fin n) :
    Unseen i shared shared' := by
  rw [main_eq hact]
  exact ⟨fun _ _ => Iff.rfl, rfl, rfl, rfl⟩

theorem outline (init : Pages) : Outline (program (n := n)) (assertion init) where
  kept := by
    rintro (_ | i) shared loc shared' loc' ⟨hkept, hok⟩ hact
    · exact ⟨hkept.main hact, hok.main hact⟩
    · exact ⟨kept_of_thread hkept hok hact, hok.thread hkept hact⟩
  undisturbed := by
    rintro (_ | i) (_ | j) shared loc other shared' loc' hne ⟨hkept, hok⟩ ⟨-, hother⟩ hact
    · exact absurd rfl hne
    · exact ⟨hkept.main hact, hother.unseen (unseen_of_main hact j)⟩
    · exact ⟨kept_of_thread hkept hok hact, hother.thread hact⟩
    · refine ⟨kept_of_thread hkept hok hact, hother.unseen (unseen_of_thread hok hact ?_)⟩
      rintro rfl
      exact hne rfl

theorem assertion_start (init : Pages) (who : Who n) :
    assertion init who (start n init).shared ((start n init).locals who) := by
  have hkept : Kept init (start n init).shared := by
    refine ⟨fun addr page => ?_, fun i call hcall => ?_⟩
    · simp [start]
    · cases hcall
  cases who with
  | none => exact ⟨hkept, Nat.zero_le n, rfl⟩
  | some i =>
      refine ⟨hkept, ?_, ?_, rfl, rfl, rfl⟩
      · intro m call hcall
        simp [start] at hcall
      · intro addr page hpage
        simp [start] at hpage

def frameOf (s : State n) (i : Fin n) : Frame := s.locals (some i)

/-- The threads have pages of their own, where nothing was mapped, beside those that the process
had. All calls of a thread are of its four functions in turn, and execute that or what an earlier
call of the same thread found; its lines report on its calls in their order, and tell exactly which
of them executed something else. -/
structure Orderly (init : Pages) (s : State n) : Prop where
  fresh : ∀ i, (frameOf s i).pc ≠ .mmap → init (frameOf s i).code = none
  apart : ∀ i j, i ≠ j → (frameOf s i).pc ≠ .mmap → (frameOf s j).pc ≠ .mmap →
    (frameOf s i).code ≠ (frameOf s j).code
  kept : ∀ addr page, init addr = some page → s.shared.pages addr = some ⟨none, page⟩
  made : ∀ i, AllMade (s.shared.calls i) (frameOf s i).code
  printed : ∀ i, writtenBy i s.shared.output <+: reports (s.shared.calls i)

theorem Ok.page_of_pc (h : Ok i shared frame) (hpc : frame.pc ≠ .mmap) :
    ∃ page, shared.pages frame.code = some ⟨some i, page⟩ := by
  have hat := h.position
  rw [At] at hat
  cases hpc' : frame.pc with
  | mmap => exact absurd hpc' hpc
  | body k r =>
      rw [hpc'] at hat
      obtain ⟨page, hpage, -⟩ := hat.page
      exact ⟨page, hpage⟩
  | ended =>
      rw [hpc'] at hat
      exact hat.page

theorem Ok.printed (h : Ok i shared frame) :
    writtenBy i shared.output <+: reports (shared.calls i) := by
  have hat := h.position
  rw [At] at hat
  cases hpc : frame.pc with
  | mmap =>
      rw [hpc] at hat
      rw [hat.printed]
      exact List.nil_prefix
  | body k r =>
      rw [hpc] at hat
      rw [hat.printed]
      exact List.take_prefix _ _
  | ended =>
      rw [hpc] at hat
      rw [hat.printed]

/-! ### The end -/

/-- The statements that a thread has still to execute. -/
def Frame.left (frame : Frame) : Nat :=
  match frame.pc with
  | .mmap => 2201
  | .body k r => 22 * (99 - k) + (22 - r)
  | .ended => 0

def MainPc.left (n : Nat) : MainPc → Nat
  | .create k => n - k + (n + 2)
  | .join k => n - k + 1
  | .returned => 0

def left (n : Nat) : (who : Who n) → Local who → Nat
  | none => MainPc.left n
  | some _ => Frame.left

theorem left_of_body (hpc : frame.pc = .body k r) : frame.left = 22 * (99 - k) + (22 - r) := by
  rw [Frame.left, hpc]

theorem left_of_main {pc pc' : MainPc} (hact : Main shared pc shared' pc') :
    pc'.left n + 1 = pc.left n := by
  cases hact with
  | join hended =>
      rename_i i
      have hi := i.isLt
      simp only [MainPc.left]
      omega
  | _ =>
      simp only [MainPc.left]
      omega

theorem left_of_thread (h : Ok i shared frame) (hact : Thread i shared frame shared' frame') :
    frame'.left + 1 = frame.left := by
  have hnext : ∀ {k r : Nat} {pc : Frame}, frame.pc = .body k r → r < 21 →
      pc.pc = .body k (r + 1) → pc.left + 1 = frame.left := by
    intro k r next hpc hlt hnext
    rw [left_of_body hpc, left_of_body hnext]
    omega
  have hlt : ∀ {r : Nat} {stmt : Smc.Stmt}, Smc.body[r]? = some stmt → r < 21 :=
    fun hstmt => (body_of_smc_body hstmt).1.trans (by decide)
  cases hact with
  | mmap hcreated hpc hfree =>
      rw [Frame.left, Frame.left, hpc]
  | store hpc hstmt hmapping hwrite => exact hnext hpc (hlt hstmt) rfl
  | call hpc hstmt hmapping hexec hexecutable => exact hnext hpc (hlt hstmt) rfl
  | mprotect hpc hstmt hmapping => exact hnext hpc (hlt hstmt) rfl
  | printf hpc => exact hnext hpc (by omega) rfl
  | again hpc hround =>
      simp only [Frame.left, hpc]
      omega
  | ret hpc hround =>
      have hk := (h.working hpc).round
      simp only [Frame.left, hpc]
      omega

theorem counts (init : Pages) : Counts (program (n := n)) (assertion init) (left n) := by
  rintro (_ | i) shared loc shared' loc' ⟨-, hok⟩ hact
  · exact left_of_main hact
  · exact left_of_thread hok hact

/-- While a thread has not mapped a page, the others have not used up as many as there are
threads. -/
theorem exists_free {free : Fin n → Addr} (hfree : Function.Injective free)
    (hinit : ∀ j, init (free j) = none) (hkept : Kept init shared) {frames : Fin n → Frame}
    (hok : ∀ j, Ok j shared (frames j)) (hi : (frames i).pc = .mmap) :
    ∃ addr, shared.pages addr = none := by
  by_contra hfull
  have howner : ∀ j, ∃ m page, shared.pages (free j) = some ⟨some m, page⟩ := by
    intro j
    obtain ⟨⟨owner, page⟩, hpage⟩ := Option.ne_none_iff_exists'.mp fun h => hfull ⟨free j, h⟩
    cases owner with
    | none =>
        rw [hkept.init, hinit j] at hpage
        cases hpage
    | some m => exact ⟨m, page, hpage⟩
  choose owner page hpage using howner
  have hinjective : Function.Injective owner := by
    intro j j' heq
    have hj := ((hok _).owned _ _ (hpage j)).2
    have hj' := ((hok _).owned _ _ (hpage j')).2
    rw [heq] at hj
    exact hfree (hj.trans hj'.symm)
  obtain ⟨j, rfl⟩ := Finite.surjective_of_injective hinjective i
  exact ((hok _).owned _ _ (hpage j)).1 hi

/-- A thread that was created and has not ended can go on, and so meets no fault. -/
theorem exists_thread (h : Ok i shared frame) (hcreated : i < shared.created)
    (hroom : frame.pc = .mmap → ∃ addr, shared.pages addr = none) (hpc : frame.pc ≠ .ended) :
    ∃ shared' frame', Thread i shared frame shared' frame' := by
  cases hpc' : frame.pc with
  | mmap =>
      obtain ⟨addr, hfree⟩ := hroom hpc'
      exact ⟨_, _, .mmap hcreated hpc' hfree⟩
  | ended => exact absurd hpc' hpc
  | body k r =>
      have hworking := h.working hpc'
      obtain ⟨page, hpage, hat⟩ := hworking.page
      by_cases hr : r < 17
      · rw [Nat.min_eq_left hr.le] at hat
        have hstmt : Smc.body[r]? = some Smc.body[r] := List.getElem?_eq_getElem hr
        obtain ⟨-, hbody⟩ := body_of_smc_body hstmt
        cases heq : Smc.body[r] with
        | store b value =>
            rw [heq] at hstmt hbody
            have hwrite := write_of_store r (by omega) b value hbody
            exact ⟨_, _, .store hpc' hstmt hpage (hat.prot ▸ hwrite)⟩
        | call c =>
            rw [heq] at hstmt hbody
            have hexec := exec_of_call r (by omega) c hbody
            exact ⟨_, _, .call hpc' hstmt hpage (hat.prot ▸ hexec) (.inl rfl)⟩
        | mprotect prot =>
            rw [heq] at hstmt
            exact ⟨_, _, .mprotect hpc' hstmt hpage⟩
      · rcases Nat.lt_or_eq_of_le hworking.statement with hlt | rfl
        · have hc : 17 + (⟨r - 17, by omega⟩ : Fin 4).val = r := by
            change 17 + (r - 17) = r
            omega
          exact ⟨_, _, .printf (hpc'.trans (congrArg (Pc.body k) hc.symm))⟩
        · by_cases hround : k + 1 < 100
          · exact ⟨_, _, .again hpc' hround⟩
          · exact ⟨_, _, .ret hpc' hround⟩

/-- Unless `main` has returned, it or a thread it waits for can go on. -/
theorem exists_step {s : State n} {free : Fin n → Addr} (hfree : Function.Injective free)
    (hinit : ∀ j, init (free j) = none) (hall : ∀ who, assertion init who s.shared (s.locals who))
    (hmain : s.locals none ≠ .returned) : ∃ who next, Step program s who next := by
  have hok : ∀ j, Ok j s.shared (frameOf s j) := fun j => (hall (some j)).2
  obtain ⟨hkept, hposition⟩ := hall none
  have hnext : ∀ {shared pc}, Main s.shared (s.locals none) shared pc →
      ∃ who next, Step program s who next := fun hact => ⟨none, _, .mk hact⟩
  cases hpc : s.locals none with
  | create k =>
      rw [hpc] at hnext hposition
      rcases Nat.lt_or_eq_of_le hposition.1 with hlt | rfl
      · exact hnext (.create hlt)
      · exact hnext .created
  | join k =>
      rw [hpc] at hnext hposition
      obtain ⟨hle, hcreated, -⟩ := hposition
      rcases Nat.lt_or_eq_of_le hle with hlt | rfl
      · cases hended : s.shared.ended ⟨k, hlt⟩ with
        | true => exact hnext (.join (k := ⟨k, hlt⟩) hended)
        | false =>
            have hnot : (frameOf s ⟨k, hlt⟩).pc ≠ .ended := by
              intro hpc
              have hat := (hok ⟨k, hlt⟩).position
              rw [At, hpc] at hat
              exact absurd (hended.symm.trans hat.ended) (by decide)
            have hstarted : k < s.shared.created := hlt.trans_eq hcreated.symm
            obtain ⟨shared, frame, hact⟩ := exists_thread (hok ⟨k, hlt⟩) hstarted
              (exists_free hfree hinit hkept hok) hnot
            exact ⟨some ⟨k, hlt⟩, _, .mk hact⟩
      · exact hnext .ret
  | returned => exact absurd hpc hmain

theorem Ok.ended_of_flag (h : Ok i shared frame) (hended : shared.ended i = true) :
    Ended i shared frame ∧ frame.pc = .ended := by
  have hat := h.position
  rw [At] at hat
  cases hpc : frame.pc with
  | mmap =>
      rw [hpc] at hat
      cases hended.symm.trans hat.running
  | body k r =>
      rw [hpc] at hat
      cases hended.symm.trans hat.running
  | ended =>
      rw [hpc] at hat
      exact ⟨hat, rfl⟩

theorem not_thread_of_ended (hpc : frame.pc = .ended) :
    ¬Thread i shared frame shared' frame' := by
  intro hact
  cases hact <;> simp_all

theorem stuck_of_returned {s : State n}
    (hall : ∀ who, assertion init who s.shared (s.locals who)) (hmain : s.locals none = .returned) :
    Stuck (Step program) s := by
  rintro who next ⟨hact⟩
  cases who with
  | none =>
      rw [hmain] at hact
      cases hact
  | some i =>
      have hposition := (hall none).2
      rw [hmain] at hposition
      exact not_thread_of_ended ((hall (some i)).2.ended_of_flag (hposition.2 i)).2 hact

theorem sum_left_start (n : Nat) (init : Pages) :
    ∑ who, left n who ((start n init).locals who) = 2203 * n + 2 := by
  have hmain : left n none ((start n init).locals none) = n - 0 + (n + 2) := rfl
  have hthreads : ∑ i : Fin n, left n (some i) ((start n init).locals (some i)) = n * 2201 := by
    have hsum := Finset.sum_const_nat (s := Finset.univ) (m := 2201) (f := fun i : Fin n =>
      left n (some i) ((start n init).locals (some i))) fun _ _ => rfl
    rw [hsum, Finset.card_univ, Fintype.card_fin]
  rw [Fintype.sum_option, hmain, hthreads]
  omega

/-- When `main` has returned, no statement is left to execute. -/
theorem ended_of_returned {s : State n}
    (hall : ∀ who, assertion init who s.shared (s.locals who)) (hmain : s.locals none = .returned)
    (i : Fin n) : Ended i s.shared (frameOf s i) ∧ (frameOf s i).pc = .ended := by
  have hposition := (hall none).2
  rw [hmain] at hposition
  exact (hall (some i)).2.ended_of_flag (hposition.2 i)

theorem sum_left_returned {s : State n}
    (hall : ∀ who, assertion init who s.shared (s.locals who)) (hmain : s.locals none = .returned) :
    ∑ who, left n who (s.locals who) = 0 := by
  rw [Fintype.sum_option, hmain]
  refine Nat.add_eq_zero_iff.mpr ⟨rfl, Finset.sum_eq_zero fun i _ => ?_⟩
  change (frameOf s i).left = 0
  rw [Frame.left, (ended_of_returned hall hmain i).2]

theorem length_run {labels : List (Who n)} {s : State n}
    (hrun : Run (Step program) (start n init) labels s) :
    labels.length + ∑ who, left n who (s.locals who) = 2203 * n + 2 := by
  rw [← sum_left_start n init]
  exact (outline init).length_run (counts init) hrun (assertion_start init)

theorem returned_of_stuck {s : State n} {free : Fin n → Addr} (hfree : Function.Injective free)
    (hinit : ∀ j, init (free j) = none)
    (hall : ∀ who, assertion init who s.shared (s.locals who)) (hstuck : Stuck (Step program) s) :
    s.locals none = .returned := by
  by_contra hmain
  obtain ⟨who, next, hstep⟩ := exists_step hfree hinit hall hmain
  exact hstuck who next hstep

/-- Some run comes to the end of `main`. -/
theorem exists_returned (init : Pages) (free : Fin n → Addr) (hfree : Function.Injective free)
    (hinit : ∀ j, init (free j) = none) :
    ∃ labels s, Run (Step program) (start n init) labels s ∧ s.locals none = .returned
      ∧ ∀ i, Ended i s.shared (frameOf s i) ∧ (frameOf s i).pc = .ended := by
  have hbound : ∀ labels s, Run (Step program) (start n init) labels s →
      labels.length ≤ 2203 * n + 2 := by
    intro labels s hrun
    rw [← length_run hrun]
    exact Nat.le_add_right _ _
  obtain ⟨labels, s, hrun, hstuck⟩ := Run.exists_stuck hbound
  have hall := (outline init).run hrun (assertion_start init)
  have hmain := returned_of_stuck hfree hinit hall hstuck
  exact ⟨labels, s, hrun, hmain, ended_of_returned hall hmain⟩

/-- The threads report on their calls, in every interleaving and whatever stale translations the
machine keeps. -/
theorem threads_report (n : Nat) (init : Pages) (labels : List (Who n)) (s : State n)
    (hrun : Run (Step program) (start n init) labels s) : Orderly init s := by
  have hall := (outline init).run hrun (assertion_start init)
  have hok : ∀ i, Ok i s.shared (frameOf s i) := fun i => (hall (some i)).2
  have hkept := (hall none).1
  refine ⟨?_, ?_, ?_, fun i => (hok i).made, fun i => (hok i).printed⟩
  · intro i hi
    obtain ⟨page, hpage⟩ := (hok i).page_of_pc hi
    by_contra hnone
    obtain ⟨page', hinit⟩ := Option.ne_none_iff_exists'.mp hnone
    rw [(hkept.init _ _).mpr hinit] at hpage
    simp at hpage
  · intro i j hne hi hj hcode
    obtain ⟨page, hpage⟩ := (hok i).page_of_pc hi
    obtain ⟨page', hpage'⟩ := (hok j).page_of_pc hj
    rw [hcode, hpage'] at hpage
    exact hne (by simpa using (congrArg (Option.map Mapping.owner) hpage).symm)
  · exact fun addr page hinit => (hkept.init addr page).mpr hinit

/-- Two threads at the end of `main`, in a process that has a page of its own: each has made all its
calls and printed all its lines. -/
theorem threads_report_two :
    ∃ labels s, Run (Step program) (start 2 fun addr =>
        if addr = 0x5000 then some ⟨rx, fun _ => 0xC3⟩ else none) labels s
      ∧ (∀ i, (frameOf s i).pc ≠ .mmap ∧ (s.shared.calls i).length = 400
        ∧ (writtenBy i s.shared.output).length = 400)
      ∧ Orderly (fun addr => if addr = 0x5000 then some ⟨rx, fun _ => 0xC3⟩ else none) s := by
  let free : Fin 2 → Addr := fun i => BitVec.ofNat 64 i.val
  have hfree : Function.Injective free := by decide
  have hinit : ∀ j, (if free j = 0x5000 then some (⟨rx, fun _ => 0xC3⟩ : Page) else none) = none :=
    fun j => if_neg (by revert j; decide)
  obtain ⟨labels, s, hrun, -, hended⟩ := exists_returned
    (fun addr => if addr = 0x5000 then some ⟨rx, fun _ => 0xC3⟩ else none) free hfree hinit
  refine ⟨labels, s, hrun, fun i => ?_, threads_report 2 _ labels s hrun⟩
  obtain ⟨hend, hpc⟩ := hended i
  refine ⟨by simp [hpc], hend.made, ?_⟩
  rw [hend.printed, reports, List.length_mapIdx, hend.made]

/-- If there are pages for all threads, none of them ever faults or blocks, they all come to their
end, and only then does `main`. No order of their statements takes more or fewer of these, and each
thread prints its 400 lines. -/
theorem threads_finish (n : Nat) (init : Pages) (free : Fin n → Addr)
    (hfree : Function.Injective free) (hinit : ∀ j, init (free j) = none)
    (labels : List (Who n)) (s : State n) (hrun : Run (Step program) (start n init) labels s) :
    labels.length ≤ 2203 * n + 2
      ∧ (∀ i : Fin n, i < s.shared.created → (frameOf s i).pc ≠ .ended →
        ∃ next, Step program s (some i) next)
      ∧ (Stuck (Step program) s ↔ s.locals none = .returned)
      ∧ (s.locals none = .returned → labels.length = 2203 * n + 2
        ∧ ∀ i, (s.shared.calls i).length = 400
          ∧ writtenBy i s.shared.output = reports (s.shared.calls i)) := by
  have hall := (outline init).run hrun (assertion_start init)
  have hok : ∀ i, Ok i s.shared (frameOf s i) := fun i => (hall (some i)).2
  have hlength := length_run hrun
  refine ⟨by omega, ?_, ⟨returned_of_stuck hfree hinit hall, stuck_of_returned hall⟩, ?_⟩
  · intro i hcreated hpc
    obtain ⟨shared, frame, hact⟩ := exists_thread (hok i) hcreated
      (exists_free hfree hinit (hall none).1 hok) hpc
    exact ⟨_, .mk hact⟩
  · intro hmain
    have hzero := sum_left_returned hall hmain
    have hended := ended_of_returned hall hmain
    exact ⟨by omega, fun i => ⟨(hended i).1.made, (hended i).1.printed⟩⟩

/-- A hundred threads, in a process with an empty address space. -/
theorem threads_finish_hundred :
    ∃ labels s, Run (Step program) (start 100 fun _ => none) labels s
      ∧ s.locals none = .returned ∧ labels.length = 220302
      ∧ ∀ i, writtenBy i s.shared.output = reports (s.shared.calls i) := by
  have hfree : Function.Injective fun i : Fin 100 => BitVec.ofNat 64 i.val := by
    intro i j heq
    have htoNat := congrArg BitVec.toNat heq
    simp only [BitVec.toNat_ofNat] at htoNat
    omega
  have hends : ∀ labels s, Run (Step program) (start 100 fun _ => none) labels s → _ :=
    threads_finish 100 (fun _ => none) _ hfree fun _ => rfl
  obtain ⟨labels, s, hrun, hstuck⟩ := Run.exists_stuck fun labels s hrun => (hends labels s hrun).1
  have hmain := (hends labels s hrun).2.2.1.mp hstuck
  obtain ⟨hlength, hlines⟩ := (hends labels s hrun).2.2.2 hmain
  exact ⟨labels, s, hrun, hmain, hlength, fun i => (hlines i).2⟩

end FexTestBins.SmcMt
