import FexTestBins.Proof.SmcFailureSet
import FexTestBins.SmcMt2

/-!
# When `smc-mt-2` ends

The thread leaves its loop when it has executed the byte of `main`. If `main` makes its store before
the thread has written the function, then the thread undoes it, and both of them go on for ever.
-/

namespace FexTestBins.SmcMt2

open Words SmcSignals Threads Transition

variable {coherent : Bool} {shared shared' : Shared} {executed : List Byte}

theorem bytes_store_self (page : Page) (k : Nat) (value : Byte) :
    (page.store k value).bytes k = value := by
  simp [Page.store]

theorem bytes_store_of_ne {b k : Nat} (hne : b ≠ k) (page : Page) (value : Byte) :
    (page.store k value).bytes b = page.bytes b := by
  simp [Page.store, hne]

/-! ### The assertions -/

/-- The bytes of the function that the thread has written. -/
def ThreadPc.written : ThreadPc → Nat
  | .generating => 0
  | .store k => k
  | _ => 6

/-- Behind the loop. -/
def ThreadPc.Behind : ThreadPc → Prop
  | .exiting => True
  | .ret => True
  | .ended => True
  | _ => False

def ThreadPc.printed : ThreadPc → List Line
  | .generating => []
  | .store _ => [.generatingCode]
  | .waiting => [.generatingCode]
  | .loop => [.generatingCode, .waitingForCode]
  | .exiting => [.generatingCode, .waitingForCode]
  | .ret => [.generatingCode, .waitingForCode, .threadExiting]
  | .ended => [.generatingCode, .waitingForCode, .threadExiting]

def MainPc.printed : MainPc → List Line
  | .create => []
  | .sleep => []
  | .modifying => []
  | .store => [.modifyingCode]
  | .waiting => [.modifyingCode]
  | .sleepAgain => [.modifyingCode, .waitingForThread]
  | .shouldExit => [.modifyingCode, .waitingForThread]
  | .join => [.modifyingCode, .waitingForThread, .shouldExitNow]
  | .returned => [.modifyingCode, .waitingForThread, .shouldExitNow]

/-- Behind the store. -/
def MainPc.patched : MainPc → Bool
  | .create => false
  | .sleep => false
  | .modifying => false
  | .store => false
  | _ => true

structure ThreadOk (shared : Shared) (pc : ThreadPc) : Prop where
  written : pc.written ≤ 6
  bytes : ∀ k < pc.written, k ≠ 3 → code[k]? = some (shared.page.bytes k)
  third : 3 < pc.written →
    shared.page.bytes 3 = 0xCC ∨ shared.page.bytes 3 = 0xFE ∧ shared.patched = true
  calls : ∀ call ∈ shared.calls, 6 ≤ pc.written
    ∧ (call.current = version 0 ∨ call.current = version 1 ∧ shared.page.bytes 3 = 0xFE)
  behind : pc.Behind → shared.page.bytes 3 = 0xFE
  ended : shared.ended = true ↔ pc = .ended
  printed : writtenBy .thread shared.output = pc.printed

structure MainOk (shared : Shared) (pc : MainPc) : Prop where
  created : shared.created = true ↔ pc ≠ .create
  patched : shared.patched = pc.patched
  ended : pc = .returned → shared.ended = true
  printed : writtenBy .main shared.output = pc.printed

def assertion : (who : Who) → Shared → Local who → Prop
  | .main => MainOk
  | .thread => ThreadOk

/-- What is in the page once the function is written. -/
theorem ThreadOk.fn_eq {pc : ThreadPc} (h : ThreadOk shared pc) (hwritten : 6 ≤ pc.written) :
    shared.page.fn = version 0 ∧ shared.page.bytes 3 = 0xCC
      ∨ shared.page.fn = version 1 ∧ shared.page.bytes 3 = 0xFE ∧ shared.patched = true := by
  have hbyte : ∀ k, k < 6 → k ≠ 3 → ∀ value, code[k]? = some value →
      shared.page.bytes k = value := by
    intro k hk hne value hvalue
    exact Option.some.inj ((h.bytes k (by omega) hne).symm.trans hvalue)
  have hfn : ∀ value, shared.page.bytes 3 = value →
      shared.page.fn = [0xB8, 0xAA, 0xBB, value, 0xDD, 0xC3] := by
    intro value hvalue
    simp only [Page.fn, List.range_succ, List.range_zero, List.nil_append, List.cons_append,
      List.map_cons, List.map_nil, hvalue]
    rw [hbyte 0 (by decide) (by decide) _ rfl, hbyte 1 (by decide) (by decide) _ rfl,
      hbyte 2 (by decide) (by decide) _ rfl, hbyte 4 (by decide) (by decide) _ rfl,
      hbyte 5 (by decide) (by decide) _ rfl]
  rcases h.third (by omega) with hthird | ⟨hthird, hpatched⟩
  · exact .inl ⟨hfn _ hthird, hthird⟩
  · exact .inr ⟨hfn _ hthird, hthird, hpatched⟩

theorem ThreadOk.current_eq {pc : ThreadPc} (h : ThreadOk shared pc) (hwritten : 6 ≤ pc.written) :
    shared.page.fn = version 0
      ∨ shared.page.fn = version 1 ∧ shared.page.bytes 3 = 0xFE :=
  (h.fn_eq hwritten).imp And.left fun hpatched => ⟨hpatched.1, hpatched.2.1⟩

theorem ThreadOk.executed_eq {pc : ThreadPc} (h : ThreadOk shared pc) (hwritten : 6 ≤ pc.written)
    (hexecutable : Executable coherent shared executed) :
    executed = version 0 ∨ executed = version 1 ∧ shared.page.bytes 3 = 0xFE := by
  rcases hexecutable with rfl | ⟨-, call, hmem, rfl⟩
  · exact h.current_eq hwritten
  · exact (h.calls call hmem).2

/-! ### They are kept -/

theorem ThreadOk.call {pc pc' : ThreadPc} (h : ThreadOk shared pc) (hwritten : 6 ≤ pc.written)
    (hwritten' : pc'.written = 6) (hbehind : pc'.Behind → shared.page.bytes 3 = 0xFE)
    (hended : pc ≠ .ended) (hended' : pc' ≠ .ended) (hprinted : pc'.printed = pc.printed) :
    ThreadOk (shared.called executed) pc' where
  written := hwritten'.le
  bytes := fun k hk => h.bytes k (by omega)
  third := fun _ => h.third (by omega)
  calls := by
    intro call hmem
    refine ⟨hwritten'.ge, ?_⟩
    rcases List.mem_append.mp hmem with hmem | hmem
    · exact (h.calls call hmem).2
    · obtain rfl := List.mem_singleton.mp hmem
      exact h.current_eq hwritten
  behind := hbehind
  ended := by
    rw [iff_false_right hended']
    exact fun hflag => hended (h.ended.mp hflag)
  printed := hprinted ▸ h.printed

theorem ThreadOk.print {pc pc' : ThreadPc} {line : Line} (h : ThreadOk shared pc)
    (hwritten : pc'.written = pc.written) (hbehind : pc'.Behind → pc.Behind)
    (hended : pc ≠ .ended) (hended' : pc' ≠ .ended)
    (hprinted : pc'.printed = pc.printed ++ [line]) : ThreadOk (shared.print .thread line) pc' where
  written := hwritten ▸ h.written
  bytes := fun k hk => h.bytes k (hwritten ▸ hk)
  third := fun hlt => h.third (hwritten ▸ hlt)
  calls := fun call hmem => hwritten ▸ h.calls call hmem
  behind := fun hpc => h.behind (hbehind hpc)
  ended := by
    rw [iff_false_right hended']
    exact fun hflag => hended (h.ended.mp hflag)
  printed := by
    rw [hprinted, ← h.printed, Shared.print, writtenBy_snoc, if_pos rfl]

theorem ThreadOk.store {k : Nat} {value : Byte} (h : ThreadOk shared (.store k))
    (hvalue : code[k]? = some value) :
    ThreadOk { shared with page := shared.page.store k value } (.store (k + 1)) where
  written := (List.getElem?_eq_some_iff.mp hvalue).1
  bytes := by
    intro b hb hne
    by_cases hbk : b = k
    · rw [hbk, hvalue, bytes_store_self]
    · have hlt : b < k + 1 := hb
      rw [h.bytes b (show b < k by omega) hne, bytes_store_of_ne hbk]
  third := by
    intro hlt
    by_cases hk : k = 3
    · subst hk
      obtain rfl : (0xCC : Byte) = value := by simpa [code] using hvalue
      exact .inl (bytes_store_self ..)
    · have hlt' : 3 < k + 1 := hlt
      rw [bytes_store_of_ne (Ne.symm hk)]
      exact h.third (show 3 < k by omega)
  calls := by
    intro call hmem
    have hle : 6 ≤ k := (h.calls call hmem).1
    have hlt : k < 6 := (List.getElem?_eq_some_iff.mp hvalue).1
    omega
  behind := fun hpc => hpc.elim
  ended := by
    rw [iff_false_right (by simp)]
    exact fun hflag => ThreadPc.noConfusion (h.ended.mp hflag)
  printed := h.printed

theorem immediate_version_zero : immediate (version 0) = 0xDDCCBBAA := by decide

theorem ThreadOk.thread {pc pc' : ThreadPc} (h : ThreadOk shared pc)
    (hact : Thread coherent shared pc shared' pc') : ThreadOk shared' pc' := by
  cases hact with
  | generating hcreated => exact h.print rfl id (by simp) (by simp) rfl
  | store hvalue => exact h.store hvalue
  | call hexecutable => exact h.call le_rfl rfl False.elim (by simp) (by simp) rfl
  | waiting => exact h.print rfl id (by simp) (by simp) rfl
  | again hexecutable hsame => exact h.call le_rfl rfl False.elim (by simp) (by simp) rfl
  | leave hexecutable hother =>
      refine h.call le_rfl rfl (fun _ => ?_) (by simp) (by simp) rfl
      rcases h.executed_eq le_rfl hexecutable with rfl | ⟨-, hthird⟩
      · exact absurd immediate_version_zero hother
      · exact hthird
  | exiting => exact h.print rfl (fun _ => trivial) (by simp) (by simp) rfl
  | ret =>
      exact ⟨h.written, h.bytes, h.third, h.calls, fun _ => h.behind trivial, by simp, h.printed⟩

/-- `main` changes the byte, once, and otherwise nothing that the thread knows of. -/
theorem ThreadOk.main {pc : ThreadPc} {mainPc mainPc' : MainPc} (h : ThreadOk shared pc)
    (hact : Main shared mainPc shared' mainPc') : ThreadOk shared' pc := by
  have hprint : ∀ line, ThreadOk (shared.print .main line) pc := fun line =>
    ⟨h.written, h.bytes, h.third, h.calls, h.behind, h.ended, by
      rw [Shared.print, writtenBy_snoc, if_neg (by decide), List.append_nil, h.printed]⟩
  cases hact with
  | create => exact ⟨h.written, h.bytes, h.third, h.calls, h.behind, h.ended, h.printed⟩
  | sleep => exact h
  | modifying => exact hprint _
  | store =>
      have hthird : (shared.page.store 3 0xFE).bytes 3 = 0xFE := bytes_store_self ..
      refine ⟨h.written, ?_, fun _ => .inr ⟨hthird, rfl⟩, ?_, fun _ => hthird, h.ended, h.printed⟩
      · intro k hk hne
        rw [h.bytes k hk hne, bytes_store_of_ne hne]
      · exact fun call hmem => ⟨(h.calls call hmem).1, (h.calls call hmem).2.imp_right
          fun hversion => ⟨hversion.1, hthird⟩⟩
  | waiting => exact hprint _
  | sleepAgain => exact h
  | shouldExit => exact hprint _
  | join hended => exact h

theorem MainOk.main {pc pc' : MainPc} (h : MainOk shared pc) (hact : Main shared pc shared' pc') :
    MainOk shared' pc' := by
  have hprint : ∀ {pc' line}, pc ≠ .create → pc' ≠ .create → pc' ≠ .returned →
      pc'.patched = pc.patched → pc'.printed = pc.printed ++ [line] →
      MainOk (shared.print .main line) pc' := by
    intro pc' line hcreate hcreate' hreturned hpatched hprinted
    refine ⟨?_, h.patched.trans hpatched.symm, fun hpc => absurd hpc hreturned, ?_⟩
    · exact iff_of_true (h.created.mpr hcreate) hcreate'
    · rw [hprinted, ← h.printed, Shared.print, writtenBy_snoc, if_pos rfl]
  cases hact with
  | create => exact ⟨by simp, h.patched, by simp, h.printed⟩
  | sleep => exact ⟨by simpa using h.created, h.patched, by simp, h.printed⟩
  | modifying => exact hprint (by simp) (by simp) (by simp) rfl rfl
  | store => exact ⟨by simpa using h.created, rfl, by simp, h.printed⟩
  | waiting => exact hprint (by simp) (by simp) (by simp) rfl rfl
  | sleepAgain => exact ⟨by simpa using h.created, h.patched, by simp, h.printed⟩
  | shouldExit => exact hprint (by simp) (by simp) (by simp) rfl rfl
  | join hended => exact ⟨by simpa using h.created, h.patched, fun _ => hended, h.printed⟩

theorem MainOk.thread {pc : MainPc} {threadPc threadPc' : ThreadPc} (h : MainOk shared pc)
    (hact : Thread coherent shared threadPc shared' threadPc') : MainOk shared' pc := by
  have hprint : ∀ line, MainOk (shared.print .thread line) pc := fun line =>
    ⟨h.created, h.patched, h.ended, by
      rw [Shared.print, writtenBy_snoc, if_neg (by decide), List.append_nil, h.printed]⟩
  cases hact with
  | generating hcreated => exact hprint _
  | waiting => exact hprint _
  | exiting => exact hprint _
  | ret => exact ⟨h.created, h.patched, fun _ => rfl, h.printed⟩
  | _ => exact ⟨h.created, h.patched, h.ended, h.printed⟩

theorem outline (coherent : Bool) : Outline (program coherent) assertion where
  kept := by
    rintro (_ | _) shared pc shared' pc' hok hact
    · exact MainOk.main hok hact
    · exact ThreadOk.thread hok hact
  undisturbed := by
    rintro (_ | _) (_ | _) shared pc other shared' pc' hne hok hother hact
    · exact absurd rfl hne
    · exact ThreadOk.main hother hact
    · exact MainOk.thread hother hact
    · exact absurd rfl hne

theorem assertion_start (who : Who) : assertion who start.shared (start.locals who) := by
  cases who with
  | main => exact ⟨by simp [start], rfl, by simp [start], rfl⟩
  | thread =>
      exact ⟨by decide, fun k hk => absurd hk (Nat.not_lt_zero k),
        fun hlt => absurd hlt (by decide), by simp [start], False.elim, by simp [start], rfl⟩

/-! ### The two stores -/

def mainOf (s : State) : MainPc := s.locals .main

def threadOf (s : State) : ThreadPc := s.locals .thread

/-- The byte of `main` has replaced that of the thread. -/
structure Settled (s : State) : Prop where
  patched : s.shared.patched = true
  written : 3 < (threadOf s).written
  byte : s.shared.page.bytes 3 = 0xFE

/-- The byte of the thread has replaced that of `main`, or is going to. -/
def Lost (s : State) : Prop := s.shared.patched = true ∧ ¬Settled s

structure Reached (s : State) : Prop where
  main : MainOk s.shared (mainOf s)
  thread : ThreadOk s.shared (threadOf s)

variable {s next : State} {who : Who}

theorem Reached.step (h : Reached s) (hstep : Step (program coherent) s who next) :
    Reached next := by
  have hall : ∀ who, assertion who s.shared (s.locals who) := by
    rintro (_ | _)
    · exact h.main
    · exact h.thread
  have hnext := (outline coherent).step hall hstep
  exact ⟨hnext .main, hnext .thread⟩

theorem reached_start : Reached start := ⟨assertion_start .main, assertion_start .thread⟩

theorem Reached.run {labels : List Who} (h : Reached s)
    (hrun : Run (Step (program coherent)) s labels next) : Reached next :=
  hrun.invariant Reached (fun _ _ _ h hstep => h.step hstep) h

/-- After its store `main` changes neither the page nor the record. -/
theorem page_of_main {pc pc' : MainPc} (hpatched : pc.patched = true)
    (hact : Main shared pc shared' pc') :
    shared'.page = shared.page ∧ shared'.patched = shared.patched := by
  cases hact <;> first | exact ⟨rfl, rfl⟩ | cases hpatched

theorem patched_of_thread {pc pc' : ThreadPc} (hact : Thread coherent shared pc shared' pc') :
    shared'.patched = shared.patched := by
  cases hact <;> rfl

/-- Only a store to the byte changes it, which is the fourth that the thread makes. -/
theorem byte_of_thread {pc pc' : ThreadPc} (hact : Thread coherent shared pc shared' pc') :
    pc = .store 3 ∧ shared'.page.bytes 3 = 0xCC
      ∨ shared'.page.bytes 3 = shared.page.bytes 3 ∧ (3 < pc'.written ↔ 3 < pc.written) := by
  cases hact with
  | store hvalue =>
      rename_i k value
      by_cases hk : k = 3
      · subst hk
        obtain rfl : (0xCC : Byte) = value := by simpa [code] using hvalue
        exact .inl ⟨rfl, bytes_store_self ..⟩
      · refine .inr ⟨bytes_store_of_ne (Ne.symm hk) .., ?_⟩
        change 3 < k + 1 ↔ 3 < k
        omega
  | _ => exact .inr ⟨rfl, Iff.rfl⟩

theorem settled_step_iff (h : Reached s) (hpatched : s.shared.patched = true)
    (hstep : Step (program coherent) s who next) :
    next.shared.patched = true ∧ (Settled next ↔ Settled s) := by
  cases hstep with
  | mk hact =>
      cases who with
      | main =>
          have hpc : (mainOf s).patched = true := h.main.patched.symm.trans hpatched
          obtain ⟨hpage, hrecord⟩ := page_of_main hpc hact
          refine ⟨hrecord.trans hpatched, fun hsettled => ?_, fun hsettled => ?_⟩
          · exact ⟨hpatched, hsettled.written, hpage ▸ hsettled.byte⟩
          · exact ⟨hrecord.trans hpatched, hsettled.written, hpage ▸ hsettled.byte⟩
      | thread =>
          have hrecord := (patched_of_thread hact).trans hpatched
          refine ⟨hrecord, ?_⟩
          rcases byte_of_thread hact with ⟨hpc, hbyte⟩ | ⟨hbyte, hwritten⟩
          · refine iff_of_false (fun hsettled => ?_) fun hsettled => ?_
            · exact absurd (hbyte.symm.trans hsettled.byte) (by decide)
            · have hlt := hsettled.written
              rw [threadOf, hpc] at hlt
              exact absurd hlt (by decide)
          · constructor
            · intro hsettled
              exact ⟨hpatched, hwritten.mp hsettled.written, hbyte.symm.trans hsettled.byte⟩
            · intro hsettled
              exact ⟨hrecord, hwritten.mpr hsettled.written, hbyte.trans hsettled.byte⟩

/-! ### Going on -/

/-- The statements to the end, if the loop is left at once. -/
def ThreadPc.left : ThreadPc → Nat
  | .generating => 12
  | .store k => 11 - k
  | .waiting => 4
  | .loop => 3
  | .exiting => 2
  | .ret => 1
  | .ended => 0

def MainPc.left : MainPc → Nat
  | .create => 8
  | .sleep => 7
  | .modifying => 6
  | .store => 5
  | .waiting => 4
  | .sleepAgain => 3
  | .shouldExit => 2
  | .join => 1
  | .returned => 0

def left (s : State) : Nat := (mainOf s).left + (threadOf s).left

theorem immediate_version_one : immediate (version 1) ≠ 0xDDCCBBAA := by decide

theorem ThreadOk.fn_of_byte {pc : ThreadPc} (h : ThreadOk shared pc) (hwritten : 6 ≤ pc.written)
    (hbyte : shared.page.bytes 3 = 0xFE) : shared.page.fn = version 1 := by
  rcases h.fn_eq hwritten with ⟨-, hthird⟩ | ⟨hfn, -⟩
  · exact absurd (hthird.symm.trans hbyte) (by decide)
  · exact hfn

/-- The thread can always go on, and comes closer to its end unless it stays in the loop. -/
theorem ThreadOk.exists_thread {pc : ThreadPc} (h : ThreadOk shared pc)
    (hcreated : shared.created = true) (hpc : pc ≠ .ended) :
    ∃ shared' pc', Thread coherent shared pc shared' pc'
      ∧ (pc ≠ .loop ∨ shared.page.bytes 3 = 0xFE → pc'.left < pc.left) := by
  cases pc with
  | generating => exact ⟨_, _, .generating hcreated, fun _ => by decide⟩
  | store k =>
      rcases Nat.lt_or_eq_of_le (show k ≤ 6 from h.written) with hlt | rfl
      · refine ⟨_, _, .store (List.getElem?_eq_getElem hlt), fun _ => ?_⟩
        change 11 - (k + 1) < 11 - k
        omega
      · exact ⟨_, _, .call (.inl rfl), fun _ => by decide⟩
  | waiting => exact ⟨_, _, .waiting, fun _ => by decide⟩
  | loop =>
      by_cases hsame : immediate shared.page.fn = 0xDDCCBBAA
      · refine ⟨_, _, .again (.inl rfl) hsame, ?_⟩
        rintro (hloop | hbyte)
        · exact absurd rfl hloop
        · rw [h.fn_of_byte le_rfl hbyte] at hsame
          exact absurd hsame immediate_version_one
      · exact ⟨_, _, .leave (.inl rfl) hsame, fun _ => by decide⟩
  | exiting => exact ⟨_, _, .exiting, fun _ => by decide⟩
  | ret => exact ⟨_, _, .ret, fun _ => by decide⟩
  | ended => exact absurd rfl hpc

theorem MainOk.created_of_patched {pc : MainPc} (h : MainOk shared pc)
    (hpatched : shared.patched = true) : shared.created = true := by
  refine h.created.mpr ?_
  rintro rfl
  exact absurd (h.patched.symm.trans hpatched) (by decide)

/-- The thread does not leave its loop while it lacks the byte of `main`. -/
theorem Reached.not_behind (h : Reached s) (hsettled : ¬Settled s)
    (hpatched : s.shared.patched = true) : ¬(threadOf s).Behind := by
  intro hbehind
  refine hsettled ⟨hpatched, ?_, h.thread.behind hbehind⟩
  cases hpc : threadOf s with
  | exiting => decide
  | ret => decide
  | ended => decide
  | _ =>
      rw [hpc] at hbehind
      exact hbehind.elim

theorem Reached.not_returned (h : Reached s) (hlost : Lost s) : mainOf s ≠ .returned := by
  intro hmain
  have hended := h.thread.ended.mp (h.main.ended hmain)
  apply h.not_behind hlost.2 hlost.1
  rw [hended]
  trivial

theorem Reached.not_stuck_of_lost (h : Reached s) (hlost : Lost s) :
    ¬Stuck (Step (program coherent)) s := by
  intro hstuck
  have hcreated := h.main.created_of_patched hlost.1
  have hpc : threadOf s ≠ .ended := by
    intro hpc
    apply h.not_behind hlost.2 hlost.1
    rw [hpc]
    trivial
  obtain ⟨shared, pc, hact, -⟩ := h.thread.exists_thread hcreated hpc
  exact hstuck .thread _ (.mk hact)

/-- What is lost stays lost. -/
theorem lost_run {labels : List Who} (h : Reached s) (hlost : Lost s)
    (hrun : Run (Step (program coherent)) s labels next) : Reached next ∧ Lost next := by
  refine hrun.invariant (fun s => Reached s ∧ Lost s) ?_ ⟨h, hlost⟩
  rintro s who next ⟨h, hpatched, hsettled⟩ hstep
  obtain ⟨hpatched', hiff⟩ := settled_step_iff h hpatched hstep
  exact ⟨h.step hstep, hpatched', fun hnext => hsettled (hiff.mp hnext)⟩

theorem left_of_main {pc pc' : MainPc} (hact : Main shared pc shared' pc') :
    pc'.left < pc.left := by
  cases hact <;> decide

theorem left_of_thread {pc pc' : ThreadPc} (h : ThreadOk shared pc)
    (hbyte : shared.page.bytes 3 = 0xFE) (hact : Thread true shared pc shared' pc') :
    pc'.left < pc.left := by
  cases hact with
  | store hvalue =>
      rename_i k value
      have hlt : k < 6 := (List.getElem?_eq_some_iff.mp hvalue).1
      change 11 - (k + 1) < 11 - k
      omega
  | again hexecutable hsame =>
      rcases hexecutable with rfl | ⟨hstale, -⟩
      · rw [h.fn_of_byte le_rfl hbyte] at hsame
        exact absurd hsame immediate_version_one
      · cases hstale
  | _ => decide

theorem left_set_main (s : State) (shared : Shared) (pc : MainPc) :
    left (s.set .main shared pc) = pc.left + (threadOf s).left := rfl

theorem left_set_thread (s : State) (shared : Shared) (pc : ThreadPc) :
    left (s.set .thread shared pc) = (mainOf s).left + pc.left := rfl

/-- Once the byte of `main` is there, a coherent machine executes it at the next call. -/
theorem left_of_settled (h : Reached s) (hsettled : Settled s)
    (hstep : Step (program true) s who next) : left next < left s := by
  cases hstep with
  | mk hact =>
      cases who with
      | main =>
          rw [left_set_main]
          exact Nat.add_lt_add_right (left_of_main hact) _
      | thread =>
          rw [left_set_thread]
          exact Nat.add_lt_add_left (left_of_thread h.thread hsettled.byte hact) _

theorem settled_run {labels : List Who} (h : Reached s) (hsettled : Settled s)
    (hrun : Run (Step (program coherent)) s labels next) : Reached next ∧ Settled next := by
  refine hrun.invariant (fun s => Reached s ∧ Settled s) ?_ ⟨h, hsettled⟩
  rintro s who next ⟨h, hsettled⟩ hstep
  exact ⟨h.step hstep, (settled_step_iff h hsettled.patched hstep).2.mpr hsettled⟩

/-- While nothing is lost, some statement brings the end closer and loses nothing. -/
theorem exists_closer (coherent : Bool) (h : Reached s) (hlost : ¬Lost s)
    (hmain : mainOf s ≠ .returned) :
    ∃ who next, Step (program coherent) s who next ∧ ¬Lost next ∧ left next < left s := by
  have hthread : s.shared.created = true → threadOf s ≠ .ended →
      (threadOf s ≠ .loop ∨ s.shared.page.bytes 3 = 0xFE) →
      ∃ who next, Step (program coherent) s who next ∧ ¬Lost next ∧ left next < left s := by
    intro hcreated hpc hprogress
    obtain ⟨shared, pc, hact, hlt⟩ := h.thread.exists_thread hcreated hpc
    have hstep : Step (program coherent) s .thread (s.set .thread shared pc) := .mk hact
    refine ⟨.thread, _, hstep, ?_, ?_⟩
    · rintro ⟨hpatched, hsettled⟩
      have hbefore : s.shared.patched = true := (patched_of_thread hact).symm.trans hpatched
      exact hlost ⟨hbefore, fun h' => hsettled ((settled_step_iff h hbefore hstep).2.mpr h')⟩
    · rw [left_set_thread]
      exact Nat.add_lt_add_left (hlt hprogress) _
  have hnext : ∀ {shared pc}, Main s.shared (mainOf s) shared pc →
      (shared.patched = true → Settled (s.set .main shared pc)) →
      ∃ who next, Step (program coherent) s who next ∧ ¬Lost next ∧ left next < left s := by
    intro shared pc hact hsettled
    refine ⟨.main, _, .mk hact, fun h' => h'.2 (hsettled h'.1), ?_⟩
    rw [left_set_main]
    exact Nat.add_lt_add_right (left_of_main hact) _
  have hpatched := h.main.patched
  have hcreated := h.main.created
  have hsettled : s.shared.patched = true → Settled s :=
    fun hrecord => by_contra fun hnot => hlost ⟨hrecord, hnot⟩
  cases hpc : mainOf s with
  | create =>
      rw [hpc] at hnext hpatched
      exact hnext .create fun hrecord => absurd (hpatched.symm.trans hrecord) (by decide)
  | sleep =>
      rw [hpc] at hnext hpatched
      exact hnext .sleep fun hrecord => absurd (hpatched.symm.trans hrecord) (by decide)
  | modifying =>
      rw [hpc] at hnext hpatched
      exact hnext .modifying fun hrecord => absurd (hpatched.symm.trans hrecord) (by decide)
  | store =>
      rw [hpc] at hnext hcreated
      by_cases hwritten : 3 < (threadOf s).written
      · exact hnext .store fun _ => ⟨rfl, hwritten, bytes_store_self ..⟩
      · refine hthread (hcreated.mpr (by simp)) ?_ (.inl ?_) <;>
          exact fun hthreadPc => hwritten (by rw [hthreadPc]; decide)
  | waiting =>
      rw [hpc] at hnext hpatched
      exact hnext .waiting fun hrecord =>
        ⟨hrecord, (hsettled hpatched).written, (hsettled hpatched).byte⟩
  | sleepAgain =>
      rw [hpc] at hnext hpatched
      exact hnext .sleepAgain fun hrecord =>
        ⟨hrecord, (hsettled hpatched).written, (hsettled hpatched).byte⟩
  | shouldExit =>
      rw [hpc] at hnext hpatched
      exact hnext .shouldExit fun hrecord =>
        ⟨hrecord, (hsettled hpatched).written, (hsettled hpatched).byte⟩
  | join =>
      rw [hpc] at hnext hpatched hcreated
      by_cases hended : threadOf s = .ended
      · exact hnext (.join (h.thread.ended.mpr hended)) fun hrecord =>
          ⟨hrecord, (hsettled hpatched).written, (hsettled hpatched).byte⟩
      · exact hthread (hcreated.mpr (by simp)) hended (.inr (hsettled hpatched).byte)
  | returned => exact absurd hpc hmain

theorem exists_return (coherent : Bool) (h : Reached s) (hlost : ¬Lost s) :
    ∃ labels last, Run (Step (program coherent)) s labels last ∧ mainOf last = .returned := by
  induction hleft : left s using Nat.strong_induction_on generalizing s with
  | _ bound ih =>
      by_cases hmain : mainOf s = .returned
      · exact ⟨[], s, .refl s, hmain⟩
      · obtain ⟨who, next, hstep, hlost', hlt⟩ := exists_closer coherent h hlost hmain
        obtain ⟨labels, last, hrun, hlast⟩ := ih (left next) (hleft ▸ hlt) (h.step hstep) hlost' rfl
        exact ⟨who :: labels, last, .cons hstep hrun, hlast⟩

/-! ### The end -/

/-- From every state that is reached, the program can still end exactly if the store of `main` is
not lost. Where it is, the thread stays in its loop in every continuation, and none gets stuck: the
two go on for ever. -/
theorem ends_iff_not_lost (coherent : Bool) (labels : List Who) (s : State)
    (hrun : Run (Step (program coherent)) start labels s) :
    ((∃ labels' last, Run (Step (program coherent)) s labels' last ∧ mainOf last = .returned)
        ↔ ¬Lost s)
      ∧ (Lost s → ∀ labels' later, Run (Step (program coherent)) s labels' later →
        ¬(threadOf later).Behind ∧ ¬Stuck (Step (program coherent)) later) := by
  have h := reached_start.run hrun
  refine ⟨⟨?_, exists_return coherent h⟩, ?_⟩
  · rintro ⟨labels', last, hrun', hmain⟩ hlost
    obtain ⟨hlast, hlost'⟩ := lost_run h hlost hrun'
    exact hlast.not_returned hlost' hmain
  · intro hlost labels' later hrun'
    obtain ⟨hlater, hlost'⟩ := lost_run h hlost hrun'
    exact ⟨hlater.not_behind hlost'.2 hlost'.1, hlater.not_stuck_of_lost hlost'⟩

/-- `main` makes its store before the thread has begun. -/
theorem ends_iff_not_lost_early :
    ∃ s, Run (Step (program true)) start [.main, .main, .main, .main] s ∧ Lost s
      ∧ ¬∃ labels last, Run (Step (program true)) s labels last ∧ mainOf last = .returned := by
  let created := start.set .main { start.shared with created := true } .sleep
  let slept := created.set .main created.shared .modifying
  let printed := slept.set .main (slept.shared.print .main .modifyingCode) .store
  let stored := printed.set .main
    { printed.shared with page := printed.shared.page.store 3 0xFE, patched := true } .waiting
  have hcreate : Step (program true) start .main created := .mk .create
  have hsleep : Step (program true) created .main slept := .mk .sleep
  have hprint : Step (program true) slept .main printed := .mk .modifying
  have hstore : Step (program true) printed .main stored := .mk .store
  have hrun := (((Run.single hcreate).snoc hsleep).snoc hprint).snoc hstore
  have hlost : Lost stored := ⟨rfl, fun hsettled => absurd hsettled.written (by decide)⟩
  refine ⟨stored, hrun, hlost, fun hends => ?_⟩
  exact (ends_iff_not_lost true _ _ hrun).1.mp hends hlost

/-- Once the store of `main` has reached a function that the thread has written, a coherent machine
comes to the end in every continuation, and by then each of the two has printed its lines. -/
theorem settled_ends (labels : List Who) (s : State)
    (hrun : Run (Step (program true)) start labels s) (hsettled : Settled s)
    (labels' : List Who) (later : State) (hrun' : Run (Step (program true)) s labels' later) :
    labels'.length ≤ left s
      ∧ (Stuck (Step (program true)) later ↔ mainOf later = .returned)
      ∧ (mainOf later = .returned →
        writtenBy .thread later.shared.output = [.generatingCode, .waitingForCode, .threadExiting]
        ∧ writtenBy .main later.shared.output
          = [.modifyingCode, .waitingForThread, .shouldExitNow]) := by
  have h := reached_start.run hrun
  obtain ⟨hlater, hsettled'⟩ := settled_run h hsettled hrun'
  have hended : mainOf later = .returned → threadOf later = .ended :=
    fun hmain => hlater.thread.ended.mp (hlater.main.ended hmain)
  refine ⟨?_, ⟨?_, ?_⟩, ?_⟩
  · refine Run.length_le left (fun s => Reached s ∧ Settled s) ?_ ?_ hrun' ⟨h, hsettled⟩
    · rintro s who next ⟨h, hsettled⟩ hstep
      exact ⟨h.step hstep, (settled_step_iff h hsettled.patched hstep).2.mpr hsettled⟩
    · rintro s who next ⟨h, hsettled⟩ hstep
      exact left_of_settled h hsettled hstep
  · intro hstuck
    by_contra hmain
    obtain ⟨who, next, hstep, -⟩ := exists_closer true hlater (fun hlost => hlost.2 hsettled') hmain
    exact hstuck who next hstep
  · intro hmain who next hstep
    have hlt := left_of_settled hlater hsettled' hstep
    rw [left, left, hmain, hended hmain] at hlt
    exact absurd hlt (Nat.not_lt_zero _)
  · intro hmain
    have hthread := hlater.thread.printed
    have hmainLines := hlater.main.printed
    rw [hended hmain] at hthread
    rw [hmain] at hmainLines
    exact ⟨hthread, hmainLines⟩

/-- `main` makes its store when the thread has made four of its own. -/
theorem settled_ends_returned :
    ∃ s, Run (Step (program true)) start
        [.main, .thread, .thread, .thread, .thread, .thread, .main, .main, .main] s
      ∧ Settled s ∧ mainOf s = .waiting ∧ threadOf s = .store 4
      ∧ ∃ labels later, Run (Step (program true)) s labels later ∧ labels.length ≤ 11
        ∧ mainOf later = .returned
        ∧ writtenBy .thread later.shared.output
          = [.generatingCode, .waitingForCode, .threadExiting]
        ∧ writtenBy .main later.shared.output
          = [.modifyingCode, .waitingForThread, .shouldExitNow] := by
  have hrun : Run (Step (program true)) start
      [.main, .thread, .thread, .thread, .thread, .thread, .main, .main, .main] _ :=
    .cons (.mk Main.create) (.cons (.mk (Thread.generating rfl))
      (.cons (.mk (Thread.store (k := 0) rfl)) (.cons (.mk (Thread.store (k := 1) rfl))
      (.cons (.mk (Thread.store (k := 2) rfl)) (.cons (.mk (Thread.store (k := 3) rfl))
      (.cons (.mk Main.sleep) (.cons (.mk Main.modifying) (.single (.mk Main.store)))))))))
  have hends := settled_ends _ _ hrun ⟨rfl, by decide, rfl⟩
  obtain ⟨labels, later, hrun', hstuck⟩ :=
    Run.exists_stuck fun labels later h => (hends labels later h).1
  obtain ⟨hlength, hiff, hlines⟩ := hends labels later hrun'
  have hmain := hiff.mp hstuck
  exact ⟨_, hrun, ⟨rfl, by decide, rfl⟩, rfl, rfl, labels, later, hrun', hlength, hmain,
    hlines hmain⟩

end FexTestBins.SmcMt2
