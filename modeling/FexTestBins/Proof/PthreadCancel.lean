import FexTestBins.PthreadCancel

/-!
# Whether the thread of `pthread_cancel` is canceled

It is for certain if the request comes before its second `sleep`. In any case the destructor of the
key runs once, and `main` reports what became of the thread, after everything the thread prints.
-/

namespace FexTestBins.PthreadCancel

open Threads Transition

variable {platform : Platform} {shared shared' : Shared}

/-! ### The assertions -/

def ThreadPc.result : ThreadPc → Option Result
  | .ended result => some result
  | _ => none

def ThreadPc.keyed (platform : Platform) : ThreadPc → Bool
  | .setspecific => false
  | .ended _ => false
  | _ => platform.keyed

/-- What the thread prints before its end. -/
def linesBefore : Result → List Line
  | .canceled => [.cancellationDisabled, .aboutToEnable]
  | .null => [.cancellationDisabled, .aboutToEnable, .notCanceled]

def threadLines (platform : Platform) (result : Result) : List Line :=
  linesBefore result ++ if platform.keyed then [.keyDtor] else []

def ThreadPc.printed (platform : Platform) : ThreadPc → List Line
  | .setspecific => []
  | .disable => []
  | .started => []
  | .sleep => [.cancellationDisabled]
  | .about => [.cancellationDisabled]
  | .enable => [.cancellationDisabled, .aboutToEnable]
  | .sleepAgain => [.cancellationDisabled, .aboutToEnable]
  | .sleeping => [.cancellationDisabled, .aboutToEnable]
  | .notCanceled => [.cancellationDisabled, .aboutToEnable]
  | .destroy result => linesBefore result
  | .ended result => threadLines platform result

/-- Canceled, up to the destructor or behind it. -/
def ThreadPc.Canceled (pc : ThreadPc) : Prop := pc = .destroy .canceled ∨ pc = .ended .canceled

structure ThreadOk (platform : Platform) (shared : Shared) (pc : ThreadPc) : Prop where
  created : pc ≠ .setspecific → shared.created = true
  result : shared.result = pc.result
  value : shared.value = pc.keyed platform
  canceled : pc.Canceled → shared.requested = true
  printed : writtenBy .thread shared.output = pc.printed platform

def MainPc.created : MainPc → Bool
  | .create => false
  | .createFailed => false
  | _ => true

def MainPc.requested : MainPc → Bool
  | .join => true
  | .report _ => true
  | .exit _ => true
  | .exited _ => true
  | _ => false

def MainPc.status : MainPc → Option Nat
  | .createFailed => some 1
  | .cancelFailed => some 1
  | .exited _ => some 0
  | _ => none

/-- The result that was joined. -/
def MainPc.joined : MainPc → Option Result
  | .report result => some result
  | .exit result => some result
  | .exited result => some result
  | _ => none

def MainPc.reported : MainPc → Option Result
  | .exit result => some result
  | .exited result => some result
  | _ => none

def MainPc.printed : MainPc → List Line
  | .create => []
  | .sleep => []
  | .sending => []
  | .createFailed => []
  | .exit result => [.sendingRequest, verdict result]
  | .exited result => [.sendingRequest, verdict result]
  | _ => [.sendingRequest]

structure MainOk (platform : Platform) (shared : Shared) (pc : MainPc) : Prop where
  created : shared.created = pc.created
  requested : shared.requested = pc.requested
  status : shared.status = pc.status
  joined : ∀ result, pc.joined = some result → shared.result = some result
  unknown : pc = .cancelFailed → shared.result ≠ none ∧ platform.endedIsUnknown = true
  creates : pc = .createFailed → platform.creates = false
  printed : writtenBy .main shared.output = pc.printed
  last : ∀ result, pc.reported = some result →
    shared.output.getLast? = some (.main, verdict result)

def assertion (platform : Platform) : (who : Who) → Shared → Local who → Prop
  | .main => MainOk platform
  | .thread => ThreadOk platform

/-! ### They are kept -/

theorem ThreadOk.move {pc pc' : ThreadPc} (h : ThreadOk platform shared pc)
    (hcreated : pc ≠ .setspecific) (hresult : pc'.result = pc.result)
    (hkeyed : pc'.keyed platform = pc.keyed platform)
    (hcanceled : pc'.Canceled → shared.requested = true)
    (hprinted : pc'.printed platform = pc.printed platform) : ThreadOk platform shared pc' where
  created := fun _ => h.created hcreated
  result := h.result.trans hresult.symm
  value := h.value.trans hkeyed.symm
  canceled := hcanceled
  printed := h.printed.trans hprinted.symm

theorem ThreadOk.print {pc pc' : ThreadPc} {line : Line} (h : ThreadOk platform shared pc)
    (hcreated : pc ≠ .setspecific) (hresult : pc'.result = pc.result)
    (hkeyed : pc'.keyed platform = pc.keyed platform) (hcanceled : ¬pc'.Canceled)
    (hprinted : pc'.printed platform = pc.printed platform ++ [line]) :
    ThreadOk platform (shared.print .thread line) pc' where
  created := fun _ => h.created hcreated
  result := h.result.trans hresult.symm
  value := h.value.trans hkeyed.symm
  canceled := fun hpc => absurd hpc hcanceled
  printed := by rw [hprinted, ← h.printed, Shared.print, writtenBy_snoc, if_pos rfl]

theorem ThreadOk.destroy {result : Result} (h : ThreadOk platform shared (.destroy result)) :
    ThreadOk platform { shared.destroy with result := some result } (.ended result) := by
  have hvalue : shared.value = platform.keyed := h.value
  have hcanceled : (ThreadPc.ended result).Canceled → shared.requested = true := by
    rintro (hpc | hpc)
    · cases hpc
    · obtain rfl : result = .canceled := by simpa using hpc
      exact h.canceled (.inl rfl)
  cases hkeyed : platform.keyed with
  | true =>
      rw [hkeyed] at hvalue
      rw [Shared.destroy, hvalue, if_pos rfl]
      refine ⟨fun _ => h.created (by simp), rfl, rfl, hcanceled, ?_⟩
      rw [ThreadPc.printed, threadLines, hkeyed]
      change writtenBy .thread (shared.output ++ [(.thread, .keyDtor)]) = _
      rw [writtenBy_snoc, if_pos rfl, h.printed]
      rfl
  | false =>
      rw [hkeyed] at hvalue
      rw [Shared.destroy, hvalue, if_neg Bool.false_ne_true]
      refine ⟨fun _ => h.created (by simp), rfl, hvalue, hcanceled, ?_⟩
      rw [ThreadPc.printed, threadLines, hkeyed]
      exact h.printed.trans (List.append_nil _).symm

theorem not_canceled {pc : ThreadPc} (hdestroy : pc ≠ .destroy .canceled)
    (hended : pc ≠ .ended .canceled) : ¬pc.Canceled :=
  fun hpc => hpc.elim hdestroy hended

theorem ThreadOk.thread {pc pc' : ThreadPc} (h : ThreadOk platform shared pc)
    (hact : Thread platform shared pc shared' pc') : ThreadOk platform shared' pc' := by
  have hnot : ∀ {pc' : ThreadPc}, pc' ≠ .destroy .canceled → pc' ≠ .ended .canceled →
      pc'.Canceled → shared.requested = true := fun hdestroy hended hpc =>
    absurd hpc (not_canceled hdestroy hended)
  cases hact with
  | setspecific hcreated =>
      exact ⟨fun _ => hcreated, h.result, rfl, hnot (by simp) (by simp), h.printed⟩
  | disable => exact h.move (by simp) rfl rfl (hnot (by simp) (by simp)) rfl
  | started => exact h.print (by simp) rfl rfl (not_canceled (by simp) (by simp)) rfl
  | sleep => exact h.move (by simp) rfl rfl (hnot (by simp) (by simp)) rfl
  | about => exact h.print (by simp) rfl rfl (not_canceled (by simp) (by simp)) rfl
  | enable => exact h.move (by simp) rfl rfl (hnot (by simp) (by simp)) rfl
  | sleepAgain hrequested => exact h.move (by simp) rfl rfl (hnot (by simp) (by simp)) rfl
  | canceledAtOnce hrequested => exact h.move (by simp) rfl rfl (fun _ => hrequested) rfl
  | timeIsUp => exact h.move (by simp) rfl rfl (hnot (by simp) (by simp)) rfl
  | canceledAsleep hrequested => exact h.move (by simp) rfl rfl (fun _ => hrequested) rfl
  | notCanceled hpoint => exact h.print (by simp) rfl rfl (not_canceled (by simp) (by simp)) rfl
  | canceledInPrintf hrequested hpoint => exact h.move (by simp) rfl rfl (fun _ => hrequested) rfl
  | destroy => exact h.destroy

theorem ThreadOk.main {pc : ThreadPc} {mainPc mainPc' : MainPc} (h : ThreadOk platform shared pc)
    (hact : Main platform shared mainPc shared' mainPc') : ThreadOk platform shared' pc := by
  have hprint : ∀ line, ThreadOk platform (shared.print .main line) pc := fun line =>
    ⟨h.created, h.result, h.value, h.canceled, by
      rw [Shared.print, writtenBy_snoc, if_neg (by decide), List.append_nil, h.printed]⟩
  cases hact with
  | create hcreates => exact ⟨fun _ => rfl, h.result, h.value, h.canceled, h.printed⟩
  | sending => exact hprint _
  | cancel hknown => exact ⟨h.created, h.result, h.value, fun _ => rfl, h.printed⟩
  | report => exact hprint _
  | sleep => exact h
  | join hresult => exact h
  | _ => exact ⟨h.created, h.result, h.value, h.canceled, h.printed⟩

theorem MainOk.main {pc pc' : MainPc} (h : MainOk platform shared pc)
    (hact : Main platform shared pc shared' pc') : MainOk platform shared' pc' := by
  cases hact with
  | create hcreates =>
      exact ⟨rfl, h.requested, h.status, by simp [MainPc.joined], by simp, by simp, h.printed,
        by simp [MainPc.reported]⟩
  | createFails hcreates =>
      exact ⟨h.created, h.requested, rfl, by simp [MainPc.joined], by simp, fun _ => hcreates,
        h.printed, by simp [MainPc.reported]⟩
  | sleep =>
      exact ⟨h.created, h.requested, h.status, by simp [MainPc.joined], by simp, by simp, h.printed,
        by simp [MainPc.reported]⟩
  | sending =>
      refine ⟨h.created, h.requested, h.status, by simp [MainPc.joined], by simp, by simp, ?_,
        by simp [MainPc.reported]⟩
      rw [Shared.print, writtenBy_snoc, if_pos rfl, h.printed]
      rfl
  | cancel hknown =>
      exact ⟨h.created, rfl, h.status, by simp [MainPc.joined], by simp, by simp, h.printed,
        by simp [MainPc.reported]⟩
  | cancelFails hresult hunknown =>
      exact ⟨h.created, h.requested, rfl, by simp [MainPc.joined], fun _ => ⟨hresult, hunknown⟩,
        by simp, h.printed, by simp [MainPc.reported]⟩
  | join hresult =>
      refine ⟨h.created, h.requested, h.status, ?_, by simp, by simp, h.printed,
        by simp [MainPc.reported]⟩
      intro result hjoined
      rw [hresult, ← hjoined]
      rfl
  | report =>
      refine ⟨h.created, h.requested, h.status, h.joined, by simp, by simp, ?_, ?_⟩
      · rw [Shared.print, writtenBy_snoc, if_pos rfl, h.printed]
        rfl
      · intro result hreported
        obtain rfl := Option.some.inj hreported
        exact List.getLast?_concat
  | exit => exact ⟨h.created, h.requested, rfl, h.joined, by simp, by simp, h.printed, h.last⟩

/-- A thread that makes a step has not ended. -/
theorem result_of_thread {pc pc' : ThreadPc} (h : ThreadOk platform shared pc)
    (hact : Thread platform shared pc shared' pc') : shared.result = none := by
  rw [h.result]
  cases hact <;> rfl

/-- What `main` does not notice of the thread. -/
structure Unseen (shared shared' : Shared) : Prop where
  created : shared'.created = shared.created
  requested : shared'.requested = shared.requested
  status : shared'.status = shared.status
  printed : writtenBy .main shared'.output = writtenBy .main shared.output

theorem unseen_of_thread {pc pc' : ThreadPc} (hact : Thread platform shared pc shared' pc') :
    Unseen shared shared' := by
  have hprint : ∀ line, writtenBy .main (shared.print .thread line).output
      = writtenBy .main shared.output := by
    intro line
    rw [Shared.print, writtenBy_snoc, if_neg (by decide), List.append_nil]
  cases hact with
  | started => exact ⟨rfl, rfl, rfl, hprint _⟩
  | about => exact ⟨rfl, rfl, rfl, hprint _⟩
  | notCanceled hpoint => exact ⟨rfl, rfl, rfl, hprint _⟩
  | destroy =>
      cases hvalue : shared.value with
      | true =>
          rw [Shared.destroy, if_pos hvalue]
          exact ⟨rfl, rfl, rfl, hprint _⟩
      | false =>
          rw [Shared.destroy, if_neg (by simp [hvalue])]
          exact ⟨rfl, rfl, rfl, rfl⟩
  | _ => exact ⟨rfl, rfl, rfl, rfl⟩

theorem MainPc.joined_of_reported {pc : MainPc} {result : Result}
    (hreported : pc.reported = some result) : pc.joined = some result := by
  cases pc <;> first | exact hreported | cases hreported

/-- While the thread goes on, `main` has not joined it, and it has no verdict yet. -/
theorem MainOk.thread {pc : MainPc} {threadPc threadPc' : ThreadPc} (h : MainOk platform shared pc)
    (hthread : ThreadOk platform shared threadPc)
    (hact : Thread platform shared threadPc shared' threadPc') : MainOk platform shared' pc := by
  have hrunning := result_of_thread hthread hact
  have hunseen := unseen_of_thread hact
  have hjoined : ∀ result, pc.joined ≠ some result := by
    intro result hpc
    cases hrunning.symm.trans (h.joined result hpc)
  exact {
    created := hunseen.created.trans h.created
    requested := hunseen.requested.trans h.requested
    status := hunseen.status.trans h.status
    joined := fun result hpc => absurd hpc (hjoined result)
    unknown := fun hpc => absurd hrunning (h.unknown hpc).1
    creates := h.creates
    printed := hunseen.printed.trans h.printed
    last := fun result hpc => absurd (MainPc.joined_of_reported hpc) (hjoined result) }

theorem outline (platform : Platform) : Outline (program platform) (assertion platform) where
  kept := by
    rintro (_ | _) shared pc shared' pc' hok ⟨-, hact⟩
    · exact MainOk.main hok hact
    · exact ThreadOk.thread hok hact
  undisturbed := by
    rintro (_ | _) (_ | _) shared pc other shared' pc' hne hok hother ⟨-, hact⟩
    · exact absurd rfl hne
    · exact ThreadOk.main hother hact
    · exact MainOk.thread hother hok hact
    · exact absurd rfl hne

def mainOf (s : State) : MainPc := s.locals .main

def threadOf (s : State) : ThreadPc := s.locals .thread

structure Reached (platform : Platform) (s : State) : Prop where
  main : MainOk platform s.shared (mainOf s)
  thread : ThreadOk platform s.shared (threadOf s)

variable {s next : State} {who : Who} {labels : List Who}

theorem Reached.step (h : Reached platform s) (hstep : Step (program platform) s who next) :
    Reached platform next := by
  have hall : ∀ who, assertion platform who s.shared (s.locals who) := by
    rintro (_ | _)
    · exact h.main
    · exact h.thread
  have hnext := (outline platform).step hall hstep
  exact ⟨hnext .main, hnext .thread⟩

theorem reached_start (platform : Platform) : Reached platform start where
  main := ⟨rfl, rfl, rfl, by simp [mainOf, start, MainPc.joined], by simp [mainOf, start],
    by simp [mainOf, start], rfl, by simp [mainOf, start, MainPc.reported]⟩
  thread := ⟨fun hpc => absurd rfl hpc, rfl, rfl,
    by simp [threadOf, start, ThreadPc.Canceled], rfl⟩

theorem Reached.run (h : Reached platform s)
    (hrun : Run (Step (program platform)) s labels next) : Reached platform next :=
  hrun.invariant (Reached platform) (fun _ _ _ h hstep => h.step hstep) h

/-! ### The end of the process -/

/-- How the process ends: the thread cannot be created, or had ended by itself before the request
and is then not known any more, or it is joined, and the verdict on it is the last line. -/
inductive Ended (platform : Platform) (output : List (Who × Line)) : Nat → Prop
  | createFailed : platform.creates = false → writtenBy .main output = [] →
      writtenBy .thread output = [] → Ended platform output 1
  | cancelFailed : platform.endedIsUnknown = true → writtenBy .main output = [.sendingRequest] →
      writtenBy .thread output = threadLines platform .null → Ended platform output 1
  | joined (result : Result) : writtenBy .main output = [.sendingRequest, verdict result] →
      writtenBy .thread output = threadLines platform result →
      output.getLast? = some (.main, verdict result) → Ended platform output 0

theorem ThreadOk.lines_of_result {pc : ThreadPc} {result : Result}
    (h : ThreadOk platform shared pc) (hresult : shared.result = some result) :
    pc = .ended result ∧ writtenBy .thread shared.output = threadLines platform result := by
  have hpc := h.result.symm.trans hresult
  cases pc with
  | ended result' =>
      obtain rfl := Option.some.inj hpc
      exact ⟨rfl, h.printed⟩
  | _ => cases hpc

theorem Reached.ended (h : Reached platform s) {status : Nat}
    (hstatus : s.shared.status = some status) : Ended platform s.shared.output status := by
  have hmain := h.main.status.symm.trans hstatus
  cases hpc : mainOf s with
  | createFailed =>
      rw [hpc] at hmain
      obtain rfl := Option.some.inj hmain
      have hlines := h.main.printed
      have hcreated := h.main.created
      rw [hpc] at hlines hcreated
      have hthread : threadOf s = .setspecific := by
        by_contra hne
        cases (h.thread.created hne).symm.trans hcreated
      have hlines' := h.thread.printed
      rw [hthread] at hlines'
      exact .createFailed (h.main.creates hpc) hlines hlines'
  | cancelFailed =>
      rw [hpc] at hmain
      obtain rfl := Option.some.inj hmain
      obtain ⟨hresult, hunknown⟩ := h.main.unknown hpc
      have hlines := h.main.printed
      have hrequested := h.main.requested
      rw [hpc] at hlines hrequested
      obtain ⟨result, hresult⟩ := Option.ne_none_iff_exists'.mp hresult
      obtain ⟨hthread, hlines'⟩ := h.thread.lines_of_result hresult
      cases result with
      | canceled =>
          have hcanceled := h.thread.canceled (.inr hthread)
          cases hcanceled.symm.trans hrequested
      | null => exact .cancelFailed hunknown hlines hlines'
  | exited result =>
      rw [hpc] at hmain
      obtain rfl := Option.some.inj hmain
      have hlines := h.main.printed
      have hresult := h.main.joined result (by rw [hpc]; rfl)
      have hlast := h.main.last result (by rw [hpc]; rfl)
      rw [hpc] at hlines
      exact .joined result hlines (h.thread.lines_of_result hresult).2 hlast
  | _ =>
      rw [hpc] at hmain
      cases hmain

/-! ### Going on -/

def ThreadPc.left : ThreadPc → Nat
  | .setspecific => 10
  | .disable => 9
  | .started => 8
  | .sleep => 7
  | .about => 6
  | .enable => 5
  | .sleepAgain => 4
  | .sleeping => 3
  | .notCanceled => 2
  | .destroy _ => 1
  | .ended _ => 0

def MainPc.left : MainPc → Nat
  | .create => 7
  | .sleep => 6
  | .sending => 5
  | .cancel => 4
  | .join => 3
  | .report _ => 2
  | .exit _ => 1
  | _ => 0

def left (s : State) : Nat := (mainOf s).left + (threadOf s).left

theorem left_of_main {pc pc' : MainPc} (hact : Main platform shared pc shared' pc') :
    pc'.left < pc.left := by
  cases hact <;> simp [MainPc.left]

theorem left_of_thread {pc pc' : ThreadPc} (hact : Thread platform shared pc shared' pc') :
    pc'.left < pc.left := by
  cases hact <;> simp [ThreadPc.left]

theorem left_step (hstep : Step (program platform) s who next) : left next < left s := by
  cases hstep with
  | mk hact =>
      cases who with
      | main => exact Nat.add_lt_add_right (left_of_main hact.2) _
      | thread => exact Nat.add_lt_add_left (left_of_thread hact.2) _

theorem ThreadOk.exists_thread {pc : ThreadPc} (h : ThreadOk platform shared pc)
    (hcreated : shared.created = true) (hresult : shared.result = none) :
    ∃ shared' pc', Thread platform shared pc shared' pc' := by
  cases pc with
  | setspecific => exact ⟨_, _, .setspecific hcreated⟩
  | disable => exact ⟨_, _, .disable⟩
  | started => exact ⟨_, _, .started⟩
  | sleep => exact ⟨_, _, .sleep⟩
  | about => exact ⟨_, _, .about⟩
  | enable => exact ⟨_, _, .enable⟩
  | sleepAgain =>
      cases hrequested : shared.requested with
      | true => exact ⟨_, _, .canceledAtOnce hrequested⟩
      | false => exact ⟨_, _, .sleepAgain hrequested⟩
  | sleeping => exact ⟨_, _, .timeIsUp⟩
  | notCanceled =>
      cases hrequested : shared.requested with
      | false => exact ⟨_, _, .notCanceled (.inl hrequested)⟩
      | true =>
          cases hpoint : platform.printfCancels with
          | false => exact ⟨_, _, .notCanceled (.inr hpoint)⟩
          | true => exact ⟨_, _, .canceledInPrintf hrequested hpoint⟩
  | destroy result => exact ⟨_, _, .destroy⟩
  | ended result => cases hresult.symm.trans h.result

/-- Until the process has ended, `main` or the thread that it waits for can go on. -/
theorem Reached.exists_step (h : Reached platform s) (hstatus : s.shared.status = none) :
    ∃ who next, Step (program platform) s who next := by
  have hnext : ∀ {shared pc}, Main platform s.shared (mainOf s) shared pc →
      ∃ who next, Step (program platform) s who next :=
    fun hact => ⟨.main, _, .mk ⟨hstatus, hact⟩⟩
  have hended := h.main.status.symm.trans hstatus
  have hcreated := h.main.created
  cases hpc : mainOf s with
  | create =>
      rw [hpc] at hnext
      cases hcreates : platform.creates with
      | true => exact hnext (.create hcreates)
      | false => exact hnext (.createFails hcreates)
  | sleep =>
      rw [hpc] at hnext
      exact hnext .sleep
  | sending =>
      rw [hpc] at hnext
      exact hnext .sending
  | cancel =>
      rw [hpc] at hnext
      by_cases hresult : s.shared.result = none
      · exact hnext (.cancel (.inl hresult))
      · cases hunknown : platform.endedIsUnknown with
        | false => exact hnext (.cancel (.inr hunknown))
        | true => exact hnext (.cancelFails hresult hunknown)
  | join =>
      rw [hpc] at hnext hcreated
      cases hresult : s.shared.result with
      | some result => exact hnext (.join hresult)
      | none =>
          obtain ⟨shared, pc, hact⟩ := h.thread.exists_thread hcreated hresult
          exact ⟨.thread, _, .mk ⟨hstatus, hact⟩⟩
  | report result =>
      rw [hpc] at hnext
      exact hnext .report
  | exit result =>
      rw [hpc] at hnext
      exact hnext .exit
  | _ =>
      rw [hpc] at hended
      cases hended

theorem length_le_left (hrun : Run (Step (program platform)) s labels next) :
    labels.length ≤ left s :=
  hrun.length_le left (fun _ => True) (fun _ _ _ _ _ => trivial)
    (fun _ _ _ _ hstep => left_step hstep) trivial

theorem Reached.stuck_iff (h : Reached platform s) :
    Stuck (Step (program platform)) s ↔ ∃ status, s.shared.status = some status := by
  constructor
  · intro hstuck
    by_contra hnone
    have hstatus : s.shared.status = none := by
      rw [Option.eq_none_iff_forall_ne_some]
      exact fun status hsome => hnone ⟨status, hsome⟩
    obtain ⟨who, next, hstep⟩ := h.exists_step hstatus
    exact hstuck who next hstep
  · rintro ⟨status, hstatus⟩ who next ⟨hact⟩
    cases who with
    | main => cases hact.1.symm.trans hstatus
    | thread => cases hact.1.symm.trans hstatus

/-- Every run comes to an end after at most 17 statements, which is that of the process, and the
lines printed by then are those of one of its endings. -/
theorem process_ends (platform : Platform) (labels : List Who) (s : State)
    (hrun : Run (Step (program platform)) start labels s) :
    labels.length ≤ 17
      ∧ (Stuck (Step (program platform)) s ↔ ∃ status, s.shared.status = some status)
      ∧ ∀ status, s.shared.status = some status → Ended platform s.shared.output status := by
  have h := (reached_start platform).run hrun
  exact ⟨length_le_left hrun, h.stuck_iff, fun status => h.ended⟩

theorem process_ends_joined :
    ∃ labels s, Run (Step (program ⟨true, true, true, true⟩)) start labels s
      ∧ ∃ status, s.shared.status = some status
        ∧ Ended ⟨true, true, true, true⟩ s.shared.output status := by
  have hends := process_ends ⟨true, true, true, true⟩
  obtain ⟨labels, s, hrun, hstuck⟩ := Run.exists_stuck fun labels s hrun => (hends labels s hrun).1
  obtain ⟨-, hiff, hlines⟩ := hends labels s hrun
  obtain ⟨status, hstatus⟩ := hiff.mp hstuck
  exact ⟨labels, s, hrun, status, hstatus, hlines status hstatus⟩

/-! ### A request in time -/

/-- The second `sleep` is still to be called. -/
def ThreadPc.BeforeSleep : ThreadPc → Prop
  | .sleeping => False
  | .notCanceled => False
  | .destroy _ => False
  | .ended _ => False
  | _ => True

structure InTime (s : State) : Prop where
  requested : s.shared.requested = true
  thread : (threadOf s).BeforeSleep ∨ (threadOf s).Canceled

theorem requested_of_main {pc pc' : MainPc} (hact : Main platform shared pc shared' pc')
    (hrequested : shared.requested = true) : shared'.requested = true := by
  cases hact with
  | cancel hknown => rfl
  | _ => exact hrequested

theorem inTime_of_thread {pc pc' : ThreadPc} (hact : Thread platform shared pc shared' pc')
    (hrequested : shared.requested = true) (hpc : pc.BeforeSleep ∨ pc.Canceled) :
    pc'.BeforeSleep ∨ pc'.Canceled := by
  cases hact with
  | sleepAgain hnone => cases hrequested.symm.trans hnone
  | canceledAtOnce _ => exact .inr (.inl rfl)
  | destroy =>
      rename_i result
      rcases hpc with hpc | hpc | hpc
      · exact hpc.elim
      · obtain rfl : result = .canceled := by simpa using hpc
        exact .inr (.inr rfl)
      · cases hpc
  | timeIsUp => exact absurd hpc (not_or.mpr ⟨id, not_canceled (by simp) (by simp)⟩)
  | canceledAsleep _ => exact absurd hpc (not_or.mpr ⟨id, not_canceled (by simp) (by simp)⟩)
  | notCanceled _ => exact absurd hpc (not_or.mpr ⟨id, not_canceled (by simp) (by simp)⟩)
  | canceledInPrintf _ _ => exact absurd hpc (not_or.mpr ⟨id, not_canceled (by simp) (by simp)⟩)
  | _ => exact .inl trivial

theorem InTime.step (h : InTime s) (hstep : Step (program platform) s who next) : InTime next := by
  cases hstep with
  | mk hact =>
      cases who with
      | main => exact ⟨requested_of_main hact.2 h.requested, h.thread⟩
      | thread =>
          exact ⟨(unseen_of_thread hact.2).requested.trans h.requested,
            inTime_of_thread hact.2 h.requested h.thread⟩

/-- The process whose thread was asked in time exits well, and has reported that it was canceled. -/
theorem Reached.ended_of_inTime (h : Reached platform s) (hinTime : InTime s) {status : Nat}
    (hstatus : s.shared.status = some status) :
    status = 0 ∧ writtenBy .main s.shared.output = [.sendingRequest, .wasCanceled]
      ∧ writtenBy .thread s.shared.output = threadLines platform .canceled := by
  have hmain := h.main.status.symm.trans hstatus
  have hrequested := h.main.requested.symm.trans hinTime.requested
  have hlines := h.main.printed
  cases hpc : mainOf s with
  | exited result =>
      rw [hpc] at hmain hlines
      have hjoined := h.main.joined result (by rw [hpc]; rfl)
      obtain ⟨hthread, hlines'⟩ := h.thread.lines_of_result hjoined
      rcases hinTime.thread with hbefore | hcanceled | hcanceled
      · rw [hthread] at hbefore
        exact hbefore.elim
      · cases hthread.symm.trans hcanceled
      · cases hthread.symm.trans hcanceled
        exact ⟨(Option.some.inj hmain).symm, hlines, hlines'⟩
  | createFailed =>
      rw [hpc] at hrequested
      cases hrequested
  | cancelFailed =>
      rw [hpc] at hrequested
      cases hrequested
  | _ =>
      rw [hpc] at hmain
      cases hmain

/-- If the request comes before the thread calls `sleep` for the second time, then every
continuation comes to the end of the process, which exits with 0; the thread is canceled, and `main`
says so. -/
theorem canceled_if_in_time (platform : Platform) (labels : List Who) (s : State)
    (hrun : Run (Step (program platform)) start labels s) (hrequested : s.shared.requested = true)
    (hbefore : (threadOf s).BeforeSleep) (labels' : List Who) (later : State)
    (hrun' : Run (Step (program platform)) s labels' later) :
    labels'.length ≤ left s
      ∧ (Stuck (Step (program platform)) later ↔ later.shared.status = some 0)
      ∧ ∀ status, later.shared.status = some status → status = 0
        ∧ writtenBy .main later.shared.output = [.sendingRequest, .wasCanceled]
        ∧ writtenBy .thread later.shared.output = threadLines platform .canceled := by
  have hlater := ((reached_start platform).run hrun).run hrun'
  have hinTime : InTime later :=
    hrun'.invariant InTime (fun _ _ _ h hstep => h.step hstep) ⟨hrequested, .inl hbefore⟩
  refine ⟨length_le_left hrun', ?_, fun status => hlater.ended_of_inTime hinTime⟩
  rw [hlater.stuck_iff]
  constructor
  · rintro ⟨status, hstatus⟩
    obtain ⟨rfl, -⟩ := hlater.ended_of_inTime hinTime hstatus
    exact hstatus
  · exact fun hstatus => ⟨0, hstatus⟩

/-- The request comes before the thread has done anything, and the process goes on to its end. -/
theorem canceled_if_in_time_at_once :
    ∃ s, Run (Step (program ⟨true, true, true, true⟩)) start [.main, .main, .main, .main] s
      ∧ ∃ labels later, Run (Step (program ⟨true, true, true, true⟩)) s labels later
        ∧ later.shared.status = some 0
        ∧ writtenBy .main later.shared.output = [.sendingRequest, .wasCanceled]
        ∧ writtenBy .thread later.shared.output
          = [.cancellationDisabled, .aboutToEnable, .keyDtor] := by
  let created := start.set .main { start.shared with created := true } .sleep
  let slept := created.set .main created.shared .sending
  let sent := slept.set .main (slept.shared.print .main .sendingRequest) .cancel
  let requested := sent.set .main { sent.shared with requested := true } .join
  let platform : Platform := ⟨true, true, true, true⟩
  have hcreate : Step (program platform) start .main created := .mk ⟨rfl, .create rfl⟩
  have hsleep : Step (program platform) created .main slept := .mk ⟨rfl, .sleep⟩
  have hsend : Step (program platform) slept .main sent := .mk ⟨rfl, .sending⟩
  have hcancel : Step (program platform) sent .main requested := .mk ⟨rfl, .cancel (.inl rfl)⟩
  have hrun := (((Run.single hcreate).snoc hsleep).snoc hsend).snoc hcancel
  have hends := canceled_if_in_time platform _ requested hrun rfl trivial
  obtain ⟨labels, later, hrun', hstuck⟩ :=
    Run.exists_stuck fun labels later hrun' => (hends labels later hrun').1
  obtain ⟨-, hiff, hlines⟩ := hends labels later hrun'
  have hstatus := hiff.mp hstuck
  exact ⟨requested, hrun, labels, later, hrun', hstatus, (hlines 0 hstatus).2⟩

end FexTestBins.PthreadCancel
