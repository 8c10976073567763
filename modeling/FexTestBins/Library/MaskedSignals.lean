import FexTestBins.Library.Interrupts
import Mathlib.Data.List.Perm.Subperm

/-!
# Signals of several kinds, sent by another thread

A program of nested handlers with the rules of signal delivery on top: a handler runs with its own
signal masked, a signal that is not delivered yet is pending, and several pending ones of a kind are
one, unless signals of this kind are queued. The signals come from a thread that sends the ones of a
list, and the main program waits for that thread.
-/

namespace MaskedSignals

open Transition

variable {Env Frame Sig : Type*}

/-- The signals of the active handlers, the first of which is running; how many of a kind are
pending; and how many the thread has sent. -/
structure State (Env Frame Sig : Type*) where
  inner : Interrupts.State Env Frame
  active : List Sig
  pending : Sig → Nat
  sent : Nat

inductive Event (Sig : Type*) where
  | send
  | deliver (sig : Sig)
  | run
  | main
  deriving DecidableEq

variable [DecidableEq Sig]

/-- What is pending once a signal has been sent. -/
def post (queued : Sig → Bool) (pending : Sig → Nat) (sig : Sig) : Sig → Nat :=
  Function.update pending sig (if queued sig then pending sig + 1 else 1)

inductive Step (program : Interrupts.Program Env Frame) (queued : Sig → Bool) (sends : List Sig) :
    State Env Frame Sig → Event Sig → State Env Frame Sig → Prop
  | send {s : State Env Frame Sig} {sig : Sig} :
      sends[s.sent]? = some sig →
      Step program queued sends s .send
        { s with pending := post queued s.pending sig, sent := s.sent + 1 }
  | deliver {env env' : Env} {frame : Frame} {frames : List Frame} {active : List Sig}
      {pending : Sig → Nat} {sent : Nat} {sig : Sig} :
      0 < pending sig → sig ∉ active → program.enter env env' frame →
      Step program queued sends ⟨⟨env, frames⟩, active, pending, sent⟩ (.deliver sig)
        ⟨⟨env', frame :: frames⟩, sig :: active,
          Function.update pending sig (pending sig - 1), sent⟩
  | run {env env' : Env} {frame : Frame} {after : Option Frame} {rest : List Frame} {sig : Sig}
      {active : List Sig} {pending : Sig → Nat} {sent : Nat} :
      program.act env frame env' after →
      Step program queued sends ⟨⟨env, frame :: rest⟩, sig :: active, pending, sent⟩ .run
        ⟨⟨env', after.toList ++ rest⟩, (after.map fun _ => sig).toList ++ active, pending, sent⟩
  | main {env env' : Env} {active : List Sig} {pending : Sig → Nat} {sent : Nat} :
      sent = sends.length → program.main env env' →
      Step program queued sends ⟨⟨env, []⟩, active, pending, sent⟩ .main
        ⟨⟨env', []⟩, active, pending, sent⟩

def start (first : Interrupts.State Env Frame) : State Env Frame Sig :=
  { inner := first, active := [], pending := fun _ => 0, sent := 0 }

variable {program : Interrupts.Program Env Frame} {queued : Sig → Bool} {sends : List Sig}
  {s next : State Env Frame Sig} {first : Interrupts.State Env Frame} {event : Event Sig}
  {events : List (Event Sig)}

/-! ### Without the signals -/

/-- What an event is to the handlers. -/
def Event.inner : Event Sig → Option Interrupts.Event
  | .send => none
  | .deliver _ => some .signal
  | .run => some .run
  | .main => some .main

/-- The signals delivered, in the order of their delivery. -/
def delivered (events : List (Event Sig)) : List Sig :=
  events.filterMap fun
    | .deliver sig => some sig
    | _ => none

omit [DecidableEq Sig] in
theorem count_signal (events : List (Event Sig)) :
    (events.filterMap Event.inner).count .signal = (delivered events).length := by
  induction events with
  | nil => rfl
  | cons event events ih =>
      cases event <;> simpa [List.filterMap_cons, Event.inner, delivered] using ih

omit [DecidableEq Sig] in
theorem delivered_snoc (events : List (Event Sig)) (event : Event Sig) :
    delivered (events ++ [event]) = delivered events ++ delivered [event] :=
  List.filterMap_append ..

theorem Step.project (hstep : Step program queued sends s event next) :
    Run (Interrupts.Step program) s.inner event.inner.toList next.inner := by
  cases hstep with
  | send => exact .refl _
  | deliver _ _ henter => exact .single (.signal henter)
  | run hact => exact .single (.run hact)
  | main _ hmain => exact .single (.main hmain)

/-- **The rules of delivery only take runs away.** What the handlers do is a run of the program in
which signals come at any time. -/
theorem project_run (hrun : Run (Step program queued sends) s events next) :
    Run (Interrupts.Step program) s.inner (events.filterMap Event.inner) next.inner := by
  induction hrun with
  | refl => exact .refl _
  | @cons s t u event events hstep _ ih =>
      have hevents : (event :: events).filterMap Event.inner
          = event.inner.toList ++ events.filterMap Event.inner := by
        cases event <;> rfl
      rw [hevents]
      exact hstep.project.trans ih

/-! ### Masks -/

/-- Each active handler has a signal of its own. -/
structure Masked (s : State Env Frame Sig) : Prop where
  nodup : s.active.Nodup
  length : s.active.length = s.inner.frames.length

omit [DecidableEq Sig] in
theorem masked_start (hframes : first.frames = []) :
    Masked (start first : State Env Frame Sig) :=
  ⟨List.nodup_nil, by simp [start, hframes]⟩

theorem Masked.step (h : Masked s) (hstep : Step program queued sends s event next) :
    Masked next := by
  obtain ⟨hnodup, hlength⟩ := h
  cases hstep with
  | send => exact ⟨hnodup, hlength⟩
  | deliver _ hmask _ => exact ⟨List.nodup_cons.mpr ⟨hmask, hnodup⟩, by simpa using hlength⟩
  | @run env env' frame after rest sig active pending sent hact =>
      cases after with
      | none => exact ⟨(List.nodup_cons.mp hnodup).2, by simpa using hlength⟩
      | some frame' => exact ⟨hnodup, hlength⟩
  | main => exact ⟨hnodup, hlength⟩

omit [DecidableEq Sig] in
/-- At most one handler for each kind of signal is active. -/
theorem Masked.frames_le (h : Masked s) (kinds : List Sig) (hkinds : ∀ sig, sig ∈ kinds) :
    s.inner.frames.length ≤ kinds.length := by
  rw [← h.length]
  exact (List.subperm_of_subset h.nodup fun sig _ => hkinds sig).length_le

/-! ### What becomes of the signals sent -/

/-- Of the signals sent of a kind, at least one and at most all were delivered or are pending, and
all if they are queued. -/
structure Posted (queued : Sig → Bool) (sends : List Sig) (events : List (Event Sig))
    (s : State Env Frame Sig) : Prop where
  sent_le : s.sent ≤ sends.length
  sent_eq : events.count .send = s.sent
  le : ∀ sig, (delivered events).count sig + s.pending sig ≤ (sends.take s.sent).count sig
  queued : ∀ sig, queued sig = true →
    (delivered events).count sig + s.pending sig = (sends.take s.sent).count sig
  one : ∀ sig ∈ sends.take s.sent, 0 < (delivered events).count sig + s.pending sig

theorem posted_start : Posted queued sends [] (start first : State Env Frame Sig) where
  sent_le := Nat.zero_le _
  sent_eq := rfl
  le := by simp [start, delivered]
  queued := by simp [start, delivered]
  one := by simp [start]

theorem Posted.send {sig : Sig} (h : Posted queued sends events s)
    (hsig : sends[s.sent]? = some sig) : Posted queued sends (events ++ [.send])
      { s with pending := post queued s.pending sig, sent := s.sent + 1 } := by
  have hdelivered : delivered (events ++ [.send]) = delivered events := by
    rw [delivered_snoc]
    exact List.append_nil _
  have htake : sends.take (s.sent + 1) = sends.take s.sent ++ [sig] := by
    rw [List.take_add_one, hsig, Option.toList_some]
  constructor
  · exact (List.getElem?_eq_some_iff.mp hsig).1
  · simp [h.sent_eq]
  all_goals
    simp only [hdelivered, htake, List.count_append, List.count_singleton, List.mem_append,
      List.mem_singleton, post]
    intro sig'
    have hle := h.le sig'
    have hqueued := h.queued sig'
    have hone := h.one sig'
    rcases eq_or_ne sig' sig with rfl | hne
    · simp only [Function.update_self, beq_self_eq_true, if_true]
      grind
    · simp only [Function.update_of_ne hne, beq_eq_false_iff_ne.mpr hne.symm, hne]
      grind

theorem Posted.deliver {sig : Sig} (h : Posted queued sends events s) (hpending : 0 < s.pending sig)
    (hsame : next.sent = s.sent)
    (hnext : next.pending = Function.update s.pending sig (s.pending sig - 1)) :
    Posted queued sends (events ++ [.deliver sig]) next := by
  have hcount : ∀ sig', (delivered (events ++ [.deliver sig])).count sig' + next.pending sig'
      = (delivered events).count sig' + s.pending sig' := by
    intro sig'
    have hlast : delivered [.deliver sig] = [sig] := rfl
    rw [delivered_snoc, hlast, hnext]
    rcases eq_or_ne sig' sig with rfl | hne
    · rw [Function.update_self, List.count_append, List.count_singleton_self]
      omega
    · have hzero : [sig].count sig' = 0 := List.count_eq_zero_of_not_mem (by simpa using hne)
      rw [Function.update_of_ne hne, List.count_append, hzero, Nat.add_zero]
  refine ⟨hsame ▸ h.sent_le, ?_, ?_, ?_, ?_⟩
  · simpa [hsame] using h.sent_eq
  · intro sig'
    rw [hcount, hsame]
    exact h.le sig'
  · intro sig' hqueued
    rw [hcount, hsame]
    exact h.queued sig' hqueued
  · intro sig' hmem
    rw [hcount]
    exact h.one sig' (hsame ▸ hmem)

/-- Nothing is sent or delivered by a step of the program itself. -/
theorem Posted.of_same {event : Event Sig} (h : Posted queued sends events s)
    (hsend : event ≠ .send) (hdeliver : delivered [event] = []) (hsent : next.sent = s.sent)
    (hpending : next.pending = s.pending) : Posted queued sends (events ++ [event]) next := by
  have hdelivered : delivered (events ++ [event]) = delivered events := by
    rw [delivered_snoc, hdeliver, List.append_nil]
  refine ⟨hsent ▸ h.sent_le, ?_, ?_, ?_, ?_⟩
  · have hzero : [event].count .send = 0 :=
      List.count_eq_zero_of_not_mem (by simpa using hsend.symm)
    rw [List.count_append, hzero, hsent]
    exact h.sent_eq
  · rw [hdelivered, hpending, hsent]
    exact h.le
  · rw [hdelivered, hpending, hsent]
    exact h.queued
  · rw [hdelivered, hpending, hsent]
    exact h.one

theorem Posted.step (h : Posted queued sends events s)
    (hstep : Step program queued sends s event next) :
    Posted queued sends (events ++ [event]) next := by
  cases hstep with
  | send hsig => exact h.send hsig
  | deliver hpending => exact h.deliver hpending rfl rfl
  | run => exact h.of_same (by simp) rfl rfl rfl
  | main => exact h.of_same (by simp) rfl rfl rfl

/-! ### Whole runs -/

theorem masked_run (hframes : first.frames = [])
    (hrun : Run (Step program queued sends) (start first) events s) : Masked s := by
  apply hrun.invariant Masked _ (masked_start hframes)
  intro s event next h hstep
  exact h.step hstep

theorem posted_run (hrun : Run (Step program queued sends) (start first) events s) :
    Posted queued sends events s := by
  apply hrun.invariant_history (Posted queued sends) _ posted_start
  intro past s event next h hstep
  exact h.step hstep

/-- No more signals are delivered than were sent. -/
theorem Posted.length_le (h : Posted queued sends events s) :
    (delivered events).length ≤ s.sent := by
  have hsub : (delivered events).Subperm (sends.take s.sent) := by
    rw [List.subperm_ext_iff]
    intro sig _
    exact Nat.le_trans (Nat.le_add_right _ _) (h.le sig)
  exact Nat.le_trans hsub.length_le (List.length_take_le _ _)

theorem length_eq (events : List (Event Sig)) :
    events.length = events.count .send + (events.filterMap Event.inner).length := by
  induction events with
  | nil => rfl
  | cons event events ih =>
      cases event <;> simp [List.filterMap_cons, Event.inner] <;> omega

end MaskedSignals
