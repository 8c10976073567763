import FexTestBins.Library.Transition
import Mathlib.Algebra.Ring.Nat
import Mathlib.Data.List.Nodup

/-!
# Nested interrupts

A handler may be entered between any two steps of the main program or of handlers that are already
active, and the active handlers finish in the reverse order in which they were entered. Only the
topmost one runs; the others stand still until it is gone.

Handlers that each own a resource (a page, a lock, a slot) do not disturb one another as long as a
step touches nothing but its own resource. `Discipline` lists what has to be checked of the single
steps, and the rest of the file is what follows for whole runs.
-/

namespace Interrupts

open Transition

variable {Env Frame Resource : Type*}

/-- The state shared by all handlers, and the active ones, of which the first is running. -/
structure State (Env Frame : Type*) where
  env : Env
  frames : List Frame

inductive Event where
  | signal
  | run
  | main
  deriving DecidableEq

/-- What a program is made of: the entry of a handler, a step of a handler, which ends the handler
if it leaves no frame, and a step of the main program. -/
structure Program (Env Frame : Type*) where
  enter : Env → Env → Frame → Prop
  act : Env → Frame → Env → Option Frame → Prop
  main : Env → Env → Prop

inductive Step (program : Program Env Frame) : State Env Frame → Event → State Env Frame → Prop
  | signal {env env' : Env} {frame : Frame} {frames : List Frame} :
      program.enter env env' frame → Step program ⟨env, frames⟩ .signal ⟨env', frame :: frames⟩
  | run {env env' : Env} {frame : Frame} {after : Option Frame} {rest : List Frame} :
      program.act env frame env' after →
        Step program ⟨env, frame :: rest⟩ .run ⟨env', after.toList ++ rest⟩
  | main {env env' : Env} :
      program.main env env' → Step program ⟨env, []⟩ .main ⟨env', []⟩

/-- A step that leaves the lowest `depth` handlers interrupted: the entry of a new one, or a step of
one above them. -/
def StepAbove (program : Program Env Frame) (depth : Nat) (state : State Env Frame) (event : Event)
    (next : State Env Frame) : Prop :=
  Step program state event next ∧ (event = .signal ∨ depth < state.frames.length)

variable {program : Program Env Frame} {state next start : State Env Frame} {event : Event}
  {events : List Event} {base : List Frame} {frame : Frame}

theorem suffix_step (hsuffix : base <:+ state.frames)
    (hstep : StepAbove program base.length state event next) : base <:+ next.frames := by
  obtain ⟨hstep, habove⟩ := hstep
  cases hstep with
  | signal => exact hsuffix.trans (List.suffix_cons _ _)
  | run hact =>
      rename_i frame after rest
      have hrest : base <:+ rest := by
        rcases List.suffix_cons_iff.mp hsuffix with heq | hrest
        · subst heq
          simp at habove
        · exact hrest
      exact hrest.trans (List.suffix_append _ _)
  | main => simpa using hsuffix

theorem suffix_run (hsuffix : base <:+ start.frames)
    (hrun : Run (StepAbove program base.length) start events state) : base <:+ state.frames := by
  apply hrun.invariant (fun s => base <:+ s.frames) _ hsuffix
  intro s event next h hstep
  exact suffix_step h hstep

/-! ### Owned resources -/

/-- The local conditions: a handler is entered without a resource, each of its steps keeps its own
invariant `Ok` and those of the handlers that own another resource, and a resource that is newly
owned was free, which no owned resource is. -/
structure Discipline (program : Program Env Frame) (own : Frame → Option Resource)
    (Ok : Env → Frame → Prop) (Free : Env → Resource → Prop) : Prop where
  enter_own : ∀ env env' frame, program.enter env env' frame → own frame = none
  enter_ok : ∀ env env' frame, program.enter env env' frame → Ok env' frame
  enter_keeps : ∀ env env' frame other, program.enter env env' frame → Ok env other → Ok env' other
  act_ok : ∀ env frame env' frame', Ok env frame → program.act env frame env' (some frame') →
    Ok env' frame'
  act_keeps : ∀ env frame env' after other, Ok env frame → program.act env frame env' after →
    Ok env other →
    (∀ r, own other = some r → own frame ≠ some r ∧ ∀ frame' ∈ after, own frame' ≠ some r) →
    Ok env' other
  act_own : ∀ env frame env' frame' r, Ok env frame → program.act env frame env' (some frame') →
    own frame' = some r → own frame = some r ∨ Free env r
  not_free : ∀ env frame r, Ok env frame → own frame = some r → ¬ Free env r

structure Separate (own : Frame → Option Resource) (Ok : Env → Frame → Prop)
    (state : State Env Frame) : Prop where
  ok : ∀ frame ∈ state.frames, Ok state.env frame
  nodup : (state.frames.filterMap own).Nodup

variable {own : Frame → Option Resource} {Ok : Env → Frame → Prop} {Free : Env → Resource → Prop}

theorem own_ne_of_nodup {rest : List Frame} (hnodup : ((frame :: rest).filterMap own).Nodup)
    {other : Frame} (hother : other ∈ rest) {r : Resource} (hown : own other = some r) :
    own frame ≠ some r := by
  intro hframe
  rw [List.filterMap_cons_some hframe, List.nodup_cons] at hnodup
  exact hnodup.1 (List.mem_filterMap.mpr ⟨other, hother, hown⟩)

theorem nodup_rest {rest : List Frame} (hnodup : ((frame :: rest).filterMap own).Nodup) :
    (rest.filterMap own).Nodup := by
  cases hframe : own frame with
  | none => rwa [List.filterMap_cons_none hframe] at hnodup
  | some r =>
      rw [List.filterMap_cons_some hframe, List.nodup_cons] at hnodup
      exact hnodup.2

theorem Discipline.own_ne_after (h : Discipline program own Ok Free) {env env' : Env}
    {frame other : Frame} {after : Option Frame} {rest : List Frame}
    (hsep : Separate own Ok ⟨env, frame :: rest⟩) (hact : program.act env frame env' after)
    (hother : other ∈ rest) {r : Resource} (hown : own other = some r) :
    ∀ frame' ∈ after, own frame' ≠ some r := by
  intro frame' hafter hown'
  obtain rfl : after = some frame' := hafter
  have hok := hsep.ok frame (List.mem_cons_self ..)
  rcases h.act_own _ _ _ _ r hok hact hown' with hown'' | hfree
  · exact own_ne_of_nodup hsep.nodup hother hown hown''
  · exact h.not_free _ _ _ (hsep.ok other (List.mem_cons_of_mem _ hother)) hown hfree

theorem Discipline.separate_run (h : Discipline program own Ok Free) {env env' : Env}
    {frame : Frame} {after : Option Frame} {rest : List Frame}
    (hsep : Separate own Ok ⟨env, frame :: rest⟩) (hact : program.act env frame env' after) :
    Separate own Ok ⟨env', after.toList ++ rest⟩ := by
  have hok := hsep.ok frame (List.mem_cons_self ..)
  have hrest : ∀ other ∈ rest, Ok env' other := by
    intro other hother
    apply h.act_keeps _ _ _ _ _ hok hact (hsep.ok other (List.mem_cons_of_mem _ hother))
    intro r hown
    exact ⟨own_ne_of_nodup hsep.nodup hother hown, h.own_ne_after hsep hact hother hown⟩
  have hnodup := nodup_rest hsep.nodup
  cases after with
  | none => exact ⟨hrest, hnodup⟩
  | some frame' =>
      constructor
      · intro other hother
        rcases List.mem_cons.mp hother with rfl | hother
        · exact h.act_ok _ _ _ _ hok hact
        · exact hrest other hother
      · change ((frame' :: rest).filterMap own).Nodup
        cases hown : own frame' with
        | none => rwa [List.filterMap_cons_none hown]
        | some r =>
            rw [List.filterMap_cons_some hown, List.nodup_cons]
            refine ⟨?_, hnodup⟩
            intro hmem
            obtain ⟨other, hother, hown'⟩ := List.mem_filterMap.mp hmem
            exact h.own_ne_after hsep hact hother hown' frame' rfl hown

/-- **Separation is kept.** Steps that keep to the discipline never let two active handlers own one
resource, and every active handler keeps its invariant. -/
theorem Discipline.separate_step (h : Discipline program own Ok Free)
    (hsep : Separate own Ok state) (hstep : Step program state event next) :
    Separate own Ok next := by
  cases hstep with
  | signal henter =>
      constructor
      · intro other hother
        rcases List.mem_cons.mp hother with rfl | hother
        · exact h.enter_ok _ _ _ henter
        · exact h.enter_keeps _ _ _ _ henter (hsep.ok other hother)
      · rw [List.filterMap_cons_none (h.enter_own _ _ _ henter)]
        exact hsep.nodup
  | run hact => exact h.separate_run hsep hact
  | main => exact ⟨by simp, by simp⟩

/-! ### Interrupted handlers keep what they own -/

structure OwnWrites (program : Program Env Frame) (own : Frame → Option Resource)
    {Content : Type*} (content : Env → Resource → Content) : Prop where
  enter : ∀ env env' frame, program.enter env env' frame → content env' = content env
  act : ∀ env frame env' after, program.act env frame env' after → ∀ r, own frame ≠ some r →
    (∀ frame' ∈ after, own frame' ≠ some r) → content env' r = content env r
  main : ∀ env env', program.main env env' → content env' = content env

theorem Discipline.content_step {Content : Type*} {content : Env → Resource → Content}
    (h : Discipline program own Ok Free) (hwrites : OwnWrites program own content)
    (hsep : Separate own Ok state) (hsuffix : base <:+ state.frames)
    (hstep : StepAbove program base.length state event next) {r : Resource}
    (hframe : frame ∈ base) (hown : own frame = some r) :
    content next.env r = content state.env r := by
  obtain ⟨hstep, habove⟩ := hstep
  cases hstep with
  | signal henter => rw [hwrites.enter _ _ _ henter]
  | run hact =>
      rename_i running after rest
      have hrest : frame ∈ rest := by
        rcases List.suffix_cons_iff.mp hsuffix with heq | hrest
        · subst heq
          simp at habove
        · exact hrest.mem hframe
      exact hwrites.act _ _ _ _ hact r (own_ne_of_nodup hsep.nodup hrest hown)
        (h.own_ne_after hsep hact hrest hown)
  | main hmain => rw [hwrites.main _ _ hmain]

/-- **Interruption is transparent.** While handlers are interrupted, and so also when they are
resumed, what they own has the content it had when they were interrupted. -/
theorem Discipline.content_run {Content : Type*} {content : Env → Resource → Content}
    (h : Discipline program own Ok Free) (hwrites : OwnWrites program own content)
    (hsep : Separate own Ok start) (hsuffix : base <:+ start.frames)
    (hrun : Run (StepAbove program base.length) start events state) {r : Resource}
    (hframe : frame ∈ base) (hown : own frame = some r) :
    content state.env r = content start.env r := by
  have hinv : Separate own Ok state ∧ base <:+ state.frames
      ∧ content state.env r = content start.env r := by
    apply hrun.invariant (fun s => Separate own Ok s ∧ base <:+ s.frames
      ∧ content s.env r = content start.env r) _ ⟨hsep, hsuffix, rfl⟩
    rintro s event next ⟨hsep, hsuffix, hcontent⟩ hstep
    refine ⟨h.separate_step hsep hstep.1, suffix_step hsuffix hstep, ?_⟩
    calc content next.env r = content s.env r :=
          h.content_step hwrites hsep hsuffix hstep hframe hown
      _ = content start.env r := hcontent
  exact hinv.2.2

/-! ### Handlers of a fixed length -/

/-- How many steps a handler has left, which nothing but its own steps changes. -/
structure FixedWork (program : Program Env Frame) (Ok : Env → Frame → Prop) (work : Frame → Nat)
    (total : Nat) : Prop where
  enter : ∀ env env' frame, program.enter env env' frame → work frame = total
  act : ∀ env frame env' after, Ok env frame → program.act env frame env' after →
    after.elim 0 work + 1 = work frame

variable {work : Frame → Nat} {total : Nat}

/-- A signal adds all the steps of a handler, and each step of one takes one away. -/
theorem FixedWork.sum_step (hwork : FixedWork program Ok work total)
    (hsep : Separate own Ok state) (hstep : Step program state event next) :
    [event].count .run + (next.frames.map work).sum
      = (state.frames.map work).sum + total * [event].count .signal := by
  cases hstep with
  | signal henter =>
      have hfirst := hwork.enter _ _ _ henter
      simp [hfirst]
      omega
  | @run env env' frame after rest hact =>
      have hless := hwork.act _ _ _ _ (hsep.ok frame List.mem_cons_self) hact
      cases after <;> simp at hless ⊢ <;> omega
  | main => rfl

/-- The steps made and those left make up what the signals have asked for. -/
theorem FixedWork.count_run (hwork : FixedWork program Ok work total)
    (h : Discipline program own Ok Free) (hframes : start.frames = [])
    (hrun : Run (Step program) start events state) :
    events.count .run + (state.frames.map work).sum = total * events.count .signal := by
  have hboth : Separate own Ok state
      ∧ events.count .run + (state.frames.map work).sum = total * events.count .signal := by
    apply hrun.invariant_history fun past s => Separate own Ok s
      ∧ past.count .run + (s.frames.map work).sum = total * past.count .signal
    · rintro past s event next ⟨hsep, heq⟩ hstep
      have hsum := hwork.sum_step hsep hstep
      refine ⟨h.separate_step hsep hstep, ?_⟩
      rw [List.count_append, List.count_append, Nat.mul_add, ← heq]
      omega
    · exact ⟨⟨by simp [hframes], by simp [hframes]⟩, by simp [hframes]⟩
  exact hboth.2

theorem length_events (events : List Event) :
    events.length = events.count .signal + events.count .run + events.count .main := by
  induction events with
  | nil => rfl
  | cons event events ih => cases event <;> simp [ih] <;> omega

end Interrupts
