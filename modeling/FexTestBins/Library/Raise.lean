import FexTestBins.Library.Transition

/-!
# Signals that a program raises itself

A main program and a handler share an environment. The main program waits in `raise` until its
signal has been handled. A `raise` inside the handler is delivered at once, in which case the
handler is entered again on top of the one that raised it, or it is held until that one returns;
which of them, is the system's choice.

Code is given in blocks that reach from one raise to the next: what a block does to the environment,
and how it ends.
-/

namespace Raise

open Transition

inductive Outcome (Pc Value : Type*) where
  | goto (pc : Pc)
  | raise (pc : Pc)
  | done (value : Value)
  | exit (code : Int)

structure Program (Env MainPc HandlerPc : Type*) where
  main : Env → MainPc → Env × Outcome MainPc Int
  handler : Env → HandlerPc → Env × Outcome HandlerPc Unit
  entry : HandlerPc

/-- An active handler, and whether a signal is held until it returns. -/
structure Frame (HandlerPc : Type*) where
  pc : HandlerPc
  held : Bool
  deriving DecidableEq

/-- How a program has ended: through `exit`, or back from `main`. -/
inductive Ending where
  | exited (code : Int)
  | returned (value : Int)
  deriving DecidableEq

structure State (Env MainPc HandlerPc : Type*) where
  env : Env
  main : MainPc
  frames : List (Frame HandlerPc)
  ending : Option Ending

inductive Event where
  | run
  | atOnce
  | held
  deriving DecidableEq

variable {Env MainPc HandlerPc : Type*} (program : Program Env MainPc HandlerPc)

def Program.enter : Frame HandlerPc := { pc := program.entry, held := false }

def mainMoves (s : State Env MainPc HandlerPc) : List (Event × State Env MainPc HandlerPc) :=
  match program.main s.env s.main with
  | (env, .goto pc) => [(.run, { s with env := env, main := pc })]
  | (env, .raise pc) => [(.run, { s with env := env, main := pc, frames := [program.enter] })]
  | (env, .done value) => [(.run, { s with env := env, ending := some (.returned value) })]
  | (env, .exit code) => [(.run, { s with env := env, ending := some (.exited code) })]

def handlerMoves (s : State Env MainPc HandlerPc) (frame : Frame HandlerPc)
    (rest : List (Frame HandlerPc)) : List (Event × State Env MainPc HandlerPc) :=
  match program.handler s.env frame.pc with
  | (env, .goto pc) => [(.run, { s with env := env, frames := { frame with pc := pc } :: rest })]
  | (env, .raise pc) =>
      [(.atOnce, { s with env := env, frames := program.enter :: { frame with pc := pc } :: rest }),
        (.held, { s with env := env, frames := { pc := pc, held := true } :: rest })]
  | (env, .done _) =>
      [(.run, { s with env := env, frames := if frame.held then program.enter :: rest else rest })]
  | (env, .exit code) => [(.run, { s with env := env, ending := some (.exited code) })]

def moves (s : State Env MainPc HandlerPc) : List (Event × State Env MainPc HandlerPc) :=
  match s.ending, s.frames with
  | some _, _ => []
  | none, [] => mainMoves program s
  | none, frame :: rest => handlerMoves program s frame rest

def Step (s : State Env MainPc HandlerPc) (event : Event) (next : State Env MainPc HandlerPc) :
    Prop :=
  (event, next) ∈ moves program s

variable {program} {s : State Env MainPc HandlerPc}

theorem exists_step (hending : s.ending = none) : ∃ event next, Step program s event next := by
  have hmoves : moves program s ≠ [] := by
    cases hframes : s.frames with
    | nil =>
        simp only [moves, hending, hframes, mainMoves]
        split <;> exact List.cons_ne_nil _ _
    | cons frame rest =>
        simp only [moves, hending, hframes, handlerMoves]
        split <;> exact List.cons_ne_nil _ _
  obtain ⟨move, hmove⟩ := List.exists_mem_of_ne_nil _ hmoves
  exact ⟨move.1, move.2, hmove⟩

/-! ### What a step does -/

section Inversion

variable {next : State Env MainPc HandlerPc} {event : Event} {env : Env} {frame : Frame HandlerPc}
  {rest : List (Frame HandlerPc)}

theorem Step.main_goto {pc : MainPc} (hstep : Step program s event next) (hending : s.ending = none)
    (hframes : s.frames = []) (hmain : program.main s.env s.main = (env, .goto pc)) :
    event = .run ∧ next = { s with env := env, main := pc } := by
  simpa [Step, moves, hending, hframes, mainMoves, hmain] using hstep

theorem Step.main_raise {pc : MainPc} (hstep : Step program s event next)
    (hending : s.ending = none) (hframes : s.frames = [])
    (hmain : program.main s.env s.main = (env, .raise pc)) :
    event = .run ∧ next = { s with env := env, main := pc, frames := [program.enter] } := by
  simpa [Step, moves, hending, hframes, mainMoves, hmain] using hstep

theorem Step.main_done {value : Int} (hstep : Step program s event next)
    (hending : s.ending = none) (hframes : s.frames = [])
    (hmain : program.main s.env s.main = (env, .done value)) :
    event = .run ∧ next = { s with env := env, ending := some (.returned value) } := by
  simpa [Step, moves, hending, hframes, mainMoves, hmain] using hstep

theorem Step.handler_raise {pc : HandlerPc} (hstep : Step program s event next)
    (hending : s.ending = none) (hframes : s.frames = frame :: rest)
    (hhandler : program.handler s.env frame.pc = (env, .raise pc)) :
    event = .atOnce ∧ next = { s with
        env := env, frames := program.enter :: { frame with pc := pc } :: rest }
      ∨ event = .held ∧ next = { s with
          env := env, frames := { pc := pc, held := true } :: rest } := by
  simpa [Step, moves, hending, hframes, handlerMoves, hhandler] using hstep

theorem Step.handler_done (hstep : Step program s event next) (hending : s.ending = none)
    (hframes : s.frames = frame :: rest)
    (hhandler : program.handler s.env frame.pc = (env, .done ())) :
    event = .run ∧ next = { s with
      env := env, frames := if frame.held then program.enter :: rest else rest } := by
  simpa [Step, moves, hending, hframes, handlerMoves, hhandler] using hstep

theorem Step.handler_exit {code : Int} (hstep : Step program s event next)
    (hending : s.ending = none) (hframes : s.frames = frame :: rest)
    (hhandler : program.handler s.env frame.pc = (env, .exit code)) :
    event = .run ∧ next = { s with env := env, ending := some (.exited code) } := by
  simpa [Step, moves, hending, hframes, handlerMoves, hhandler] using hstep

end Inversion

theorem stuck_of_ended {ending : Ending} (hending : s.ending = some ending) :
    Stuck (Step program) s := by
  intro event next hstep
  simp [Step, moves, hending] at hstep

end Raise
