import Mathlib.Logic.Function.Basic

/-!
# Saved contexts and one signal

A machine runs one execution at a time: a base program, and on top of it the handlers of the signal
that interrupted it. The signal is masked while a handler runs, until its return restores the mask
of what it interrupted. A context keeps an execution together with its mask.
-/

namespace Contexts

/-- An active handler, with the mask that its return restores. -/
structure Frame (Handler : Type*) where
  handler : Handler
  restores : Bool

structure Execution (Base Handler : Type*) where
  base : Base
  frames : List (Frame Handler)

/-- A saved execution. `resumed` is a record of whether it has been installed since it was saved. -/
structure Context (Base Handler : Type*) where
  execution : Execution Base Handler
  masked : Bool
  resumed : Bool

structure Machine (Name Base Handler : Type*) where
  running : Execution Base Handler
  masked : Bool
  contexts : Name → Option (Context Base Handler)

namespace Machine

variable {Name Base Handler : Type*}

def goto (machine : Machine Name Base Handler) (base : Base) : Machine Name Base Handler :=
  { machine with running := { machine.running with base := base } }

def handlerGoto (machine : Machine Name Base Handler) (handler : Handler) :
    Machine Name Base Handler :=
  match machine.running.frames with
  | [] => machine
  | frame :: rest =>
      { machine with
        running := { machine.running with frames := { frame with handler := handler } :: rest } }

def interrupt (machine : Machine Name Base Handler) (entry : Handler) :
    Machine Name Base Handler :=
  { machine with
    running := { machine.running with frames := ⟨entry, machine.masked⟩ :: machine.running.frames }
    masked := true }

def ret (machine : Machine Name Base Handler) : Machine Name Base Handler :=
  match machine.running.frames with
  | [] => machine
  | frame :: rest =>
      { machine with
        running := { machine.running with frames := rest }
        masked := frame.restores }

variable {machine next : Machine Name Base Handler} {base : Base} {frame : Frame Handler}
  {rest : List (Frame Handler)}

@[simp]
theorem handlerGoto_base (machine : Machine Name Base Handler) (handler : Handler) :
    (machine.handlerGoto handler).running.base = machine.running.base := by
  unfold handlerGoto
  split <;> rfl

@[simp]
theorem handlerGoto_contexts (machine : Machine Name Base Handler) (handler : Handler) :
    (machine.handlerGoto handler).contexts = machine.contexts := by
  unfold handlerGoto
  split <;> rfl

@[simp]
theorem ret_contexts (machine : Machine Name Base Handler) :
    machine.ret.contexts = machine.contexts := by
  unfold ret
  split <;> rfl

theorem handlerGoto_of_running (hrunning : machine.running = ⟨base, frame :: rest⟩)
    (handler : Handler) : machine.handlerGoto handler
      = { machine with running := ⟨base, ⟨handler, frame.restores⟩ :: rest⟩ } := by
  simp [handlerGoto, hrunning]

theorem ret_of_running (hrunning : machine.running = ⟨base, frame :: rest⟩) :
    machine.ret = { machine with running := ⟨base, rest⟩, masked := frame.restores } := by
  simp [ret, hrunning]

variable [DecidableEq Name]

/-- `makecontext`, for a context whose `uc_sigmask` is given. -/
def makecontext (machine : Machine Name Base Handler) (name : Name) (base : Base)
    (masked : Bool) : Machine Name Base Handler :=
  { machine with
    contexts := Function.update machine.contexts name (some ⟨⟨base, []⟩, masked, false⟩) }

/-- `setcontext`, which needs a context that was made or saved. -/
def setcontext (machine : Machine Name Base Handler) (name : Name) :
    Option (Machine Name Base Handler) :=
  (machine.contexts name).map fun context =>
    { running := context.execution
      masked := context.masked
      contexts :=
        Function.update machine.contexts name (some { context with resumed := true }) }

def save (machine : Machine Name Base Handler) (name : Name) : Machine Name Base Handler :=
  { machine with
    contexts :=
      Function.update machine.contexts name (some ⟨machine.running, machine.masked, false⟩) }

/-- `swapcontext`, at the place where the saved execution will go on. -/
def swapcontext (machine : Machine Name Base Handler) (old new : Name) :
    Option (Machine Name Base Handler) :=
  (machine.save old).setcontext new

variable {name old new : Name} {context : Context Base Handler}

theorem setcontext_of_context (hcontext : machine.contexts name = some context) :
    machine.setcontext name = some
      { running := context.execution
        masked := context.masked
        contexts :=
          Function.update machine.contexts name (some { context with resumed := true }) } := by
  simp [setcontext, hcontext]

/-! ### Whose executions a context keeps -/

/-- Every context keeps an execution of a base program that it is for. -/
def Owned (owns : Name → Base → Prop) (machine : Machine Name Base Handler) : Prop :=
  ∀ name context, machine.contexts name = some context → owns name context.execution.base

variable {owns : Name → Base → Prop}

theorem Owned.update (h : machine.Owned owns) (hbase : owns name context.execution.base)
    (hcontexts : next.contexts = Function.update machine.contexts name (some context)) :
    next.Owned owns := by
  intro other kept hkept
  rw [hcontexts] at hkept
  by_cases heq : other = name
  · subst heq
    rw [Function.update_self] at hkept
    cases hkept
    exact hbase
  · rw [Function.update_of_ne heq] at hkept
    exact h other kept hkept

omit [DecidableEq Name] in
theorem Owned.congr (h : machine.Owned owns) (hcontexts : next.contexts = machine.contexts) :
    next.Owned owns := by
  intro name context hcontext
  exact h name context (hcontexts ▸ hcontext)

omit [DecidableEq Name] in
theorem Owned.handlerGoto (h : machine.Owned owns) (handler : Handler) :
    (machine.handlerGoto handler).Owned owns :=
  h.congr (handlerGoto_contexts machine handler)

omit [DecidableEq Name] in
theorem Owned.ret (h : machine.Owned owns) : machine.ret.Owned owns :=
  h.congr (ret_contexts machine)

theorem Owned.makecontext (h : machine.Owned owns) (hbase : owns name base)
    (masked : Bool) : (machine.makecontext name base masked).Owned owns :=
  h.update hbase rfl

theorem Owned.setcontext (h : machine.Owned owns) (hset : machine.setcontext name = some next) :
    next.Owned owns := by
  obtain ⟨context, hcontext, rfl⟩ := Option.map_eq_some_iff.mp hset
  have hbase : owns name { context with resumed := true }.execution.base := h name context hcontext
  exact h.update hbase rfl

/-- A swap keeps the owners if the context it saves into is for what is running. -/
theorem Owned.swapcontext (h : machine.Owned owns)
    (hbase : owns old machine.running.base) (hswap : machine.swapcontext old new = some next) :
    next.Owned owns :=
  (h.update hbase rfl : (machine.save old).Owned owns).setcontext hswap

end Machine

end Contexts
