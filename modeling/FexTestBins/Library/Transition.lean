import Mathlib.Logic.Function.Iterate
import Mathlib.Tactic.Common

/-!
# Runs of a labelled transition relation

A run is the list of labels it was made of together with its two end states. An invariant may
speak of the labels so far, which is how a property of a whole history is carried from step to
step.
-/

namespace Transition

variable {State Label : Type*}

inductive Run (step : State → Label → State → Prop) : State → List Label → State → Prop
  | refl (state : State) : Run step state [] state
  | cons {start middle finish : State} {label : Label} {labels : List Label} :
      step start label middle → Run step middle labels finish →
        Run step start (label :: labels) finish

def Stuck (step : State → Label → State → Prop) (state : State) : Prop :=
  ∀ label next, ¬ step state label next

def Deterministic (step : State → Label → State → Prop) : Prop :=
  ∀ state label next label' next',
    step state label next → step state label' next' → label = label' ∧ next = next'

namespace Run

variable {step : State → Label → State → Prop} {start middle finish finish' : State}
  {label : Label} {labels labels' : List Label}

theorem single (hstep : step start label finish) : Run step start [label] finish :=
  .cons hstep (.refl finish)

theorem trans (hfirst : Run step start labels middle) (hsecond : Run step middle labels' finish) :
    Run step start (labels ++ labels') finish := by
  induction hfirst with
  | refl => exact hsecond
  | cons hstep _ ih => exact .cons hstep (ih hsecond)

theorem snoc (hrun : Run step start labels middle) (hstep : step middle label finish) :
    Run step start (labels ++ [label]) finish :=
  hrun.trans (single hstep)

theorem mono {step' : State → Label → State → Prop}
    (hstep : ∀ state label next, step state label next → step' state label next)
    (hrun : Run step start labels finish) : Run step' start labels finish := by
  induction hrun with
  | refl state => exact .refl state
  | cons hfirst _ ih => exact .cons (hstep _ _ _ hfirst) ih

/-- An invariant over the history: what holds of the labels so far and the state reached, and is
kept by one more step, holds at the end of every run. -/
theorem invariant_history (inv : List Label → State → Prop)
    (hstep : ∀ past state label next,
      inv past state → step state label next → inv (past ++ [label]) next)
    (hrun : Run step start labels finish) (hstart : inv [] start) : inv labels finish := by
  have hlater : ∀ past, inv past start → inv (past ++ labels) finish := by
    intro past hpast
    clear hstart
    induction hrun generalizing past with
    | refl => simpa using hpast
    | cons hfirst _ ih => simpa using ih _ (hstep _ _ _ _ hpast hfirst)
  exact hlater [] hstart

/-- The invariant rule: what every step keeps, every run keeps. -/
theorem invariant (inv : State → Prop)
    (hstep : ∀ state label next, inv state → step state label next → inv next)
    (hrun : Run step start labels finish) (hstart : inv start) : inv finish := by
  apply hrun.invariant_history (fun _ => inv) _ hstart
  intro _ state label next hinv
  exact hstep state label next hinv

/-- What a step cannot bring about, a run cannot. -/
theorem backward {ok : State → Prop}
    (hback : ∀ state label next, step state label next → ok next → ok state)
    (hrun : Run step start labels finish) (hok : ok finish) : ok start := by
  induction hrun with
  | refl => exact hok
  | cons hstep _ ih => exact hback _ _ _ hstep (ih hok)

/-- A run that ends well has been well all along. -/
theorem guarded {ok : State → Prop}
    (hback : ∀ state label next, step state label next → ok next → ok state)
    (hrun : Run step start labels finish) (hok : ok finish) :
    Run (fun state label next => step state label next ∧ ok next) start labels finish := by
  induction hrun with
  | refl state => exact .refl state
  | cons hstep hrest ih => exact .cons ⟨hstep, hrest.backward hback hok⟩ (ih hok)

theorem length_le (measure : State → Nat) (inv : State → Prop)
    (hinv : ∀ state label next, inv state → step state label next → inv next)
    (hdecreases : ∀ state label next,
      inv state → step state label next → measure next < measure state)
    (hrun : Run step start labels finish) (hstart : inv start) :
    labels.length ≤ measure start := by
  induction hrun with
  | refl => exact Nat.zero_le _
  | cons hstep _ ih =>
      have hrest := ih (hinv _ _ _ hstart hstep)
      have hfirst := hdecreases _ _ _ hstart hstep
      rw [List.length_cons]
      omega

/-- Where runs are bounded, some run goes on until it is stuck. -/
theorem exists_stuck {bound : Nat}
    (hbound : ∀ labels finish, Run step start labels finish → labels.length ≤ bound) :
    ∃ labels finish, Run step start labels finish ∧ Stuck step finish := by
  by_contra hnone
  have hlonger : ∀ n, ∃ labels finish, Run step start labels finish ∧ labels.length = n := by
    intro n
    induction n with
    | zero => exact ⟨[], start, .refl start, rfl⟩
    | succ n ih =>
        obtain ⟨labels, finish, hrun, hlength⟩ := ih
        by_contra hlast
        apply hnone
        refine ⟨labels, finish, hrun, ?_⟩
        intro label next hstep
        apply hlast
        exact ⟨_, next, hrun.snoc hstep, by simp [hlength]⟩
  obtain ⟨labels, finish, hrun, hlength⟩ := hlonger (bound + 1)
  have hle := hbound labels finish hrun
  omega

theorem relabel {Label' : Type*} {step' : State → Label' → State → Prop}
    (hstep : ∀ state label next, step state label next → ∃ label', step' state label' next)
    (hrun : Run step start labels finish) : ∃ labels', Run step' start labels' finish := by
  induction hrun with
  | refl state => exact ⟨[], .refl state⟩
  | cons hfirst _ ih =>
      obtain ⟨label', hfirst'⟩ := hstep _ _ _ hfirst
      obtain ⟨labels', hrest⟩ := ih
      exact ⟨label' :: labels', .cons hfirst' hrest⟩

/-- Of two runs of a deterministic system from one state, one is the beginning of the other. -/
theorem comparable (hdet : Deterministic step) (hrun : Run step start labels finish)
    (hrun' : Run step start labels' finish') :
    (∃ rest, Run step finish rest finish' ∧ labels' = labels ++ rest)
      ∨ ∃ rest, Run step finish' rest finish ∧ labels = labels' ++ rest := by
  induction hrun generalizing labels' with
  | refl => exact .inl ⟨labels', hrun', rfl⟩
  | cons hstep hrest ih =>
      cases hrun' with
      | refl => exact .inr ⟨_, .cons hstep hrest, rfl⟩
      | cons hstep' hrest' =>
          obtain ⟨rfl, rfl⟩ := hdet _ _ _ _ _ hstep hstep'
          rcases ih hrest' with ⟨rest, hlater, rfl⟩ | ⟨rest, hlater, rfl⟩
          · exact .inl ⟨rest, hlater, rfl⟩
          · exact .inr ⟨rest, hlater, rfl⟩

theorem eq_of_stuck (hdet : Deterministic step)
    (hrun : Run step start labels finish) (hstuck : Stuck step finish)
    (hrun' : Run step start labels' finish') (hstuck' : Stuck step finish') :
    labels = labels' ∧ finish = finish' := by
  induction hrun generalizing labels' with
  | refl =>
      cases hrun' with
      | refl => exact ⟨rfl, rfl⟩
      | cons hstep => exact absurd hstep (hstuck _ _)
  | cons hstep _ ih =>
      cases hrun' with
      | refl => exact absurd hstep (hstuck' _ _)
      | cons hstep' hrest' =>
          obtain ⟨rfl, rfl⟩ := hdet _ _ _ _ _ hstep hstep'
          obtain ⟨rfl, rfl⟩ := ih hstuck hrest'
          exact ⟨rfl, rfl⟩

end Run

/-! ### A total step function -/

def Iterates (step : State → State) (start finish : State) : Prop :=
  ∃ n, step^[n] start = finish

namespace Iterates

variable {step : State → State} {start middle finish : State}

theorem refl (state : State) : Iterates step state state :=
  ⟨0, rfl⟩

theorem trans (hfirst : Iterates step start middle) (hsecond : Iterates step middle finish) :
    Iterates step start finish := by
  obtain ⟨m, rfl⟩ := hfirst
  obtain ⟨n, rfl⟩ := hsecond
  exact ⟨n + m, Function.iterate_add_apply step n m start⟩

theorem head (hstep : step start = middle) (hrest : Iterates step middle finish) :
    Iterates step start finish :=
  trans ⟨1, hstep⟩ hrest

theorem of_run {Label : Type*} {relation : State → Label → State → Prop} {labels : List Label}
    (hstep : ∀ state label next, relation state label next → step state = next)
    (hrun : Run relation start labels finish) : Iterates step start finish := by
  induction hrun with
  | refl => exact refl _
  | cons hfirst _ ih => exact head (hstep _ _ _ hfirst) ih

/-- Where the steps lead to a state that they leave alone, there is no other such state. -/
theorem eq_of_fixed (hrun : Iterates step start finish) (hfixed : step finish = finish)
    (hrun' : Iterates step start middle) (hfixed' : step middle = middle) : finish = middle := by
  obtain ⟨m, rfl⟩ := hrun
  obtain ⟨n, rfl⟩ := hrun'
  calc step^[m] start
      = step^[n] (step^[m] start) := (Function.iterate_fixed hfixed n).symm
    _ = step^[n + m] start := (Function.iterate_add_apply step n m start).symm
    _ = step^[m + n] start := by rw [Nat.add_comm]
    _ = step^[m] (step^[n] start) := Function.iterate_add_apply step m n start
    _ = step^[n] start := Function.iterate_fixed hfixed' m

end Iterates

/-! ### Steps that may fault -/

/-- A step to a state that is not `ok` is a fault, and nothing follows a fault. -/
def checked (ok : State → Prop) [DecidablePred ok] (step : State → State) :
    Option State → Option State
  | some state => if ok (step state) then some (step state) else none
  | none => none

section Checked

variable {ok : State → Prop} [DecidablePred ok] {step : State → State}
  {start finish final : State}

theorem checked_of_ok (hok : ok (step start)) : checked ok step (some start) = some (step start) :=
  if_pos hok

theorem checked_eq_some :
    checked ok step (some start) = some finish ↔ step start = finish ∧ ok finish := by
  by_cases hok : ok (step start)
  · rw [checked_of_ok hok, Option.some.injEq]
    exact ⟨fun heq => ⟨heq, heq ▸ hok⟩, fun h => h.1⟩
  · have hfault : checked ok step (some start) = none := if_neg hok
    rw [hfault]
    exact ⟨fun h => (Option.some_ne_none _ h.symm).elim, fun ⟨heq, h⟩ => absurd (heq ▸ h) hok⟩

namespace Iterates

theorem of_checked (hstart : ok start)
    (hrun : Iterates (checked ok step) (some start) (some finish)) :
    Iterates step start finish ∧ ok finish := by
  obtain ⟨n, hn⟩ := hrun
  induction n generalizing start with
  | zero =>
      obtain rfl := Option.some.inj hn
      exact ⟨.refl _, hstart⟩
  | succ n ih =>
      rw [Function.iterate_succ_apply] at hn
      by_cases hok : ok (step start)
      · rw [checked_of_ok hok] at hn
        obtain ⟨hrest, hfinish⟩ := ih hok hn
        exact ⟨.head rfl hrest, hfinish⟩
      · have hfault : checked ok step (some start) = none := if_neg hok
        rw [hfault, Function.iterate_fixed rfl n] at hn
        cases hn

theorem checked (hback : ∀ state, ok (step state) → ok state)
    (hrun : Iterates step start finish) (hok : ok finish) :
    Iterates (checked ok step) (some start) (some finish) := by
  obtain ⟨n, rfl⟩ := hrun
  induction n with
  | zero => exact .refl _
  | succ n ih =>
      rw [Function.iterate_succ_apply'] at hok ⊢
      exact (ih (hback _ hok)).trans ⟨1, checked_of_ok hok⟩

/-- Where the steps lead to a state in which they halt, they do so without a fault exactly if this
state is `ok`. -/
theorem checked_iff {halted post : State → Prop} (hback : ∀ state, ok (step state) → ok state)
    (hstart : ok start) (hhalted : ∀ state, halted state → step state = state)
    (hrun : Iterates step start final) (hfinal : halted final) :
    (∃ finish, Iterates (Transition.checked ok step) (some start) (some finish) ∧ halted finish
        ∧ post finish) ↔ ok final ∧ post final := by
  constructor
  · rintro ⟨finish, hchecked, hfinish, hpost⟩
    obtain ⟨hrun', hok⟩ := of_checked hstart hchecked
    obtain rfl := hrun'.eq_of_fixed (hhalted _ hfinish) hrun (hhalted _ hfinal)
    exact ⟨hok, hpost⟩
  · rintro ⟨hok, hpost⟩
    exact ⟨final, hrun.checked hback hok, hfinal, hpost⟩

end Iterates

end Checked

end Transition
