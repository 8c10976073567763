import Mathlib.Tactic.Common

/-!
# Programs that may crash

A program over a state returns a value or crashes, and leaves a state behind in either case. What a
program does from a given state is stated with `Returns`, whose rules follow the text of the
program.
-/

namespace Crashing

universe u v

variable {σ α β : Type u}

def Program (σ : Type u) (α : Type u) : Type u := σ → Option α × σ

instance : Monad (Program σ) where
  pure value := fun s => (some value, s)
  bind program rest := fun s =>
    match program s with
    | (some value, s') => rest value s'
    | (none, s') => (none, s')

/-- A value computed from the state; a crash if there is none. -/
def require (value? : σ → Option α) : Program σ α := fun s => (value? s, s)

def update (change : σ → σ) : Program σ PUnit := fun s => (some .unit, change s)

def crash : Program σ α := fun s => (none, s)

/-- From this state the program does not crash, and its value and the state it leaves satisfy the
condition. -/
def Returns (program : Program σ α) (s : σ) (post : α → σ → Prop) : Prop :=
  ∃ value s', program s = (some value, s') ∧ post value s'

variable {program : Program σ α} {rest : α → Program σ β} {s : σ} {post post' : α → σ → Prop}
  {last : β → σ → Prop}

theorem bind_of_returned {value : α} {s' : σ} (h : program s = (some value, s')) :
    (program >>= rest) s = rest value s' := by
  change (match program s with
    | (some value, s') => rest value s'
    | (none, s') => (none, s')) = _
  rw [h]

theorem bind_of_crashed {s' : σ} (h : program s = (none, s')) :
    (program >>= rest) s = (none, s') := by
  change (match program s with
    | (some value, s') => rest value s'
    | (none, s') => (none, s')) = _
  rw [h]

theorem returns_pure {value : α} (h : post value s) :
    Returns (pure value : Program σ α) s post :=
  ⟨value, s, rfl, h⟩

theorem Returns.bind (h : Returns program s post)
    (hrest : ∀ value s', post value s' → Returns (rest value) s' last) :
    Returns (program >>= rest) s last := by
  obtain ⟨value, s', hrun, hpost⟩ := h
  obtain ⟨value', s'', hrun', hlast⟩ := hrest value s' hpost
  exact ⟨value', s'', (bind_of_returned hrun).trans hrun', hlast⟩

theorem Returns.mono (h : Returns program s post)
    (himp : ∀ value s', post value s' → post' value s') : Returns program s post' := by
  obtain ⟨value, s', hrun, hpost⟩ := h
  exact ⟨value, s', hrun, himp value s' hpost⟩

/-- There is only one run. -/
theorem Returns.and (h : Returns program s post) (h' : Returns program s post') :
    Returns program s fun value s' => post value s' ∧ post' value s' := by
  obtain ⟨value, s', hrun, hpost⟩ := h
  obtain ⟨value', s'', hrun', hpost'⟩ := h'
  obtain ⟨rfl, rfl⟩ : value = value' ∧ s' = s'' := by simpa using hrun.symm.trans hrun'
  exact ⟨value, s', hrun, hpost, hpost'⟩

theorem returns_update {change : σ → σ} {post : PUnit → σ → Prop} (h : post .unit (change s)) :
    Returns (update change) s post :=
  ⟨.unit, change s, rfl, h⟩

theorem returns_require_bind {value? : σ → Option α} {value : α} (hvalue : value? s = some value)
    (h : Returns (rest value) s last) : Returns (require value? >>= rest) s last := by
  have hrequire : Returns (require value?) s fun value' s' => value' = value ∧ s' = s :=
    ⟨value, s, by rw [require, hvalue], rfl, rfl⟩
  refine hrequire.bind ?_
  rintro _ _ ⟨rfl, rfl⟩
  exact h

theorem returns_update_bind {change : σ → σ} {rest : PUnit → Program σ β}
    (h : Returns (rest .unit) (change s) last) : Returns (update change >>= rest) s last := by
  have hupdate : Returns (update change) s fun _ s' => s' = change s := returns_update rfl
  refine hupdate.bind ?_
  rintro ⟨⟩ _ rfl
  exact h

end Crashing
