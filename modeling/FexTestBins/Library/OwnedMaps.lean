import FexTestBins.Library.Interrupts
import Mathlib.Data.Finset.Card

/-!
# Handlers that own entries of a map

The resources of this file are the keys of a partial map, such as the pages of an address space: a
handler makes an entry where there was none, and what it does not remove itself stays. Then the map
is at every moment what it was at the start and, on top of it, the entries of the active handlers.
-/

namespace Interrupts

open Transition

variable {Env Frame Resource Content : Type*}

/-- The local conditions. The invariant of a handler may depend on its own entry only, and a step
changes no entry but its own, old or new. -/
structure MapDiscipline (program : Program Env Frame) (own : Frame → Option Resource)
    (Ok : Env → Frame → Prop) (content : Env → Resource → Option Content) : Prop where
  enter_own : ∀ env env' frame, program.enter env env' frame → own frame = none
  enter_ok : ∀ env env' frame, program.enter env env' frame → Ok env' frame
  enter_content : ∀ env env' frame, program.enter env env' frame → content env' = content env
  main_content : ∀ env env', program.main env env' → content env' = content env
  act_ok : ∀ env frame env' frame', Ok env frame → program.act env frame env' (some frame') →
    Ok env' frame'
  congr : ∀ env env' frame, Ok env frame →
    (∀ r, own frame = some r → content env' r = content env r) → Ok env' frame
  mapped : ∀ env frame r, Ok env frame → own frame = some r → content env r ≠ none
  others : ∀ env frame env' after, program.act env frame env' after → ∀ r, own frame ≠ some r →
    (∀ frame' ∈ after, own frame' ≠ some r) → content env' r = content env r
  released : ∀ env frame env' after, program.act env frame env' after → ∀ r, own frame = some r →
    (∀ frame' ∈ after, own frame' ≠ some r) → content env' r = none
  acquired : ∀ env frame env' frame', program.act env frame env' (some frame') → ∀ r,
    own frame' = some r → own frame = some r ∨ content env r = none

/-- The map is as it was at the start but for the entries of the active handlers, which were not
there. -/
structure Kept (own : Frame → Option Resource) (Ok : Env → Frame → Prop)
    (content : Env → Resource → Option Content) (init : Resource → Option Content)
    (state : State Env Frame) : Prop where
  separate : Separate own Ok state
  outside : ∀ r, (∀ frame ∈ state.frames, own frame ≠ some r) → content state.env r = init r
  unmapped : ∀ frame ∈ state.frames, ∀ r, own frame = some r → init r = none

variable {program : Program Env Frame} {own : Frame → Option Resource} {Ok : Env → Frame → Prop}
  {content : Env → Resource → Option Content} {init : Resource → Option Content}
  {state next start : State Env Frame} {event : Event} {events : List Event}

theorem MapDiscipline.discipline (h : MapDiscipline program own Ok content) :
    Discipline program own Ok (fun env r => content env r = none) where
  enter_own := h.enter_own
  enter_ok := h.enter_ok
  enter_keeps := by
    intro env env' frame other henter hother
    apply h.congr env env' other hother
    intro r _
    rw [h.enter_content env env' frame henter]
  act_ok := h.act_ok
  act_keeps := by
    intro env frame env' after other _ hact hother hapart
    apply h.congr env env' other hother
    intro r hown
    exact h.others env frame env' after hact r (hapart r hown).1 (hapart r hown).2
  act_own := fun env frame env' frame' r _ hact => h.acquired env frame env' frame' hact r
  not_free := h.mapped

theorem Kept.of_start (hframes : start.frames = []) :
    Kept own Ok content (content start.env) start where
  separate := ⟨by simp [hframes], by simp [hframes]⟩
  outside := fun _ _ => rfl
  unmapped := by simp [hframes]

theorem Kept.quiet (h : Kept own Ok content init state) (hframes : state.frames = []) :
    content state.env = init := by
  funext r
  apply h.outside r
  simp [hframes]

/-- Where the active handlers have fewer entries than there was room for, some room is left. -/
theorem Kept.exists_free [DecidableEq Resource] (h : Kept own Ok content init state)
    (room : Finset Resource) (hroom : ∀ r ∈ room, init r = none)
    (hfew : (state.frames.filterMap own).length < room.card) : ∃ r, content state.env r = none := by
  have hcard := (List.toFinset_card_le (state.frames.filterMap own)).trans_lt hfew
  obtain ⟨r, hmem, hnot⟩ := Finset.exists_mem_notMem_of_card_lt_card hcard
  refine ⟨r, ?_⟩
  rw [h.outside r, hroom r hmem]
  intro frame hframe hown
  exact hnot (List.mem_toFinset.mpr (List.mem_filterMap.mpr ⟨frame, hframe, hown⟩))

/-- An entry that is not there is nobody's, so it was not there at the start. -/
theorem MapDiscipline.init_of_none (h : MapDiscipline program own Ok content)
    (hkept : Kept own Ok content init state) {r : Resource} (hnone : content state.env r = none) :
    init r = none := by
  rw [← hkept.outside r _, hnone]
  intro frame hframe hown
  exact h.mapped _ _ r (hkept.separate.ok frame hframe) hown hnone

/-- A step of somebody else, who does not touch the map. -/
theorem MapDiscipline.kept_congr (h : MapDiscipline program own Ok content) {env env' : Env}
    {frames : List Frame} (hkept : Kept own Ok content init ⟨env, frames⟩)
    (hsame : content env' = content env) : Kept own Ok content init ⟨env', frames⟩ where
  separate := by
    refine ⟨?_, hkept.separate.nodup⟩
    intro frame hframe
    apply h.congr env env' frame (hkept.separate.ok frame hframe)
    intro r _
    rw [hsame]
  outside := by
    intro r hfree
    rw [hsame]
    exact hkept.outside r hfree
  unmapped := hkept.unmapped

theorem MapDiscipline.kept_run (h : MapDiscipline program own Ok content) {env env' : Env}
    {frame : Frame} {after : Option Frame} {rest : List Frame}
    (hkept : Kept own Ok content init ⟨env, frame :: rest⟩)
    (hact : program.act env frame env' after) :
    Kept own Ok content init ⟨env', after.toList ++ rest⟩ := by
  refine ⟨h.discipline.separate_run hkept.separate hact, ?_, ?_⟩
  · intro r hfree
    have hlost : ∀ frame' ∈ after, own frame' ≠ some r := by
      intro frame' hafter
      exact hfree frame' (List.mem_append_left _ (Option.mem_toList.mpr hafter))
    by_cases hown : own frame = some r
    · rw [hkept.unmapped frame List.mem_cons_self r hown]
      exact h.released env frame env' after hact r hown hlost
    · rw [h.others env frame env' after hact r hown hlost]
      apply hkept.outside r
      intro other hother
      rcases List.mem_cons.mp hother with rfl | hother
      · exact hown
      · exact hfree other (List.mem_append_right _ hother)
  · intro other hother r hown
    rcases List.mem_append.mp hother with hafter | hother
    · obtain rfl : after = some other := Option.mem_toList.mp hafter
      rcases h.acquired env frame env' other hact r hown with hold | hnone
      · exact hkept.unmapped frame List.mem_cons_self r hold
      · exact h.init_of_none hkept hnone
    · exact hkept.unmapped other (List.mem_cons_of_mem _ hother) r hown

theorem MapDiscipline.kept_step (h : MapDiscipline program own Ok content)
    (hkept : Kept own Ok content init state) (hstep : Step program state event next) :
    Kept own Ok content init next := by
  cases hstep with
  | @signal env env' frame frames henter =>
      have hframes := h.kept_congr hkept (h.enter_content env env' frame henter)
      refine ⟨h.discipline.separate_step hkept.separate (.signal henter), ?_, ?_⟩
      · intro r hfree
        apply hframes.outside r
        intro other hother
        exact hfree other (List.mem_cons_of_mem _ hother)
      · intro other hother r hown
        rcases List.mem_cons.mp hother with rfl | hother
        · rw [h.enter_own env env' other henter] at hown
          cases hown
        · exact hkept.unmapped other hother r hown
  | run hact => exact h.kept_run hkept hact
  | @main env env' hmain => exact h.kept_congr hkept (h.main_content env env' hmain)

end Interrupts
