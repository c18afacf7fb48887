import Mathlib.Data.List.Basic

/-! Runs of a state machine over a list of events, with a condition that every step has to meet. -/

namespace PiRp

variable {σ ε : Type*} (step : σ → ε → σ) (allowed : σ → ε → Prop)

/-- Every step of the run from the state meets the condition. -/
def AllowedRun (state : σ) (events : List ε) : Prop :=
  match events with
  | [] => True
  | event :: events => allowed state event ∧ AllowedRun (step state event) events

instance decidableAllowedRun [∀ state event, Decidable (allowed state event)] (state : σ) (events : List ε) :
    Decidable (AllowedRun step allowed state events) :=
  match events with
  | [] => isTrue trivial
  | event :: events =>
    have := decidableAllowedRun (step state event) events
    inferInstanceAs (Decidable (allowed state event ∧ AllowedRun step allowed (step state event) events))

variable {step allowed}

theorem AllowedRun.invariant {invariant : σ → Prop}
    (hstep : ∀ state event, invariant state → allowed state event → invariant (step state event))
    {state : σ} {events : List ε} (hallow : AllowedRun step allowed state events) (hstate : invariant state) :
    invariant (events.foldl step state) := by
  induction events generalizing state with
  | nil => exact hstate
  | cons event events ih => exact ih hallow.2 (hstep state event hstate hallow.1)

theorem foldl_invariant {invariant : σ → Prop} (hstep : ∀ state event, invariant state → invariant (step state event))
    (events : List ε) {state : σ} (hstate : invariant state) : invariant (events.foldl step state) := by
  induction events generalizing state with
  | nil => exact hstate
  | cons event events ih => exact ih (hstep state event hstate)

theorem allowedRun_iff {state : σ} {events : List ε} :
    AllowedRun step allowed state events ↔ ∀ before event after, events = before ++ event :: after →
      allowed (before.foldl step state) event := by
  induction events generalizing state with
  | nil =>
    refine ⟨fun _ before event after hsplit => ?_, fun _ => trivial⟩
    exact absurd hsplit.symm (List.append_ne_nil_of_right_ne_nil before (List.cons_ne_nil event after))
  | cons first events ih =>
    rw [AllowedRun, ih]
    constructor
    · rintro ⟨hfirst, hrest⟩ before event after hsplit
      cases before with
      | nil =>
        obtain ⟨rfl, -⟩ := List.cons.inj hsplit
        exact hfirst
      | cons other before =>
        obtain ⟨rfl, htail⟩ := List.cons.inj hsplit
        exact hrest before event after htail
    · refine fun hall => ⟨hall [] first events rfl, fun before event after hsplit => ?_⟩
      exact hall (first :: before) event after (congrArg (first :: ·) hsplit)

end PiRp
