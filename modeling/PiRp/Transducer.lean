import Mathlib.Data.List.Basic

/-! Stream transducers. A transducer reads a list of symbols and emits a list of outputs, moving
between states. It is lawful when reading a concatenation is reading its parts one after the other;
then the way a stream is cut into chunks cannot be observed. A concrete machine that simulates a
lawful transducer inherits this for its outputs and for everything its abstract state determines. -/

namespace PiRp

/-- A transducer whose reading of a stream composes over concatenation. -/
structure Transducer (ρ β γ : Type*) where
  read : ρ → List β → ρ × List γ
  read_nil : ∀ state, read state [] = (state, [])
  read_append : ∀ state left right,
    read state (left ++ right) =
      ((read (read state left).1 right).1,
        (read state left).2 ++ (read (read state left).1 right).2)

/-- Reads the chunks one after the other. -/
def feed {σ β γ : Type*} (step : σ → List β → σ × List γ) (state : σ) : List (List β) → σ × List γ
  | [] => (state, [])
  | chunk :: chunks =>
    ((feed step (step state chunk).1 chunks).1,
      (step state chunk).2 ++ (feed step (step state chunk).1 chunks).2)

namespace Transducer

variable {ρ β γ σ : Type*} (T : Transducer ρ β γ)

theorem feed_read (state : ρ) (chunks : List (List β)) : feed T.read state chunks = T.read state chunks.flatten := by
  induction chunks generalizing state with
  | nil => rw [feed, List.flatten_nil, T.read_nil]
  | cons chunk chunks ih => rw [feed, ih, List.flatten_cons, T.read_append]

/-- `step` simulates `T` through `Rep`: related states emit the same outputs and stay related. -/
structure Simulates (step : σ → List β → σ × List γ) (Rep : σ → ρ → Prop) : Prop where
  step_rep : ∀ {state abstract} (chunk : List β), Rep state abstract →
    Rep (step state chunk).1 (T.read abstract chunk).1
  step_output : ∀ {state abstract} (chunk : List β), Rep state abstract →
    (step state chunk).2 = (T.read abstract chunk).2

variable {T} {step : σ → List β → σ × List γ} {Rep : σ → ρ → Prop}

theorem Simulates.feed (hsim : T.Simulates step Rep) {state : σ} {abstract : ρ}
    (hrep : Rep state abstract) (chunks : List (List β)) :
    Rep (PiRp.feed step state chunks).1 (T.read abstract chunks.flatten).1 ∧
      (PiRp.feed step state chunks).2 = (T.read abstract chunks.flatten).2 := by
  rw [← T.feed_read]
  induction chunks generalizing state abstract with
  | nil => exact ⟨hrep, rfl⟩
  | cons chunk chunks ih =>
    have hnext := ih (hsim.step_rep chunk hrep)
    refine ⟨hnext.1, ?_⟩
    rw [PiRp.feed, PiRp.feed, hnext.2, hsim.step_output chunk hrep]

end Transducer

end PiRp
