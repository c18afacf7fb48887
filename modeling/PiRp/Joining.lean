import Mathlib.Data.List.Basic
import Mathlib.Logic.Relation

/-! Sequences of texts and blocks under roles, of which adjacent texts of one role may be joined with a
separator between them and empty texts may be left out. Nothing else may change. -/

namespace PiRp.Joining

variable {ρ β σ : Type*}

/-- A text or a block, under a role. -/
inductive Piece (ρ β σ : Type*) where
  | text (role : ρ) (text : List σ)
  | block (role : ρ) (block : β)

/-- One joining of two neighbours, or one empty text left out. -/
inductive Step (separators : List (List σ)) : List (Piece ρ β σ) → List (Piece ρ β σ) → Prop
  | blank (before after : List (Piece ρ β σ)) (role : ρ) :
      Step separators (before ++ .text role [] :: after) (before ++ after)
  | join (before after : List (Piece ρ β σ)) (role : ρ) (first second : List σ) {separator : List σ}
      (hsep : separator ∈ separators) :
      Step separators (before ++ .text role first :: .text role second :: after)
        (before ++ .text role (first ++ separator ++ second) :: after)

/-- The second sequence holds what the first does, in order and under the same roles. -/
def Carries (separators : List (List σ)) : List (Piece ρ β σ) → List (Piece ρ β σ) → Prop :=
  Relation.ReflTransGen (Step separators)

variable {separators : List (List σ)} {pieces next last before after : List (Piece ρ β σ)}

theorem Step.within (hstep : Step separators pieces next) (before after : List (Piece ρ β σ)) :
    Step separators (before ++ pieces ++ after) (before ++ next ++ after) := by
  cases hstep with
  | blank front back role =>
    simpa using Step.blank (before ++ front) (back ++ after) role
  | join front back role first second hsep =>
    simpa using Step.join (before ++ front) (back ++ after) role first second hsep

namespace Carries

theorem refl (pieces : List (Piece ρ β σ)) : Carries separators pieces pieces :=
  Relation.ReflTransGen.refl

theorem trans (hfirst : Carries separators pieces next) (hsnd : Carries separators next last) :
    Carries separators pieces last := Relation.ReflTransGen.trans hfirst hsnd

section

variable (hcar : Carries separators pieces next)

include hcar

theorem within (before after : List (Piece ρ β σ)) :
    Carries separators (before ++ pieces ++ after) (before ++ next ++ after) := by
  induction hcar with
  | refl => exact .refl _
  | tail _ hstep ih => exact ih.tail (hstep.within before after)

theorem append_left (before : List (Piece ρ β σ)) : Carries separators (before ++ pieces) (before ++ next) := by
  have hwit := hcar.within before []
  rwa [List.append_nil, List.append_nil] at hwit

theorem append_right (after : List (Piece ρ β σ)) :
    Carries separators (pieces ++ after) (next ++ after) := hcar.within [] after

end

theorem blank (role : ρ) : Carries separators [.text role []] ([] : List (Piece ρ β σ)) :=
  .single (.blank [] [] role)

theorem join (role : ρ) (first second : List σ) {separator : List σ} (hsep : separator ∈ separators) :
    Carries separators [.text role first, .text role second]
      [(.text role (first ++ separator ++ second) : Piece ρ β σ)] :=
  .single (.join [] [] role first second hsep)

theorem text_kept (hcar : Carries separators pieces next) {role : ρ} {text : List σ} (hne : text ≠ [])
    (hmem : .text role text ∈ pieces) : ∃ kept, kept ≠ [] ∧ .text role kept ∈ next := by
  induction hcar with
  | refl => exact ⟨text, hne, hmem⟩
  | tail _ hstep ih =>
    obtain ⟨kept, hkept, hmem⟩ := ih
    cases hstep with
    | blank front back other =>
      simp only [List.mem_append, List.mem_cons, Piece.text.injEq] at hmem ⊢
      rcases hmem with hmem | ⟨-, rfl⟩ | hmem
      · exact ⟨kept, hkept, .inl hmem⟩
      · exact absurd rfl hkept
      · exact ⟨kept, hkept, .inr hmem⟩
    | @join front back other first second separator hsep =>
      simp only [List.mem_append, List.mem_cons, Piece.text.injEq] at hmem ⊢
      rcases hmem with hmem | ⟨rfl, rfl⟩ | ⟨rfl, rfl⟩ | hmem
      · exact ⟨kept, hkept, .inl hmem⟩
      · exact ⟨_, List.append_ne_nil_of_left_ne_nil (List.append_ne_nil_of_left_ne_nil hkept _) _,
          .inr (.inl ⟨rfl, rfl⟩)⟩
      · exact ⟨_, List.append_ne_nil_of_right_ne_nil _ hkept, .inr (.inl ⟨rfl, rfl⟩)⟩
      · exact ⟨kept, hkept, .inr (.inr hmem)⟩

end Carries

end PiRp.Joining
