import Mathlib.Algebra.BigOperators.Group.List.Basic
import Mathlib.Algebra.GroupWithZero.Nat
import Mathlib.Algebra.Order.Group.Nat
import Mathlib.Data.List.Basic

/-! Items laid out in a row, each at the column where the one before it ends. -/

namespace PiRp.Columns

open List

variable {G : Type*} (width : G → ℕ)

/-- The items with their columns, the first one at `col`. -/
def placed (col : ℕ) : List G → List (G × ℕ)
  | [] => []
  | g :: rest => (g, col) :: placed (col + width g) rest

def extent (items : List G) : ℕ := (items.map width).sum

/-- An item that lies entirely between two columns. -/
def Within (start stop : ℕ) (p : G × ℕ) : Prop := start ≤ p.2 ∧ p.2 < stop ∧ p.2 + width p.1 ≤ stop

instance (start stop : ℕ) (p : G × ℕ) : Decidable (Within width start stop p) :=
  inferInstanceAs (Decidable (_ ∧ _ ∧ _))

/-- The items of a row that lie entirely between two columns. -/
def between (start stop : ℕ) (row : List (G × ℕ)) : List (G × ℕ) := row.filter fun p => Within width start stop p

/-- An item that a column cuts. -/
def Straddles (col : ℕ) (p : G × ℕ) : Prop := p.2 < col ∧ col < p.2 + width p.1

variable {width}

@[simp] theorem extent_nil : extent width [] = 0 := rfl

@[simp] theorem extent_cons (g : G) (rest : List G) : extent width (g :: rest) = width g + extent width rest := by
  rw [extent, map_cons, sum_cons]
  rfl

@[simp] theorem extent_append (items more : List G) :
    extent width (items ++ more) = extent width items + extent width more := by
  rw [extent, map_append, sum_append]
  rfl

theorem extent_replicate {g : G} (hwidth : width g = 1) (count : ℕ) :
    extent width (List.replicate count g) = count := by
  rw [extent, map_replicate, hwidth, sum_replicate_nat, Nat.mul_one]

theorem placed_append (col : ℕ) (items more : List G) :
    placed width col (items ++ more) = placed width col items ++ placed width (col + extent width items) more := by
  induction items generalizing col with
  | nil => rfl
  | cons g rest ih =>
    rw [cons_append, placed, ih, placed, cons_append, extent_cons, Nat.add_assoc]

theorem placed_add (col shift : ℕ) (items : List G) :
    placed width (col + shift) items = (placed width col items).map fun p => (p.1, p.2 + shift) := by
  induction items generalizing col with
  | nil => rfl
  | cons g rest ih =>
    rw [placed, placed, map_cons, ← ih, Nat.add_right_comm]

theorem map_fst_placed (col : ℕ) (items : List G) : (placed width col items).map Prod.fst = items := by
  induction items generalizing col with
  | nil => rfl
  | cons g rest ih => rw [placed, map_cons, ih]

theorem le_of_mem_placed {col : ℕ} {items : List G} {p : G × ℕ} (hp : p ∈ placed width col items) : col ≤ p.2 := by
  induction items generalizing col with
  | nil => exact absurd hp not_mem_nil
  | cons g rest ih =>
    rcases mem_cons.mp hp with rfl | hp
    · exact le_rfl
    · exact (Nat.le_add_right col (width g)).trans (ih hp)

theorem between_cons (start stop : ℕ) (p : G × ℕ) (row : List (G × ℕ)) : between width start stop (p :: row) =
      if Within width start stop p then p :: between width start stop row else between width start stop row := by
  rw [between, filter_cons]
  by_cases h : Within width start stop p
  · rw [if_pos h, if_pos (decide_eq_true h)]
    rfl
  · rw [if_neg h, if_neg (by simpa using h)]
    rfl

theorem between_of_le {start stop col : ℕ} (hcol : stop ≤ col) (items : List G) :
    between width start stop (placed width col items) = [] := by
  refine filter_eq_nil_iff.mpr fun p hp => ?_
  have hlt : ¬ p.2 < stop := not_lt.mpr (hcol.trans (le_of_mem_placed hp))
  simp [Within, hlt]

theorem between_of_ge {start stop col : ℕ} (hcol : start ≤ col) (items : List G) :
    ∃ taken, between width start stop (placed width col items) = placed width col taken ∧
      (taken = [] ∨ col + extent width taken ≤ stop) := by
  induction items generalizing col with
  | nil => exact ⟨[], rfl, Or.inl rfl⟩
  | cons g rest ih =>
    rw [placed, between_cons]
    split
    · rename_i hwit
      obtain ⟨taken, hrest, hext⟩ := ih (hcol.trans (Nat.le_add_right col (width g)))
      refine ⟨g :: taken, by rw [hrest, placed], Or.inr ?_⟩
      rcases hext with rfl | hext
      · simpa using hwit.2.2
      · rwa [extent_cons, ← Nat.add_assoc]
    · rename_i hwit
      have hstop : stop ≤ col + width g := by
        by_contra hlt
        exact hwit ⟨hcol, by omega, (not_le.mp hlt).le⟩
      exact ⟨[], between_of_le hstop rest, Or.inl rfl⟩

theorem between_placed {start stop col : ℕ} (hcol : col ≤ start) (items : List G) :
    (¬ ∃ p ∈ placed width col items, Straddles width start p) ∧
      (∃ taken, between width start stop (placed width col items) = placed width start taken ∧
        (taken = [] ∨ start + extent width taken ≤ stop)) ∨ (∃ p ∈ placed width col items, Straddles width start p) ∧
      ∃ shift taken, 0 < shift ∧
        between width start stop (placed width col items) = placed width (start + shift) taken ∧
        (taken = [] ∨ start + shift + extent width taken ≤ stop) := by
  have hnone : ∀ {col} (items : List G), start ≤ col → ¬ ∃ p ∈ placed width col items, Straddles width start p := by
    rintro col items hge ⟨p, hp, hstr⟩
    exact absurd hstr.1 (not_lt.mpr (hge.trans (le_of_mem_placed hp)))
  induction items generalizing col with
  | nil => exact Or.inl ⟨fun ⟨_, hp, _⟩ => absurd hp not_mem_nil, [], rfl, Or.inl rfl⟩
  | cons g rest ih =>
    rcases hcol.lt_or_eq with hlt | rfl
    · have hskip : between width start stop (placed width col (g :: rest)) =
          between width start stop (placed width (col + width g) rest) := by
        rw [placed, between_cons, if_neg fun hwit => absurd hwit.1 (not_le.mpr hlt)]
      rw [hskip, placed]
      by_cases hend : col + width g ≤ start
      · have hstr : (∃ p ∈ (g, col) :: placed width (col + width g) rest, Straddles width start p) ↔
            ∃ p ∈ placed width (col + width g) rest, Straddles width start p := by
          rw [exists_mem_cons_iff]
          exact or_iff_right fun hstr => absurd hstr.2 (not_lt.mpr hend)
        rw [hstr]
        exact ih hend
      · have hend' := not_le.mp hend
        refine Or.inr ⟨⟨(g, col), mem_cons_self, hlt, hend'⟩, ?_⟩
        obtain ⟨taken, htaken, hext⟩ := @between_of_ge _ width _ stop _ hend'.le rest
        refine ⟨col + width g - start, taken, by omega, ?_⟩
        rw [show start + (col + width g - start) = col + width g by omega]
        exact ⟨htaken, hext⟩
    · exact Or.inl ⟨hnone _ le_rfl, between_of_ge le_rfl _⟩

end PiRp.Columns
