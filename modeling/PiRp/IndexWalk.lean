import Mathlib.Algebra.BigOperators.Intervals
import Mathlib.Data.List.Basic

/-! Walks over a range of indices: adding up sizes from the end until a bound is reached, finding the
first or the last index that passes a test, and stepping back over indices that do not stop. -/

namespace PiRp.IndexWalk

open List

/-! ### First and last indices -/

section Find

variable {test : Nat → Bool} {start count index : Nat}

theorem find?_range_reverse : (List.range' start count).reverse.find? test = some index ↔
    start ≤ index ∧ index < start + count ∧ test index = true ∧
      ∀ later, index < later → later < start + count → test later = false := by
  induction count with
  | zero =>
    refine ⟨nofun, ?_⟩
    rintro ⟨hlower, hupper, -⟩
    omega
  | succ count ih =>
    rw [range'_1_concat, reverse_concat, find?_cons]
    cases hlast : test (start + count) with
    | true =>
      refine ⟨fun hfound => ?_, ?_⟩
      · obtain rfl := Option.some.inj hfound
        exact ⟨by omega, by omega, hlast, fun later hafter hlater => by omega⟩
      · rintro ⟨hlower, hupper, -, hrest⟩
        rcases Nat.lt_or_ge index (start + count) with hlt | hge
        · rw [hrest (start + count) hlt (by omega)] at hlast
          exact absurd hlast Bool.false_ne_true
        · exact congrArg some (by omega)
    | false =>
      refine ih.trans ⟨?_, ?_⟩
      · rintro ⟨hlower, hupper, hindex, hrest⟩
        refine ⟨hlower, by omega, hindex, fun later hafter hlater => ?_⟩
        rcases Nat.lt_succ_iff_lt_or_eq.mp hlater with hlater | rfl
        · exact hrest later hafter hlater
        · exact hlast
      · rintro ⟨hlower, hupper, hindex, hrest⟩
        have hne : index ≠ start + count := by
          rintro rfl
          rw [hindex] at hlast
          exact Bool.noConfusion hlast
        exact ⟨hlower, by omega, hindex, fun later hafter hlater => hrest later hafter (by omega)⟩

theorem find?_range_reverse_eq_none : (List.range' start count).reverse.find? test = none ↔
    ∀ index, start ≤ index → index < start + count → test index = false := by
  rw [find?_eq_none]
  constructor
  · intro hnone index hlower hupper
    refine Bool.eq_false_iff.mpr (hnone index ?_)
    rw [mem_reverse, mem_range'_1]
    exact ⟨hlower, hupper⟩
  · intro hnone index hindex
    rw [mem_reverse, mem_range'_1] at hindex
    exact Bool.eq_false_iff.mp (hnone index hindex.1 hindex.2)

theorem find?_ascending {points : List Nat} (hpoin : points.Pairwise (· < ·)) {cut : Nat} :
    points.find? (fun point => index ≤ point) = some cut ↔
      cut ∈ points ∧ index ≤ cut ∧ ∀ point ∈ points, index ≤ point → cut ≤ point := by
  induction points with
  | nil => simp
  | cons point points ih =>
    obtain ⟨hfirst, hrest⟩ := pairwise_cons.mp hpoin
    rw [find?_cons]
    by_cases hindex : index ≤ point
    · rw [decide_eq_true hindex]
      dsimp only
      constructor
      · intro hfound
        obtain rfl := Option.some.inj hfound
        refine ⟨mem_cons_self, hindex, fun other hother _ => ?_⟩
        rcases mem_cons.mp hother with rfl | hother
        · exact Nat.le_refl _
        · exact (hfirst other hother).le
      · rintro ⟨hcut, -, hleast⟩
        have hle := hleast point mem_cons_self hindex
        rcases mem_cons.mp hcut with rfl | hcut
        · rfl
        · exact absurd (hfirst cut hcut) (by omega)
    · rw [decide_eq_false hindex]
      dsimp only
      rw [ih hrest]
      constructor
      · rintro ⟨hcut, hle, hleast⟩
        refine ⟨mem_cons_of_mem _ hcut, hle, fun other hother hother' => ?_⟩
        rcases mem_cons.mp hother with rfl | hother
        · exact absurd hother' hindex
        · exact hleast other hother hother'
      · rintro ⟨hcut, hle, hleast⟩
        rcases mem_cons.mp hcut with rfl | hcut
        · exact absurd hle hindex
        · exact ⟨hcut, hle, fun other hother => hleast other (mem_cons_of_mem _ hother)⟩

end Find

/-! ### The nearest point -/

/-- The first point from the index on, or the last one before it when there is none. -/
def Nearest (points : List Nat) (index cut : Nat) : Prop :=
  cut ∈ points ∧
    ((index ≤ cut ∧ ∀ point ∈ points, index ≤ point → cut ≤ point) ∨
      ((∀ point ∈ points, point < index) ∧ ∀ point ∈ points, point ≤ cut))

/-- **Falling back to the first point finds the nearest one** when a point follows the index, or when
there is no other point. -/
theorem nearest_find?_iff {first : Nat} {others : List Nat} (hpoin : (first :: others).Pairwise (· < ·))
    (index : Nat) : Nearest (first :: others) index
        (((first :: others).find? fun point => index ≤ point).getD first) ↔
      (∃ point ∈ first :: others, index ≤ point) ∨ others = [] := by
  cases hfound : (first :: others).find? fun point => index ≤ point with
  | some cut =>
    obtain ⟨hcut, hle, hleast⟩ := (find?_ascending hpoin).mp hfound
    exact ⟨fun _ => .inl ⟨cut, hcut, hle⟩, fun _ => ⟨hcut, .inl ⟨hle, hleast⟩⟩⟩
  | none =>
    have hbef : ∀ point ∈ first :: others, point < index := fun point hpoint =>
      Nat.lt_of_not_le fun hle => find?_eq_none.mp hfound point hpoint (decide_eq_true hle)
    rw [Option.getD_none]
    constructor
    · rintro ⟨-, ⟨hle, -⟩ | ⟨-, hlast⟩⟩
      · exact absurd (hbef first mem_cons_self) (by omega)
      · right
        cases others with
        | nil => rfl
        | cons second others =>
          have hlt := (pairwise_cons.mp hpoin).1 second mem_cons_self
          have hle := hlast second (mem_cons_of_mem _ mem_cons_self)
          omega
    · rintro (⟨point, hpoint, hle⟩ | rfl)
      · exact absurd (hbef point hpoint) (by omega)
      · refine ⟨mem_cons_self, .inr ⟨hbef, fun point hpoint => ?_⟩⟩
        rw [mem_singleton.mp hpoint]

/-! ### Adding up sizes -/

section Sizes

variable (size : Nat → Option Nat)

/-- The loop over the indices that adds up their sizes until a bound is reached. -/
def walkBack (reached : Nat → Bool) : List Nat → Nat → Option Nat
  | [], _ => none
  | index :: rest, carried =>
    match size index with
    | none => walkBack reached rest carried
    | some added =>
      if reached (carried + added) then some index else walkBack reached rest (carried + added)

/-- The sizes from an index to before the end. -/
def sizeFrom (index stop : Nat) : Nat := ∑ other ∈ Finset.Ico index stop, (size other).getD 0

/-- The bound is reached at the index, walking back from the end of the range. -/
structure Reaches (reached : Nat → Bool) (start stop index : Nat) : Prop where
  lower : start ≤ index
  upper : index < stop
  counted : (size index).isSome = true
  reaches : reached (sizeFrom size index stop) = true
  notBefore : ∀ later, index < later → later < stop → (size later).isSome = true →
    reached (sizeFrom size later stop) = false

variable {size}

theorem sizeFrom_succ {index stop : Nat} (hindex : index ≤ stop) :
    sizeFrom size index (stop + 1) = sizeFrom size index stop + (size stop).getD 0 :=
  Finset.sum_Ico_succ_top hindex _

theorem sizeFrom_self (index : Nat) : sizeFrom size index (index + 1) = (size index).getD 0 := by
  rw [sizeFrom_succ (Nat.le_refl index), sizeFrom, Finset.Ico_self, Finset.sum_empty, Nat.zero_add]

theorem walkBack_carried (reached : Nat → Bool) (indices : List Nat) (carried : Nat) :
    walkBack size reached indices carried = walkBack size (fun total => reached (carried + total)) indices 0 := by
  suffices h : ∀ total, walkBack size reached indices (carried + total) =
      walkBack size (fun total => reached (carried + total)) indices total from h 0
  induction indices with
  | nil => exact fun _ => rfl
  | cons index rest ih =>
    intro total
    rw [walkBack, walkBack]
    cases size index with
    | none => exact ih total
    | some added =>
      dsimp only
      rw [Nat.add_assoc, ih]

theorem reaches_succ_iff {reached : Nat → Bool} {start stop index : Nat}
    (hlast : (size stop).isSome = true → reached ((size stop).getD 0) = false) :
    Reaches size reached start (stop + 1) index ↔
      Reaches size (fun total => reached ((size stop).getD 0 + total)) start stop index := by
  have hsum : ∀ other, other ≤ stop →
      sizeFrom size other (stop + 1) = (size stop).getD 0 + sizeFrom size other stop :=
    fun other hother => (sizeFrom_succ hother).trans (Nat.add_comm _ _)
  constructor
  · intro hreac
    have hne : index ≠ stop := by
      rintro rfl
      have htrue := hreac.reaches
      rw [sizeFrom_self, hlast hreac.counted] at htrue
      exact Bool.false_ne_true htrue
    have hupper : index < stop := by
      have hlt := hreac.upper
      omega
    refine ⟨hreac.lower, hupper, hreac.counted, ?_, fun later hafter hlater hcoun => ?_⟩
    · rw [← hsum index hupper.le]
      exact hreac.reaches
    · rw [← hsum later hlater.le]
      exact hreac.notBefore later hafter (Nat.lt_succ_of_lt hlater) hcoun
  · intro hreac
    refine ⟨hreac.lower, Nat.lt_succ_of_lt hreac.upper, hreac.counted, ?_, fun later hafter hlater hcoun => ?_⟩
    · rw [hsum index hreac.upper.le]
      exact hreac.reaches
    · rcases Nat.lt_succ_iff_lt_or_eq.mp hlater with hlater | rfl
      · rw [hsum later hlater.le]
        exact hreac.notBefore later hafter hlater hcoun
      · rw [sizeFrom_self]
        exact hlast hcoun

/-- **The walk ends where the bound is reached.** -/
theorem walkBack_range {reached : Nat → Bool} {start count index : Nat} :
    walkBack size reached (List.range' start count).reverse 0 = some index ↔
      Reaches size reached start (start + count) index := by
  induction count generalizing reached with
  | zero =>
    refine ⟨nofun, fun hreac => ?_⟩
    have hlower := hreac.lower
    have hupper := hreac.upper
    omega
  | succ count ih =>
    rw [range'_1_concat, reverse_concat, walkBack, ← Nat.add_assoc]
    cases hsize : size (start + count) with
    | none =>
      rw [reaches_succ_iff (by rw [hsize]; exact nofun), hsize, Option.getD_none]
      simp only [Nat.zero_add]
      exact ih
    | some added =>
      dsimp only
      rw [Nat.zero_add]
      split_ifs with hreach
      · have hlast : reached (sizeFrom size (start + count) (start + count + 1)) = true := by
          rw [sizeFrom_self, hsize]
          exact hreach
        have hcoun : (size (start + count)).isSome = true := by
          rw [hsize]
          rfl
        constructor
        · intro hfound
          obtain rfl := Option.some.inj hfound
          exact ⟨Nat.le_add_right _ _, Nat.lt_succ_self _, hcoun, hlast, fun later hafter hlater => by omega⟩
        · intro hreac
          rcases Nat.lt_succ_iff_lt_or_eq.mp hreac.upper with hlt | rfl
          · rw [hreac.notBefore (start + count) hlt (Nat.lt_succ_self _) hcoun] at hlast
            exact absurd hlast Bool.false_ne_true
          · rfl
      · have hlast : (size (start + count)).isSome = true →
            reached ((size (start + count)).getD 0) = false := by
          rw [hsize]
          exact fun _ => Bool.eq_false_iff.mpr hreach
        rw [walkBack_carried, ih, reaches_succ_iff hlast, hsize, Option.getD_some]

end Sizes

/-! ### Stepping back -/

/-- Steps back while the index before does not stop. -/
def retreat (stops : Nat → Bool) (start : Nat) : Nat → Nat
  | 0 => 0
  | index + 1 =>
    if start < index + 1 then if stops index then index + 1 else retreat stops start index
    else index + 1

section Retreat

variable {stops : Nat → Bool} {start index : Nat}

theorem retreat_le : retreat stops start index ≤ index := by
  induction index with
  | zero => exact Nat.le_refl 0
  | succ index ih =>
    rw [retreat]
    split_ifs
    · exact Nat.le_refl _
    · exact Nat.le_succ_of_le ih
    · exact Nat.le_refl _

theorem le_retreat (hstart : start ≤ index) : start ≤ retreat stops start index := by
  induction index with
  | zero => exact hstart
  | succ index ih =>
    rw [retreat]
    split_ifs with hlt
    · exact hstart
    · exact ih (Nat.le_of_lt_succ hlt)
    · exact hstart

theorem stops_of_retreat_le {passed : Nat} (hpas : retreat stops start index ≤ passed)
    (hindex : passed < index) : stops passed = false := by
  induction index with
  | zero => omega
  | succ index ih =>
    rw [retreat] at hpas
    split_ifs at hpas with hlt hstops
    · omega
    · rcases Nat.lt_succ_iff_lt_or_eq.mp hindex with hindex | rfl
      · exact ih hpas hindex
      · exact Bool.eq_false_iff.mpr hstops
    · omega

end Retreat

end PiRp.IndexWalk
