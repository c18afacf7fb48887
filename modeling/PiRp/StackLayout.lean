import Mathlib.Algebra.BigOperators.Group.List.Basic
import Mathlib.Data.List.Forall2
import Mathlib.Data.Rat.Floor
import Mathlib.Tactic.Linarith
import Mathlib.Tactic.Ring

/-! `allocateStackSizes`: the sizes of the entries of a stack. Space is handed out in rounds; in a round each
entry that can still grow or shrink gets its share of what is left, at least one and at most its capacity. Sizes
are exact rationals. -/

namespace PiRp.Stack

open List

/-- `Number.MAX_SAFE_INTEGER` -/
def maxSafeInteger : Nat := 9007199254740991

inductive Basis where
  | auto
  | size (size : ℚ)

structure StackLayoutEntry where
  basis : Option Basis
  grow : Option Nat
  shrink : Option Nat
  minSize : Option Nat
  maxSize : Option Nat

namespace StackLayoutEntry

/-- `entry.minSize ?? 0` -/
def least (entry : StackLayoutEntry) : ℚ := (entry.minSize.getD 0 : Nat)

/-- `entry.maxSize ?? Number.MAX_SAFE_INTEGER` -/
def most (entry : StackLayoutEntry) : ℚ := (entry.maxSize.getD maxSafeInteger : Nat)

/-- `entry.grow ?? 0` -/
def growth (entry : StackLayoutEntry) : ℚ := (entry.grow.getD 0 : Nat)

/-- `entry.shrink ?? 1` -/
def shrinkage (entry : StackLayoutEntry) : ℚ := (entry.shrink.getD 1 : Nat)

/-- The size is one the entry allows. -/
def Allows (entry : StackLayoutEntry) (size : ℚ) : Prop := entry.least ≤ size ∧ size ≤ entry.most

end StackLayoutEntry

/-- The minimum and the maximum are integers, so that only the size is rounded. -/
def clampSize (size : ℚ) (entry : StackLayoutEntry) : ℚ :=
  max entry.least (min (max entry.least entry.most) (max 0 (⌊size⌋ : ℤ)))

inductive Mode where
  | grow
  | shrink

/-- An entry and the size it has so far. -/
structure Slot where
  entry : StackLayoutEntry
  size : ℚ

namespace Slot

def weight (mode : Mode) (slot : Slot) : ℚ :=
  match mode with
  | .grow => slot.entry.growth
  | .shrink => slot.entry.shrinkage * max 1 slot.size

def capacity (mode : Mode) (slot : Slot) : ℚ :=
  match mode with
  | .grow => slot.entry.most - slot.size
  | .shrink => slot.size - slot.entry.least

def isCandidate (mode : Mode) (slot : Slot) : Bool :=
  match mode with
  | .grow => 0 < slot.entry.growth && slot.size < slot.entry.most
  | .shrink => 0 < slot.entry.shrinkage && slot.entry.least < slot.size

def move (mode : Mode) (delta : ℚ) (slot : Slot) : Slot :=
  match mode with
  | .grow => { slot with size := slot.size + delta }
  | .shrink => { slot with size := slot.size - delta }

end Slot

def proposed (mode : Mode) (totalWeight remaining : ℚ) (slot : Slot) : ℚ :=
  max 1 (⌊remaining * slot.weight mode / totalWeight⌋ : ℤ)

/-- What a candidate gets: its share, but not more than remains or than it can take. -/
def delta (mode : Mode) (totalWeight remaining : ℚ) (slot : Slot) : ℚ :=
  min (min remaining (proposed mode totalWeight remaining slot)) (slot.capacity mode)

/-- The loop over the candidates of a round, and what remains after it. -/
def handOut (mode : Mode) (totalWeight : ℚ) : ℚ → List Slot → List Slot × ℚ
  | remaining, [] => ([], remaining)
  | remaining, slot :: slots =>
    if slot.isCandidate mode then
      if remaining ≤ 0 then (slot :: slots, remaining)
      else
        let delta := delta mode totalWeight remaining slot
        if delta ≤ 0 then
          let (handed, left) := handOut mode totalWeight remaining slots
          (slot :: handed, left)
        else
          let (handed, left) := handOut mode totalWeight (remaining - delta) slots
          (slot.move mode delta :: handed, left)
    else
      let (handed, left) := handOut mode totalWeight remaining slots
      (slot :: handed, left)

def candidates (mode : Mode) (slots : List Slot) : List Slot := slots.filter (Slot.isCandidate mode)

/-! ### One round -/

section Round

variable {mode : Mode} {totalWeight remaining : ℚ} {slot : Slot} {slots : List Slot}

theorem capacity_pos (hcand : slot.isCandidate mode = true) : 0 < slot.capacity mode := by
  cases mode with
  | grow =>
    simp only [Slot.isCandidate, Bool.and_eq_true, decide_eq_true_eq] at hcand
    exact sub_pos.mpr hcand.2
  | shrink =>
    simp only [Slot.isCandidate, Bool.and_eq_true, decide_eq_true_eq] at hcand
    exact sub_pos.mpr hcand.2

theorem isCandidate_of_capacity_le {delta : ℚ} (hdelta : slot.capacity mode ≤ delta) :
    (slot.move mode delta).isCandidate mode = false := by
  cases mode with
  | grow =>
    have hfull : slot.entry.most ≤ slot.size + delta := by
      simp only [Slot.capacity] at hdelta
      linarith
    rw [Slot.isCandidate, Slot.move, Bool.and_eq_false_iff]
    exact Or.inr (decide_eq_false hfull.not_gt)
  | shrink =>
    have hfull : slot.size - delta ≤ slot.entry.least := by
      simp only [Slot.capacity] at hdelta
      linarith
    rw [Slot.isCandidate, Slot.move, Bool.and_eq_false_iff]
    exact Or.inr (decide_eq_false hfull.not_gt)

theorem one_le_proposed : 1 ≤ proposed mode totalWeight remaining slot := le_max_left _ _

theorem delta_pos (hcand : slot.isCandidate mode = true) (hrem : 0 < remaining) :
    0 < delta mode totalWeight remaining slot :=
  lt_min (lt_min hrem (zero_lt_one.trans_le one_le_proposed)) (capacity_pos hcand)

theorem delta_cases : delta mode totalWeight remaining slot = remaining ∨ 1 ≤ delta mode totalWeight remaining slot ∨
    slot.capacity mode ≤ delta mode totalWeight remaining slot := by
  rw [delta]
  rcases min_choice (min remaining (proposed mode totalWeight remaining slot)) (slot.capacity mode) with h | h
  · rw [h]
    rcases min_choice remaining (proposed mode totalWeight remaining slot) with h | h
    · exact Or.inl h
    · refine Or.inr (Or.inl ?_)
      rw [h]
      exact one_le_proposed
  · exact Or.inr (Or.inr h.ge)

theorem handOut_skip (hcand : slot.isCandidate mode = false) : handOut mode totalWeight remaining (slot :: slots) =
      (slot :: (handOut mode totalWeight remaining slots).1, (handOut mode totalWeight remaining slots).2) := by
  rw [handOut, if_neg (by rw [hcand]; exact Bool.false_ne_true)]

theorem handOut_done (hrem : remaining ≤ 0) : handOut mode totalWeight remaining slots = (slots, remaining) := by
  induction slots with
  | nil => rfl
  | cons slot slots ih =>
    cases hcand : slot.isCandidate mode with
    | true => rw [handOut, if_pos hcand, if_pos hrem]
    | false => rw [handOut_skip hcand, ih]

theorem handOut_share (totalWeight : ℚ) (slots : List Slot) (hcand : slot.isCandidate mode = true) (hrem : 0 < remaining) :
    ∃ delta, 0 < delta ∧ delta ≤ remaining ∧ delta ≤ slot.capacity mode ∧
      (delta = remaining ∨ 1 ≤ delta ∨ slot.capacity mode ≤ delta) ∧
      handOut mode totalWeight remaining (slot :: slots) =
        (slot.move mode delta :: (handOut mode totalWeight (remaining - delta) slots).1,
          (handOut mode totalWeight (remaining - delta) slots).2) := by
  have hpos : 0 < delta mode totalWeight remaining slot := delta_pos hcand hrem
  refine ⟨_, hpos, (min_le_left _ _).trans (min_le_left _ _), min_le_right _ _, delta_cases, ?_⟩
  rw [handOut, if_pos hcand, if_neg hrem.not_ge]
  simp only [if_neg hpos.not_ge]

theorem handOut_induction (mode : Mode) {P : ℚ → List Slot → List Slot × ℚ → Prop}
    (hdone : ∀ remaining slots, remaining ≤ 0 → P remaining slots (slots, remaining))
    (hnil : ∀ remaining, P remaining [] ([], remaining))
    (hskip : ∀ remaining slot slots handed left, slot.isCandidate mode = false →
      P remaining slots (handed, left) → P remaining (slot :: slots) (slot :: handed, left))
    (hshare : ∀ remaining slot slots handed left delta, slot.isCandidate mode = true → 0 < remaining → 0 < delta →
      delta ≤ remaining → delta ≤ slot.capacity mode → (delta = remaining ∨ 1 ≤ delta ∨ slot.capacity mode ≤ delta) →
      P (remaining - delta) slots (handed, left) → P remaining (slot :: slots) (slot.move mode delta :: handed, left)) :
    P remaining slots (handOut mode totalWeight remaining slots) := by
  induction slots generalizing remaining with
  | nil => exact hnil remaining
  | cons slot slots ih =>
    rcases le_or_gt remaining 0 with hrem | hrem
    · rw [handOut_done hrem]
      exact hdone remaining _ hrem
    · cases hcand : slot.isCandidate mode with
      | false =>
        rw [handOut_skip hcand]
        exact hskip _ _ _ _ _ hcand ih
      | true =>
        obtain ⟨delta, hpos, hle, hcap, hcase, heq⟩ :=
          handOut_share totalWeight slots hcand hrem
        rw [heq]
        exact hshare _ _ _ _ _ delta hcand hrem hpos hle hcap hcase ih

theorem handOut_left (mode : Mode) (totalWeight : ℚ) (slots : List Slot) (hrem : 0 ≤ remaining) :
    0 ≤ (handOut mode totalWeight remaining slots).2 ∧ (handOut mode totalWeight remaining slots).2 ≤ remaining := by
  refine handOut_induction mode (P := fun remaining _ handed => 0 ≤ remaining →
    0 ≤ handed.2 ∧ handed.2 ≤ remaining) ?_ ?_ ?_ ?_ hrem
  · exact fun remaining _ _ hnon => ⟨hnon, le_rfl⟩
  · exact fun remaining hnon => ⟨hnon, le_rfl⟩
  · exact fun _ _ _ _ _ _ ih => ih
  · intro remaining slot slots handed left delta _ _ hpos hle _ _ ih _
    obtain ⟨hleft, hless⟩ := ih (sub_nonneg.mpr hle)
    exact ⟨hleft, by linarith⟩

theorem candidates_cons (slot : Slot) (slots : List Slot) :
    (candidates mode (slot :: slots)).length = (if slot.isCandidate mode then 1 else 0) +
      (candidates mode slots).length := by
  rw [candidates, filter_cons]
  split_ifs with hcand
  · rw [length_cons, Nat.add_comm]
    rfl
  · rw [Nat.zero_add]
    rfl

theorem handOut_candidates (mode : Mode) (totalWeight remaining : ℚ) (slots : List Slot) :
    (candidates mode (handOut mode totalWeight remaining slots).1).length ≤ (candidates mode slots).length := by
  refine handOut_induction mode (P := fun _ slots handed =>
    (candidates mode handed.1).length ≤ (candidates mode slots).length) ?_ ?_ ?_ ?_
  · exact fun _ _ _ => le_rfl
  · exact fun _ => le_rfl
  · intro _ slot slots handed left _ ih
    rw [candidates_cons, candidates_cons]
    exact Nat.add_le_add_left ih _
  · intro _ slot slots handed left delta hcand _ _ _ _ _ ih
    rw [candidates_cons, candidates_cons, if_pos hcand]
    refine Nat.add_le_add ?_ ih
    split_ifs <;> simp

theorem handOut_progress (hrem : 0 < remaining) (hcands : candidates mode slots ≠ []) :
    (candidates mode (handOut mode totalWeight remaining slots).1).length +
        ⌈(handOut mode totalWeight remaining slots).2⌉₊ < (candidates mode slots).length + ⌈remaining⌉₊ := by
  induction slots generalizing remaining with
  | nil => exact absurd rfl hcands
  | cons slot slots ih =>
    cases hcand : slot.isCandidate mode with
    | false =>
      have hrest : candidates mode slots ≠ [] := by
        rwa [candidates, filter_cons_of_neg (by rw [hcand]; exact Bool.false_ne_true)] at hcands
      have hless := ih hrem hrest
      rw [handOut_skip hcand, candidates_cons, candidates_cons, hcand]
      simpa using hless
    | true =>
      obtain ⟨delta, hpos, hle, -, hcase, heq⟩ :=
        handOut_share totalWeight slots hcand hrem
      have hleft := (handOut_left mode totalWeight slots
        (sub_nonneg.mpr hle)).2
      have hcount := handOut_candidates mode totalWeight (remaining - delta) slots
      rw [heq, candidates_cons, candidates_cons, if_pos hcand]
      have hhead : (if (slot.move mode delta).isCandidate mode = true then 1 else 0) ≤ 1 := by
        split_ifs <;> simp
      rcases hcase with rfl | hone | hfull
      · rw [handOut_done (sub_self delta).le, sub_self, Nat.ceil_zero]
        have hceil : 0 < ⌈delta⌉₊ := Nat.ceil_pos.mpr hrem
        dsimp only
        omega
      · have hceil : ⌈(handOut mode totalWeight (remaining - delta) slots).2⌉₊ < ⌈remaining⌉₊ := by
          rw [Nat.lt_ceil]
          calc (⌈(handOut mode totalWeight (remaining - delta) slots).2⌉₊ : ℚ)
              ≤ ⌈remaining - delta⌉₊ := by exact_mod_cast Nat.ceil_mono hleft
            _ < remaining - delta + 1 := Nat.ceil_lt_add_one (sub_nonneg.mpr hle)
            _ ≤ remaining := by linarith
        dsimp only
        omega
      · have hceil : ⌈(handOut mode totalWeight (remaining - delta) slots).2⌉₊ ≤ ⌈remaining⌉₊ :=
          Nat.ceil_mono (hleft.trans (sub_le_self _ hpos.le))
        rw [isCandidate_of_capacity_le hfull, if_neg Bool.false_ne_true]
        dsimp only
        omega

theorem handOut_entries : (handOut mode totalWeight remaining slots).1.map Slot.entry = slots.map Slot.entry := by
  refine handOut_induction mode (P := fun _ slots handed =>
    handed.1.map Slot.entry = slots.map Slot.entry) ?_ ?_ ?_ ?_
  · exact fun _ _ _ => rfl
  · exact fun _ => rfl
  · intro _ slot slots handed left _ ih
    rw [map_cons, map_cons, ih]
  · intro _ slot slots handed left delta _ _ _ _ _ _ ih
    rw [map_cons, map_cons, ih]
    cases mode <;> rfl

/-- All sizes are sizes their entries allow. -/
def Fits (slots : List Slot) : Prop := ∀ slot ∈ slots, slot.entry.Allows slot.size

theorem Allows.move {delta : ℚ} (hall : slot.entry.Allows slot.size) (hpos : 0 < delta)
    (hcap : delta ≤ slot.capacity mode) : (slot.move mode delta).entry.Allows (slot.move mode delta).size := by
  obtain ⟨hleast, hmost⟩ := hall
  cases mode with
  | grow =>
    simp only [Slot.capacity] at hcap
    exact ⟨by simp only [Slot.move]; linarith, by simp only [Slot.move]; linarith⟩
  | shrink =>
    simp only [Slot.capacity] at hcap
    exact ⟨by simp only [Slot.move]; linarith, by simp only [Slot.move]; linarith⟩

theorem handOut_fits (hfits : Fits slots) : Fits (handOut mode totalWeight remaining slots).1 := by
  refine handOut_induction mode (P := fun _ slots handed => Fits slots → Fits handed.1) ?_ ?_ ?_ ?_ hfits
  · exact fun _ _ _ hfits => hfits
  · exact fun _ hfits => hfits
  · intro _ slot slots handed left _ ih hfits
    obtain ⟨hslot, hslots⟩ := forall_mem_cons.mp hfits
    exact forall_mem_cons.mpr ⟨hslot, ih hslots⟩
  · intro _ slot slots handed left delta _ _ hpos _ hcap _ ih hfits
    obtain ⟨hslot, hslots⟩ := forall_mem_cons.mp hfits
    exact forall_mem_cons.mpr ⟨Allows.move hslot hpos hcap, ih hslots⟩

/-- Whether sizes become more or less. -/
def Mode.sign : Mode → ℚ
  | .grow => 1
  | .shrink => -1

theorem move_size (mode : Mode) (delta : ℚ) (slot : Slot) :
    (slot.move mode delta).size = slot.size + mode.sign * delta := by
  cases mode with
  | grow => rw [Mode.sign, one_mul]; rfl
  | shrink => rw [Mode.sign, neg_one_mul, ← sub_eq_add_neg]; rfl

theorem handOut_sum : ((handOut mode totalWeight remaining slots).1.map Slot.size).sum =
    (slots.map Slot.size).sum + mode.sign * (remaining - (handOut mode totalWeight remaining slots).2) := by
  refine handOut_induction mode (P := fun remaining slots handed =>
    (handed.1.map Slot.size).sum = (slots.map Slot.size).sum + mode.sign * (remaining - handed.2)) ?_ ?_ ?_ ?_
  · intro remaining slots _
    rw [sub_self, mul_zero, add_zero]
  · intro remaining
    rw [sub_self, mul_zero, add_zero]
  · intro _ slot slots handed left _ ih
    rw [map_cons, sum_cons, map_cons, sum_cons, ih, add_assoc]
  · intro _ slot slots handed left delta _ _ _ _ _ _ ih
    rw [map_cons, sum_cons, map_cons, sum_cons, ih, move_size]
    ring

end Round

/-! ### The rounds -/

/-- The loop ends: a round with a candidate uses up what remains, or a part of at least one, or a candidate. -/
def distribute (mode : Mode) (slots : List Slot) (remaining : ℚ) : List Slot :=
  if _hremaining : 0 < remaining then
    if _hcandidates : candidates mode slots = [] then slots
    else
      let totalWeight := ((candidates mode slots).map (Slot.weight mode)).sum
      let handed := handOut mode totalWeight remaining slots
      let distributed := remaining - handed.2
      if distributed = 0 then handed.1 else distribute mode handed.1 handed.2
  else slots
termination_by (candidates mode slots).length + ⌈remaining⌉₊
decreasing_by exact handOut_progress _hremaining _hcandidates

section Rounds

variable {mode : Mode} {totalWeight remaining : ℚ} {slots : List Slot}

theorem handOut_less (hrem : 0 < remaining) (hcands : candidates mode slots ≠ []) :
    (handOut mode totalWeight remaining slots).2 < remaining := by
  induction slots with
  | nil => exact absurd rfl hcands
  | cons slot slots ih =>
    cases hcand : slot.isCandidate mode with
    | false =>
      rw [candidates, filter_cons_of_neg (by rw [hcand]; exact Bool.false_ne_true)] at hcands
      rw [handOut_skip hcand]
      exact ih hcands
    | true =>
      obtain ⟨delta, hpos, hle, -, -, heq⟩ :=
        handOut_share totalWeight slots hcand hrem
      rw [heq]
      calc (handOut mode totalWeight (remaining - delta) slots).2
          ≤ remaining - delta := (handOut_left _ _ _ (sub_nonneg.mpr hle)).2
        _ < remaining := sub_lt_self _ hpos

theorem distribute_induction (mode : Mode) {P : ℚ → List Slot → Prop} (hstart : P remaining slots) (hrem : 0 ≤ remaining)
    (hround : ∀ remaining slots totalWeight, 0 ≤ remaining → P remaining slots →
      P (handOut mode totalWeight remaining slots).2 (handOut mode totalWeight remaining slots).1) :
    ∃ left, 0 ≤ left ∧ P left (distribute mode slots remaining) ∧
      (left = 0 ∨ 0 < left ∧ candidates mode (distribute mode slots remaining) = []) := by
  induction slots, remaining using distribute.induct mode with
  | case1 slots remaining hpos hcands =>
    rw [distribute, dif_pos hpos, dif_pos hcands]
    exact ⟨remaining, hrem, hstart, Or.inr ⟨hpos, hcands⟩⟩
  | case2 slots remaining hpos hcands totalWeight handed distributed hnone =>
    exact absurd hnone (sub_pos.mpr (handOut_less hpos hcands)).ne'
  | case3 slots remaining hpos hcands totalWeight handed distributed hsome ih =>
    rw [distribute, dif_pos hpos, dif_neg hcands]
    dsimp only
    rw [if_neg hsome]
    exact ih (hround _ _ _ hrem hstart) (handOut_left _ _ _ hrem).1
  | case4 slots remaining hpos =>
    rw [distribute, dif_neg hpos]
    exact ⟨remaining, hrem, hstart, Or.inl (le_antisymm (not_lt.mp hpos) hrem)⟩

/-- **The rounds** keep the entries and their bounds, and hand out everything unless no entry can take more. -/
theorem distribute_spec (mode : Mode) (hfits : Fits slots) (hrem : 0 ≤ remaining) :
    ∃ left, 0 ≤ left ∧ (distribute mode slots remaining).map Slot.entry = slots.map Slot.entry ∧
      Fits (distribute mode slots remaining) ∧ ((distribute mode slots remaining).map Slot.size).sum =
        (slots.map Slot.size).sum + mode.sign * (remaining - left) ∧
      (left = 0 ∨ 0 < left ∧ candidates mode (distribute mode slots remaining) = []) := by
  obtain ⟨left, hleft, ⟨hents, hkept, hsum⟩, hfinal⟩ := distribute_induction mode
    (P := fun left handed => handed.map Slot.entry = slots.map Slot.entry ∧ Fits handed ∧
      (handed.map Slot.size).sum = (slots.map Slot.size).sum + mode.sign * (remaining - left))
    ⟨rfl, hfits, by rw [sub_self, mul_zero, add_zero]⟩ hrem
    fun before handed totalWeight _ ⟨hents, hkept, hsum⟩ => by
      refine ⟨handOut_entries.trans hents, handOut_fits hkept, ?_⟩
      rw [handOut_sum, hsum]
      ring
  exact ⟨left, hleft, hents, hkept, hsum, hfinal⟩

end Rounds

def startSize (intrinsicSizes : List ℚ) (index : Nat) (entry : StackLayoutEntry) : ℚ :=
  match entry.basis with
  | none | some .auto => intrinsicSizes[index]?.getD 0
  | some (.size size) => size

/-- The size that the entries share. -/
def contentSize (entries : List StackLayoutEntry) (availableSize gap : ℚ) : ℚ :=
  max 0 ((⌊availableSize⌋ : ℤ) - (entries.length - 1 : Nat) * gap)

/-- The entries with the sizes they start from. -/
def startSlots (entries : List StackLayoutEntry) (intrinsicSizes : List ℚ) : List Slot :=
  entries.mapIdx fun index entry => ⟨entry, clampSize (startSize intrinsicSizes index entry) entry⟩

def allocateStackSizes (entries : List StackLayoutEntry) (intrinsicSizes : List ℚ) (availableSize : Option ℚ)
    (gap : ℚ) : List ℚ :=
  let slots := startSlots entries intrinsicSizes
  match availableSize with
  | none => slots.map Slot.size
  | some availableSize =>
    let contentSize := contentSize entries availableSize gap
    let total := (slots.map Slot.size).sum
    let slots :=
      if total < contentSize then distribute .grow slots (contentSize - total)
      else if contentSize < total then distribute .shrink slots (total - contentSize)
      else slots
    slots.map Slot.size

/-! ### The allocation -/

section Allocation

variable {mode : Mode} {slots : List Slot}

theorem clampSize_allows {entry : StackLayoutEntry} (hboun : entry.least ≤ entry.most) (size : ℚ) :
    entry.Allows (clampSize size entry) := by
  refine ⟨le_max_left _ _, max_le hboun ((min_le_left _ _).trans ?_)⟩
  exact max_le hboun le_rfl

theorem full_of_candidates_nil (hfits : Fits slots) (hnone : candidates .grow slots = []) :
    ∀ slot ∈ slots, 0 < slot.entry.growth → slot.size = slot.entry.most := by
  intro slot hslot hgrow
  have hcand := filter_eq_nil_iff.mp hnone slot hslot
  simp only [Slot.isCandidate, Bool.and_eq_true, decide_eq_true_eq, not_and, not_lt] at hcand
  exact le_antisymm (hfits slot hslot).2 (hcand hgrow)

theorem least_of_candidates_nil (hfits : Fits slots) (hnone : candidates .shrink slots = []) :
    ∀ slot ∈ slots, 0 < slot.entry.shrinkage → slot.size = slot.entry.least := by
  intro slot hslot hshr
  have hcand := filter_eq_nil_iff.mp hnone slot hslot
  simp only [Slot.isCandidate, Bool.and_eq_true, decide_eq_true_eq, not_and, not_lt] at hcand
  exact le_antisymm (hcand hshr) (hfits slot hslot).1

/-- The sizes fill the content, or are less while nothing can grow, or more while nothing can shrink. -/
def Exact (entries : List StackLayoutEntry) (sizes : List ℚ) (contentSize : ℚ) : Prop :=
  sizes.sum = contentSize ∨
    (sizes.sum < contentSize ∧
      List.Forall₂ (fun entry size => 0 < entry.growth → size = entry.most) entries sizes) ∨
    (contentSize < sizes.sum ∧
      List.Forall₂ (fun entry size => 0 < entry.shrinkage → size = entry.least) entries sizes)

theorem forall₂_sizes {R : StackLayoutEntry → ℚ → Prop} (hslots : ∀ slot ∈ slots, R slot.entry slot.size) :
    List.Forall₂ R (slots.map Slot.entry) (slots.map Slot.size) := by
  rw [forall₂_map_left_iff, forall₂_map_right_iff, forall₂_same]
  exact hslots

theorem distribute_exact (hfits : Fits slots) (contentSize : ℚ) : let total := (slots.map Slot.size).sum
    let handed := if total < contentSize then distribute .grow slots (contentSize - total)
      else if contentSize < total then distribute .shrink slots (total - contentSize) else slots
    handed.map Slot.entry = slots.map Slot.entry ∧ Fits handed ∧
      Exact (slots.map Slot.entry) (handed.map Slot.size) contentSize := by
  intro total handed
  rcases lt_trichotomy total contentSize with hless | heq | hmore
  · obtain ⟨left, hleft, hents, hkept, hsum, hfinal⟩ :=
      distribute_spec .grow hfits (sub_nonneg.mpr hless.le)
    have hhan : handed = distribute .grow slots (contentSize - total) := if_pos hless
    rw [hhan]
    refine ⟨hents, hkept, ?_⟩
    rw [Mode.sign, one_mul] at hsum
    rcases hfinal with rfl | ⟨hpos, hnone⟩
    · exact Or.inl (by linarith)
    · refine Or.inr (Or.inl ⟨by linarith, ?_⟩)
      rw [← hents]
      exact forall₂_sizes (full_of_candidates_nil hkept hnone)
  · have hhan : handed = slots := by
      change (if total < contentSize then _ else if contentSize < total then _ else slots) = slots
      rw [if_neg heq.not_lt, if_neg heq.not_gt]
    rw [hhan]
    exact ⟨rfl, hfits, Or.inl heq⟩
  · obtain ⟨left, hleft, hents, hkept, hsum, hfinal⟩ :=
      distribute_spec .shrink hfits (sub_nonneg.mpr hmore.le)
    have hhan : handed = distribute .shrink slots (total - contentSize) := by
      change (if total < contentSize then _ else if contentSize < total then _ else slots) = _
      rw [if_neg hmore.not_gt, if_pos hmore]
    rw [hhan]
    refine ⟨hents, hkept, ?_⟩
    rw [Mode.sign, neg_one_mul] at hsum
    rcases hfinal with rfl | ⟨hpos, hnone⟩
    · exact Or.inl (by linarith)
    · refine Or.inr (Or.inr ⟨by linarith, ?_⟩)
      rw [← hents]
      exact forall₂_sizes (least_of_candidates_nil hkept hnone)

theorem startSlots_entries (entries : List StackLayoutEntry) (intrinsicSizes : List ℚ) :
    (startSlots entries intrinsicSizes).map Slot.entry = entries := by
  apply ext_getElem?
  intro index
  simp [startSlots, Function.comp_def]

theorem startSlots_fits {entries : List StackLayoutEntry} (hboun : ∀ entry ∈ entries, entry.least ≤ entry.most)
    (intrinsicSizes : List ℚ) : Fits (startSlots entries intrinsicSizes) := by
  intro slot hslot
  obtain ⟨index, hindex, rfl⟩ := mem_mapIdx.mp hslot
  exact clampSize_allows (hboun _ (getElem_mem _)) _

end Allocation

end PiRp.Stack
