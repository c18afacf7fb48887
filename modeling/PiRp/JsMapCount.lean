import PiRp.JsMap
import Mathlib.Data.List.Count

/-! Counting the pairs of a `Map` that satisfy a condition. -/

namespace PiRp.JsMap

open List

variable {κ β : Type*} {map : JsMap κ β} {condition : κ → β → Bool}

def count (map : JsMap κ β) (condition : κ → β → Bool) : Nat :=
  map.entries.countP fun entry => condition entry.1 entry.2

variable [DecidableEq κ]

theorem count_eq_zero : map.count condition = 0 ↔
    ∀ key value, map.get? key = some value → condition key value = false := by
  rw [count, countP_eq_zero]
  constructor
  · intro hall key value hget
    exact Bool.not_eq_true _ ▸ hall (key, value) (get?_eq_some.mp hget)
  · intro hall entry hentry
    rw [hall entry.1 entry.2 (get?_eq_some.mpr hentry)]
    exact Bool.false_ne_true

theorem count_pos : 0 < map.count condition ↔
    ∃ key value, map.get? key = some value ∧ condition key value = true := by
  rw [count, countP_pos_iff]
  constructor
  · rintro ⟨⟨key, value⟩, hmem, hcond⟩
    exact ⟨key, value, get?_eq_some.mpr hmem, hcond⟩
  · rintro ⟨key, value, hget, hcond⟩
    exact ⟨(key, value), get?_eq_some.mp hget, hcond⟩

theorem count_congr {other : κ → β → Bool}
    (hsame : ∀ key value, map.get? key = some value → condition key value = other key value) :
    map.count condition = map.count other := by
  refine countP_congr fun entry hentry => ?_
  rw [hsame entry.1 entry.2 (get?_eq_some.mpr hentry)]

theorem countP_filter {entries : List (κ × β)} (hnodup : (entries.map Prod.fst).Nodup) {key : κ} {value : β}
    (hmem : (key, value) ∈ entries) (condition : κ × β → Bool) : entries.countP condition =
      (entries.filter fun entry => entry.1 ≠ key).countP condition + if condition (key, value) then 1 else 0 := by
  induction entries with
  | nil => exact absurd hmem not_mem_nil
  | cons entry entries ih =>
    rw [map_cons, nodup_cons] at hnodup
    by_cases hkey : entry.1 = key
    · have hout : ∀ other ∈ entries, other.1 ≠ key := fun other hother hsame =>
        hnodup.1 (mem_map.mpr ⟨other, hother, hsame.trans hkey.symm⟩)
      have hentry : entry = (key, value) :=
        (mem_cons.mp hmem).elim Eq.symm fun hrest => absurd rfl (hout _ hrest)
      rw [filter_cons_of_neg (by simpa using hkey), filter_eq_self.mpr (by simpa using hout),
        countP_cons, hentry]
    · have hrest : (key, value) ∈ entries :=
        (mem_cons.mp hmem).resolve_left fun hsame => hkey (by rw [← hsame])
      rw [filter_cons_of_pos (by simpa using hkey), countP_cons, countP_cons,
        ih hnodup.2 hrest]
      omega

theorem count_eq_delete {key : κ} {value : β} (hget : map.get? key = some value) :
    map.count condition = (map.delete key).count condition + if condition key value then 1 else 0 :=
  countP_filter map.nodup (get?_eq_some.mp hget) fun entry => condition entry.1 entry.2

theorem delete_of_none {key : κ} (hget : map.get? key = none) : map.delete key = map := by
  apply JsMap.ext
  refine filter_eq_self.mpr fun entry hentry => ?_
  rw [decide_eq_true_eq]
  rintro rfl
  exact Option.some_ne_none entry.2 ((get?_eq_some.mpr hentry).symm.trans hget)

theorem delete_set (map : JsMap κ β) (key : κ) (value : β) : (map.set key value).delete key = map.delete key := by
  apply JsMap.ext
  simp only [delete, set, setEntries]
  split_ifs with hkey
  · rw [filter_map]
    have hsame : ((fun entry : κ × β => decide (entry.1 ≠ key)) ∘
        fun entry => if entry.1 = key then (key, value) else entry) = fun entry => decide (entry.1 ≠ key) := by
      funext entry
      rw [Function.comp_apply]
      split_ifs with hentry
      · rw [hentry]
      · rfl
    rw [hsame]
    refine (map_congr_left fun entry hentry => ?_).trans (map_id _)
    rw [if_neg (of_decide_eq_true (mem_filter.mp hentry).2)]
    rfl
  · rw [filter_append, filter_singleton]
    simp

theorem count_set (key : κ) (value : β) : (map.set key value).count condition =
    (map.delete key).count condition + if condition key value then 1 else 0 := by
  have hget : (map.set key value).get? key = some value := by rw [get?_set, if_pos rfl]
  rw [count_eq_delete hget, delete_set]

theorem count_set_of_none {key : κ} (hget : map.get? key = none) (value : β) :
    (map.set key value).count condition = map.count condition + if condition key value then 1 else 0 := by
  rw [count_set, delete_of_none hget]

theorem count_set_of_some {key : κ} {value : β} (hget : map.get? key = some value) (next : β) :
    (map.set key next).count condition + (if condition key value then 1 else 0) =
      map.count condition + if condition key next then 1 else 0 := by
  rw [count_set, count_eq_delete hget]
  omega

end PiRp.JsMap
