import Mathlib.Data.List.Sort
import Mathlib.Data.List.Nodup
import Mathlib.Data.List.TakeWhile

/-! Where an item stands in a list that is sorted by a key, the highest key first. The items with a higher key come
before it, and of those with the same key the ones that the list already had before it. -/

namespace PiRp

open List

variable {α β : Type*} [LinearOrder β]

/-- The items by their key, the highest first; items with the same key keep their order. -/
def sortedByKey (key : α → β) (items : List α) : List α := items.insertionSort fun left right => key right ≤ key left

theorem sortedByKey_perm (key : α → β) (items : List α) : (sortedByKey key items).Perm items :=
  perm_insertionSort _ items

theorem sortedByKey_pairwise (key : α → β) (items : List α) :
    (sortedByKey key items).Pairwise fun left right => key right ≤ key left :=
  have : Std.Total fun left right : α => key right ≤ key left := ⟨fun left right => le_total (key right) (key left)⟩
  have : IsTrans α fun left right : α => key right ≤ key left := ⟨fun _ _ _ hleft hright => hright.trans hleft⟩
  pairwise_insertionSort _ items

theorem map_sortedByKey {γ : Type*} (part : α → γ) {key : α → β} {partKey : γ → β} {items : List α}
    (hkey : ∀ item ∈ items, partKey (part item) = key item) :
    (sortedByKey key items).map part = sortedByKey partKey (items.map part) :=
  map_insertionSort _ _ part items fun left hleft right hright => by rw [hkey left hleft, hkey right hright]

variable [DecidableEq α]

/-- How many items stand before the item when the items are sorted. -/
def place (key : α → β) (items : List α) (item : α) : Nat :=
  (items.filter fun other => key item < key other).length +
    ((items.takeWhile (· ≠ item)).filter fun other => key other = key item).length

variable {key : α → β}

section Position

variable [BEq α] [LawfulBEq α]

omit [DecidableEq α] in
theorem idxOf_orderedInsert_self {sorted : List α} {item : α} (hnew : item ∉ sorted)
    (hsor : sorted.Pairwise fun left right => key right ≤ key left) :
    (sorted.orderedInsert (fun left right => key right ≤ key left) item).idxOf item =
      (sorted.filter fun other => key item < key other).length := by
  induction sorted with
  | nil => simp
  | cons first sorted ih =>
    obtain ⟨hfirst, hrest⟩ := pairwise_cons.mp hsor
    obtain ⟨hne, hnew⟩ := not_or.mp (mt mem_cons.mpr hnew)
    by_cases hbef : key first ≤ key item
    · have hnone : (first :: sorted).filter (fun other => key item < key other) = [] :=
        filter_eq_nil_iff.mpr fun other hother => by
          rw [decide_eq_true_eq, not_lt]
          rcases mem_cons.mp hother with rfl | hother
          · exact hbef
          · exact (hfirst other hother).trans hbef
      rw [orderedInsert_cons, if_pos hbef, idxOf_cons_self, hnone, length_nil]
    · rw [orderedInsert_cons, if_neg hbef, idxOf_cons_ne _ (Ne.symm hne), ih hnew hrest,
        filter_cons, if_pos (decide_eq_true (not_le.mp hbef)), length_cons]

theorem idxOf_orderedInsert_of_ne {sorted : List α} {inserted item : α} (hne : inserted ≠ item) (hmem : item ∈ sorted)
    (hsor : sorted.Pairwise fun left right => key right ≤ key left) :
    (sorted.orderedInsert (fun left right => key right ≤ key left) inserted).idxOf item =
      sorted.idxOf item + if key item ≤ key inserted then 1 else 0 := by
  induction sorted with
  | nil => exact absurd hmem not_mem_nil
  | cons first sorted ih =>
    obtain ⟨hfirst, hrest⟩ := pairwise_cons.mp hsor
    by_cases hbef : key first ≤ key inserted
    · have hle : key item ≤ key inserted := by
        rcases mem_cons.mp hmem with rfl | hmem
        · exact hbef
        · exact (hfirst item hmem).trans hbef
      rw [orderedInsert_cons, if_pos hbef, idxOf_cons_ne _ hne, if_pos hle]
    · rw [orderedInsert_cons, if_neg hbef]
      by_cases heq : first = item
      · rw [heq, idxOf_cons_self, idxOf_cons_self, if_neg (heq ▸ hbef)]
      · have hmem := (mem_cons.mp hmem).resolve_left (Ne.symm heq)
        rw [idxOf_cons_ne _ heq, idxOf_cons_ne _ heq, ih hmem hrest, Nat.succ_add]

/-- **The position of an item in the sorted list.** -/
theorem idxOf_sortedByKey {items : List α} (hnodup : items.Nodup) {item : α} (hmem : item ∈ items) :
    (sortedByKey key items).idxOf item = place key items item := by
  induction items with
  | nil => exact absurd hmem not_mem_nil
  | cons first items ih =>
    obtain ⟨hnew, hrest⟩ := nodup_cons.mp hnodup
    have hperm := sortedByKey_perm key items
    have hsor := sortedByKey_pairwise key items
    rw [sortedByKey, insertionSort_cons, ← sortedByKey, place]
    by_cases heq : first = item
    · subst heq
      rw [idxOf_orderedInsert_self (fun hfirst => hnew (hperm.mem_iff.mp hfirst)) hsor,
        (hperm.filter _).length_eq, filter_cons_of_neg (by simp),
        takeWhile_cons_of_neg (by simp), filter_nil, length_nil, Nat.add_zero]
    · have hmem := (mem_cons.mp hmem).resolve_left (Ne.symm heq)
      rw [idxOf_orderedInsert_of_ne heq (hperm.mem_iff.mpr hmem) hsor, ih hrest hmem, place,
        takeWhile_cons_of_pos (by simp [heq]), filter_cons, filter_cons]
      rcases lt_trichotomy (key item) (key first) with hlt | htie | hgt
      · simp [hlt, hlt.le, hlt.ne']
        omega
      · simp [htie]
        omega
      · simp [hgt.not_ge, hgt.not_gt, hgt.ne]

end Position

theorem place_perm {items others : List α} (hperm : items.Perm others) {item : α}
    (hsin : ∀ other ∈ items, key other = key item → other = item) : place key items item = place key others item := by
  have hnone : ∀ list : List α, (∀ other ∈ list, key other = key item → other = item) →
      (list.takeWhile (· ≠ item)).filter (fun other => key other = key item) = [] := fun list hlist =>
    filter_eq_nil_iff.mpr fun other hother htie => by
      have hne := mem_takeWhile_imp hother
      have heq := hlist other ((takeWhile_sublist _).subset hother) (of_decide_eq_true htie)
      exact absurd heq (by simpa using hne)
  rw [place, place, (hperm.filter _).length_eq, hnone items hsin,
    hnone others fun other hother => hsin other (hperm.mem_iff.mpr hother)]

theorem place_swap_of_ne {first second item : α} (rest : List α) (hfirst : first ≠ item) (hsnd : second ≠ item) :
    place key (first :: second :: rest) item = place key (second :: first :: rest) item := by
  have hswap := List.Perm.swap second first rest
  have hbef : ((first :: second :: rest).takeWhile (· ≠ item)).Perm
      ((second :: first :: rest).takeWhile (· ≠ item)) := by
    simp only [takeWhile_cons, hfirst, hsnd, ne_eq, not_false_eq_true, decide_true, if_true]
    exact List.Perm.swap second first _
  rw [place, place, (hswap.filter _).length_eq, (hbef.filter _).length_eq]

theorem place_swap {first second : α} (rest : List α) (hne : first ≠ second) :
    place key (second :: first :: rest) first =
      place key (first :: second :: rest) first + if key second = key first then 1 else 0 := by
  have hswap := List.Perm.swap first second rest
  have hbeh : (second :: first :: rest).takeWhile (· ≠ first) = [second] := by
    simp [Ne.symm hne]
  have hfront : (first :: second :: rest).takeWhile (· ≠ first) = [] := by simp
  rw [place, place, (hswap.filter _).length_eq, hbeh, hfront, filter_nil, length_nil, Nat.add_zero, filter_singleton]
  split_ifs with htie
  · simp [htie]
  · simp [htie]

end PiRp
