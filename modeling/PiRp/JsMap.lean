import Mathlib.Data.List.Basic
import Mathlib.Data.List.Nodup

/-! JavaScript's `Map`: key-value pairs in the order their keys were first inserted. -/

namespace PiRp

open List Function

/-- A `Map`; no key occurs twice. -/
@[ext] structure JsMap (κ β : Type*) where
  entries : List (κ × β)
  nodup : (entries.map Prod.fst).Nodup
  deriving DecidableEq

namespace JsMap

variable {κ β : Type*}

def empty : JsMap κ β := ⟨[], nodup_nil⟩

def keys (map : JsMap κ β) : List κ := map.entries.map Prod.fst

def values (map : JsMap κ β) : List β := map.entries.map Prod.snd

variable [DecidableEq κ]

/-- The value of the first pair with the key. -/
def lookup (entries : List (κ × β)) (key : κ) : Option β :=
  match entries with
  | [] => none
  | (other, value) :: rest => if other = key then some value else lookup rest key

def get? (map : JsMap κ β) (key : κ) : Option β := lookup map.entries key

def has (map : JsMap κ β) (key : κ) : Bool := (map.get? key).isSome

theorem lookup_isSome {entries : List (κ × β)} {key : κ} :
    (lookup entries key).isSome = true ↔ key ∈ entries.map Prod.fst := by
  induction entries with
  | nil => simp [lookup]
  | cons entry rest ih =>
    obtain ⟨other, value⟩ := entry
    rw [lookup, map_cons, mem_cons, ← ih]
    split_ifs with heq
    · simp [heq]
    · simp [Ne.symm heq]

theorem lookup_eq_some {entries : List (κ × β)} (hnodup : (entries.map Prod.fst).Nodup) {key : κ}
    {value : β} : lookup entries key = some value ↔ (key, value) ∈ entries := by
  induction entries with
  | nil => simp [lookup]
  | cons entry rest ih =>
    obtain ⟨other, found⟩ := entry
    obtain ⟨hnew, hrest⟩ := nodup_cons.mp hnodup
    rw [lookup, mem_cons, Prod.mk.injEq]
    split_ifs with heq
    · subst heq
      have hout : (other, value) ∉ rest := fun hmem =>
        hnew (mem_map.mpr ⟨_, hmem, rfl⟩)
      simp only [Option.some.injEq, true_and, hout, or_false, eq_comm]
    · simp only [ih hrest, Ne.symm heq, false_and, false_or]

theorem has_iff {map : JsMap κ β} {key : κ} : map.has key = true ↔ key ∈ map.keys := lookup_isSome

theorem get?_eq_some {map : JsMap κ β} {key : κ} {value : β} :
    map.get? key = some value ↔ (key, value) ∈ map.entries :=
  lookup_eq_some map.nodup

theorem has_of_get? {map : JsMap κ β} {key : κ} {value : β} (hget : map.get? key = some value) :
    map.has key = true := by
  rw [has, hget]
  rfl

theorem get?_eq_none {map : JsMap κ β} {key : κ} : map.get? key = none ↔ map.has key = false := by
  rw [has, ← Bool.not_eq_true, Option.not_isSome_iff_eq_none]

theorem lookup_append (left right : List (κ × β)) (key : κ) :
    lookup (left ++ right) key = (lookup left key).or (lookup right key) := by
  induction left with
  | nil => rfl
  | cons entry left ih =>
    obtain ⟨other, value⟩ := entry
    rw [cons_append, lookup, lookup]
    split_ifs
    · rfl
    · exact ih

/-- The pairs with the value of a present key replaced, or with a new key at the end. -/
def setEntries (entries : List (κ × β)) (key : κ) (value : β) : List (κ × β) :=
  if key ∈ entries.map Prod.fst then
    entries.map fun entry => if entry.1 = key then (key, value) else entry
  else entries ++ [(key, value)]

theorem setEntries_keys (entries : List (κ × β)) (key : κ) (value : β) : (setEntries entries key value).map Prod.fst =
      if key ∈ entries.map Prod.fst then entries.map Prod.fst else entries.map Prod.fst ++ [key] := by
  rw [setEntries]
  split_ifs with hkey
  · rw [map_map]
    refine map_congr_left fun entry _ => ?_
    rw [comp_apply]
    split_ifs with heq
    · exact heq.symm
    · rfl
  · rw [map_append]
    rfl

def set (map : JsMap κ β) (key : κ) (value : β) : JsMap κ β where
  entries := setEntries map.entries key value
  nodup := by
    rw [setEntries_keys]
    split_ifs with hkey
    · exact map.nodup
    · exact nodup_append'.mpr ⟨map.nodup, nodup_singleton _, disjoint_singleton.mpr hkey⟩

def delete (map : JsMap κ β) (key : κ) : JsMap κ β where
  entries := map.entries.filter fun entry => entry.1 ≠ key
  nodup := map.nodup.sublist (filter_sublist.map Prod.fst)

omit [DecidableEq κ] in
@[simp] theorem entries_empty : (empty : JsMap κ β).entries = [] := rfl

@[simp] theorem get?_empty (key : κ) : (empty : JsMap κ β).get? key = none := rfl

theorem lookup_modify (entries : List (κ × β)) (key : κ) (change : β → β) (other : κ) :
    lookup (entries.map fun entry => if entry.1 = key then (entry.1, change entry.2) else entry) other =
      if other = key then (lookup entries key).map change else lookup entries other := by
  induction entries with
  | nil => simp [lookup]
  | cons entry rest ih =>
    obtain ⟨first, found⟩ := entry
    rw [map_cons]
    by_cases hfirst : first = key
    · simp only [hfirst, if_true, lookup, ih]
      by_cases hother : other = key
      · simp [hother]
      · simp [hother, Ne.symm hother]
    · simp only [hfirst, if_false, lookup, ih]
      by_cases hother : other = key
      · simp [hother, hfirst]
      · simp [hother]

theorem lookup_replace (entries : List (κ × β)) (key : κ) (value : β) (other : κ) :
    lookup (entries.map fun entry => if entry.1 = key then (key, value) else entry) other =
      if other = key then (lookup entries key).map fun _ => value else lookup entries other := by
  rw [← lookup_modify]
  refine congrArg (lookup · other) (map_congr_left fun entry _ => ?_)
  split_ifs with hkey
  · rw [hkey]
  · rfl

theorem lookup_setEntries (entries : List (κ × β)) (key : κ) (value : β) (other : κ) :
    lookup (setEntries entries key value) other = if other = key then some value else lookup entries other := by
  rw [setEntries]
  split_ifs with hkey hother hother
  · obtain ⟨found, hfound⟩ := Option.isSome_iff_exists.mp (lookup_isSome.mpr hkey)
    rw [lookup_replace, if_pos hother, hfound]
    rfl
  · rw [lookup_replace, if_neg hother]
  · subst hother
    have hnone : lookup entries other = none := by
      rw [← Option.not_isSome_iff_eq_none, lookup_isSome]
      exact hkey
    rw [lookup_append, hnone, lookup, if_pos rfl]
    rfl
  · rw [lookup_append, lookup, if_neg (Ne.symm hother), lookup, Option.or_none]

@[simp] theorem get?_set (map : JsMap κ β) (key : κ) (value : β) (other : κ) :
    (map.set key value).get? other = if other = key then some value else map.get? other :=
  lookup_setEntries map.entries key value other

@[simp] theorem get?_delete (map : JsMap κ β) (key other : κ) :
    (map.delete key).get? other = if other = key then none else map.get? other := by
  refine Option.ext fun value => ?_
  rw [get?_eq_some, delete, mem_filter, decide_eq_true_eq]
  split_ifs with hother
  · simp [hother]
  · rw [get?_eq_some]
    simp [hother]

theorem has_set {map : JsMap κ β} {key : κ} {value : β} {other : κ} :
    (map.set key value).has other = true ↔ other = key ∨ map.has other = true := by
  rw [has, get?_set]
  split_ifs with hother
  · simp [hother]
  · simp [hother, has]

theorem entries_set_of_new {map : JsMap κ β} {key : κ} (value : β) (hnew : map.has key = false) :
    (map.set key value).entries = map.entries ++ [(key, value)] := by
  have hkey : key ∉ map.entries.map Prod.fst := fun h =>
    Bool.noConfusion (hnew.symm.trans (has_iff.mpr h))
  exact if_neg hkey

/-! ### Changing one value and keeping a part -/

/-- Changes the value of a key that is present. -/
def modify (map : JsMap κ β) (key : κ) (change : β → β) : JsMap κ β where
  entries := map.entries.map fun entry => if entry.1 = key then (entry.1, change entry.2) else entry
  nodup := by
    have hkeys : (Prod.fst ∘ fun entry : κ × β =>
        if entry.1 = key then (entry.1, change entry.2) else entry) = Prod.fst := by
      funext entry
      rw [comp_apply]
      split_ifs
      · rfl
      · rfl
    rw [map_map, hkeys]
    exact map.nodup

@[simp] theorem get?_modify (map : JsMap κ β) (key : κ) (change : β → β) (other : κ) :
    (map.modify key change).get? other = if other = key then (map.get? key).map change else map.get? other :=
  lookup_modify map.entries key change other

/-- Keeps the pairs that satisfy a condition. -/
def filter (map : JsMap κ β) (condition : κ → β → Bool) : JsMap κ β where
  entries := map.entries.filter fun entry => condition entry.1 entry.2
  nodup := map.nodup.sublist (filter_sublist.map Prod.fst)

@[simp] theorem get?_filter (map : JsMap κ β) (condition : κ → β → Bool) (key : κ) :
    (map.filter condition).get? key = (map.get? key).filter (condition key) := by
  refine Option.ext fun value => ?_
  rw [get?_eq_some, filter, mem_filter, Option.filter_eq_some_iff, get?_eq_some]

theorem mem_values_set {map : JsMap κ β} {key : κ} {value found : β}
    (hfound : found ∈ (map.set key value).values) : found ∈ map.values ∨ found = value := by
  obtain ⟨⟨other, last⟩, hentry, rfl⟩ := mem_map.mp hfound
  change (other, last) ∈ setEntries map.entries key value at hentry
  rw [setEntries] at hentry
  split_ifs at hentry
  · obtain ⟨entry, hentry, heq⟩ := mem_map.mp hentry
    split_ifs at heq
    · exact .inr (Prod.mk.inj heq).2.symm
    · exact .inl (mem_map.mpr ⟨entry, hentry, congrArg Prod.snd heq⟩)
  · rcases mem_append.mp hentry with hentry | hentry
    · exact .inl (mem_map.mpr ⟨_, hentry, rfl⟩)
    · exact .inr (Prod.mk.inj (mem_singleton.mp hentry)).2

/-! ### Changing the values -/

section MapValues

variable {γ : Type*} (convert : β → γ)

def mapValues (map : JsMap κ β) : JsMap κ γ where
  entries := map.entries.map fun entry => (entry.1, convert entry.2)
  nodup := by
    rw [map_map]
    exact map.nodup

theorem get?_mapValues (map : JsMap κ β) (key : κ) :
    (map.mapValues convert).get? key = (map.get? key).map convert := by
  simp only [get?, mapValues]
  induction map.entries with
  | nil => rfl
  | cons entry rest ih =>
    obtain ⟨other, value⟩ := entry
    rw [map_cons, lookup, lookup, ih]
    split_ifs
    · rfl
    · rfl

theorem has_mapValues (map : JsMap κ β) (key : κ) : (map.mapValues convert).has key = map.has key := by
  rw [has, has, get?_mapValues, Option.isSome_map]

theorem mapValues_set (map : JsMap κ β) (key : κ) (value : β) :
    (map.set key value).mapValues convert = (map.mapValues convert).set key (convert value) := by
  apply JsMap.ext
  simp only [mapValues, set, setEntries, map_map, comp_def]
  split_ifs
  · rw [map_map]
    refine map_congr_left fun entry _ => ?_
    rw [comp_apply]
    split_ifs
    · rfl
    · rfl
  · rw [map_append]
    rfl

theorem mapValues_delete (map : JsMap κ β) (key : κ) :
    (map.delete key).mapValues convert = (map.mapValues convert).delete key := by
  apply JsMap.ext
  simp only [mapValues, delete, filter_map, comp_def]

end MapValues

end JsMap

end PiRp
