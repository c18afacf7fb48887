import Mathlib.Data.List.Sort
import PiRp.JsMap

/-! Lists whose order does not matter: sorted by a number that tells the items apart, or looked up by a key
that does. -/

namespace PiRp.Sequenced

open List

variable {α κ : Type*}

/-- A stable sort by a number. -/
def bySequence (seq : α → Nat) (values : List α) : List α :=
  values.insertionSort fun left right => seq left ≤ seq right

/-- A `Map` of the items by their key; a later item replaces an earlier one. -/
def index [DecidableEq κ] (key : α → κ) (items : List α) : JsMap κ α :=
  items.foldl (fun map item => map.set (key item) item) .empty

/-- Items with the same key are the same. -/
def Determined {β : Type*} (key : α → β) (items : List α) : Prop :=
  ∀ first ∈ items, ∀ second ∈ items, key first = key second → first = second

instance {β : Type*} [DecidableEq α] [DecidableEq β] (key : α → β) (items : List α) :
    Decidable (Determined key items) :=
  inferInstanceAs (Decidable (∀ first ∈ items, ∀ second ∈ items, key first = key second → first = second))

section Sorting

variable {seq : α → Nat} {values first second : List α}

theorem bySequence_perm (seq : α → Nat) (values : List α) : (bySequence seq values).Perm values :=
  perm_insertionSort _ values

theorem mem_bySequence {value : α} : value ∈ bySequence seq values ↔ value ∈ values :=
  (bySequence_perm seq values).mem_iff

theorem bySequence_sorted (seq : α → Nat) (values : List α) :
    (bySequence seq values).Pairwise fun left right => seq left ≤ seq right := by
  have : Std.Total fun left right : α => seq left ≤ seq right := ⟨fun left right => Nat.le_total _ _⟩
  have : IsTrans α fun left right : α => seq left ≤ seq right := ⟨fun _ _ _ => Nat.le_trans⟩
  exact pairwise_insertionSort _ values

theorem bySequence_eq_of_perm (hperm : first.Perm second) (hseqs : Determined seq first) :
    bySequence seq first = bySequence seq second := by
  refine List.Perm.eq_of_pairwise (fun left right hleft hright hle hge => ?_) (bySequence_sorted seq first)
    (bySequence_sorted seq second) (((bySequence_perm seq first).trans hperm).trans (bySequence_perm seq second).symm)
  exact hseqs left (mem_bySequence.mp hleft) right (hperm.mem_iff.mpr (mem_bySequence.mp hright))
    (Nat.le_antisymm hle hge)

end Sorting

section Lookup

variable [DecidableEq κ] {key : α → κ} {items first second : List α}

theorem get?_foldl_set (map : JsMap κ α) (items : List α) (wanted : κ) :
    (items.foldl (fun map item => map.set (key item) item) map).get? wanted =
      (items.reverse.find? fun item => key item = wanted).or (map.get? wanted) := by
  induction items generalizing map with
  | nil => rfl
  | cons item rest ih =>
    rw [foldl_cons, ih, JsMap.get?_set, reverse_cons, find?_append, Option.or_assoc]
    refine congrArg _ ?_
    rw [find?_singleton]
    by_cases hkey : key item = wanted
    · simp [hkey]
    · simp [hkey, Ne.symm hkey]

theorem get?_index (hkeys : Determined key items) {wanted : κ} {item : α} :
    (index key items).get? wanted = some item ↔ item ∈ items ∧ key item = wanted := by
  rw [index, get?_foldl_set, JsMap.get?_empty, Option.or_none]
  constructor
  · intro hfound
    exact ⟨mem_reverse.mp (mem_of_find?_eq_some hfound), by simpa using find?_some hfound⟩
  · rintro ⟨hitem, rfl⟩
    cases hfound : items.reverse.find? fun other => decide (key other = key item) with
    | none => exact absurd (decide_eq_true rfl) (find?_eq_none.mp hfound item (mem_reverse.mpr hitem))
    | some other =>
      have hother := mem_reverse.mp (mem_of_find?_eq_some hfound)
      rw [hkeys other hother item hitem (by simpa using find?_some hfound)]

theorem has_index {wanted : κ} : (index key items).has wanted = true ↔ ∃ item ∈ items, key item = wanted := by
  rw [JsMap.has, index, get?_foldl_set, JsMap.get?_empty, Option.or_none, find?_isSome]
  simp

theorem get?_index_congr (hmem : ∀ item, item ∈ first ↔ item ∈ second) (hkeys : Determined key first) (wanted : κ) :
    (index key first).get? wanted = (index key second).get? wanted := by
  have hsnd : Determined key second := fun left hleft right hright =>
    hkeys left ((hmem left).mpr hleft) right ((hmem right).mpr hright)
  refine Option.ext fun item => ?_
  rw [get?_index hkeys, get?_index hsnd, hmem]

theorem mem_values_index (hkeys : Determined key items) {item : α} :
    item ∈ (index key items).values ↔ item ∈ items := by
  rw [JsMap.values, mem_map]
  constructor
  · rintro ⟨⟨found, value⟩, hentry, rfl⟩
    exact ((get?_index hkeys).mp (JsMap.get?_eq_some.mpr hentry)).1
  · intro hitem
    exact ⟨(key item, item), JsMap.get?_eq_some.mp ((get?_index hkeys).mpr ⟨hitem, rfl⟩), rfl⟩

theorem values_index (hkeys : Determined key items) : (index key items).values.map key = (index key items).keys := by
  rw [JsMap.values, JsMap.keys, map_map]
  refine map_congr_left fun entry hentry => ?_
  exact ((get?_index hkeys).mp (JsMap.get?_eq_some.mpr hentry)).2

theorem values_index_perm (hmem : ∀ item, item ∈ first ↔ item ∈ second) (hkeys : Determined key first) :
    (index key first).values.Perm (index key second).values := by
  have hsnd : Determined key second := fun left hleft right hright =>
    hkeys left ((hmem left).mpr hleft) right ((hmem right).mpr hright)
  have hnodup : ∀ items : List α, Determined key items → (index key items).values.Nodup := fun items hkeys =>
    List.Nodup.of_map key (values_index hkeys ▸ (index key items).nodup)
  refine (perm_ext_iff_of_nodup (hnodup first hkeys) (hnodup second hsnd)).mpr fun item => ?_
  rw [mem_values_index hkeys, mem_values_index hsnd, hmem]

end Lookup

theorem Determined.mono {β : Type*} {key : α → β} {items others : List α} (hkeys : Determined key items)
    (hsub : ∀ item ∈ others, item ∈ items) : Determined key others :=
  fun first hfirst second hsnd => hkeys first (hsub first hfirst) second (hsub second hsnd)

end PiRp.Sequenced
