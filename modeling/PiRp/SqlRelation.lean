import PiRp.JsText
import Mathlib.Data.List.Sort

/-! Tables as lists of rows: inserting with unique keys, ordering, limits and aggregates. On rows whose
number keys strictly increase, ordering by the key changes nothing or reverses the rows. -/

namespace PiRp.Sql

open List

variable {α : Type*}

inductive Direction where
  | asc
  | desc

/-- `ORDER BY` a number. -/
def orderBy (key : α → Nat) (direction : Direction) (rows : List α) : List α :=
  match direction with
  | .asc => rows.insertionSort fun left right => key left ≤ key right
  | .desc => rows.insertionSort fun left right => key right ≤ key left

/-- `ORDER BY` a text, in the order of its UTF-8 bytes. -/
def orderByText (key : α → JsStr) (rows : List α) : List α :=
  rows.insertionSort fun left right => textEncode (key left) ≤ textEncode (key right)

theorem find?_key {κ : Type*} [DecidableEq κ] {key : α → κ} {rows : List α}
    (hnodup : (rows.map key).Nodup) {value : κ} {row : α} :
    rows.find? (fun other => key other = value) = some row ↔ row ∈ rows ∧ key row = value := by
  constructor
  · intro hfound
    have hsame := find?_some hfound
    exact ⟨mem_of_find?_eq_some hfound, of_decide_eq_true hsame⟩
  · rintro ⟨hrow, rfl⟩
    have hfound : (rows.find? fun other => key other = key row).isSome = true :=
      find?_isSome.mpr ⟨row, hrow, decide_eq_true rfl⟩
    obtain ⟨found, hfound⟩ := Option.isSome_iff_exists.mp hfound
    have hsame := find?_some hfound
    have hkey : key found = key row := of_decide_eq_true hsame
    rw [hfound, inj_on_of_nodup_map hnodup (mem_of_find?_eq_some hfound) hrow hkey]

theorem orderByText_perm (key : α → JsStr) (rows : List α) : (orderByText key rows).Perm rows :=
  perm_insertionSort _ rows

/-- The rows have strictly increasing keys. -/
def Increasing (key : α → Nat) (rows : List α) : Prop :=
  rows.Pairwise fun left right => key left < key right

theorem Increasing.nodup_keys {key : α → Nat} {rows : List α} (hrows : Increasing key rows) : (rows.map key).Nodup :=
  pairwise_map.mpr (hrows.imp Nat.ne_of_lt)

theorem Increasing.orderBy_asc {key : α → Nat} {rows : List α} (hrows : Increasing key rows) :
    orderBy key .asc rows = rows :=
  (hrows.imp Nat.le_of_lt).insertionSort_eq

/-- The rows up to the first that satisfies a condition. -/
def upTo (condition : α → Bool) : List α → List α
  | [] => []
  | row :: rows => if condition row then [row] else row :: upTo condition rows

/-! ### Numbered rows -/

section Numbered

variable {β γ : Type*} (make : Nat → α → β)

/-- The rows of items that get consecutive numbers. -/
def numbered (start : Nat) (items : List α) : List β :=
  items.mapIdx fun index item => make (start + index) item

theorem numbered_cons (start : Nat) (item : α) (items : List α) :
    numbered make start (item :: items) = make start item :: numbered make (start + 1) items := by
  rw [numbered, mapIdx_cons, numbered]
  congr 1
  refine mapIdx_eq_mapIdx_iff.mpr fun index _ => ?_
  rw [Nat.add_assoc, Nat.add_comm 1]

theorem numbered_append (start : Nat) (left right : List α) : numbered make start (left ++ right) =
      numbered make start left ++ numbered make (start + left.length) right := by
  induction left generalizing start with
  | nil => rfl
  | cons item left ih =>
    rw [cons_append, numbered_cons, numbered_cons, ih, cons_append, length_cons, Nat.add_assoc, Nat.add_comm 1]

variable {make}

theorem mem_numbered {start : Nat} {items : List α} {row : β} (hrow : row ∈ numbered make start items) :
    ∃ item ∈ items, ∃ index < items.length, make (start + index) item = row := by
  obtain ⟨index, hindex, rfl⟩ := mem_mapIdx.mp hrow
  exact ⟨_, getElem_mem hindex, index, hindex, rfl⟩

end Numbered

end PiRp.Sql
