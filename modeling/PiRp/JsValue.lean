import PiRp.JsNumber
import PiRp.JsObject

/-! The data a program holds in memory: JSON values whose arrays can have holes. `delete` on an array
element leaves a hole, which `in` does not see and `JSON.stringify` writes as `null`. -/

namespace PiRp

open List

inductive JsValue where
  | null
  | bool (value : Bool)
  | number (value : JsNumber)
  | string (value : JsStr)
  /-- A hole is `none`. -/
  | array (items : List (Option JsValue))
  | object (props : List (JsStr × JsValue))

namespace JsValue

mutual

def same (left right : JsValue) : Bool :=
  match left, right with
  | .null, .null => true
  | .bool left, .bool right => left == right
  | .number left, .number right => left = right
  | .string left, .string right => left = right
  | .array left, .array right => sameItems left right
  | .object left, .object right => sameProps left right
  | _, _ => false

def sameItems (left right : List (Option JsValue)) : Bool :=
  match left, right with
  | [], [] => true
  | none :: lefts, none :: rights => sameItems lefts rights
  | some left :: lefts, some right :: rights => same left right && sameItems lefts rights
  | _, _ => false

def sameProps (left right : List (JsStr × JsValue)) : Bool :=
  match left, right with
  | [], [] => true
  | (leftKey, left) :: lefts, (rightKey, right) :: rights =>
    (leftKey = rightKey) && same left right && sameProps lefts rights
  | _, _ => false

end

mutual

theorem same_iff (left right : JsValue) : same left right = true ↔ left = right := by
  match left with
  | .null => cases right <;> simp [same]
  | .bool value => cases right <;> simp [same]
  | .number value => cases right <;> simp [same]
  | .string value => cases right <;> simp [same]
  | .array items =>
    cases right with
    | array others => rw [same, sameItems_iff items others, array.injEq]
    | _ => simp [same]
  | .object props =>
    cases right with
    | object others => rw [same, sameProps_iff props others, object.injEq]
    | _ => simp [same]

theorem sameItems_iff (left right : List (Option JsValue)) : sameItems left right = true ↔ left = right := by
  match left, right with
  | [], [] => simp [sameItems]
  | [], _ :: _ => simp [sameItems]
  | none :: _, [] => simp [sameItems]
  | some _ :: _, [] => simp [sameItems]
  | none :: lefts, none :: rights => simp [sameItems, sameItems_iff lefts rights]
  | none :: _, some _ :: _ => simp [sameItems]
  | some _ :: _, none :: _ => simp [sameItems]
  | some left :: lefts, some right :: rights =>
    rw [sameItems, Bool.and_eq_true, same_iff left right, sameItems_iff lefts rights,
      List.cons.injEq, Option.some.injEq]

theorem sameProps_iff (left right : List (JsStr × JsValue)) : sameProps left right = true ↔ left = right := by
  match left, right with
  | [], [] => simp [sameProps]
  | [], _ :: _ => simp [sameProps]
  | _ :: _, [] => simp [sameProps]
  | (leftKey, left) :: lefts, (rightKey, right) :: rights =>
    rw [sameProps, Bool.and_eq_true, Bool.and_eq_true, decide_eq_true_eq, same_iff left right,
      sameProps_iff lefts rights, List.cons.injEq, Prod.mk.injEq]

end

instance : DecidableEq JsValue := fun left right => decidable_of_iff _ (same_iff left right)

/-- `isObject`: an object that is neither null nor an array. -/
def isObject : JsValue → Bool
  | .object _ => true
  | _ => false

def isArray : JsValue → Bool
  | .array _ => true
  | _ => false

/-- `typeof value === "object"` for a value that is not null. -/
def isContainer : JsValue → Bool
  | .array _ | .object _ => true
  | _ => false

end JsValue

namespace Props

variable {β : Type*}

/-- `delete object[key]`. -/
def delete (props : Props β) (key : JsStr) : Props β := props.filter fun entry => entry.1 ≠ key

theorem get?_map_set {props : Props β} {key : JsStr} (value : β) (other : JsStr)
    (hkey : ∃ entry ∈ props, entry.1 = key) :
    get? (props.map fun entry => if entry.1 = key then (key, value) else entry) other =
      if key = other then some value else get? props other := by
  induction props with
  | nil => exact absurd hkey (by simp)
  | cons first rest ih =>
    obtain ⟨firstKey, found⟩ := first
    rw [map_cons]
    by_cases hfirst : firstKey = key
    · subst hfirst
      rw [if_pos rfl, get?, get?]
      split_ifs with hother
      · rfl
      · by_cases hrest : ∃ entry ∈ rest, entry.1 = firstKey
        · rw [ih hrest, if_neg hother]
        · have hsame : (rest.map fun entry =>
              if entry.1 = firstKey then (firstKey, value) else entry) = rest := by
            rw [map_congr_left (g := id)]
            · exact map_id rest
            · exact fun entry hentry => if_neg fun heq => hrest ⟨entry, hentry, heq⟩
          rw [hsame]
    · have hrest : ∃ entry ∈ rest, entry.1 = key := by
        obtain ⟨entry, hentry, heq⟩ := hkey
        rcases mem_cons.mp hentry with rfl | hentry
        · exact absurd heq hfirst
        · exact ⟨entry, hentry, heq⟩
      rw [if_neg hfirst, get?, get?, ih hrest]
      by_cases hother : key = other
      · rw [if_neg (fun heq => hfirst (heq.trans hother.symm)), if_pos hother, if_pos hother]
      · rw [if_neg hother, if_neg hother]

theorem get?_insertKey {props : Props β} {key : JsStr} (value : β) (other : JsStr)
    (hkey : ∀ entry ∈ props, entry.1 ≠ key) :
    get? (insertKey props key value) other = if key = other then some value else get? props other := by
  induction props with
  | nil => simp only [insertKey, get?]
  | cons first rest ih =>
    obtain ⟨firstKey, found⟩ := first
    have hfirst : firstKey ≠ key := hkey _ mem_cons_self
    rw [insertKey]
    split_ifs with hbef hother hother
    · rw [get?, if_pos hother]
    · rw [get?, if_neg hother]
    · rw [get?, ih fun entry hentry => hkey entry (mem_cons_of_mem _ hentry), if_pos hother,
        if_neg fun heq => hfirst (heq.trans hother.symm)]
    · rw [get?, get?, ih fun entry hentry => hkey entry (mem_cons_of_mem _ hentry),
        if_neg hother]

/-- **What an object holds after a property was defined.** -/
theorem get?_set (props : Props β) (key other : JsStr) (value : β) :
    get? (set props key value) other = if key = other then some value else get? props other := by
  rw [set]
  split_ifs with hany hother hother
  · obtain ⟨entry, hentry, heq⟩ := any_eq_true.mp hany
    rw [get?_map_set value other ⟨entry, hentry, of_decide_eq_true heq⟩, if_pos hother]
  · obtain ⟨entry, hentry, heq⟩ := any_eq_true.mp hany
    rw [get?_map_set value other ⟨entry, hentry, of_decide_eq_true heq⟩, if_neg hother]
  · rw [get?_insertKey value other fun entry hentry heq =>
      hany (any_eq_true.mpr ⟨entry, hentry, decide_eq_true heq⟩), if_pos hother]
  · rw [get?_insertKey value other fun entry hentry heq =>
      hany (any_eq_true.mpr ⟨entry, hentry, decide_eq_true heq⟩), if_neg hother]

/-- **What an object holds after a property was deleted.** -/
theorem get?_delete (props : Props β) (key other : JsStr) :
    get? (delete props key) other = if key = other then none else get? props other := by
  induction props with
  | nil => simp [delete, get?]
  | cons first rest ih =>
    obtain ⟨firstKey, found⟩ := first
    rw [delete, filter_cons]
    rw [delete] at ih
    by_cases hfirst : firstKey = key
    · rw [if_neg (by simp [hfirst]), ih, get?]
      by_cases hother : key = other
      · rw [if_pos hother, if_pos hother]
      · rw [if_neg hother, if_neg hother, if_neg fun heq => hother (hfirst.symm.trans heq)]
    · rw [if_pos (by simp [hfirst]), get?, get?, ih]
      by_cases hother : key = other
      · rw [if_neg (fun heq => hfirst (heq.trans hother.symm)), if_pos hother, if_pos hother]
      · rw [if_neg hother, if_neg hother]

end Props

end PiRp
