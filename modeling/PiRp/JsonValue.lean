import PiRp.JsNumber
import PiRp.JsObject

/-! JSON values. An object is the list of its own properties in property order. `Serializable` are
the values `assertJsonSerializable` lets through: finite numbers and well-formed objects all the way
down. `JSON.stringify` writes minus zero as zero, so a value comes back as its `norm`. -/

namespace PiRp

open Bool

inductive Json where
  | null
  | bool (value : Bool)
  | number (value : JsNumber)
  | string (value : JsStr)
  | array (items : List Json)
  | object (props : List (JsStr × Json))

namespace JsNumber

/-- The number with minus zero replaced by zero. -/
def norm : JsNumber → JsNumber
  | .negZero => .int 0
  | value => value

@[simp] theorem norm_int (value : Int) : norm (.int value) = .int value := rfl

theorem norm_norm (value : JsNumber) : value.norm.norm = value.norm := by cases value <;> rfl

theorem norm_isFinite (value : JsNumber) : value.norm.isFinite = value.isFinite := by
  cases value <;> rfl

/-- Addition of doubles, as far as the code relies on it: a sum does not depend on the sign of a zero
summand, up to the sign of a zero sum. -/
class Addition where
  add : JsNumber → JsNumber → JsNumber
  norm_add : ∀ left right, (add left right).norm = add left.norm right.norm

end JsNumber

namespace Json

mutual

def same (left right : Json) : Bool :=
  match left, right with
  | .null, .null => true
  | .bool left, .bool right => left == right
  | .number left, .number right => left = right
  | .string left, .string right => left = right
  | .array left, .array right => sameItems left right
  | .object left, .object right => sameProps left right
  | _, _ => false

def sameItems (left right : List Json) : Bool :=
  match left, right with
  | [], [] => true
  | left :: lefts, right :: rights => same left right && sameItems lefts rights
  | _, _ => false

def sameProps (left right : List (JsStr × Json)) : Bool :=
  match left, right with
  | [], [] => true
  | (leftKey, left) :: lefts, (rightKey, right) :: rights =>
    (leftKey = rightKey) && same left right && sameProps lefts rights
  | _, _ => false

end

mutual

theorem same_iff (left right : Json) : same left right = true ↔ left = right := by
  match left with
  | .null => cases right <;> simp [same]
  | .bool value => cases right <;> simp [same]
  | .number value => cases right <;> simp [same]
  | .string value => cases right <;> simp [same]
  | .array items =>
    cases right with
    | array others => rw [same, sameItems_iff items others, array.injEq]
    | _ => simp [same]
  | .object props =>
    cases right with
    | object others => rw [same, sameProps_iff props others, object.injEq]
    | _ => simp [same]

theorem sameItems_iff (left right : List Json) : sameItems left right = true ↔ left = right := by
  match left, right with
  | [], [] => simp [sameItems]
  | [], _ :: _ => simp [sameItems]
  | _ :: _, [] => simp [sameItems]
  | left :: lefts, right :: rights =>
    rw [sameItems, and_eq_true, same_iff left right, sameItems_iff lefts rights, List.cons.injEq]

theorem sameProps_iff (left right : List (JsStr × Json)) : sameProps left right = true ↔ left = right := by
  match left, right with
  | [], [] => simp [sameProps]
  | [], _ :: _ => simp [sameProps]
  | _ :: _, [] => simp [sameProps]
  | (leftKey, left) :: lefts, (rightKey, right) :: rights =>
    rw [sameProps, and_eq_true, and_eq_true, decide_eq_true_eq, same_iff left right,
      sameProps_iff lefts rights, List.cons.injEq, Prod.mk.injEq]

end

instance : DecidableEq Json := fun left right => decidable_of_iff _ (same_iff left right)

def isString : Json → Bool
  | .string _ => true
  | _ => false

mutual

/-- The value with minus zero replaced by zero everywhere. -/
def norm (value : Json) : Json :=
  match value with
  | .null => .null
  | .bool value => .bool value
  | .number value => .number value.norm
  | .string value => .string value
  | .array items => .array (normItems items)
  | .object props => .object (normProps props)

def normItems (items : List Json) : List Json :=
  match items with
  | [] => []
  | item :: items => norm item :: normItems items

def normProps (props : List (JsStr × Json)) : List (JsStr × Json) :=
  match props with
  | [] => []
  | (key, value) :: props => (key, norm value) :: normProps props

end

/-- A value of finite numbers and well-formed objects. -/
inductive Serializable : Json → Prop
  | null : Serializable .null
  | bool (value : Bool) : Serializable (.bool value)
  | number {value : JsNumber} (hfin : value.isFinite = true) : Serializable (.number value)
  | string (value : JsStr) : Serializable (.string value)
  | array {items : List Json} (hitems : ∀ item ∈ items, Serializable item) :
      Serializable (.array items)
  | object {props : Props Json} (hord : props.Ordered)
      (hval : ∀ entry ∈ props, Serializable entry.2) : Serializable (.object props)

mutual

def isSerializable (value : Json) : Bool :=
  match value with
  | .null | .bool _ | .string _ => true
  | .number value => value.isFinite
  | .array items => itemsSerializable items
  | .object props => Props.Ordered props && propsSerializable props

def itemsSerializable (items : List Json) : Bool :=
  match items with
  | [] => true
  | item :: items => isSerializable item && itemsSerializable items

def propsSerializable (props : List (JsStr × Json)) : Bool :=
  match props with
  | [] => true
  | (_, value) :: props => isSerializable value && propsSerializable props

end

theorem serializable_number_iff {value : JsNumber} : Serializable (.number value) ↔ value.isFinite = true :=
  ⟨fun | .number hfin => hfin, .number⟩

theorem serializable_array_iff {items : List Json} :
    Serializable (.array items) ↔ ∀ item ∈ items, Serializable item :=
  ⟨fun | .array hitems => hitems, .array⟩

theorem serializable_object_iff {props : Props Json} : Serializable (.object props) ↔
      props.Ordered ∧ ∀ entry ∈ props, Serializable entry.2 :=
  ⟨fun | .object hord hval => ⟨hord, hval⟩, fun h => .object h.1 h.2⟩

mutual

theorem isSerializable_iff (value : Json) : isSerializable value = true ↔ Serializable value := by
  match value with
  | .null => exact ⟨fun _ => .null, fun _ => by rw [isSerializable]⟩
  | .bool value => exact ⟨fun _ => .bool value, fun _ => by rw [isSerializable]⟩
  | .string value => exact ⟨fun _ => .string value, fun _ => by rw [isSerializable]⟩
  | .number value => rw [isSerializable, serializable_number_iff]
  | .array items => rw [isSerializable, serializable_array_iff, itemsSerializable_iff items]
  | .object props =>
    rw [isSerializable, serializable_object_iff, and_eq_true, decide_eq_true_eq, propsSerializable_iff props]

theorem itemsSerializable_iff (items : List Json) :
    itemsSerializable items = true ↔ ∀ item ∈ items, Serializable item := by
  match items with
  | [] => simp [itemsSerializable]
  | item :: items =>
    rw [itemsSerializable, and_eq_true, isSerializable_iff item, itemsSerializable_iff items, List.forall_mem_cons]

theorem propsSerializable_iff (props : List (JsStr × Json)) :
    propsSerializable props = true ↔ ∀ entry ∈ props, Serializable entry.2 := by
  match props with
  | [] => simp [propsSerializable]
  | (key, value) :: props =>
    rw [propsSerializable, and_eq_true, isSerializable_iff value, propsSerializable_iff props, List.forall_mem_cons]

end

instance (value : Json) : Decidable value.Serializable :=
  decidable_of_iff _ (isSerializable_iff value)

theorem normItems_eq (items : List Json) : normItems items = items.map norm := by
  induction items with
  | nil => rw [normItems]; rfl
  | cons item items ih => rw [normItems, ih, List.map_cons]

theorem normProps_eq (props : Props Json) : normProps props = props.map fun entry => (entry.1, norm entry.2) := by
  induction props with
  | nil => rw [normProps]; rfl
  | cons entry props ih => rw [normProps, ih, List.map_cons]

theorem normProps_ordered {props : Props Json} (hord : props.Ordered) : Props.Ordered (normProps props) := by
  rw [normProps_eq]
  exact List.pairwise_map.mpr hord

theorem get?_normProps (props : Props Json) (key : JsStr) :
    Props.get? (normProps props) key = (props.get? key).map norm := by
  rw [normProps_eq]
  induction props with
  | nil => rfl
  | cons entry props ih =>
    obtain ⟨other, value⟩ := entry
    rw [List.map_cons, Props.get?, Props.get?, ih]
    split_ifs
    · rfl
    · rfl

theorem Serializable.norm {value : Json} (hvalue : Serializable value) : Serializable value.norm := by
  induction hvalue with
  | null => rw [Json.norm]; exact .null
  | bool value => rw [Json.norm]; exact .bool value
  | @number value hfin =>
    rw [Json.norm]
    exact .number ((JsNumber.norm_isFinite value).trans hfin)
  | string value => rw [Json.norm]; exact .string value
  | array _ ih =>
    rw [Json.norm, normItems_eq]
    refine .array fun item hitem => ?_
    obtain ⟨source, hsrc, rfl⟩ := List.mem_map.mp hitem
    exact ih source hsrc
  | object hord _ ih =>
    rw [Json.norm]
    refine .object (normProps_ordered hord) fun entry hentry => ?_
    rw [normProps_eq] at hentry
    obtain ⟨source, hsrc, rfl⟩ := List.mem_map.mp hentry
    exact ih source hsrc

end Json

end PiRp
