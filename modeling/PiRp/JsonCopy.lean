import PiRp.JsValue
import PiRp.JsonTextPrefix
import PiRp.JsonTextRoundTrip

/-! Values in memory and their JSON text. `JSON.stringify` writes a number that is not finite as null,
so `JSON.parse` reads a value back as its `copy`. A value is well-formed when its objects are objects:
their keys are distinct and in property order. Optional members are left out of an object. -/

namespace PiRp.Json

open List Props JsonText

mutual

/-- What `JSON.stringify` writes. -/
def data (value : Json) : Json :=
  match value with
  | .null => .null
  | .bool value => .bool value
  | .number value => if value.isFinite then .number value else .null
  | .string value => .string value
  | .array items => .array (dataItems items)
  | .object props => .object (dataProps props)

def dataItems (items : List Json) : List Json :=
  match items with
  | [] => []
  | item :: items => data item :: dataItems items

def dataProps (props : List (JsStr × Json)) : List (JsStr × Json) :=
  match props with
  | [] => []
  | (key, value) :: props => (key, data value) :: dataProps props

end

/-- `JSON.parse(JSON.stringify(value))`. -/
def copy (value : Json) : Json := value.data.norm

/-- The objects of the value are objects. -/
def WellFormed (value : Json) : Prop := value.data.Serializable

theorem dataItems_eq (items : List Json) : dataItems items = items.map data := by
  induction items with
  | nil => rfl
  | cons item items ih =>
    show data item :: dataItems items = _
    rw [ih, map_cons]

theorem dataProps_eq (props : Props Json) : dataProps props = props.map fun entry => (entry.1, data entry.2) := by
  induction props with
  | nil => rfl
  | cons entry props ih =>
    show (entry.1, data entry.2) :: dataProps props = _
    rw [ih, map_cons]

theorem get?_dataProps (props : Props Json) (key : JsStr) :
    get? (dataProps props) key = (props.get? key).map data := by
  rw [dataProps_eq]
  induction props with
  | nil => rfl
  | cons entry props ih =>
    obtain ⟨other, value⟩ := entry
    rw [map_cons, get?, get?, ih]
    split_ifs
    · rfl
    · rfl

theorem wellFormed_object_iff {props : Props Json} :
    (Json.object props).WellFormed ↔ props.Ordered ∧ ∀ entry ∈ props, entry.2.WellFormed := by
  show Serializable (.object (dataProps props)) ↔ _
  rw [serializable_object_iff, dataProps_eq]
  refine and_congr pairwise_map ⟨fun hall entry hentry => ?_, fun hall entry hentry => ?_⟩
  · exact hall _ (mem_map_of_mem hentry)
  · obtain ⟨source, hsrc, rfl⟩ := mem_map.mp hentry
    exact hall source hsrc

theorem wellFormed_array {items : List Json} (hitems : ∀ item ∈ items, item.WellFormed) :
    (Json.array items).WellFormed := by
  show Serializable (.array (dataItems items))
  rw [dataItems_eq, serializable_array_iff]
  intro item hitem
  obtain ⟨source, hsrc, rfl⟩ := mem_map.mp hitem
  exact hitems source hsrc

@[simp] theorem wellFormed_string (value : JsStr) : (Json.string value).WellFormed :=
  Serializable.string value

@[simp] theorem wellFormed_bool (value : Bool) : (Json.bool value).WellFormed :=
  Serializable.bool value

@[simp] theorem wellFormed_null : Json.null.WellFormed := Serializable.null

@[simp] theorem wellFormed_number (value : JsNumber) : (Json.number value).WellFormed := by
  show Serializable (if value.isFinite then .number value else .null)
  split_ifs with hfin
  · exact .number hfin
  · exact .null

@[simp] theorem copy_string (value : JsStr) : (Json.string value).copy = .string value := rfl

@[simp] theorem copy_null : Json.null.copy = .null := rfl

/-! ### Members -/

/-- `value[key]`; a value that is no object has none of the members of an entry. -/
def member (value : Json) (key : JsStr) : Option Json :=
  match value with
  | .object props => get? props key
  | _ => none

theorem member_copy (value : Json) (key : JsStr) : value.copy.member key = (value.member key).map copy := by
  rw [copy]
  cases value with
  | object props =>
    rw [data, norm, member, member, get?_normProps, get?_dataProps, Option.map_map]
    rfl
  | number value =>
    rw [data]
    split_ifs
    · rw [norm]; rfl
    · rw [norm]; rfl
  | _ =>
    rw [data, norm]
    rfl

/-- `{ ...value, [key]: member }`. -/
def withMember (value : Json) (key : JsStr) (changed : Json) : Json :=
  match value with
  | .object props => .object (Props.set props key changed)
  | _ => .object [(key, changed)]

theorem member_withMember (value : Json) (key : JsStr) (changed : Json) (other : JsStr) :
    (value.withMember key changed).member other = if key = other then some changed else value.member other := by
  cases value with
  | object props => exact get?_set props key other changed
  | _ => rfl

theorem wellFormed_set {props : Props Json} (hfor : (Json.object props).WellFormed) (key : JsStr)
    {changed : Json} (hchg : changed.WellFormed) : (Json.object (Props.set props key changed)).WellFormed := by
  rw [wellFormed_object_iff] at hfor
  rw [wellFormed_object_iff, Props.set]
  split_ifs with hany
  · refine ⟨?_, fun entry hentry => ?_⟩
    · have hkeys : ∀ entry ∈ props, (if entry.1 = key then (key, changed) else entry).1 = entry.1 := by
        intro entry _
        split_ifs with hkey
        · exact hkey.symm
        · rfl
      refine pairwise_map.mpr (hfor.1.imp_of_mem fun hleft hright horder => ?_)
      rw [hkeys _ hleft, hkeys _ hright]
      exact horder
    · obtain ⟨source, hsrc, rfl⟩ := mem_map.mp hentry
      split_ifs
      · exact hchg
      · exact hfor.2 source hsrc
  · have hnew : ∀ entry ∈ props, entry.1 ≠ key := fun entry hentry heq =>
      hany (any_eq_true.mpr ⟨entry, hentry, decide_eq_true heq⟩)
    refine ⟨insertKey_ordered changed hfor.1 hnew, fun entry hentry => ?_⟩
    rcases mem_cons.mp ((insertKey_perm props key changed).mem_iff.mp hentry) with rfl | hentry
    · exact hchg
    · exact hfor.2 entry hentry

theorem wellFormed_withMember {value : Json} (hfor : value.WellFormed) (key : JsStr) {changed : Json}
    (hchg : changed.WellFormed) : (value.withMember key changed).WellFormed := by
  have hsin : (Json.object [(key, changed)]).WellFormed :=
    wellFormed_object_iff.mpr ⟨pairwise_singleton _ _, forall_mem_singleton.mpr hchg⟩
  cases value with
  | object props => exact wellFormed_set hfor key hchg
  | _ => exact hsin

theorem wellFormed_member {value : Json} (hfor : value.WellFormed) {key : JsStr} {found : Json}
    (hfound : value.member key = some found) : found.WellFormed := by
  cases value with
  | object props => exact (wellFormed_object_iff.mp hfor).2 _ (mem_of_get? hfound)
  | _ => exact nomatch hfound

theorem isObject_withMember (value : Json) (key : JsStr) (changed : Json) :
    ∃ props, value.withMember key changed = .object props := by
  cases value <;> exact ⟨_, rfl⟩

/-- `delete value[key]`. -/
def withoutMember (value : Json) (key : JsStr) : Json :=
  match value with
  | .object props => .object (props.filter fun entry => entry.1 ≠ key)
  | _ => value

/-- The members of an object literal; an undefined one is no member. -/
abbrev Members := List (JsStr × Option Json)

def objectOf (members : Members) : Json :=
  .object (members.filterMap fun member => member.2.map (Prod.mk member.1))

def Members.find (members : Members) (key : JsStr) : Option Json :=
  match members with
  | [] => none
  | (other, value) :: rest => if other = key then value else Members.find rest key

theorem keys_objectOf (members : Members) :
    ((members.filterMap fun member => member.2.map (Prod.mk member.1)).map Prod.fst).Sublist
      (members.map Prod.fst) := by
  induction members with
  | nil => exact .slnil
  | cons first rest ih =>
    obtain ⟨key, value⟩ := first
    cases value with
    | none => exact ih.cons key
    | some value => exact ih.cons_cons key

theorem member_objectOf {members : Members} (hkeys : (members.map Prod.fst).Pairwise KeyOrder)
    (key : JsStr) : (objectOf members).member key = members.find key := by
  rw [objectOf, member]
  induction members with
  | nil => rfl
  | cons first rest ih =>
    obtain ⟨other, value⟩ := first
    rw [map_cons, pairwise_cons] at hkeys
    rw [Members.find, ← ih hkeys.2]
    cases value with
    | some value => rfl
    | none =>
      split_ifs with hkey
      · refine get?_eq_none fun entry hentry heq => ?_
        have hmem := (keys_objectOf rest).subset (mem_map_of_mem hentry)
        exact (hkeys.1 entry.1 hmem).1 (hkey.trans heq.symm)
      · rfl

theorem wellFormed_objectOf {members : Members} (hkeys : (members.map Prod.fst).Pairwise KeyOrder)
    (hval : ∀ member ∈ members, ∀ value, member.2 = some value → value.WellFormed) :
    (objectOf members).WellFormed := by
  rw [objectOf, wellFormed_object_iff]
  refine ⟨pairwise_map.mp (hkeys.sublist (keys_objectOf members)), fun entry hentry => ?_⟩
  obtain ⟨source, hsrc, hentry⟩ := mem_filterMap.mp hentry
  obtain ⟨value, hvalue, rfl⟩ := Option.map_eq_some_iff.mp hentry
  exact hval source hsrc value hvalue

/-! ### Text -/

variable [NumberText]

/-- `JSON.stringify(value)`. -/
def text (value : Json) : JsStr := stringify value.data

theorem parse_text {value : Json} (hvalue : value.WellFormed) :
    parse value.text = some value.copy := parse_stringify hvalue

theorem printable_text {value : Json} (hvalue : value.WellFormed) : Printable value.text :=
  printable_stringify hvalue

theorem text_object (props : Props Json) : ∃ rest,
    (Json.object props).text = openBrace :: (rest ++ [closeBrace]) := by
  rw [text, data, stringify_object]
  exact ⟨_, rfl⟩

end PiRp.Json
