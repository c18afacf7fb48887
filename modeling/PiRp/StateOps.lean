import PiRp.JsValue
import PiRp.JsonValue

/-! The operations of `packages/coding-agent/src/state/state-manager.ts` and `merge.ts` on the
properties of a state object. `applyOp` mutates its root in place; here it returns the new root, and
`none` where it throws. Values are trees: two places never share a container. A key is an own property,
as it is for every name but `__proto__`. -/

namespace PiRp.State

/-- An operation with the value it carries; `seed` is the store's own one. -/
inductive StateOp where
  | add (value : JsValue)
  | remove
  | replace (value : JsValue)
  | merge (value : JsValue)
  | seed (value : JsValue)

structure StoreOp where
  op : StateOp
  path : JsStr

/-- Canonical decimal digits of a safe integer. -/
def asArrayIndex (part : JsStr) : Option Nat :=
  if part = decimal (decimalValue part) ∧ decimalValue part ≤ maxSafeInteger then
    some (decimalValue part)
  else none

def dot : UInt16 := 0x2E

def slash : UInt16 := 0x2F

/-- The segments of a path in dot notation or JSON Pointer notation. -/
def pathParts (path : JsStr) : List JsStr :=
  if path.head? = some slash then (path.splitOn slash).drop 1 else path.splitOn dot

def lastPart (parts : List JsStr) : JsStr := parts.getLast?.getD []

/-- `current[part]` on the way to a path; an array takes canonical indices only. -/
def child (current : JsValue) (part : JsStr) : Option JsValue :=
  match current with
  | .object props => Props.get? props part
  | .array items => (asArrayIndex part).bind fun index => items[index]?.join
  | _ => none

/-- `current[part] = value` for a part that is there, or for any part of an object. -/
def setChild (current : JsValue) (part : JsStr) (value : JsValue) : JsValue :=
  match current with
  | .object props => .object (Props.set props part value)
  | .array items =>
    match asArrayIndex part with
    | some index => .array (items.set index (some value))
    | none => .array items
  | current => current

/-- The loop of `resolvePath`: the container the inner parts lead to. -/
def resolveParts (current : JsValue) : List JsStr → Option JsValue
  | [] => some current
  | part :: rest =>
    match child current part with
    | some value => if value.isContainer then resolveParts value rest else none
    | none => none

/-- The root with a changed container at the place the inner parts lead to. -/
def updateParts (current : JsValue) (changed : JsValue) : List JsStr → JsValue
  | [] => changed
  | part :: rest =>
    match child current part with
    | some value => setChild current part (updateParts value changed rest)
    | none => current

/-- The next container on the way of `setDeep`: an object gets a new one where it has none. -/
def descend (current : JsValue) (part : JsStr) : Option JsValue :=
  match child current part with
  | some value =>
    if value.isContainer then some value
    else if current.isObject then some (.object [])
    else none
  | none => if current.isObject then some (.object []) else none

/-- The last assignment of `setDeep`; an array is never grown. -/
def assign (current : JsValue) (key : JsStr) (value : JsValue) : Option JsValue :=
  match current with
  | .object props => some (.object (Props.set props key value))
  | .array items =>
    match asArrayIndex key with
    | some index => if index < items.length then some (.array (items.set index (some value))) else none
    | none => none
  | _ => none

def setParts (value : JsValue) (current : JsValue) : List JsStr → Option JsValue
  | [] => none
  | [key] => assign current key value
  | part :: next :: rest =>
    match descend current part with
    | some inner => (setParts value inner (next :: rest)).map (setChild current part)
    | none => none

/-- `isObject(value) ? value : {}`. -/
def objectOr (value : JsValue) : Props JsValue :=
  match value with
  | .object props => props
  | _ => []

/-- The root after all its keys were deleted and those of `src` assigned. -/
def replaceAllKeys (src : Props JsValue) : Props JsValue :=
  src.foldl (fun target entry => target.set entry.1 entry.2) []

/-- `setDeep`; the root is unchanged where the path cannot be reached. -/
def setDeep (root : Props JsValue) (path : JsStr) (value : JsValue) : Props JsValue :=
  if path = [] then
    match value with
    | .object props => replaceAllKeys props
    | _ => root
  else
    match setParts value (.object root) (pathParts path) with
    | some changed => objectOr changed
    | none => root

mutual

/-- Merges the patch into the target: null deletes, objects merge, other values replace. -/
def deepMerge (target : Props JsValue) (src : List (JsStr × JsValue)) : Props JsValue :=
  match src with
  | [] => target
  | (key, value) :: rest => deepMerge (mergeKey target key value) rest

def mergeKey (target : Props JsValue) (key : JsStr) (value : JsValue) : Props JsValue :=
  match value with
  | .null => target.delete key
  | .object props =>
    match target.get? key with
    | some (.object existing) => target.set key (.object (deepMerge existing props))
    | _ => target.set key (.object props)
  | value => target.set key value

end

mutual

/-- Fills in the keys the target does not have. -/
def fillMissing (target : Props JsValue) (defaults : List (JsStr × JsValue)) : Props JsValue :=
  match defaults with
  | [] => target
  | (key, value) :: rest => fillMissing (fillKey target key value) rest

def fillKey (target : Props JsValue) (key : JsStr) (value : JsValue) : Props JsValue :=
  match target.get? key with
  | none => target.set key value
  | some (.object existing) =>
    match value with
    | .object props => target.set key (.object (fillMissing existing props))
    | _ => target
  | some _ => target

end

section Apply

variable [JsNumber.Addition]

/-- `add` onto a present value: numbers are summed, an array takes another element. -/
def addTo (current value : JsValue) : JsValue :=
  match current, value with
  | .number current, .number value => .number (JsNumber.Addition.add current value)
  | .array items, value => if value.isArray then value else .array (items ++ [some value])
  | _, value => value

/-- `add` in the container of the last part; an array grows by one element at most. -/
def addKey (parent : JsValue) (key : JsStr) (value : JsValue) : JsValue :=
  match parent with
  | .object props =>
    match Props.get? props key with
    | some current => .object (Props.set props key (addTo current value))
    | none => .object (Props.set props key value)
  | .array items =>
    match asArrayIndex key with
    | none => .array items
    | some index =>
      match items[index]? with
      | some (some current) => .array (items.set index (some (addTo current value)))
      | some none => .array (items.set index (some value))
      | none => if index = items.length then .array (items ++ [some value]) else .array items
  | parent => parent

/-- `delete parent[key]` when the key is there. The length of an array cannot be deleted. -/
def removeKey (parent : JsValue) (key : JsStr) : Option JsValue :=
  match parent with
  | .object props => some (.object (Props.delete props key))
  | .array items =>
    if key = js "length" then none
    else
      match asArrayIndex key with
      | some index => some (.array (items.set index none))
      | none => some (.array items)
  | parent => some parent

def applyAdd (root : Props JsValue) (path : JsStr) (value : JsValue) : Props JsValue :=
  match resolveParts (.object root) (pathParts path).dropLast with
  | none => setDeep root path value
  | some parent =>
    if lastPart (pathParts path) = [] then replaceAllKeys (objectOr value)
    else
      objectOr (updateParts (.object root) (addKey parent (lastPart (pathParts path)) value)
        (pathParts path).dropLast)

def applyRemove (root : Props JsValue) (path : JsStr) : Option (Props JsValue) :=
  match resolveParts (.object root) (pathParts path).dropLast with
  | none => some root
  | some parent =>
    (removeKey parent (lastPart (pathParts path))).map fun changed =>
      objectOr (updateParts (.object root) changed (pathParts path).dropLast)

/-- The root after one operation, or `none` when it throws. -/
def applyOp (root : Props JsValue) (op : StateOp) (path : JsStr) : Option (Props JsValue) :=
  match op with
  | .add value => some (applyAdd root path value)
  | .remove => applyRemove root path
  | .replace value => some (setDeep root path value)
  | .merge value =>
    match value with
    | .object props => some (deepMerge root props)
    | _ => some []
  | .seed value =>
    match value with
    | .object props => some (fillMissing root props)
    | _ => some root

/-- The operations one after the other. -/
def replay (root : Props JsValue) (ops : List StoreOp) : Option (Props JsValue) :=
  match ops with
  | [] => some root
  | op :: rest => (applyOp root op.op op.path).bind fun root => replay root rest

end Apply

end PiRp.State
