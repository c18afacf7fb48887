import PiRp.StateOps
import Mathlib.Logic.Function.Basic

/-! The state operations on objects with prototypes. A property is looked up among the own ones first and then
along the prototypes, and the prototype at the end, `Object.prototype`, belongs to all states alike. Its accessor
`__proto__` reads and sets the prototype of the object that it is used on. Every operation brings a value of its
own, so that two states share no container but `Object.prototype`. -/

namespace PiRp.State.Prototypes

mutual

inductive Value where
  | null
  | bool (value : Bool)
  | number (value : JsNumber)
  | string (value : JsStr)
  | function
  | array (items : List (Option Value))
  | object (own : List (JsStr × Value)) (proto : Proto)

/-- The prototype of an object: `Object.prototype`, null, or a value that was assigned. -/
inductive Proto where
  | standard
  | null
  | value (value : Value)

end

mutual

/-- A JSON value as a new value of the language. -/
def ofJson (value : JsValue) : Value :=
  match value with
  | .null => .null
  | .bool value => .bool value
  | .number value => .number value
  | .string value => .string value
  | .array items => .array (ofItems items)
  | .object props => .object (ofProps props) .standard

def ofItems (items : List (Option JsValue)) : List (Option Value) :=
  match items with
  | [] => []
  | none :: rest => none :: ofItems rest
  | some item :: rest => some (ofJson item) :: ofItems rest

def ofProps (props : List (JsStr × JsValue)) : List (JsStr × Value) :=
  match props with
  | [] => []
  | (key, value) :: rest => (key, ofJson value) :: ofProps rest

end

/-- `typeof value === "object"` for a value that is not null. -/
def Value.isContainer : Value → Bool
  | .array _ | .object _ _ => true
  | _ => false

/-- `isObject`. -/
def Value.isObject : Value → Bool
  | .object _ _ => true
  | _ => false

def protoKey : JsStr := js "__proto__"

/-- `Object.prototype`: its own properties, and whether it still has its accessor `__proto__`. -/
structure Shared where
  props : Props Value
  hasAccessor : Bool

def objectPrototype : Shared where
  props :=
    [(js "constructor", .function), (js "__defineGetter__", .function), (js "__defineSetter__", .function),
      (js "hasOwnProperty", .function), (js "__lookupGetter__", .function), (js "__lookupSetter__", .function),
      (js "isPrototypeOf", .function), (js "propertyIsEnumerable", .function), (js "toString", .function),
      (js "valueOf", .function), (js "toLocaleString", .function)]
  hasAccessor := true

def Shared.value (shared : Shared) : Value := .object shared.props .null

/-- The methods of `Array.prototype`, which no path of an operation reaches. -/
def arrayMethods : List JsStr :=
  [js "at", js "concat", js "copyWithin", js "fill", js "find", js "findIndex", js "findLast", js "findLastIndex",
    js "lastIndexOf", js "pop", js "push", js "reverse", js "shift", js "unshift", js "slice", js "sort", js "splice",
    js "includes", js "indexOf", js "join", js "keys", js "entries", js "values", js "forEach", js "filter", js "flat",
    js "flatMap", js "map", js "every", js "some", js "reduce", js "reduceRight", js "toLocaleString", js "toString",
    js "toReversed", js "toSorted", js "toSpliced", js "with", js "constructor"]

def arrayPrototype : Value :=
  .object ((js "length", .number (.int 0)) :: arrayMethods.map fun name => (name, .function)) .standard

/-! ### Places -/

/-- One step from a value to a part of it. -/
inductive Step where
  | own (key : JsStr)
  | item (index : Nat)
  | proto

/-- A place in the state or in `Object.prototype`. -/
inductive Place where
  | root (steps : List Step)
  | shared (steps : List Step)

def Place.below (place : Place) (step : Step) : Place :=
  match place with
  | .root steps => .root (steps ++ [step])
  | .shared steps => .shared (steps ++ [step])

def readAt (value : Value) (steps : List Step) : Option Value :=
  match steps with
  | [] => some value
  | step :: rest =>
    match value, step with
    | .object own _, .own key => (Props.get? own key).bind fun inner => readAt inner rest
    | .array items, .item index => items[index]?.join.bind fun inner => readAt inner rest
    | .object _ (.value proto), .proto => readAt proto rest
    | _, _ => none

def writeAt (value changed : Value) (steps : List Step) : Value :=
  match steps with
  | [] => changed
  | step :: rest =>
    match value, step with
    | .object own proto, .own key =>
      match Props.get? own key with
      | some inner => .object (Props.set own key (writeAt inner changed rest)) proto
      | none => value
    | .array items, .item index =>
      match items[index]? with
      | some (some inner) => .array (items.set index (some (writeAt inner changed rest)))
      | _ => value
    | .object own (.value proto), .proto => .object own (.value (writeAt proto changed rest))
    | _, _ => value

/-- The state of one manager, and `Object.prototype`. -/
structure World where
  root : Value
  shared : Shared

namespace World

def read (world : World) : Place → Option Value
  | .root steps => readAt world.root steps
  | .shared steps => readAt world.shared.value steps

def write (world : World) (place : Place) (value : Value) : World :=
  match place with
  | .root steps => { world with root := writeAt world.root value steps }
  | .shared steps =>
    match writeAt world.shared.value value steps with
    | .object props _ => { world with shared := { world.shared with props } }
    | _ => world

end World

/-! ### Properties -/

/-- Where the lookup of a property ends: at a value that is stored, at the accessor `__proto__`, at a value of the
language, or nowhere. -/
inductive Found where
  | data (place : Place)
  | accessor
  | builtin (value : Value)
  | missing

def Shared.find (shared : Shared) (key : JsStr) : Found :=
  if (Props.get? shared.props key).isSome then .data (.shared [.own key])
  else if key = protoKey ∧ shared.hasAccessor = true then .accessor
  else .missing

mutual

/-- The lookup from a value at a place: its own properties, then those of its prototypes. -/
def find (shared : Shared) (place : Place) (key : JsStr) (value : Value) : Found :=
  match value with
  | .object own proto =>
    if (Props.get? own key).isSome then .data (place.below (.own key)) else findProto shared place key proto
  | .array items =>
    match asArrayIndex key with
    | some index => if items[index]?.join.isSome then .data (place.below (.item index)) else shared.find key
    | none =>
      if key = js "length" then .builtin (.number (.int items.length))
      else if key ∈ arrayMethods then .builtin .function
      else shared.find key
  | _ => .missing

def findProto (shared : Shared) (place : Place) (key : JsStr) (proto : Proto) : Found :=
  match proto with
  | .standard => shared.find key
  | .null => .missing
  | .value value => find shared (place.below .proto) key value

end

namespace World

variable (world : World)

def find (place : Place) (key : JsStr) : Found :=
  match place with
  | .shared [] => world.shared.find key
  | place =>
    match world.read place with
    | some value => Prototypes.find world.shared place key value
    | none => .missing

/-- The prototype of a value, as the accessor reads it. -/
def protoOf : Value → Value
  | .object _ .standard => world.shared.value
  | .object _ (.value proto) => proto
  | .array _ => arrayPrototype
  | _ => .null

/-- `container[key]`; none is undefined. -/
def get (place : Place) (key : JsStr) : Option Value :=
  match world.find place key with
  | .data found => world.read found
  | .accessor => (world.read place).map world.protoOf
  | .builtin value => some value
  | .missing => none

/-- The place of `container[key]`, when it is a value that is stored. -/
def childPlace (place : Place) (key : JsStr) : Option Place :=
  match world.find place key with
  | .data found => some found
  | .accessor =>
    match world.read place with
    | some (.object _ .standard) => some (.shared [])
    | some (.object _ (.value _)) => some (place.below .proto)
    | _ => none
  | _ => none

/-- The setter of `__proto__`. The prototype of `Object.prototype` cannot be set. -/
def setProto (place : Place) (value : Value) : Except World World :=
  match place with
  | .shared [] => if value.isContainer then .error world else .ok world
  | place =>
    match world.read place, value with
    | some (.object own _), .null => .ok (world.write place (.object own .null))
    | some (.object own _), value =>
      if value.isContainer then .ok (world.write place (.object own (.value value))) else .ok world
    | _, _ => .ok world

/-- `container[key] = value`; an error is a TypeError, with what was changed before it. -/
def assign (place : Place) (key : JsStr) (value : Value) : Except World World :=
  match world.read place with
  | some (.object own proto) =>
    match world.find place key with
    | .accessor => world.setProto place value
    | _ => .ok (world.write place (.object (Props.set own key value) proto))
  | some (.array items) =>
    match asArrayIndex key with
    | some index =>
      .ok (world.write place (.array
        (if index = items.length then items ++ [some value] else items.set index (some value))))
    | none => .ok world
  | _ => .ok world

/-- `delete container[key]`. -/
def deleteKey (place : Place) (key : JsStr) : Except World World :=
  match world.read place with
  | some (.object own proto) =>
    let changed := world.write place (.object (Props.delete own key) proto)
    match place with
    | .shared [] =>
      if key = protoKey then .ok { changed with shared := { changed.shared with hasAccessor := false } }
      else .ok changed
    | _ => .ok changed
  | some (.array items) =>
    if key = js "length" then .error world
    else
      match asArrayIndex key with
      | some index => .ok (world.write place (.array (items.set index none)))
      | none => .ok world
  | _ => .ok world

/-! ### The operations -/

/-- The next container on a path; an array takes indices in range only. -/
def next (place : Place) (part : JsStr) : Option Place :=
  let inner := (world.childPlace place part).filter fun inner => (world.read inner).any Value.isContainer
  match world.read place with
  | some (.array items) => if (asArrayIndex part).any (· < items.length) then inner else none
  | _ => inner

def resolveParts (place : Place) : List JsStr → Option Place
  | [] => some place
  | part :: rest => (world.next place part).bind fun inner => resolveParts inner rest

end World

/-- The loop of `setDeep` and its last assignment. -/
def setParts (value : Value) (world : World) (place : Place) : List JsStr → Except World World
  | [] => .ok world
  | [key] =>
    match world.read place with
    | some (.array items) =>
      if (asArrayIndex key).any (· < items.length) then world.assign place key value else .ok world
    | _ => world.assign place key value
  | part :: rest =>
    match world.next place part with
    | some inner => setParts value world inner rest
    | none =>
      match world.read place with
      | some (.array _) => .ok world
      | _ =>
        (world.assign place part (.object [] .standard)).bind fun world =>
          match world.childPlace place part with
          | some inner => setParts value world inner rest
          | none => .ok world

/-- The keys of the root are deleted and those of the source assigned. -/
def replaceAllKeys (world : World) (src : Props JsValue) : Except World World :=
  let emptied :=
    match world.root with
    | .object _ proto => { world with root := .object [] proto }
    | _ => world
  src.foldlM (fun world entry => world.assign (.root []) entry.1 (ofJson entry.2)) emptied

def setDeep (world : World) (path : JsStr) (value : JsValue) : Except World World :=
  if path = [] then
    match value with
    | .object props => replaceAllKeys world props
    | _ => .ok world
  else setParts (ofJson value) world (.root []) (pathParts path)

mutual

def deepMerge (world : World) (target : Place) (src : List (JsStr × JsValue)) : Except World World :=
  match src with
  | [] => .ok world
  | (key, value) :: rest => (mergeKey world target key value).bind fun world => deepMerge world target rest

def mergeKey (world : World) (target : Place) (key : JsStr) (value : JsValue) : Except World World :=
  match value with
  | .null => world.deleteKey target key
  | .object props =>
    match world.childPlace target key with
    | some inner =>
      if (world.read inner).any Value.isObject then deepMerge world inner props
      else world.assign target key (.object (ofProps props) .standard)
    | none => world.assign target key (.object (ofProps props) .standard)
  | value => world.assign target key (ofJson value)

end

mutual

def fillMissing (world : World) (target : Place) (defaults : List (JsStr × JsValue)) : Except World World :=
  match defaults with
  | [] => .ok world
  | (key, value) :: rest => (fillKey world target key value).bind fun world => fillMissing world target rest

def fillKey (world : World) (target : Place) (key : JsStr) (value : JsValue) : Except World World :=
  match world.get target key with
  | none => world.assign target key (ofJson value)
  | some (.object _ _) =>
    match value with
    | .object props =>
      match world.childPlace target key with
      | some inner => fillMissing world inner props
      | none => .ok world
    | _ => .ok world
  | some _ => .ok world

end

section Apply

variable [JsNumber.Addition]

/-- `add` at a key of a container: numbers are summed, an array takes another element. -/
def addKey (world : World) (parent : Place) (key : JsStr) (value : JsValue) : Except World World :=
  match world.get parent key, value with
  | some (.number current), .number value =>
    world.assign parent key (.number (JsNumber.Addition.add current value))
  | some (.array items), value =>
    if value.isArray then world.assign parent key (ofJson value)
    else
      match world.childPlace parent key with
      | some place => .ok (world.write place (.array (items ++ [some (ofJson value)])))
      | none => .ok world
  | _, value => world.assign parent key (ofJson value)

def applyAdd (world : World) (path : JsStr) (value : JsValue) : Except World World :=
  match world.resolveParts (.root []) (pathParts path).dropLast with
  | none => setDeep world path value
  | some parent =>
    let key := lastPart (pathParts path)
    if key = [] then replaceAllKeys world (objectOr value)
    else
      match world.read parent with
      | some (.array items) =>
        if (asArrayIndex key).any (· ≤ items.length) then addKey world parent key value else .ok world
      | _ => addKey world parent key value

def applyRemove (world : World) (path : JsStr) : Except World World :=
  match world.resolveParts (.root []) (pathParts path).dropLast with
  | none => .ok world
  | some parent =>
    match world.find parent (lastPart (pathParts path)) with
    | .missing => .ok world
    | _ => world.deleteKey parent (lastPart (pathParts path))

def applyOp (world : World) (op : StateOp) (path : JsStr) : Except World World :=
  match op with
  | .add value => applyAdd world path value
  | .remove => applyRemove world path
  | .replace value => setDeep world path value
  | .merge value =>
    match value with
    | .object props => deepMerge world (.root []) props
    | _ => replaceAllKeys world []
  | .seed value =>
    match value with
    | .object props => fillMissing world (.root []) props
    | _ => .ok world

end Apply

/-! ### Managers -/

/-- What is left when an operation ends or throws. -/
def settled : Except World World → World
  | .ok world => world
  | .error world => world

def getPath (world : World) (path : JsStr) : Option Value :=
  if path = [] then some world.root
  else
    (world.resolveParts (.root []) (pathParts path).dropLast).bind fun parent =>
      world.get parent (lastPart (pathParts path))

/-- The managers of a process: a state each, and one `Object.prototype`. -/
structure Realm (ι : Type*) where
  shared : Shared
  root : ι → Value

namespace Realm

variable {ι : Type*} [DecidableEq ι] [JsNumber.Addition]

def world (realm : Realm ι) (manager : ι) : World := ⟨realm.root manager, realm.shared⟩

/-- One operation of a manager. -/
def apply (realm : Realm ι) (manager : ι) (op : StoreOp) : Realm ι :=
  let after := settled (applyOp (realm.world manager) op.op op.path)
  ⟨after.shared, Function.update realm.root manager after.root⟩

def run (realm : Realm ι) (steps : List (ι × StoreOp)) : Realm ι :=
  steps.foldl (fun realm step => realm.apply step.1 step.2) realm

/-- What a manager returns for a path. -/
def get (realm : Realm ι) (manager : ι) (path : JsStr) : Option Value := getPath (realm.world manager) path

end Realm

end PiRp.State.Prototypes
