import PiRp.JsMap
import PiRp.JsValue
import PiRp.JsonValue

/-! The global settings of `packages/coding-agent/src/core/settings-manager.ts`: their migration, the merge of a
write with the file, and the setters. A field that is undefined is one that is absent, and a file is the object
its text stands for. -/

namespace PiRp.Settings

/-! ### Values -/

/-- `typeof value === "object"` for a value that is not null. -/
def isContainer : Json → Bool
  | .array _ | .object _ => true
  | _ => false

/-- `!value`. -/
def isFalsy : Json → Bool
  | .null => true
  | .bool value => !value
  | .number value => value = .int 0 || value = .negZero || value = .nan
  | .string value => value = []
  | .array _ | .object _ => false

def indexed (items : List Json) : Props Json :=
  items.zipIdx.map fun item => (decimal item.2, item.1)

/-- `{ ...value }`. -/
def spread : Json → Props Json
  | .object props => props
  | .array items => indexed items
  | .string value => indexed (value.map fun unit => .string [unit])
  | _ => []

/-- `object[key] = value`, where the value may be undefined. -/
def assign (props : Props Json) (key : JsStr) (value : Option Json) : Props Json :=
  match value with
  | none => Props.delete props key
  | some value => Props.set props key value

/-! ### `migrateSettings` -/

def migrateQueueMode (settings : Props Json) : Props Json :=
  match Props.get? settings (js "queueMode"), Props.get? settings (js "steeringMode") with
  | some queueMode, none => Props.delete (Props.set settings (js "steeringMode") queueMode) (js "queueMode")
  | _, _ => settings

def migrateWebsockets (settings : Props Json) : Props Json :=
  match Props.get? settings (js "transport"), Props.get? settings (js "websockets") with
  | none, some (.bool websockets) =>
    Props.delete
      (Props.set settings (js "transport") (.string (if websockets then js "websocket" else js "sse")))
      (js "websockets")
  | _, _ => settings

def migrateEnableSkillCommands (settings skills : Props Json) : Props Json :=
  match Props.get? skills (js "enableSkillCommands"), Props.get? settings (js "enableSkillCommands") with
  | some enabled, none => Props.set settings (js "enableSkillCommands") enabled
  | _, _ => settings

def migrateSkills (settings : Props Json) : Props Json :=
  match Props.get? settings (js "skills") with
  | some (.object skills) =>
    let enabled := migrateEnableSkillCommands settings skills
    match Props.get? skills (js "customDirectories") with
    | some (.array (first :: rest)) => Props.set enabled (js "skills") (.array (first :: rest))
    | _ => Props.delete enabled (js "skills")
  | _ => settings

/-- The value is undefined or null. -/
def isNullish : Option Json → Bool
  | none | some .null => true
  | _ => false

/-- The provider's settings of a retry object. -/
def retryProvider (retry : Props Json) : Props Json :=
  match Props.get? retry (js "provider") with
  | some (.object provider) => provider
  | some (.array items) => indexed items
  | _ => []

def migrateMaxDelay (retry : Props Json) : Props Json :=
  let moved :=
    match Props.get? retry (js "maxDelayMs") with
    | some (.number maxDelayMs) =>
      if isNullish (Props.get? (retryProvider retry) (js "maxRetryDelayMs")) then
        Props.set retry (js "provider")
          (.object (Props.set (retryProvider retry) (js "maxRetryDelayMs") (.number maxDelayMs)))
      else retry
    | _ => retry
  Props.delete moved (js "maxDelayMs")

def migrateRetry (settings : Props Json) : Props Json :=
  match Props.get? settings (js "retry") with
  | some (.object retry) => Props.set settings (js "retry") (.object (migrateMaxDelay retry))
  | _ => settings

def migrateSettings (settings : Props Json) : Props Json :=
  migrateRetry (migrateSkills (migrateWebsockets (migrateQueueMode settings)))

/-! ### Writing -/

/-- A write of the queue, with what `save` has captured for it. -/
structure WriteTask where
  snapshotSettings : Props Json
  modifiedFields : List JsStr
  modifiedNestedFields : JsMap JsStr (List JsStr)

namespace WriteTask

/-- The merged object of a field of which single keys are marked. -/
def mergeNested (current : Option Json) (value : Json) (keys : List JsStr) : Props Json :=
  keys.foldl (fun merged key => assign merged key (Props.get? (spread value) key)) (spread (current.getD .null))

/-- The keys that are marked in the field, when its value is an object. -/
def nestedKeys (task : WriteTask) (field : JsStr) : Option (Json × List JsStr) :=
  match task.modifiedNestedFields.get? field, Props.get? task.snapshotSettings field with
  | some keys, some value => if isContainer value then some (value, keys) else none
  | _, _ => none

def mergeField (task : WriteTask) (current merged : Props Json) (field : JsStr) : Props Json :=
  match task.nestedKeys field with
  | some (value, keys) => Props.set merged field (.object (mergeNested (Props.get? current field) value keys))
  | none => assign merged field (Props.get? task.snapshotSettings field)

/-- The callback of `persistScopedSettings`: the next content of the file. -/
def persist (task : WriteTask) (current : Option (Props Json)) : Props Json :=
  let currentFileSettings := migrateSettings (current.getD [])
  task.modifiedFields.foldl (task.mergeField currentFileSettings) currentFileSettings

end WriteTask

/-! ### Setters -/

/-- The fields that have a setter of their own. -/
def topLevelFields : List JsStr :=
  [js "lastChangelogVersion", js "defaultProvider", js "defaultModel", js "defaultPreset", js "steeringMode",
    js "followUpMode", js "theme", js "defaultThinkingLevel", js "transport", js "httpIdleTimeoutMs",
    js "hideThinkingBlock", js "showCacheMissNotices", js "shellPath", js "quietStartup", js "defaultProjectTrust",
    js "shellCommandPrefix", js "npmCommand", js "collapseChangelog", js "enableInstallTelemetry",
    js "enableAnalytics", js "trackingId", js "packages", js "extensions", js "skills", js "prompts", js "themes",
    js "enableSkillCommands", js "tuiMode", js "fullscreenExitOutput", js "fullscreenScrollbar", js "enabledModels",
    js "doubleEscapeAction", js "treeFilterMode", js "showHardwareCursor", js "editorPaddingX", js "outputPad",
    js "autocompleteMaxVisible", js "warnings"]

/-- The fields whose keys have setters, with these keys. -/
def nestedFields : List (JsStr × List JsStr) :=
  [(js "compaction", [js "enabled"]),
    (js "toolSearch", [js "enabled", js "mode", js "thresholdPercent", js "reservedTools"]),
    (js "remote", [js "host", js "port"]), (js "retry", [js "enabled"]),
    (js "terminal", [js "showImages", js "imageWidthCells", js "clearOnShrink", js "showTerminalProgress"]),
    (js "images", [js "autoResize", js "blockImages"]), (js "markdown", [js "mermaid"])]

def isArray : Json → Bool
  | .array _ => true
  | _ => false

/-- The type of the setter's argument, as far as the migration looks at the field. -/
def accepts (field : JsStr) (value : Option Json) : Bool :=
  field ∈ topLevelFields &&
    (if field = js "steeringMode" || field = js "transport" then value.isSome
    else if field = js "skills" then value.any isArray
    else true)

/-- `this.globalSettings.field = value` in the setter of the field. -/
structure FieldAssignment where
  field : JsStr
  value : Option Json
  accepted : accepts field value = true

/-- `this.globalSettings.field.key = value` in the setter of the key. -/
structure NestedAssignment where
  field : JsStr
  key : JsStr
  value : Json
  listed : ∃ entry ∈ nestedFields, entry.1 = field ∧ key ∈ entry.2

inductive Setter where
  /-- One field, or the fields that one call sets. -/
  | fields (assignments : List FieldAssignment)
  | nested (assignment : NestedAssignment)
  | extensionSetting (extensionId key : JsStr) (value : Option Json)

/-- `value ??= {}` with `!value`, and its properties; nothing for a value that takes none. -/
def openObject (value : Option Json) : Option (Props Json) :=
  match value with
  | none => some []
  | some value => if isFalsy value then some [] else if isContainer value then some (spread value) else none

def assignNested (settings : Props Json) (field key : JsStr) (value : Json) : Option (Props Json) :=
  (openObject (Props.get? settings field)).map fun props => Props.set settings field (.object (Props.set props key value))

/-- The extensions' settings after `delete ns[key]`, without `ns` when it is left empty. What a string has of its
own cannot be deleted. -/
def deleteExtension (extensions : Props Json) (extensionId key : JsStr) : Option (Props Json) :=
  match Props.get? extensions extensionId with
  | some (.string (unit :: units)) =>
    if key = js "length" || (Props.get? (spread (.string (unit :: units))) key).isSome then none else some extensions
  | ns =>
    let left := Props.delete (spread (ns.getD .null)) key
    some (if left = [] then Props.delete extensions extensionId
      else Props.set extensions extensionId (.object left))

/-- The extensions' settings after `ns[key] = value`, or after the deletion when there is no value. -/
def assignExtension (extensions : Props Json) (extensionId key : JsStr) (value : Option Json) :
    Option (Props Json) :=
  match value with
  | some value =>
    (openObject (Props.get? extensions extensionId)).map fun ns =>
      Props.set extensions extensionId (.object (Props.set ns key value))
  | none => deleteExtension extensions extensionId key

/-- The call passes when the extensions' settings are a string: nothing of a unit is deleted. -/
def passesString (text extensionId key : JsStr) (value : Option Json) : Bool :=
  value.isNone && (Props.get? (spread (.string text)) extensionId).isSome && key ≠ js "0" && key ≠ js "length"

def assignExtensionSetting (settings : Props Json) (extensionId key : JsStr) (value : Option Json) :
    Option (Props Json) :=
  match Props.get? settings (js "extensionSettings") with
  | some (.string (unit :: units)) =>
    if passesString (unit :: units) extensionId key value then some settings else none
  | extensions =>
    (openObject extensions).bind fun extensions =>
      (assignExtension extensions extensionId key value).map fun assigned =>
        Props.set settings (js "extensionSettings") (.object assigned)

namespace Setter

/-- The settings after the call; nothing when it throws. -/
def apply (setter : Setter) (settings : Props Json) : Option (Props Json) :=
  match setter with
  | .fields assignments =>
    some (assignments.foldl (fun settings assignment => assign settings assignment.field assignment.value) settings)
  | .nested assignment => assignNested settings assignment.field assignment.key assignment.value
  | .extensionSetting extensionId key value => assignExtensionSetting settings extensionId key value

/-- What `markModified` is called with. -/
def marks : Setter → List (JsStr × Option JsStr)
  | .fields assignments => assignments.map fun assignment => (assignment.field, none)
  | .nested assignment => [(assignment.field, some assignment.key)]
  | .extensionSetting extensionId _ _ => [(js "extensionSettings", some extensionId)]

end Setter

/-! ### The manager -/

/-- `set.add(item)`. -/
def addTo (items : List JsStr) (item : JsStr) : List JsStr :=
  if item ∈ items then items else items ++ [item]

/-- The global scope of a `SettingsManager`. -/
structure SettingsManager where
  globalSettings : Props Json
  modifiedFields : List JsStr
  modifiedNestedFields : JsMap JsStr (List JsStr)
  writeQueue : List WriteTask

namespace SettingsManager

def load (settings : Props Json) : SettingsManager := ⟨settings, [], .empty, []⟩

def markModified (manager : SettingsManager) (mark : JsStr × Option JsStr) : SettingsManager :=
  { manager with
    modifiedFields := addTo manager.modifiedFields mark.1
    modifiedNestedFields :=
      match mark.2 with
      | none => manager.modifiedNestedFields
      | some nestedKey =>
        if nestedKey = [] then manager.modifiedNestedFields
        else
          manager.modifiedNestedFields.set mark.1
            (addTo ((manager.modifiedNestedFields.get? mark.1).getD []) nestedKey) }

/-- `save` and `enqueueWrite`. -/
def save (manager : SettingsManager) : SettingsManager :=
  { manager with
    writeQueue := manager.writeQueue ++
      [⟨manager.globalSettings, manager.modifiedFields, manager.modifiedNestedFields⟩] }

def set (manager : SettingsManager) (setter : Setter) : SettingsManager :=
  match setter.apply manager.globalSettings with
  | none => manager
  | some globalSettings =>
    (setter.marks.foldl markModified { manager with globalSettings }).save

def clearModifiedScope (manager : SettingsManager) : SettingsManager :=
  { manager with modifiedFields := [], modifiedNestedFields := .empty }

end SettingsManager

end PiRp.Settings
