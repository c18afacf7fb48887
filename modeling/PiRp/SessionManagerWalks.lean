import PiRp.JsonDecimal
import PiRp.ParentWalk
import PiRp.SessionManagerLoading

/-! The walks from an entry to its root on a session file as it was read. Nothing of a file is validated but
its header: ids can be missing, repeated or no strings, and parent links can lead anywhere. `getBranch`,
`buildSessionPath` and `buildSessionContext` end exactly when no entry that the walk reaches is its own
ancestor; `getTree` takes an entry that is its own parent for a root, the walks do not. -/

namespace PiRp

open Option ParentWalk

namespace Manager.Walks

open Jsonl (newline)

/-- What an index tells the ids apart by. The ids that are objects or arrays are told apart by the entry that
holds them. -/
inductive Key where
  | undefined
  | null
  | boolean (value : Bool)
  | number (value : JsNumber)
  | text (value : JsStr)
  | reference (position : Nat)
  deriving DecidableEq

/-- An entry with its position in the file. -/
abbrev Entry := Nat × Json

/-- A value as a key; the two zeros are one. An object or an array is none: the parser makes a new one for
each place in the file, so that no two of them are the same. -/
def keyOfValue : Option Json → Option Key
  | none => some .undefined
  | some .null => some .null
  | some (.bool value) => some (.boolean value)
  | some (.number value) => some (.number (if value = .negZero then .int 0 else value))
  | some (.string value) => some (.text value)
  | some (.array _) | some (.object _) => none

/-- `entry.id` as a key. -/
def keyOf (entry : Entry) : Key := (keyOfValue (entry.2.member (js "id"))).getD (.reference entry.1)

/-- Whether a key is true as a condition. -/
def Key.isTruthy : Key → Bool
  | undefined => false
  | null => false
  | boolean value => value
  | number value => value.isTruthy
  | text value => value ≠ []
  | reference _ => true

/-- `entry.parentId` as a key, when it is true as a condition. -/
def parentKey (entry : Entry) : Option Key :=
  (keyOfValue (entry.2.member (js "parentId"))).filter Key.isTruthy

/-- The entries of a file with their positions, without the header: `getEntries`. -/
def getEntries (fileEntries : List Json) : List Entry :=
  fileEntries.zipIdx.filterMap fun entry => if isHeader entry.1 then none else some (entry.2, entry.1)

/-- An index by id; the last entry with an id has it. -/
def indexOf (entries : List Entry) : JsMap Key Entry :=
  entries.foldl (fun index entry => index.set (keyOf entry) entry) .empty

/-- `current.parentId ? index.get(current.parentId) : undefined`. -/
def parentEntry (index : JsMap Key Entry) (current : Entry) : Option Entry :=
  (parentKey current).bind index.get?

/-- Where `getBranch` starts: the entry with the id, else the leaf, which is the last entry. -/
def branchStart (fileEntries : List Json) (fromId : Option JsStr) : Option Entry :=
  let startId := (fromId.map Key.text).or ((getEntries fileEntries).getLast?.map keyOf)
  (startId.filter Key.isTruthy).bind (indexOf (getEntries fileEntries)).get?

/-- `getBranch` on the index of a file, none when its loop is not done after the rounds. -/
def getBranch (fileEntries : List Json) (fromId : Option JsStr) (rounds : Nat) : Option (List Entry) :=
  (ascend (parentEntry (indexOf (getEntries fileEntries))) rounds
    (branchStart fileEntries fromId)).map List.reverse

/-- `leafId?: string | null` -/
inductive LeafId where
  | undefined
  | null
  | id (id : JsStr)

/-- `buildEntryIndex` -/
def buildEntryIndex (entries : List Entry) (byId : Option (JsMap Key Entry)) : JsMap Key Entry :=
  byId.getD (indexOf entries)

/-- Where `buildSessionPath` starts: the leaf, else the last entry; nowhere when the leaf is null. -/
def pathStart (entries : List Entry) (leafId : LeafId) (byId : Option (JsMap Key Entry)) : Option Entry :=
  match leafId with
  | .null => none
  | .undefined => entries.getLast?
  | .id id =>
    if id = [] then entries.getLast?
    else ((buildEntryIndex entries byId).get? (.text id)).or entries.getLast?

/-- `buildSessionPath`, none when its loop is not done after the rounds. -/
def buildSessionPath (entries : List Entry) (leafId : LeafId) (byId : Option (JsMap Key Entry)) (rounds : Nat) :
    Option (List Entry) :=
  (ascend (parentEntry (buildEntryIndex entries byId)) rounds (pathStart entries leafId byId)).map
    List.reverse

/-- What reading a member of undefined or null throws. -/
inductive TypeError where
  | noMember (key : JsStr)

/-- `value[key]`, an error on undefined and null. -/
def read (value : Option Json) (key : JsStr) : Except TypeError (Option Json) :=
  match value with
  | none | some .null => .error (.noMember key)
  | some value => .ok (value.member key)

/-- What the settings of the context are so far. -/
structure Settings where
  thinkingLevel : Option Json
  model : Option (Option Json × Option Json)

/-- Whether a value is true as a condition. -/
def truthy : Option Json → Bool
  | none | some .null => false
  | some (.bool value) => value
  | some (.number value) => value.isTruthy
  | some (.string value) => value ≠ []
  | some (.array _) | some (.object _) => true

/-- One round of `getSessionContextSettings`. -/
def Settings.track (settings : Settings) (entry : Entry) : Except TypeError Settings :=
  if isType entry.2 (js "thinking_level_change") then
    .ok { settings with thinkingLevel := entry.2.member (js "thinkingLevel") }
  else if isType entry.2 (js "model_change") then
    .ok { settings with model := some (entry.2.member (js "provider"), entry.2.member (js "modelId")) }
  else if isType entry.2 (js "message") then do
    let message := entry.2.member (js "message")
    let role ← read message (js "role")
    if role = some (Json.string (js "assistant")) then
      let provider ← read message (js "provider")
      let model ← read message (js "model")
      return if truthy provider && truthy model then { settings with model := some (provider, model) } else settings
    else return settings
  else .ok settings

/-- `getSessionContextSettings` -/
def getSessionContextSettings (path : List Entry) : Except TypeError Settings :=
  path.foldlM Settings.track ⟨some (.string (js "off")), none⟩

/-- `new Date(value).getTime()` -/
class DateValue where
  getTime : Option Json → JsNumber

section Context

variable [DateValue]

/-- `sessionEntryToContextMessages` -/
def sessionEntryToContextMessages (entry : Entry) : Except TypeError (List Json) :=
  let timestamp := Json.number (DateValue.getTime (entry.2.member (js "timestamp")))
  if isType entry.2 (js "message") then do
    let message := entry.2.member (js "message")
    let role ← read message (js "role")
    let content ← read message (js "content")
    let modelRoles := [js "user", js "assistant", js "toolResult"].map Json.string
    let isMissing := content = none ∨ content = some Json.null
    return if (∃ value, role = some value ∧ value ∈ modelRoles) ∧ isMissing then
        (message.map fun value : Json => value.withMember (js "content") (.array [])).toList
      else message.toList
  else if isType entry.2 (js "custom_message") then
    let content := (entry.2.member (js "content")).filter fun value => value ≠ Json.null
    .ok [Json.objectOf [(js "role", some (.string (js "custom"))), (js "customType", entry.2.member (js "customType")),
      (js "content", some (content.getD (.array []))), (js "display", entry.2.member (js "display")),
      (js "details", entry.2.member (js "details")), (js "timestamp", some timestamp)]]
  else if isType entry.2 (js "branch_summary") && truthy (entry.2.member (js "summary")) then
    .ok [Json.objectOf [(js "role", some (.string (js "branchSummary"))), (js "summary", entry.2.member (js "summary")),
      (js "fromId", entry.2.member (js "fromId")), (js "timestamp", some timestamp)]]
  else if isType entry.2 (js "compaction") then
    .ok [Json.objectOf [(js "role", some (.string (js "compactionSummary"))),
      (js "summary", entry.2.member (js "summary")), (js "tokensBefore", entry.2.member (js "tokensBefore")),
      (js "timestamp", some timestamp)]]
  else .ok []

/-- `buildContextEntriesFromPath` -/
def buildContextEntriesFromPath (path : List Entry) : List Entry :=
  match path.reverse.find? fun entry => isType entry.2 (js "compaction") with
  | none => path
  | some compaction =>
    let compactionIdx := path.findIdx fun entry => keyOf entry = keyOf compaction
    let firstKept := keyOfValue (compaction.2.member (js "firstKeptEntryId"))
    compaction :: ((path.take compactionIdx).dropWhile fun entry => some (keyOf entry) ≠ firstKept) ++
      path.drop (compactionIdx + 1)

structure SessionContext extends Settings where
  messages : List Json

/-- `buildSessionContextFromPath` -/
def buildSessionContextFromPath (path : List Entry) : Except TypeError SessionContext := do
  let settings ← getSessionContextSettings path
  let messages ← (buildContextEntriesFromPath path).mapM sessionEntryToContextMessages
  return { settings with messages := messages.flatten }

/-- `buildSessionContext`, none when the loop of its path is not done after the rounds. -/
def buildSessionContext (entries : List Entry) (leafId : LeafId) (byId : Option (JsMap Key Entry)) (rounds : Nat) :
    Option (Except TypeError SessionContext) :=
  (buildSessionPath entries leafId byId rounds).map buildSessionContextFromPath

end Context

/-! ### When the walks end -/

theorem parentEntry_mem (index : JsMap Key Entry) (child above : Entry)
    (habove : parentEntry index child = some above) : above ∈ {entry | entry ∈ index.entries.map Prod.snd} := by
  obtain ⟨key, -, hkey⟩ := bind_eq_some_iff.mp habove
  exact List.mem_map.mpr ⟨_, JsMap.get?_eq_some.mp hkey, rfl⟩

theorem walk_ends (index : JsMap Key Entry) (start : Option Entry) :
    Ends (parentEntry index) start ↔ CycleFree (parentEntry index) start :=
  ends_iff (List.finite_toSet _) (parentEntry_mem index) start

theorem path_ends (index : JsMap Key Entry) (start : Option Entry) {β : Type} (finish : List Entry → β) :
    (∃ rounds, ((ascend (parentEntry index) rounds start).map finish).isSome = true) ↔
      CycleFree (parentEntry index) start := by
  rw [← walk_ends]
  simp only [isSome_map, Ends]

section Samples

local instance walkNumbers : JsonText.NumberText := JsonText.decimalNumbers

/-- A file whose only entry is its own parent. -/
def loopingFile : JsStr :=
  js "\x7b\"type\":\"session\",\"id\":\"s\"\x7d" ++ [newline] ++
    js "\x7b\"type\":\"message\",\"id\":\"a\",\"parentId\":\"a\"\x7d" ++ [newline]

end Samples

end Manager.Walks

end PiRp
