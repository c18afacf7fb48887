import PiRp.JsMap
import PiRp.JsSplit
import PiRp.JsonCopy
import PiRp.JsonlLoading

/-! The session manager of `packages/coding-agent/src/core/session-manager.ts`. A session is a tree of
entries in the order they were appended, kept in memory and, from the first assistant message on, in a
file of JSON lines. Entries are JSON objects, as the file is read back without validation. A storage
write can throw behind some of its data; what the manager did before it stays done. -/

namespace PiRp.Manager

open Jsonl (newline nullable)

/-! ### Entries -/

/-- A value that an entry carries. -/
abbrev Payload := { value : Json // value.WellFormed }

/-- A message is an object. -/
abbrev Message := { props : Props Json // (Json.object props).WellFormed }

inductive SchemaAction where
  | load
  | unload

def SchemaAction.text : SchemaAction → JsStr
  | .load => js "load"
  | .unload => js "unload"

/-- What an entry holds besides its place in the tree. -/
inductive Content where
  | message (message : Message)
  | thinkingLevelChange (thinkingLevel : JsStr)
  | presetChange (presetId : JsStr)
  | modelChange (provider modelId : JsStr)
  | state (state : Payload)
  | schemaChange (action : SchemaAction) (schemaId namespaceName : JsStr)
  | strictChange (enabled : Bool)
  | compaction (summary firstKeptEntryId : JsStr) (tokensBefore : JsNumber)
      (details usage : Option Payload) (fromHook : Option Bool)
  | custom (customType : JsStr) (data : Option Payload)
  | sessionInfo (name : JsStr)
  | customMessage (customType : JsStr) (content : Payload) (display : Bool) (details : Option Payload)
  | label (targetId : JsStr) (label : Option JsStr)
  | branchSummary (fromId summary : JsStr) (details usage : Option Payload) (fromHook : Option Bool)

def Content.type : Content → JsStr
  | .message _ => js "message"
  | .thinkingLevelChange _ => js "thinking_level_change"
  | .presetChange _ => js "preset_change"
  | .modelChange _ _ => js "model_change"
  | .state _ => js "state"
  | .schemaChange _ _ _ => js "schema_change"
  | .strictChange _ => js "strict_change"
  | .compaction _ _ _ _ _ _ => js "compaction"
  | .custom _ _ => js "custom"
  | .sessionInfo _ => js "session_info"
  | .customMessage _ _ _ _ => js "custom_message"
  | .label _ _ => js "label"
  | .branchSummary _ _ _ _ _ => js "branch_summary"

/-- The members of an entry that stand before those of its place. -/
def Content.front : Content → Json.Members
  | .custom customType data => [(js "customType", some (.string customType)), (js "data", data.map Subtype.val)]
  | .customMessage customType content display details =>
    [(js "customType", some (.string customType)), (js "content", some content.1),
      (js "display", some (.bool display)), (js "details", details.map Subtype.val)]
  | _ => []

def Content.back : Content → Json.Members
  | .message value => [(js "message", some (.object value.1))]
  | .thinkingLevelChange thinkingLevel => [(js "thinkingLevel", some (.string thinkingLevel))]
  | .presetChange presetId => [(js "presetId", some (.string presetId))]
  | .modelChange provider modelId =>
    [(js "provider", some (.string provider)), (js "modelId", some (.string modelId))]
  | .state value => [(js "state", some value.1)]
  | .schemaChange action schemaId namespaceName =>
    [(js "action", some (.string action.text)), (js "schemaId", some (.string schemaId)),
      (js "namespace", some (.string namespaceName))]
  | .strictChange enabled => [(js "enabled", some (.bool enabled))]
  | .compaction summary firstKeptEntryId tokensBefore details usage fromHook =>
    [(js "summary", some (.string summary)), (js "firstKeptEntryId", some (.string firstKeptEntryId)),
      (js "tokensBefore", some (.number tokensBefore)), (js "details", details.map Subtype.val),
      (js "usage", usage.map Subtype.val), (js "fromHook", fromHook.map Json.bool)]
  | .custom _ _ => []
  | .sessionInfo name => [(js "name", some (.string name))]
  | .customMessage _ _ _ _ => []
  | .label targetId name =>
    [(js "targetId", some (.string targetId)), (js "label", name.map Json.string)]
  | .branchSummary fromId summary details usage fromHook =>
    [(js "fromId", some (.string fromId)), (js "summary", some (.string summary)),
      (js "details", details.map Subtype.val), (js "usage", usage.map Subtype.val),
      (js "fromHook", fromHook.map Json.bool)]

/-- The place of an entry in the tree. -/
structure Base where
  id : JsStr
  parentId : Option JsStr
  timestamp : JsStr

def Content.members (content : Content) (base : Base) : Json.Members :=
  (js "type", some (.string content.type)) :: content.front ++
    [(js "id", some (.string base.id)), (js "parentId", some (nullable base.parentId)),
      (js "timestamp", some (.string base.timestamp))] ++ content.back

def Content.entry (content : Content) (base : Base) : Json := Json.objectOf (content.members base)

def currentSessionVersion : JsNumber := .int 3

def headerMembers (id timestamp cwd : JsStr) (parentSession : Option JsStr) : Json.Members :=
  [(js "type", some (.string (js "session"))), (js "version", some (.number currentSessionVersion)),
    (js "id", some (.string id)), (js "timestamp", some (.string timestamp)), (js "cwd", some (.string cwd)),
    (js "parentSession", parentSession.map Json.string)]

def header (id timestamp cwd : JsStr) (parentSession : Option JsStr) : Json :=
  Json.objectOf (headerMembers id timestamp cwd parentSession)

/-! ### Reading an entry -/

/-- `entry.type === type`. -/
def isType (entry : Json) (type : JsStr) : Bool := entry.member (js "type") = some (.string type)

/-- A member that is a string. -/
def textOf (entry : Json) (key : JsStr) : JsStr :=
  match entry.member key with
  | some (.string text) => text
  | _ => []

def idOf (entry : Json) : JsStr := textOf entry (js "id")

/-- The parent, unless it is null or empty. -/
def parentIdOf (entry : Json) : Option JsStr :=
  match textOf entry (js "parentId") with
  | [] => none
  | parentId => some parentId

def isHeader (entry : Json) : Bool := isType entry (js "session")

def isLabel (entry : Json) : Bool := isType entry (js "label")

/-- `entry.message.role`. -/
def roleOf (entry : Json) : Option Json :=
  (entry.member (js "message")).bind fun message => message.member (js "role")

def isAssistant (entry : Json) : Bool :=
  isType entry (js "message") && roleOf entry = some (.string (js "assistant"))

/-! ### Identifiers -/

/-- A storage failure: how much was written before it, or nothing was touched. -/
structure Fault where
  message : JsStr
  written : Option Nat

/-- What a call draws and reads from outside: the draws of `randomUUID` for each id it generates, a new
session id, the time, and the storage failure it meets. -/
structure Surroundings where
  uuid : Nat → Nat → JsStr
  sessionId : JsStr
  now : JsStr
  fault : Option Fault

/-- A short id that is not taken; after a hundred tries a whole one. -/
def generateId (taken : JsStr → Bool) (draws : Nat → JsStr) : JsStr :=
  (((List.range 100).map fun attempt => (draws attempt).take 8).find? fun id => !taken id).getD (draws 100)

/-! ### Storage -/

/-- The text of every file. -/
abbrev Storage := JsStr → Option JsStr

def Storage.put (storage : Storage) (path text : JsStr) : Storage := fun other =>
  if other = path then some text else storage other

def existsMessage (path : JsStr) : JsStr :=
  js "EEXIST: file already exists, open '" ++ path ++ js "'"

/-- `writeTextFileSync`, with the flag `wx` when it is exclusive. -/
def writeTextFile (storage : Storage) (path text : JsStr) (exclusive : Bool) (fault : Option Fault) :
    Storage × Except JsStr Unit :=
  if exclusive && (storage path).isSome then (storage, .error (existsMessage path))
  else
    match fault with
    | none => (storage.put path text, .ok ())
    | some fault =>
      (match fault.written with
        | none => storage
        | some written => storage.put path (text.take written), .error fault.message)

def appendTextFile (storage : Storage) (path text : JsStr) (fault : Option Fault) :
    Storage × Except JsStr Unit :=
  let before := (storage path).getD []
  match fault with
  | none => (storage.put path (before ++ text), .ok ())
  | some fault =>
    (match fault.written with
      | none => storage
      | some written => storage.put path (before ++ text.take written), .error fault.message)

def stripReturn (line : JsStr) : JsStr :=
  if line.getLast? = some 0x0d then line.dropLast else line

def readTextLines (text : JsStr) : List JsStr :=
  (Jsonl.JsonlSessionStorage.physicalLines text).map stripReturn

/-! ### The manager -/

/-- What is looked up by the id of an entry, and the leaf. -/
structure Index where
  byId : JsMap JsStr Json
  labelsById : JsMap JsStr JsStr
  labelTimestampsById : JsMap JsStr JsStr
  leafId : Option JsStr

def Index.empty : Index := ⟨.empty, .empty, .empty, none⟩

/-- Sets the label of an entry, or clears it. -/
def Index.setLabel (index : Index) (targetId label timestamp : JsStr) : Index :=
  if label = [] then
    { index with
      labelsById := index.labelsById.delete targetId
      labelTimestampsById := index.labelTimestampsById.delete targetId }
  else
    { index with
      labelsById := index.labelsById.set targetId label
      labelTimestampsById := index.labelTimestampsById.set targetId timestamp }

def Index.push (index : Index) (entry : Json) : Index :=
  { index with byId := index.byId.set (idOf entry) entry, leafId := some (idOf entry) }

/-- One round of the loop of `_buildIndex`. -/
def Index.add (index : Index) (entry : Json) : Index :=
  if isHeader entry then index
  else if isLabel entry then
    (index.push entry).setLabel (textOf entry (js "targetId")) (textOf entry (js "label"))
      (textOf entry (js "timestamp"))
  else index.push entry

structure SessionManager extends Index where
  cwd : JsStr
  sessionDir : JsStr
  sessionId : JsStr
  sessionFile : Option JsStr
  persist : Bool
  flushed : Bool
  fileEntries : List Json
  storage : Storage

variable [JsonText.NumberText]

def lineOf (entry : Json) : JsStr := entry.text ++ [newline]

/-- The lines of a file. -/
def jsonLines (entries : List Json) : JsStr := entries.flatMap lineOf

namespace SessionManager

def buildIndex (manager : SessionManager) : SessionManager :=
  { manager with toIndex := manager.fileEntries.foldl Index.add .empty }

/-- `fileTimestamp`: colons and dots become dashes. -/
def fileTimestamp (timestamp : JsStr) : JsStr :=
  timestamp.map fun unit => if unit = 0x3a ∨ unit = 0x2e then 0x2d else unit

def sessionPath (sessionDir timestamp sessionId : JsStr) : JsStr :=
  sessionDir ++ js "/" ++ fileTimestamp timestamp ++ js "_" ++ sessionId ++ js ".jsonl"

/-- `newSession` after the check of the id that is asked for. -/
def newSession (manager : SessionManager) (around : Surroundings) (id parentSession : Option JsStr) :
    SessionManager :=
  let sessionId := id.getD around.sessionId
  { manager with
    toIndex := .empty
    sessionId
    fileEntries := [header sessionId around.now manager.cwd parentSession]
    flushed := false
    sessionFile :=
      if manager.persist then some (sessionPath manager.sessionDir around.now sessionId)
      else manager.sessionFile }

def rewriteFile (manager : SessionManager) (fault : Option Fault) :
    SessionManager × Except JsStr Unit :=
  match manager.persist, manager.sessionFile with
  | true, some path =>
    match writeTextFile manager.storage path (jsonLines manager.fileEntries) false fault with
    | (storage, .ok ()) => ({ manager with storage, flushed := true }, .ok ())
    | (storage, .error error) => ({ manager with storage }, .error error)
  | _, _ => (manager, .ok ())

/-- Writes a session that has a message, even without an assistant message. -/
def flush (manager : SessionManager) (fault : Option Fault) : SessionManager × Except JsStr Unit :=
  if manager.flushed then (manager, .ok ())
  else if manager.fileEntries.any fun entry => isType entry (js "message") || isType entry (js "custom_message")
  then manager.rewriteFile fault
  else (manager, .ok ())

/-- Appends the line of the new entry, or writes the whole file with the first assistant message. -/
def persistEntry (manager : SessionManager) (fault : Option Fault) (entry : Json) :
    SessionManager × Except JsStr Unit :=
  match manager.persist, manager.sessionFile with
  | true, some path =>
    if manager.flushed then
      let (storage, result) := appendTextFile manager.storage path (lineOf entry) fault
      ({ manager with storage }, result)
    else if manager.fileEntries.any isAssistant then
      match writeTextFile manager.storage path (jsonLines manager.fileEntries) true fault with
      | (storage, .ok ()) => ({ manager with storage, flushed := true }, .ok ())
      | (storage, .error error) => ({ manager with storage }, .error error)
    else (manager, .ok ())
  | _, _ => (manager, .ok ())

/-- The entry is in the memory before it is written. -/
def appendEntry (manager : SessionManager) (fault : Option Fault) (entry : Json) :
    SessionManager × Except JsStr Unit :=
  { manager with
    toIndex := manager.toIndex.push entry
    fileEntries := manager.fileEntries ++ [entry] }.persistEntry fault entry

/-- Appends a child of the leaf. -/
def append (manager : SessionManager) (around : Surroundings) (content : Content) :
    SessionManager × Except JsStr Unit :=
  manager.appendEntry around.fault
    (content.entry ⟨generateId manager.byId.has (around.uuid 0), manager.leafId, around.now⟩)

end SessionManager

end PiRp.Manager
