import PiRp.SessionManager
import PiRp.Compaction

/-! The methods of the session manager: the appends, the walk along a branch, the moves of the leaf, the
extraction of a branch into a session of its own, and the opening of a session file with its
migrations. -/

namespace PiRp.Manager

open Jsonl (newline nullable)

variable [JsonText.NumberText]

namespace SessionManager

/-! ### Appends -/

def appendMessage (manager : SessionManager) (around : Surroundings) (message : Message) :
    SessionManager × Except JsStr Unit :=
  manager.append around (.message message)

def appendThinkingLevelChange (manager : SessionManager) (around : Surroundings)
    (thinkingLevel : JsStr) : SessionManager × Except JsStr Unit :=
  manager.append around (.thinkingLevelChange thinkingLevel)

def appendPresetChange (manager : SessionManager) (around : Surroundings) (presetId : JsStr) :
    SessionManager × Except JsStr Unit :=
  manager.append around (.presetChange presetId)

def appendModelChange (manager : SessionManager) (around : Surroundings) (provider modelId : JsStr) :
    SessionManager × Except JsStr Unit :=
  manager.append around (.modelChange provider modelId)

def appendSchemaChange (manager : SessionManager) (around : Surroundings) (action : SchemaAction)
    (schemaId namespaceName : JsStr) : SessionManager × Except JsStr Unit :=
  manager.append around (.schemaChange action schemaId namespaceName)

def appendStrictChange (manager : SessionManager) (around : Surroundings) (enabled : Bool) :
    SessionManager × Except JsStr Unit :=
  manager.append around (.strictChange enabled)

def appendCompaction (manager : SessionManager) (around : Surroundings)
    (summary firstKeptEntryId : JsStr) (tokensBefore : JsNumber) (details : Option Payload)
    (fromHook : Option Bool) (usage : Option Payload) : SessionManager × Except JsStr Unit :=
  manager.append around (.compaction summary firstKeptEntryId tokensBefore details usage fromHook)

def appendCustomEntry (manager : SessionManager) (around : Surroundings) (customType : JsStr)
    (data : Option Payload) : SessionManager × Except JsStr Unit :=
  manager.append around (.custom customType data)

/-- `name.replace(/[\r\n]+/g, " ")`: a run of line breaks becomes one blank. -/
def joinLines : Bool → JsStr → JsStr
  | _, [] => []
  | inBreak, unit :: rest =>
    if unit = 0x0d ∨ unit = 0x0a then
      if inBreak then joinLines true rest else 0x20 :: joinLines true rest
    else unit :: joinLines false rest

def appendSessionInfo (manager : SessionManager) (around : Surroundings) (name : JsStr) :
    SessionManager × Except JsStr Unit :=
  manager.append around (.sessionInfo (JsStr.trim (joinLines false name)))

/-- The caller can ask for an id that is not taken. -/
def appendCustomMessageEntry (manager : SessionManager) (around : Surroundings) (customType : JsStr)
    (content : Payload) (display : Bool) (details : Option Payload) (id : Option JsStr) :
    SessionManager × Except JsStr Unit :=
  let generated := generateId manager.byId.has (around.uuid 0)
  let entryId := match id with
    | none | some [] => generated
    | some id => if manager.byId.has id then generated else id
  manager.appendEntry around.fault
    ((Content.customMessage customType content display details).entry
      ⟨entryId, manager.leafId, around.now⟩)

def entryNotFound (id : JsStr) : JsStr := js "Entry " ++ id ++ js " not found"

/-- The label is recorded once the entry is written. -/
def appendLabelChange (manager : SessionManager) (around : Surroundings) (targetId : JsStr)
    (label : Option JsStr) : SessionManager × Except JsStr Unit :=
  if manager.byId.has targetId then
    match manager.append around (.label targetId label) with
    | (appended, .ok ()) =>
      ({ appended with toIndex := appended.toIndex.setLabel targetId (label.getD []) around.now }, .ok ())
    | (appended, .error error) => (appended, .error error)
  else (manager, .error (entryNotFound targetId))

/-! ### The branch of an entry -/

/-- The entries from one up to its root. The loop of the source runs until a parent is missing; distinct
entries take at most one round for each of them. -/
def climb (byId : JsMap JsStr Json) : Nat → Option Json → List Json
  | 0, _ | _ + 1, none => []
  | rounds + 1, some current => current :: climb byId rounds ((parentIdOf current).bind byId.get?)

/-- An id that is not empty. -/
def nonEmpty : JsStr → Option JsStr
  | [] => none
  | id => some id

def getBranch (manager : SessionManager) (fromId : Option JsStr) : List Json :=
  let startId := (fromId.orElse fun _ => manager.leafId).bind nonEmpty
  (climb manager.byId manager.byId.entries.length (startId.bind manager.byId.get?)).reverse

/-! ### Snapshots of the state -/

/-- A snapshot with the size of its canonical bytes and what the tree of large snapshots answers, when
there is one. -/
structure Snapshot where
  state : Payload
  bytes : Except JsStr Nat
  tree : Option (Except JsStr JsStr)
  revision : Nat
  hasEdits : Bool
  ts : Option JsStr

def inlineLimit : Nat := 64 * 1024

def isHash (text : JsStr) : Bool :=
  text.length = 64 && text.all fun unit =>
    (0x30 ≤ unit.toNat && unit.toNat ≤ 0x39) || (0x61 ≤ unit.toNat && unit.toNat ≤ 0x66)

def rootTag : JsStr := js "state-root.v1"

def invalidRoot : JsStr := js "Invalid state-root.v1 metadata in active session ancestry"

def safeNatural? : Option Json → Option Nat
  | some (.number (.int value)) =>
    if 0 ≤ value ∧ value.natAbs ≤ maxSafeInteger then some value.toNat else none
  | some (.number .negZero) => some 0
  | _ => none

/-- The hash and the revision of a root that an entry refers to. -/
def stateRoot (entry : Json) : Except JsStr (Option (JsStr × Nat)) :=
  match (if isType entry (js "state") then entry.member (js "state") else none) with
  | none => .ok none
  | some state =>
    match state.member (js "tg") with
    | none => .ok none
    | some tag =>
      match state.member (js "h"), safeNatural? (state.member (js "s")),
          safeNatural? (state.member (js "rev")) with
      | some (.string hash), some size, some revision =>
        if tag = .string rootTag ∧ isHash hash = true ∧ inlineLimit < size then
          .ok (some (hash, revision))
        else .error invalidRoot
      | _, _, _ => .error invalidRoot

/-- The root nearest to the leaf, from a branch in reverse. -/
def committedStateRoot : List Json → Except JsStr (Option (JsStr × Nat))
  | [] => .ok none
  | entry :: rest =>
    match stateRoot entry with
    | .ok none => committedStateRoot rest
    | found => found

def rootPayload (hash : JsStr) (size revision : Nat) : Json :=
  Json.objectOf [(js "tg", some (.string rootTag)), (js "h", some (.string hash)),
    (js "s", some (.number (.int size))), (js "rev", some (.number (.int revision)))]

omit [JsonText.NumberText] in
theorem wellFormed_rootPayload (hash : JsStr) (size revision : Nat) :
    (rootPayload hash size revision).WellFormed := by
  have hkeys : [js "tg", js "h", js "s", js "rev"].Pairwise KeyOrder := by decide
  refine Json.wellFormed_objectOf hkeys fun member hmemb value hvalue => ?_
  simp only [List.mem_cons, List.not_mem_nil, or_false] at hmemb
  rcases hmemb with rfl | rfl | rfl | rfl <;> cases hvalue
  · exact Json.wellFormed_string _
  · exact Json.wellFormed_string _
  · exact Json.wellFormed_number _
  · exact Json.wellFormed_number _

/-- The state itself, or the root of a large one. -/
def snapshotPayload (manager : SessionManager) (snapshot : Snapshot) : Except JsStr Payload := do
  let bytes ← snapshot.bytes
  if bytes ≤ inlineLimit then return snapshot.state
  let some tree := snapshot.tree | .error (js "Large state snapshots require an ObjectStore and JsonTree")
  let prior ← committedStateRoot (manager.getBranch none).reverse
  match prior with
  | none => pure ()
  | some (_, revision) =>
    if snapshot.revision ≤ revision then
      .error (js "Stale state revision " ++ decimal snapshot.revision)
    else if snapshot.revision ≠ revision + 1 ∧ snapshot.hasEdits = false then
      .error (js "Missing state operations between revisions " ++ decimal revision ++ js " and " ++
        decimal snapshot.revision)
  let hash ← tree
  return ⟨rootPayload hash bytes snapshot.revision, wellFormed_rootPayload hash bytes snapshot.revision⟩

/-- The commit of a snapshot. -/
def appendState (manager : SessionManager) (around : Surroundings) (snapshot : Snapshot) :
    SessionManager × Except JsStr Unit :=
  match manager.snapshotPayload snapshot with
  | .error error => (manager, .error error)
  | .ok payload =>
    manager.append { around with now := snapshot.ts.getD around.now } (.state payload)

/-! ### Changes of a message -/

/-- `content = [{ type: "text", text }]` on the message, or `content = text` on the entry. -/
def changeText (entry : Json) (text : JsStr) : Option Json :=
  if isType entry (js "message") then
    let content := Json.array [.object [(js "type", .string (js "text")), (js "text", .string text)]]
    let message := ((entry.member (js "message")).getD .null).withMember (js "content") content
    some (entry.withMember (js "message") message)
  else if isType entry (js "custom_message") then some (entry.withMember (js "content") (.string text))
  else none

/-- The entry with the id, wherever it is held. -/
def replaceEntry (manager : SessionManager) (id : JsStr) (changed : Json) : SessionManager :=
  { manager with
    fileEntries := manager.fileEntries.map fun entry =>
      if !isHeader entry && idOf entry = id then changed else entry
    byId := manager.byId.modify id fun _ => changed }

def updateMessageContent (manager : SessionManager) (around : Surroundings) (id text : JsStr) :
    SessionManager × Except JsStr Bool :=
  match (manager.byId.get? id).bind fun entry => changeText entry text with
  | none => (manager, .ok false)
  | some changed =>
    match (manager.replaceEntry id changed).rewriteFile around.fault with
    | (written, .ok ()) => (written, .ok true)
    | (written, .error error) => (written, .error error)

/-! ### Branching -/

def branch (manager : SessionManager) (branchFromId : JsStr) : SessionManager × Except JsStr Unit :=
  if manager.byId.has branchFromId then ({ manager with leafId := some branchFromId }, .ok ())
  else (manager, .error (entryNotFound branchFromId))

def resetLeaf (manager : SessionManager) : SessionManager := { manager with leafId := none }

/-- The leaf moves, then the summary of the path that is left is appended. -/
def branchWithSummary (manager : SessionManager) (around : Surroundings)
    (branchFromId : Option JsStr) (summary : JsStr) (details : Option Payload)
    (fromHook : Option Bool) (usage : Option Payload) : SessionManager × Except JsStr Unit :=
  if branchFromId.all manager.byId.has then
    { manager with leafId := branchFromId }.append around
      (.branchSummary (branchFromId.getD (js "root")) summary details usage fromHook)
  else (manager, .error (entryNotFound (branchFromId.getD [])))

/-- The path without its labels, each entry a child of the one before it. -/
def rechain : Option JsStr → List Json → List Json
  | _, [] => []
  | parentId, entry :: rest =>
    if isLabel entry then rechain parentId rest
    else
      entry.withMember (js "parentId") (nullable parentId) :: rechain (some (idOf entry)) rest

/-- The labels that are written again, in a chain of entries. -/
def labelEntries (uuid : Nat → Nat → JsStr) :
    Nat → List JsStr → Option JsStr → List (JsStr × JsStr × JsStr) → List Json
  | _, _, _, [] => []
  | count, taken, parentId, (targetId, label, timestamp) :: rest =>
    let id := generateId (fun other => decide (other ∈ taken)) (uuid count)
    (Content.label targetId (some label)).entry ⟨id, parentId, timestamp⟩ ::
      labelEntries uuid (count + 1) (taken ++ [id]) (some id) rest

/-- The labels of entries that are kept, with their times. -/
def labelsToWrite (manager : SessionManager) (kept : List JsStr) :
    List (JsStr × JsStr × JsStr) :=
  (manager.labelsById.entries.filter fun label => label.1 ∈ kept).map fun label =>
    (label.1, label.2, (manager.labelTimestampsById.get? label.1).getD [])

/-- The entries of the new session behind its header. -/
def branchedEntries (manager : SessionManager) (around : Surroundings) (path : List Json) : List Json :=
  let pathWithoutLabels := rechain none path
  let kept := pathWithoutLabels.map idOf
  pathWithoutLabels ++ labelEntries around.uuid 0 kept (kept.getLast?.bind nonEmpty)
    (manager.labelsToWrite kept)

/-- The manager with the new session in its memory. -/
def branched (manager : SessionManager) (around : Surroundings) (path : List Json) : SessionManager :=
  let newSessionFile := sessionPath manager.sessionDir around.now around.sessionId
  let parentSession := if manager.persist then manager.sessionFile else none
  { manager with
    fileEntries :=
      header around.sessionId around.now manager.cwd parentSession :: manager.branchedEntries around path
    sessionId := around.sessionId
    sessionFile := if manager.persist then some newSessionFile else manager.sessionFile }.buildIndex

/-- The session of a branch; it is written when it has an assistant message. -/
def createBranchedSession (manager : SessionManager) (around : Surroundings) (leafId : JsStr) :
    SessionManager × Except JsStr (Option JsStr) :=
  let path := manager.getBranch (some leafId)
  if path = [] then (manager, .error (entryNotFound leafId))
  else
    let branched := manager.branched around path
    if manager.persist then
      if branched.fileEntries.any isAssistant then
        match branched.rewriteFile around.fault with
        | (written, .ok ()) => ({ written with flushed := true }, .ok branched.sessionFile)
        | (written, .error error) => (written, .error error)
      else ({ branched with flushed := false }, .ok branched.sessionFile)
    else (branched, .ok none)

/-! ### Opening a file -/

/-- `parseSessionEntryLine`, with the values that the loader keeps. -/
def parseSessionEntryLine (line : JsStr) : Option Json :=
  if JsStr.trim line = [] then none
  else
    match JsonText.parse line with
    | some .null | some (.bool false) | some (.string []) | some (.number (.int 0))
    | some (.number .negZero) => none
    | parsed => parsed

/-- The entries of a file, or none when the first is no header. -/
def loadEntriesFromFile (text : JsStr) : List Json :=
  match (readTextLines text).filterMap parseSessionEntryLine with
  | [] => []
  | first :: rest =>
    if isHeader first = true ∧ (first.member (js "id")).any Json.isString then first :: rest else []

/-- The version of a header that has none is one. -/
def versionOf (entry : Json) : JsNumber :=
  match entry.member (js "version") with
  | none | some .null => .int 1
  | some (.number version) => version
  | some _ => .nan

/-- `version < bound`. -/
def isBelow (version : JsNumber) (bound : Nat) : Bool :=
  match version with
  | .int version => version < bound
  | .negZero => 0 < bound
  | version => version.atMost bound

/-- The first kept entry of an old compaction by its index, now by its id. -/
def keptById (entries : List Json) (entry : Json) : Json :=
  match isType entry (js "compaction"), entry.member (js "firstKeptEntryIndex") with
  | true, some (.number index) =>
    let target := match index with
      | .int index => if 0 ≤ index then entries[index.toNat]? else none
      | .negZero => entries[0]?
      | _ => none
    let kept := match target with
      | none => entry
      | some target =>
        if isHeader target then entry
        else
          match target.member (js "id") with
          | none => entry.withoutMember (js "firstKeptEntryId")
          | some id => entry.withMember (js "firstKeptEntryId") id
    kept.withoutMember (js "firstKeptEntryIndex")
  | _, _ => entry

/-- The loop that gives ids and parents to the entries of the first version. -/
def migrateV1ToV2 (uuid : Nat → Nat → JsStr) :
    Nat → Option JsStr → List Json → List Json → List Json
  | _, _, done, [] => done
  | count, prevId, done, entry :: rest =>
    if isHeader entry then
      migrateV1ToV2 uuid count prevId (done ++ [entry.withMember (js "version") (.number (.int 2))]) rest
    else
      let id := generateId (fun _ => false) (uuid count)
      let placed := (entry.withMember (js "id") (.string id)).withMember (js "parentId") (nullable prevId)
      migrateV1ToV2 uuid (count + 1) (some id) (done ++ [keptById (done ++ placed :: rest) placed]) rest

def migrateV2ToV3 (entry : Json) : Json :=
  if isHeader entry then entry.withMember (js "version") (.number (.int 3))
  else if isType entry (js "message") && roleOf entry = some (.string (js "hookMessage")) then
    entry.withMember (js "message")
      (((entry.member (js "message")).getD .null).withMember (js "role") (.string (js "custom")))
  else entry

/-- The entries in the current version, when they were in an older one. -/
def migrateToCurrentVersion (uuid : Nat → Nat → JsStr) (entries : List Json) : Option (List Json) :=
  let version := ((entries.find? isHeader).map versionOf).getD (.int 1)
  if version ≠ .nan ∧ isBelow version 3 = false then none
  else
    let numbered := if isBelow version 2 then migrateV1ToV2 uuid 0 none [] entries else entries
    some (if isBelow version 3 then numbered.map migrateV2ToV3 else numbered)

def notASession (path : JsStr) : JsStr :=
  js "Session file is not a valid pi session: " ++ path

/-- `_setSessionFile` on a path that is resolved. -/
def setSessionFile (manager : SessionManager) (around : Surroundings) (path : JsStr) :
    SessionManager × Except JsStr Unit :=
  let located := { manager with sessionFile := some path }
  match manager.storage path with
  | none => ({ located.newSession around none none with sessionFile := some path }, .ok ())
  | some text =>
    match loadEntriesFromFile text with
    | [] =>
      if text = [] then
        match { located.newSession around none none with sessionFile := some path }.rewriteFile
            around.fault with
        | (written, .ok ()) => ({ written with flushed := true }, .ok ())
        | (written, .error error) => (written, .error error)
      else ({ located with fileEntries := [] }, .error (notASession path))
    | first :: rest =>
      let loaded := { located with
        fileEntries := first :: rest
        sessionId := ((List.find? isHeader (first :: rest)).map idOf).getD around.sessionId }
      match migrateToCurrentVersion around.uuid (first :: rest) with
      | none => ({ loaded.buildIndex with flushed := true }, .ok ())
      | some migrated =>
        match { loaded with fileEntries := migrated }.rewriteFile around.fault with
        | (written, .ok ()) => ({ written.buildIndex with flushed := true }, .ok ())
        | (written, .error error) => (written, .error error)

/-- A manager before the constructor has given it a session. -/
def blank (cwd sessionDir : JsStr) (persist : Bool) (storage : Storage) : SessionManager where
  toIndex := .empty
  cwd
  sessionDir
  sessionId := []
  sessionFile := none
  persist
  flushed := false
  fileEntries := []
  storage

/-- `SessionManager.create` and `SessionManager.inMemory`. -/
def create (cwd sessionDir : JsStr) (persist : Bool) (storage : Storage) (around : Surroundings)
    (id parentSession : Option JsStr) : SessionManager :=
  (blank cwd sessionDir persist storage).newSession around id parentSession

/-- `SessionManager.open`. -/
def openFile (cwd sessionDir : JsStr) (storage : Storage) (around : Surroundings) (path : JsStr) :
    SessionManager × Except JsStr Unit :=
  (blank cwd sessionDir true storage).setSessionFile around path

end SessionManager

/-! ### Calls -/

/-- A call of a method that appends an entry or moves the leaf. -/
inductive TreeCall where
  | appendMessage (message : Message)
  | appendThinkingLevelChange (thinkingLevel : JsStr)
  | appendPresetChange (presetId : JsStr)
  | appendModelChange (provider modelId : JsStr)
  | appendState (snapshot : SessionManager.Snapshot)
  | appendSchemaChange (action : SchemaAction) (schemaId namespaceName : JsStr)
  | appendStrictChange (enabled : Bool)
  | appendCompaction (summary firstKeptEntryId : JsStr) (tokensBefore : JsNumber)
      (details : Option Payload) (fromHook : Option Bool) (usage : Option Payload)
  | appendCustomEntry (customType : JsStr) (data : Option Payload)
  | appendSessionInfo (name : JsStr)
  | appendCustomMessageEntry (customType : JsStr) (content : Payload) (display : Bool)
      (details : Option Payload) (id : Option JsStr)
  | appendLabelChange (targetId : JsStr) (label : Option JsStr)
  | branch (branchFromId : JsStr)
  | resetLeaf
  | branchWithSummary (branchFromId : Option JsStr) (summary : JsStr) (details : Option Payload)
      (fromHook : Option Bool) (usage : Option Payload)

inductive Call where
  | tree (call : TreeCall)
  | updateMessageContent (id text : JsStr)
  | flush
  | createBranchedSession (leafId : JsStr)

namespace SessionManager

/-- The manager after a call, whether it returns or throws. -/
def performTree (manager : SessionManager) (around : Surroundings) : TreeCall → SessionManager
  | .appendMessage message => (manager.appendMessage around message).1
  | .appendThinkingLevelChange thinkingLevel => (manager.appendThinkingLevelChange around thinkingLevel).1
  | .appendPresetChange presetId => (manager.appendPresetChange around presetId).1
  | .appendModelChange provider modelId => (manager.appendModelChange around provider modelId).1
  | .appendState snapshot => (manager.appendState around snapshot).1
  | .appendSchemaChange action schemaId namespaceName =>
    (manager.appendSchemaChange around action schemaId namespaceName).1
  | .appendStrictChange enabled => (manager.appendStrictChange around enabled).1
  | .appendCompaction summary firstKeptEntryId tokensBefore details fromHook usage =>
    (manager.appendCompaction around summary firstKeptEntryId tokensBefore details fromHook usage).1
  | .appendCustomEntry customType data => (manager.appendCustomEntry around customType data).1
  | .appendSessionInfo name => (manager.appendSessionInfo around name).1
  | .appendCustomMessageEntry customType content display details id =>
    (manager.appendCustomMessageEntry around customType content display details id).1
  | .appendLabelChange targetId label => (manager.appendLabelChange around targetId label).1
  | .branch branchFromId => (manager.branch branchFromId).1
  | .resetLeaf => manager.resetLeaf
  | .branchWithSummary branchFromId summary details fromHook usage =>
    (manager.branchWithSummary around branchFromId summary details fromHook usage).1

def perform (manager : SessionManager) (call : Surroundings × Call) : SessionManager :=
  match call.2 with
  | .tree treeCall => manager.performTree call.1 treeCall
  | .updateMessageContent id text => (manager.updateMessageContent call.1 id text).1
  | .flush => (manager.flush call.1.fault).1
  | .createBranchedSession leafId => (manager.createBranchedSession call.1 leafId).1

end SessionManager

end PiRp.Manager
