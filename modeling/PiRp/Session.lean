import PiRp.JsonValue
import PiRp.JsMap

/-! The data model of `packages/agent/src/harness/session/types.ts`. An entry and a lane record are
objects: their base properties are fields here, the remaining ones are kept together as a payload in
their order. The payload of a record of some type has the properties the code reads for that type. -/

namespace PiRp.Session

inductive EntryType where
  | message
  | modelChange
  | thinkingLevelChange
  | activeToolsChange
  | compaction
  | branchSummary
  | custom
  deriving DecidableEq

def EntryType.name : EntryType → JsStr
  | .message => js "message"
  | .modelChange => js "model_change"
  | .thinkingLevelChange => js "thinking_level_change"
  | .activeToolsChange => js "active_tools_change"
  | .compaction => js "compaction"
  | .branchSummary => js "branch_summary"
  | .custom => js "custom"

def EntryType.all : List EntryType :=
  [.message, .modelChange, .thinkingLevelChange, .activeToolsChange, .compaction, .branchSummary, .custom]

inductive RecordType where
  | operationStarted
  | abortRequested
  | operationFinished
  | stepAttempt
  | toolStarted
  | queueEnqueued
  | queueCancelled
  | writeDeferred
  | usage
  deriving DecidableEq

def RecordType.name : RecordType → JsStr
  | .operationStarted => js "operation_started"
  | .abortRequested => js "abort_requested"
  | .operationFinished => js "operation_finished"
  | .stepAttempt => js "step_attempt"
  | .toolStarted => js "tool_started"
  | .queueEnqueued => js "queue_enqueued"
  | .queueCancelled => js "queue_cancelled"
  | .writeDeferred => js "write_deferred"
  | .usage => js "usage"

def RecordType.all : List RecordType :=
  [.operationStarted, .abortRequested, .operationFinished, .stepAttempt, .toolStarted,
    .queueEnqueued, .queueCancelled, .writeDeferred, .usage]

/-- The kinds of an operation's intent. -/
inductive OperationKind where
  | run
  | compaction
  | navigation

def OperationKind.name : OperationKind → JsStr
  | .run => js "run"
  | .compaction => js "compaction"
  | .navigation => js "navigation"

def OperationKind.all : List OperationKind := [.run, .compaction, .navigation]

/-- The properties kept as fields, and the keys the codec adds to them. -/
def baseKeys : List JsStr :=
  [js "kind", js "lane", js "type", js "id", js "parentId", js "seq", js "timestamp"]

/-- A key of a typed payload: neither a base property nor an array index. -/
def IsPayloadKey (key : JsStr) : Prop := key ∉ baseKeys ∧ arrayIndex? key = none

instance (key : JsStr) : Decidable (IsPayloadKey key) :=
  inferInstanceAs (Decidable (key ∉ baseKeys ∧ arrayIndex? key = none))

/-- The properties of an entry or record beyond the base ones. -/
structure Payload where
  props : Props Json
  serializable : (Json.object props).Serializable
  keys : ∀ entry ∈ props, IsPayloadKey entry.1
  deriving DecidableEq

def stringAt? (props : Props Json) (key : JsStr) : Option JsStr :=
  match props.get? key with
  | some (.string value) => some value
  | _ => none

def numberAt? (props : Props Json) (key : JsStr) : Option JsNumber :=
  match props.get? key with
  | some (.number value) => some value
  | _ => none

def objectAt? (props : Props Json) (key : JsStr) : Option (Props Json) :=
  match props.get? key with
  | some (.object value) => some value
  | _ => none

def arrayAt? (props : Props Json) (key : JsStr) : Option (List Json) :=
  match props.get? key with
  | some (.array value) => some value
  | _ => none

/-- `customType` of a custom entry. -/
def customType? (props : Props Json) : Option JsStr := stringAt? props (js "customType")

/-- `runId` of the records that belong to an operation. -/
def runId? (props : Props Json) : Option JsStr := stringAt? props (js "runId")

/-- `intent.kind` of a started operation. -/
def operationKind? (props : Props Json) : Option OperationKind := do
  let intent ← objectAt? props (js "intent")
  let kind ← stringAt? intent (js "kind")
  OperationKind.all.find? fun operationKind => operationKind.name = kind

/-- The numbers of a usage record that enter the statistics. -/
structure UsageNumbers where
  cacheRead : JsNumber
  input : JsNumber
  cacheWrite : JsNumber
  totalTokens : JsNumber
  costTotal : JsNumber

def usageNumbers? (props : Props Json) : Option UsageNumbers := do
  let usage ← objectAt? props (js "usage")
  let cacheRead ← numberAt? usage (js "cacheRead")
  let input ← numberAt? usage (js "input")
  let cacheWrite ← numberAt? usage (js "cacheWrite")
  let totalTokens ← numberAt? usage (js "totalTokens")
  let cost ← objectAt? usage (js "cost")
  let costTotal ← numberAt? cost (js "total")
  return { cacheRead, input, cacheWrite, totalTokens, costTotal }

/-- The properties an entry of some type must have. -/
def hasEntryFields (type : EntryType) (props : Props Json) : Bool :=
  let hasString (key : JsStr) := (stringAt? props key).isSome
  match type with
  | .message => (objectAt? props (js "message")).isSome
  | .modelChange => hasString (js "provider") && hasString (js "modelId")
  | .thinkingLevelChange => hasString (js "thinkingLevel")
  | .activeToolsChange =>
    ((arrayAt? props (js "activeToolNames")).map fun names => names.all Json.isString).getD false
  | .compaction =>
    hasString (js "summary") && (arrayAt? props (js "retainedTail")).isSome &&
      (numberAt? props (js "tokensBefore")).isSome
  | .branchSummary => hasString (js "fromId") && hasString (js "summary")
  | .custom => (customType? props).isSome

/-- The properties are those of an entry of the type. -/
def EntryTyped (type : EntryType) (props : Props Json) : Prop := hasEntryFields type props = true

/-- The properties a typed record must have. -/
def RecordTyped (type : RecordType) (props : Props Json) : Prop :=
  match type with
  | .operationStarted => (operationKind? props).isSome = true
  | .operationFinished => (runId? props).isSome = true
  | .usage => (usageNumbers? props).isSome = true
  | _ => True

instance (type : EntryType) (props : Props Json) : Decidable (EntryTyped type props) :=
  inferInstanceAs (Decidable (hasEntryFields type props = true))

instance (type : RecordType) (props : Props Json) : Decidable (RecordTyped type props) :=
  match type with
  | .operationStarted => inferInstanceAs (Decidable ((operationKind? props).isSome = true))
  | .operationFinished => inferInstanceAs (Decidable ((runId? props).isSome = true))
  | .usage => inferInstanceAs (Decidable ((usageNumbers? props).isSome = true))
  | .abortRequested | .stepAttempt | .toolStarted | .queueEnqueued | .queueCancelled
  | .writeDeferred => inferInstanceAs (Decidable True)

/-- An entry as the caller provides it. -/
structure ProvisionedEntry where
  type : EntryType
  id : JsStr
  payload : Payload
  typed : EntryTyped type payload.props
  deriving DecidableEq

structure Entry extends ProvisionedEntry where
  parentId : Option JsStr
  seq : Nat
  timestamp : Nat
  deriving DecidableEq

/-- A lane record as the caller provides it. -/
structure NewRecord where
  type : RecordType
  id : JsStr
  lane : JsStr
  payload : Payload
  typed : RecordTyped type payload.props
  deriving DecidableEq

structure LaneRecord extends NewRecord where
  seq : Nat
  timestamp : Nat
  deriving DecidableEq

def Entry.customType? (entry : Entry) : Option JsStr := Session.customType? entry.payload.props

def LaneRecord.runId? (record : LaneRecord) : Option JsStr := Session.runId? record.payload.props

def LaneRecord.usageNumbers? (record : LaneRecord) : Option UsageNumbers :=
  Session.usageNumbers? record.payload.props

inductive EntryOrder where
  | newestFirst
  | oldestFirst
  deriving DecidableEq

/-- `EntryQuery`; the cursor is its `afterSeq`. -/
structure EntryQuery where
  type : Option EntryType := none
  customType : Option JsStr := none
  order : Option EntryOrder := none
  limit : Option Int := none
  cursor : Option Int := none

/-- The bounds of a branch scan besides its start. -/
structure BranchBounds where
  stopAtType : Option EntryType := none
  stopAtId : Option JsStr := none

structure SessionStats where
  messageCount : Nat
  cachedTokens : JsNumber
  uncachedTokens : JsNumber
  totalTokens : JsNumber
  costTotal : JsNumber

structure LanePointer where
  lane : JsStr
  leafId : Option JsStr

inductive LogItem where
  | entry (seq : Nat) (entry : Entry)
  | record (seq : Nat) (record : LaneRecord)
  | lane (seq : Nat) (lane : JsStr) (leafId : Option JsStr)
  | name (seq : Nat) (name : Option JsStr)
  | label (seq : Nat) (targetId : JsStr) (label : Option JsStr)
  deriving DecidableEq

inductive ForkPosition where
  | «at»
  | before
  deriving DecidableEq

/-- `ForkOptions`: a whole tree, or the branch that ends at or before an entry. -/
inductive ForkOptions where
  | tree
  | branch (entryId : Option JsStr) (position : Option ForkPosition)

inductive SessionErrorCode where
  | notFound
  | alreadyExists
  | invalidEntry
  | invalidPayload
  | invalidLane
  | invalidQuery
  | invalidForkTarget
  | storage
  deriving DecidableEq

structure SessionError where
  code : SessionErrorCode
  message : JsStr
  deriving DecidableEq

end PiRp.Session
