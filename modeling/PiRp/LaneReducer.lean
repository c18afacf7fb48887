import PiRp.ExceptBind
import PiRp.JsonValue
import PiRp.Sequenced

/-! `reduceLaneState` of the harness: what a lane was doing is reconstructed from a slice of its record log and
its entries. `validateRecordLog` rejects slices that contradict themselves. -/

namespace PiRp.Reducer

open Sequenced

/-! ### Entries -/

inductive StopReason where
  | pending
  | stop
  | length
  | toolUse
  | error
  | aborted
  | deferred
  deriving DecidableEq

/-- The roles of messages that are from neither an assistant nor a tool. -/
inductive OtherRole where
  | system
  | user
  | custom
  | bashExecution
  | branchSummary
  | compactionSummary
  deriving DecidableEq

inductive Role where
  | assistant
  | toolResult
  | other (role : OtherRole)

/-- `AgentToolCall` -/
structure ToolCall where
  id : JsStr
  name : JsStr
  rest : Props Json
  deriving DecidableEq

/-- A part of an assistant message. -/
inductive Block where
  | toolCall (call : ToolCall)
  | other (rest : Props Json)
  deriving DecidableEq

structure AssistantMessage where
  content : List Block
  provider : JsStr
  model : JsStr
  stopReason : StopReason
  deferred : Option (Props Json)
  rest : Props Json
  deriving DecidableEq

inductive AgentMessage where
  | assistant (message : AssistantMessage)
  | toolResult (toolCallId toolName : JsStr) (rest : Props Json)
  | other (role : OtherRole) (rest : Props Json)
  deriving DecidableEq

def AgentMessage.role : AgentMessage → Role
  | .assistant _ => .assistant
  | .toolResult _ _ _ => .toolResult
  | .other role _ => .other role

inductive EntryType where
  | message
  | modelChange
  | thinkingLevelChange
  | activeToolsChange
  | compaction
  | branchSummary
  | custom
  deriving DecidableEq

/-- The properties of an entry by its type. -/
inductive Body where
  | message (message : AgentMessage) (terminate : Bool)
  | modelChange (provider modelId : JsStr)
  | thinkingLevelChange (thinkingLevel : JsStr)
  | activeToolsChange (activeToolNames : List JsStr)
  | compaction (rest : Props Json)
  | branchSummary (rest : Props Json)
  | custom (customType : JsStr) (data : Option Json)
  deriving DecidableEq

def Body.type : Body → EntryType
  | .message _ _ => .message
  | .modelChange _ _ => .modelChange
  | .thinkingLevelChange _ => .thinkingLevelChange
  | .activeToolsChange _ => .activeToolsChange
  | .compaction _ => .compaction
  | .branchSummary _ => .branchSummary
  | .custom _ _ => .custom

/-- `ProvisionedEntry`: an entry before it is stored. -/
structure Target where
  id : JsStr
  body : Body
  deriving DecidableEq

structure Entry extends Target where
  parentId : Option JsStr
  seq : Nat
  timestamp : JsNumber
  deriving DecidableEq

namespace Entry

def assistant? (entry : Entry) : Option AssistantMessage :=
  match entry.body with
  | .message (.assistant message) _ => some message
  | _ => none

end Entry

def AssistantMessage.toolCalls (message : AssistantMessage) : List ToolCall :=
  message.content.filterMap fun content =>
    match content with
    | .toolCall call => some call
    | .other _ => none

/-! ### Records -/

/-- `intent` of a started operation. -/
inductive Intent where
  | run (initialMessages : List Target) (rest : Props Json)
  | compaction (resultEntryId : JsStr) (rest : Props Json)
  | navigation (summaryEntryId : Option JsStr) (rest : Props Json)
  deriving DecidableEq

inductive OperationKind where
  | run
  | compaction
  | navigation

namespace Intent

def kind : Intent → OperationKind
  | .run _ _ => .run
  | .compaction _ _ => .compaction
  | .navigation _ _ => .navigation

/-- The initial messages of a run. -/
def initialMessages : Intent → List Target
  | .run initialMessages _ => initialMessages
  | .compaction _ _ | .navigation _ _ => []

end Intent

/-- `OperationStartedRecord` -/
structure OperationStarted where
  id : JsStr
  seq : Nat
  lane : JsStr
  timestamp : JsNumber
  sourceLeafId : Option JsStr
  intent : Intent

inductive StepKind where
  | assistant
  | compaction
  | branchSummary
  deriving DecidableEq

def StepKind.name : StepKind → JsStr
  | .assistant => js "assistant"
  | .compaction => js "compaction"
  | .branchSummary => js "branch_summary"

/-- `StepAttemptRecord` without the base properties; the reason is read unchecked. -/
structure StepAttempt where
  runId : JsStr
  step : StepKind
  attempt : Nat
  resultEntryId : JsStr
  compactionReason : Option JsStr
  deriving DecidableEq

structure ToolStarted where
  runId : JsStr
  assistantEntryId : JsStr
  toolIndex : Nat
  toolCallId : JsStr
  toolName : JsStr
  resultEntryId : JsStr
  rest : Props Json
  deriving DecidableEq

/-- The queue of an enqueued item, with the operation it belongs to. -/
inductive Queue where
  | steer (runId : JsStr)
  | followUp (runId : JsStr)
  | nextRun
  deriving DecidableEq

namespace Queue

def runId? : Queue → Option JsStr
  | .steer runId => some runId
  | .followUp runId => some runId
  | .nextRun => none

def name : Queue → JsStr
  | .steer _ => js "steer"
  | .followUp _ => js "followUp"
  | .nextRun => js "nextRun"

end Queue

inductive UsageCause where
  | assistant
  | compaction
  | branchSummary
  | deferredFetch
  | tool
  | hook
  | adjustment
  deriving DecidableEq

/-- The properties of a record by its type. -/
inductive RecordBody where
  | operationStarted (sourceLeafId : Option JsStr) (intent : Intent)
  | abortRequested (runId : JsStr)
  | operationFinished (runId : JsStr) (rest : Props Json)
  | stepAttempt (attempt : StepAttempt)
  | toolStarted (started : ToolStarted)
  | queueEnqueued (queue : Queue) (target : Target)
  | queueCancelled (runId : Option JsStr) (entryId : JsStr)
  | writeDeferred (runId : JsStr) (target : Target)
  | usage (cause : UsageCause) (runId entryId : Option JsStr) (rest : Props Json)
  deriving DecidableEq

/-- `runId` of the records that belong to an operation. -/
def RecordBody.runId? : RecordBody → Option JsStr
  | .operationStarted _ _ => none
  | .abortRequested runId => some runId
  | .operationFinished runId _ => some runId
  | .stepAttempt attempt => some attempt.runId
  | .toolStarted started => some started.runId
  | .queueEnqueued queue _ => queue.runId?
  | .queueCancelled runId _ => runId
  | .writeDeferred runId _ => some runId
  | .usage _ runId _ _ => runId

/-- `LaneRecord` -/
structure Record where
  id : JsStr
  seq : Nat
  lane : JsStr
  timestamp : JsNumber
  body : RecordBody
  deriving DecidableEq

/-! ### Corruption -/

inductive Reason where
  | multipleOpenOperations
  | unknownOperation
  | recordAfterFinish
  | nonConsecutiveAttempt
  | invalidCompactionReason
  | queueAfterAbort
  | invalidQueueCancellation
  | inconsistentStep
  | toolCallMismatch
  | duplicateToolInvocation
  | provisionedEntryMismatch
  | invalidDeferredHandle
  deriving DecidableEq

/-- `RecordLogCorruption` -/
structure Corruption where
  reason : Reason
  message : JsStr
  deriving DecidableEq

/-- Throws unless a condition holds. -/
def require (condition : Bool) (reason : Reason) (message : JsStr) : Except Corruption Unit :=
  if condition then .ok () else .error ⟨reason, message⟩

def natText (value : Nat) : JsStr := js (toString value)

/-! ### Validation -/

/-- The entries by id, as what `get` finds. -/
abbrev EntriesById := JsStr → Option Entry

def entriesMap (entries : List Entry) : JsMap JsStr Entry := index (fun entry : Entry => entry.id) entries

/-- `Guard.IsDeepEqual` on the properties of an entry. -/
class DeepEqual where
  isDeepEqual : Target → Target → Bool

variable [DeepEqual]

def matchesProvisionedEntry (entry : Entry) (target : Target) : Bool :=
  DeepEqual.isDeepEqual entry.toTarget target

def validateExactProvisionedEntry (entriesById : EntriesById) (target : Target) : Except Corruption Unit :=
  require ((entriesById target.id).all (matchesProvisionedEntry · target)) .provisionedEntryMismatch
    (js "Provisioned entry " ++ target.id ++ js " exists with content different from its intent")

omit [DeepEqual] in
def validateResultEntry (entriesById : EntriesById) (resultEntryId : JsStr) (isMatch : Entry → Bool)
    (description : JsStr) : Except Corruption Unit :=
  require ((entriesById resultEntryId).all isMatch) .provisionedEntryMismatch
    (js "Provisioned " ++ description ++ js " entry " ++ resultEntryId ++ js " exists with different content")

omit [DeepEqual] in
def validateAttemptReason (id : JsStr) (record : StepAttempt) : Except Corruption Unit :=
  if record.step = .compaction then
    require (record.compactionReason.any [js "manual", js "threshold", js "overflow"].contains)
      .invalidCompactionReason (js "Compaction attempt " ++ id ++ js " has no valid compaction reason")
  else
    require record.compactionReason.isNone .invalidCompactionReason
      (record.step.name ++ js " attempt " ++ id ++ js " has a compaction reason")

omit [DeepEqual] in
def validateAttemptSequence (id : JsStr) (seq : Nat) (record : StepAttempt) (previous : Option StepAttempt)
    (entriesById : EntriesById) : Except Corruption Unit := do
  let continued := previous.filter fun previous =>
    previous.step = record.step && (entriesById previous.resultEntryId).all fun result => seq ≤ result.seq
  let expectedAttempt := continued.elim 1 fun previous => previous.attempt + 1
  require (record.attempt = expectedAttempt) .nonConsecutiveAttempt
    (record.step.name ++ js " attempt " ++ id ++ js " is " ++ natText record.attempt ++ js "; expected " ++
      natText expectedAttempt)
  match continued with
  | none => return ()
  | some previous =>
    if record.step = .assistant then return ()
    else do
      require (record.resultEntryId = previous.resultEntryId) .inconsistentStep
        (record.step.name ++ js " attempts disagree on their result entry id")
      require (record.compactionReason = previous.compactionReason) .inconsistentStep
        (record.step.name ++ js " attempts disagree on their compaction reason")

omit [DeepEqual] in
def validateAttemptResult (entriesById : EntriesById) (record : StepAttempt) : Except Corruption Unit :=
  match record.step with
  | .assistant => validateResultEntry entriesById record.resultEntryId (fun entry => entry.assistant?.isSome)
      (js "assistant result")
  | .compaction => validateResultEntry entriesById record.resultEntryId
      (fun entry => entry.body.type = .compaction) (js "compaction result")
  | .branchSummary => validateResultEntry entriesById record.resultEntryId
      (fun entry => entry.body.type = .branchSummary) (js "branch-summary result")

omit [DeepEqual] in
def isResultOf (toolCallId toolName : JsStr) (entry : Entry) : Bool :=
  match entry.body with
  | .message (.toolResult callId name _) _ => callId = toolCallId && name = toolName
  | _ => false

/-- `validateToolStart`; an invocation is the entry and the ordinal of its call. -/
def validateToolStart (id : JsStr) (record : ToolStarted) (entriesById : EntriesById)
    (invocations : List (JsStr × Nat)) : Except Corruption (List (JsStr × Nat)) := do
  require (!invocations.contains (record.assistantEntryId, record.toolIndex)) .duplicateToolInvocation
    (js "Tool invocation " ++ record.assistantEntryId ++ js ":" ++ natText record.toolIndex ++ js " is duplicated")
  match (entriesById record.assistantEntryId).bind Entry.assistant? with
  | none => .error ⟨.toolCallMismatch, js "Tool start " ++ id ++ js " does not reference an assistant entry"⟩
  | some message =>
    require (message.toolCalls[record.toolIndex]?.any fun toolCall =>
        toolCall.id = record.toolCallId && toolCall.name = record.toolName) .toolCallMismatch
      (js "Tool start " ++ id ++ js " does not match its assistant tool-call ordinal")
    validateResultEntry entriesById record.resultEntryId (isResultOf record.toolCallId record.toolName)
      (js "tool result")
    return (record.assistantEntryId, record.toolIndex) :: invocations

/-- An assistant message that waits for a deferred result it has no handle of. -/
def lacksHandle (entry : Entry) : Bool :=
  entry.assistant?.any fun message => message.stopReason = .deferred && message.deferred.isNone

def validateDeferredHandles (entries : List Entry) : Except Corruption Unit :=
  match entries.find? lacksHandle with
  | none => .ok ()
  | some entry => .error ⟨.invalidDeferredHandle,
      js "Deferred assistant entry " ++ entry.id ++ js " does not carry a handle"⟩

def validateOperationResult (entriesById : EntriesById) : Intent → Except Corruption Unit
  | .run initialMessages _ => initialMessages.forM (validateExactProvisionedEntry entriesById)
  | .compaction resultEntryId _ => validateResultEntry entriesById resultEntryId
      (fun entry => entry.body.type = .compaction) (js "manual compaction")
  | .navigation summaryEntryId _ =>
    match summaryEntryId with
    | some summaryEntryId =>
      if summaryEntryId ≠ [] then
        validateResultEntry entriesById summaryEntryId (fun entry => entry.body.type = .branchSummary)
          (js "navigation summary")
      else .ok ()
    | none => .ok ()

/-- The maps of the validation loop. -/
structure Seen where
  starts : List JsStr := []
  finishedAt : JsMap JsStr Nat := .empty
  abortedAt : JsMap JsStr Nat := .empty
  queueEnqueues : JsMap JsStr (Nat × Queue) := .empty
  latestAttempt : JsMap JsStr StepAttempt := .empty
  toolInvocations : List (JsStr × Nat) := []

/-- The checks of the records that belong to an operation. -/
def validateRunId (seen : Seen) (record : Record) : Except Corruption Unit :=
  match record.body.runId? with
  | none => .ok ()
  | some runId => do
      require (seen.starts.contains runId) .unknownOperation
        (js "Record " ++ record.id ++ js " references unknown operation " ++ runId)
      require ((seen.finishedAt.get? runId).all (record.seq ≤ ·)) .recordAfterFinish
        (js "Record " ++ record.id ++ js " follows the finish of operation " ++ runId)

/-- One round of the loop. -/
def validateRecord (entriesById : EntriesById) (seen : Seen) (record : Record) : Except Corruption Seen := do
  validateRunId seen record
  match record.body with
  | .operationStarted _ intent => do
      validateOperationResult entriesById intent
      return { seen with starts := record.id :: seen.starts }
  | .operationFinished runId _ => return { seen with finishedAt := seen.finishedAt.set runId record.seq }
  | .abortRequested runId => return { seen with abortedAt := seen.abortedAt.set runId record.seq }
  | .stepAttempt attempt => do
      validateAttemptReason record.id attempt
      validateAttemptSequence record.id record.seq attempt (seen.latestAttempt.get? attempt.runId) entriesById
      validateAttemptResult entriesById attempt
      return { seen with latestAttempt := seen.latestAttempt.set attempt.runId attempt }
  | .toolStarted started => do
      let toolInvocations ← validateToolStart record.id started entriesById seen.toolInvocations
      return { seen with toolInvocations }
  | .queueEnqueued queue target => do
      require ((queue.runId?.bind seen.abortedAt.get?).all (record.seq ≤ ·)) .queueAfterAbort
        (queue.name ++ js " item " ++ target.id ++ js " was enqueued after abort")
      validateExactProvisionedEntry entriesById target
      return { seen with queueEnqueues := seen.queueEnqueues.set target.id (record.seq, queue) }
  | .queueCancelled runId entryId => do
      require ((seen.queueEnqueues.get? entryId).any (fun enqueue =>
          enqueue.1 < record.seq && enqueue.2.runId? = runId) && (entriesById entryId).isNone) .invalidQueueCancellation
        (js "Queue cancellation " ++ record.id ++ js " has no pending matching enqueue")
      return seen
  | .writeDeferred _ target => do
      validateExactProvisionedEntry entriesById target
      return seen
  | .usage _ _ _ _ => return seen

/-- `RecordLogSlice` -/
structure RecordLogSlice where
  lane : JsStr
  openOperations : List OperationStarted
  records : List Record
  entries : List Entry

def validateRecordLog (input : RecordLogSlice) : Except Corruption Unit := do
  require (input.openOperations.length ≤ 1) .multipleOpenOperations
    (js "Lane " ++ input.lane ++ js " has at least two open operations")
  validateDeferredHandles (entriesMap input.entries).values
  let _ ← (bySequence Record.seq input.records).foldlM (validateRecord (entriesMap input.entries).get?) {}
  return ()

/-! ### Reduction -/

structure EffectiveLaneConfiguration where
  provider : JsStr
  modelId : JsStr
  thinkingLevel : JsStr
  activeToolNames : List JsStr

structure LaneReductionInput extends RecordLogSlice where
  leafId : Option JsStr
  ownEntries : List Entry
  configurationEntries : List Entry
  defaults : EffectiveLaneConfiguration

inductive FailureSource where
  | step
  | deferredFetch

structure TerminalFailureState where
  entryId : JsStr
  source : FailureSource
  message : AssistantMessage

/-- A tool call of a batch; `terminate` is kept when it is set. -/
structure BatchCall where
  toolIndex : Nat
  toolCall : ToolCall
  started : Option ToolStarted
  resultExists : Bool
  terminate : Bool

structure ToolBatchState where
  assistantEntryId : JsStr
  calls : List BatchCall
  truncated : Bool
  unresolved : Bool

structure StepState where
  kind : StepKind
  attempts : Nat
  resultEntryId : JsStr
  compactionReason : Option JsStr

structure NewestOwn where
  entryId : JsStr
  type : EntryType
  role : Option Role
  stopReason : Option StopReason

structure OperationState where
  id : JsStr
  kind : OperationKind
  intent : Intent
  aborting : Bool
  step : Option StepState
  toolBatch : Option ToolBatchState
  missingInitialMessages : List Target
  pendingSteer : List Target
  pendingFollowUp : List Target
  pendingWrites : List Target
  deferred : Option (Props Json)
  overflowRecoveryUsed : Bool
  newestOwn : Option NewestOwn
  resultTarget : Option Bool
  summaryTarget : Option Bool

structure LaneState where
  lane : JsStr
  leafId : Option JsStr
  operation : Option OperationState
  pendingNextRun : List Target

structure LaneReductionResult where
  laneState : LaneState
  effectiveConfiguration : EffectiveLaneConfiguration
  terminalFailure : Option TerminalFailureState

/-- What an entry changes in the configuration. -/
def applyConfiguration (configuration : EffectiveLaneConfiguration) (entry : Entry) : EffectiveLaneConfiguration :=
  match entry.body with
  | .modelChange provider modelId => { configuration with provider, modelId }
  | .thinkingLevelChange thinkingLevel => { configuration with thinkingLevel }
  | .activeToolsChange activeToolNames => { configuration with activeToolNames }
  | .message (.assistant message) _ =>
    { configuration with provider := message.provider, modelId := message.model }
  | _ => configuration

def deriveEffectiveConfiguration (input : LaneReductionInput) : EffectiveLaneConfiguration :=
  let entriesById := entriesMap (input.configurationEntries ++ input.ownEntries)
  (bySequence Entry.seq entriesById.values).foldl applyConfiguration input.defaults

def deriveNewestOwn (entry : Entry) : NewestOwn where
  entryId := entry.id
  type := entry.body.type
  role := match entry.body with
    | .message message _ => some message.role
    | _ => none
  stopReason := entry.assistant?.map AssistantMessage.stopReason

/-- Whether an entry is the result a call got without being started. -/
def isBlockedResult (assistantSeq : Nat) (deferredWriteIds : List JsStr) (toolCall : ToolCall) (entry : Entry) :
    Bool :=
  assistantSeq < entry.seq && !deferredWriteIds.contains entry.id &&
    match entry.body with
    | .message (.toolResult toolCallId _ _) _ => toolCallId = toolCall.id
    | _ => false

def terminates (entry : Entry) : Bool :=
  match entry.body with
  | .message _ terminate => terminate
  | _ => false

def deriveToolBatch (operationId : JsStr) (records : List Record) (ownEntries : List Entry)
    (entriesById : EntriesById) (deferredWriteIds : List JsStr) : Option ToolBatchState := do
  let assistantEntry ← ownEntries.reverse.find? fun entry =>
    entry.assistant?.any fun message => message.toolCalls ≠ []
  let message ← assistantEntry.assistant?
  let starts := records.filterMap fun record =>
    match record.body with
    | .toolStarted started =>
      if started.runId = operationId ∧ started.assistantEntryId = assistantEntry.id then some started else none
    | _ => none
  let calls := message.toolCalls.mapIdx fun toolIndex toolCall =>
    let started := starts.reverse.find? fun started => started.toolIndex = toolIndex
    let startedResult := started.bind fun started => entriesById started.resultEntryId
    let blockedResult := ownEntries.find? (isBlockedResult assistantEntry.seq deferredWriteIds toolCall)
    let result := startedResult.or blockedResult
    (⟨toolIndex, toolCall, started, result.isSome, result.any terminates⟩ : BatchCall)
  return ⟨assistantEntry.id, calls, message.stopReason = .length, calls.any fun call => !call.resultExists⟩

/-- The targets of the enqueued items whose queue is wanted, in their order. -/
def queuedTargets (wanted : Queue → Bool) (records : List Record) : List Target :=
  records.filterMap fun record =>
    match record.body with
    | .queueEnqueued queue target => if wanted queue then some target else none
    | _ => none

def cancelledQueueIds (records : List Record) : List JsStr :=
  records.filterMap fun record =>
    match record.body with
    | .queueCancelled _ entryId => some entryId
    | _ => none

/-- Whether a record belongs to an operation. -/
def belongsTo (operationId : JsStr) (record : Record) : Bool :=
  match record.body with
  | .operationStarted _ _ => record.id = operationId
  | body => body.runId? = some operationId

def deferredWrites (records : List Record) : List Target :=
  records.filterMap fun record =>
    match record.body with
    | .writeDeferred _ target => some target
    | _ => none

def stepAttempts (records : List Record) : List (Nat × StepAttempt) :=
  records.filterMap fun record =>
    match record.body with
    | .stepAttempt attempt => some (record.seq, attempt)
    | _ => none

def isAbortRequest (record : Record) : Bool :=
  match record.body with
  | .abortRequested _ => true
  | _ => false

def deriveStep (attempts : List (Nat × StepAttempt)) (entriesById : EntriesById) : Option StepState :=
  attempts.getLast?.bind fun newest =>
    if (entriesById newest.2.resultEntryId).isSome then none
    else some ⟨newest.2.step, newest.2.attempt, newest.2.resultEntryId,
      if newest.2.step = .compaction then newest.2.compactionReason else none⟩

/-- `newestConsumedInputSequence`, none before every sequence number. -/
def newestConsumedInput (consumedInputIds : List JsStr) (entriesById : EntriesById) : Option Nat :=
  (consumedInputIds.filterMap fun id =>
    (entriesById id).bind fun entry => if entry.body.type = .message then some entry.seq else none).max?

def deriveTerminalFailure (operationRecords : List Record) (ownEntries : List Entry)
    (deferredWriteIds : List JsStr) : Option TerminalFailureState := do
  let newest ← ownEntries.getLast?
  let message ← newest.assistant?
  if message.stopReason ≠ .error ∨ newest.id ∈ deferredWriteIds then none
  else
    let producedByStep := (stepAttempts operationRecords).any fun attempt => attempt.2.resultEntryId = newest.id
    let fetched := operationRecords.any fun record =>
      match record.body with
      | .usage cause _ entryId _ => cause = .deferredFetch && entryId = some newest.id
      | _ => false
    let previousDeferred := (ownEntries.dropLast.getLast?.bind Entry.assistant?).any (·.stopReason = .deferred)
    if producedByStep then some ⟨newest.id, .step, message⟩
    else if fetched || previousDeferred then some ⟨newest.id, .deferredFetch, message⟩
    else none

/-- What is reconstructed from a valid slice. -/
def reduceValid (input : LaneReductionInput) : LaneReductionResult :=
  let records := bySequence Record.seq input.records
  let ownEntries := bySequence Entry.seq input.ownEntries
  let entriesById := (entriesMap (input.entries ++ ownEntries)).get?
  let cancelled := cancelledQueueIds records
  let isPending := fun target : Target => (entriesById target.id).isNone && !cancelled.contains target.id
  let started := input.openOperations.head?
  let captured := (started.elim [] fun started => started.intent.initialMessages).map Target.id
  let pendingNextRun := (queuedTargets (· = .nextRun) records).filter fun target =>
    isPending target && !captured.contains target.id
  let effectiveConfiguration := deriveEffectiveConfiguration input
  match started with
  | none => ⟨⟨input.lane, input.leafId, none, pendingNextRun⟩, effectiveConfiguration, none⟩
  | some started =>
    let operationRecords := records.filter (belongsTo started.id)
    let aborting := operationRecords.any isAbortRequest
    let attempts := stepAttempts operationRecords
    let newestOwn := ownEntries.getLast?
    let consumed := captured ++ (queuedTargets (· ≠ .nextRun) operationRecords).map Target.id
    let deferredWriteIds := (deferredWrites operationRecords).map Target.id
    let operation : OperationState := {
      id := started.id
      kind := started.intent.kind
      intent := started.intent
      aborting
      step := deriveStep attempts entriesById
      toolBatch := deriveToolBatch started.id operationRecords ownEntries entriesById deferredWriteIds
      missingInitialMessages := started.intent.initialMessages.filter fun target => (entriesById target.id).isNone
      pendingSteer :=
        if aborting then [] else (queuedTargets (· = .steer started.id) records).filter isPending
      pendingFollowUp :=
        if aborting then [] else (queuedTargets (· = .followUp started.id) records).filter isPending
      pendingWrites := (deferredWrites operationRecords).filter fun target => (entriesById target.id).isNone
      deferred := (newestOwn.bind Entry.assistant?).bind fun message =>
        if message.stopReason = .deferred then message.deferred else none
      overflowRecoveryUsed := attempts.any fun attempt =>
        attempt.2.step = .compaction && attempt.2.compactionReason = some (js "overflow") &&
          (newestConsumedInput consumed entriesById).all (· < attempt.1)
      newestOwn := newestOwn.map deriveNewestOwn
      resultTarget := match started.intent with
        | .compaction resultEntryId _ => some (entriesById resultEntryId).isSome
        | _ => none
      summaryTarget := match started.intent with
        | .navigation (some summaryEntryId) _ =>
          if summaryEntryId ≠ [] then some (entriesById summaryEntryId).isSome else none
        | _ => none }
    ⟨⟨input.lane, input.leafId, some operation, pendingNextRun⟩, effectiveConfiguration,
      deriveTerminalFailure operationRecords ownEntries deferredWriteIds⟩

def reduceLaneState (input : LaneReductionInput) : Except Corruption LaneReductionResult := do
  validateRecordLog input.toRecordLogSlice
  return reduceValid input

end PiRp.Reducer
