import PiRp.JsonValue

/-! The agent loop of `packages/agent/src/agent-loop.ts` as a state machine: what its callbacks, the response streams
and the tools answer, and when, are the events. Fields of messages, tools and configurations that the loop only hands
on are left out. -/

namespace PiRp.AgentLoop

/-! ### Messages -/

inductive StopReason where
  | pending
  | stop
  | length
  | toolUse
  | error
  | aborted
  | deferred
  deriving DecidableEq

structure AgentToolCall where
  id : JsStr
  name : JsStr
  arguments : Json
  deriving DecidableEq

inductive Content where
  /-- Text or thinking. -/
  | block (content : Json)
  | toolCall (toolCall : AgentToolCall)
  deriving DecidableEq

structure AssistantMessage where
  content : List Content
  stopReason : StopReason
  deriving DecidableEq

structure ToolResultMessage where
  toolCallId : JsStr
  toolName : JsStr
  content : Json
  details : Option Json
  usage : Option Json
  addedToolNames : List JsStr
  isError : Bool
  deriving DecidableEq

inductive AgentMessage where
  | user (content : Json)
  | assistant (message : AssistantMessage)
  | toolResult (message : ToolResultMessage)
  | custom (content : Json)
  deriving DecidableEq

def AssistantMessage.toolCalls (message : AssistantMessage) : List AgentToolCall :=
  message.content.filterMap fun
    | .toolCall toolCall => some toolCall
    | .block _ => none

/-! ### Tools -/

/-- `terminate` of a result. -/
inductive Terminate where
  | no
  | all
  | any
  deriving DecidableEq

structure AgentToolResult where
  content : Option Json
  details : Option Json
  structuredContent : Option Json
  isError : Option Bool
  usage : Option Json
  addedToolNames : List JsStr
  terminate : Option Terminate
  deriving DecidableEq

inductive ToolExecutionMode where
  | sequential
  | parallel
  deriving DecidableEq

inductive ToolReplayMode where
  | never
  | safe
  deriving DecidableEq

structure AgentTool where
  name : JsStr
  executionMode : Option ToolExecutionMode
  replay : Option ToolReplayMode
  deriving DecidableEq

structure AgentContext where
  messages : List AgentMessage
  tools : List AgentTool

def AgentContext.findTool (context : AgentContext) (name : JsStr) : Option AgentTool :=
  context.tools.find? fun tool => tool.name = name

structure LoopConfig where
  toolExecution : ToolExecutionMode
  suppressAssistantText : Bool

def createErrorToolResult (message : JsStr) : AgentToolResult where
  content := some (.array [.object [(js "type", .string (js "text")), (js "text", .string message)]])
  details := some (.object [])
  structuredContent := none
  isError := none
  usage := none
  addedToolNames := []
  terminate := none

structure FinalizedToolCallOutcome where
  toolCall : AgentToolCall
  result : AgentToolResult
  isError : Bool
  deriving DecidableEq

def createToolResultMessage (finalized : FinalizedToolCallOutcome) : ToolResultMessage where
  toolCallId := finalized.toolCall.id
  toolName := finalized.toolCall.name
  content := finalized.result.content.getD (.array [])
  details := finalized.result.details
  usage := finalized.result.usage
  addedToolNames := finalized.result.addedToolNames
  isError := finalized.isError

def shouldTerminateToolBatch (finalizedCalls : List FinalizedToolCallOutcome) : Bool :=
  finalizedCalls.any (fun finalized => finalized.result.terminate = some .any) ||
    (!finalizedCalls.isEmpty && finalizedCalls.all fun finalized => finalized.result.terminate = some .all)

/-- How the preparation of the arguments, their validation and `beforeToolCall` end. -/
inductive BeforeAnswer where
  | throws (message : JsStr)
  | returns (block : Bool) (reason : JsStr) (terminate : Bool)

structure PrepareAnswer where
  /-- What `resolveToolAvailability` gives for a tool that is missing but deferred. -/
  guidance : Option JsStr
  before : BeforeAnswer

inductive Preparation where
  | prepared (tool : AgentTool)
  /-- An error. -/
  | immediate (result : AgentToolResult)

def prepareToolCall (context : AgentContext) (toolCall : AgentToolCall) (answer : PrepareAnswer) (aborted : Bool) :
    Preparation :=
  match context.findTool toolCall.name with
  | none =>
    .immediate (createErrorToolResult (answer.guidance.getD (js "Tool " ++ toolCall.name ++ js " not found")))
  | some tool =>
    match answer.before with
    | .throws message => .immediate (createErrorToolResult message)
    | .returns block reason terminate =>
      if aborted then .immediate (createErrorToolResult (js "Operation aborted"))
      else if block then
        let result := createErrorToolResult (if reason = [] then js "Tool execution was blocked" else reason)
        .immediate (if terminate then { result with terminate := some .all } else result)
      else .prepared tool

inductive ExecuteAnswer where
  | returns (result : AgentToolResult)
  | throws (message : JsStr)

structure ExecutedToolCallOutcome where
  result : AgentToolResult
  isError : Bool
  deriving DecidableEq

def ExecuteAnswer.outcome : ExecuteAnswer → ExecutedToolCallOutcome
  | .returns result => ⟨result, result.isError = some true⟩
  | .throws message => ⟨createErrorToolResult message, true⟩

structure AfterToolCallResult where
  content : Option Json
  details : Option Json
  isError : Option Bool
  structuredContent : Option Json
  usage : Option Json
  terminate : Option Terminate

inductive AfterAnswer where
  /-- There is no `afterToolCall`, or it gives nothing. -/
  | nothing
  | throws (message : JsStr)
  | returns (result : AfterToolCallResult)

/-- `value ?? other`. -/
def coalesce (value other : Option Json) : Option Json :=
  match value with
  | none | some .null => other
  | value => value

def mergeAfterResult (result : AgentToolResult) (after : AfterToolCallResult) : AgentToolResult where
  content := coalesce after.content result.content
  details := coalesce after.details result.details
  structuredContent :=
    match after.structuredContent with
    | some value => some value
    | none => if (coalesce after.content none).isSome then none else result.structuredContent
  isError := after.isError.or result.isError
  usage := coalesce after.usage result.usage
  addedToolNames := result.addedToolNames
  terminate := after.terminate.or result.terminate

def finalizeExecutedToolCall (toolCall : AgentToolCall) (executed : ExecutedToolCallOutcome) (answer : AfterAnswer) :
    FinalizedToolCallOutcome :=
  let isError := executed.isError || executed.result.isError = some true
  match answer with
  | .nothing => ⟨toolCall, executed.result, isError⟩
  | .throws message => ⟨toolCall, createErrorToolResult message, true⟩
  | .returns after => ⟨toolCall, mergeAfterResult executed.result after, after.isError.getD isError⟩

def truncatedResult (toolCall : AgentToolCall) : FinalizedToolCallOutcome where
  toolCall
  result := createErrorToolResult (js "Tool call \"" ++ toolCall.name ++ js "\" was not executed: the response hit the output token limit, so its arguments may be truncated. Re-issue the tool call with complete arguments.")
  isError := true

def interruptedResult (toolCall : AgentToolCall) : FinalizedToolCallOutcome where
  toolCall
  result := createErrorToolResult (js "Tool call \"" ++ toolCall.name ++ js "\" was interrupted before its result was recorded and was not re-run. Its effects, if any, are unknown; check the current state before re-issuing it.")
  isError := true

/-! ### Pending tool calls -/

structure PendingToolCalls where
  assistantMessage : AssistantMessage
  toolCalls : List AgentToolCall

/-- The loop of `findPendingToolCalls` over the messages from the last one. -/
def findPendingFrom (answered : List JsStr) : List AgentMessage → Option PendingToolCalls
  | [] => none
  | .toolResult message :: rest => findPendingFrom (message.toolCallId :: answered) rest
  | .user _ :: _ => none
  | .custom _ :: rest => findPendingFrom answered rest
  | .assistant message :: _ =>
    if message.stopReason ≠ .toolUse then none
    else
      let toolCalls := message.toolCalls.filter fun toolCall => toolCall.id ∉ answered
      if toolCalls = [] then none else some ⟨message, toolCalls⟩

def findPendingToolCalls (messages : List AgentMessage) : Option PendingToolCalls :=
  findPendingFrom [] messages.reverse

/-! ### Events -/

/-- The events of the loop. The tool events also have the position of the call in its batch. -/
inductive AgentEvent where
  | agentStart
  | agentEnd (messages : List AgentMessage)
  | turnStart
  | turnEnd (message : AssistantMessage) (toolResults : List ToolResultMessage)
  | messageStart (message : AgentMessage)
  | messageUpdate (message : AgentMessage)
  | messageEnd (message : AgentMessage)
  | toolExecutionStart (call : Nat) (toolCall : AgentToolCall)
  | toolExecutionUpdate (call : Nat) (toolCall : AgentToolCall) (partialResult : AgentToolResult)
  | toolExecutionEnd (call : Nat) (toolCall : AgentToolCall) (result : AgentToolResult) (isError : Bool)
  deriving DecidableEq

inductive Queue where
  | steering
  | followUp
  deriving DecidableEq

/-- What the loop does: it emits events, polls a queue and requests a response; and the abort. -/
inductive Action where
  | emit (event : AgentEvent)
  | poll (queue : Queue)
  | request (messages : List AgentMessage)
  | abort

def messageActions (message : AgentMessage) : List Action :=
  [.emit (.messageStart message), .emit (.messageEnd message)]

def finalizedActions (call : Nat) (finalized : FinalizedToolCallOutcome) : List Action :=
  [.emit (.toolExecutionEnd call finalized.toolCall finalized.result finalized.isError)]

def resultActions (finalized : FinalizedToolCallOutcome) : List Action :=
  messageActions (.toolResult (createToolResultMessage finalized))

/-- A call that is answered without being executed. -/
def unexecutedActions (call : Nat) (finalized : FinalizedToolCallOutcome) : List Action :=
  .emit (.toolExecutionStart call finalized.toolCall) :: (finalizedActions call finalized ++ resultActions finalized)

/-! ### The state -/

inductive CallStatus where
  | preparing
  | prepared (tool : AgentTool)
  /-- `execute` runs, and updates are accepted. -/
  | running (tool : AgentTool)
  /-- `afterToolCall` is awaited. -/
  | finishing (tool : AgentTool) (executed : ExecutedToolCallOutcome)
  | ended (finalized : FinalizedToolCallOutcome)
  deriving DecidableEq

namespace CallStatus

def finalized? : CallStatus → Option FinalizedToolCallOutcome
  | .ended finalized => some finalized
  | _ => none

def launch : CallStatus → CallStatus
  | .prepared tool => .running tool
  | status => status

end CallStatus

structure CallEntry where
  toolCall : AgentToolCall
  status : CallStatus

/-- A batch of tool calls that are executed. -/
structure Batch where
  message : AssistantMessage
  resumed : Bool
  /-- The results of the calls that are not executed again. -/
  interrupted : List FinalizedToolCallOutcome
  mode : ToolExecutionMode
  /-- The calls that have not been started. -/
  queue : List AgentToolCall
  /-- All calls that are going to be started have been, and those of a parallel batch execute. -/
  launched : Bool
  calls : List CallEntry
  /-- The calls that were executed. -/
  executed : List (AgentToolCall × AgentTool)

inductive PollSite where
  /-- Before the first turn. -/
  | initial
  /-- After the preparation of a turn. -/
  | preparation
  /-- After a turn. -/
  | turn
  | followUps

/-- What the loop awaits. -/
inductive Phase where
  | preparingInitial
  | polling (site : PollSite)
  | preparingNext
  /-- `onSteeringBatch`. -/
  | steering
  /-- The messages that are about to be appended. -/
  | delivering (rest : List AgentMessage)
  | streaming (partialMessage : Option AssistantMessage)
  | batch (batch : Batch)
  /-- `onToolBatchCompleted`. -/
  | completing (message : AssistantMessage) (resumed : Bool) (executed : List (AgentToolCall × AgentTool))
      (toolResults : List ToolResultMessage)
  /-- `shouldStopAfterTurn`. -/
  | stopping
  | finished

structure Poll where
  queue : Queue
  messages : List AgentMessage

/-- What has happened since the last turn: the polls, and what was appended to the context that the turn has. -/
structure OpenTurn where
  /-- `hasMoreToolCalls` at the end of the turn before it. -/
  afterToolCalls : Bool
  polls : List Poll
  base : List AgentMessage
  extras : List AgentMessage
  injected : List AgentMessage

def OpenTurn.empty (afterToolCalls : Bool) : OpenTurn := ⟨afterToolCalls, [], [], [], []⟩

/-- A turn that has ended. -/
structure Turn extends OpenTurn where
  message : AssistantMessage
  resumed : Bool
  executed : List (AgentToolCall × AgentTool)
  results : List ToolResultMessage

structure LoopState where
  context : AgentContext
  newMessages : List AgentMessage
  pendingMessages : List AgentMessage
  pendingMessagesAreSteering : Bool
  hasMoreToolCalls : Bool
  /-- `lastCompletedTurn` is set. -/
  completedTurn : Bool
  resume : Option PendingToolCalls
  aborted : Bool
  phase : Phase
  trace : List Action
  openTurn : OpenTurn
  turns : List Turn

def PollSite.queue : PollSite → Queue
  | .initial | .preparation | .turn => .steering
  | .followUps => .followUp

namespace Batch

def allEnded (batch : Batch) : Bool := batch.calls.all fun entry => entry.status.finalized?.isSome

def nonePreparing (batch : Batch) : Bool := batch.calls.all fun entry => entry.status ≠ .preparing

def finalizedCalls (batch : Batch) : List FinalizedToolCallOutcome :=
  batch.calls.filterMap fun entry => entry.status.finalized?

def setStatus (batch : Batch) (call : Nat) (toolCall : AgentToolCall) (status : CallStatus) : Batch :=
  { batch with calls := batch.calls.set call ⟨toolCall, status⟩ }

/-- The calls of a parallel batch that have been prepared. -/
def preparedCalls (batch : Batch) : List (AgentToolCall × AgentTool) :=
  batch.calls.filterMap fun entry =>
    match entry.status with
    | .prepared tool => some (entry.toolCall, tool)
    | _ => none

/-- `Promise.all` of the calls. -/
def launch (batch : Batch) : Batch :=
  { batch with
    launched := true
    calls := batch.calls.map fun entry => { entry with status := entry.status.launch }
    executed := batch.executed ++ batch.preparedCalls }

end Batch

namespace LoopState

def act (state : LoopState) (actions : List Action) : LoopState := { state with trace := state.trace ++ actions }

def emit (state : LoopState) (event : AgentEvent) : LoopState := state.act [.emit event]

def enter (state : LoopState) (phase : Phase) : LoopState := { state with phase }

def finish (state : LoopState) : LoopState := (state.emit (.agentEnd state.newMessages)).enter .finished

/-- `currentContext.messages.push(message)`. -/
def pushContext (state : LoopState) (message : AgentMessage) : LoopState :=
  { state with context := { state.context with messages := state.context.messages ++ [message] } }

/-- `context.messages[context.messages.length - 1] = message`. -/
def replaceLast (state : LoopState) (message : AgentMessage) : LoopState :=
  { state with context := { state.context with messages := state.context.messages.dropLast ++ [message] } }

def record (state : LoopState) (message : AgentMessage) : LoopState :=
  { state with newMessages := state.newMessages ++ [message] }

/-- The poll of `takeSteering` or `takeFollowUps`. -/
def startPoll (state : LoopState) (site : PollSite) : LoopState := (state.act [.poll site.queue]).enter (.polling site)

/-! ### The end of a turn -/

def closeTurn (state : LoopState) (message : AssistantMessage) (resumed : Bool)
    (executed : List (AgentToolCall × AgentTool)) (results : List ToolResultMessage) : LoopState :=
  { state.emit (.turnEnd message results) with
    completedTurn := true
    turns := state.turns ++ [{ state.openTurn with message, resumed, executed, results }]
    openTurn := .empty state.hasMoreToolCalls }

/-- `turn_end`, to where `shouldStopAfterTurn` is awaited. -/
def endTurn (state : LoopState) (message : AssistantMessage) (resumed : Bool)
    (executed : List (AgentToolCall × AgentTool)) (results : List ToolResultMessage) : LoopState :=
  (state.closeTurn message resumed executed results).enter .stopping

/-- The results of a batch, to where `onToolBatchCompleted` is awaited. -/
def completeBatch (state : LoopState) (message : AssistantMessage) (resumed : Bool)
    (executed : List (AgentToolCall × AgentTool)) (finalized : List FinalizedToolCallOutcome) (terminate : Bool) :
    LoopState :=
  let results := finalized.map createToolResultMessage
  { state with
    hasMoreToolCalls := !terminate
    context := { state.context with messages := state.context.messages ++ results.map .toolResult }
    newMessages := state.newMessages ++ results.map .toolResult
    phase := .completing message resumed executed results }

/-! ### Tool batches -/

/-- Calls that are answered without being executed, one after the other. -/
def answerCalls (state : LoopState) (finalized : List FinalizedToolCallOutcome) : LoopState :=
  state.act (finalized.zipIdx.flatMap fun entry => unexecutedActions entry.2 entry.1)

def failToolCallsFromTruncatedMessage (state : LoopState) (message : AssistantMessage) : LoopState :=
  let finalized := message.toolCalls.map truncatedResult
  (state.answerCalls finalized).completeBatch message false [] finalized false

def executionMode (config : LoopConfig) (context : AgentContext) (toolCalls : List AgentToolCall) :
    ToolExecutionMode :=
  let hasSequentialToolCall := toolCalls.any fun toolCall =>
    (context.findTool toolCall.name).any fun tool => tool.executionMode = some .sequential
  if config.toolExecution = .sequential || hasSequentialToolCall then .sequential else .parallel

def executeToolCalls (state : LoopState) (config : LoopConfig) (message : AssistantMessage) (resumed : Bool)
    (interrupted : List FinalizedToolCallOutcome) (toolCalls : List AgentToolCall) : LoopState :=
  state.enter (.batch
    { message, resumed, interrupted
      mode := executionMode config state.context toolCalls
      queue := toolCalls
      launched := false
      calls := []
      executed := [] })

def isReplayable (context : AgentContext) (toolCall : AgentToolCall) : Bool :=
  (context.findTool toolCall.name).any fun tool => tool.replay = some .safe

def executePendingToolCalls (state : LoopState) (config : LoopConfig) (pending : PendingToolCalls) : LoopState :=
  let interrupted := (pending.toolCalls.filter fun toolCall => !isReplayable state.context toolCall).map interruptedResult
  let replayed := pending.toolCalls.filter fun toolCall => isReplayable state.context toolCall
  let answered := state.answerCalls interrupted
  if replayed = [] then answered.completeBatch pending.assistantMessage true [] interrupted false
  else answered.executeToolCalls config pending.assistantMessage true interrupted replayed

/-- The next call of the batch: its `tool_execution_start`. -/
def startCall (state : LoopState) (batch : Batch) (toolCall : AgentToolCall) (rest : List AgentToolCall) : LoopState :=
  (state.emit (.toolExecutionStart batch.calls.length toolCall)).enter (.batch
    { batch with queue := rest, calls := batch.calls ++ [⟨toolCall, .preparing⟩] })

/-- The end of a call; a sequential batch has its result message at once. -/
def endCall (state : LoopState) (batch : Batch) (call : Nat) (finalized : FinalizedToolCallOutcome) : LoopState :=
  (state.act (finalizedActions call finalized ++
    (if batch.mode = .sequential then resultActions finalized else []))).enter
    (.batch (batch.setStatus call finalized.toolCall (.ended finalized)))

def prepareCall (state : LoopState) (batch : Batch) (call : Nat) (answer : PrepareAnswer) : LoopState :=
  match batch.calls[call]? with
  | some ⟨toolCall, .preparing⟩ =>
    match prepareToolCall state.context toolCall answer state.aborted with
    | .immediate result => state.endCall batch call ⟨toolCall, result, true⟩
    | .prepared tool =>
      if batch.mode = .sequential then
        state.enter (.batch { batch.setStatus call toolCall (.running tool) with
          executed := batch.executed ++ [(toolCall, tool)] })
      else state.enter (.batch (batch.setStatus call toolCall (.prepared tool)))
  | _ => state

/-- A call of `onUpdate`. -/
def updateCall (state : LoopState) (batch : Batch) (call : Nat) (partialResult : AgentToolResult) : LoopState :=
  match batch.calls[call]? with
  | some ⟨toolCall, .running _⟩ => state.emit (.toolExecutionUpdate call toolCall partialResult)
  | _ => state

def executeCall (state : LoopState) (batch : Batch) (call : Nat) (answer : ExecuteAnswer) : LoopState :=
  match batch.calls[call]? with
  | some ⟨toolCall, .running tool⟩ =>
    state.enter (.batch (batch.setStatus call toolCall (.finishing tool answer.outcome)))
  | _ => state

def finalizeCall (state : LoopState) (batch : Batch) (call : Nat) (answer : AfterAnswer) : LoopState :=
  match batch.calls[call]? with
  | some ⟨toolCall, .finishing _ executed⟩ =>
    state.endCall batch call (finalizeExecutedToolCall toolCall executed answer)
  | _ => state

/-- The batch is over. -/
def finishBatch (state : LoopState) (batch : Batch) : LoopState :=
  state.completeBatch batch.message batch.resumed batch.executed (batch.interrupted ++ batch.finalizedCalls)
    (batch.interrupted.isEmpty && shouldTerminateToolBatch batch.finalizedCalls)

/-- The loop over the calls stops, when the signal is aborted after a call or no call is left. -/
def stopsCalls (state : LoopState) (batch : Batch) : Bool := (state.aborted && !batch.calls.isEmpty) || batch.queue.isEmpty

/-- The loop over the calls goes on: `executeToolCallsSequential` when the last call has ended. -/
def advanceSequential (state : LoopState) (batch : Batch) : LoopState :=
  if !batch.allEnded then state
  else if state.stopsCalls batch then state.finishBatch batch
  else
    match batch.queue with
    | toolCall :: rest => state.startCall batch toolCall rest
    | [] => state

/-- `executeToolCallsParallel`: when the last call is prepared, or when all have ended. -/
def advanceParallel (state : LoopState) (batch : Batch) : LoopState :=
  if batch.launched then
    if batch.allEnded then (state.act (batch.finalizedCalls.flatMap resultActions)).finishBatch batch else state
  else if !batch.nonePreparing then state
  else if state.stopsCalls batch then state.enter (.batch batch.launch)
  else
    match batch.queue with
    | toolCall :: rest => state.startCall batch toolCall rest
    | [] => state

def advance (state : LoopState) (batch : Batch) : LoopState :=
  match batch.mode with
  | .sequential => state.advanceSequential batch
  | .parallel => state.advanceParallel batch

/-! ### The response -/

/-- What the loop does with a response, or with the message of a resumed batch. -/
def handleMessage (state : LoopState) (config : LoopConfig) (message : AssistantMessage)
    (resumed : Option PendingToolCalls) : LoopState :=
  if message.stopReason = .error || message.stopReason = .aborted then
    (state.closeTurn message resumed.isSome [] []).finish
  else
    let state := { state with hasMoreToolCalls := false }
    if message.toolCalls = [] then state.endTurn message resumed.isSome [] []
    else
      match resumed with
      | some pending => state.executePendingToolCalls config pending
      | none =>
        if message.stopReason = .length then state.failToolCallsFromTruncatedMessage message
        else state.executeToolCalls config message false [] message.toolCalls

/-- The request, to where the response stream is awaited. -/
def respond (state : LoopState) (config : LoopConfig) : LoopState :=
  match state.resume with
  | some pending => { state with resume := none }.handleMessage config pending.assistantMessage (some pending)
  | none => (state.act [.request state.context.messages]).enter (.streaming none)

/-- A `start` event. -/
def startMessage (state : LoopState) (message : AssistantMessage) : LoopState :=
  ((state.pushContext (.assistant message)).emit (.messageStart (.assistant message))).enter (.streaming (some message))

/-- An event with a part of the message. -/
def updateMessage (state : LoopState) (config : LoopConfig) (message : AssistantMessage) (isToolCall : Bool) : LoopState :=
  let replaced := (state.replaceLast (.assistant message)).enter (.streaming (some message))
  if config.suppressAssistantText && !isToolCall then replaced
  else replaced.emit (.messageUpdate (.assistant message))

def suppressText (config : LoopConfig) (message : AssistantMessage) : AssistantMessage :=
  if config.suppressAssistantText then
    { message with content := message.content.filter fun
        | .toolCall _ => true
        | .block _ => false }
  else message

/-- The final message, at the end of the stream. -/
def finishMessage (state : LoopState) (config : LoopConfig) (partialMessage : Option AssistantMessage)
    (message : AssistantMessage) : LoopState :=
  let final := AgentMessage.assistant (suppressText config message)
  let started :=
    match partialMessage with
    | some _ => state.replaceLast final
    | none => (state.pushContext final).emit (.messageStart final)
  ((started.emit (.messageEnd final)).record final).handleMessage config (suppressText config message) none

/-! ### Queues and turns -/

/-- The injection of the pending messages. -/
def inject (state : LoopState) (config : LoopConfig) : LoopState :=
  let state := { state with openTurn := { state.openTurn with base := state.context.messages } }
  if state.pendingMessages = [] then state.respond config
  else if state.pendingMessagesAreSteering then state.enter .steering
  else state.enter (.delivering state.pendingMessages)

/-- One of the messages that are injected. -/
def deliver (state : LoopState) (message : AgentMessage) (rest : List AgentMessage) : LoopState :=
  let delivered := ((state.act (messageActions message)).pushContext message).record message
  { delivered with
    openTurn := { delivered.openTurn with injected := delivered.openTurn.injected ++ [message] }
    phase := .delivering rest }

/-- All are injected. -/
def delivered (state : LoopState) (config : LoopConfig) : LoopState :=
  { state with pendingMessages := [], pendingMessagesAreSteering := true }.respond config

def beginTurn (state : LoopState) (config : LoopConfig) : LoopState := (state.emit .turnStart).inject config

/-- The condition of the inner loop, and what comes next. -/
def loop (state : LoopState) (config : LoopConfig) : LoopState :=
  if state.hasMoreToolCalls || !state.pendingMessages.isEmpty then
    if state.completedTurn then state.enter .preparingNext else state.inject config
  else if state.aborted then state.finish
  else state.startPoll .followUps

def preparedInitial (state : LoopState) (config : LoopConfig) (snapshot : Option AgentContext) : LoopState :=
  let state := { state with context := snapshot.getD state.context }
  if state.resume.isSome || state.aborted then state.loop config else state.startPoll .initial

def preparedNext (state : LoopState) (config : LoopConfig) (snapshot : Option AgentContext) : LoopState :=
  let state := { state with context := snapshot.getD state.context }
  if state.pendingMessages.isEmpty && !state.aborted then state.startPoll .preparation else state.beginTurn config

def stopped (state : LoopState) (config : LoopConfig) (stop : Bool) : LoopState :=
  if stop then state.finish
  else if state.aborted then { state with pendingMessages := [] }.loop config
  else state.startPoll .turn

def polled (state : LoopState) (config : LoopConfig) (site : PollSite) (messages : List AgentMessage) : LoopState :=
  let state := { state with openTurn := { state.openTurn with polls := state.openTurn.polls ++ [Poll.mk site.queue messages] } }
  match site with
  | .initial | .turn => { state with pendingMessages := messages }.loop config
  | .preparation => { state with pendingMessages := messages }.beginTurn config
  | .followUps =>
    if messages = [] then state.finish
    else
      { state with
        pendingMessages := messages
        pendingMessagesAreSteering := false
        hasMoreToolCalls := true }.loop config

/-- `onSteeringBatch` has given the extras; none when it has failed. -/
def steered (state : LoopState) (extras : List AgentMessage) : LoopState :=
  { state with
    openTurn := { state.openTurn with extras }
    phase := .delivering (state.pendingMessages ++ extras) }

end LoopState

/-! ### Runs -/

inductive StreamEvent where
  | start (message : AssistantMessage)
  | update (message : AssistantMessage) (isToolCall : Bool)
  /-- `done`, `error` or the end of the stream, with its result. -/
  | finish (message : AssistantMessage)

inductive LoopEvent where
  | abort
  | preparedInitial (snapshot : Option AgentContext)
  | preparedNext (snapshot : Option AgentContext)
  | polled (messages : List AgentMessage)
  | steered (extras : List AgentMessage)
  | deliver
  | stream (event : StreamEvent)
  | advance
  | prepareCall (call : Nat) (answer : PrepareAnswer)
  | updateCall (call : Nat) (partialResult : AgentToolResult)
  | executeCall (call : Nat) (answer : ExecuteAnswer)
  | finalizeCall (call : Nat) (answer : AfterAnswer)
  /-- `onToolBatchCompleted` has returned, with the tools as it has left them. -/
  | completed (tools : List AgentTool)
  | stopped (stop : Bool)

/-- The events that the phase awaits; others change nothing. -/
def step (config : LoopConfig) (state : LoopState) (event : LoopEvent) : LoopState :=
  match state.phase, event with
  | _, .abort => { state.act [.abort] with aborted := true }
  | .preparingInitial, .preparedInitial snapshot => state.preparedInitial config snapshot
  | .preparingNext, .preparedNext snapshot => state.preparedNext config snapshot
  | .polling site, .polled messages => state.polled config site messages
  | .steering, .steered extras => state.steered extras
  | .delivering (message :: rest), .deliver => state.deliver message rest
  | .delivering [], .deliver => state.delivered config
  | .streaming _, .stream (.start message) => state.startMessage message
  | .streaming (some _), .stream (.update message isToolCall) => state.updateMessage config message isToolCall
  | .streaming partialMessage, .stream (.finish message) => state.finishMessage config partialMessage message
  | .batch batch, .advance => state.advance batch
  | .batch batch, .prepareCall call answer => state.prepareCall batch call answer
  | .batch batch, .updateCall call partialResult => state.updateCall batch call partialResult
  | .batch batch, .executeCall call answer => state.executeCall batch call answer
  | .batch batch, .finalizeCall call answer => state.finalizeCall batch call answer
  | .completing message resumed executed results, .completed tools =>
    { state with context := { state.context with tools } }.endTurn message resumed executed results
  | .stopping, .stopped stop => state.stopped config stop
  | _, _ => state

/-- `runLoop` after `agent_start`, `turn_start` and the prompts. -/
def initial (context : AgentContext) (prompts : List AgentMessage) (resume : Option PendingToolCalls) : LoopState where
  context := { context with messages := context.messages ++ prompts }
  newMessages := prompts
  pendingMessages := []
  pendingMessagesAreSteering := true
  hasMoreToolCalls := true
  completedTurn := false
  resume
  aborted := false
  phase := .preparingInitial
  trace := [.emit .agentStart, .emit .turnStart] ++ prompts.flatMap messageActions
  openTurn := .empty true
  turns := []

/-- How a run is started. -/
inductive Entry where
  /-- `runAgentLoop`. -/
  | prompts (prompts : List AgentMessage)
  /-- `runAgentLoopContinue`. -/
  | continue
  /-- `runAgentLoopResume`. -/
  | resume
  deriving DecidableEq

/-- The messages that the run is started with. -/
def Entry.messages : Entry → List AgentMessage
  | .prompts messages => messages
  | .continue | .resume => []

def AgentMessage.isAssistant : AgentMessage → Bool
  | .assistant _ => true
  | _ => false

/-- The start of a run; nothing when it throws. -/
def start (context : AgentContext) : Entry → Option LoopState
  | .prompts prompts => some (initial context prompts none)
  | .continue =>
    match context.messages.getLast? with
    | none => none
    | some message => if message.isAssistant then none else some (initial context [] none)
  | .resume => (findPendingToolCalls context.messages).map fun pending => initial context [] (some pending)

def run (config : LoopConfig) (state : LoopState) (events : List LoopEvent) : LoopState :=
  events.foldl (step config) state

end PiRp.AgentLoop
