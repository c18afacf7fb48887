import PiRp.AgentLoop

/-! `packages/agent/src/agent.ts`: the queues of an agent, the calls that start runs, and the run that is active, with
the agent loop as its state. What the calls and callbacks do, and when, are the inputs. Assignments to `state`, which
replace the transcript, and listeners, which only read, are left out. -/

namespace PiRp.AgentLoop

/-! ### Queues -/

inductive QueueMode where
  | all
  | oneAtATime

structure PendingMessageQueue where
  messages : List AgentMessage
  mode : QueueMode

namespace PendingMessageQueue

def enqueue (queue : PendingMessageQueue) (message : AgentMessage) : PendingMessageQueue :=
  { queue with messages := queue.messages ++ [message] }

/-- What `drain` gives. -/
def drained (queue : PendingMessageQueue) : List AgentMessage :=
  match queue.mode with
  | .all => queue.messages
  | .oneAtATime => queue.messages.take 1

/-- What `drain` leaves. -/
def drain (queue : PendingMessageQueue) : PendingMessageQueue :=
  match queue.mode with
  | .all => { queue with messages := [] }
  | .oneAtATime => { queue with messages := queue.messages.drop 1 }

def clear (queue : PendingMessageQueue) : PendingMessageQueue := { queue with messages := [] }

theorem drained_append (queue : PendingMessageQueue) : queue.drained ++ queue.drain.messages = queue.messages := by
  unfold drained drain
  cases queue.mode with
  | all => exact List.append_nil _
  | oneAtATime => exact List.take_append_drop 1 queue.messages

end PendingMessageQueue

/-! ### The agent -/

/-- What was polled and is not injected yet. -/
def LoopState.held (state : LoopState) : List AgentMessage :=
  (state.openTurn.polls.flatMap Poll.messages).drop state.openTurn.injected.length

structure ActiveRun where
  loop : LoopState
  /-- The prompts that have not been emitted. -/
  prompts : List AgentMessage
  /-- Those of them that come from a queue. -/
  queued : List AgentMessage
  skipInitialSteeringPoll : Bool
  /-- What the queue has given to the poll that the loop awaits. -/
  polled : Option (List AgentMessage)

/-- What the run has taken from the queues and not appended yet. -/
def ActiveRun.held (run : ActiveRun) : List AgentMessage := run.queued ++ run.polled.getD [] ++ run.loop.held

structure Agent where
  messages : List AgentMessage
  tools : List AgentTool
  queues : Queue → PendingMessageQueue
  activeRun : Option ActiveRun
  /-- The batches of the calls of `continue` that await `onSteeringBatch`. -/
  continuing : List (List AgentMessage)
  /-- All messages that `steer` and `followUp` were called with. -/
  passed : Queue → List AgentMessage
  /-- What was cleared from the queues. -/
  removed : Queue → List AgentMessage
  /-- The transcripts that were reset. -/
  forgotten : List AgentMessage

namespace Agent

def new (messages : List AgentMessage) (tools : List AgentTool) (steeringMode followUpMode : QueueMode) : Agent where
  messages
  tools
  queues
    | .steering => ⟨[], steeringMode⟩
    | .followUp => ⟨[], followUpMode⟩
  activeRun := none
  continuing := []
  passed _ := []
  removed _ := []
  forgotten := []

/-- No run is active, and no call is about to start one. -/
def Idle (agent : Agent) : Prop := agent.activeRun = none ∧ agent.continuing = []

def held (agent : Agent) : List AgentMessage :=
  agent.continuing.flatten ++ (agent.activeRun.map ActiveRun.held).getD []

def setQueue (agent : Agent) (name : Queue) (queue : PendingMessageQueue) : Agent :=
  { agent with queues := Function.update agent.queues name queue }

/-- `steer` and `followUp`. -/
def enqueue (agent : Agent) (name : Queue) (message : AgentMessage) : Agent :=
  { agent.setQueue name ((agent.queues name).enqueue message) with
    passed := Function.update agent.passed name (agent.passed name ++ [message]) }

/-- `clearSteeringQueue` and `clearFollowUpQueue`. -/
def clearQueue (agent : Agent) (name : Queue) : Agent :=
  { agent.setQueue name (agent.queues name).clear with
    removed := Function.update agent.removed name (agent.removed name ++ (agent.queues name).messages) }

/-- Nothing when it throws. -/
def reset (agent : Agent) : Agent :=
  if agent.activeRun.isSome then agent
  else
    let forgetful := { agent with messages := [], forgotten := agent.forgotten ++ agent.messages }
    (forgetful.clearQueue .followUp).clearQueue .steering

/-! ### Starting runs -/

/-- `runWithLifecycle`, with the messages of the queues that its prompts start with. -/
def startRun (agent : Agent) (entry : Entry) (queued : List AgentMessage) (skipInitialSteeringPoll : Bool) : Agent :=
  match agent.activeRun, start ⟨agent.messages, agent.tools⟩ entry with
  | none, some loop =>
    { agent with activeRun := some ⟨loop, entry.messages, queued, skipInitialSteeringPoll, none⟩ }
  | _, _ => agent

/-- `continue` after an assistant message. -/
def continueQueued (agent : Agent) : Agent :=
  let steering := agent.queues .steering
  let steered := agent.setQueue .steering steering.drain
  if steering.drained ≠ [] then { steered with continuing := steered.continuing ++ [steering.drained] }
  else
    let followUps := steered.queues .followUp
    let followed := steered.setQueue .followUp followUps.drain
    if followUps.drained ≠ [] then followed.startRun (.prompts followUps.drained) followUps.drained false else followed

def continueRun (agent : Agent) : Agent :=
  if agent.activeRun.isSome then agent
  else
    match agent.messages.getLast? with
    | none => agent
    | some message => if message.isAssistant then agent.continueQueued else agent.startRun .continue [] false

/-- `onSteeringBatch` has given the extras to a call of `continue`. -/
def continueBatch (agent : Agent) (call : Nat) (extras : List AgentMessage) : Agent :=
  match agent.continuing[call]? with
  | none => agent
  | some batch =>
    { agent with continuing := agent.continuing.eraseIdx call }.startRun (.prompts (batch ++ extras)) batch true

/-! ### The active run -/

/-- The messages of `message_end` events. -/
def endedMessages (actions : List Action) : List AgentMessage :=
  actions.filterMap fun
    | .emit (.messageEnd message) => some message
    | _ => none

/-- The loop has taken a step, and `processEvents` its events. -/
def advance (agent : Agent) (run : ActiveRun) (loop : LoopState) : Agent :=
  { agent with
    messages := agent.messages ++ endedMessages (loop.trace.drop run.loop.trace.length)
    activeRun := some { run with loop } }

/-- `getSteeringMessages` and `getFollowUpMessages`. -/
def poll (agent : Agent) (run : ActiveRun) (name : Queue) : Agent :=
  if name = .steering && run.skipInitialSteeringPoll then
    { agent with activeRun := some { run with skipInitialSteeringPoll := false, polled := some [] } }
  else
    { agent.setQueue name (agent.queues name).drain with
      activeRun := some { run with polled := some (agent.queues name).drained } }

/-- The poll that the loop has started. -/
def settle (agent : Agent) : Agent :=
  match agent.activeRun with
  | none => agent
  | some run =>
    match run.loop.phase, run.polled with
    | .polling site, none => agent.poll run site.queue
    | _, _ => agent

/-- The next prompt. -/
def emitPrompt (agent : Agent) : Agent :=
  match agent.activeRun with
  | none => agent
  | some run =>
    match run.prompts with
    | [] => agent
    | message :: rest =>
      { agent with
        messages := agent.messages ++ [message]
        activeRun := some { run with prompts := rest, queued := run.queued.tail } }

/-- The loop goes on with the answer of its poll. -/
def answerPoll (agent : Agent) (config : LoopConfig) : Agent :=
  match agent.activeRun with
  | none => agent
  | some run =>
    match run.polled with
    | none => agent
    | some messages =>
      (agent.advance { run with polled := none } (step config run.loop (.polled messages))).settle

/-- The events of the loop that are not the agent's. -/
def isOwn : LoopEvent → Bool
  | .abort | .polled _ => false
  | _ => true

def loopEvent (agent : Agent) (config : LoopConfig) (event : LoopEvent) : Agent :=
  match agent.activeRun with
  | none => agent
  | some run =>
    if run.prompts = [] && isOwn event then (agent.advance run (step config run.loop event)).settle else agent

def abort (agent : Agent) (config : LoopConfig) : Agent :=
  match agent.activeRun with
  | none => agent
  | some run => { agent with activeRun := some { run with loop := step config run.loop .abort } }

/-- `finishRun`, when the loop has returned. -/
def finishRun (agent : Agent) : Agent :=
  match agent.activeRun with
  | none => agent
  | some run =>
    match run.prompts, run.loop.phase with
    | [], .finished => { agent with activeRun := none }
    | _, _ => agent

/-- A callback or a listener has thrown: `handleRunFailure`, whose message is missing when a listener throws again. -/
def failRun (agent : Agent) (failure : Option AssistantMessage) : Agent :=
  match agent.activeRun with
  | none => agent
  | some _ => { agent with messages := agent.messages ++ failure.toList.map .assistant, activeRun := none }

end Agent

inductive AgentInput where
  | prompt (messages : List AgentMessage)
  | continue
  | resumePendingToolCalls
  | enqueue (name : Queue) (message : AgentMessage)
  | clearQueue (name : Queue)
  | setMode (name : Queue) (mode : QueueMode)
  | reset
  | abort
  | continueBatch (call : Nat) (extras : List AgentMessage)
  | emitPrompt
  | answerPoll
  | loopEvent (event : LoopEvent)
  | failRun (failure : Option AssistantMessage)
  | finishRun

namespace Agent

/-- Calls that throw change nothing. -/
def step (config : LoopConfig) (agent : Agent) : AgentInput → Agent
  | .prompt messages => agent.startRun (.prompts messages) [] false
  | .continue => agent.continueRun
  | .resumePendingToolCalls => agent.startRun .resume [] false
  | .enqueue name message => agent.enqueue name message
  | .clearQueue name => agent.clearQueue name
  | .setMode name mode => agent.setQueue name { agent.queues name with mode }
  | .reset => agent.reset
  | .abort => agent.abort config
  | .continueBatch call extras => agent.continueBatch call extras
  | .emitPrompt => agent.emitPrompt
  | .answerPoll => agent.answerPoll config
  | .loopEvent event => agent.loopEvent config event
  | .failRun failure => agent.failRun failure
  | .finishRun => agent.finishRun

def run (config : LoopConfig) (agent : Agent) (inputs : List AgentInput) : Agent := inputs.foldl (step config) agent

end Agent

end PiRp.AgentLoop
