import PiRp.AgentLoop
import PiRp.EventRun

/-! What the agent loop has made of its turns: the messages that were polled from the queues are delivered once, in
their order, before the request of the turn; and the new messages are those of the turns. -/

namespace PiRp.AgentLoop

open List

/-! ### The record of a turn -/

/-- Polls of one turn: only one gives messages, and follow-ups are polled only when the loop would otherwise stop,
after steering messages and not after a batch that goes on. -/
structure OrderlyPolls (afterToolCalls : Bool) (polls : List Poll) : Prop where
  once : ∀ before poll after, polls = before ++ poll :: after → poll.messages ≠ [] →
    ∀ other ∈ before ++ after, other.messages = []
  followUps : ∀ before poll after, polls = before ++ poll :: after → poll.queue = .followUp →
    afterToolCalls = false ∧ before ≠ [] ∧ ∀ earlier ∈ before, earlier.queue = .steering ∧ earlier.messages = []

def OpenTurn.polled (turn : OpenTurn) : List AgentMessage := turn.polls.flatMap Poll.messages

/-- What was polled and what `onSteeringBatch` has added is what was injected. -/
structure OpenTurn.Delivered (turn : OpenTurn) : Prop where
  polls : OrderlyPolls turn.afterToolCalls turn.polls
  injected : turn.injected = turn.polled ++ turn.extras

/-- The message of a turn as a new message; that of a resumed batch is none. -/
def ownMessages (message : AssistantMessage) (resumed : Bool) : List AgentMessage :=
  if resumed then [] else [.assistant message]

def Turn.messages (turn : Turn) : List AgentMessage :=
  turn.injected ++ ownMessages turn.message turn.resumed ++ turn.results.map .toolResult

/-- The messages that the model was requested with. -/
def requestOf (turn : OpenTurn) (resumed : Bool) : List (List AgentMessage) :=
  if resumed then [] else [turn.base ++ turn.injected]

def Turn.requests (turn : Turn) : List (List AgentMessage) := requestOf turn.toOpenTurn turn.resumed

def Action.request? : Action → Option (List AgentMessage)
  | .request messages => some messages
  | _ => none

def Action.isEvent : Action → Bool
  | .emit _ => true
  | _ => false

/-- What the loop has done: the requests, and no poll is started after the abort. -/
structure Traced (trace : List Action) (aborted : Bool) (requests : List (List AgentMessage)) : Prop where
  requests : trace.filterMap Action.request? = requests
  polls : ∀ before queue after, trace = before ++ .poll queue :: after → .abort ∉ before
  abort : aborted = false → .abort ∉ trace

namespace Traced

variable {trace actions : List Action} {aborted : Bool} {requests : List (List AgentMessage)}

variable (htrac : Traced trace aborted requests)

include htrac

theorem append {action : Action} {aborted' : Bool} (hpoll : ∀ queue, action = .poll queue → aborted = false)
    (habort : aborted' = false → aborted = false ∧ action ≠ .abort) :
    Traced (trace ++ [action]) aborted' (requests ++ action.request?.toList) := by
  refine ⟨?_, fun before queue after hsplit => ?_, fun habor hmem => ?_⟩
  · rw [filterMap_append, htrac.requests]
    cases hreq : action.request? with
    | none => rw [filterMap_cons_none hreq]; rfl
    | some messages => rw [filterMap_cons_some hreq]; rfl
  · rcases eq_nil_or_concat after with rfl | ⟨rest, last, rfl⟩
    · obtain ⟨rfl, hsame⟩ := append_inj' hsplit rfl
      exact htrac.abort (hpoll queue (List.cons.inj hsame).1)
    · rw [concat_eq_append, ← cons_append, ← append_assoc] at hsplit
      obtain ⟨hbef, _⟩ := append_inj' hsplit rfl
      exact htrac.polls before queue rest hbef
  · obtain ⟨hbef, hother⟩ := habort habor
    rcases mem_append.mp hmem with hold | hnew
    · exact htrac.abort hbef hold
    · exact hother (mem_singleton.mp hnew).symm

theorem poll (habor : aborted = false) (queue : Queue) : Traced (trace ++ [Action.poll queue]) aborted requests := by
  have hpol : Traced (trace ++ [Action.poll queue]) aborted (requests ++ []) :=
    htrac.append (fun _ _ => habor) fun hsame => ⟨hsame, nofun⟩
  rw [append_nil] at hpol
  exact hpol

theorem emit (event : AgentEvent) : Traced (trace ++ [Action.emit event]) aborted requests := by
  have hemit : Traced (trace ++ [Action.emit event]) aborted (requests ++ []) :=
    htrac.append nofun fun hsame => ⟨hsame, nofun⟩
  rw [append_nil] at hemit
  exact hemit

theorem act (heven : ∀ action ∈ actions, action.isEvent = true) : Traced (trace ++ actions) aborted requests := by
  induction actions generalizing trace with
  | nil =>
    rw [append_nil]
    exact htrac
  | cons action actions ih =>
    have hfirst := heven action mem_cons_self
    cases action with
    | emit event =>
      rw [← singleton_append, ← append_assoc]
      exact ih (htrac.emit event) fun other hother => heven other (mem_cons_of_mem _ hother)
    | poll queue => exact absurd hfirst nofun
    | request messages => exact absurd hfirst nofun
    | abort => exact absurd hfirst nofun

end Traced

namespace OrderlyPolls

variable {afterToolCalls : Bool} {polls : List Poll}

theorem nil : OrderlyPolls afterToolCalls [] :=
  ⟨fun _ _ _ hsplit => absurd hsplit.symm (append_ne_nil_of_right_ne_nil _ (cons_ne_nil _ _)),
    fun _ _ _ hsplit => absurd hsplit.symm (append_ne_nil_of_right_ne_nil _ (cons_ne_nil _ _))⟩

theorem append (hord : OrderlyPolls afterToolCalls polls) {last : Poll} (hempty : ∀ poll ∈ polls, poll.messages = [])
    (hlast : last.queue = .followUp → afterToolCalls = false ∧ polls ≠ [] ∧ ∀ poll ∈ polls, poll.queue = .steering) :
    OrderlyPolls afterToolCalls (polls ++ [last]) := by
  constructor
  · intro before poll after hsplit hpoll other hother
    rcases eq_nil_or_concat after with rfl | ⟨rest, final, rfl⟩
    · obtain ⟨rfl, _⟩ := append_inj' hsplit rfl
      rw [append_nil] at hother
      exact hempty other hother
    · rw [concat_eq_append, ← cons_append, ← append_assoc] at hsplit
      obtain ⟨hbef, _⟩ := append_inj' hsplit rfl
      exact absurd (hempty poll (hbef ▸ by simp)) hpoll
  · intro before poll after hsplit hpoll
    rcases eq_nil_or_concat after with rfl | ⟨rest, final, rfl⟩
    · obtain ⟨rfl, hsame⟩ := append_inj' hsplit rfl
      obtain rfl := (List.cons.inj hsame).1
      obtain ⟨hafter, hsome, hsteer⟩ := hlast hpoll
      exact ⟨hafter, hsome, fun earlier hear => ⟨hsteer earlier hear, hempty earlier hear⟩⟩
    · rw [concat_eq_append, ← cons_append, ← append_assoc] at hsplit
      obtain ⟨hbef, _⟩ := append_inj' hsplit rfl
      exact hord.followUps before poll rest hbef hpoll

theorem singleton (messages : List AgentMessage) : OrderlyPolls afterToolCalls [⟨.steering, messages⟩] :=
  nil.append (fun _ hmem => absurd hmem not_mem_nil) nofun

end OrderlyPolls

/-! ### What holds in each phase -/

/-- The queues: what was polled since the last turn is pending, about to be delivered, or injected. -/
def Queued (state : LoopState) : Prop :=
  match state.phase with
  | .preparingInitial | .polling .initial =>
    state.openTurn = .empty true ∧ state.pendingMessages = [] ∧ state.hasMoreToolCalls = true
  | .stopping | .polling .turn =>
    state.openTurn = .empty state.hasMoreToolCalls ∧ state.pendingMessages = []
  | .preparingNext =>
    ∃ polls, state.openTurn = { OpenTurn.empty state.openTurn.afterToolCalls with polls } ∧
      OrderlyPolls state.openTurn.afterToolCalls polls ∧ state.pendingMessages = state.openTurn.polled
  | .polling .preparation =>
    ∃ polls, state.openTurn = { OpenTurn.empty state.openTurn.afterToolCalls with polls } ∧
      OrderlyPolls state.openTurn.afterToolCalls polls ∧ ∀ poll ∈ polls, poll.messages = []
  | .polling .followUps =>
    state.openTurn = { OpenTurn.empty false with polls := [⟨.steering, []⟩] } ∧ state.pendingMessages = []
  | .steering =>
    ∃ polls, state.openTurn = ⟨state.openTurn.afterToolCalls, polls, state.context.messages, [], []⟩ ∧
      OrderlyPolls state.openTurn.afterToolCalls polls ∧ state.pendingMessages = state.openTurn.polled
  | .delivering rest =>
    OrderlyPolls state.openTurn.afterToolCalls state.openTurn.polls ∧
      state.openTurn.injected ++ rest = state.openTurn.polled ++ state.openTurn.extras ∧
      state.context.messages = state.openTurn.base ++ state.openTurn.injected
  | .streaming _ | .batch _ | .completing _ _ _ _ => state.openTurn.Delivered ∧ state.pendingMessages = []
  | .finished => state.openTurn.polled = [] ∧ state.openTurn.injected = []

/-- The messages of the turn that goes on. -/
def Phase.messages : Phase → List AgentMessage
  | .batch running => ownMessages running.message running.resumed
  | .completing message resumed _ results => ownMessages message resumed ++ results.map .toolResult
  | _ => []

/-- The request of the turn that goes on. -/
def Phase.requests (turn : OpenTurn) : Phase → List (List AgentMessage)
  | .streaming _ => requestOf turn false
  | .batch running => requestOf turn running.resumed
  | .completing _ resumed _ _ => requestOf turn resumed
  | _ => []

/-- Whether the turn that goes on is that of a resumed batch. -/
def Phase.resumed : Phase → List Bool
  | .streaming _ => [false]
  | .batch running => [running.resumed]
  | .completing _ resumed _ _ => [resumed]
  | _ => []

/-- What a run is started with, and the polls that it has been answered. -/
structure Origin where
  prompts : List AgentMessage
  resume : Option PendingToolCalls
  polls : List Poll

def Origin.answer (origin : Origin) (polls : List Poll) : Origin := { origin with polls := origin.polls ++ polls }

/-- Only the first turn is that of a resumed batch. -/
def Order (origin resume : Option PendingToolCalls) : List Bool → Prop
  | [] => resume = origin
  | first :: others => resume = none ∧ first = origin.isSome ∧ ∀ other ∈ others, other = false

variable {resume : Option PendingToolCalls} {resumed : List Bool}

theorem Order.respond {origin : Option PendingToolCalls}
    (horder : Order origin resume resumed) : Order origin none (resumed ++ [resume.isSome]) := by
  cases resumed with
  | nil => exact ⟨rfl, congrArg Option.isSome horder, fun other hother => absurd hother not_mem_nil⟩
  | cons first others =>
    obtain ⟨hnone, hfirst, hoth⟩ := horder
    refine ⟨rfl, hfirst, fun other hother => ?_⟩
    rcases mem_append.mp hother with hold | hnew
    · exact hoth other hold
    · rw [mem_singleton.mp hnew, hnone]
      rfl

theorem Order.head {origin : Option PendingToolCalls} {turns : List Turn}
    (horder : Order origin resume (turns.map Turn.resumed ++ resumed)) {turn : Turn} (hturn : turn ∈ turns.head?) :
    turn.resumed = origin.isSome := by
  cases turns with
  | nil => exact absurd hturn nofun
  | cons first others =>
    obtain rfl := Option.some.inj hturn
    exact horder.2.1

theorem Order.tail {origin : Option PendingToolCalls} {turns : List Turn}
    (horder : Order origin resume (turns.map Turn.resumed ++ resumed)) {turn : Turn} (hturn : turn ∈ turns.tail) :
    turn.resumed = false := by
  cases turns with
  | nil => exact absurd hturn not_mem_nil
  | cons first others => exact horder.2.2 turn.resumed (mem_append_left _ (mem_map_of_mem hturn))

/-- The record of the turns goes with the new messages and the requests. -/
structure Recorded (origin : Origin) (state : LoopState) (own : List AgentMessage)
    (requests : List (List AgentMessage)) (resumed : List Bool) : Prop where
  turns : ∀ turn ∈ state.turns, turn.Delivered
  newMessages : state.newMessages = origin.prompts ++ state.turns.flatMap Turn.messages ++ state.openTurn.injected ++ own
  traced : Traced state.trace state.aborted (state.turns.flatMap Turn.requests ++ requests)
  order : Order origin.resume state.resume (state.turns.map Turn.resumed ++ resumed)
  polls : (state.turns.flatMap fun turn => turn.polls) ++ state.openTurn.polls = origin.polls

/-- What holds of every state of a run. -/
structure Kept (origin : Origin) (state : LoopState) : Prop where
  queued : Queued state
  recorded : Recorded origin state state.phase.messages (state.phase.requests state.openTurn) state.phase.resumed

/-! ### The steps -/

section Steps

variable {origin : Origin} {state : LoopState} {config : LoopConfig} {message : AssistantMessage}
  {resumed : Bool} {executed : List (AgentToolCall × AgentTool)}

/-- The response of the turn has been requested. -/
structure Responding (origin : Origin) (state : LoopState) (own : List AgentMessage) (resumed : Bool) : Prop where
  opened : state.openTurn.Delivered
  pending : state.pendingMessages = []
  recorded : Recorded origin state own (requestOf state.openTurn resumed) [resumed]

/-- No turn is open. -/
structure Closed (origin : Origin) (state : LoopState) : Prop where
  opened : state.openTurn = .empty state.hasMoreToolCalls
  pending : state.pendingMessages = []
  recorded : Recorded origin state [] [] []

variable {own : List AgentMessage}

theorem Recorded.act {requests : List (List AgentMessage)} {flags : List Bool}
    (hrec : Recorded origin state own requests flags) {actions : List Action}
    (heven : ∀ action ∈ actions, action.isEvent = true) : Recorded origin (state.act actions) own requests flags :=
  { hrec with traced := hrec.traced.act heven }

theorem Closed.finish (hclos : Closed origin state) : Kept origin state.finish := by
  refine ⟨?_, { hclos.recorded with newMessages := ?_, traced := ?_ }⟩
  · show state.openTurn.polled = [] ∧ state.openTurn.injected = []
    rw [hclos.opened]
    exact ⟨rfl, rfl⟩
  · exact hclos.recorded.newMessages
  · exact hclos.recorded.traced.emit _

variable {results : List ToolResultMessage}

theorem Responding.closeTurn (hresp : Responding origin state
      (ownMessages message resumed ++ results.map .toolResult) resumed) :
    Closed origin (state.closeTurn message resumed executed results) := by
  refine ⟨rfl, hresp.pending, fun turn hturn => ?_, ?_, ?_, ?_, ?_⟩
  · rcases mem_append.mp hturn with hold | hnew
    · exact hresp.recorded.turns turn hold
    · rw [mem_singleton.mp hnew]
      exact hresp.opened
  · refine hresp.recorded.newMessages.trans ?_
    show _ = origin.prompts ++ (state.turns ++ [_]).flatMap Turn.messages ++ [] ++ []
    rw [flatMap_append, flatMap_singleton, Turn.messages]
    simp only [append_assoc, append_nil]
  · have htrac := hresp.recorded.traced.emit (.turnEnd message results)
    show Traced _ _ ((state.turns ++ [_]).flatMap Turn.requests ++ [])
    rw [flatMap_append, flatMap_singleton, Turn.requests, append_nil]
    exact htrac
  · show Order _ _ ((state.turns ++ [_]).map Turn.resumed ++ [])
    rw [map_append, append_nil]
    exact hresp.recorded.order
  · show (state.turns ++ [_]).flatMap _ ++ [] = origin.polls
    rw [flatMap_append, flatMap_singleton, append_nil]
    exact hresp.recorded.polls

theorem Responding.endTurn (hresp : Responding origin state
      (ownMessages message resumed ++ results.map .toolResult) resumed) :
    Kept origin (state.endTurn message resumed executed results) := by
  have hclos : Closed origin (state.closeTurn message resumed executed results) := hresp.closeTurn
  exact ⟨⟨hclos.opened, hclos.pending⟩, { hclos.recorded with }⟩

theorem Responding.completeBatch (hresp : Responding origin state (ownMessages message resumed) resumed)
    (finalized : List FinalizedToolCallOutcome) (terminate : Bool) :
    Kept origin (state.completeBatch message resumed executed finalized terminate) := by
  refine ⟨⟨hresp.opened, hresp.pending⟩, { hresp.recorded with newMessages := ?_ }⟩
  show state.newMessages ++ _ = _ ++ (ownMessages message resumed ++ _)
  rw [hresp.recorded.newMessages, append_assoc]
  rfl

theorem Responding.act (hresp : Responding origin state own resumed)
    {actions : List Action} (heven : ∀ action ∈ actions, action.isEvent = true) :
    Responding origin (state.act actions) own resumed :=
  ⟨hresp.opened, hresp.pending, hresp.recorded.act heven⟩

theorem Responding.answerCalls (hresp : Responding origin state own resumed)
    (finalized : List FinalizedToolCallOutcome) : Responding origin (state.answerCalls finalized) own resumed := by
  apply hresp.act
  intro action hact
  obtain ⟨entry, _, hmem⟩ := mem_flatMap.mp hact
  simp only [unexecutedActions, finalizedActions, resultActions, messageActions, mem_cons, mem_append,
    not_mem_nil, or_false] at hmem
  rcases hmem with rfl | rfl | rfl | rfl
  · rfl
  · rfl
  · rfl
  · rfl

theorem Responding.executeToolCalls (hresp : Responding origin state (ownMessages message resumed) resumed)
    (interrupted : List FinalizedToolCallOutcome) (toolCalls : List AgentToolCall) :
    Kept origin (state.executeToolCalls config message resumed interrupted toolCalls) :=
  ⟨⟨hresp.opened, hresp.pending⟩, { hresp.recorded with }⟩

theorem Responding.handleMessage (pending : Option PendingToolCalls)
    (hmsg : ∀ found ∈ pending, found.assistantMessage = message)
    (hresp : Responding origin state (ownMessages message pending.isSome) pending.isSome) :
    Kept origin (state.handleMessage config message pending) := by
  have hends : Responding origin state
      (ownMessages message pending.isSome ++ ([] : List ToolResultMessage).map .toolResult) pending.isSome := by
    rw [map_nil, append_nil]
    exact hresp
  unfold LoopState.handleMessage
  dsimp only
  split
  · exact hends.closeTurn.finish
  · split
    · have hstop : Responding origin { state with hasMoreToolCalls := false }
          (ownMessages message pending.isSome ++ ([] : List ToolResultMessage).map .toolResult) pending.isSome :=
        ⟨hends.opened, hends.pending, { hends.recorded with }⟩
      exact hstop.endTurn
    · have hopen : Responding origin { state with hasMoreToolCalls := false }
          (ownMessages message pending.isSome) pending.isSome :=
        ⟨hresp.opened, hresp.pending, { hresp.recorded with }⟩
      split
      · next found =>
        obtain rfl := hmsg found rfl
        unfold LoopState.executePendingToolCalls
        dsimp only
        split_ifs
        · exact (hopen.answerCalls _).completeBatch _ _
        · exact (hopen.answerCalls _).executeToolCalls _ _
      · split
        · exact (hopen.answerCalls _).completeBatch _ _
        · exact hopen.executeToolCalls _ _

theorem Recorded.respond (hopened : state.openTurn.Delivered) (hpend : state.pendingMessages = [])
    (hcon : state.context.messages = state.openTurn.base ++ state.openTurn.injected)
    (hrec : Recorded origin state [] [] []) : Kept origin (state.respond config) := by
  have horder := hrec.order.respond
  rw [append_nil] at horder
  unfold LoopState.respond
  split
  · next pending hresume =>
    rw [hresume] at horder
    refine Responding.handleMessage (some pending) (fun found hfound => ?_) ⟨hopened, hpend, { hrec with order := horder }⟩
    rw [Option.some.inj hfound]
  · next hresume =>
    rw [hresume] at horder
    refine ⟨⟨hopened, hpend⟩, hrec.turns, hrec.newMessages, ?_, ?_, hrec.polls⟩
    · have htrac : Traced (state.trace ++ [Action.request state.context.messages]) state.aborted
          (state.turns.flatMap Turn.requests ++ [] ++ [state.context.messages]) :=
        hrec.traced.append nofun fun hsame => ⟨hsame, nofun⟩
      rw [append_nil, hcon] at htrac
      show Traced (state.trace ++ [Action.request state.context.messages]) state.aborted _
      rw [hcon]
      exact htrac
    · show Order origin.resume state.resume (state.turns.map Turn.resumed ++ [false])
      rw [hresume]
      exact horder

/-- What was polled since the last turn is pending. -/
structure Ready (origin : Origin) (state : LoopState) : Prop where
  opened : ∃ polls, state.openTurn = { OpenTurn.empty state.openTurn.afterToolCalls with polls } ∧
    OrderlyPolls state.openTurn.afterToolCalls polls
  pending : state.pendingMessages = state.openTurn.polled
  recorded : Recorded origin state [] [] []

section

variable (hready : Ready origin state)

include hready

theorem Ready.inject : Kept origin (state.inject config) := by
  obtain ⟨polls, hopened, hord⟩ := hready.opened
  have hinj : state.openTurn.injected = [] := by
    rw [hopened]
    rfl
  have hext : state.openTurn.extras = [] := by
    rw [hopened]
    rfl
  have hpolls : OrderlyPolls state.openTurn.afterToolCalls state.openTurn.polls := by
    have hsame : state.openTurn.polls = polls := by
      rw [hopened]
    rw [hsame]
    exact hord
  unfold LoopState.inject
  dsimp only
  split_ifs with hnone
  · refine Recorded.respond ⟨hpolls, ?_⟩ hnone ?_
      { hready.recorded with }
    · show state.openTurn.injected = state.openTurn.polled ++ state.openTurn.extras
      rw [← hready.pending, hinj, hnone, hext]
      rfl
    · show state.context.messages = state.context.messages ++ state.openTurn.injected
      rw [hinj, append_nil]
  · refine ⟨⟨polls, ?_, hord, hready.pending⟩, { hready.recorded with }⟩
    show { state.openTurn with base := state.context.messages } = _
    rw [hopened]
    rfl
  · refine ⟨⟨hpolls, ?_, ?_⟩, { hready.recorded with }⟩
    · show state.openTurn.injected ++ state.pendingMessages = state.openTurn.polled ++ state.openTurn.extras
      rw [hinj, hext, append_nil]
      exact hready.pending
    · show state.context.messages = state.context.messages ++ state.openTurn.injected
      rw [hinj, append_nil]

theorem Ready.beginTurn : Kept origin (state.beginTurn config) := by
  apply Ready.inject
  exact ⟨hready.opened, hready.pending, { hready.recorded with traced := hready.recorded.traced.emit _ }⟩

theorem Ready.loop
    (hstops : state.hasMoreToolCalls = false → state.pendingMessages = [] → state.aborted = false →
      state.openTurn = { OpenTurn.empty false with polls := [⟨.steering, []⟩] }) :
    Kept origin (state.loop config) := by
  obtain ⟨polls, hopened, hord⟩ := hready.opened
  unfold LoopState.loop
  split_ifs with hmore _ habor
  · exact ⟨⟨polls, hopened, hord, hready.pending⟩, { hready.recorded with }⟩
  · exact hready.inject
  · have hnone : state.pendingMessages = [] := by
      rw [Bool.or_eq_true, not_or, Bool.not_eq_true, Bool.not_eq_true', Bool.not_eq_false] at hmore
      exact List.isEmpty_iff.mp hmore.2
    refine ⟨⟨hready.pending.symm.trans hnone, ?_⟩, { hready.recorded with traced := hready.recorded.traced.emit _ }⟩
    show state.openTurn.injected = []
    rw [hopened]
    rfl
  · rw [Bool.or_eq_true, not_or, Bool.not_eq_true, Bool.not_eq_true', Bool.not_eq_false] at hmore
    have hnone : state.pendingMessages = [] := List.isEmpty_iff.mp hmore.2
    rw [Bool.not_eq_true] at habor
    exact ⟨⟨hstops hmore.1 hnone habor, hnone⟩, { hready.recorded with traced := hready.recorded.traced.poll habor _ }⟩

end

/-- The phase has no turn that goes on. -/
structure Phase.Unopened (phase : Phase) : Prop where
  messages : phase.messages = []
  requests : ∀ turn, phase.requests turn = []
  resumed : phase.resumed = []

theorem Kept.unopened (hkept : Kept origin state) {phase : Phase} (hphase : state.phase = phase)
    (hunop : phase.Unopened) : Recorded origin state [] [] [] := by
  have hrec := hkept.recorded
  rw [hphase, hunop.messages, hunop.requests, hunop.resumed] at hrec
  exact hrec

theorem Recorded.ready {pendingMessages : List AgentMessage} (hrec : Recorded origin state [] [] [])
    (hopened : ∃ polls, state.openTurn = { OpenTurn.empty state.openTurn.afterToolCalls with polls } ∧
      OrderlyPolls state.openTurn.afterToolCalls polls) (hpend : pendingMessages = state.openTurn.polled)
    (context : AgentContext) (pendingMessagesAreSteering hasMoreToolCalls : Bool) :
    Ready origin { state with context, pendingMessages, pendingMessagesAreSteering, hasMoreToolCalls } :=
  ⟨hopened, hpend, { hrec with }⟩

theorem Recorded.polled (hrec : Recorded origin state [] [] []) (poll : Poll) : Recorded (origin.answer [poll])
      { state with openTurn := { state.openTurn with polls := state.openTurn.polls ++ [poll] } } [] [] [] := by
  refine { hrec with polls := ?_ }
  show _ ++ (state.openTurn.polls ++ [poll]) = origin.polls ++ [poll]
  rw [← hrec.polls, append_assoc]

section

variable (hkept : Kept origin state)

include hkept

theorem Kept.preparedInitial (hphase : state.phase = .preparingInitial)
    (snapshot : Option AgentContext) : Kept origin (state.preparedInitial config snapshot) := by
  have hque := hkept.queued
  unfold Queued at hque
  rw [hphase] at hque
  obtain ⟨hopened, hpend, hmore⟩ := hque
  have hrec : Recorded origin state [] [] [] := hkept.unopened hphase ⟨rfl, fun _ => rfl, rfl⟩
  have hready : Ready origin { state with context := snapshot.getD state.context } := by
    apply hrec.ready
    · rw [hopened]
      exact ⟨[], rfl, .nil⟩
    · rw [hpend, hopened]
      rfl
  unfold LoopState.preparedInitial
  dsimp only
  split_ifs with hskip
  · exact hready.loop fun hnone => absurd (hmore.symm.trans hnone) nofun
  · have habor : state.aborted = false := by
      rw [Bool.or_eq_true, not_or, Bool.not_eq_true, Bool.not_eq_true] at hskip
      exact hskip.2
    exact ⟨⟨hopened, hpend, hmore⟩, { hready.recorded with traced := hready.recorded.traced.poll habor _ }⟩

theorem Kept.preparedNext (hphase : state.phase = .preparingNext)
    (snapshot : Option AgentContext) : Kept origin (state.preparedNext config snapshot) := by
  have hque := hkept.queued
  unfold Queued at hque
  rw [hphase] at hque
  obtain ⟨polls, hopened, hord, hpend⟩ := hque
  have hrec : Recorded origin state [] [] [] := hkept.unopened hphase ⟨rfl, fun _ => rfl, rfl⟩
  have hready : Ready origin { state with context := snapshot.getD state.context } := by
    apply hrec.ready
    · exact ⟨polls, hopened, hord⟩
    · exact hpend
  unfold LoopState.preparedNext
  dsimp only
  split_ifs with hpoll
  · rw [Bool.and_eq_true, Bool.not_eq_true'] at hpoll
    refine ⟨⟨polls, hopened, hord, fun poll hmem => ?_⟩, { hready.recorded with traced := hready.recorded.traced.poll hpoll.2 _ }⟩
    have hnone : state.openTurn.polled = [] := hpend.symm.trans (List.isEmpty_iff.mp hpoll.1)
    refine flatMap_eq_nil_iff.mp hnone poll ?_
    rw [hopened]
    exact hmem
  · exact hready.beginTurn

theorem Kept.stopped (hphase : state.phase = .stopping) (stop : Bool) : Kept origin (state.stopped config stop) := by
  have hque := hkept.queued
  unfold Queued at hque
  rw [hphase] at hque
  obtain ⟨hopened, hpend⟩ := hque
  have hrec : Recorded origin state [] [] [] := hkept.unopened hphase ⟨rfl, fun _ => rfl, rfl⟩
  unfold LoopState.stopped
  split_ifs with _ habor
  · exact Closed.finish ⟨hopened, hpend, hrec⟩
  · have hready : Ready origin { state with pendingMessages := [] } := by
      refine ⟨⟨[], ?_, .nil⟩, ?_, { hrec with }⟩
      · show state.openTurn = { OpenTurn.empty state.openTurn.afterToolCalls with polls := [] }
        rw [hopened]
        rfl
      · show [] = state.openTurn.polled
        rw [hopened]
        rfl
    exact hready.loop fun _ _ hnot => absurd (habor.symm.trans hnot) nofun
  · rw [Bool.not_eq_true] at habor
    exact ⟨⟨hopened, hpend⟩, { hrec with traced := hrec.traced.poll habor _ }⟩

theorem Kept.polled {site : PollSite} (hphase : state.phase = .polling site) (messages : List AgentMessage) :
    Kept (origin.answer [⟨site.queue, messages⟩]) (state.polled config site messages) := by
  have hque := hkept.queued
  unfold Queued at hque
  rw [hphase] at hque
  have hpol := (hkept.unopened hphase ⟨rfl, fun _ => rfl, rfl⟩).polled ⟨site.queue, messages⟩
  unfold LoopState.polled
  cases site with
  | initial =>
    obtain ⟨hopened, hpend, hmore⟩ := hque
    refine Ready.loop ?_ fun hnone => absurd (hmore.symm.trans hnone) nofun
    apply hpol.ready
    · rw [hopened]
      exact ⟨_, rfl, .singleton messages⟩
    · rw [hopened]
      exact (append_nil messages).symm
  | turn =>
    obtain ⟨hopened, hpend⟩ := hque
    refine Ready.loop ?_ fun hmore hnone _ => ?_
    · apply hpol.ready
      · rw [hopened]
        exact ⟨_, rfl, .singleton messages⟩
      · rw [hopened]
        exact (append_nil messages).symm
    · have hempty : messages = [] := hnone
      have hstops : state.hasMoreToolCalls = false := hmore
      show { state.openTurn with polls := state.openTurn.polls ++ [Poll.mk .steering messages] } = _
      rw [hopened, hempty, hstops]
      rfl
  | preparation =>
    obtain ⟨polls, hopened, hord, hempty⟩ := hque
    apply Ready.beginTurn
    apply hpol.ready
    · rw [hopened]
      exact ⟨_, rfl, hord.append hempty nofun⟩
    · rw [hopened]
      show messages = (polls ++ [_]).flatMap Poll.messages
      rw [flatMap_append, flatMap_eq_nil_iff.mpr hempty]
      exact (append_nil messages).symm
  | followUps =>
    obtain ⟨hopened, hpend⟩ := hque
    dsimp only
    split_ifs with hnone
    · refine ⟨⟨?_, ?_⟩, { hpol with traced := hpol.traced.emit _ }⟩
      · show (state.openTurn.polls ++ [Poll.mk .followUp messages]).flatMap Poll.messages = []
        rw [hopened, hnone]
        rfl
      · show state.openTurn.injected = []
        rw [hopened]
        rfl
    · have hord : OrderlyPolls false [⟨.steering, []⟩, ⟨.followUp, messages⟩] := by
        refine OrderlyPolls.append (.singleton []) (fun poll hmem => ?_) fun _ => ⟨rfl, cons_ne_nil _ _, ?_⟩
        · rw [mem_singleton.mp hmem]
        · intro poll hmem
          rw [mem_singleton.mp hmem]
      refine Ready.loop ?_ fun hmore => absurd hmore nofun
      apply hpol.ready
      · rw [hopened]
        exact ⟨_, rfl, hord⟩
      · rw [hopened]
        exact (append_nil messages).symm

theorem Kept.steered (hphase : state.phase = .steering) (extras : List AgentMessage) :
    Kept origin (state.steered extras) := by
  have hque := hkept.queued
  unfold Queued at hque
  rw [hphase] at hque
  obtain ⟨polls, hopened, hord, hpend⟩ := hque
  have hrec : Recorded origin state [] [] [] := hkept.unopened hphase ⟨rfl, fun _ => rfl, rfl⟩
  have hinj : state.openTurn.injected = [] := by
    rw [hopened]
  refine ⟨⟨?_, ?_, ?_⟩, { hrec with }⟩
  · show OrderlyPolls state.openTurn.afterToolCalls state.openTurn.polls
    have hsame : state.openTurn.polls = polls := by
      rw [hopened]
    rw [hsame]
    exact hord
  · show state.openTurn.injected ++ (state.pendingMessages ++ extras) = state.openTurn.polled ++ extras
    rw [hinj, hpend, nil_append]
  · show state.context.messages = state.openTurn.base ++ state.openTurn.injected
    rw [hinj, hopened, append_nil]

theorem Kept.deliver {message : AgentMessage} {rest : List AgentMessage}
    (hphase : state.phase = .delivering (message :: rest)) : Kept origin (state.deliver message rest) := by
  have hque := hkept.queued
  unfold Queued at hque
  rw [hphase] at hque
  obtain ⟨hord, hinj, hcon⟩ := hque
  have hrec : Recorded origin state [] [] [] := hkept.unopened hphase ⟨rfl, fun _ => rfl, rfl⟩
  refine ⟨⟨hord, ?_, ?_⟩, hrec.turns, ?_, ?_, hrec.order, hrec.polls⟩
  · show state.openTurn.injected ++ [message] ++ rest = state.openTurn.polled ++ state.openTurn.extras
    rw [append_assoc, singleton_append]
    exact hinj
  · show state.context.messages ++ [message] = state.openTurn.base ++ (state.openTurn.injected ++ [message])
    rw [hcon, append_assoc]
  · show state.newMessages ++ [message] =
      origin.prompts ++ state.turns.flatMap Turn.messages ++ (state.openTurn.injected ++ [message]) ++ []
    rw [hrec.newMessages, append_nil, append_nil, append_assoc]
  · have htrac := (hrec.traced.emit (.messageStart message)).emit (.messageEnd message)
    rw [append_assoc] at htrac
    exact htrac

theorem Kept.delivered (hphase : state.phase = .delivering []) : Kept origin (state.delivered config) := by
  have hque := hkept.queued
  unfold Queued at hque
  rw [hphase] at hque
  obtain ⟨hord, hinj, hcon⟩ := hque
  rw [append_nil] at hinj
  have hrec : Recorded origin state [] [] [] := hkept.unopened hphase ⟨rfl, fun _ => rfl, rfl⟩
  unfold LoopState.delivered
  apply Recorded.respond
  · exact ⟨hord, hinj⟩
  · rfl
  · exact hcon
  · exact { hrec with }

theorem Kept.streaming {partialMessage : Option AssistantMessage}
    (hphase : state.phase = .streaming partialMessage) : Responding origin state [] false := by
  have hque := hkept.queued
  unfold Queued at hque
  rw [hphase] at hque
  have hrec := hkept.recorded
  rw [hphase] at hrec
  exact ⟨hque.1, hque.2, hrec⟩

end

section

variable (hresp : Responding origin state [] false)

include hresp

theorem Responding.streaming
    (partialMessage : Option AssistantMessage) : Kept origin (state.enter (.streaming partialMessage)) :=
  ⟨⟨hresp.opened, hresp.pending⟩, { hresp.recorded with }⟩

omit hresp in
theorem Responding.context (hresp : Responding origin state own resumed)
    (context : AgentContext) : Responding origin { state with context } own resumed :=
  ⟨hresp.opened, hresp.pending, { hresp.recorded with }⟩

omit hresp in
theorem Responding.emit (hresp : Responding origin state own resumed)
    (event : AgentEvent) : Responding origin (state.emit event) own resumed := by
  apply hresp.act
  intro action hact
  rw [mem_singleton.mp hact]
  rfl

theorem Responding.updateMessage
    (isToolCall : Bool) : Kept origin (state.updateMessage config message isToolCall) := by
  have hrep : Responding origin ((state.replaceLast (.assistant message)).enter (.streaming (some message))) [] false :=
    ⟨hresp.opened, hresp.pending, { hresp.recorded with }⟩
  unfold LoopState.updateMessage
  dsimp only
  split_ifs
  · exact hrep.streaming _
  · exact (hrep.emit _).streaming _

theorem Responding.finishMessage
    (partialMessage : Option AssistantMessage) : Kept origin (state.finishMessage config partialMessage message) := by
  unfold LoopState.finishMessage
  dsimp only
  have hrecord : ∀ {started : LoopState}, Responding origin started [] false →
      Kept origin (((started.emit (.messageEnd (.assistant (LoopState.suppressText config message)))).record
        (.assistant (LoopState.suppressText config message))).handleMessage config (LoopState.suppressText config message) none) := by
    intro started hstar
    apply Responding.handleMessage none nofun
    refine ⟨hstar.opened, hstar.pending, { hstar.recorded with newMessages := ?_, traced := hstar.recorded.traced.emit _ }⟩
    show started.newMessages ++ [_] = _ ++ ownMessages _ false
    rw [hstar.recorded.newMessages, append_nil]
    rfl
  cases partialMessage with
  | some old => exact hrecord (hresp.context _)
  | none => exact hrecord ((hresp.context _).emit _)

end

/-! ### The steps of a batch -/

variable {batch : Batch}

theorem Kept.ofBatch (hkept : Kept origin state) (hphase : state.phase = .batch batch) :
    Responding origin state (ownMessages batch.message batch.resumed) batch.resumed := by
  have hque := hkept.queued
  unfold Queued at hque
  rw [hphase] at hque
  have hrec := hkept.recorded
  rw [hphase] at hrec
  exact ⟨hque.1, hque.2, hrec⟩

theorem Responding.enterBatch
    (hresp : Responding origin state (ownMessages batch.message batch.resumed) batch.resumed) :
    Kept origin (state.enter (.batch batch)) :=
  ⟨⟨hresp.opened, hresp.pending⟩, { hresp.recorded with }⟩

theorem isEvent_finalizedActions (call : Nat) (finalized : FinalizedToolCallOutcome) :
    ∀ action ∈ finalizedActions call finalized, action.isEvent = true := by
  intro action hact
  rw [mem_singleton.mp hact]
  rfl

theorem isEvent_resultActions (finalized : FinalizedToolCallOutcome) :
    ∀ action ∈ resultActions finalized, action.isEvent = true := by
  intro action hact
  rcases mem_cons.mp hact with rfl | hrest
  · rfl
  · rw [mem_singleton.mp hrest]
    rfl

section Batch

variable (hresp : Responding origin state (ownMessages batch.message batch.resumed) batch.resumed)
include hresp

theorem Responding.startCall (toolCall : AgentToolCall) (rest : List AgentToolCall) :
    Kept origin (state.startCall batch toolCall rest) := by
  unfold LoopState.startCall
  exact Responding.enterBatch (hresp.emit _)

theorem Responding.endCall (call : Nat) (finalized : FinalizedToolCallOutcome) :
    Kept origin (state.endCall batch call finalized) := by
  unfold LoopState.endCall
  apply Responding.enterBatch
  apply hresp.act
  intro action hact
  rcases mem_append.mp hact with hfin | hresult
  · exact isEvent_finalizedActions call finalized action hfin
  · split_ifs at hresult
    · exact isEvent_resultActions finalized action hresult
    · exact absurd hresult not_mem_nil

theorem Responding.finishBatch : Kept origin (state.finishBatch batch) :=
  hresp.completeBatch _ _

variable (hkept : Kept origin state)

include hkept

theorem Responding.advance : Kept origin (state.advance batch) := by
  unfold LoopState.advance
  cases batch.mode with
  | sequential =>
    show Kept origin (state.advanceSequential batch)
    unfold LoopState.advanceSequential
    split_ifs
    · exact hkept
    · exact hresp.finishBatch
    · split
      · exact hresp.startCall _ _
      · exact hkept
  | parallel =>
    show Kept origin (state.advanceParallel batch)
    unfold LoopState.advanceParallel
    split_ifs
    · apply Responding.finishBatch
      apply hresp.act
      intro action hact
      obtain ⟨finalized, _, hresult⟩ := mem_flatMap.mp hact
      exact isEvent_resultActions finalized action hresult
    · exact hkept
    · exact hkept
    · exact Responding.enterBatch hresp
    · split
      · exact hresp.startCall _ _
      · exact hkept

theorem Responding.prepareCall (call : Nat) (answer : PrepareAnswer) :
    Kept origin (state.prepareCall batch call answer) := by
  unfold LoopState.prepareCall
  split
  · split
    · exact hresp.endCall _ _
    · split_ifs
      · exact Responding.enterBatch hresp
      · exact Responding.enterBatch hresp
  · exact hkept

theorem Responding.updateCall (hphase : state.phase = .batch batch) (call : Nat)
    (partialResult : AgentToolResult) : Kept origin (state.updateCall batch call partialResult) := by
  unfold LoopState.updateCall
  split
  · next toolCall _ _ =>
    have hsame : (state.emit (.toolExecutionUpdate call toolCall partialResult)).enter (.batch batch) =
        state.emit (.toolExecutionUpdate call toolCall partialResult) := by
      unfold LoopState.enter
      rw [← hphase]
      rfl
    rw [← hsame]
    exact Responding.enterBatch (hresp.emit _)
  · exact hkept

theorem Responding.executeCall (call : Nat) (answer : ExecuteAnswer) :
    Kept origin (state.executeCall batch call answer) := by
  unfold LoopState.executeCall
  split
  · exact Responding.enterBatch hresp
  · exact hkept

theorem Responding.finalizeCall (call : Nat) (answer : AfterAnswer) :
    Kept origin (state.finalizeCall batch call answer) := by
  unfold LoopState.finalizeCall
  split
  · exact hresp.endCall _ _
  · exact hkept

end Batch

theorem Kept.completed (hkept : Kept origin state)
    (hphase : state.phase = .completing message resumed executed results) (tools : List AgentTool) :
    Kept origin ({ state with context := { state.context with tools } }.endTurn message resumed executed results) := by
  have hque := hkept.queued
  unfold Queued at hque
  rw [hphase] at hque
  have hrec := hkept.recorded
  rw [hphase] at hrec
  have hresp : Responding origin state (ownMessages message resumed ++ results.map .toolResult) resumed :=
    ⟨hque.1, hque.2, hrec⟩
  exact (hresp.context _).endTurn

theorem Kept.abort (hkept : Kept origin state) : Kept origin { state.act [.abort] with aborted := true } := by
  refine ⟨hkept.queued, { hkept.recorded with traced := ?_ }⟩
  have htrac : Traced (state.trace ++ [Action.abort]) true _ := hkept.recorded.traced.append nofun nofun
  rw [show Action.request? .abort = none from rfl, Option.toList_none, append_nil] at htrac
  exact htrac

/-- The answer of a poll that the step takes. -/
def answered (state : LoopState) (event : LoopEvent) : List Poll :=
  match state.phase, event with
  | .polling site, .polled messages => [⟨site.queue, messages⟩]
  | _, _ => []

theorem Kept.unanswered {final : LoopState} (hfinal : Kept origin final) {polls : List Poll} (hnone : polls = []) :
    Kept (origin.answer polls) final := by
  have hsame : origin.answer polls = origin := by
    rw [hnone, Origin.answer, append_nil]
  rw [hsame]
  exact hfinal

theorem Kept.step (hkept : Kept origin state) (event : LoopEvent) :
    Kept (origin.answer (answered state event)) (step config state event) := by
  by_cases hpol : ∃ site messages, state.phase = .polling site ∧ event = .polled messages
  · obtain ⟨site, messages, hphase, rfl⟩ := hpol
    unfold AgentLoop.step answered
    rw [hphase]
    exact hkept.polled hphase messages
  · have hnone : answered state event = [] := by
      unfold answered
      split
      · next site messages hphase => exact absurd ⟨site, messages, hphase, rfl⟩ hpol
      · rfl
    refine Kept.unanswered ?_ hnone
    unfold AgentLoop.step
    split
    · exact hkept.abort
    · next snapshot hphase => exact hkept.preparedInitial hphase snapshot
    · next snapshot hphase => exact hkept.preparedNext hphase snapshot
    · next site messages hphase => exact absurd ⟨site, messages, hphase, rfl⟩ hpol
    · next extras hphase => exact hkept.steered hphase extras
    · next message rest hphase => exact hkept.deliver hphase
    · next hphase => exact hkept.delivered hphase
    · next partialMessage message hphase => exact (((hkept.streaming hphase).context _).emit _).streaming _
    · next started message isToolCall hphase => exact (hkept.streaming hphase).updateMessage isToolCall
    · next partialMessage message hphase => exact (hkept.streaming hphase).finishMessage partialMessage
    · next batch hphase => exact (hkept.ofBatch hphase).advance hkept
    · next batch call answer hphase => exact (hkept.ofBatch hphase).prepareCall hkept call answer
    · next batch call partialResult hphase => exact (hkept.ofBatch hphase).updateCall hkept hphase call partialResult
    · next batch call answer hphase => exact (hkept.ofBatch hphase).executeCall hkept call answer
    · next batch call answer hphase => exact (hkept.ofBatch hphase).finalizeCall hkept call answer
    · next message resumed executed results tools hphase => exact hkept.completed hphase tools
    · next stop hphase => exact hkept.stopped hphase stop
    · exact hkept

end Steps

/-! ### Runs -/

/-- What the polls of a run were answered, in order. -/
def answers (config : LoopConfig) (state : LoopState) : List LoopEvent → List Poll
  | [] => []
  | event :: events => answered state event ++ answers config (step config state event) events

theorem Kept.run {origin : Origin} {state : LoopState} (config : LoopConfig) (hkept : Kept origin state)
    (events : List LoopEvent) : Kept (origin.answer (answers config state events)) (run config state events) := by
  induction events generalizing origin state with
  | nil => exact hkept.unanswered rfl
  | cons event events ih =>
    have hnext : Kept _ (AgentLoop.step config state event) := hkept.step event
    have hrest := ih hnext
    unfold Origin.answer at hrest
    rw [append_assoc] at hrest
    exact hrest

theorem Traced.initial (prompts : List AgentMessage) :
    Traced ([.emit .agentStart, .emit .turnStart] ++ prompts.flatMap messageActions) false [] := by
  have hstar : Traced [.emit .agentStart, .emit .turnStart] false [] := by
    refine ⟨rfl, fun before queue after hsplit => ?_, fun _ hmem => ?_⟩
    · have hpoll : Action.poll queue ∈ [.emit .agentStart, .emit .turnStart] := hsplit ▸ by simp
      exact absurd hpoll (by simp)
    · exact absurd hmem (by simp)
  apply hstar.act
  intro action hact
  obtain ⟨message, _, hmsg⟩ := mem_flatMap.mp hact
  rcases mem_cons.mp hmsg with rfl | hend
  · rfl
  · rw [mem_singleton.mp hend]
    rfl

theorem Kept.initial (context : AgentContext) (prompts : List AgentMessage) (resume : Option PendingToolCalls) :
    Kept ⟨prompts, resume, []⟩ (initial context prompts resume) := by
  refine ⟨⟨rfl, rfl, rfl⟩, fun turn hturn => absurd hturn not_mem_nil, ?_, .initial prompts, rfl, rfl⟩
  show prompts = prompts ++ [] ++ [] ++ []
  rw [append_nil, append_nil, append_nil]

/-- The pending tool calls that the run is started with. -/
def Entry.pending (context : AgentContext) : Entry → Option PendingToolCalls
  | .prompts _ | .continue => none
  | .resume => findPendingToolCalls context.messages

theorem start_eq {context : AgentContext} {entry : Entry} {state : LoopState}
    (hstart : start context entry = some state) : state = initial context entry.messages (entry.pending context) := by
  cases entry with
  | prompts prompts => exact (Option.some.inj hstart).symm
  | «continue» =>
    unfold AgentLoop.start at hstart
    dsimp only at hstart
    split at hstart
    · exact absurd hstart nofun
    · split_ifs at hstart
      exact (Option.some.inj hstart).symm
  | resume =>
    obtain ⟨pending, hpend, rfl⟩ := Option.map_eq_some_iff.mp hstart
    rw [Entry.pending, hpend]
    rfl

theorem Kept.start {context : AgentContext} {entry : Entry} {state : LoopState}
    (hstart : start context entry = some state) : Kept ⟨entry.messages, entry.pending context, []⟩ state := by
  rw [start_eq hstart]
  exact .initial _ _ _

theorem Queued.delivered {state : LoopState} (hque : Queued state) (hres : state.phase.resumed ≠ []) :
    state.openTurn.Delivered := by
  unfold Queued at hque
  cases hphase : state.phase with
  | streaming partialMessage =>
    rw [hphase] at hque
    exact hque.1
  | batch running =>
    rw [hphase] at hque
    exact hque.1
  | completing message resumed executed results =>
    rw [hphase] at hque
    exact hque.1
  | preparingInitial => exact absurd (by rw [hphase]; rfl) hres
  | polling site => exact absurd (by rw [hphase]; rfl) hres
  | preparingNext => exact absurd (by rw [hphase]; rfl) hres
  | steering => exact absurd (by rw [hphase]; rfl) hres
  | delivering rest => exact absurd (by rw [hphase]; rfl) hres
  | stopping => exact absurd (by rw [hphase]; rfl) hres
  | finished => exact absurd (by rw [hphase]; rfl) hres

/-- In every run the polls are those of its turns, and each turn has had what its polls gave injected, once and in
their order, before its request; at most one of its polls gave messages, and follow-ups were polled only when the
loop had nothing else. No poll is started after an abort, and nothing that was polled is left at the end. -/
theorem queues_delivered (config : LoopConfig) (context : AgentContext) (entry : Entry) (events : List LoopEvent)
    (state : LoopState) (hstart : start context entry = some state) : let final := run config state events
    answers config state events = (final.turns.flatMap fun turn => turn.polls) ++ final.openTurn.polls ∧
    (∀ turn ∈ final.turns, turn.Delivered) ∧
    (∀ turn ∈ final.turns.tail, turn.resumed = false) ∧
    (final.phase.resumed ≠ [] → final.openTurn.Delivered) ∧
    (final.phase = .finished → final.openTurn.polled = []) ∧
    final.newMessages = entry.messages ++ final.turns.flatMap Turn.messages ++ final.openTurn.injected ++
      final.phase.messages ∧
    final.trace.filterMap Action.request? = final.turns.flatMap Turn.requests ++ final.phase.requests final.openTurn ∧
    ∀ before queue after, final.trace = before ++ .poll queue :: after → .abort ∉ before := by
  intro final
  have hfinal := (Kept.start hstart).run config events
  refine ⟨hfinal.recorded.polls.symm, hfinal.recorded.turns, fun turn hturn => hfinal.recorded.order.tail hturn,
    hfinal.queued.delivered, fun hphase => ?_, hfinal.recorded.newMessages, hfinal.recorded.traced.requests,
    hfinal.recorded.traced.polls⟩
  · have hque := hfinal.queued
    unfold Queued at hque
    rw [show (AgentLoop.run config state events).phase = .finished from hphase] at hque
    exact hque.1

section Sample

def steeredConfig : LoopConfig := ⟨.parallel, false⟩

/-- A steering message before the first request, and a follow-up after the turn. -/
def steeredEvents : List LoopEvent :=
  [.preparedInitial none, .polled [.user (.string (js "a"))], .steered [], .deliver, .deliver,
    .stream (.finish ⟨[], .stop⟩), .stopped false, .polled [], .polled [.user (.string (js "b"))],
    .preparedNext none, .deliver, .deliver, .stream (.finish ⟨[], .stop⟩), .stopped false, .polled [], .polled []]

theorem queues_delivered_sample : let final := run steeredConfig (initial ⟨[], []⟩ [] none) steeredEvents
    (∀ turn ∈ final.turns, turn.Delivered) ∧ final.phase.resumed = [] ∧ final.turns.length = 2 ∧
      final.newMessages = [.user (.string (js "a")), .assistant ⟨[], .stop⟩, .user (.string (js "b")),
        .assistant ⟨[], .stop⟩] :=
  ⟨(queues_delivered steeredConfig ⟨[], []⟩ (.prompts []) steeredEvents _ rfl).2.1, rfl, rfl, by decide +kernel⟩

end Sample

end PiRp.AgentLoop
