import PiRp.AgentLoop
import PiRp.EventRun
import Mathlib.Data.Finset.Basic

/-! The events of the agent loop are a word of a grammar: turns between `agent_start` and `agent_end`, messages and
tool calls that start and end within a turn. What the grammar has read goes with what the loop awaits. -/

namespace PiRp.AgentLoop

open List Option

/-! ### The grammar -/

inductive Stage where
  | before
  | between
  | turn
  | ended
  deriving DecidableEq

/-- What has been read: where in the turns, whether a message is open, the calls that are open, and the messages that
have ended. -/
structure Grammar where
  stage : Stage
  message : Bool
  running : Finset Nat
  ended : List AgentMessage

namespace Grammar

def start : Grammar := ⟨.before, false, ∅, []⟩

/-- The grammar after an event; nothing when the event may not come. -/
def accept (grammar : Grammar) : AgentEvent → Option Grammar
  | .agentStart => if grammar.stage = .before then some { grammar with stage := .between } else none
  | .agentEnd messages =>
    if grammar.stage = .between ∧ messages = grammar.ended then some { grammar with stage := .ended } else none
  | .turnStart => if grammar.stage = .between then some { grammar with stage := .turn } else none
  | .turnEnd _ _ =>
    if grammar.stage = .turn ∧ grammar.message = false ∧ grammar.running = ∅ then
      some { grammar with stage := .between }
    else none
  | .messageStart _ =>
    if grammar.stage = .turn ∧ grammar.message = false then some { grammar with message := true } else none
  | .messageUpdate _ => if grammar.message = true then some grammar else none
  | .messageEnd message =>
    if grammar.message = true then some { grammar with message := false, ended := grammar.ended ++ [message] }
    else none
  | .toolExecutionStart call _ =>
    if grammar.stage = .turn ∧ call ∉ grammar.running then
      some { grammar with running := insert call grammar.running }
    else none
  | .toolExecutionUpdate call _ _ => if call ∈ grammar.running then some grammar else none
  | .toolExecutionEnd call _ _ _ =>
    if call ∈ grammar.running then some { grammar with running := grammar.running.erase call } else none

def acceptAll (grammar : Grammar) : List AgentEvent → Option Grammar
  | [] => some grammar
  | event :: events => (grammar.accept event).bind fun next => next.acceptAll events

end Grammar

def Action.event? : Action → Option AgentEvent
  | .emit event => some event
  | _ => none

/-- The events that have been emitted. -/
def LoopState.events (state : LoopState) : List AgentEvent := state.trace.filterMap Action.event?

namespace Grammar

variable {grammar next : Grammar} {actions : List Action}

/-- The grammar after what the loop does. -/
def read (grammar : Grammar) (actions : List Action) : Option Grammar :=
  grammar.acceptAll (actions.filterMap Action.event?)

theorem acceptAll_append (grammar : Grammar) (events later : List AgentEvent) :
    grammar.acceptAll (events ++ later) = (grammar.acceptAll events).bind fun next => next.acceptAll later := by
  induction events generalizing grammar with
  | nil => rfl
  | cons event events ih =>
    show (grammar.accept event).bind _ = ((grammar.accept event).bind _).bind _
    rw [bind_assoc]
    congr 1
    funext next
    exact ih next

theorem read_append (hread : grammar.read actions = some next) (later : List Action) :
    grammar.read (actions ++ later) = next.read later := by
  rw [read, filterMap_append, acceptAll_append, ← read, hread]
  rfl

@[simp] theorem read_emit (grammar : Grammar) (event : AgentEvent) :
    grammar.read [.emit event] = grammar.accept event := bind_fun_some _

theorem read_message (running : Finset Nat) (ended : List AgentMessage) (message : AgentMessage) :
    (Grammar.mk .turn false running ended).read (messageActions message) =
      some ⟨.turn, false, running, ended ++ [message]⟩ := rfl

theorem read_messages (running : Finset Nat) (ended messages : List AgentMessage) :
    (Grammar.mk .turn false running ended).read (messages.flatMap messageActions) =
      some ⟨.turn, false, running, ended ++ messages⟩ := by
  induction messages generalizing ended with
  | nil => rw [append_nil]; rfl
  | cons message messages ih =>
    rw [flatMap_cons, read_append (read_message running ended message), ih, append_assoc]
    rfl

/-- The messages of results. -/
def resultMessages (finalized : List FinalizedToolCallOutcome) : List AgentMessage :=
  (finalized.map createToolResultMessage).map .toolResult

theorem read_results (running : Finset Nat) (ended : List AgentMessage) (finalized : List FinalizedToolCallOutcome) :
    (Grammar.mk .turn false running ended).read (finalized.flatMap resultActions) =
      some ⟨.turn, false, running, ended ++ resultMessages finalized⟩ := by
  have hact : finalized.flatMap resultActions = (resultMessages finalized).flatMap messageActions := by
    unfold resultMessages
    rw [flatMap_map, flatMap_map]
    rfl
  rw [hact, read_messages]

theorem read_end {running : Finset Nat} {call : Nat} (hcall : call ∈ running) (ended : List AgentMessage)
    (finalized : FinalizedToolCallOutcome) :
    (Grammar.mk .turn false running ended).read (finalizedActions call finalized) =
      some ⟨.turn, false, running.erase call, ended⟩ := by
  rw [finalizedActions, read_emit]
  exact if_pos hcall

theorem read_unexecuted (ended : List AgentMessage) (call : Nat) (finalized : FinalizedToolCallOutcome) :
    (Grammar.mk .turn false ∅ ended).read (unexecutedActions call finalized) =
      some ⟨.turn, false, ∅, ended ++ resultMessages [finalized]⟩ := by
  have hstart : (Grammar.mk .turn false ∅ ended).read [.emit (.toolExecutionStart call finalized.toolCall)] =
      some ⟨.turn, false, insert call ∅, ended⟩ := by
    rw [read_emit, accept, if_pos ⟨rfl, Finset.notMem_empty call⟩]
  have hended := read_end (Finset.mem_insert_self call ∅) ended finalized
  rw [Finset.erase_insert (Finset.notMem_empty call)] at hended
  rw [unexecutedActions, ← singleton_append, read_append hstart, read_append hended]
  rfl

theorem read_answered (ended : List AgentMessage) (finalized : List FinalizedToolCallOutcome) (start : Nat) :
    (Grammar.mk .turn false ∅ ended).read
        ((finalized.zipIdx start).flatMap fun entry => unexecutedActions entry.2 entry.1) =
      some ⟨.turn, false, ∅, ended ++ resultMessages finalized⟩ := by
  induction finalized generalizing ended start with
  | nil => rw [resultMessages, map_nil, map_nil, append_nil]; rfl
  | cons first rest ih =>
    rw [zipIdx_cons, flatMap_cons, read_append (read_unexecuted ended start first), ih, append_assoc]
    rfl

end Grammar

/-! ### What has been read in each phase -/

/-- The calls of the batch that have not ended. -/
def Batch.running (batch : Batch) : Finset Nat :=
  (Finset.range batch.calls.length).filter fun call =>
    (batch.calls[call]?.any fun entry => entry.status.finalized?.isNone) = true

/-- The results of the batch whose messages have been emitted. -/
def Batch.emitted (batch : Batch) : List FinalizedToolCallOutcome :=
  match batch.mode with
  | .sequential => batch.interrupted ++ batch.finalizedCalls
  | .parallel => batch.interrupted

/-- In a sequential batch only the last call may not have ended. -/
def Batch.Ordered (batch : Batch) : Prop :=
  batch.mode = .sequential → ∀ call, call + 1 < batch.calls.length → call ∉ batch.running

/-- What has been read outside of messages and tool calls. -/
def Reads (state : LoopState) (stage : Stage) : Prop :=
  Grammar.start.read state.trace = some ⟨stage, false, ∅, state.newMessages⟩

def Grammatical (state : LoopState) : Prop :=
  match state.phase with
  | .preparingInitial | .polling .initial =>
    state.completedTurn = false ∧ state.hasMoreToolCalls = true ∧ Reads state .turn
  | .preparingNext | .polling .preparation | .polling .turn | .polling .followUps | .stopping =>
    state.completedTurn = true ∧ Reads state .between
  | .steering | .delivering _ | .streaming none | .completing _ _ _ _ => Reads state .turn
  | .streaming (some _) => Grammar.start.read state.trace = some ⟨.turn, true, ∅, state.newMessages⟩
  | .batch batch =>
    batch.Ordered ∧ Grammar.start.read state.trace =
      some ⟨.turn, false, batch.running, state.newMessages ++ Grammar.resultMessages batch.emitted⟩
  | .finished => Reads state .ended

section Batches

variable {batch : Batch} {call : Nat}

theorem Batch.mem_running : call ∈ batch.running ↔
    ∃ entry, batch.calls[call]? = some entry ∧ entry.status.finalized? = none := by
  rw [Batch.running, Finset.mem_filter, Finset.mem_range]
  constructor
  · rintro ⟨hlen, hopen⟩
    rw [getElem?_eq_getElem hlen, any_some, isNone_iff_eq_none] at hopen
    exact ⟨_, getElem?_eq_getElem hlen, hopen⟩
  · rintro ⟨entry, hentry, hopen⟩
    refine ⟨(List.getElem?_eq_some_iff.mp hentry).1, ?_⟩
    rw [hentry, any_some, hopen]
    rfl

theorem Batch.running_of_allEnded (hended : batch.allEnded = true) : batch.running = ∅ := by
  refine Finset.eq_empty_of_forall_notMem fun call hcall => ?_
  obtain ⟨entry, hentry, hopen⟩ := Batch.mem_running.mp hcall
  have hsome := all_eq_true.mp hended entry (mem_of_getElem? hentry)
  rw [hopen] at hsome
  exact absurd hsome nofun

theorem Batch.running_append (batch : Batch) (queue : List AgentToolCall) (toolCall : AgentToolCall) :
    Batch.running { batch with queue, calls := batch.calls ++ [⟨toolCall, .preparing⟩] } =
      insert batch.calls.length batch.running := by
  ext call
  rw [Finset.mem_insert, Batch.mem_running, Batch.mem_running]
  show (∃ entry, (batch.calls ++ [_])[call]? = some entry ∧ _) ↔ _
  rcases Nat.lt_trichotomy call batch.calls.length with hlt | rfl | hgt
  · rw [getElem?_append_left hlt]
    exact (or_iff_right hlt.ne).symm
  · rw [getElem?_concat_length]
    exact iff_of_true ⟨_, rfl, rfl⟩ (.inl rfl)
  · have hnone : (batch.calls ++ [⟨toolCall, .preparing⟩])[call]? = none := by
      rw [List.getElem?_eq_none_iff, length_append]
      exact hgt
    have hnone' : batch.calls[call]? = none := getElem?_eq_none hgt.le
    rw [hnone, hnone']
    refine iff_of_false ?_ ?_
    · rintro ⟨_, hentry, _⟩
      exact absurd hentry nofun
    · rintro (hsame | ⟨_, hentry, _⟩)
      · exact hgt.ne' hsame
      · exact absurd hentry nofun

variable {toolCall : AgentToolCall} {status : CallStatus} {entry : CallEntry}

section

variable (hentry : batch.calls[call]? = some entry)

include hentry

theorem Batch.getElem?_setStatus (other : Nat) : (batch.setStatus call toolCall status).calls[other]? =
      if call = other then some ⟨toolCall, status⟩ else batch.calls[other]? := by
  have hlen : call < batch.calls.length := (List.getElem?_eq_some_iff.mp hentry).1
  show (batch.calls.set call _)[other]? = _
  rw [getElem?_set]
  split_ifs
  · rfl
  · rfl

theorem Batch.running_setStatus (hopen : entry.status.finalized? = none)
    (hstat : status.finalized? = none) : (batch.setStatus call toolCall status).running = batch.running := by
  ext other
  rw [Batch.mem_running, Batch.mem_running, Batch.getElem?_setStatus hentry]
  split_ifs with hcall
  · rw [← hcall]
    exact iff_of_true ⟨_, rfl, hstat⟩ ⟨_, hentry, hopen⟩
  · rfl

theorem Batch.running_setEnded {finalized : FinalizedToolCallOutcome} :
    (batch.setStatus call toolCall (.ended finalized)).running = batch.running.erase call := by
  ext other
  rw [Finset.mem_erase, Batch.mem_running, Batch.mem_running, Batch.getElem?_setStatus hentry]
  split_ifs with hcall
  · rw [← hcall]
    refine iff_of_false ?_ fun hand => hand.1 rfl
    rintro ⟨_, hsame, hopen⟩
    obtain rfl := Option.some.inj hsame
    exact absurd hopen nofun
  · exact (and_iff_right (Ne.symm hcall)).symm

omit hentry in
theorem filterMap_set {α β : Type*} {f : α → Option β} {items : List α} {position : Nat} {old new : α}
    (hold : items[position]? = some old) (hsame : f new = f old) :
    (items.set position new).filterMap f = items.filterMap f := by
  induction items generalizing position with
  | nil => exact absurd hold nofun
  | cons first rest ih =>
    cases position with
    | zero =>
      obtain rfl := Option.some.inj hold
      rw [set_cons_zero, filterMap_cons, filterMap_cons, hsame]
    | succ position =>
      rw [getElem?_cons_succ] at hold
      rw [set_cons_succ, filterMap_cons, filterMap_cons, ih hold]

theorem Batch.finalizedCalls_setStatus (hopen : entry.status.finalized? = none) (hstat : status.finalized? = none) :
    (batch.setStatus call toolCall status).finalizedCalls = batch.finalizedCalls :=
  filterMap_set hentry (hstat.trans hopen.symm)

end

theorem Batch.Ordered.setStatus (hord : batch.Ordered)
    (hentry : batch.calls[call]? = some entry) (hopen : entry.status.finalized? = none) :
    (batch.setStatus call toolCall status).Ordered := by
  intro hmode other hother
  have hlen : other + 1 < batch.calls.length := by
    have hset : (batch.calls.set call ⟨toolCall, status⟩).length = batch.calls.length := length_set
    exact hset ▸ hother
  have hended := hord hmode other hlen
  rw [Batch.mem_running, Batch.getElem?_setStatus hentry]
  split_ifs with hcall
  · subst hcall
    exact absurd (Batch.mem_running.mpr ⟨entry, hentry, hopen⟩) hended
  · rw [← Batch.mem_running]
    exact hended

theorem Batch.Ordered.finalizedCalls_setEnded (hord : batch.Ordered) (hmode : batch.mode = .sequential)
    {finalized : FinalizedToolCallOutcome}
    (hentry : batch.calls[call]? = some entry) (hopen : entry.status.finalized? = none) :
    (batch.setStatus call toolCall (.ended finalized)).finalizedCalls = batch.finalizedCalls ++ [finalized] := by
  obtain ⟨hlen, hget⟩ := List.getElem?_eq_some_iff.mp hentry
  have hlast : call + 1 = batch.calls.length := by
    refine le_antisymm hlen (not_lt.mp fun hlt => ?_)
    exact hord hmode call hlt (Batch.mem_running.mpr ⟨entry, hentry, hopen⟩)
  have hsplit : batch.calls = batch.calls.take call ++ [entry] := by
    rw [← hget, take_append_getElem hlen, hlast, take_length]
  have hset : batch.calls.set call ⟨toolCall, .ended finalized⟩ =
      batch.calls.take call ++ [⟨toolCall, .ended finalized⟩] := by
    conv_lhs => rw [hsplit]
    rw [set_append_right _ _ (length_take_le call _), length_take_of_le hlen.le, Nat.sub_self]
    rfl
  show (batch.calls.set call _).filterMap _ = batch.calls.filterMap _ ++ _
  rw [hset, filterMap_append]
  conv_rhs => rw [hsplit]
  rw [filterMap_append]
  have hnone : [entry].filterMap (fun entry => entry.status.finalized?) = [] := by
    rw [filterMap_cons, hopen]
    rfl
  rw [hnone, append_nil]
  rfl

theorem finalized?_launch (status : CallStatus) : status.launch.finalized? = status.finalized? := by
  cases status with
  | preparing => rfl
  | prepared tool => rfl
  | running tool => rfl
  | finishing tool executed => rfl
  | ended finalized => rfl

theorem Batch.running_launch (batch : Batch) : batch.launch.running = batch.running := by
  ext call
  rw [Batch.mem_running, Batch.mem_running]
  show (∃ entry, (batch.calls.map _)[call]? = some entry ∧ _) ↔ _
  rw [getElem?_map]
  constructor
  · rintro ⟨_, hentry, hopen⟩
    obtain ⟨entry, hfound, rfl⟩ := map_eq_some_iff.mp hentry
    exact ⟨entry, hfound, (finalized?_launch _).symm.trans hopen⟩
  · rintro ⟨entry, hentry, hopen⟩
    exact ⟨_, by rw [hentry]; rfl, (finalized?_launch _).trans hopen⟩

end Batches

/-! ### The steps -/

section Steps

variable {state : LoopState} {config : LoopConfig} {message : AssistantMessage} {resumed : Bool}
  {executed : List (AgentToolCall × AgentTool)}

theorem Grammatical.finish (hreads : Reads state .between) : Grammatical state.finish := by
  show Grammar.start.read (state.trace ++ [Action.emit (.agentEnd state.newMessages)]) = _
  rw [Grammar.read_append hreads, Grammar.read_emit, Grammar.accept, if_pos ⟨rfl, rfl⟩]
  rfl

section

variable (hreads : Reads state .turn)

include hreads

theorem Reads.closeTurn (results : List ToolResultMessage) :
    Reads (state.closeTurn message resumed executed results) .between := by
  show Grammar.start.read (state.trace ++ [Action.emit (.turnEnd message results)]) = _
  rw [Grammar.read_append hreads, Grammar.read_emit, Grammar.accept, if_pos ⟨rfl, rfl, rfl⟩]
  rfl

theorem Grammatical.endTurn (results : List ToolResultMessage) :
    Grammatical (state.endTurn message resumed executed results) := by
  have hclos : Reads (state.closeTurn message resumed executed results) .between := hreads.closeTurn results
  exact ⟨rfl, hclos⟩

omit hreads in
theorem Grammatical.completeBatch {finalized : List FinalizedToolCallOutcome} (terminate : Bool)
    (hread : Grammar.start.read state.trace =
      some ⟨.turn, false, ∅, state.newMessages ++ Grammar.resultMessages finalized⟩) :
    Grammatical (state.completeBatch message resumed executed finalized terminate) := hread

theorem Reads.answerCalls (finalized : List FinalizedToolCallOutcome) :
    Grammar.start.read (state.answerCalls finalized).trace =
      some ⟨.turn, false, ∅, state.newMessages ++ Grammar.resultMessages finalized⟩ := by
  show Grammar.start.read (state.trace ++ _) = _
  rw [Grammar.read_append hreads, Grammar.read_answered]

omit hreads in
theorem Grammatical.executeToolCalls {interrupted : List FinalizedToolCallOutcome} (toolCalls : List AgentToolCall)
    (hread : Grammar.start.read state.trace =
      some ⟨.turn, false, ∅, state.newMessages ++ Grammar.resultMessages interrupted⟩) :
    Grammatical (state.executeToolCalls config message resumed interrupted toolCalls) := by
  refine ⟨fun _ call hcall => absurd hcall (Nat.not_lt_zero _), ?_⟩
  have hemit : Batch.emitted
      { message, resumed, interrupted
        mode := LoopState.executionMode config state.context toolCalls
        queue := toolCalls
        launched := false
        calls := []
        executed := [] } = interrupted := by
    unfold Batch.emitted
    split
    · exact append_nil _
    · rfl
  rw [hemit]
  exact hread

theorem Grammatical.executePendingToolCalls (pending : PendingToolCalls) :
    Grammatical (state.executePendingToolCalls config pending) := by
  unfold LoopState.executePendingToolCalls
  dsimp only
  split_ifs
  · exact .completeBatch _ (hreads.answerCalls _)
  · exact .executeToolCalls _ (hreads.answerCalls _)

theorem Grammatical.handleMessage (pending : Option PendingToolCalls) :
    Grammatical (state.handleMessage config message pending) := by
  have hopen : Reads { state with hasMoreToolCalls := false } .turn := hreads
  unfold LoopState.handleMessage
  dsimp only
  split
  · exact .finish (hreads.closeTurn [])
  · split
    · exact .endTurn hopen []
    · split
      · next pending => exact .executePendingToolCalls hopen pending
      · split
        · exact .completeBatch _ (hopen.answerCalls _)
        · apply Grammatical.executeToolCalls
          rw [Grammar.resultMessages, map_nil, map_nil, append_nil]
          exact hopen

theorem Grammatical.respond : Grammatical (state.respond config) := by
  unfold LoopState.respond
  split
  · have hres : Reads { state with resume := none } .turn := hreads
    exact .handleMessage hres _
  · show Grammar.start.read (state.trace ++ [Action.request state.context.messages]) = _
    rw [Grammar.read_append hreads]
    rfl

theorem Grammatical.inject : Grammatical (state.inject config) := by
  unfold LoopState.inject
  dsimp only
  split_ifs
  · exact .respond hreads
  · exact hreads
  · exact hreads

end

theorem Grammatical.beginTurn (hreads : Reads state .between) : Grammatical (state.beginTurn config) := by
  apply Grammatical.inject
  show Grammar.start.read (state.trace ++ [Action.emit .turnStart]) = _
  rw [Grammar.read_append hreads, Grammar.read_emit, Grammar.accept, if_pos rfl]
  rfl

theorem Reads.startPoll {stage : Stage} (hreads : Reads state stage) (site : PollSite) :
    Reads (state.startPoll site) stage := by
  show Grammar.start.read (state.trace ++ [Action.poll site.queue]) = _
  rw [Grammar.read_append hreads]
  rfl

theorem Grammatical.loop (hturn : state.completedTurn = false ∧ state.hasMoreToolCalls = true ∧ Reads state .turn ∨
    state.completedTurn = true ∧ Reads state .between) : Grammatical (state.loop config) := by
  unfold LoopState.loop
  rcases hturn with ⟨hcom, hmore, hreads⟩ | ⟨hcom, hreads⟩
  · rw [hmore, hcom]
    exact .inject hreads
  · rw [hcom, if_pos (rfl : true = true)]
    split_ifs
    · exact ⟨hcom, hreads⟩
    · exact .finish hreads
    · exact ⟨hcom, hreads.startPoll .followUps⟩

section

variable (hgram : Grammatical state)

include hgram

theorem Grammatical.preparedInitial (hphase : state.phase = .preparingInitial)
    (snapshot : Option AgentContext) : Grammatical (state.preparedInitial config snapshot) := by
  unfold Grammatical at hgram
  rw [hphase] at hgram
  obtain ⟨hcom, hmore, hreads⟩ := hgram
  unfold LoopState.preparedInitial
  dsimp only
  split_ifs
  · exact .loop (.inl ⟨hcom, hmore, hreads⟩)
  · exact ⟨hcom, hmore, hreads.startPoll .initial⟩

theorem Grammatical.preparedNext (hphase : state.phase = .preparingNext)
    (snapshot : Option AgentContext) : Grammatical (state.preparedNext config snapshot) := by
  unfold Grammatical at hgram
  rw [hphase] at hgram
  obtain ⟨hcom, hreads⟩ := hgram
  have hprep : Reads { state with context := snapshot.getD state.context } .between := hreads
  unfold LoopState.preparedNext
  dsimp only
  split_ifs
  · exact ⟨hcom, hprep.startPoll .preparation⟩
  · exact .beginTurn hprep

theorem Grammatical.stopped (hphase : state.phase = .stopping) (stop : Bool) :
    Grammatical (state.stopped config stop) := by
  unfold Grammatical at hgram
  rw [hphase] at hgram
  obtain ⟨hcom, hreads⟩ := hgram
  unfold LoopState.stopped
  split_ifs
  · exact .finish hreads
  · exact .loop (.inr ⟨hcom, hreads⟩)
  · exact ⟨hcom, hreads.startPoll .turn⟩

theorem Grammatical.polled {site : PollSite} (hphase : state.phase = .polling site)
    (messages : List AgentMessage) : Grammatical (state.polled config site messages) := by
  unfold Grammatical at hgram
  rw [hphase] at hgram
  unfold LoopState.polled
  cases site with
  | initial => exact .loop (.inl hgram)
  | turn => exact .loop (.inr hgram)
  | preparation => exact .beginTurn hgram.2
  | followUps =>
    dsimp only
    split_ifs
    · exact .finish hgram.2
    · exact .loop (.inr hgram)

end

theorem Grammatical.deliver {rest : List AgentMessage} {delivered : AgentMessage} (hreads : Reads state .turn) :
    Grammatical (state.deliver delivered rest) := by
  show Grammar.start.read (state.trace ++ messageActions delivered) = _
  rw [Grammar.read_append hreads, Grammar.read_message]
  rfl

theorem Grammatical.startMessage (hreads : Reads state .turn) : Grammatical (state.startMessage message) := by
  show Grammar.start.read (state.trace ++ [Action.emit (.messageStart (.assistant message))]) = _
  rw [Grammar.read_append hreads, Grammar.read_emit, Grammar.accept, if_pos ⟨rfl, rfl⟩]
  rfl

theorem Grammatical.updateMessage (isToolCall : Bool)
    (hread : Grammar.start.read state.trace = some ⟨.turn, true, ∅, state.newMessages⟩) :
    Grammatical (state.updateMessage config message isToolCall) := by
  unfold LoopState.updateMessage
  dsimp only
  split_ifs
  · exact hread
  · show Grammar.start.read (state.trace ++ [Action.emit (.messageUpdate (.assistant message))]) = _
    rw [Grammar.read_append hread, Grammar.read_emit, Grammar.accept, if_pos rfl]
    rfl

theorem Grammatical.finishMessage {partialMessage : Option AssistantMessage}
    (hread : Grammar.start.read state.trace = some ⟨.turn, partialMessage.isSome, ∅, state.newMessages⟩) :
    Grammatical (state.finishMessage config partialMessage message) := by
  apply Grammatical.handleMessage
  cases partialMessage with
  | some started =>
    show Grammar.start.read (state.trace ++ [Action.emit (.messageEnd _)]) = _
    rw [Grammar.read_append hread, Grammar.read_emit]
    rfl
  | none =>
    show Grammar.start.read ((state.trace ++ [Action.emit (.messageStart _)]) ++ [Action.emit (.messageEnd _)]) = _
    rw [append_assoc, Grammar.read_append hread]
    exact Grammar.read_message _ _ _

end Steps

section BatchSteps

variable {state : LoopState} {batch : Batch} {call : Nat}

/-- What has been read while the batch goes on. -/
def BatchReads (state : LoopState) (batch : Batch) : Prop :=
  batch.Ordered ∧ Grammar.start.read state.trace =
    some ⟨.turn, false, batch.running, state.newMessages ++ Grammar.resultMessages batch.emitted⟩

theorem grammatical_batch (hphase : state.phase = .batch batch) : Grammatical state ↔ BatchReads state batch := by
  unfold Grammatical
  rw [hphase]
  rfl

variable (hreads : BatchReads state batch)

include hreads

theorem BatchReads.startCall (toolCall : AgentToolCall) (rest : List AgentToolCall)
    (hended : batch.mode = .sequential → batch.allEnded = true) :
    Grammatical (state.startCall batch toolCall rest) := by
  refine ⟨fun hmode call hcall hrun => ?_, ?_⟩
  · rw [Batch.running_append, Finset.mem_insert, Batch.running_of_allEnded (hended hmode)] at hrun
    have hlen : call < batch.calls.length := by
      rw [length_append] at hcall
      exact Nat.lt_of_succ_lt_succ hcall
    exact hrun.elim hlen.ne (Finset.notMem_empty call)
  · show Grammar.start.read (state.trace ++ [Action.emit (.toolExecutionStart batch.calls.length toolCall)]) = _
    have hfresh : batch.calls.length ∉ batch.running := by
      rw [Batch.mem_running]
      rintro ⟨_, hentry, _⟩
      rw [getElem?_eq_none le_rfl] at hentry
      exact absurd hentry nofun
    have hemit : Batch.emitted { batch with queue := rest, calls := batch.calls ++ [⟨toolCall, .preparing⟩] } =
        batch.emitted := by
      unfold Batch.emitted Batch.finalizedCalls
      rw [filterMap_append]
      exact congrArg (fun calls => match batch.mode with
        | .sequential => batch.interrupted ++ calls
        | .parallel => batch.interrupted) (append_nil _)
    rw [Grammar.read_append hreads.2, Grammar.read_emit, Grammar.accept, if_pos ⟨rfl, hfresh⟩, Batch.running_append,
      hemit]
    rfl

theorem BatchReads.setStatus {toolCall : AgentToolCall} {status : CallStatus}
    {entry : CallEntry} (hentry : batch.calls[call]? = some entry) (hopen : entry.status.finalized? = none)
    (hstat : status.finalized? = none) (executed : List (AgentToolCall × AgentTool)) :
    Grammatical (state.enter (.batch { batch.setStatus call toolCall status with executed })) := by
  refine ⟨hreads.1.setStatus hentry hopen, ?_⟩
  have hrun : Batch.running { batch.setStatus call toolCall status with executed } = batch.running :=
    Batch.running_setStatus hentry hopen hstat
  have hemit : Batch.emitted { batch.setStatus call toolCall status with executed } = batch.emitted := by
    unfold Batch.emitted
    show (match batch.mode with
      | .sequential => batch.interrupted ++ (batch.setStatus call toolCall status).finalizedCalls
      | .parallel => batch.interrupted) = _
    rw [Batch.finalizedCalls_setStatus hentry hopen hstat]
  rw [hrun, hemit]
  exact hreads.2

theorem BatchReads.endCall {finalized : FinalizedToolCallOutcome} {entry : CallEntry}
    (hentry : batch.calls[call]? = some entry) (hopen : entry.status.finalized? = none) :
    Grammatical (state.endCall batch call finalized) := by
  refine ⟨hreads.1.setStatus hentry hopen, ?_⟩
  have hended := Grammar.read_end (Batch.mem_running.mpr ⟨entry, hentry, hopen⟩)
    (state.newMessages ++ Grammar.resultMessages batch.emitted) finalized
  show Grammar.start.read (state.trace ++ (finalizedActions call finalized ++ _)) = _
  rw [Grammar.read_append hreads.2, Grammar.read_append hended, Batch.running_setEnded hentry]
  by_cases hmode : batch.mode = .sequential
  · have hemit : (batch.setStatus call finalized.toolCall (.ended finalized)).emitted =
        batch.emitted ++ [finalized] := by
      unfold Batch.emitted
      rw [hreads.1.finalizedCalls_setEnded hmode hentry hopen]
      show (match batch.mode with
        | .sequential => batch.interrupted ++ (batch.finalizedCalls ++ [finalized])
        | .parallel => batch.interrupted) = _
      rw [hmode, append_assoc]
    rw [if_pos hmode, hemit, resultActions, Grammar.read_message, Grammar.resultMessages, Grammar.resultMessages,
      map_append, map_append, append_assoc]
    rfl
  · have hemit : (batch.setStatus call finalized.toolCall (.ended finalized)).emitted = batch.emitted := by
      unfold Batch.emitted
      show (match batch.mode with
        | .sequential => _
        | .parallel => batch.interrupted) = _
      cases hpar : batch.mode with
      | sequential => exact absurd hpar hmode
      | parallel => rfl
    rw [if_neg hmode, hemit]
    rfl

variable (hphase : state.phase = .batch batch)

include hphase

theorem BatchReads.prepareCall (answer : PrepareAnswer) : Grammatical (state.prepareCall batch call answer) := by
  unfold LoopState.prepareCall
  split
  · next toolCall hentry =>
    split
    · exact hreads.endCall hentry rfl
    · split_ifs
      · exact hreads.setStatus hentry rfl rfl _
      · exact hreads.setStatus hentry rfl rfl batch.executed
  · exact (grammatical_batch hphase).mpr hreads

theorem BatchReads.updateCall
    (partialResult : AgentToolResult) : Grammatical (state.updateCall batch call partialResult) := by
  unfold LoopState.updateCall
  split
  · next toolCall tool hentry =>
    have hupd : (state.emit (.toolExecutionUpdate call toolCall partialResult)).phase = .batch batch := hphase
    refine (grammatical_batch hupd).mpr ⟨hreads.1, ?_⟩
    show Grammar.start.read (state.trace ++ [Action.emit (.toolExecutionUpdate call toolCall partialResult)]) = _
    rw [Grammar.read_append hreads.2, Grammar.read_emit, Grammar.accept,
      if_pos (Batch.mem_running.mpr ⟨_, hentry, rfl⟩)]
    rfl
  · exact (grammatical_batch hphase).mpr hreads

theorem BatchReads.executeCall (answer : ExecuteAnswer) : Grammatical (state.executeCall batch call answer) := by
  unfold LoopState.executeCall
  split
  · next toolCall tool hentry => exact hreads.setStatus hentry rfl rfl batch.executed
  · exact (grammatical_batch hphase).mpr hreads

theorem BatchReads.finalizeCall (answer : AfterAnswer) : Grammatical (state.finalizeCall batch call answer) := by
  unfold LoopState.finalizeCall
  split
  · next toolCall tool executed hentry => exact hreads.endCall hentry rfl
  · exact (grammatical_batch hphase).mpr hreads

theorem BatchReads.advanceSequential
    (hmode : batch.mode = .sequential) : Grammatical (state.advanceSequential batch) := by
  unfold LoopState.advanceSequential
  by_cases hended : batch.allEnded = true
  · rw [hended, if_neg (by decide)]
    split_ifs
    · apply Grammatical.completeBatch
      have hread := hreads.2
      rw [Batch.running_of_allEnded hended] at hread
      unfold Batch.emitted at hread
      rw [hmode] at hread
      exact hread
    · split
      · next toolCall rest _ => exact hreads.startCall toolCall rest fun _ => hended
      · exact (grammatical_batch hphase).mpr hreads
  · rw [Bool.not_eq_true] at hended
    rw [hended, if_pos (by decide)]
    exact (grammatical_batch hphase).mpr hreads

omit hphase in
theorem BatchReads.launch (hmode : batch.mode = .parallel) : Grammatical (state.enter (.batch batch.launch)) := by
  have hlaun : batch.launch.mode = .parallel := hmode
  refine ⟨fun hseq => absurd (hlaun.symm.trans hseq) nofun, ?_⟩
  have hemit : batch.launch.emitted = batch.emitted := by
    unfold Batch.emitted
    rw [hlaun, hmode]
    rfl
  rw [Batch.running_launch, hemit]
  exact hreads.2

theorem BatchReads.advanceParallel (hmode : batch.mode = .parallel) : Grammatical (state.advanceParallel batch) := by
  unfold LoopState.advanceParallel
  split_ifs with _ hended
  · apply Grammatical.completeBatch
    have hread := hreads.2
    rw [Batch.running_of_allEnded hended] at hread
    unfold Batch.emitted at hread
    rw [hmode] at hread
    show Grammar.start.read (state.trace ++ batch.finalizedCalls.flatMap resultActions) = _
    rw [Grammar.read_append hread, Grammar.read_results, append_assoc, Grammar.resultMessages,
      Grammar.resultMessages, Grammar.resultMessages, map_append, map_append]
    rfl
  · exact (grammatical_batch hphase).mpr hreads
  · exact (grammatical_batch hphase).mpr hreads
  · exact hreads.launch hmode
  · split
    · next toolCall rest _ =>
      exact hreads.startCall toolCall rest fun hseq => absurd (hmode.symm.trans hseq) nofun
    · exact (grammatical_batch hphase).mpr hreads

theorem BatchReads.advance : Grammatical (state.advance batch) := by
  unfold LoopState.advance
  cases hmode : batch.mode with
  | sequential => exact hreads.advanceSequential hphase hmode
  | parallel => exact hreads.advanceParallel hphase hmode

end BatchSteps

/-! ### Runs -/

/-- A response stream has a second `start` event. -/
def LoopEvent.startsAgain (state : LoopState) : LoopEvent → Bool
  | .stream (.start _) =>
    match state.phase with
    | .streaming (some _) => true
    | _ => false
  | _ => false

theorem Grammatical.abort {state : LoopState} (hgram : Grammatical state) :
    Grammatical { state.act [.abort] with aborted := true } := by
  have hread : Grammar.start.read (state.trace ++ [Action.abort]) = Grammar.start.read state.trace := by
    unfold Grammar.read
    rw [filterMap_append]
    exact congrArg Grammar.start.acceptAll (append_nil _)
  unfold Grammatical Reads at hgram ⊢
  simp only [LoopState.act, hread]
  exact hgram

theorem Grammatical.step {state : LoopState} (config : LoopConfig) (hgram : Grammatical state)
    {event : LoopEvent} (hstar : event.startsAgain state = false) : Grammatical (step config state event) := by
  unfold AgentLoop.step
  have hturn : ∀ phase, state.phase = phase → Grammatical (state.enter phase) := by
    rintro phase rfl
    exact hgram
  split
  · exact hgram.abort
  · next snapshot hphase => exact hgram.preparedInitial hphase snapshot
  · next snapshot hphase => exact hgram.preparedNext hphase snapshot
  · next site messages hphase => exact hgram.polled hphase messages
  · next extras hphase => exact hturn _ hphase
  · next message rest hphase => exact .deliver (hturn _ hphase)
  · next hphase => exact .respond (hturn _ hphase)
  · next partialMessage message hphase =>
    cases partialMessage with
    | none => exact .startMessage (hturn _ hphase)
    | some started =>
      unfold LoopEvent.startsAgain at hstar
      dsimp only at hstar
      rw [hphase] at hstar
      exact absurd hstar nofun
  · next started message isToolCall hphase => exact .updateMessage isToolCall (hturn _ hphase)
  · next partialMessage message hphase =>
    apply Grammatical.finishMessage
    cases partialMessage with
    | none => exact hturn _ hphase
    | some started => exact hturn _ hphase
  · next batch hphase => exact ((grammatical_batch hphase).mp hgram).advance hphase
  · next batch call answer hphase => exact ((grammatical_batch hphase).mp hgram).prepareCall hphase answer
  · next batch call partialResult hphase =>
    exact ((grammatical_batch hphase).mp hgram).updateCall hphase partialResult
  · next batch call answer hphase => exact ((grammatical_batch hphase).mp hgram).executeCall hphase answer
  · next batch call answer hphase => exact ((grammatical_batch hphase).mp hgram).finalizeCall hphase answer
  · next message resumed executed results tools hphase =>
    apply Grammatical.endTurn
    exact hturn _ hphase
  · next stop hphase => exact hgram.stopped hphase stop
  · exact hgram

theorem Grammatical.initial (context : AgentContext) (prompts : List AgentMessage) (resume : Option PendingToolCalls) :
    Grammatical (initial context prompts resume) := by
  refine ⟨rfl, rfl, ?_⟩
  have hstart : Grammar.start.read [.emit .agentStart, .emit .turnStart] = some ⟨.turn, false, ∅, []⟩ := rfl
  show Grammar.start.read ([.emit .agentStart, .emit .turnStart] ++ prompts.flatMap messageActions) = _
  rw [Grammar.read_append hstart, Grammar.read_messages]
  rfl

theorem Grammatical.start {context : AgentContext} {entry : Entry} {state : LoopState}
    (hstart : start context entry = some state) : Grammatical state := by
  cases entry with
  | prompts prompts =>
    obtain rfl := Option.some.inj hstart
    exact .initial _ _ _
  | «continue» =>
    unfold AgentLoop.start at hstart
    dsimp only at hstart
    split at hstart
    · exact absurd hstart nofun
    · split_ifs at hstart
      obtain rfl := Option.some.inj hstart
      exact .initial _ _ _
  | resume =>
    obtain ⟨pending, _, rfl⟩ := map_eq_some_iff.mp hstart
    exact .initial _ _ _

theorem Grammatical.accepted {state : LoopState} (hgram : Grammatical state) :
    ∃ grammar, Grammar.start.acceptAll state.events = some grammar ∧
      (state.phase = .finished → grammar = ⟨.ended, false, ∅, state.newMessages⟩) := by
  unfold Grammatical at hgram
  split at hgram
  iterate 2 next hphase => exact ⟨_, hgram.2.2, fun hfin => absurd (hphase.symm.trans hfin) nofun⟩
  iterate 5 next hphase => exact ⟨_, hgram.2, fun hfin => absurd (hphase.symm.trans hfin) nofun⟩
  iterate 5 next hphase => exact ⟨_, hgram, fun hfin => absurd (hphase.symm.trans hfin) nofun⟩
  · next hphase => exact ⟨_, hgram.2, fun hfin => absurd (hphase.symm.trans hfin) nofun⟩
  · exact ⟨_, hgram, fun _ => rfl⟩

section Sample

def parallelConfig : LoopConfig := ⟨.parallel, false⟩

def readTool : AgentTool := ⟨js "read", none, none⟩

def userMessage (text : String) : AgentMessage := .user (.string (js text))

def answerMessage : AssistantMessage := ⟨[.block (.string (js "ok"))], .stop⟩

/-- A stream that starts twice. -/
def restartedEvents : List LoopEvent :=
  [.preparedInitial none, .polled [], .stream (.start answerMessage), .stream (.start answerMessage),
    .stream (.finish answerMessage), .stopped false, .polled [], .polled []]

def readCall (id : String) : AgentToolCall := ⟨js id, js "read", .object []⟩

def toolMessage : AssistantMessage := ⟨[.toolCall (readCall "a"), .toolCall (readCall "b")], .toolUse⟩

/-- Two calls in parallel, of which the second ends first, with an update of the other in between. -/
def toolEvents : List LoopEvent :=
  [.preparedInitial none, .polled [], .stream (.start toolMessage), .stream (.update toolMessage true),
    .stream (.finish toolMessage), .advance, .prepareCall 0 ⟨none, .returns false [] false⟩, .advance,
    .prepareCall 1 ⟨none, .returns false [] false⟩, .advance, .executeCall 1 (.throws (js "no such file")),
    .finalizeCall 1 .nothing, .updateCall 0 (createErrorToolResult []),
    .executeCall 0 (.returns (createErrorToolResult [])), .finalizeCall 0 .nothing, .advance, .completed [readTool],
    .stopped false, .polled [], .preparedNext none, .polled [], .stream (.finish answerMessage), .stopped false,
    .polled [], .polled []]

end Sample

end PiRp.AgentLoop
