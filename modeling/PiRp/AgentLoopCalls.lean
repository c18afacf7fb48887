import PiRp.AgentLoopTurns

/-! What the agent loop answers to tool calls: each call of a message has one result, in the order of the calls and
right after the message; and a resumed batch answers the calls that had none, and executes only those whose tool may
be replayed. -/

namespace PiRp.AgentLoop

open List LoopState

/-! ### Pending tool calls -/

def AgentMessage.resultId? : AgentMessage → Option JsStr
  | .toolResult message => some message.toolCallId
  | _ => none

/-- A user or an assistant message. -/
def AgentMessage.isTurn : AgentMessage → Bool
  | .user _ | .assistant _ => true
  | .toolResult _ | .custom _ => false

/-- The calls of the message that have no result in the messages. -/
def unansweredCalls (message : AssistantMessage) (after : List AgentMessage) : List AgentToolCall :=
  message.toolCalls.filter fun toolCall => toolCall.id ∉ after.filterMap AgentMessage.resultId?

/-- Pending tool calls are those of the last assistant message that have no result. -/
structure PendingToolCalls.Of (pending : PendingToolCalls) (messages : List AgentMessage) : Prop where
  toolUse : pending.assistantMessage.stopReason = .toolUse
  some : pending.toolCalls ≠ []
  calls : ∃ before after, messages = before ++ .assistant pending.assistantMessage :: after ∧
    (∀ message ∈ after, message.isTurn = false) ∧
    pending.toolCalls = unansweredCalls pending.assistantMessage after

variable {messages : List AgentMessage}

theorem findPendingFrom_eq_some {answered : List JsStr} {pending : PendingToolCalls}
    (hpend : findPendingFrom answered messages = some pending) :
    pending.assistantMessage.stopReason = .toolUse ∧ pending.toolCalls ≠ [] ∧
    ∃ after before, messages = after ++ .assistant pending.assistantMessage :: before ∧
      (∀ message ∈ after, message.isTurn = false) ∧
      pending.toolCalls = pending.assistantMessage.toolCalls.filter fun toolCall =>
        toolCall.id ∉ answered ∧ toolCall.id ∉ after.filterMap AgentMessage.resultId? := by
  induction messages generalizing answered with
  | nil => exact absurd hpend nofun
  | cons message rest ih =>
    cases message with
    | user content => exact absurd hpend nofun
    | custom content =>
      obtain ⟨htoolUse, hsome, after, before, hrest, hafter, hcalls⟩ := ih hpend
      refine ⟨htoolUse, hsome, .custom content :: after, before, congrArg _ hrest, ?_, hcalls⟩
      intro message hmsg
      rcases mem_cons.mp hmsg with rfl | hold
      · rfl
      · exact hafter message hold
    | toolResult result =>
      obtain ⟨htoolUse, hsome, after, before, hrest, hafter, hcalls⟩ := ih hpend
      refine ⟨htoolUse, hsome, .toolResult result :: after, before, congrArg _ hrest, ?_, ?_⟩
      · intro message hmsg
        rcases mem_cons.mp hmsg with rfl | hold
        · rfl
        · exact hafter message hold
      · rw [hcalls]
        apply filter_congr
        intro toolCall _
        rw [filterMap_cons_some (show (AgentMessage.toolResult result).resultId? = _ from rfl)]
        simp only [mem_cons, not_or, and_assoc, decide_eq_decide]
        constructor
        · rintro ⟨hresult, hans, hlater⟩
          exact ⟨hans, hresult, hlater⟩
        · rintro ⟨hans, hresult, hlater⟩
          exact ⟨hresult, hans, hlater⟩
    | assistant message =>
      unfold findPendingFrom at hpend
      dsimp only at hpend
      split_ifs at hpend with hstop hnone
      obtain rfl := Option.some.inj hpend
      refine ⟨not_not.mp hstop, hnone, [], rest, rfl, fun _ hmem => absurd hmem not_mem_nil, ?_⟩
      apply filter_congr
      intro toolCall _
      rw [filterMap_nil, decide_eq_decide]
      exact (and_iff_left not_mem_nil).symm

theorem findPendingToolCalls_of {pending : PendingToolCalls}
    (hpend : findPendingToolCalls messages = some pending) : pending.Of messages := by
  obtain ⟨htoolUse, hsome, after, before, hrev, hafter, hcalls⟩ := findPendingFrom_eq_some hpend
  refine ⟨htoolUse, hsome, before.reverse, after.reverse, ?_, fun message hmsg => ?_, ?_⟩
  · rw [reverse_eq_iff.mp hrev, reverse_append, reverse_cons, append_assoc]
    rfl
  · exact hafter message (mem_reverse.mp hmsg)
  · rw [hcalls, unansweredCalls]
    apply filter_congr
    intro toolCall _
    rw [filterMap_reverse, decide_eq_decide, mem_reverse]
    exact and_iff_right not_mem_nil

theorem PendingToolCalls.Of.subset {pending : PendingToolCalls}
    (hpend : pending.Of messages) : pending.toolCalls ⊆ pending.assistantMessage.toolCalls := by
  obtain ⟨_, after, _, _, hcalls⟩ := hpend.calls
  intro toolCall hmem
  rw [hcalls] at hmem
  exact mem_of_mem_filter hmem

/-! ### The calls of a message and their results -/

def AgentToolCall.key (toolCall : AgentToolCall) : JsStr × JsStr := (toolCall.id, toolCall.name)

def ToolResultMessage.key (result : ToolResultMessage) : JsStr × JsStr := (result.toolCallId, result.toolName)

/-- The response has failed, and its calls are not looked at. -/
def AssistantMessage.failed (message : AssistantMessage) : Bool :=
  message.stopReason = .error || message.stopReason = .aborted

/-- The results of a turn answer the calls of its message, and those of a resumed batch the pending calls. -/
structure Answers (pending : Option PendingToolCalls) (message : AssistantMessage) (resumed : Bool)
    (executed : List (AgentToolCall × AgentTool)) (results : List ToolResultMessage) : Prop where
  failed : message.failed = true → results = []
  calls : resumed = false → message.failed = false →
    results.map ToolResultMessage.key = message.toolCalls.map AgentToolCall.key
  resumed : resumed = true → ∃ found, pending = some found ∧ message = found.assistantMessage ∧
    (results.map ToolResultMessage.key).Perm (found.toolCalls.map AgentToolCall.key) ∧
    ∀ call ∈ executed, call.1 ∈ found.toolCalls ∧ call.2.replay = some .safe

/-- The calls of a batch, those that have been started first. -/
def Batch.requested (batch : Batch) : List AgentToolCall := batch.calls.map CallEntry.toolCall ++ batch.queue

/-- The calls that a batch was made of. -/
structure Requests (pending : Option PendingToolCalls) (context : AgentContext) (message : AssistantMessage)
    (resumed : Bool) (interrupted : List FinalizedToolCallOutcome) (requested : List AgentToolCall) : Prop where
  failed : message.failed = false
  calls : resumed = false → interrupted = [] ∧ requested = message.toolCalls
  resumed : resumed = true → ∃ found, pending = some found ∧ message = found.assistantMessage ∧
    (interrupted.map FinalizedToolCallOutcome.toolCall ++ requested).Perm found.toolCalls ∧
    ∀ toolCall ∈ requested, isReplayable context toolCall = true

structure Batch.Sound (pending : Option PendingToolCalls) (context : AgentContext) (batch : Batch) : Prop where
  requested : Requests pending context batch.message batch.resumed batch.interrupted batch.requested
  ended : ∀ entry ∈ batch.calls, ∀ finalized, entry.status = .ended finalized → finalized.toolCall = entry.toolCall
  prepared : ∀ entry ∈ batch.calls, ∀ tool, entry.status = .prepared tool →
    context.findTool entry.toolCall.name = some tool
  executed : ∀ call ∈ batch.executed, call.1 ∈ batch.requested ∧ context.findTool call.1.name = some call.2
  launched : batch.launched = true → batch.queue = []

theorem key_createToolResultMessage (finalized : FinalizedToolCallOutcome) :
    (createToolResultMessage finalized).key = finalized.toolCall.key := rfl

theorem map_key_createToolResultMessage (finalized : List FinalizedToolCallOutcome) :
    (finalized.map createToolResultMessage).map ToolResultMessage.key =
      (finalized.map FinalizedToolCallOutcome.toolCall).map AgentToolCall.key := by
  rw [map_map, map_map]
  apply map_congr_left
  intro outcome _
  exact key_createToolResultMessage outcome

theorem replay_of_isReplayable {context : AgentContext} {toolCall : AgentToolCall} {tool : AgentTool}
    (hrep : isReplayable context toolCall = true) (htool : context.findTool toolCall.name = some tool) :
    tool.replay = some .safe := by
  unfold isReplayable at hrep
  rw [htool, Option.any_some, decide_eq_true_eq] at hrep
  exact hrep

theorem toolCall_finalizeExecutedToolCall (toolCall : AgentToolCall) (executed : ExecutedToolCallOutcome)
    (answer : AfterAnswer) : (finalizeExecutedToolCall toolCall executed answer).toolCall = toolCall := by
  cases answer with
  | nothing => rfl
  | throws message => rfl
  | returns after => rfl

section Batch

variable {pending : Option PendingToolCalls} {context : AgentContext} {batch : Batch}

theorem map_finalized {calls : List CallEntry} (hended : ∀ entry ∈ calls, entry.status.finalized?.isSome = true)
    (hsame : ∀ entry ∈ calls, ∀ finalized, entry.status = .ended finalized → finalized.toolCall = entry.toolCall) :
    (calls.filterMap fun entry => entry.status.finalized?).map FinalizedToolCallOutcome.toolCall =
      calls.map CallEntry.toolCall := by
  induction calls with
  | nil => rfl
  | cons entry calls ih =>
    obtain ⟨finalized, hfin⟩ := Option.isSome_iff_exists.mp (hended entry mem_cons_self)
    have hfil : ((entry :: calls).filterMap fun other => other.status.finalized?) =
        finalized :: calls.filterMap fun other => other.status.finalized? := filterMap_cons_some hfin
    rw [hfil, map_cons, map_cons,
      ih (fun other hother => hended other (mem_cons_of_mem _ hother))
        fun other hother => hsame other (mem_cons_of_mem _ hother)]
    congr 1
    apply hsame entry mem_cons_self
    unfold CallStatus.finalized? at hfin
    split at hfin
    · next outcome hstat => rw [hstat, Option.some.inj hfin]
    · exact absurd hfin nofun

theorem Batch.Sound.finalized (hsound : batch.Sound pending context) (hended : batch.allEnded = true) :
    batch.finalizedCalls.map FinalizedToolCallOutcome.toolCall = batch.calls.map CallEntry.toolCall :=
  map_finalized (all_eq_true.mp hended) hsound.ended

theorem Batch.Sound.answers (hsound : batch.Sound pending context) (hended : batch.allEnded = true)
    (hqueue : batch.queue = []) : Answers pending batch.message batch.resumed batch.executed
      ((batch.interrupted ++ batch.finalizedCalls).map createToolResultMessage) := by
  have hreq : batch.requested = batch.finalizedCalls.map FinalizedToolCallOutcome.toolCall := by
    rw [Batch.requested, hqueue, append_nil, hsound.finalized hended]
  refine ⟨fun hfail => ?_, fun hres _ => ?_, fun hres => ?_⟩
  · exact absurd (hfail.symm.trans hsound.requested.failed) nofun
  · obtain ⟨hnone, hcalls⟩ := hsound.requested.calls hres
    rw [map_key_createToolResultMessage, hnone, nil_append, ← hreq, hcalls]
  · obtain ⟨found, hpend, hmsg, hperm, hrep⟩ := hsound.requested.resumed hres
    refine ⟨found, hpend, hmsg, ?_, fun call hcall => ?_⟩
    · rw [map_key_createToolResultMessage, map_append, ← hreq]
      exact hperm.map _
    · obtain ⟨hmem, htool⟩ := hsound.executed call hcall
      exact ⟨hperm.mem_iff.mp (mem_append_right _ hmem), replay_of_isReplayable (hrep call.1 hmem) htool⟩

/-! ### The steps of a batch -/

variable {toolCall : AgentToolCall}

theorem requested_setStatus {call : Nat} {old : CallStatus}
    (hcall : batch.calls[call]? = some ⟨toolCall, old⟩) (status : CallStatus) :
    (batch.setStatus call toolCall status).requested = batch.requested := by
  have hsame : (batch.calls.set call ⟨toolCall, status⟩).map CallEntry.toolCall = batch.calls.map CallEntry.toolCall := by
    have hget : (batch.calls.map CallEntry.toolCall)[call]? = some toolCall := by
      rw [getElem?_map, hcall]
      rfl
    obtain ⟨hlen, hentry⟩ := List.getElem?_eq_some_iff.mp hget
    rw [map_set]
    show (batch.calls.map CallEntry.toolCall).set call toolCall = _
    conv_lhs => rw [← hentry]
    exact set_getElem_self hlen
  unfold Batch.requested
  show (batch.calls.set call ⟨toolCall, status⟩).map CallEntry.toolCall ++ batch.queue = _
  rw [hsame]

variable {status : CallStatus}

variable (hsound : batch.Sound pending context)

include hsound

theorem Batch.Sound.setStatus {call : Nat}
    {old : CallStatus} (hcall : batch.calls[call]? = some ⟨toolCall, old⟩)
    (hended : ∀ finalized, status = .ended finalized → finalized.toolCall = toolCall)
    (hprep : ∀ tool, status = .prepared tool → context.findTool toolCall.name = some tool) :
    (batch.setStatus call toolCall status).Sound pending context := by
  have hreq := requested_setStatus hcall status
  refine ⟨?_, fun entry hentry => ?_, fun entry hentry => ?_, fun executed hexec => ?_, hsound.launched⟩
  · rw [hreq]
    exact hsound.requested
  · rcases mem_or_eq_of_mem_set hentry with hold | rfl
    · exact hsound.ended entry hold
    · exact hended
  · rcases mem_or_eq_of_mem_set hentry with hold | rfl
    · exact hsound.prepared entry hold
    · exact hprep
  · rw [hreq]
    exact hsound.executed executed hexec

theorem Batch.Sound.execute {calls : List (AgentToolCall × AgentTool)}
    (hcalls : ∀ call ∈ calls, call.1 ∈ batch.requested ∧ context.findTool call.1.name = some call.2) :
    Batch.Sound pending context { batch with executed := batch.executed ++ calls } := by
  refine { hsound with executed := fun call hcall => ?_ }
  rcases mem_append.mp hcall with hold | hnew
  · exact hsound.executed call hold
  · exact hcalls call hnew

theorem Batch.Sound.startCall
    {rest : List AgentToolCall} (hqueue : batch.queue = toolCall :: rest) :
    Batch.Sound pending context { batch with queue := rest, calls := batch.calls ++ [⟨toolCall, .preparing⟩] } := by
  have hreq : Batch.requested { batch with queue := rest, calls := batch.calls ++ [⟨toolCall, .preparing⟩] } =
      batch.requested := by
    unfold Batch.requested
    rw [map_append, hqueue, append_assoc]
    rfl
  refine ⟨?_, fun entry hentry => ?_, fun entry hentry => ?_, fun call hcall => ?_,
    fun hlaun => absurd (hqueue.symm.trans (hsound.launched hlaun)) nofun⟩
  · rw [hreq]
    exact hsound.requested
  · rcases mem_append.mp hentry with hold | hnew
    · exact hsound.ended entry hold
    · rw [mem_singleton.mp hnew]
      exact nofun
  · rcases mem_append.mp hentry with hold | hnew
    · exact hsound.prepared entry hold
    · rw [mem_singleton.mp hnew]
      exact nofun
  · rw [hreq]
    exact hsound.executed call hcall

omit hsound in
theorem launch_eq_ended {finalized : FinalizedToolCallOutcome} :
    status.launch = .ended finalized ↔ status = .ended finalized := by
  cases status with
  | prepared tool => exact ⟨nofun, nofun⟩
  | preparing => exact Iff.rfl
  | running tool => exact Iff.rfl
  | finishing tool executed => exact Iff.rfl
  | ended outcome => exact Iff.rfl

omit hsound in
theorem launch_ne_prepared {tool : AgentTool} : status.launch ≠ .prepared tool := by
  cases status with
  | prepared tool => exact nofun
  | preparing => exact nofun
  | running tool => exact nofun
  | finishing tool executed => exact nofun
  | ended outcome => exact nofun

theorem Batch.Sound.launch (hqueue : batch.queue = []) :
    batch.launch.Sound pending context := by
  have hreq : batch.launch.requested = batch.requested := by
    unfold Batch.requested Batch.launch
    dsimp only
    rw [map_map]
    rfl
  refine ⟨?_, fun entry hentry finalized hended => ?_, fun entry hentry tool hprep => ?_, fun call hcall => ?_,
    fun _ => hqueue⟩
  · rw [hreq]
    exact hsound.requested
  · obtain ⟨old, hold, rfl⟩ := mem_map.mp hentry
    exact hsound.ended old hold finalized (launch_eq_ended.mp hended)
  · obtain ⟨old, _, rfl⟩ := mem_map.mp hentry
    exact absurd hprep launch_ne_prepared
  · rw [hreq]
    rcases mem_append.mp hcall with hold | hnew
    · exact hsound.executed call hold
    · obtain ⟨entry, hentry, hprep⟩ := mem_filterMap.mp hnew
      split at hprep
      · next tool hstat =>
        obtain rfl := Option.some.inj hprep
        exact ⟨mem_append_left _ (mem_map_of_mem hentry), hsound.prepared entry hentry tool hstat⟩
      · exact absurd hprep nofun

end Batch

/-! ### The steps -/

section Steps

variable {pending : Option PendingToolCalls} {state : LoopState} {config : LoopConfig} {message : AssistantMessage}
  {resumed : Bool} {executed : List (AgentToolCall × AgentTool)} {messages : List AgentMessage}

/-- The turns of a run that is not aborted have the results of their calls. -/
structure Answered (pending : Option PendingToolCalls) (state : LoopState) : Prop where
  aborted : state.aborted = false
  resume : ∀ found, state.resume = some found → pending = some found
  turns : ∀ turn ∈ state.turns, Answers pending turn.message turn.resumed turn.executed turn.results

def Phase.Answering (pending : Option PendingToolCalls) (context : AgentContext) : Phase → Prop
  | .batch running => running.Sound pending context
  | .completing message resumed executed results => Answers pending message resumed executed results
  | _ => True

structure Answering (pending : Option PendingToolCalls) (state : LoopState) : Prop where
  answered : Answered pending state
  phase : state.phase.Answering pending state.context

section

variable (hans : Answered pending state)

include hans

theorem Answered.finish : Answering pending state.finish :=
  ⟨{ hans with }, trivial⟩

theorem Answered.startPoll (site : PollSite) : Answering pending (state.startPoll site) :=
  ⟨{ hans with }, trivial⟩

theorem Answered.closeTurn {results : List ToolResultMessage}
    (hanswers : Answers pending message resumed executed results) :
    Answered pending (state.closeTurn message resumed executed results) := by
  refine ⟨hans.aborted, hans.resume, fun turn hturn => ?_⟩
  rcases mem_append.mp hturn with hold | hnew
  · exact hans.turns turn hold
  · rw [mem_singleton.mp hnew]
    exact hanswers

theorem Answered.endTurn {results : List ToolResultMessage}
    (hanswers : Answers pending message resumed executed results) :
    Answering pending (state.endTurn message resumed executed results) := by
  have hclos : Answered pending (state.closeTurn message resumed executed results) := hans.closeTurn hanswers
  exact ⟨{ hclos with }, trivial⟩

theorem Answered.completeBatch {finalized : List FinalizedToolCallOutcome}
    (hanswers : Answers pending message resumed executed (finalized.map createToolResultMessage)) (terminate : Bool) :
    Answering pending (state.completeBatch message resumed executed finalized terminate) :=
  ⟨{ hans with }, hanswers⟩

theorem Answered.answerCalls (finalized : List FinalizedToolCallOutcome) :
    Answered pending (state.answerCalls finalized) :=
  { hans with }

theorem Answered.executeToolCalls {interrupted : List FinalizedToolCallOutcome} {toolCalls : List AgentToolCall}
    (hreques : Requests pending state.context message resumed interrupted toolCalls) :
    Answering pending (state.executeToolCalls config message resumed interrupted toolCalls) := by
  refine ⟨{ hans with }, hreques, ?_, ?_, ?_, nofun⟩
  · exact fun entry hentry => absurd hentry not_mem_nil
  · exact fun entry hentry => absurd hentry not_mem_nil
  · exact fun call hcall => absurd hcall not_mem_nil

end

theorem answers_truncated (hmsg : message.failed = false) :
    Answers pending message false [] ((message.toolCalls.map truncatedResult).map createToolResultMessage) := by
  refine ⟨fun hfail => absurd (hfail.symm.trans hmsg) nofun, fun _ _ => ?_, nofun⟩
  have hcalls : (message.toolCalls.map truncatedResult).map FinalizedToolCallOutcome.toolCall = message.toolCalls := by
    rw [map_map]
    exact map_id' _
  rw [map_key_createToolResultMessage, hcalls]

theorem map_toolCall_interruptedResult (toolCalls : List AgentToolCall) :
    (toolCalls.map interruptedResult).map FinalizedToolCallOutcome.toolCall = toolCalls := by
  rw [map_map]
  exact map_id' _

variable {found : PendingToolCalls}

theorem requests_pending (hfound : found.Of messages) (context : AgentContext) :
    Requests (some found) context found.assistantMessage true
      ((found.toolCalls.filter fun toolCall => !isReplayable context toolCall).map interruptedResult)
      (found.toolCalls.filter fun toolCall => isReplayable context toolCall) := by
  refine ⟨?_, nofun, fun _ => ⟨found, rfl, rfl, ?_, fun toolCall hmem => of_mem_filter hmem⟩⟩
  · unfold AssistantMessage.failed
    rw [hfound.toolUse]
    rfl
  · rw [map_toolCall_interruptedResult]
    exact perm_append_comm.trans (filter_append_perm _ _)

theorem Answered.executePendingToolCalls (hans : Answered (some found) state)
    (hfound : found.Of messages) : Answering (some found) (state.executePendingToolCalls config found) := by
  have hreques := requests_pending hfound state.context
  unfold LoopState.executePendingToolCalls
  dsimp only
  split_ifs with hnone
  · apply (hans.answerCalls _).completeBatch
    refine ⟨fun hfail => absurd (hfail.symm.trans hreques.failed) nofun, nofun, fun _ => ?_⟩
    obtain ⟨other, hother, hmsg, hperm, _⟩ := hreques.resumed rfl
    obtain rfl := Option.some.inj hother
    rw [hnone, append_nil] at hperm
    refine ⟨found, rfl, hmsg, ?_, fun call hcall => absurd hcall not_mem_nil⟩
    rw [map_key_createToolResultMessage]
    exact hperm.map _
  · exact (hans.answerCalls _).executeToolCalls hreques

section

variable (hans : Answered pending state)

include hans

theorem Answered.handleMessage : Answering pending (state.handleMessage config message none) := by
  unfold LoopState.handleMessage
  dsimp only
  split_ifs with hfail hnone hlen
  · apply Answered.finish
    apply hans.closeTurn
    refine ⟨fun _ => rfl, fun _ hsuc => ?_, nofun⟩
    have hmsg : message.failed = true := hfail
    exact absurd (hsuc.symm.trans hmsg) nofun
  · have hstopp : Answered pending { state with hasMoreToolCalls := false } :=
      { hans with }
    apply hstopp.endTurn
    refine ⟨fun _ => rfl, fun _ _ => ?_, nofun⟩
    rw [hnone]
    rfl
  · have hopen : Answered pending { state with hasMoreToolCalls := false } :=
      { hans with }
    exact (hopen.answerCalls _).completeBatch (answers_truncated (Bool.not_eq_true _ ▸ hfail)) _
  · have hopen : Answered pending { state with hasMoreToolCalls := false } :=
      { hans with }
    exact hopen.executeToolCalls ⟨Bool.not_eq_true _ ▸ hfail, fun _ => ⟨rfl, rfl⟩, nofun⟩

omit hans in
theorem Answered.handlePending (hans : Answered (some found) state) (hfound : found.Of messages) :
    Answering (some found) (state.handleMessage config found.assistantMessage (some found)) := by
  have hcalls : found.assistantMessage.toolCalls ≠ [] := by
    intro hnone
    apply hfound.some
    exact subset_nil.mp (hnone ▸ hfound.subset)
  have hsuc : ¬(decide (found.assistantMessage.stopReason = .error) ||
      decide (found.assistantMessage.stopReason = .aborted)) = true := by
    rw [hfound.toolUse]
    exact nofun
  have hopen : Answered (some found) { state with hasMoreToolCalls := false } :=
    { hans with }
  unfold LoopState.handleMessage
  dsimp only
  rw [if_neg hsuc, if_neg hcalls]
  exact hopen.executePendingToolCalls hfound

section

variable (hfound : ∀ found ∈ pending, found.Of messages)

include hfound

theorem Answered.respond : Answering pending (state.respond config) := by
  unfold LoopState.respond
  split
  · next found hresume =>
    obtain rfl := hans.resume found hresume
    have hres : Answered (some found) { state with resume := none } :=
      ⟨hans.aborted, nofun, hans.turns⟩
    exact hres.handlePending (hfound found rfl)
  · exact ⟨{ hans with }, trivial⟩

theorem Answered.inject : Answering pending (state.inject config) := by
  unfold LoopState.inject
  dsimp only
  split_ifs
  · apply Answered.respond
    · exact { hans with }
    · exact hfound
  · exact ⟨{ hans with }, trivial⟩
  · exact ⟨{ hans with }, trivial⟩

theorem Answered.beginTurn : Answering pending (state.beginTurn config) := by
  apply Answered.inject
  · exact { hans with }
  · exact hfound

theorem Answered.loop : Answering pending (state.loop config) := by
  unfold LoopState.loop
  split_ifs
  · exact ⟨{ hans with }, trivial⟩
  · exact hans.inject hfound
  · exact hans.finish
  · exact hans.startPoll _

theorem Answered.polled
    (site : PollSite) (answer : List AgentMessage) : Answering pending (state.polled config site answer) := by
  unfold LoopState.polled
  cases site with
  | initial =>
    apply Answered.loop
    · exact { hans with }
    · exact hfound
  | turn =>
    apply Answered.loop
    · exact { hans with }
    · exact hfound
  | preparation =>
    apply Answered.beginTurn
    · exact { hans with }
    · exact hfound
  | followUps =>
    dsimp only
    split_ifs
    · apply Answered.finish
      exact { hans with }
    · apply Answered.loop
      · exact { hans with }
      · exact hfound

end

theorem Answered.finishMessage (partialMessage : Option AssistantMessage) :
    Answering pending (state.finishMessage config partialMessage message) := by
  unfold LoopState.finishMessage
  dsimp only
  cases partialMessage with
  | some old =>
    apply Answered.handleMessage
    exact { hans with }
  | none =>
    apply Answered.handleMessage
    exact { hans with }

end

/-! ### The steps of a batch -/

section Running

variable {batch : Batch} (hans : Answered pending state) (hsound : batch.Sound pending state.context)
include hans hsound

theorem Answered.enterBatch : Answering pending (state.enter (.batch batch)) :=
  ⟨{ hans with }, hsound⟩

theorem Answered.finishBatch (hended : batch.allEnded = true) (hqueue : batch.queue = []) :
    Answering pending (state.finishBatch batch) :=
  hans.completeBatch (hsound.answers hended hqueue) _

theorem Answered.startCall {toolCall : AgentToolCall} {rest : List AgentToolCall}
    (hqueue : batch.queue = toolCall :: rest) : Answering pending (state.startCall batch toolCall rest) :=
  ⟨{ hans with }, hsound.startCall hqueue⟩

omit hsound in
theorem Answered.queue_of_stopsCalls (hstops : state.stopsCalls batch = true) : batch.queue = [] := by
  unfold stopsCalls at hstops
  rw [hans.aborted, Bool.false_and, Bool.false_or] at hstops
  exact List.isEmpty_iff.mp hstops

theorem Answered.endCall {call : Nat} {finalized : FinalizedToolCallOutcome} {old : CallStatus}
    (hcall : batch.calls[call]? = some ⟨finalized.toolCall, old⟩) :
    Answering pending (state.endCall batch call finalized) := by
  refine ⟨{ hans with }, hsound.setStatus hcall ?_ nofun⟩
  intro other hother
  rw [CallStatus.ended.inj hother]

theorem Answered.advance (hansw : Answering pending state) : Answering pending (state.advance batch) := by
  unfold LoopState.advance
  cases batch.mode with
  | sequential =>
    show Answering pending (state.advanceSequential batch)
    unfold advanceSequential
    split_ifs with hended hstops
    · exact hansw
    · rw [Bool.not_eq_true', Bool.not_eq_false] at hended
      exact hans.finishBatch hsound hended (hans.queue_of_stopsCalls hstops)
    · split
      · next hqueue => exact hans.startCall hsound hqueue
      · exact hansw
  | parallel =>
    show Answering pending (state.advanceParallel batch)
    unfold advanceParallel
    split_ifs with hlaun hended _ hstops
    · apply Answered.finishBatch
      · exact { hans with }
      · exact hsound
      · exact hended
      · exact hsound.launched hlaun
    · exact hansw
    · exact hansw
    · exact hans.enterBatch (hsound.launch (hans.queue_of_stopsCalls hstops))
    · split
      · next hqueue => exact hans.startCall hsound hqueue
      · exact hansw

omit hans hsound in
theorem findTool_of_prepared {context : AgentContext} {toolCall : AgentToolCall} {answer : PrepareAnswer}
    {aborted : Bool} {tool : AgentTool} (hprep : prepareToolCall context toolCall answer aborted = .prepared tool) :
    context.findTool toolCall.name = some tool := by
  unfold prepareToolCall at hprep
  split at hprep
  · exact absurd hprep nofun
  · next found hfound =>
    split at hprep
    · exact absurd hprep nofun
    · split_ifs at hprep
      rw [hfound, Preparation.prepared.inj hprep]

variable (hansw : Answering pending state)

include hansw

theorem Answered.prepareCall (call : Nat) (answer : PrepareAnswer) :
    Answering pending (state.prepareCall batch call answer) := by
  unfold LoopState.prepareCall
  split
  · next toolCall hcall =>
    split
    · exact hans.endCall hsound hcall
    · next tool hprep =>
      have htool := findTool_of_prepared hprep
      have hmem : toolCall ∈ batch.requested :=
        mem_append_left _ (mem_map_of_mem (mem_of_getElem? hcall))
      split_ifs
      · apply hans.enterBatch
        have hset : (batch.setStatus call toolCall (.running tool)).Sound pending state.context :=
          hsound.setStatus hcall nofun nofun
        apply hset.execute
        intro executed hexec
        rw [mem_singleton.mp hexec, requested_setStatus hcall]
        exact ⟨hmem, htool⟩
      · have hset : (batch.setStatus call toolCall (.prepared tool)).Sound pending state.context := by
          refine hsound.setStatus hcall nofun fun other hother => ?_
          rw [← CallStatus.prepared.inj hother]
          exact htool
        exact hans.enterBatch hset
  · exact hansw

theorem Answered.executeCall (call : Nat) (answer : ExecuteAnswer) :
    Answering pending (state.executeCall batch call answer) := by
  unfold LoopState.executeCall
  split
  · next toolCall tool hcall =>
    apply hans.enterBatch
    exact hsound.setStatus hcall nofun nofun
  · exact hansw

theorem Answered.finalizeCall (call : Nat) (answer : AfterAnswer) :
    Answering pending (state.finalizeCall batch call answer) := by
  unfold LoopState.finalizeCall
  split
  · next toolCall tool executed hcall =>
    apply hans.endCall hsound
    rw [toolCall_finalizeExecutedToolCall]
    exact hcall
  · exact hansw

end Running

theorem Answering.step (hansw : Answering pending state) (hfound : ∀ found ∈ pending, found.Of messages)
    {event : LoopEvent} (hevent : event ≠ .abort) : Answering pending (step config state event) := by
  have hans := hansw.answered
  have hsound : ∀ {batch}, state.phase = .batch batch → batch.Sound pending state.context := by
    intro batch hphase
    have hbatch := hansw.phase
    rw [hphase] at hbatch
    exact hbatch
  unfold AgentLoop.step
  split
  · exact absurd rfl hevent
  · next snapshot hphase =>
    unfold preparedInitial
    dsimp only
    split_ifs
    · apply Answered.loop
      · exact { hans with }
      · exact hfound
    · apply Answered.startPoll
      exact { hans with }
  · next snapshot hphase =>
    unfold preparedNext
    dsimp only
    split_ifs
    · apply Answered.startPoll
      exact { hans with }
    · apply Answered.beginTurn
      · exact { hans with }
      · exact hfound
  · next site answer hphase => exact hans.polled hfound site answer
  · exact ⟨{ hans with }, trivial⟩
  · exact ⟨{ hans with }, trivial⟩
  · apply Answered.respond
    · exact { hans with }
    · exact hfound
  · exact ⟨{ hans with }, trivial⟩
  · next started message isToolCall hphase =>
    unfold updateMessage
    dsimp only
    split_ifs
    · exact ⟨{ hans with }, trivial⟩
    · exact ⟨{ hans with }, trivial⟩
  · next partialMessage message hphase => exact hans.finishMessage partialMessage
  · next batch hphase => exact hans.advance (hsound hphase) hansw
  · next batch call answer hphase => exact hans.prepareCall (hsound hphase) hansw call answer
  · next batch call partialResult hphase =>
    unfold updateCall
    split
    · exact ⟨{ hans with }, hansw.phase⟩
    · exact hansw
  · next batch call answer hphase => exact hans.executeCall (hsound hphase) hansw call answer
  · next batch call answer hphase => exact hans.finalizeCall (hsound hphase) hansw call answer
  · next message resumed executed results tools hphase =>
    have hanswers := hansw.phase
    rw [hphase] at hanswers
    apply Answered.endTurn
    · exact { hans with }
    · exact hanswers
  · next stop hphase =>
    unfold stopped
    split_ifs
    · exact hans.finish
    · apply Answered.loop
      · exact { hans with }
      · exact hfound
    · exact hans.startPoll _
  · exact hansw

end Steps

/-! ### Runs -/

variable {entry : Entry}

theorem Answering.start {context : AgentContext} {state : LoopState}
    (hstart : start context entry = some state) : Answering (entry.pending context) state := by
  rw [start_eq hstart]
  exact ⟨⟨rfl, fun _ hfound => hfound, fun turn hturn => absurd hturn not_mem_nil⟩, trivial⟩

theorem pending_of {context : AgentContext} : ∀ found ∈ entry.pending context, found.Of context.messages := by
  intro found hfound
  cases entry with
  | prompts prompts => exact absurd hfound nofun
  | «continue» => exact absurd hfound nofun
  | resume => exact findPendingToolCalls_of hfound

/-- The results that the run adds for a message. -/
structure Turn.Answered (context : AgentContext) (entry : Entry) (turn : Turn) : Prop where
  failed : turn.message.failed = true → turn.results = []
  /-- One result for each call, right after the message. -/
  calls : turn.resumed = false → turn.message.failed = false →
    turn.messages = turn.injected ++ .assistant turn.message :: turn.results.map .toolResult ∧
    turn.results.map ToolResultMessage.key = turn.message.toolCalls.map AgentToolCall.key
  /-- One result for each call that had none, and no other tool than those that may be replayed is executed. -/
  resumed : turn.resumed = true → entry = .resume ∧ turn.messages = turn.injected ++ turn.results.map .toolResult ∧
    ∃ before after, context.messages = before ++ .assistant turn.message :: after ∧
      (∀ message ∈ after, message.isTurn = false) ∧
      (turn.results.map ToolResultMessage.key).Perm ((unansweredCalls turn.message after).map AgentToolCall.key) ∧
      ∀ call ∈ turn.executed, call.1 ∈ unansweredCalls turn.message after ∧ call.2.replay = some .safe

theorem Answers.turn {context : AgentContext} {turn : Turn}
    (hanswers : Answers (entry.pending context) turn.message turn.resumed turn.executed turn.results) :
    turn.Answered context entry := by
  refine ⟨hanswers.failed, fun hres hmsg => ⟨?_, hanswers.calls hres hmsg⟩, fun hres => ?_⟩
  · unfold Turn.messages ownMessages
    rw [hres, if_neg Bool.false_ne_true, append_assoc]
    rfl
  · obtain ⟨found, hpend, hmsg, hperm, hexec⟩ := hanswers.resumed hres
    obtain ⟨before, after, hmsgs, hafter, hcalls⟩ := (pending_of found hpend).calls
    rw [← hmsg] at hmsgs hcalls
    rw [hcalls] at hperm hexec
    refine ⟨?_, ?_, before, after, hmsgs, hafter, hperm, hexec⟩
    · cases entry with
      | prompts prompts => exact absurd hpend nofun
      | «continue» => exact absurd hpend nofun
      | resume => rfl
    · unfold Turn.messages ownMessages
      rw [hres, if_pos rfl, append_nil]

theorem Answering.run {pending : Option PendingToolCalls} {state : LoopState}
    (config : LoopConfig) (hansw : Answering pending state) (hfound : ∀ found ∈ pending, found.Of messages)
    {events : List LoopEvent} (habort : ∀ event ∈ events, event ≠ .abort) :
    Answering pending (run config state events) := by
  induction events generalizing state with
  | nil => exact hansw
  | cons event events ih =>
    obtain ⟨hfirst, hrest⟩ := forall_mem_cons.mp habort
    exact ih (hansw.step hfound hfirst) hrest

theorem isSome_pending {context : AgentContext} {state : LoopState}
    (hstart : start context entry = some state) : (entry.pending context).isSome = decide (entry = .resume) := by
  cases entry with
  | prompts prompts => rfl
  | «continue» => rfl
  | resume =>
    obtain ⟨pending, hpend, _⟩ := Option.map_eq_some_iff.mp hstart
    unfold Entry.pending
    rw [hpend]
    rfl

section Sample

def viewTool : AgentTool := ⟨js "view", none, some .safe⟩

def viewCall : AgentToolCall := ⟨js "b", js "view", .object []⟩

def saveCall : AgentToolCall := ⟨js "c", js "save", .object []⟩

/-- Three calls, of which the first has a result. -/
def interruptedContext : AgentContext where
  messages :=
    [.assistant ⟨[.toolCall ⟨js "a", js "view", .object []⟩, .toolCall viewCall, .toolCall saveCall], .toolUse⟩,
      .toolResult ⟨js "a", js "view", .array [], none, none, [], false⟩]
  tools := [viewTool]

def resumedEvents : List LoopEvent :=
  [.preparedInitial none, .advance, .prepareCall 0 ⟨none, .returns false [] false⟩, .advance,
    .executeCall 0 (.returns (createErrorToolResult [])), .finalizeCall 0 .nothing, .advance, .completed [viewTool],
    .stopped true]

/-- Each assistant message that has not failed is followed, before the next user or assistant message, by one tool
result for each of its calls. -/
def Followed (messages : List AgentMessage) : Prop :=
  ∀ before message after, messages = before ++ .assistant message :: after → message.failed = false →
    ((after.takeWhile fun other => !other.isTurn).filterMap AgentMessage.resultId?).Perm
      (message.toolCalls.map AgentToolCall.id)

def sequentialConfig : LoopConfig := ⟨.sequential, false⟩

def listCall : AgentToolCall := ⟨js "a", js "list", .object []⟩

def listMessage : AssistantMessage := ⟨[.toolCall listCall], .toolUse⟩

def listResult : ToolResultMessage := createToolResultMessage ⟨listCall, createErrorToolResult (js "Tool list not found"), true⟩

/-- The steering queue holds one more result for the call. -/
def repeatedEvents : List LoopEvent :=
  [.preparedInitial none, .polled [], .stream (.finish listMessage), .advance,
    .prepareCall 0 ⟨none, .returns false [] false⟩, .advance, .completed [], .stopped false,
    .polled [.toolResult listResult], .preparedNext none, .steered [], .deliver, .deliver]

end Sample

end PiRp.AgentLoop
