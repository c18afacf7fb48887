import PiRp.Agent
import PiRp.AgentLoopTurns

/-! What a step of the agent loop does with the messages that were polled: those that are not injected yet stay held,
until the step that injects one emits it. -/

namespace PiRp.AgentLoop

open List LoopState

theorem OpenTurn.Delivered.drop {turn : OpenTurn} (hdel : turn.Delivered) :
    turn.polled.drop turn.injected.length = [] := by
  rw [hdel.injected]
  exact drop_eq_nil_of_le (length_append ▸ Nat.le_add_right _ _)

theorem LoopState.held_of_delivered {state : LoopState} (hdel : state.openTurn.Delivered) : state.held = [] :=
  hdel.drop

/-- The later state has emitted more, and holds the messages. -/
structure Onward (held : List AgentMessage) (state later : LoopState) : Prop where
  trace : state.trace <+: later.trace
  held : later.held = held

section Steps

variable {state middle later : LoopState} {config : LoopConfig} {message : AssistantMessage} {resumed : Bool}
  {executed : List (AgentToolCall × AgentTool)} {held : List AgentMessage}

theorem Onward.after (honw : Onward held middle later) (htrace : state.trace <+: middle.trace) :
    Onward held state later :=
  ⟨htrace.trans honw.trace, honw.held⟩

theorem onward_finish (hheld : state.held = held) : Onward held state state.finish :=
  ⟨prefix_append _ _, hheld⟩

theorem onward_startPoll (hheld : state.held = held) (site : PollSite) : Onward held state (state.startPoll site) :=
  ⟨prefix_append _ _, hheld⟩

theorem onward_endTurn (results : List ToolResultMessage) :
    Onward [] state (state.endTurn message resumed executed results) :=
  ⟨prefix_append _ _, rfl⟩

section

variable (hheld : state.held = [])

include hheld

theorem onward_executePendingToolCalls (pending : PendingToolCalls) :
    Onward [] state (state.executePendingToolCalls config pending) := by
  unfold executePendingToolCalls
  dsimp only
  split_ifs
  · exact ⟨prefix_append _ _, hheld⟩
  · exact ⟨prefix_append _ _, hheld⟩

theorem onward_handleMessage (pending : Option PendingToolCalls) :
    Onward [] state (state.handleMessage config message pending) := by
  unfold handleMessage
  dsimp only
  split
  · refine ⟨?_, rfl⟩
    exact (prefix_append _ _).trans (prefix_append _ _)
  · split
    · exact ⟨prefix_append _ _, rfl⟩
    · split
      · refine (onward_executePendingToolCalls ?_ _).after (prefix_refl _)
        exact hheld
      · split
        · exact ⟨prefix_append _ _, hheld⟩
        · exact ⟨prefix_refl _, hheld⟩

theorem onward_respond : Onward [] state (state.respond config) := by
  unfold respond
  split
  · refine (onward_handleMessage ?_ _).after (prefix_refl _)
    exact hheld
  · exact ⟨prefix_append _ _, hheld⟩

end

section

variable (hheld : state.held = held)

include hheld

theorem onward_inject (hnone : state.pendingMessages = [] → held = []) :
    Onward held state (state.inject config) := by
  unfold inject
  dsimp only
  split_ifs with hpend
  · rw [hnone hpend] at hheld ⊢
    refine (onward_respond ?_).after (prefix_refl _)
    exact hheld
  · exact ⟨prefix_refl _, hheld⟩
  · exact ⟨prefix_refl _, hheld⟩

theorem onward_beginTurn (hnone : state.pendingMessages = [] → held = []) :
    Onward held state (state.beginTurn config) := by
  refine (onward_inject ?_ ?_).after (prefix_append _ _)
  · exact hheld
  · exact hnone

theorem onward_loop (hnone : state.pendingMessages = [] → held = []) :
    Onward held state (state.loop config) := by
  unfold loop
  split_ifs
  · exact ⟨prefix_refl _, hheld⟩
  · exact onward_inject hheld hnone
  · exact onward_finish hheld
  · exact onward_startPoll hheld _

end

/-! ### Where messages are held -/

variable {origin : Origin}

theorem LoopState.held_of_injected (hinj : state.openTurn.injected = []) : state.held = state.openTurn.polled := by
  unfold LoopState.held OpenTurn.polled
  rw [hinj]
  rfl

section

variable (hkept : Kept origin state)

include hkept

theorem Kept.held_responding (hres : state.phase.resumed ≠ []) : state.held = [] :=
  held_of_delivered (hkept.queued.delivered hres)

theorem Kept.held_polling {site : PollSite} (hphase : state.phase = .polling site) :
    state.openTurn.injected = [] ∧ state.openTurn.polled = [] := by
  have hque := hkept.queued
  unfold Queued at hque
  rw [hphase] at hque
  cases site with
  | initial =>
    rw [hque.1]
    exact ⟨rfl, rfl⟩
  | turn =>
    rw [hque.1]
    exact ⟨rfl, rfl⟩
  | preparation =>
    obtain ⟨polls, hopen, _, hempty⟩ := hque
    rw [hopen]
    exact ⟨rfl, flatMap_eq_nil_iff.mpr hempty⟩
  | followUps =>
    rw [hque.1]
    exact ⟨rfl, rfl⟩

theorem onward_polled {site : PollSite} (hphase : state.phase = .polling site)
    (messages : List AgentMessage) : Onward messages state (state.polled config site messages) := by
  obtain ⟨hinj, hpol⟩ := hkept.held_polling hphase
  have hheld : (state.openTurn.polls ++ [Poll.mk site.queue messages]).flatMap Poll.messages = messages := by
    rw [flatMap_append, flatMap_singleton]
    show state.openTurn.polled ++ messages = messages
    rw [hpol, nil_append]
  have hdrop : ((state.openTurn.polls ++ [Poll.mk site.queue messages]).flatMap Poll.messages).drop
      state.openTurn.injected.length = messages := by
    rw [hheld, hinj]
    rfl
  unfold polled
  cases site with
  | initial =>
    refine (onward_loop ?_ ?_).after (prefix_refl _)
    · exact hdrop
    · exact id
  | turn =>
    refine (onward_loop ?_ ?_).after (prefix_refl _)
    · exact hdrop
    · exact id
  | preparation =>
    refine (onward_beginTurn ?_ ?_).after (prefix_refl _)
    · exact hdrop
    · exact id
  | followUps =>
    dsimp only
    split_ifs
    · exact ⟨prefix_append _ _, hdrop⟩
    · refine (onward_loop ?_ ?_).after (prefix_refl _)
      · exact hdrop
      · exact id

theorem held_deliver {message : AgentMessage} {rest : List AgentMessage}
    (hphase : state.phase = .delivering (message :: rest)) :
    state.held = message :: (state.deliver message rest).held ∨
      (state.held = [] ∧ (state.deliver message rest).held = []) := by
  have hque := hkept.queued
  unfold Queued at hque
  rw [hphase] at hque
  obtain ⟨_, hinj, _⟩ := hque
  have hlater : (state.deliver message rest).held = state.openTurn.polled.drop (state.openTurn.injected.length + 1) := by
    show state.openTurn.polled.drop (state.openTurn.injected ++ [message]).length = _
    rw [length_append]
    rfl
  have hnow : state.held = state.openTurn.polled.drop state.openTurn.injected.length := rfl
  rw [hlater, hnow]
  rcases Nat.lt_or_ge state.openTurn.injected.length state.openTurn.polled.length with hlt | hge
  · left
    have hget : state.openTurn.polled[state.openTurn.injected.length] = message := by
      have hsome : (state.openTurn.polled ++ state.openTurn.extras)[state.openTurn.injected.length]? = some message := by
        rw [← hinj, getElem?_append_right (Nat.le_refl _), Nat.sub_self]
        rfl
      rw [getElem?_append_left hlt] at hsome
      exact (List.getElem?_eq_some_iff.mp hsome).2
    rw [drop_eq_getElem_cons hlt, hget]
  · right
    exact ⟨drop_eq_nil_of_le hge, drop_eq_nil_of_le (Nat.le_succ_of_le hge)⟩

end

/-! ### The steps that inject nothing -/

theorem onward_advance (batch : Batch) : Onward state.held state (state.advance batch) := by
  unfold advance
  cases batch.mode with
  | sequential =>
    show Onward state.held state (state.advanceSequential batch)
    unfold advanceSequential
    split_ifs
    · exact ⟨prefix_refl _, rfl⟩
    · exact ⟨prefix_refl _, rfl⟩
    · split
      · exact ⟨prefix_append _ _, rfl⟩
      · exact ⟨prefix_refl _, rfl⟩
  | parallel =>
    show Onward state.held state (state.advanceParallel batch)
    unfold advanceParallel
    split_ifs
    · exact ⟨prefix_append _ _, rfl⟩
    · exact ⟨prefix_refl _, rfl⟩
    · exact ⟨prefix_refl _, rfl⟩
    · exact ⟨prefix_refl _, rfl⟩
    · split
      · exact ⟨prefix_append _ _, rfl⟩
      · exact ⟨prefix_refl _, rfl⟩

theorem onward_prepareCall (batch : Batch) (call : Nat) (answer : PrepareAnswer) :
    Onward state.held state (state.prepareCall batch call answer) := by
  unfold prepareCall
  split
  · split
    · exact ⟨prefix_append _ _, rfl⟩
    · split_ifs
      · exact ⟨prefix_refl _, rfl⟩
      · exact ⟨prefix_refl _, rfl⟩
  · exact ⟨prefix_refl _, rfl⟩

theorem onward_updateCall (batch : Batch) (call : Nat) (partialResult : AgentToolResult) :
    Onward state.held state (state.updateCall batch call partialResult) := by
  unfold updateCall
  split
  · exact ⟨prefix_append _ _, rfl⟩
  · exact ⟨prefix_refl _, rfl⟩

theorem onward_executeCall (batch : Batch) (call : Nat) (answer : ExecuteAnswer) :
    Onward state.held state (state.executeCall batch call answer) := by
  unfold executeCall
  split
  · exact ⟨prefix_refl _, rfl⟩
  · exact ⟨prefix_refl _, rfl⟩

theorem onward_finalizeCall (batch : Batch) (call : Nat) (answer : AfterAnswer) :
    Onward state.held state (state.finalizeCall batch call answer) := by
  unfold finalizeCall
  split
  · exact ⟨prefix_append _ _, rfl⟩
  · exact ⟨prefix_refl _, rfl⟩

theorem onward_updateMessage (isToolCall : Bool) :
    Onward state.held state (state.updateMessage config message isToolCall) := by
  unfold updateMessage
  dsimp only
  split_ifs
  · exact ⟨prefix_refl _, rfl⟩
  · exact ⟨prefix_append _ _, rfl⟩

theorem onward_finishMessage (hheld : state.held = []) (partialMessage : Option AssistantMessage) :
    Onward [] state (state.finishMessage config partialMessage message) := by
  unfold finishMessage
  dsimp only
  cases partialMessage with
  | some old =>
    refine (onward_handleMessage ?_ _).after (prefix_append _ _)
    exact hheld
  | none =>
    refine (onward_handleMessage ?_ _).after ((prefix_append _ _).trans (prefix_append _ _))
    exact hheld

theorem LoopState.held_of_empty {afterToolCalls : Bool} (hopen : state.openTurn = .empty afterToolCalls) :
    state.held = [] := by
  unfold LoopState.held
  rw [hopen]
  rfl

theorem onward_preparedInitial (hheld : state.held = []) (snapshot : Option AgentContext) :
    Onward [] state (state.preparedInitial config snapshot) := by
  unfold preparedInitial
  dsimp only
  split_ifs
  · refine (onward_loop ?_ fun _ => rfl).after (prefix_refl _)
    exact hheld
  · exact ⟨prefix_append _ _, hheld⟩

theorem onward_preparedNext (hnone : state.pendingMessages = [] → state.held = []) (snapshot : Option AgentContext) :
    Onward state.held state (state.preparedNext config snapshot) := by
  unfold preparedNext
  dsimp only
  split_ifs
  · exact ⟨prefix_append _ _, rfl⟩
  · refine (onward_beginTurn ?_ ?_).after (prefix_refl _)
    · rfl
    · exact hnone

theorem onward_stopped (hheld : state.held = []) (stop : Bool) : Onward [] state (state.stopped config stop) := by
  unfold stopped
  split_ifs
  · exact onward_finish hheld
  · refine (onward_loop ?_ fun _ => rfl).after (prefix_refl _)
    exact hheld
  · exact onward_startPoll hheld _

theorem onward_step (hkept : Kept origin state) {event : LoopEvent}
    (hpol : ∀ site messages, state.phase = .polling site → event ≠ .polled messages)
    (hdeliv : ∀ message rest, state.phase = .delivering (message :: rest) → event ≠ .deliver) :
    Onward state.held state (step config state event) := by
  have hresp : state.phase.resumed ≠ [] → state.held = [] := hkept.held_responding
  unfold AgentLoop.step
  split
  · exact ⟨prefix_append _ _, rfl⟩
  · next snapshot hphase =>
    have hque := hkept.queued
    unfold Queued at hque
    rw [hphase] at hque
    have hheld := held_of_empty hque.1
    rw [hheld]
    exact onward_preparedInitial hheld snapshot
  · next snapshot hphase =>
    have hque := hkept.queued
    unfold Queued at hque
    rw [hphase] at hque
    obtain ⟨polls, hopen, _, hpend⟩ := hque
    apply onward_preparedNext
    intro hnone
    rw [held_of_injected (by rw [hopen]; rfl), ← hpend, hnone]
  · next site messages hphase => exact absurd rfl (hpol site messages hphase)
  · exact ⟨prefix_refl _, rfl⟩
  · next message rest hphase => exact absurd rfl (hdeliv message rest hphase)
  · next hphase =>
    have hque := hkept.queued
    unfold Queued at hque
    rw [hphase] at hque
    obtain ⟨hord, hinj, _⟩ := hque
    rw [append_nil] at hinj
    have hheld := held_of_delivered ⟨hord, hinj⟩
    rw [hheld]
    refine (onward_respond ?_).after (prefix_refl _)
    exact hheld
  · exact ⟨prefix_append _ _, rfl⟩
  · exact onward_updateMessage _
  · next partialMessage message hphase =>
    have hheld : state.held = [] := hresp (by rw [hphase]; exact cons_ne_nil _ _)
    rw [hheld]
    exact onward_finishMessage hheld partialMessage
  · exact onward_advance _
  · exact onward_prepareCall _ _ _
  · exact onward_updateCall _ _ _
  · exact onward_executeCall _ _ _
  · exact onward_finalizeCall _ _ _
  · next message resumed executed results tools hphase =>
    have hheld : state.held = [] := hresp (by rw [hphase]; exact cons_ne_nil _ _)
    rw [hheld]
    exact (onward_endTurn _).after (prefix_refl _)
  · next stop hphase =>
    have hque := hkept.queued
    unfold Queued at hque
    rw [hphase] at hque
    have hheld := held_of_empty hque.1
    rw [hheld]
    exact onward_stopped hheld stop
  · exact ⟨prefix_refl _, rfl⟩

end Steps

end PiRp.AgentLoop
