import PiRp.AgentLoopHeld
import PiRp.EventRun
import Mathlib.Data.List.Perm.Subperm

/-! What becomes of the messages that are queued for an agent: each is in its queue, appended to the transcript,
removed by a clear or a reset, or held by the run that has taken it; what a run holds is lost when it fails, or when
it cannot be started. -/

namespace PiRp.AgentLoop

open List Option Function

/-! ### The account of the messages -/

/-- Every message that was passed is in its queue, delivered, removed or held, once for each call. -/
def Agent.Accounted (agent : Agent) (held : List AgentMessage) : Prop :=
  ∃ delivered holding : Queue → List AgentMessage,
    (∀ name, (agent.passed name).Perm
      ((agent.queues name).messages ++ delivered name ++ agent.removed name ++ holding name)) ∧
    (holding .steering ++ holding .followUp).Perm held ∧
    (delivered .steering ++ delivered .followUp).Subperm (agent.messages ++ agent.forgotten)

theorem perm_update (f : Queue → List AgentMessage) (name : Queue) {list : List AgentMessage} (extra : List AgentMessage)
    (hlist : list.Perm (extra ++ f name)) :
    (Function.update f name list .steering ++ Function.update f name list .followUp).Perm
      (extra ++ (f .steering ++ f .followUp)) := by
  cases name with
  | steering =>
    rw [update_self, update_of_ne (by decide), ← append_assoc]
    exact hlist.append_right _
  | followUp =>
    rw [update_self, update_of_ne (by decide)]
    refine (hlist.append_left _).trans ?_
    rw [← append_assoc, ← append_assoc]
    exact perm_append_comm.append_right _

namespace Agent.Accounted

variable {agent : Agent} {held : List AgentMessage}

variable (hacc : agent.Accounted held)

include hacc

theorem congr {other : List AgentMessage} (hperm : held.Perm other) : agent.Accounted other := by
  obtain ⟨delivered, holding, hpas, hheld, hsub⟩ := hacc
  exact ⟨delivered, holding, hpas, hheld.trans hperm, hsub⟩

theorem enqueue (name : Queue) (message : AgentMessage) : (agent.enqueue name message).Accounted held := by
  obtain ⟨delivered, holding, hpas, hheld, hsub⟩ := hacc
  refine ⟨delivered, holding, fun other => ?_, hheld, hsub⟩
  show (Function.update agent.passed name (agent.passed name ++ [message]) other).Perm
    ((Function.update agent.queues name ((agent.queues name).enqueue message) other).messages ++ delivered other ++
      agent.removed other ++ holding other)
  by_cases hname : other = name
  · subst hname
    rw [update_self, update_self]
    show (agent.passed other ++ [message]).Perm ((agent.queues other).messages ++ [message] ++ _ ++ _ ++ _)
    refine ((hpas other).append_right [message]).trans ?_
    rw [perm_iff_count]
    intro counted
    simp only [count_append]
    omega
  · rw [update_of_ne hname, update_of_ne hname]
    exact hpas other

theorem clearQueue (name : Queue) : (agent.clearQueue name).Accounted held := by
  obtain ⟨delivered, holding, hpas, hheld, hsub⟩ := hacc
  refine ⟨delivered, holding, fun other => ?_, hheld, hsub⟩
  show (agent.passed other).Perm ((Function.update agent.queues name (agent.queues name).clear other).messages ++
    delivered other ++ Function.update agent.removed name (agent.removed name ++ (agent.queues name).messages) other ++
      holding other)
  by_cases hname : other = name
  · subst hname
    rw [update_self, update_self]
    show (agent.passed other).Perm ([] ++ _ ++ (agent.removed other ++ (agent.queues other).messages) ++ _)
    refine (hpas other).trans ?_
    rw [perm_iff_count]
    intro counted
    simp only [count_append, count_nil]
    omega
  · rw [update_of_ne hname, update_of_ne hname]
    exact hpas other

theorem drain (name : Queue) :
    (agent.setQueue name (agent.queues name).drain).Accounted (held ++ (agent.queues name).drained) := by
  obtain ⟨delivered, holding, hpas, hheld, hsub⟩ := hacc
  refine ⟨delivered, Function.update holding name (holding name ++ (agent.queues name).drained), fun other => ?_, ?_,
    hsub⟩
  · show (agent.passed other).Perm ((Function.update agent.queues name (agent.queues name).drain other).messages ++
      delivered other ++ agent.removed other ++ _)
    by_cases hname : other = name
    · subst hname
      rw [update_self, update_self]
      have hqueue := hpas other
      rw [← (agent.queues other).drained_append] at hqueue
      refine hqueue.trans ?_
      rw [perm_iff_count]
      intro counted
      simp only [count_append]
      omega
    · rw [update_of_ne hname, update_of_ne hname]
      exact hpas other
  · refine (perm_update holding name (agent.queues name).drained perm_append_comm).trans ?_
    exact perm_append_comm.trans (hheld.append_right _)

theorem append (messages : List AgentMessage) :
    Agent.Accounted { agent with messages := agent.messages ++ messages } held := by
  obtain ⟨delivered, holding, hpas, hheld, hsub⟩ := hacc
  refine ⟨delivered, holding, hpas, hheld, hsub.trans ?_⟩
  rw [append_assoc]
  exact ((sublist_append_right messages agent.forgotten).append_left agent.messages).subperm

omit hacc in
theorem deliver {message : AgentMessage} (hacc : agent.Accounted (message :: held)) :
    Agent.Accounted { agent with messages := agent.messages ++ [message] } held := by
  obtain ⟨delivered, holding, hpas, hheld, hsub⟩ := hacc
  have hmem : ∃ name, message ∈ holding name := by
    rcases mem_append.mp (hheld.mem_iff.mpr mem_cons_self) with hsteer | hfollowUp
    · exact ⟨.steering, hsteer⟩
    · exact ⟨.followUp, hfollowUp⟩
  obtain ⟨name, hname⟩ := hmem
  have herase := perm_cons_erase hname
  refine ⟨Function.update delivered name (message :: delivered name),
    Function.update holding name ((holding name).erase message), fun other => ?_, ?_, ?_⟩
  · show (agent.passed other).Perm ((agent.queues other).messages ++ _ ++ agent.removed other ++ _)
    by_cases hother : other = name
    · subst hother
      rw [update_self, update_self]
      refine (hpas other).trans ?_
      rw [perm_iff_count] at herase ⊢
      intro counted
      have hcount := herase counted
      simp only [count_append, count_cons] at hcount ⊢
      omega
    · rw [update_of_ne hother, update_of_ne hother]
      exact hpas other
  · have hlist : (holding name).Perm
        ([message] ++ Function.update holding name ((holding name).erase message) name) := by
      rw [update_self]
      exact herase
    have hback := perm_update (Function.update holding name ((holding name).erase message)) name [message] hlist
    rw [update_idem, update_eq_self] at hback
    exact (hback.symm.trans hheld).cons_inv
  · have hmore : (Function.update delivered name (message :: delivered name) .steering ++
        Function.update delivered name (message :: delivered name) .followUp).Perm
          (message :: (delivered .steering ++ delivered .followUp)) := perm_update delivered name [message] (.refl _)
    refine hmore.subperm.trans (((subperm_cons message).mpr hsub).trans ?_)
    show List.Subperm _ (agent.messages ++ [message] ++ agent.forgotten)
    rw [append_assoc]
    exact perm_middle.symm.subperm

theorem reset :
    Agent.Accounted { agent with messages := [], forgotten := agent.forgotten ++ agent.messages } held := by
  obtain ⟨delivered, holding, hpas, hheld, hsub⟩ := hacc
  exact ⟨delivered, holding, hpas, hheld, hsub.trans perm_append_comm.subperm⟩

theorem of_same {other : Agent} (hpas : other.passed = agent.passed)
    (hqueues : ∀ name, (other.queues name).messages = (agent.queues name).messages)
    (hrem : other.removed = agent.removed) (hmsgs : other.messages = agent.messages)
    (hfor : other.forgotten = agent.forgotten) : other.Accounted held := by
  obtain ⟨delivered, holding, haccount, hheld, hsub⟩ := hacc
  refine ⟨delivered, holding, fun name => ?_, hheld, ?_⟩
  · rw [hpas, hqueues, hrem]
    exact haccount name
  · rw [hmsgs, hfor]
    exact hsub

end Agent.Accounted

/-! ### The invariant -/

structure ActiveRun.Sound (run : ActiveRun) : Prop where
  kept : ∃ origin, Kept origin run.loop
  queued : run.queued <+: run.prompts
  polled : ∀ messages, run.polled = some messages → ∃ site, run.loop.phase = .polling site

structure Agent.Sound (agent : Agent) : Prop where
  run : ∀ run ∈ agent.activeRun, run.Sound
  accounted : agent.Accounted agent.held

section Steps

variable {agent : Agent} {config : LoopConfig} {run : ActiveRun}

theorem Agent.held_of_none (hnone : agent.activeRun = none) : agent.held = agent.continuing.flatten := by
  unfold Agent.held
  rw [hnone]
  exact append_nil _

theorem Agent.held_of_some (hrun : agent.activeRun = some run) : agent.held = agent.continuing.flatten ++ run.held := by
  unfold Agent.held
  rw [hrun]
  rfl

theorem held_of_start {context : AgentContext} {entry : Entry} {loop : LoopState}
    (hstart : start context entry = some loop) : loop.held = [] := by
  have hkept := Kept.start hstart
  have hpolls := hkept.recorded.polls
  have hnone : loop.openTurn.polls = [] := (append_eq_nil_iff.mp hpolls).2
  unfold LoopState.held
  rw [hnone]
  exact drop_nil

theorem Agent.Sound.of_none (hnone : agent.activeRun = none) (hacc : agent.Accounted agent.continuing.flatten) :
    agent.Sound := by
  refine ⟨fun run hrun => ?_, ?_⟩
  · rw [hnone] at hrun
    exact absurd hrun nofun
  · rw [Agent.held_of_none hnone]
    exact hacc

theorem Agent.Sound.started (hnone : agent.activeRun = none) {queued : List AgentMessage}
    (hacc : agent.Accounted (agent.continuing.flatten ++ queued)) {entry : Entry} {loop : LoopState}
    (hstart : AgentLoop.start ⟨agent.messages, agent.tools⟩ entry = some loop) (hque : queued <+: entry.messages)
    (skip : Bool) : (agent.startRun entry queued skip).Sound := by
  have hstar : agent.startRun entry queued skip =
      { agent with activeRun := some ⟨loop, entry.messages, queued, skip, none⟩ } := by
    unfold Agent.startRun
    rw [hnone, hstart]
  rw [hstar]
  refine ⟨fun run hrun => ?_, ?_⟩
  · obtain rfl := Option.some.inj hrun
    exact ⟨⟨_, Kept.start hstart⟩, hque, nofun⟩
  · refine Agent.Accounted.of_same (hacc.congr ?_) rfl (fun _ => rfl) rfl rfl rfl
    show List.Perm _ (agent.continuing.flatten ++ (queued ++ [] ++ loop.held))
    rw [held_of_start hstart, append_nil, append_nil]

section

variable (hsound : agent.Sound)

include hsound

theorem Agent.Sound.start (entry : Entry) (skip : Bool) :
    (agent.startRun entry [] skip).Sound := by
  cases hact : agent.activeRun with
  | some run =>
    have hsame : agent.startRun entry [] skip = agent := by
      unfold Agent.startRun
      rw [hact]
    rw [hsame]
    exact hsound
  | none =>
    cases hstart : AgentLoop.start ⟨agent.messages, agent.tools⟩ entry with
    | none =>
      have hsame : agent.startRun entry [] skip = agent := by
        unfold Agent.startRun
        rw [hact, hstart]
      rw [hsame]
      exact hsound
    | some loop =>
      refine Agent.Sound.started hact ?_ hstart nil_prefix skip
      rw [append_nil, ← Agent.held_of_none hact]
      exact hsound.accounted

theorem Agent.Sound.continueQueued (hnone : agent.activeRun = none) :
    agent.continueQueued.Sound := by
  have hsteered : Agent.Accounted (agent.setQueue .steering (agent.queues .steering).drain)
      (agent.held ++ (agent.queues .steering).drained) := hsound.accounted.drain .steering
  rw [Agent.held_of_none hnone] at hsteered
  unfold Agent.continueQueued
  dsimp only
  split_ifs with hempty hfollowUps
  · apply Agent.Sound.of_none
    · exact hnone
    · refine Agent.Accounted.of_same (hsteered.congr ?_) rfl (fun _ => rfl) rfl rfl rfl
      rw [flatten_append, flatten_singleton]
      rfl
  · rw [not_not.mp hempty, append_nil] at hsteered
    apply Agent.Sound.started
    · exact hnone
    · exact hsteered.drain .followUp
    · rfl
    · exact prefix_refl _
  · rw [not_not.mp hempty, append_nil] at hsteered
    have hfol := hsteered.drain .followUp
    rw [not_not.mp hfollowUps, append_nil] at hfol
    apply Agent.Sound.of_none
    · exact hnone
    · exact hfol

theorem Agent.Sound.continueRun : agent.continueRun.Sound := by
  unfold Agent.continueRun
  split_ifs with hact
  · exact hsound
  · split
    · exact hsound
    · split_ifs
      · exact hsound.continueQueued (not_isSome_iff_eq_none.mp hact)
      · exact hsound.start _ _

theorem Agent.Sound.continueBatch (hnone : agent.activeRun = none) (call : Nat)
    (extras : List AgentMessage) : (agent.continueBatch call extras).Sound := by
  unfold Agent.continueBatch
  split
  · exact hsound
  · next batch hcall =>
    obtain ⟨hlt, hget⟩ := List.getElem?_eq_some_iff.mp hcall
    have hperm := (getElem_cons_eraseIdx_perm hlt).symm.flatten
    rw [flatten_cons, hget] at hperm
    apply Agent.Sound.started
    · exact hnone
    · refine Agent.Accounted.of_same (hsound.accounted.congr ?_) rfl (fun _ => rfl) rfl rfl rfl
      rw [Agent.held_of_none hnone]
      exact hperm.trans perm_append_comm
    · rfl
    · exact prefix_append _ _

end

/-! ### The active run -/

variable (hsound : agent.Sound)

include hsound

theorem Agent.Sound.advance (hrun : agent.activeRun = some run) {later : LoopState}
    (hlater : ∃ origin, Kept origin later) {polled : Option (List AgentMessage)}
    (hpol : ∀ messages, polled = some messages → ∃ site, later.phase = .polling site)
    (hheld : (run.polled.getD [] ++ run.loop.held).Perm (polled.getD [] ++ later.held)) :
    (agent.advance { run with polled } later).Sound := by
  have hrunSound := hsound.run run hrun
  refine ⟨fun started hstar => ?_, ?_⟩
  · obtain rfl := Option.some.inj hstar
    exact ⟨hlater, hrunSound.queued, hpol⟩
  · have hacc := hsound.accounted
    rw [Agent.held_of_some hrun] at hacc
    have happ := hacc.append (endedMessages (later.trace.drop run.loop.trace.length))
    refine Agent.Accounted.of_same (happ.congr ?_) rfl (fun _ => rfl) rfl rfl rfl
    show List.Perm _ (agent.continuing.flatten ++ (run.queued ++ polled.getD [] ++ later.held))
    refine List.Perm.append_left _ ?_
    unfold ActiveRun.held
    rw [append_assoc, append_assoc]
    exact hheld.append_left _

theorem Agent.Sound.settle : agent.settle.Sound := by
  unfold Agent.settle
  split
  · exact hsound
  · next run hrun =>
    have hrunSound := hsound.run run hrun
    have hacc := hsound.accounted
    rw [Agent.held_of_some hrun] at hacc
    split
    · next site hphase hpol =>
      have hheld : run.held = run.queued ++ run.loop.held := by
        unfold ActiveRun.held
        rw [hpol, getD_none, append_nil]
      rw [hheld] at hacc
      unfold Agent.poll
      split_ifs
      · refine ⟨fun started hstar => ?_, ?_⟩
        · obtain rfl := Option.some.inj hstar
          exact ⟨hrunSound.kept, hrunSound.queued, fun _ _ => ⟨site, hphase⟩⟩
        · refine Agent.Accounted.of_same (hacc.congr ?_) rfl (fun _ => rfl) rfl rfl rfl
          show List.Perm _ (agent.continuing.flatten ++ (run.queued ++ [] ++ run.loop.held))
          rw [append_nil]
      · refine ⟨fun started hstar => ?_, ?_⟩
        · obtain rfl := Option.some.inj hstar
          exact ⟨hrunSound.kept, hrunSound.queued, fun _ _ => ⟨site, hphase⟩⟩
        · have hdrain := hacc.drain site.queue
          refine Agent.Accounted.of_same (hdrain.congr ?_) rfl (fun _ => rfl) rfl rfl rfl
          show List.Perm _ (agent.continuing.flatten ++
            (run.queued ++ (agent.queues site.queue).drained ++ run.loop.held))
          rw [append_assoc, append_assoc, append_assoc]
          exact (perm_append_comm.append_left _).append_left _
    · exact hsound

theorem Agent.Sound.answerPoll : (agent.answerPoll config).Sound := by
  unfold Agent.answerPoll
  split
  · exact hsound
  · next run hrun =>
    split
    · exact hsound
    · next messages hpol =>
      have hrunSound := hsound.run run hrun
      obtain ⟨origin, hkept⟩ := hrunSound.kept
      obtain ⟨site, hphase⟩ := hrunSound.polled messages hpol
      have hstep : AgentLoop.step config run.loop (.polled messages) = run.loop.polled config site messages := by
        unfold AgentLoop.step
        rw [hphase]
      have hlater : Kept _ (AgentLoop.step config run.loop (.polled messages)) := hkept.step (.polled messages)
      obtain ⟨hinj, hnone⟩ := hkept.held_polling hphase
      apply Agent.Sound.settle
      refine hsound.advance hrun ⟨_, hlater⟩ nofun ?_
      rw [hstep, (onward_polled hkept hphase messages).held, hpol, LoopState.held_of_injected hinj, hnone, append_nil]
      exact .refl _

omit hsound in
theorem step_of_polling {state : LoopState} {site : PollSite} (hphase : state.phase = .polling site)
    {event : LoopEvent} (hown : Agent.isOwn event = true) : step config state event = state := by
  unfold AgentLoop.step
  rw [hphase]
  cases event with
  | abort => exact absurd hown nofun
  | polled messages => exact absurd hown nofun
  | preparedInitial snapshot => rfl
  | preparedNext snapshot => rfl
  | steered extras => rfl
  | deliver => rfl
  | stream event =>
    cases event with
    | start message => rfl
    | update message isToolCall => rfl
    | finish message => rfl
  | advance => rfl
  | prepareCall call answer => rfl
  | updateCall call partialResult => rfl
  | executeCall call answer => rfl
  | finalizeCall call answer => rfl
  | completed tools => rfl
  | stopped stop => rfl

theorem Agent.Sound.deliver (hrun : agent.activeRun = some run) (hque : run.queued = [])
    (hpol : run.polled = none) {origin : Origin} (hkept : Kept origin run.loop) {message : AgentMessage}
    {rest : List AgentMessage} (hphase : run.loop.phase = .delivering (message :: rest)) :
    (agent.advance run (run.loop.deliver message rest)).Sound := by
  have hended : Agent.endedMessages ((run.loop.deliver message rest).trace.drop run.loop.trace.length) = [message] := by
    show Agent.endedMessages ((run.loop.trace ++ messageActions message).drop run.loop.trace.length) = _
    rw [drop_left]
    rfl
  have hacc := hsound.accounted
  rw [Agent.held_of_some hrun] at hacc
  unfold ActiveRun.held at hacc
  rw [hque, hpol, getD_none, append_nil, nil_append] at hacc
  have hdel : Agent.Accounted { agent with messages := agent.messages ++ [message] }
      (agent.continuing.flatten ++ (run.loop.deliver message rest).held) := by
    rcases held_deliver hkept hphase with hheld | ⟨hheld, hlater⟩
    · rw [hheld] at hacc
      exact (hacc.congr perm_middle).deliver
    · rw [hheld] at hacc
      rw [hlater]
      exact hacc.append [message]
  refine ⟨fun started hstar => ?_, ?_⟩
  · obtain rfl := Option.some.inj hstar
    have hlater := hkept.deliver hphase
    refine ⟨⟨origin, hlater⟩, (hsound.run run hrun).queued, fun messages hmsgs => ?_⟩
    exact absurd (hpol.symm.trans hmsgs) nofun
  · have hheld : (agent.advance run (run.loop.deliver message rest)).held =
        agent.continuing.flatten ++ (run.loop.deliver message rest).held := by
      show agent.continuing.flatten ++ (run.queued ++ run.polled.getD [] ++ (run.loop.deliver message rest).held) = _
      rw [hque, hpol, getD_none, append_nil, nil_append]
    rw [hheld]
    refine Agent.Accounted.of_same hdel rfl (fun _ => rfl) rfl ?_ rfl
    show agent.messages ++ _ = agent.messages ++ [message]
    rw [hended]

theorem Agent.Sound.loopEvent (event : LoopEvent) : (agent.loopEvent config event).Sound := by
  unfold Agent.loopEvent
  split
  · exact hsound
  · next run hrun =>
    split_ifs with hown
    · rw [Bool.and_eq_true, decide_eq_true_eq] at hown
      have hrunSound := hsound.run run hrun
      obtain ⟨origin, hkept⟩ := hrunSound.kept
      have hque : run.queued = [] := prefix_nil.mp (hown.1 ▸ hrunSound.queued)
      apply Agent.Sound.settle
      by_cases hpoll : ∃ site, run.loop.phase = .polling site
      · obtain ⟨site, hphase⟩ := hpoll
        rw [step_of_polling hphase hown.2]
        exact hsound.advance hrun hrunSound.kept hrunSound.polled (.refl _)
      · have hpol : run.polled = none := by
          rcases eq_none_or_eq_some run.polled with hnone | ⟨messages, hsome⟩
          · exact hnone
          · exact absurd (hrunSound.polled messages hsome) hpoll
        by_cases hdeliv : ∃ message rest, run.loop.phase = .delivering (message :: rest) ∧ event = .deliver
        · obtain ⟨message, rest, hphase, rfl⟩ := hdeliv
          have hstep : AgentLoop.step config run.loop .deliver = run.loop.deliver message rest := by
            unfold AgentLoop.step
            rw [hphase]
          rw [hstep]
          exact hsound.deliver hrun hque hpol hkept hphase
        · have honw : Onward run.loop.held run.loop (AgentLoop.step config run.loop event) := by
            apply onward_step hkept
            · exact fun site _ hphase => absurd ⟨site, hphase⟩ hpoll
            · exact fun message rest hphase hevent => hdeliv ⟨message, rest, hphase, hevent⟩
          have hlater : Kept _ (AgentLoop.step config run.loop event) := hkept.step event
          refine hsound.advance hrun ⟨_, hlater⟩ (fun messages hmsgs => ?_) ?_
          · exact absurd (hpol.symm.trans hmsgs) nofun
          · rw [honw.held]
    · exact hsound

omit hsound in
theorem step_abort (state : LoopState) : step config state .abort = { state.act [.abort] with aborted := true } := by
  unfold step
  cases state.phase <;> rfl

theorem Agent.Sound.abort : (agent.abort config).Sound := by
  unfold Agent.abort
  split
  · exact hsound
  · next run hrun =>
    have hrunSound := hsound.run run hrun
    obtain ⟨origin, hkept⟩ := hrunSound.kept
    have hacc := hsound.accounted
    rw [Agent.held_of_some hrun] at hacc
    rw [step_abort]
    refine ⟨fun started hstar => ?_, ?_⟩
    · obtain rfl := Option.some.inj hstar
      exact ⟨⟨origin, hkept.abort⟩, hrunSound.queued, hrunSound.polled⟩
    · exact Agent.Accounted.of_same hacc rfl (fun _ => rfl) rfl rfl rfl

theorem Agent.Sound.emitPrompt : agent.emitPrompt.Sound := by
  unfold Agent.emitPrompt
  split
  · exact hsound
  · next run hrun =>
    split
    · exact hsound
    · next message rest hprom =>
      have hrunSound := hsound.run run hrun
      have hque := hrunSound.queued
      rw [hprom] at hque
      have hacc := hsound.accounted
      rw [Agent.held_of_some hrun] at hacc
      unfold ActiveRun.held at hacc
      cases hfrom : run.queued with
      | nil =>
        rw [hfrom] at hacc
        refine ⟨fun started hstar => ?_, ?_⟩
        · obtain rfl := Option.some.inj hstar
          exact ⟨hrunSound.kept, nil_prefix, hrunSound.polled⟩
        · exact Agent.Accounted.of_same (hacc.append [message]) rfl (fun _ => rfl) rfl rfl rfl
      | cons first queued =>
        rw [hfrom] at hacc hque
        obtain ⟨rfl, hrest⟩ := cons_prefix_cons.mp hque
        refine ⟨fun started hstar => ?_, ?_⟩
        · obtain rfl := Option.some.inj hstar
          exact ⟨hrunSound.kept, hrest, hrunSound.polled⟩
        · have hdel := (hacc.congr perm_middle).deliver
          exact Agent.Accounted.of_same hdel rfl (fun _ => rfl) rfl rfl rfl

theorem Agent.Sound.failRun (hnone : ∀ run ∈ agent.activeRun, run.held = [])
    (failure : Option AssistantMessage) : (agent.failRun failure).Sound := by
  unfold Agent.failRun
  split
  · exact hsound
  · next run hrun =>
    have hacc := hsound.accounted
    rw [Agent.held_of_some hrun, hnone run hrun, append_nil] at hacc
    apply Agent.Sound.of_none
    · rfl
    · exact Agent.Accounted.of_same (hacc.append (failure.toList.map .assistant)) rfl (fun _ => rfl) rfl rfl rfl

theorem Agent.Sound.finishRun : agent.finishRun.Sound := by
  unfold Agent.finishRun
  split
  · exact hsound
  · next run hrun =>
    split
    · next hprom hphase =>
      have hrunSound := hsound.run run hrun
      obtain ⟨origin, hkept⟩ := hrunSound.kept
      have hque : run.queued = [] := prefix_nil.mp (hprom ▸ hrunSound.queued)
      have hpol : run.polled = none := by
        rcases eq_none_or_eq_some run.polled with hnone | ⟨messages, hsome⟩
        · exact hnone
        · obtain ⟨site, hpoll⟩ := hrunSound.polled messages hsome
          exact absurd (hphase.symm.trans hpoll) nofun
      have hfin := hkept.queued
      unfold Queued at hfin
      rw [hphase] at hfin
      have hheld : run.held = [] := by
        unfold ActiveRun.held
        rw [hque, hpol, LoopState.held_of_injected hfin.2, hfin.1]
        rfl
      have hacc := hsound.accounted
      rw [Agent.held_of_some hrun, hheld, append_nil] at hacc
      apply Agent.Sound.of_none
      · rfl
      · exact Agent.Accounted.of_same hacc rfl (fun _ => rfl) rfl rfl rfl
    · exact hsound

end Steps

/-! ### Runs -/

/-- The callback that throws finds the run without messages that it has taken and not appended, and no other run is
active when a batch of `continue` has been handled. -/
def AgentInput.safe (agent : Agent) : AgentInput → Bool
  | .failRun _ => agent.activeRun.all fun run => run.held.isEmpty
  | .continueBatch call _ => agent.activeRun.isNone || agent.continuing[call]?.isNone
  | _ => true

theorem Agent.Sound.step {agent : Agent} (config : LoopConfig) (hsound : agent.Sound) {input : AgentInput}
    (hsafe : input.safe agent = true) : (agent.step config input).Sound := by
  cases input with
  | prompt messages => exact hsound.start _ _
  | «continue» => exact hsound.continueRun
  | resumePendingToolCalls => exact hsound.start _ _
  | enqueue name message => exact ⟨hsound.run, hsound.accounted.enqueue name message⟩
  | clearQueue name => exact ⟨hsound.run, hsound.accounted.clearQueue name⟩
  | setMode name mode =>
    refine ⟨hsound.run, Agent.Accounted.of_same hsound.accounted rfl (fun other => ?_) rfl rfl rfl⟩
    show (Function.update agent.queues name _ other).messages = _
    by_cases hname : other = name
    · subst hname
      rw [update_self]
    · rw [update_of_ne hname]
  | reset =>
    show agent.reset.Sound
    unfold Agent.reset
    split_ifs
    · exact hsound
    · exact ⟨hsound.run, (hsound.accounted.reset.clearQueue .followUp).clearQueue .steering⟩
  | abort => exact hsound.abort
  | continueBatch call extras =>
    have hstarts : (agent.activeRun.isNone || agent.continuing[call]?.isNone) = true := hsafe
    rcases Bool.or_eq_true_iff.mp hstarts with hnone | hcall
    · exact hsound.continueBatch (isNone_iff_eq_none.mp hnone) call extras
    · show (agent.continueBatch call extras).Sound
      unfold Agent.continueBatch
      rw [isNone_iff_eq_none.mp hcall]
      exact hsound
  | emitPrompt => exact hsound.emitPrompt
  | answerPoll => exact hsound.answerPoll
  | loopEvent event => exact hsound.loopEvent event
  | failRun failure =>
    apply hsound.failRun
    intro run hrun
    have hall : agent.activeRun.all (fun run => run.held.isEmpty) = true := hsafe
    rw [mem_def.mp hrun, all_some] at hall
    exact List.isEmpty_iff.mp hall
  | finishRun => exact hsound.finishRun

theorem Agent.Sound.new (messages : List AgentMessage) (tools : List AgentTool) (steeringMode followUpMode : QueueMode) :
    (Agent.new messages tools steeringMode followUpMode).Sound := by
  apply Agent.Sound.of_none
  · rfl
  · refine ⟨fun _ => [], fun _ => [], fun name => ?_, .refl _, List.nil_subperm⟩
    cases name with
    | steering => exact .refl _
    | followUp => exact .refl _

/-- In every run whose steps are safe, while the agent is idle, each message that was passed to a queue is still in
it, or was delivered to the transcript once for each call, or was removed by a clear of the queue; and what was
delivered is in the transcript, or was there when it was reset. -/
theorem queues_kept (config : LoopConfig) (messages : List AgentMessage) (tools : List AgentTool)
    (steeringMode followUpMode : QueueMode) (inputs : List AgentInput)
    (hsafe : AllowedRun (Agent.step config) (fun agent input => input.safe agent = true)
      (Agent.new messages tools steeringMode followUpMode) inputs) :
    let agent := Agent.run config (Agent.new messages tools steeringMode followUpMode) inputs
    agent.Idle → ∃ delivered : Queue → List AgentMessage,
      (∀ name, (agent.passed name).Perm ((agent.queues name).messages ++ delivered name ++ agent.removed name)) ∧
      (delivered .steering ++ delivered .followUp).Subperm (agent.messages ++ agent.forgotten) := by
  intro agent hidle
  have hstep : ∀ agent input, Agent.Sound agent → AgentInput.safe agent input = true →
      (Agent.step config agent input).Sound := fun _ _ hsound hsafe => hsound.step config hsafe
  have hsound : agent.Sound := AllowedRun.invariant hstep hsafe (.new messages tools steeringMode followUpMode)
  obtain ⟨delivered, holding, hpas, hheld, hsub⟩ := hsound.accounted
  rw [Agent.held_of_none hidle.1, hidle.2] at hheld
  obtain ⟨hsteer, hfollowUp⟩ := append_eq_nil_iff.mp hheld.eq_nil
  refine ⟨delivered, fun name => ?_, hsub⟩
  have hname := hpas name
  cases name with
  | steering =>
    rw [hsteer, append_nil] at hname
    exact hname
  | followUp =>
    rw [hfollowUp, append_nil] at hname
    exact hname

section Sample

def promptMessage : AgentMessage := .user (.string (js "go on"))

def steeringMessage : AgentMessage := .user (.string (js "not there"))

def quietConfig : LoopConfig := ⟨.parallel, false⟩

/-- A turn without tool calls, and nothing in the queues after it. -/
def quietTurn : List AgentInput :=
  [.loopEvent (.preparedInitial none), .answerPoll, .loopEvent (.stream (.finish ⟨[], .stop⟩)),
    .loopEvent (.stopped false), .answerPoll, .answerPoll, .finishRun]

/-- A steering message that the run polls at its start. -/
def steeredInputs : List AgentInput :=
  [.enqueue .steering steeringMessage, .prompt [promptMessage], .emitPrompt, .loopEvent (.preparedInitial none),
    .answerPoll, .loopEvent (.steered []), .loopEvent .deliver, .loopEvent .deliver,
    .loopEvent (.stream (.finish ⟨[], .stop⟩)), .loopEvent (.stopped false), .answerPoll, .answerPoll, .finishRun]

theorem queues_kept_sample : let agent := Agent.run quietConfig (Agent.new [] [] .all .all) steeredInputs
    (∃ delivered : Queue → List AgentMessage,
      (∀ name, (agent.passed name).Perm ((agent.queues name).messages ++ delivered name ++ agent.removed name)) ∧
      (delivered .steering ++ delivered .followUp).Subperm (agent.messages ++ agent.forgotten)) ∧
    agent.messages = [promptMessage, steeringMessage, .assistant ⟨[], .stop⟩] :=
  ⟨queues_kept quietConfig [] [] .all .all steeredInputs (by decide +kernel)
    ⟨isNone_iff_eq_none.mp (by decide +kernel), by decide +kernel⟩, by decide +kernel⟩

/-- A prompt starts a run while `onSteeringBatch` handles the batch that `continue` has drained. -/
def overtakenInputs : List AgentInput :=
  [.enqueue .steering steeringMessage, .continue, .prompt [promptMessage], .continueBatch 0 [], .emitPrompt] ++ quietTurn

/-- The steering message is nowhere. -/
theorem queues_lost :
    let agent := Agent.run quietConfig (Agent.new [.assistant ⟨[], .stop⟩] [] .all .all) overtakenInputs
    agent.Idle ∧ agent.passed .steering = [steeringMessage] ∧
    ¬∃ delivered : Queue → List AgentMessage,
      (∀ name, (agent.passed name).Perm ((agent.queues name).messages ++ delivered name ++ agent.removed name)) ∧
      (delivered .steering ++ delivered .followUp).Subperm (agent.messages ++ agent.forgotten) := by
  intro agent
  have hpas : agent.passed .steering = [steeringMessage] := by decide +kernel
  have hqueue : (agent.queues .steering).messages = [] := by decide +kernel
  have hrem : agent.removed .steering = [] := by decide +kernel
  have habs : steeringMessage ∉ agent.messages ++ agent.forgotten := by decide +kernel
  refine ⟨⟨isNone_iff_eq_none.mp (by decide +kernel), by decide +kernel⟩, hpas, ?_⟩
  rintro ⟨delivered, haccount, hsub⟩
  have hsteer := haccount .steering
  rw [hpas, hqueue, hrem, append_nil, nil_append] at hsteer
  have hmem : steeringMessage ∈ delivered .steering := hsteer.mem_iff.mp (mem_singleton.mpr rfl)
  exact habs (hsub.subset (mem_append_left _ hmem))

end Sample

end PiRp.AgentLoop
