import PiRp.ExecutorGenerations
import PiRp.ExecutorWriter

/-! The frames of an executor bridge. A frame stays with the transport it was sent on, in its writer or with
an outcome that is due, and a command is sent on the transport of its generation. -/

namespace PiRp.Executor

variable {options : Options} {bridge : Bridge} {transport : Nat}

/-! ### Frames of a transport -/

/-- A command's frame is sent on the transport of its generation, and the command has been issued. -/
def Purpose.Belongs (purpose : Purpose) (issued : JsMap CommandId Bool) (transport : Nat) : Prop :=
  ∀ id reserved, purpose = .command id reserved →
    id.generation = transport ∧ issued.get? id = some reserved

/-- The frames of all transports, those whose outcome is due included, and the writers that hold them. -/
structure Filed (options : Options) (bridge : Bridge) : Prop where
  frames : ∀ transport, ∀ item ∈ (bridge.writers transport).frames,
    item.purpose.Belongs bridge.issued transport
  due : ∀ reaction ∈ bridge.reactions, reaction.purpose.Belongs bridge.issued reaction.transport
  sound : ∀ transport, (bridge.writers transport).Sound options
  fresh : ∀ id reserved, bridge.issued.get? id = some reserved → id.number < bridge.nextCommand

theorem filed_initial : Filed options .initial := ⟨nofun, nofun, fun _ => Writer.sound_new, nofun⟩

section

variable (hfiled : Filed options bridge)

include hfiled

theorem Filed.update {writer : Writer}
    (hfram : ∀ item ∈ writer.frames, item.purpose.Belongs bridge.issued transport) (hsound : writer.Sound options) :
    Filed options { bridge with writers := Function.update bridge.writers transport writer } where
  frames other item hitem := by
    have hitem : item ∈ (Function.update bridge.writers transport writer other).frames := hitem
    rw [Function.update_apply] at hitem
    split_ifs at hitem with hother
    · rw [hother]
      exact hfram item hitem
    · exact hfiled.frames other item hitem
  due := hfiled.due
  sound other := by
    show (Function.update bridge.writers transport writer other).Sound options
    rw [Function.update_apply]
    split_ifs
    · exact hsound
    · exact hfiled.sound other
  fresh := hfiled.fresh

theorem Filed.react {items : List Outbound} (outcome : SendOutcome)
    (hitems : ∀ item ∈ items, item.purpose.Belongs bridge.issued transport) :
    Filed options (bridge.due transport items outcome) where
  frames := hfiled.frames
  due reaction hreac := by
    rcases List.mem_append.mp hreac with hold | hnew
    · exact hfiled.due reaction hold
    · obtain ⟨item, hitem, rfl⟩ := List.mem_map.mp hnew
      exact hitems item hitem
  sound := hfiled.sound
  fresh := hfiled.fresh

theorem Filed.close (error : Failure) : Filed options (bridge.closeWriter transport error) := by
  refine (hfiled.update (fun item hitem => ?_) (hfiled.sound transport).close).react _ fun item hitem => ?_
  · exact hfiled.frames transport item (Writer.mem_close.1 hitem)
  · exact hfiled.frames transport item (Writer.mem_close.2 hitem)

theorem Filed.send {item : Outbound} (hitem : item.purpose.Belongs bridge.issued transport) :
    Filed options (Bridge.sendOn options bridge transport item) := by
  have hfram := @Writer.frames_send options (bridge.writers transport) item
  have hsound := (hfiled.sound transport).send item
  unfold Bridge.sendOn
  rcases hsend : (bridge.writers transport).send options item with ⟨writer, outcome⟩
  rw [hsend] at hfram hsound
  dsimp only at hfram hsound ⊢
  have hwrit : Filed options
      { bridge with writers := Function.update bridge.writers transport writer } := by
    refine hfiled.update (fun sent hsent => ?_) hsound
    rw [hfram] at hsent
    split_ifs at hsent
    · rcases List.mem_append.mp hsent with hold | hnew
      · exact hfiled.frames transport sent hold
      · rw [List.mem_singleton.mp hnew]
        exact hitem
    · exact hfiled.frames transport sent hsent
  cases outcome with
  | none => exact hwrit
  | some outcome =>
    refine hwrit.react outcome fun other hother => ?_
    rw [List.mem_singleton.mp hother]
    exact hitem

theorem Filed.others {next : Bridge} (hwriters : next.writers = bridge.writers)
    (hreact : next.reactions = bridge.reactions) (hiss : next.issued = bridge.issued)
    (hnext : next.nextCommand = bridge.nextCommand) : Filed options next where
  frames := by
    rw [hwriters, hiss]
    exact hfiled.frames
  due := by
    rw [hreact, hiss]
    exact hfiled.due
  sound := by
    rw [hwriters]
    exact hfiled.sound
  fresh := by
    rw [hiss, hnext]
    exact hfiled.fresh

theorem Filed.fail (error : Failure) : Filed options (bridge.failGeneration error) := by
  obtain ⟨settlements, hset⟩ := Bridge.foldl_settle bridge.core.pending.keys (.error error)
    { (bridge.clearTimer bridge.helloTimer).clearTimer bridge.bootstrapTimer with
      helloTimer := none, bootstrapTimer := none }
  have hrej : Filed options { (bridge.clearTimer bridge.helloTimer).clearTimer bridge.bootstrapTimer with
      helloTimer := none, bootstrapTimer := none, settlements } :=
    hfiled.others (by simp) (by simp) (by simp) (by simp)
  rw [Bridge.failGeneration, hset]
  cases bridge.core.writer with
  | none => exact hrej.others rfl rfl rfl rfl
  | some transport => exact (hrej.close error).others rfl rfl rfl rfl

theorem Filed.sendControl [Encoding] (message : HostToExecutor) {purpose : Purpose}
    (hpur : ∀ id reserved, purpose ≠ .command id reserved) :
    Filed options (bridge.sendControl options transport message purpose) := by
  have hbel : ∀ other, purpose.Belongs bridge.issued other := fun other id reserved hsame =>
    absurd hsame (hpur id reserved)
  unfold Bridge.sendControl
  split
  · refine hfiled.react _ fun item hitem => ?_
    rw [List.mem_singleton.mp hitem]
    exact hbel _
  · refine hfiled.react _ fun item hitem => ?_
    rw [List.mem_singleton.mp hitem]
    exact hbel _
  · exact hfiled.send (hbel _)

end

section FiledSteps

variable [Encoding]

theorem Filed.moves {greets : Prop} {ids : CommandId → Bool → Prop} {next : Bridge} (hfiled : Filed options bridge)
    (hmoves : Moves options transport greets ids bridge next) : Filed options next := by
  induction hmoves with
  | kept => exact hfiled
  | stopped timer => exact hfiled.others rfl rfl rfl rfl
  | disposed => exact hfiled.others rfl rfl rfl rfl
  | taken hget hid result => exact hfiled.others rfl rfl rfl rfl
  | greeted hgreet hcur hnew generationId =>
    refine Filed.sendControl (hfiled.others ?_ ?_ ?_ ?_) _ nofun
    · exact Bridge.writers_clearTimer _
    · exact Bridge.reactions_clearTimer _
    · exact Bridge.issued_clearTimer _
    · exact Bridge.nextCommand_clearTimer _
  | failed hnext error ih => exact ih.fail error
  | answered hnext message hpur ih => exact ih.sendControl message hpur
  | changed hnext hcore ih => exact ih.others rfl rfl rfl rfl
  | cleared hnext ih =>
    refine ih.others ?_ ?_ ?_ ?_
    · exact Bridge.writers_clearTimer _
    · exact Bridge.reactions_clearTimer _
    · exact Bridge.issued_clearTimer _
    · exact Bridge.nextCommand_clearTimer _

variable [JsonText.NumberText]

theorem Filed.messages (hfiled : Filed options bridge) (messages : List ExecutorToHost) :
    Filed options (messages.foldl (Bridge.receiveMessage options transport) bridge) := by
  induction messages generalizing bridge with
  | nil => exact hfiled
  | cons message messages ih => exact ih (hfiled.moves (moves_message options transport _ message))

omit [Encoding] [JsonText.NumberText] in
theorem Filed.openTransport (hfiled : Filed options bridge) : Filed options bridge.openTransport :=
  (@Filed.update _ _ (bridge.core.generation + 1) hfiled .new nofun Writer.sound_new).others rfl rfl rfl rfl

omit [Encoding] [JsonText.NumberText] in
theorem Filed.settled (hfiled : Filed options bridge) (error : Option Failure) :
    Filed options (bridge.onSettled transport error) := by
  cases error with
  | none =>
    refine (hfiled.update (fun item hitem => ?_) (hfiled.sound transport).sent).react _ fun item hitem => ?_
    · exact hfiled.frames transport item (Writer.mem_sent.1 hitem)
    · exact hfiled.frames transport item (Writer.mem_sent.2 hitem)
  | some error =>
    have hfail : ∀ item ∈ (bridge.writers transport).failed.2,
        item.purpose.Belongs bridge.issued transport :=
      fun item hitem => hfiled.frames transport item (Writer.mem_failed.2 hitem)
    refine ((hfiled.update ?_ (hfiled.sound transport).failed).react _ ?_).react _ ?_
    · exact fun item hitem => hfiled.frames transport item (Writer.mem_failed.1 hitem)
    · exact fun item hitem => hfail item (List.mem_of_mem_take hitem)
    · exact fun item hitem => hfail item (List.mem_of_mem_drop hitem)

omit [Encoding] [JsonText.NumberText] in
theorem Filed.issue (hfiled : Filed options bridge) (generation : Nat) (reserved : Bool) :
    Filed options (bridge.addPending ⟨generation, bridge.nextCommand⟩ reserved) := by
  have hget := JsMap.get?_set bridge.issued ⟨generation, bridge.nextCommand⟩ reserved
  have hkept : ∀ {purpose : Purpose} {other : Nat}, purpose.Belongs bridge.issued other →
      purpose.Belongs (bridge.addPending ⟨generation, bridge.nextCommand⟩ reserved).issued other := by
    intro purpose other hbel id mark hsame
    obtain ⟨hid, hiss⟩ := hbel id mark hsame
    refine ⟨hid, (hget id).trans ?_⟩
    rw [if_neg, hiss]
    rintro rfl
    exact Nat.lt_irrefl _ (hfiled.fresh _ mark hiss)
  refine ⟨fun other item hitem => hkept (hfiled.frames other item hitem),
    fun reaction hreac => hkept (hfiled.due reaction hreac), hfiled.sound, fun id mark hid => ?_⟩
  have hid := (hget id).symm.trans hid
  split_ifs at hid with hnew
  · rw [hnew]
    exact Nat.lt_succ_self _
  · exact (hfiled.fresh id mark hid).trans (Nat.lt_succ_self _)

omit [JsonText.NumberText] in
theorem Filed.command (hfiled : Filed options bridge) (hguard : Guarded bridge) (command : RuntimeCommand) :
    Filed options (bridge.command options command) := by
  unfold Bridge.command
  split
  · rename_i writer generationId _ hwrit _
    unfold Bridge.issueCommand
    dsimp only
    split
    · exact { hfiled with fresh := fun id reserved hid =>
        (hfiled.fresh id reserved hid).trans (Nat.lt_succ_self _) }
    · refine (hfiled.issue _ _).send fun id reserved hsame => ?_
      obtain ⟨hwrit, hcur⟩ := hguard.writer writer hwrit
      obtain ⟨rfl, rfl⟩ := Purpose.command.inj hsame
      refine ⟨hcur.trans hwrit.symm, ?_⟩
      exact (JsMap.get?_set _ _ _ _).trans (if_pos rfl)
  · exact hfiled

theorem Filed.step (hfiled : Filed options bridge) (hguard : Guarded bridge) (event : Event) :
    Filed options (step options bridge event) := by
  cases event with
  | attachTransport =>
    show Filed options bridge.attachTransport
    unfold Bridge.attachTransport
    split_ifs
    · exact hfiled
    · exact (hfiled.fail _).openTransport
    · exact hfiled.openTransport
  | data transport oversized messages malformed =>
    obtain ⟨_, rfl | ⟨-, rfl⟩, hmoves⟩ := moves_data options transport bridge oversized messages malformed
    · exact hfiled.moves hmoves
    · exact (hfiled.messages messages).moves hmoves
  | close transport => exact hfiled.moves (moves_end options transport bridge trivial)
  | error transport error => exact hfiled.moves (moves_end options transport bridge trivial)
  | timeout timer => exact hfiled.moves (moves_end options 0 bridge trivial)
  | settled transport error => exact hfiled.settled error
  | reaction index =>
    show Filed options (bridge.onReaction index)
    unfold Bridge.onReaction
    split
    · exact hfiled
    · have hrest : Filed options { bridge with reactions := bridge.reactions.eraseIdx index } :=
        { hfiled with due := fun reaction hreac => hfiled.due reaction (List.mem_of_mem_eraseIdx hreac) }
      exact hrest.moves (moves_outcome options 0 _ _)
  | command command => exact hfiled.command hguard command
  | dispose => exact hfiled.moves (moves_end options 0 bridge trivial)

theorem sound_of_reachable (hreach : Reachable options bridge) : Guarded bridge ∧ Filed options bridge := by
  obtain ⟨events, rfl⟩ := hreach
  induction events using List.reverseRecOn with
  | nil => exact ⟨guarded_initial, filed_initial⟩
  | append_singleton events event ih =>
    rw [run, List.foldl_append]
    exact ⟨ih.1.step event, ih.2.step ih.1 event⟩

end FiledSteps

end PiRp.Executor
