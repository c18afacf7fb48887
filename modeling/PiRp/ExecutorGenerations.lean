import PiRp.ExecutorBridge

/-! The generations of an executor bridge. Timers, the writer and pending commands belong to the transport
that was attached last, and to the present generation; a generation that fails leaves none of them. -/

namespace PiRp.Executor

open Option Transcript

variable {options : Options} {bridge : Bridge} {transport : Nat}

/-! ### What the operations leave alone -/

namespace Bridge

section

variable (timer : Option Timer)

@[simp] theorem core_clearTimer : (bridge.clearTimer timer).core = bridge.core := by
  cases timer <;> rfl

@[simp] theorem attached_clearTimer : (bridge.clearTimer timer).attached = bridge.attached := by
  cases timer <;> rfl

@[simp] theorem writers_clearTimer : (bridge.clearTimer timer).writers = bridge.writers := by
  cases timer <;> rfl

@[simp] theorem reactions_clearTimer : (bridge.clearTimer timer).reactions = bridge.reactions := by
  cases timer <;> rfl

@[simp] theorem issued_clearTimer : (bridge.clearTimer timer).issued = bridge.issued := by
  cases timer <;> rfl

@[simp] theorem nextCommand_clearTimer : (bridge.clearTimer timer).nextCommand = bridge.nextCommand := by
  cases timer <;> rfl

end

theorem sendOn_eq (options : Options) (bridge : Bridge) (transport : Nat) (item : Outbound) :
    ∃ writers reactions, sendOn options bridge transport item = { bridge with writers, reactions } := by
  unfold sendOn
  rcases (bridge.writers transport).send options item with ⟨writer, outcome⟩
  cases outcome with
  | none => exact ⟨_, _, rfl⟩
  | some outcome => exact ⟨_, _, rfl⟩

theorem foldl_settle (ids : List CommandId) (result : Except Failure SessionSnapshot)
    (bridge : Bridge) : ∃ settlements,
      ids.foldl (fun bridge id => bridge.settle id result) bridge = { bridge with settlements } := by
  induction ids generalizing bridge with
  | nil => exact ⟨_, rfl⟩
  | cons id ids ih => exact ih (bridge.settle id result)

theorem sendControl_eq [Encoding] (options : Options) (bridge : Bridge) (transport : Nat)
    (message : HostToExecutor) (purpose : Purpose) : ∃ writers reactions,
      bridge.sendControl options transport message purpose = { bridge with writers, reactions } := by
  unfold sendControl
  split
  · exact ⟨_, _, rfl⟩
  · exact ⟨_, _, rfl⟩
  · exact sendOn_eq options bridge _ _

theorem failGeneration_eq (bridge : Bridge) (error : Failure) : ∃ settlements writers reactions,
    bridge.failGeneration error = { bridge with
      core := Core.failed bridge.core
      helloTimer := none
      bootstrapTimer := none
      running := ((bridge.clearTimer bridge.helloTimer).clearTimer bridge.bootstrapTimer).running
      settlements, writers, reactions } := by
  obtain ⟨settlements, hset⟩ := foldl_settle bridge.core.pending.keys (.error error)
    { (bridge.clearTimer bridge.helloTimer).clearTimer bridge.bootstrapTimer with
      helloTimer := none, bootstrapTimer := none }
  rw [failGeneration, hset]
  cases bridge.helloTimer <;> cases bridge.bootstrapTimer <;> cases bridge.core.writer <;>
    exact ⟨_, _, _, rfl⟩

end Bridge

/-! ### Timers and commands of the present generation -/

/-- What runs and what is pending belongs to the transport that was attached last. -/
structure Guarded (bridge : Bridge) : Prop where
  attached_le : bridge.attached ≤ bridge.core.generation
  writer : ∀ transport, bridge.core.writer = some transport →
    transport = bridge.attached ∧ bridge.core.generation = bridge.attached
  decoder : bridge.core.decoder ≠ none → bridge.core.generation = bridge.attached ∧ bridge.attached ≠ 0
  running : ∀ timer ∈ bridge.running,
    timer.transport = bridge.attached ∧ bridge.core.generation = bridge.attached
  cleared : ∀ timer ∈ bridge.running, bridge.helloTimer = some timer ∨ bridge.bootstrapTimer = some timer
  nodup : bridge.running.Nodup
  idle : bridge.core.generationId = none → bridge.bootstrapTimer = none
  quiet : bridge.core.connection = none → bridge.running = []
  opened : bridge.core.generation = bridge.attached → bridge.attached ≠ 0 → bridge.core.connection ≠ none
  pending : ∀ id reserved, bridge.core.pending.get? id = some reserved →
    id.generation = bridge.core.generation
  unnamed : bridge.core.generationId = none → ∀ id, bridge.core.pending.get? id = none

theorem guarded_initial : Guarded .initial where
  attached_le := Nat.le_refl 0
  writer := nofun
  decoder hdec := absurd rfl hdec
  running := nofun
  cleared := nofun
  nodup := List.nodup_nil
  idle _ := rfl
  quiet _ := rfl
  opened _ hatt := absurd rfl hatt
  pending := nofun
  unnamed _ _ := rfl

section

variable (hguard : Guarded bridge)

include hguard

theorem Guarded.frames (writers : Nat → Writer) (reactions : List Reaction)
    (settlements : List (CommandId × Except Failure SessionSnapshot)) (nextCommand : Nat)
    (issued : JsMap CommandId Bool) : Guarded { bridge with writers, reactions, settlements, nextCommand, issued } :=
  { hguard with }

theorem Guarded.timers : ((bridge.clearTimer bridge.helloTimer).clearTimer bridge.bootstrapTimer).running = [] := by
  refine List.eq_nil_iff_forall_not_mem.mpr fun timer htimer => ?_
  have hmem : ∀ {state : Bridge} {cleared : Option Timer}, state.running.Nodup →
      timer ∈ (state.clearTimer cleared).running → timer ∈ state.running ∧ cleared ≠ some timer := by
    intro state cleared hnodup hrun
    cases cleared with
    | none => exact ⟨hrun, nofun⟩
    | some other =>
      have hother := (hnodup.mem_erase_iff).mp hrun
      exact ⟨hother.2, fun hsame => hother.1 (Option.some.inj hsame).symm⟩
  have hfirst : (bridge.clearTimer bridge.helloTimer).running.Nodup := by
    cases bridge.helloTimer with
    | none => exact hguard.nodup
    | some other => exact hguard.nodup.erase other
  obtain ⟨hleft, hboot⟩ := hmem hfirst htimer
  obtain ⟨hrun, hhello⟩ := hmem hguard.nodup hleft
  exact (hguard.cleared timer hrun).elim hhello hboot

theorem Guarded.fail (error : Failure) : Guarded (bridge.failGeneration error) := by
  obtain ⟨settlements, writers, reactions, heq⟩ := bridge.failGeneration_eq error
  rw [heq, hguard.timers]
  exact {
    attached_le := hguard.attached_le.trans (Nat.le_succ _)
    writer := nofun
    decoder := fun hdec => absurd rfl hdec
    running := nofun
    cleared := nofun
    nodup := List.nodup_nil
    idle := fun _ => rfl
    quiet := fun _ => rfl
    opened := fun hgen =>
      absurd hgen (Nat.lt_succ_of_le hguard.attached_le).ne'
    pending := nofun
    unnamed := fun _ _ => rfl }

theorem Guarded.sendControl [Encoding] (message : HostToExecutor)
    (purpose : Purpose) : Guarded (bridge.sendControl options transport message purpose) := by
  obtain ⟨writers, reactions, heq⟩ := bridge.sendControl_eq options transport message purpose
  rw [heq]
  exact hguard.frames writers reactions _ _ _

theorem Guarded.update {core : Core} (hgen : core.generation = bridge.core.generation)
    (hid : core.generationId = none → bridge.core.generationId = none)
    (hconn : core.connection = bridge.core.connection) (hwrit : core.writer = bridge.core.writer)
    (hdec : core.decoder = bridge.core.decoder) (hfewer : ∀ id reserved, core.pending.get? id = some reserved →
      bridge.core.pending.get? id = some reserved) : Guarded { bridge with core } where
  attached_le := hgen ▸ hguard.attached_le
  writer transport htrans := by
    rw [hgen]
    exact hguard.writer transport (hwrit ▸ htrans)
  decoder hnone := by
    rw [hgen]
    exact hguard.decoder (hdec ▸ hnone)
  running timer htimer := by
    rw [hgen]
    exact hguard.running timer htimer
  cleared := hguard.cleared
  nodup := hguard.nodup
  idle hnone := hguard.idle (hid hnone)
  quiet hnone := hguard.quiet (hconn ▸ hnone)
  opened hcur hatt := by
    rw [hconn]
    exact hguard.opened (hgen ▸ hcur) hatt
  pending id reserved hid := (hguard.pending id reserved (hfewer id reserved hid)).trans hgen.symm
  unnamed hnone id := by
    by_contra hsome
    obtain ⟨reserved, hresd⟩ := ne_none_iff_exists'.mp hsome
    exact nomatch (hguard.unnamed (hid hnone) id).symm.trans (hfewer id reserved hresd)

theorem Guarded.take (id : CommandId) (reserved : Bool) (result : Except Failure SessionSnapshot) :
    Guarded ((bridge.takePending id reserved).settle id result) := by
  have htaken : Guarded (bridge.takePending id reserved) := by
    refine hguard.update rfl (fun hnone => hnone) rfl rfl rfl fun other mark hother => ?_
    rw [JsMap.get?_delete] at hother
    split_ifs at hother
    exact hother
  exact htaken.frames _ _ _ _ _

/-- A timer that ran has been erased. -/
theorem Guarded.stop (timer : Timer) : Guarded { bridge with running := bridge.running.erase timer } where
  attached_le := hguard.attached_le
  writer := hguard.writer
  decoder := hguard.decoder
  running other hother := hguard.running other (List.mem_of_mem_erase hother)
  cleared other hother := hguard.cleared other (List.mem_of_mem_erase hother)
  nodup := hguard.nodup.erase timer
  idle := hguard.idle
  quiet hnone := by
    show bridge.running.erase timer = []
    rw [hguard.quiet hnone]
    rfl
  opened := hguard.opened
  pending := hguard.pending
  unnamed := hguard.unnamed

theorem Guarded.clearBootstrap : Guarded { bridge.clearTimer bridge.bootstrapTimer with bootstrapTimer := none } := by
  cases htimer : bridge.bootstrapTimer with
  | none =>
    show Guarded { bridge with bootstrapTimer := none }
    rw [← htimer]
    exact hguard
  | some timer =>
    refine { hguard.stop timer with idle := fun _ => rfl, cleared := fun other hother => ?_ }
    obtain ⟨hne, hrun⟩ := hguard.nodup.mem_erase_iff.mp hother
    exact .inl ((hguard.cleared other hrun).resolve_right fun hsame => hne (some.inj (hsame.symm.trans htimer)))

end

section Messages

variable [Encoding]

section

variable (hguard : Guarded bridge)

include hguard

theorem Guarded.acceptHello (htrans : transport = bridge.attached)
    (hatt : bridge.attached ≠ 0) (hcur : bridge.core.generation = bridge.attached)
    (hnew : bridge.core.generationId = none) (generationId : JsStr) :
    Guarded (bridge.acceptHello options transport generationId) := by
  -- Before the hello only its own timer runs.
  have hempty : (bridge.clearTimer bridge.helloTimer).running = [] := by
    have htim := hguard.timers
    rw [hguard.idle hnew] at htim
    exact htim
  unfold Bridge.acceptHello
  dsimp only
  rw [hempty]
  refine Guarded.sendControl ?_ _ _
  have hsame := @Bridge.attached_clearTimer bridge bridge.helloTimer
  refine {
    attached_le := ?_, writer := ?_, decoder := ?_, running := ?_, cleared := ?_
    nodup := List.nodup_singleton _, idle := nofun, quiet := ?_, opened := ?_, pending := hguard.pending
    unnamed := nofun }
  · exact hsame ▸ hguard.attached_le
  · exact hsame ▸ hguard.writer
  · exact hsame ▸ hguard.decoder
  · intro timer htimer
    rw [List.mem_singleton.mp htimer]
    exact ⟨htrans.trans hsame.symm, hcur.trans hsame.symm⟩
  · exact fun timer htimer => .inr (congrArg some (List.mem_singleton.mp htimer).symm)
  · exact fun hconn => absurd hconn (hguard.opened hcur hatt)
  · exact fun _ _ => hguard.opened hcur hatt

end

end Messages

/-! ### What a step is made of -/

/-- The command a message answers. -/
def ExecutorToHost.commandId : ExecutorToHost → Option CommandId
  | .runtimeCommandResult _ id _ => some id
  | .snapshotRejected _ id => id
  | _ => none

/-- The commands a message answers, as they are pending. -/
def Answers (bridge : Bridge) (message : ExecutorToHost) (id : CommandId) (reserved : Bool) : Prop :=
  message.commandId = some id ∧ bridge.core.pending.get? id = some reserved

/-- The parts of the core that a message or an outcome changes say nothing of the transport and its commands. -/
structure Core.Continues (core old : Core) : Prop where
  generation : core.generation = old.generation
  generationId : core.generationId = none → old.generationId = none
  connection : core.connection = old.connection
  writer : core.writer = old.writer
  decoder : core.decoder = old.decoder
  pending : core.pending = old.pending
  ordinaryPending : core.ordinaryPending = old.ordinaryPending
  abortPending : core.abortPending = old.abortPending

/-- The moves of a step. `greets` tells whether it may accept a hello, `ids` the commands it may settle. -/
inductive Moves [Encoding] (options : Options) (transport : Nat) (greets : Prop) (ids : CommandId → Bool → Prop)
    (bridge : Bridge) : Bridge → Prop where
  | kept : Moves options transport greets ids bridge bridge
  | stopped (timer : Timer) : Moves options transport greets ids bridge
      { bridge with running := bridge.running.erase timer }
  | disposed : Moves options transport greets ids bridge { bridge with disposed := true }
  | taken {id : CommandId} {reserved mark : Bool} (hget : bridge.core.pending.get? id = some mark)
      (hid : ids id reserved) (result : Except Failure SessionSnapshot) :
      Moves options transport greets ids bridge ((bridge.takePending id reserved).settle id result)
  | greeted (hgreet : greets) (hcur : transport = bridge.core.generation) (hnew : bridge.core.generationId = none)
      (generationId : JsStr) : Moves options transport greets ids bridge
        (bridge.acceptHello options transport generationId)
  | failed {next : Bridge} (hnext : Moves options transport greets ids bridge next) (error : Failure) :
      Moves options transport greets ids bridge (next.failGeneration error)
  | answered {next : Bridge} (hnext : Moves options transport greets ids bridge next) (message : HostToExecutor)
      {purpose : Purpose} (hpur : ∀ id reserved, purpose ≠ .command id reserved) :
      Moves options transport greets ids bridge (next.sendControl options transport message purpose)
  | changed {next : Bridge} (hnext : Moves options transport greets ids bridge next) {core : Core}
      (hcore : core.Continues next.core) : Moves options transport greets ids bridge { next with core }
  | cleared {next : Bridge} (hnext : Moves options transport greets ids bridge next) :
      Moves options transport greets ids bridge { next.clearTimer next.bootstrapTimer with bootstrapTimer := none }

section Moves

variable [Encoding] (options transport)

section

variable {greets : Prop} {ids : CommandId → Bool → Prop}

theorem moves_rejectSnapshot (error : Failure) :
    Moves options transport greets ids bridge (bridge.rejectSnapshot options transport error) := by
  unfold Bridge.rejectSnapshot
  split
  · exact .failed .kept error
  · exact .answered .kept _ nofun

theorem moves_snapshot (generationId : JsStr) (snapshot : SessionSnapshot) :
    Moves options transport greets ids bridge (bridge.receiveSnapshot options transport generationId snapshot) := by
  unfold Bridge.receiveSnapshot
  split_ifs
  · exact moves_rejectSnapshot _ _ _
  · exact moves_rejectSnapshot _ _ _
  · have hacc : Moves options transport greets ids bridge (bridge.acceptSnapshot snapshot) :=
      .changed .kept ⟨rfl, id, rfl, rfl, rfl, rfl, rfl, rfl⟩
    dsimp only
    cases bridge.core.bootstrap with
    | some _ => exact hacc
    | none => exact .answered (.cleared hacc) _ nofun

theorem moves_result {message : ExecutorToHost} {id : CommandId} (hid : message.commandId = some id)
    (result : Except Failure SessionSnapshot) :
    Moves options transport greets (Answers bridge message) bridge (bridge.receiveResult options id result) := by
  unfold Bridge.receiveResult
  split
  · exact .kept
  · next reserved hget =>
    have htaken (result : Except Failure SessionSnapshot) : Moves options transport greets (Answers bridge message) bridge
        ((bridge.takePending id reserved).settle id result) := .taken hget ⟨hid, hget⟩ result
    cases result with
    | error error => exact htaken _
    | ok snapshot =>
      dsimp only
      split_ifs
      · exact .failed (htaken _) _
      · exact htaken _
      · exact .changed (htaken (.ok snapshot)) ⟨rfl, fun hnone => hnone, rfl, rfl, rfl, rfl, rfl, rfl⟩

theorem moves_snapshotRejected {message : ExecutorToHost} {commandId : Option CommandId}
    (hid : message.commandId = commandId) : Moves options transport greets (Answers bridge message) bridge
      (bridge.receiveSnapshotRejected options transport commandId) := by
  unfold Bridge.receiveSnapshotRejected
  split
  · exact moves_rejectSnapshot _ _ _
  · split
    · exact .kept
    · next hget => exact .taken hget ⟨hid, hget⟩ _

theorem moves_message [JsonText.NumberText] (bridge : Bridge) (message : ExecutorToHost) :
    Moves options transport True (Answers bridge message) bridge
      (Bridge.receiveMessage options transport bridge message) := by
  unfold Bridge.receiveMessage
  split_ifs with hother
  · exact .kept
  · split
    · unfold Bridge.receiveHello
      split_ifs with haccep
      · exact .greeted trivial (not_not.mp hother) (isNone_iff_eq_none.mp (Bool.and_eq_true_iff.mp haccep).2) _
      · refine .answered (.changed .kept ?_) _ nofun
        exact ⟨rfl, nofun, rfl, rfl, rfl, rfl, rfl, rfl⟩
    · exact .kept
    · split_ifs
      · exact .kept
      · exact .failed .kept _
      · unfold Bridge.receiveRuntime
        split
        · exact .kept
        · exact moves_snapshot _ _ _ _
        · exact .changed .kept ⟨rfl, id, rfl, rfl, rfl, rfl, rfl, rfl⟩
        · exact moves_result _ _ rfl _
        · exact moves_snapshotRejected _ _ rfl
        · split_ifs
          · exact .failed .kept _
          · exact .kept
        · exact .failed .kept _

/-- A chunk is received message by message, and the generation may fail then. -/
theorem moves_data [JsonText.NumberText] (bridge : Bridge) (oversized : Bool) (messages : List ExecutorToHost)
    (malformed : Bool) : ∃ received, (received = bridge ∨
      (transport = bridge.core.generation ∧ bridge.core.decoder ≠ none) ∧
        received = messages.foldl (Bridge.receiveMessage options transport) bridge) ∧
      Moves options transport False (fun _ _ => False) received
        (bridge.onData options transport oversized messages malformed) := by
  unfold Bridge.onData
  split_ifs with hstale
  · exact ⟨_, .inl rfl, .kept⟩
  · exact ⟨_, .inl rfl, .failed .kept _⟩
  · exact ⟨_, .inr ⟨not_or.mp hstale |>.imp_left not_not.mp, rfl⟩, .failed .kept _⟩
  · exact ⟨_, .inr ⟨not_or.mp hstale |>.imp_left not_not.mp, rfl⟩, .kept⟩

/-- The events that only end a generation. -/
def Event.Ends : Event → Prop
  | .close _ | .error _ _ | .timeout _ | .dispose => True
  | _ => False

theorem moves_end [JsonText.NumberText] (bridge : Bridge) {event : Event} (hends : event.Ends) :
    Moves options transport False (fun _ _ => False) bridge (step options bridge event) := by
  cases event with
  | close closed =>
    show Moves options transport False _ bridge (if closed = bridge.core.generation then _ else bridge)
    split_ifs
    · exact .failed .kept _
    · exact .kept
  | error closed error =>
    show Moves options transport False _ bridge (if closed = bridge.core.generation then _ else bridge)
    split_ifs
    · exact .failed .kept _
    · exact .kept
  | timeout timer =>
    show Moves options transport False _ bridge (if timer ∈ bridge.running then _ else bridge)
    split_ifs
    · exact .failed (.stopped timer) _
    · exact .kept
  | dispose =>
    show Moves options transport False _ bridge (if bridge.disposed then bridge else _)
    split_ifs
    · exact .kept
    · exact .failed .disposed _
  | _ => exact hends.elim

theorem moves_outcome (bridge : Bridge) (reaction : Reaction) : Moves options transport False
    (fun id reserved => reaction.purpose = .command id reserved ∧ reaction.outcome = .full) bridge
      (bridge.onOutcome reaction) := by
  unfold Bridge.onOutcome
  split
  · exact .kept
  · exact .failed .kept _
  · exact .failed .kept _
  · split_ifs
    · exact .changed .kept ⟨rfl, id, rfl, rfl, rfl, rfl, rfl, rfl⟩
    · exact .kept
  · exact .failed .kept _
  · exact .failed .kept _
  · exact .failed .kept _
  · exact .kept
  · next hpur hfull =>
    split
    · exact .kept
    · next hget => exact .taken hget ⟨hpur, hfull⟩ _
  · split_ifs
    · exact .failed .kept _
    · exact .kept

end

variable {options transport} {greets : Prop} {ids : CommandId → Bool → Prop} {next : Bridge}

theorem Moves.attached (hmoves : Moves options transport greets ids bridge next) : next.attached = bridge.attached := by
  induction hmoves with
  | kept => rfl
  | stopped timer => rfl
  | disposed => rfl
  | taken hget hid result => rfl
  | greeted hgreet hcur hnew generationId =>
    obtain ⟨_, _, heq⟩ := Bridge.sendControl_eq options _ transport _ _
    exact (congrArg Bridge.attached heq).trans (Bridge.attached_clearTimer _)
  | @failed next hnext error ih =>
    obtain ⟨_, _, _, heq⟩ := next.failGeneration_eq error
    rwa [heq]
  | @answered next hnext message purpose hpur ih =>
    obtain ⟨_, _, heq⟩ := next.sendControl_eq options transport message purpose
    rwa [heq]
  | changed hnext hcore ih => exact ih
  | cleared hnext ih => exact (Bridge.attached_clearTimer _).trans ih

theorem Guarded.moves (hguard : Guarded bridge) (hmoves : Moves options transport greets ids bridge next)
    (hgreets : greets → transport = bridge.attached ∧ bridge.attached ≠ 0) : Guarded next := by
  induction hmoves with
  | kept => exact hguard
  | stopped timer => exact hguard.stop timer
  | disposed => exact { hguard with }
  | taken hget hid result => exact hguard.take _ _ result
  | greeted hgreet hcur hnew generationId =>
    obtain ⟨htrans, hatt⟩ := hgreets hgreet
    exact hguard.acceptHello htrans hatt (hcur.symm.trans htrans) hnew generationId
  | failed hnext error ih => exact ih.fail error
  | answered hnext message hpur ih => exact ih.sendControl message _
  | changed hnext hcore ih =>
    refine ih.update hcore.generation hcore.generationId hcore.connection hcore.writer hcore.decoder fun id reserved hid => ?_
    rwa [← hcore.pending]
  | cleared hnext ih => exact ih.clearBootstrap

theorem Guarded.messages [JsonText.NumberText] (hguard : Guarded bridge) (htrans : transport = bridge.attached)
    (hatt : bridge.attached ≠ 0) (messages : List ExecutorToHost) :
    Guarded (messages.foldl (Bridge.receiveMessage options transport) bridge) := by
  induction messages generalizing bridge with
  | nil => exact hguard
  | cons message messages ih =>
    have hmoves := moves_message options transport bridge message
    exact ih (hguard.moves hmoves fun _ => ⟨htrans, hatt⟩) (htrans.trans hmoves.attached.symm) (hmoves.attached ▸ hatt)

end Moves

/-! ### Every step -/

theorem guarded_openTransport (hempty : bridge.running = [])
    (hboot : bridge.bootstrapTimer = none) (hpend : ∀ id, bridge.core.pending.get? id = none) :
    Guarded bridge.openTransport where
  attached_le := Nat.le_refl _
  writer transport htrans := ⟨(Option.some.inj htrans).symm, rfl⟩
  decoder _ := ⟨rfl, Nat.succ_ne_zero _⟩
  running timer htimer := by
    have htimer : timer ∈ _ :: bridge.running := htimer
    rw [hempty] at htimer
    rw [List.mem_singleton.mp htimer]
    exact ⟨rfl, rfl⟩
  cleared timer htimer := by
    have htimer : timer ∈ _ :: bridge.running := htimer
    rw [hempty] at htimer
    exact .inl (congrArg some (List.mem_singleton.mp htimer).symm)
  nodup := by
    show (_ :: bridge.running).Nodup
    rw [hempty]
    exact List.nodup_singleton _
  idle _ := hboot
  quiet := nofun
  opened _ _ := some_ne_none _
  pending id reserved hid := nomatch (hpend id).symm.trans hid
  unnamed _ := hpend

theorem pending_fail (bridge : Bridge) (error : Failure) (id : CommandId) :
    (bridge.failGeneration error).core.pending.get? id = none := by
  obtain ⟨_, _, _, heq⟩ := bridge.failGeneration_eq error
  rw [heq]
  rfl

section

variable (hguard : Guarded bridge)

include hguard

theorem Guarded.attach : Guarded bridge.attachTransport := by
  unfold Bridge.attachTransport
  split_ifs with hdis hatt
  · exact hguard
  · obtain ⟨settlements, writers, reactions, heq⟩ :=
      bridge.failGeneration_eq ⟨.sessionLocked, js "Executor session replaced"⟩
    refine guarded_openTransport ?_ ?_ (pending_fail bridge _)
    · rw [heq]
      exact hguard.timers
    · rw [heq]
  · rw [Bridge.isAttached, Bool.or_eq_true, Bool.or_eq_true, not_or, not_or] at hatt
    have hconn : bridge.core.connection = none := not_isSome_iff_eq_none.mp hatt.1.1
    have hid : bridge.core.generationId = none := not_isSome_iff_eq_none.mp hatt.2
    exact guarded_openTransport (hguard.quiet hconn) (hguard.idle hid) (hguard.unnamed hid)

theorem Guarded.settled (error : Option Failure) : Guarded (bridge.onSettled transport error) := by
  cases error with
  | none => exact hguard.frames _ _ _ _ _
  | some error => exact hguard.frames _ _ _ _ _

theorem Guarded.command [Encoding] (command : RuntimeCommand) : Guarded (bridge.command options command) := by
  unfold Bridge.command
  split
  · rename_i writer generationId _ _ hid
    unfold Bridge.issueCommand
    dsimp only
    split
    · exact hguard.frames _ _ _ _ _
    · obtain ⟨writers, reactions, heq⟩ := Bridge.sendOn_eq options _ writer _
      rw [heq]
      refine Guarded.frames ?_ writers reactions _ _ _
      exact {
        attached_le := hguard.attached_le
        writer := hguard.writer
        decoder := hguard.decoder
        running := hguard.running
        cleared := hguard.cleared
        nodup := hguard.nodup
        idle := hguard.idle
        quiet := hguard.quiet
        opened := hguard.opened
        pending := fun other reserved hother => by
          have hget := JsMap.get?_set bridge.core.pending ⟨bridge.core.generation, bridge.nextCommand⟩
            command.isAbort other
          split_ifs at hget with hsame
          · rw [hsame]
            rfl
          · exact hguard.pending other reserved (hget ▸ hother)
        unnamed := fun hnone => nomatch hid.symm.trans hnone }
  · exact hguard

end

section Steps

variable [Encoding] [JsonText.NumberText]

theorem Guarded.step (hguard : Guarded bridge) (event : Event) : Guarded (step options bridge event) := by
  cases event with
  | attachTransport => exact hguard.attach
  | data transport oversized messages malformed =>
    obtain ⟨_, rfl | ⟨⟨htrans, hdec⟩, rfl⟩, hmoves⟩ := moves_data options transport bridge oversized messages malformed
    · exact hguard.moves hmoves nofun
    · obtain ⟨hcur, hatt⟩ := hguard.decoder hdec
      exact (hguard.messages (htrans.trans hcur) hatt messages).moves hmoves nofun
  | close transport => exact hguard.moves (moves_end options transport bridge trivial) nofun
  | error transport error => exact hguard.moves (moves_end options transport bridge trivial) nofun
  | timeout timer => exact hguard.moves (moves_end options 0 bridge trivial) nofun
  | settled transport error => exact hguard.settled error
  | reaction index =>
    show Guarded (bridge.onReaction index)
    unfold Bridge.onReaction
    split
    · exact hguard
    · exact (hguard.frames _ _ _ _ _).moves (moves_outcome options 0 _ _) nofun
  | command command => exact hguard.command command
  | dispose => exact hguard.moves (moves_end options 0 bridge trivial) nofun

end Steps

end PiRp.Executor
