import PiRp.ExecutorIsolation
import PiRp.ExecutorLedger

/-! The room for an abort. When no abort is pending, at most one frame of an abort is still held, the one that
is in flight; two such frames fit in the reserve, so that the next abort is never refused. -/

namespace PiRp.Executor

open List Function

variable {options : Options} {bridge : Bridge} {transport : Nat}

/-! ### Frames of aborts -/

theorem argumentBytes_mono (majorType : Nat) {first second : Nat} (hle : first ≤ second) :
    (Cbor.argumentBytes majorType first).length ≤ (Cbor.argumentBytes majorType second).length := by
  unfold Cbor.argumentBytes
  split_ifs <;> simp [beBytes_length] <;> omega

theorem textBytes_mono {first second : JsStr} (hle : (textEncode first).length ≤ (textEncode second).length) :
    (Cbor.textBytes first).length ≤ (Cbor.textBytes second).length := by
  rw [Cbor.textBytes, Cbor.textBytes, length_append, length_append]
  exact Nat.add_le_add (argumentBytes_mono 3 hle) hle

theorem entriesBytes_text (key value : JsStr) (props : List (JsStr × Cbor.Value)) :
    (Cbor.entriesBytes ((key, .text value) :: props)).length =
      (Cbor.textBytes key).length + (Cbor.textBytes value).length + (Cbor.entriesBytes props).length := by
  rw [Cbor.entriesBytes, if_neg (by exact Bool.false_ne_true), length_append, length_append, Cbor.itemBytes]

theorem frameSize_abort (sessionId bindingId generationId commandId : JsStr) :
    frameSize (abortControl sessionId bindingId generationId commandId) =
      (Cbor.textBytes sessionId).length + (Cbor.textBytes bindingId).length +
        (Cbor.textBytes generationId).length + (Cbor.textBytes commandId).length + 92 := by
  have hkeys : (Cbor.textBytes (js "type")).length + (Cbor.textBytes (js "runtime_command")).length +
      (Cbor.textBytes (js "sessionId")).length + (Cbor.textBytes (js "bindingId")).length +
      (Cbor.textBytes (js "generationId")).length + (Cbor.textBytes (js "commandId")).length +
      (Cbor.entriesBytes [(js "command", .object [(js "command", .text (js "abort"))])]).length = 87 := by
    decide +kernel
  have hhead : ∀ props : List (JsStr × Cbor.Value), (Cbor.definedEntries props).length = 6 →
      (Cbor.argumentBytes 5 (Cbor.definedEntries props).length).length = 1 := by
    intro props hprops
    rw [hprops]
    rfl
  rw [frameSize, abortControl, Cbor.itemBytes, length_append, entriesBytes_text, entriesBytes_text,
    entriesBytes_text, entriesBytes_text, entriesBytes_text, hhead _ rfl, Framing.frameHeaderLength]
  omega

/-- The bytes the frame of an abort has. -/
def Options.abortLength (options : Options) : Nat :=
  frameSize (abortControl options.sessionId options.bindingId boundUuid boundUuid)

theorem textBytes_uuid {id : JsStr} (hid : (textEncode id).length = uuidLength) :
    (Cbor.textBytes id).length = (Cbor.textBytes boundUuid).length := by
  have hbound : (textEncode boundUuid).length = uuidLength := by decide +kernel
  have hsame := hid.trans hbound.symm
  exact Nat.le_antisymm (textBytes_mono hsame.le) (textBytes_mono hsame.ge)

theorem abort_length [Encoding] {generationId : JsStr} {id : CommandId} {length : Nat}
    (hlen : Encoding.frameLength (.runtimeCommand (Bridge.identity options generationId) id .abort) =
      some length) : length = options.abortLength := by
  obtain ⟨hgen, commandId, hcom, rfl⟩ := Encoding.frameLength_abort _ _ _ hlen
  have hgen : (textEncode generationId).length = uuidLength := hgen
  rw [Bridge.identity, Options.abortLength, frameSize_abort, frameSize_abort, textBytes_uuid hgen,
    textBytes_uuid hcom]

theorem Options.two_aborts (options : Options) : 2 * options.abortLength ≤ options.maxAbortControlBytes := by
  have hbound : (textEncode boundId).length = maxIdentityBytes := by decide +kernel
  have hsess := textBytes_mono (options.session_valid.2.trans hbound.ge)
  have hbin := textBytes_mono (options.binding_valid.2.trans hbound.ge)
  have htwice : 2 * frameSize (abortControl boundId boundId boundUuid boundUuid) ≤ minAbortControlBytes := by
    decide +kernel
  have hvalid := options.abort_valid
  rw [frameSize_abort] at htwice
  rw [Options.abortLength, frameSize_abort]
  omega

/-! ### Queued frames -/

namespace Writer

variable {writer : Writer} {item : Outbound}

theorem mem_queued_drain (hitem : item ∈ writer.drain.queued) : item ∈ writer.queued := by
  unfold drain at hitem
  split at hitem
  · next hque => rw [hque]; exact mem_cons_of_mem _ hitem
  · exact hitem

theorem mem_queued_send {new : Outbound} (hitem : item ∈ (writer.send options new).1.queued) :
    item ∈ writer.queued ∨ item = new := by
  unfold send at hitem
  split_ifs at hitem
  · exact .inl hitem
  · exact .inl hitem
  · rcases mem_append.mp (mem_queued_drain hitem) with hold | hnew
    · exact .inl hold
    · exact .inr (mem_singleton.mp hnew)

theorem mem_queued_close (hitem : item ∈ writer.close.1.queued) : item ∈ writer.queued := by
  unfold close at hitem
  split_ifs at hitem
  · exact hitem
  · exact absurd hitem not_mem_nil

theorem mem_queued_sent (hitem : item ∈ writer.sent.1.queued) : item ∈ writer.queued := by
  unfold sent at hitem
  split at hitem
  · exact hitem
  · have hdrain := mem_queued_drain hitem
    exact hdrain

theorem mem_queued_failed (hitem : item ∈ writer.failed.1.queued) : item ∈ writer.queued := by
  unfold failed at hitem
  split at hitem
  · exact hitem
  · exact mem_queued_close hitem

theorem send_of_room (hroom : writer.isFull options item = false) : (writer.send options item).2 ≠ some .full := by
  by_cases hclos : writer.closed = true
  · rw [send, if_pos hclos]
    exact fun hfail => SendOutcome.noConfusion (Option.some.inj hfail)
  · rw [send, if_neg hclos, hroom, if_neg Bool.false_ne_true]
    exact (Option.some_ne_none _).symm

theorem lengthOf_reserved (items : List Outbound) : lengthOf items =
    lengthOf (items.filter fun item => !item.reserved) + lengthOf (items.filter Outbound.reserved) := by
  induction items with
  | nil => rfl
  | cons item items ih =>
    rw [lengthOf_cons, filter_cons, filter_cons, ih]
    cases item.reserved with
    | true =>
      rw [if_neg (by decide), if_pos rfl, lengthOf_cons]
      omega
    | false =>
      rw [if_pos (by decide), if_neg Bool.false_ne_true, lengthOf_cons]
      omega

end Writer

theorem Outbound.reserved_iff {item : Outbound} : item.reserved = true ↔ ∃ id, item.purpose = .command id true := by
  unfold Outbound.reserved
  split
  · next id reserved hpur =>
    rw [hpur]
    exact ⟨fun hresd => ⟨id, by rw [hresd]⟩, fun ⟨_, hsame⟩ => (Purpose.command.inj hsame).2⟩
  · next hother => exact ⟨nofun, fun ⟨id, hsame⟩ => absurd hsame (hother id true)⟩

/-! ### The reserve -/

/-- The frames of aborts. One that is still queued belongs to a command that is pending. -/
structure Reserve (options : Options) (bridge : Bridge) : Prop where
  lengths : ∀ transport, ∀ item ∈ (bridge.writers transport).frames, item.reserved = true →
    item.length ≤ options.abortLength
  queued : ∀ transport, bridge.core.writer = some transport → ∀ item ∈ (bridge.writers transport).queued,
    ∀ id, item.purpose = .command id true → bridge.core.pending.get? id = some true
  taken : ∀ reaction ∈ bridge.reactions, ∀ id, reaction.purpose = .command id true → reaction.outcome ≠ .full

theorem reserve_initial : Reserve options .initial := ⟨nofun, nofun, nofun⟩

theorem Reserve.room (hresv : Reserve options bridge) (hledg : Ledger bridge) (hfiled : Filed options bridge)
    (habort : bridge.core.abortPending = false) (hwrit : bridge.core.writer = some transport) (id : CommandId) :
    (bridge.writers transport).isFull options ⟨.command id true, options.abortLength⟩ = false := by
  have hnone : ∀ other, bridge.core.pending.get? other ≠ some true := by
    intro other hget
    have hcount := hledg.abort
    rw [habort, if_neg Bool.false_ne_true, pendingCount, JsMap.count_eq_zero] at hcount
    exact absurd rfl (of_decide_eq_false (hcount other true hget))
  have hque : (bridge.writers transport).queued.filter Outbound.reserved = [] := by
    refine filter_eq_nil_iff.mpr fun item hitem hresd => ?_
    obtain ⟨other, hother⟩ := Outbound.reserved_iff.mp hresd
    exact hnone other (hresv.queued transport hwrit item hitem other hother)
  have hheld : Writer.lengthOf ((bridge.writers transport).frames.filter Outbound.reserved) ≤
      options.abortLength := by
    rw [Writer.frames, filter_append, hque, append_nil]
    cases hflig : (bridge.writers transport).inFlight with
    | none => exact Int.natCast_nonneg _
    | some item =>
      rw [Option.toList_some, filter_singleton]
      cases hresd : item.reserved with
      | false => exact Int.natCast_nonneg _
      | true =>
        rw [cond_true, Writer.lengthOf_singleton]
        refine Int.ofNat_le.mpr (hresv.lengths transport item ?_ hresd)
        rw [Writer.frames, hflig]
        exact mem_cons_self
  have hsound := hfiled.sound transport
  have hbytes := hsound.counted
  have hord := hsound.ordinary
  have htwo := options.two_aborts
  rw [Writer.lengthOf_reserved] at hbytes
  rw [Writer.ordinaryBytes] at hord
  rw [Writer.isFull, Bool.or_eq_false_iff, decide_eq_false_iff_not, decide_eq_false_iff_not]
  refine ⟨?_, ?_⟩
  · show ¬ ((options.maxAbortControlBytes : Int) < options.abortLength)
    omega
  · show ¬ ((options.maxQueuedOutboundBytes : Int) < (bridge.writers transport).bytes + options.abortLength)
    omega

/-! ### What keeps the reserve -/

section

variable (hresv : Reserve options bridge)

include hresv

theorem Reserve.update {writer : Writer} (hfram : ∀ item ∈ writer.frames, item ∈ (bridge.writers transport).frames)
    (hque : ∀ item ∈ writer.queued, item ∈ (bridge.writers transport).queued) :
    Reserve options { bridge with writers := Function.update bridge.writers transport writer } where
  lengths other item hitem := by
    have hitem : item ∈ (Function.update bridge.writers transport writer other).frames := hitem
    rw [update_apply] at hitem
    split_ifs at hitem
    · exact hresv.lengths transport item (hfram item hitem)
    · exact hresv.lengths other item hitem
  queued other hwrit item hitem := by
    have hitem : item ∈ (Function.update bridge.writers transport writer other).queued := hitem
    rw [update_apply] at hitem
    split_ifs at hitem with hother
    · exact hresv.queued transport (hother ▸ hwrit) item (hque item hitem)
    · exact hresv.queued other hwrit item hitem
  taken := hresv.taken

theorem Reserve.react {items : List Outbound} {outcome : SendOutcome}
    (htaken : ∀ item ∈ items, item.reserved = true → outcome ≠ .full) :
    Reserve options (bridge.due transport items outcome) where
  lengths := hresv.lengths
  queued := hresv.queued
  taken reaction hreac id hpur := by
    rcases mem_append.mp hreac with hold | hnew
    · exact hresv.taken reaction hold id hpur
    · obtain ⟨item, hitem, rfl⟩ := mem_map.mp hnew
      exact htaken item hitem (Outbound.reserved_iff.mpr ⟨id, hpur⟩)

theorem Reserve.close (error : Failure) : Reserve options (bridge.closeWriter transport error) := by
  refine (hresv.update (fun item => Writer.mem_close.1) fun item => Writer.mem_queued_close).react ?_
  exact fun _ _ _ => nofun

theorem Reserve.others {next : Bridge}
    (hwrit : next.core.writer = bridge.core.writer) (hpend : next.core.pending = bridge.core.pending)
    (hwriters : next.writers = bridge.writers) (hreact : next.reactions = bridge.reactions) :
    Reserve options next where
  lengths := by
    rw [hwriters]
    exact hresv.lengths
  queued := by
    rw [hwrit, hpend, hwriters]
    exact hresv.queued
  taken := by
    rw [hreact]
    exact hresv.taken

theorem Reserve.clearTimer (timer : Option Timer) : Reserve options (bridge.clearTimer timer) := by
  cases timer with
  | none => exact hresv
  | some timer => exact hresv.others rfl rfl rfl rfl

theorem Reserve.fail (error : Failure) : Reserve options (bridge.failGeneration error) := by
  obtain ⟨settlements, hset⟩ := Bridge.foldl_settle bridge.core.pending.keys (.error error)
    { (bridge.clearTimer bridge.helloTimer).clearTimer bridge.bootstrapTimer with
      helloTimer := none, bootstrapTimer := none }
  have hclear : Reserve options { (bridge.clearTimer bridge.helloTimer).clearTimer bridge.bootstrapTimer with
      helloTimer := none, bootstrapTimer := none, settlements } :=
    hresv.others (by simp) (by simp) (by simp) (by simp)
  rw [Bridge.failGeneration, hset]
  cases bridge.core.writer with
  | none => exact ⟨hclear.lengths, (by rintro _ ⟨⟩), hclear.taken⟩
  | some transport =>
    have hclos := @Reserve.close _ _ transport hclear error
    exact ⟨hclos.lengths, (by rintro _ ⟨⟩), hclos.taken⟩

theorem Reserve.send {item : Outbound} (hlen : item.reserved = true → item.length ≤ options.abortLength)
    (hpend : ∀ id, item.purpose = .command id true → bridge.core.pending.get? id = some true)
    (hroom : item.reserved = true → (bridge.writers transport).isFull options item = false) :
    Reserve options (Bridge.sendOn options bridge transport item) := by
  have hfram := @Writer.frames_send options (bridge.writers transport) item
  have hque : ∀ other ∈ ((bridge.writers transport).send options item).1.queued,
      other ∈ (bridge.writers transport).queued ∨ other = item := fun other => Writer.mem_queued_send
  have htaken : item.reserved = true → ((bridge.writers transport).send options item).2 ≠ some .full :=
    fun hresd => Writer.send_of_room (hroom hresd)
  unfold Bridge.sendOn
  rcases hsend : (bridge.writers transport).send options item with ⟨writer, outcome⟩
  rw [hsend] at hfram hque htaken
  dsimp only at hfram hque htaken ⊢
  have hwrit : Reserve options
      { bridge with writers := Function.update bridge.writers transport writer } := by
    refine ⟨fun other sent hsent hresd => ?_, fun other hwrit sent hsent id hpur => ?_, hresv.taken⟩
    · have hsent : sent ∈ (Function.update bridge.writers transport writer other).frames := hsent
      rw [update_apply] at hsent
      split_ifs at hsent
      · rw [hfram] at hsent
        split_ifs at hsent
        · rcases mem_append.mp hsent with hold | hnew
          · exact hresv.lengths transport sent hold hresd
          · obtain rfl := mem_singleton.mp hnew
            exact hlen hresd
        · exact hresv.lengths transport sent hsent hresd
      · exact hresv.lengths other sent hsent hresd
    · have hsent : sent ∈ (Function.update bridge.writers transport writer other).queued := hsent
      rw [update_apply] at hsent
      split_ifs at hsent with hother
      · rcases hque sent hsent with hold | rfl
        · exact hresv.queued transport (hother ▸ hwrit) sent hold id hpur
        · exact hpend id hpur
      · exact hresv.queued other hwrit sent hsent id hpur
  cases outcome with
  | none => exact hwrit
  | some outcome =>
    refine hwrit.react fun other hother hresd hfull => ?_
    rw [mem_singleton.mp hother] at hresd
    exact htaken hresd (congrArg some hfull)

theorem Reserve.sendControl [Encoding] (message : HostToExecutor)
    {purpose : Purpose} (hpur : ∀ id reserved, purpose ≠ .command id reserved) :
    Reserve options (bridge.sendControl options transport message purpose) := by
  have hord : ∀ length, (⟨purpose, length⟩ : Outbound).reserved ≠ true := fun length hresd => by
    obtain ⟨id, hid⟩ := Outbound.reserved_iff.mp hresd
    exact hpur id true hid
  unfold Bridge.sendControl
  split
  · exact hresv.react fun _ _ _ => nofun
  · exact hresv.react fun _ _ _ => nofun
  · refine hresv.send (fun hresd => absurd hresd (hord _)) ?_ ?_
    · exact fun id hid => absurd hid (hpur id true)
    · exact fun hresd => absurd hresd (hord _)

theorem Reserve.take {id : CommandId} (reserved : Bool)
    (hid : ∀ transport, bridge.core.writer = some transport → ∀ item ∈ (bridge.writers transport).queued,
      item.purpose ≠ .command id true) (result : Except Failure Transcript.SessionSnapshot) :
    Reserve options ((bridge.takePending id reserved).settle id result) := by
  refine ⟨hresv.lengths, fun transport hwrit item hitem other hpur => ?_, hresv.taken⟩
  have hleft : (bridge.core.pending.delete id).get? other =
      if other = id then none else bridge.core.pending.get? other := JsMap.get?_delete _ _ _
  refine hleft.trans ?_
  rw [if_neg, hresv.queued transport hwrit item hitem other hpur]
  rintro rfl
  exact hid transport hwrit item hitem hpur

end

/-! ### What an executor can answer -/

/-- The frame of the command is not among those that are still to be sent. -/
def Writer.Unqueued (writer : Writer) (id : CommandId) : Prop :=
  ∀ item ∈ writer.queued, ∀ reserved, item.purpose ≠ .command id reserved

section ReserveSteps

variable [Encoding]

/-- No frame is queued of an abort that is taken. -/
theorem Reserve.moves {greets : Prop} {ids : CommandId → Bool → Prop} {next : Bridge} (hresv : Reserve options bridge)
    (hmoves : Moves options transport greets ids bridge next)
    (hids : ∀ id reserved, ids id reserved → ∀ other, bridge.core.writer = some other →
      ∀ item ∈ (bridge.writers other).queued, item.purpose ≠ .command id true) : Reserve options next := by
  induction hmoves with
  | kept => exact hresv
  | stopped timer => exact hresv.others rfl rfl rfl rfl
  | disposed => exact hresv.others rfl rfl rfl rfl
  | taken hget hid result => exact hresv.take _ (hids _ _ hid) result
  | greeted hgreet hcur hnew generationId =>
    refine Reserve.sendControl (hresv.others ?_ ?_ ?_ ?_) _ nofun
    · rfl
    · rfl
    · exact Bridge.writers_clearTimer _
    · exact Bridge.reactions_clearTimer _
  | failed hnext error ih => exact ih.fail error
  | answered hnext message hpur ih => exact ih.sendControl message hpur
  | changed hnext hcore ih => exact ih.others hcore.writer hcore.pending rfl rfl
  | cleared hnext ih => exact (ih.clearTimer _).others rfl rfl rfl rfl

variable [JsonText.NumberText]

theorem Reserve.message (hresv : Reserve options bridge) (hguard : Guarded bridge) {message : ExecutorToHost}
    (htrans : transport = bridge.attached)
    (hansw : ∀ id, message.commandId = some id → (bridge.writers transport).Unqueued id) :
    Reserve options (Bridge.receiveMessage options transport bridge message) := by
  refine hresv.moves (moves_message options transport _ message) fun id reserved hid other hwrit item hitem => ?_
  obtain rfl : other = transport := (hguard.writer other hwrit).1.trans htrans.symm
  exact hansw id hid.1 item hitem true

/-- Every message answers a command whose frame is no longer queued when it arrives. -/
def AnswersSent (options : Options) (transport : Nat) : Bridge → List ExecutorToHost → Prop
  | _, [] => True
  | bridge, message :: messages =>
    (∀ id, message.commandId = some id → (bridge.writers transport).Unqueued id) ∧
      AnswersSent options transport (bridge.receiveMessage options transport message) messages

theorem Reserve.messages (hresv : Reserve options bridge) (hguard : Guarded bridge)
    (htrans : transport = bridge.attached) (hatt : bridge.attached ≠ 0)
    {messages : List ExecutorToHost} (hansw : AnswersSent options transport bridge messages) :
    Reserve options (messages.foldl (Bridge.receiveMessage options transport) bridge) := by
  induction messages generalizing bridge with
  | nil => exact hresv
  | cons message messages ih =>
    have hmoves := moves_message options transport bridge message
    apply ih
    · exact hresv.message hguard htrans hansw.1
    · exact hguard.moves hmoves fun _ => ⟨htrans, hatt⟩
    · exact htrans.trans hmoves.attached.symm
    · rw [hmoves.attached]
      exact hatt
    · exact hansw.2

/-- A message of an executor answers commands that have been sent to it, since their ids are random. -/
def Event.AnswersSent (options : Options) (bridge : Bridge) : Event → Prop
  | .data transport _ messages _ => Executor.AnswersSent options transport bridge messages
  | _ => True

omit [Encoding] [JsonText.NumberText] in
theorem Reserve.issue (hresv : Reserve options bridge) (hledg : Ledger bridge) (hfiled : Filed options bridge)
    (generation : Nat) (reserved : Bool) :
    Reserve options (bridge.addPending ⟨generation, bridge.nextCommand⟩ reserved) := by
  refine ⟨hresv.lengths, fun transport hwrit item hitem id hpur => ?_, hresv.taken⟩
  have hget := hresv.queued transport hwrit item hitem id hpur
  refine (JsMap.get?_set _ _ _ _).trans ?_
  rw [if_neg, hget]
  rintro rfl
  exact Nat.lt_irrefl _ (hfiled.fresh _ true (hledg.issued _ true hget))

omit [Encoding] [JsonText.NumberText] in
theorem isAbort_iff {command : RuntimeCommand} : command.isAbort = true ↔ command = .abort := decide_eq_true_iff

omit [JsonText.NumberText] in
theorem Reserve.command (hresv : Reserve options bridge) (hledg : Ledger bridge)
    (hfiled : Filed options bridge) (command : RuntimeCommand) :
    Reserve options (bridge.command options command) := by
  unfold Bridge.command
  split
  · next writer generationId hall hwrit _ =>
    unfold Bridge.issueCommand
    dsimp only
    split
    · exact hresv.others rfl rfl rfl rfl
    · next length hlen =>
      have habort : command.isAbort = true → length = options.abortLength := by
        intro hresd
        rw [isAbort_iff.mp hresd] at hlen
        exact abort_length hlen
      apply (hresv.issue hledg hfiled _ _).send
      · intro hresd
        exact Nat.le_of_eq (habort hresd)
      · intro id hpur
        obtain ⟨rfl, hresd⟩ := Purpose.command.inj hpur
        refine (JsMap.get?_set _ _ _ _).trans ?_
        rw [if_pos rfl, hresd]
      · intro hresd
        have hresd : command.isAbort = true := hresd
        rw [hresd, habort hresd]
        refine hresv.room hledg hfiled ?_ hwrit _
        unfold Bridge.commandError at hall
        split_ifs at hall with hlost hbusy
        rw [hresd, Bool.true_and, Bool.not_eq_true] at hbusy
        exact hbusy
  · exact hresv

omit [Encoding] [JsonText.NumberText] in
theorem Reserve.openTransport (hresv : Reserve options bridge) : Reserve options bridge.openTransport := by
  have hupd := @Reserve.update _ _ (bridge.core.generation + 1) hresv .new nofun nofun
  refine ⟨hupd.lengths, fun transport hwrit item hitem => ?_, hupd.taken⟩
  obtain rfl : bridge.core.generation + 1 = transport := Option.some.inj hwrit
  have hitem : item ∈ (Function.update bridge.writers (bridge.core.generation + 1) .new
    (bridge.core.generation + 1)).queued := hitem
  rw [update_self] at hitem
  exact absurd hitem not_mem_nil

omit [Encoding] [JsonText.NumberText] in
theorem Reserve.settled (hresv : Reserve options bridge) (error : Option Failure) :
    Reserve options (bridge.onSettled transport error) := by
  cases error with
  | none =>
    apply (hresv.update ?_ ?_).react
    · exact fun _ _ _ => nofun
    · exact fun item => Writer.mem_sent.1
    · exact fun item => Writer.mem_queued_sent
  | some error =>
    apply ((hresv.update ?_ ?_).react ?_).react
    · exact fun _ _ _ => nofun
    · exact fun item => Writer.mem_failed.1
    · exact fun item => Writer.mem_queued_failed
    · exact fun _ _ _ => nofun

theorem Reserve.step (hresv : Reserve options bridge) (hguard : Guarded bridge)
    (hfiled : Filed options bridge) (hledg : Ledger bridge) {event : Event}
    (hansw : event.AnswersSent options bridge) : Reserve options (step options bridge event) := by
  cases event with
  | attachTransport =>
    show Reserve options bridge.attachTransport
    unfold Bridge.attachTransport
    split_ifs
    · exact hresv
    · exact (hresv.fail _).openTransport
    · exact hresv.openTransport
  | data transport oversized messages malformed =>
    obtain ⟨_, rfl | ⟨⟨htrans, hdec⟩, rfl⟩, hmoves⟩ := moves_data options transport bridge oversized messages malformed
    · exact hresv.moves hmoves nofun
    · obtain ⟨hcur, hatt⟩ := hguard.decoder hdec
      exact (hresv.messages hguard (htrans.trans hcur) hatt hansw).moves hmoves nofun
  | close transport => exact hresv.moves (moves_end options transport bridge trivial) nofun
  | error transport error => exact hresv.moves (moves_end options transport bridge trivial) nofun
  | timeout timer => exact hresv.moves (moves_end options 0 bridge trivial) nofun
  | settled transport error => exact hresv.settled error
  | reaction index =>
    show Reserve options (bridge.onReaction index)
    unfold Bridge.onReaction
    split
    · exact hresv
    · next reaction hreac =>
      have hmem := mem_of_getElem? hreac
      have hrest : Reserve options { bridge with reactions := bridge.reactions.eraseIdx index } :=
        ⟨hresv.lengths, hresv.queued, fun other hother => hresv.taken other (mem_of_mem_eraseIdx hother)⟩
      refine hrest.moves (moves_outcome options 0 _ _) fun id reserved hid transport hwrit item hitem hsame => ?_
      -- The abort that is queued would be the command whose frame has been refused.
      have hiss := hledg.issued id true (hresv.queued transport hwrit item hitem id hsame)
      obtain rfl : reserved = true := Option.some.inj ((hfiled.due reaction hmem id reserved hid.1).2.symm.trans hiss)
      exact hresv.taken reaction hmem id hid.1 hid.2
  | command command => exact hresv.command hledg hfiled command
  | dispose => exact hresv.moves (moves_end options 0 bridge trivial) nofun

end ReserveSteps

/-! ### Runs -/

section Runs

variable [Encoding] [JsonText.NumberText]

/-- The executors of a run answer what has been sent to them. -/
def Answered (options : Options) (events : List Event) : Prop :=
  ∀ before event after, events = before ++ event :: after → event.AnswersSent options (run options before)

theorem answered_append {events : List Event} {event : Event} : Answered options (events ++ [event]) ↔
      Answered options events ∧ event.AnswersSent options (run options events) := by
  constructor
  · refine fun hans => ⟨fun before other after hsame => ?_, hans events event [] rfl⟩
    exact hans before other (after ++ [event]) (by rw [hsame, append_assoc, cons_append])
  · rintro ⟨heven, hevent⟩ before other after hsame
    rcases eq_nil_or_concat after with rfl | ⟨after, last, rfl⟩
    · obtain ⟨rfl, hlast⟩ := append_inj' hsame rfl
      rw [← singleton_inj.mp hlast]
      exact hevent
    · rw [concat_eq_append, ← cons_append, ← append_assoc] at hsame
      obtain ⟨rfl, _⟩ := append_inj' hsame rfl
      exact heven before other after rfl

theorem answered_of_quiet {events : List Event}
    (hquiet : ∀ event ∈ events, ∀ bridge, event.AnswersSent options bridge) : Answered options events := by
  intro before event after hsame
  refine hquiet event ?_ _
  rw [hsame]
  exact mem_append_right _ mem_cons_self

theorem ledger_run (events : List Event) : Ledger (run options events) := by
  induction events using List.reverseRecOn with
  | nil => exact ledger_initial
  | append_singleton events event ih =>
    have hfiled := (sound_of_reachable ⟨events, rfl⟩ : Guarded (run options events) ∧ Filed options _).2
    rw [run, foldl_append]
    exact ih.step hfiled event

theorem reserve_run {events : List Event} (hans : Answered options events) :
    Reserve options (run options events) := by
  induction events using List.reverseRecOn with
  | nil => exact reserve_initial
  | append_singleton events event ih =>
    obtain ⟨heven, hevent⟩ := answered_append.mp hans
    obtain ⟨hguard, hfiled⟩ :=
      (sound_of_reachable ⟨events, rfl⟩ : Guarded (run options events) ∧ Filed options _)
    rw [run, foldl_append]
    exact (ih heven).step hguard hfiled (ledger_run events) hevent

/-- The counters count the pending commands, no command is settled twice and a writer counts the bytes it
holds. No abort is ever refused for want of room, whatever is queued before it, as long as nobody answers a
command without having been sent it. -/
theorem executor_accounting (events : List Event) :
    (run options events).core.ordinaryPending = pendingCount (run options events).core.pending false ∧
    ((run options events).core.abortPending = true ↔ ∃ id, (run options events).core.pending.get? id = some true) ∧
    (∀ id ∈ (run options events).settlements.map Prod.fst, (run options events).issued.has id = true) ∧
    ((run options events).settlements.map Prod.fst).Nodup ∧
    (∀ transport, ((run options events).writers transport).bytes =
        Writer.lengthOf ((run options events).writers transport).frames ∧
      ((run options events).writers transport).bytes ≤ options.maxQueuedOutboundBytes) ∧ (Answered options events →
      (∀ reaction ∈ (run options events).reactions, ∀ id,
        reaction.purpose = .command id true → reaction.outcome ≠ .full) ∧
      ∀ transport generationId id length, (run options events).core.abortPending = false →
        (run options events).core.writer = some transport →
        Encoding.frameLength (.runtimeCommand (Bridge.identity options generationId) id .abort) = some length →
        (((run options events).writers transport).send options ⟨.command id true, length⟩).2 ≠ some .full) := by
  have hledg := @ledger_run options _ _ events
  have hfiled := (sound_of_reachable ⟨events, rfl⟩ : Guarded (run options events) ∧ Filed options _).2
  refine ⟨hledg.ordinary, ?_, fun id hid => (hledg.settled id hid).1, hledg.once, fun transport => ?_,
    fun hans => ⟨(reserve_run hans).taken, ?_⟩⟩
  · have hcount := hledg.abort
    constructor
    · intro habort
      rw [if_pos habort] at hcount
      obtain ⟨id, mark, hget, hmark⟩ := JsMap.count_pos.mp (hcount.symm ▸ Nat.one_pos)
      obtain rfl : mark = true := of_decide_eq_true hmark
      exact ⟨id, hget⟩
    · rintro ⟨id, hget⟩
      by_contra habort
      rw [if_neg habort] at hcount
      exact absurd rfl (of_decide_eq_false (JsMap.count_eq_zero.mp hcount id true hget))
  · exact ⟨(hfiled.sound transport).counted, (hfiled.sound transport).bounded⟩
  · intro transport generationId id length habort hwrit hlen
    have hroom := (reserve_run hans).room hledg hfiled habort hwrit id
    rw [abort_length hlen]
    exact Writer.send_of_room hroom

end Runs

section Sample

local instance accountingNumbers : JsonText.NumberText := JsonText.decimalNumbers

local instance accountingEncoding : Encoding := bridgeEncoding

/-- The options of the sample with an attached transport. -/
def accountingOptions : Options := sampleOptions

def accountingIdentity : RuntimeIdentity := ⟨js "s", js "b", boundUuid⟩

/-- A session is bootstrapped and an abort is sent. -/
def abortEvents : List Event :=
  [.attachTransport, .data 1 false [.hello (js "s") 1 boundUuid] false,
    .data 1 false [.runtimeSnapshot accountingIdentity ⟨js "s", 0, [], [], .null⟩] false,
    .settled 1 none, .settled 1 none, .reaction 0, .reaction 0, .command .abort]

/-- The abort is answered while its frame is still in flight, and another one follows. -/
def answeredEvents : List Event :=
  abortEvents ++ [.data 1 false [.runtimeCommandResult accountingIdentity ⟨1, 0⟩
    (.error ⟨.busy, js "idle"⟩)] false, .command .abort]

theorem executor_accounting_sample : ((run accountingOptions answeredEvents).writers 1).frames.length = 2 ∧
      ∀ reaction ∈ (run accountingOptions answeredEvents).reactions, ∀ id,
        reaction.purpose = .command id true → reaction.outcome ≠ .full := by
  have hfram : ((run accountingOptions answeredEvents).writers 1).frames.length = 2 := by decide +kernel
  have hsent : ((run accountingOptions abortEvents).writers 1).queued = [] := by decide +kernel
  have hquiet : ∀ event ∈ abortEvents, ∀ bridge, event.AnswersSent accountingOptions bridge := by
    intro event hevent bridge
    simp only [abortEvents, mem_cons, not_mem_nil, or_false] at hevent
    rcases hevent with rfl | rfl | rfl | rfl | rfl | rfl | rfl | rfl
    · trivial
    · exact ⟨nofun, trivial⟩
    · exact ⟨nofun, trivial⟩
    all_goals trivial
  have hans : Answered accountingOptions answeredEvents := by
    rw [answeredEvents, ← singleton_append, ← append_assoc, answered_append, answered_append]
    refine ⟨⟨answered_of_quiet hquiet, ⟨fun id _ item hitem => ?_, trivial⟩⟩, trivial⟩
    rw [hsent] at hitem
    exact absurd hitem not_mem_nil
  exact ⟨hfram, ((executor_accounting answeredEvents).2.2.2.2.2 hans).1⟩

end Sample

end PiRp.Executor
