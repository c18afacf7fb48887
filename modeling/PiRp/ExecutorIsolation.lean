import PiRp.ExecutorFrames

/-! A transport that has been replaced cannot touch the generation after it, its timers included, but
for one kind of event: the callbacks of a handshake frame do not compare generations, so a frame of the
old transport that fails late, or a reject that is settled late, ends the new generation. -/

namespace PiRp.Executor

open Option

variable {options : Options} {bridge : Bridge} {transport : Nat}

/-! ### Isolation -/

/-- The transport an event stems from. -/
def Event.source (bridge : Bridge) : Event → Option Nat
  | .data transport _ _ _ | .close transport | .error transport _ | .settled transport _ => some transport
  | .timeout timer => some timer.transport
  | .reaction index => bridge.reactions[index]?.map Reaction.transport
  | .attachTransport | .command _ | .dispose => none

/-- The event stems from a transport before the one that was attached last. -/
def Event.Stale (event : Event) (bridge : Bridge) : Prop :=
  ∃ transport, event.source bridge = some transport ∧ transport < bridge.attached

/-- A handshake frame has failed, or a reject is settled. -/
def Reaction.endsGeneration (reaction : Reaction) : Bool :=
  match reaction.purpose with
  | .ready | .bootstrapAck => reaction.outcome ≠ .sent
  | .reject _ => true
  | .command _ _ => false

def Event.EndsGeneration (event : Event) (bridge : Bridge) : Prop :=
  ∃ index reaction, event = .reaction index ∧ bridge.reactions[index]? = some reaction ∧
    reaction.endsGeneration = true

section Isolation

theorem generation_fail (bridge : Bridge) (error : Failure) :
    (bridge.failGeneration error).core.generation = bridge.core.generation + 1 := by
  obtain ⟨_, _, _, heq⟩ := bridge.failGeneration_eq error
  rw [heq]
  rfl

theorem outcome_stale {reaction : Reaction} (hguard : Guarded bridge)
    (hbel : reaction.purpose.Belongs bridge.issued reaction.transport) (hstale : reaction.transport < bridge.attached) :
    (bridge.onOutcome reaction).core = bridge.core ↔ reaction.endsGeneration = false := by
  have hother : reaction.transport ≠ bridge.core.generation :=
    (hstale.trans_le hguard.attached_le).ne
  have hends : ∀ error, (bridge.failGeneration error).core ≠ bridge.core := fun error hsame => by
    have hgen := generation_fail bridge error
    rw [hsame] at hgen
    exact Nat.succ_ne_self _ hgen.symm
  obtain ⟨transport, purpose, outcome⟩ := reaction
  cases purpose with
  | ready =>
    cases outcome with
    | sent => exact iff_of_true rfl rfl
    | full => exact iff_of_false (hends _) (by rintro ⟨⟩)
    | failed error => exact iff_of_false (hends _) (by rintro ⟨⟩)
  | bootstrapAck =>
    cases outcome with
    | sent =>
      refine iff_of_true ?_ rfl
      show (if transport = bridge.core.generation then _ else bridge).core = bridge.core
      rw [if_neg hother]
    | full => exact iff_of_false (hends _) (by rintro ⟨⟩)
    | failed error => exact iff_of_false (hends _) (by rintro ⟨⟩)
  | reject error => exact iff_of_false (hends _) (by rintro ⟨⟩)
  | command id reserved =>
    have hid : id.generation = transport := (hbel id reserved rfl).1
    refine iff_of_true ?_ rfl
    cases outcome with
    | sent => rfl
    | full =>
      have hnone : bridge.core.pending.get? id = none := by
        by_contra hsome
        obtain ⟨other, hget⟩ := ne_none_iff_exists'.mp hsome
        exact hother (hid.symm.trans (hguard.pending id other hget))
      simp only [Bridge.onOutcome, hnone]
    | failed error =>
      show (if id.generation = bridge.core.generation then _ else bridge).core = bridge.core
      rw [if_neg (hid ▸ hother)]

variable [Encoding] [JsonText.NumberText]

/-- After a transport has been attached, an event of an earlier one leaves the generation as it is, unless
it is the late failure of a handshake frame or the late outcome of a reject. -/
theorem executor_isolation (hreach : Reachable options bridge) {event : Event} (hstale : event.Stale bridge) :
    (step options bridge event).core = bridge.core ↔ ¬ event.EndsGeneration bridge := by
  obtain ⟨hguard, hfiled⟩ := sound_of_reachable hreach
  obtain ⟨transport, htrans, hear⟩ := hstale
  have hother : transport ≠ bridge.core.generation := (hear.trans_le hguard.attached_le).ne
  cases event with
  | attachTransport => exact absurd htrans.symm (some_ne_none transport)
  | command command => exact absurd htrans.symm (some_ne_none transport)
  | dispose => exact absurd htrans.symm (some_ne_none transport)
  | data source oversized messages malformed =>
    obtain rfl : source = transport := Option.some.inj htrans
    refine iff_of_true ?_ (by rintro ⟨_, _, ⟨⟩, _⟩)
    show (bridge.onData options source oversized messages malformed).core = bridge.core
    rw [Bridge.onData, if_pos (.inl hother)]
  | close source =>
    obtain rfl : source = transport := Option.some.inj htrans
    refine iff_of_true ?_ (by rintro ⟨_, _, ⟨⟩, _⟩)
    show (bridge.onClose source).core = bridge.core
    rw [Bridge.onClose, if_neg hother]
  | error source error =>
    obtain rfl : source = transport := Option.some.inj htrans
    refine iff_of_true ?_ (by rintro ⟨_, _, ⟨⟩, _⟩)
    show (bridge.onError source error).core = bridge.core
    rw [Bridge.onError, if_neg hother]
  | settled source error =>
    refine iff_of_true ?_ (by rintro ⟨_, _, ⟨⟩, _⟩)
    cases error with
    | none => rfl
    | some error => rfl
  | timeout timer =>
    obtain rfl : timer.transport = transport := Option.some.inj htrans
    refine iff_of_true ?_ (by rintro ⟨_, _, ⟨⟩, _⟩)
    show (bridge.onTimeout timer).core = bridge.core
    rw [Bridge.onTimeout, if_neg]
    exact fun hrun => hear.ne (hguard.running timer hrun).1
  | reaction index =>
    have hsrc : bridge.reactions[index]?.map Reaction.transport = some transport := htrans
    obtain ⟨reaction, hreac, rfl⟩ := map_eq_some_iff.mp hsrc
    have hbel := hfiled.due reaction (List.mem_of_getElem? hreac)
    have hends : (Event.reaction index).EndsGeneration bridge ↔ reaction.endsGeneration = true := by
      constructor
      · rintro ⟨_, other, ⟨⟩, hother, hends⟩
        rwa [← Option.some.inj (hreac.symm.trans hother)] at hends
      · exact fun hends => ⟨index, reaction, rfl, hreac, hends⟩
    have hstep : (step options bridge (.reaction index)).core =
        ({ bridge with reactions := bridge.reactions.eraseIdx index }.onOutcome reaction).core := by
      show (bridge.onReaction index).core = _
      rw [Bridge.onReaction, hreac]
    rw [hstep, hends, Bool.not_eq_true]
    exact outcome_stale (hguard.frames _ _ _ _ _) hbel hear

end Isolation

section Sample

local instance bridgeNumbers : JsonText.NumberText := JsonText.decimalNumbers

/-- Every message but an abort takes ten bytes. -/
local instance bridgeEncoding : Encoding where
  frameLength
    | .runtimeCommand identity _ .abort =>
      if (textEncode identity.generationId).length = uuidLength then
        some (frameSize (abortControl identity.sessionId identity.bindingId identity.generationId boundUuid))
      else none
    | _ => some 10
  fitsParticipant _ := true
  frameLength_abort identity id length hlen := by
    obtain ⟨hgen, hlen⟩ := ite_none_right_eq_some.mp hlen
    exact ⟨hgen, boundUuid, by decide +kernel, (Option.some.inj hlen).symm⟩

def sampleOptions : Options where
  sessionId := js "s"
  bindingId := js "b"
  maxPendingCommands := 2
  maxQueuedOutboundBytes := maxExecutorInboundChunkBytes + minAbortControlBytes
  maxAbortControlBytes := minAbortControlBytes
  session_valid := ⟨by decide, by decide⟩
  binding_valid := ⟨by decide, by decide⟩
  pending_valid := Nat.le_refl 2
  abort_valid := Nat.le_refl _
  bytes_valid := Nat.le_refl _

/-- The answer to a hello is still in flight when a new transport is attached; then its connection fails. -/
def replacedEvents : List Event :=
  [.attachTransport, .data 1 false [.hello (js "s") 1 boundUuid] false, .attachTransport,
    .settled 1 (some ⟨.plain, js "socket closed"⟩)]

/-- The callback of the failed answer ends the new generation. -/
theorem executor_interference : Reachable sampleOptions (run sampleOptions replacedEvents) ∧
    (Event.reaction 0).Stale (run sampleOptions replacedEvents) ∧
    (run sampleOptions replacedEvents).core.connection = some 3 ∧
    (step sampleOptions (run sampleOptions replacedEvents) (.reaction 0)).core.connection = none :=
  ⟨⟨_, rfl⟩, ⟨1, by decide +kernel, by decide +kernel⟩, by decide +kernel, by decide +kernel⟩

/-- The end of the old transport is ignored. -/
theorem executor_isolation_sample : (step sampleOptions (run sampleOptions replacedEvents) (.close 1)).core =
      (run sampleOptions replacedEvents).core := by
  refine (executor_isolation ⟨_, rfl⟩ ⟨1, rfl, by decide +kernel⟩).mpr ?_
  rintro ⟨index, reaction, hevent, _⟩
  exact nomatch hevent

end Sample

end PiRp.Executor
