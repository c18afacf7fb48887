import PiRp.CborRoundTrip
import PiRp.FramingDecoder

/-! The codec of protocol messages. A message is validated, encoded and framed; the decoder takes the stream of frames in
any chunks and validates what it decodes. The check against a message schema is a parameter. -/

namespace PiRp.Protocol

open List Cbor Framing FrameDecoder

inductive Kind where
  | client
  | server

/-- What the codec catches. -/
inductive Cause where
  | cbor (fault : Fault)
  | frame (fault : FrameFault)
  | incompletePrefix
  | notOnePayload

inductive ProtocolValidationError where
  | invalidMessage (kind : Kind)
  | unableToEncode (kind : Kind) (cause : Cause)
  | decoderFailed (kind : Kind)
  | invalidFrame (kind : Kind) (cause : Cause)
  | invalidFraming (kind : Kind) (cause : Cause)

mutual

def isProtocolValue (optionalProperty : Bool) (value : Value) : Bool :=
  match value with
  | .undefined => optionalProperty
  | .null | .bool _ | .number _ | .text _ => true
  | .bytes _ | .other _ => false
  | .array items => areProtocolItems items
  | .object props => areProtocolProps props

def areProtocolItems (items : List Value) : Bool :=
  match items with
  | [] => true
  | item :: items => isProtocolValue false item && areProtocolItems items

def areProtocolProps (props : List (JsStr × Value)) : Bool :=
  match props with
  | [] => true
  | (_, value) :: props => isProtocolValue true value && areProtocolProps props

end

/-- Validates that bytes contain exactly one complete frame within the configured limit. -/
def assertCompleteFrame (frame : Bytes) (option : Option Int) : Except Cause Unit :=
  if frame.length < frameHeaderLength then .error .incompletePrefix
  else do
    let length := headerValue (frame.take frameHeaderLength)
    let maxFrameLength ← (resolveMaxFrameLength option).mapError .frame
    if maxFrameLength < length then .error (.frame (.frameLengthExceeds length maxFrameLength))
    else if frame.length ≠ frameHeaderLength + length then .error .notOnePayload
    else .ok ()

/-- The messages of one kind: the check against their schema, and the configured frame length. -/
structure Codec where
  kind : Kind
  check : Value → Bool
  option : Option Int

namespace Codec

variable (codec : Codec)

def cborOptions : CborOptions where
  maxByteLength := some (.int (codec.option.getD defaultMaxFrameLength))

/-- `parseClientMessage` and `parseServerMessage`. -/
def parse (value : Value) : Except ProtocolValidationError Value :=
  if !isProtocolValue false value || !codec.check value then .error (.invalidMessage codec.kind) else .ok value

def encodeFrameOf (validated : Value) : Except Cause Bytes := do
  let payload ← (encodeCbor validated codec.cborOptions).mapError .cbor
  let frame ← (encodeFrame payload).mapError .frame
  assertCompleteFrame frame codec.option
  return frame

def encodeProtocolMessage (value : Value) : Except ProtocolValidationError Bytes := do
  let validated ← codec.parse value
  (codec.encodeFrameOf validated).mapError (.unableToEncode codec.kind)

def readFrame (frame : Bytes) : Except ProtocolValidationError Value := do
  let value ← (decodeCbor frame codec.cborOptions).mapError fun fault => .invalidFrame codec.kind (.cbor fault)
  codec.parse value

/-- The messages of a push, unless it threw. -/
def readFrames (pushed : PushResult) : Except ProtocolValidationError (List Value) :=
  match pushed.thrown with
  | some fault => .error (.invalidFrame codec.kind (.frame fault))
  | none => pushed.delivered.mapM codec.readFrame

end Codec

/-- `ValidatedMessageDecoder`, apart from its readonly fields. -/
structure MessageDecoder where
  failed : Bool
  frames : FrameDecoder

namespace MessageDecoder

def create (codec : Codec) : Except FrameFault MessageDecoder := do
  let frames ← FrameDecoder.create codec.option
  return ⟨false, frames⟩

variable (codec : Codec) (decoder : MessageDecoder)

def push (chunk : Bytes) : MessageDecoder × Except ProtocolValidationError (List Value) :=
  if decoder.failed then (decoder, .error (.decoderFailed codec.kind))
  else
    let pushed := decoder.frames.pushEach chunk
    let result := codec.readFrames pushed
    (⟨!result.isOk, pushed.decoder⟩, result)

/-- `end()`. -/
def finish : MessageDecoder × Except ProtocolValidationError Unit :=
  if decoder.failed then (decoder, .error (.decoderFailed codec.kind))
  else
    let finished := decoder.frames.finish
    match finished.2 with
    | some fault => (⟨true, finished.1⟩, .error (.invalidFraming codec.kind (.frame fault)))
    | none => (⟨false, finished.1⟩, .ok ())

/-- Pushes the chunks one after the other, also past a failure, and collects the messages. -/
def pushAll (decoder : MessageDecoder) : List Bytes → MessageDecoder × List Value
  | [] => (decoder, [])
  | chunk :: chunks =>
    let pushed := decoder.push codec chunk
    let rest := pushAll pushed.1 chunks
    (rest.1, pushed.2.toOption.getD [] ++ rest.2)

end MessageDecoder

/-! ### The frames of a stream -/

/-- The loop throws exactly at an oversized frame. -/
theorem pushLoop_thrown {maxFrameLength rounds : Nat} {decoder : FrameDecoder} {bytes chunk : Bytes}
    (hrep : Represents maxFrameLength decoder (.pending bytes)) (hrounds : chunk.length ≤ rounds) :
    (pushLoop rounds decoder chunk).thrown = none ↔ (split maxFrameLength (bytes ++ chunk)).1 ≠ .oversized := by
  induction rounds generalizing decoder bytes chunk with
  | zero =>
    rw [length_eq_zero_iff.mp (Nat.le_zero.mp hrounds), append_nil, show split maxFrameLength bytes = _ from hrep.stable]
    exact iff_of_true rfl Tail.noConfusion
  | succ rounds ih =>
    rw [pushLoop]
    split_ifs with hchunk
    · rw [hchunk, append_nil, show split maxFrameLength bytes = _ from hrep.stable]
      exact iff_of_true rfl Tail.noConfusion
    · obtain ⟨hadv, hshorter⟩ := pushRound_advances hrep hchunk
      cases hadv with
      | failed fault hthrown hfail hsplit =>
        simp only [hthrown, hsplit]
        exact iff_of_false (Option.some_ne_none fault) (absurd rfl)
      | continues left hthrown hnext hsplit =>
        simp only [hthrown, hsplit]
        exact ih hnext (by omega)

namespace Codec

variable (codec : Codec)

def limit : Nat := (codec.option.getD defaultMaxFrameLength).toNat

/-- The frames of a stream are within the limit and all of them hold messages. -/
def Readable (stream : Bytes) : Prop := (split codec.limit stream).1 ≠ .oversized ∧
  ∃ messages, (split codec.limit stream).2.mapM codec.readFrame = .ok messages

variable {codec}

theorem mapM_append_eq_ok {left right : List Bytes} {messages : List Value} :
    (left ++ right).mapM codec.readFrame = .ok messages ↔ ∃ before after,
      left.mapM codec.readFrame = .ok before ∧ right.mapM codec.readFrame = .ok after ∧ messages = before ++ after := by
  simp only [mapM_append, bind_eq_ok]
  constructor
  · rintro ⟨before, hbefore, after, hafter, hmessages⟩
    exact ⟨before, after, hbefore, hafter, (Except.ok.inj hmessages).symm⟩
  · rintro ⟨before, after, hbefore, hafter, rfl⟩
    exact ⟨before, hbefore, after, hafter, rfl⟩

theorem Readable.of_append {stream more : Bytes} (hreadable : codec.Readable (stream ++ more)) :
    codec.Readable stream := by
  obtain ⟨htail, messages, hmessages⟩ := hreadable
  rw [split_append] at htail hmessages
  obtain ⟨before, _, hbefore, _⟩ := mapM_append_eq_ok.mp hmessages
  refine ⟨fun hover => ?_, before, hbefore⟩
  rw [hover] at htail
  exact htail rfl

/-- A decoder that has taken a stream, and the messages it has delivered. -/
inductive Took (codec : Codec) (stream : Bytes) (messages : List Value) (decoder : MessageDecoder) : Prop
  | running (hrunning : decoder.failed = false) {bytes : Bytes}
      (hrep : Represents codec.limit decoder.frames (.pending bytes))
      (htail : (split codec.limit stream).1 = .pending bytes)
      (hread : (split codec.limit stream).2.mapM codec.readFrame = .ok messages)
  | failed (hfailed : decoder.failed = true) {frames : List Bytes} (hbegins : frames <+: (split codec.limit stream).2)
      (hread : frames.mapM codec.readFrame = .ok messages) (hbad : ¬codec.Readable stream)

variable {stream : Bytes} {messages : List Value} {decoder : MessageDecoder}

variable (htook : codec.Took stream messages decoder)

include htook

/-- A push keeps what the decoder stands for. -/
theorem Took.push (chunk : Bytes) : codec.Took (stream ++ chunk)
    (messages ++ (decoder.push codec chunk).2.toOption.getD []) (decoder.push codec chunk).1 := by
  have hsplit := @split_append codec.limit stream chunk
  have hbegins : (split codec.limit stream).2 <+: (split codec.limit (stream ++ chunk)).2 := by
    rw [hsplit]
    exact prefix_append _ _
  cases htook with
  | failed hfailed hfirst hread hbad =>
    rw [MessageDecoder.push, if_pos hfailed]
    simp only [Except.toOption, Option.getD_none, append_nil]
    exact .failed hfailed (hfirst.trans hbegins) hread fun hreadable => hbad hreadable.of_append
  | @running hrunning bytes hrep htail hread =>
    rw [htail] at hsplit
    obtain ⟨hnext, hdelivered⟩ := pushEach_spec hrep chunk
    have hthrown : (decoder.frames.pushEach chunk).thrown = none ↔
        (resume codec.limit (.pending bytes) chunk).1 ≠ .oversized := by
      have hstate : decoder.frames.state = .open := by
        cases hrep <;> assumption
      rw [pushEach, hstate]
      exact pushLoop_thrown hrep le_rfl
    rw [MessageDecoder.push, if_neg (Bool.not_eq_true _ ▸ hrunning)]
    cases hresult : codec.readFrames (decoder.frames.pushEach chunk) with
    | error error =>
      simp only [hresult, Except.toOption, Option.getD_none, append_nil]
      refine .failed rfl hbegins hread fun hreadable => ?_
      obtain ⟨htail, _, hall⟩ := hreadable
      rw [hsplit] at htail hall
      obtain ⟨_, _, _, hafter, _⟩ := mapM_append_eq_ok.mp hall
      rw [readFrames, hthrown.mpr htail, hdelivered, hafter] at hresult
      cases hresult
    | ok more =>
      simp only [hresult, Except.toOption, Option.getD_some]
      rw [readFrames] at hresult
      cases hfault : (decoder.frames.pushEach chunk).thrown with
      | some fault =>
        rw [hfault] at hresult
        cases hresult
      | none =>
        rw [hfault, hdelivered] at hresult
        cases hleft : (resume codec.limit (.pending bytes) chunk).1 with
        | oversized => exact absurd hleft (hthrown.mp hfault)
        | pending left =>
          rw [hleft] at hnext
          refine .running rfl hnext (by rw [hsplit, hleft]) ?_
          rw [hsplit]
          exact mapM_append_eq_ok.mpr ⟨messages, more, hread, hresult, rfl⟩

theorem Took.pushAll (chunks : List Bytes) :
    codec.Took (stream ++ chunks.flatten) (messages ++ (decoder.pushAll codec chunks).2)
      (decoder.pushAll codec chunks).1 := by
  induction chunks generalizing stream messages decoder with
  | nil =>
    rw [MessageDecoder.pushAll, flatten_nil, append_nil, append_nil]
    exact htook
  | cons chunk chunks ih =>
    have hnext := ih (htook.push chunk)
    rw [append_assoc, append_assoc] at hnext
    exact hnext

theorem Took.failed_iff :
    decoder.failed = true ↔ ¬codec.Readable stream := by
  cases htook with
  | failed hfailed _ _ hbad => exact iff_of_true hfailed hbad
  | running hrunning _ htail hread =>
    refine iff_of_false (Bool.not_eq_true _ ▸ hrunning) (not_not.mpr ⟨?_, messages, hread⟩)
    rw [htail]
    exact Tail.noConfusion

theorem Took.finish_eq (hreadable : codec.Readable stream) :
    (split codec.limit stream).2.mapM codec.readFrame = .ok messages ∧ (decoder.finish codec).2 =
      (outcomeOf (split codec.limit stream).1).2.2.elim (.ok ()) fun fault =>
        .error (.invalidFraming codec.kind (.frame fault)) := by
  cases htook with
  | failed _ _ _ hbad => exact absurd hreadable hbad
  | running hrunning hrep htail hread =>
    have hfinish : decoder.frames.finish.2 = _ := congrArg (fun outcome => outcome.2.2) hrep.outcome_eq
    refine ⟨hread, ?_⟩
    rw [MessageDecoder.finish, if_neg (Bool.not_eq_true _ ▸ hrunning), htail, ← hfinish]
    cases decoder.frames.finish with
    | mk frames fault => cases fault <;> rfl

end Codec

/-! ### Encoded messages -/

mutual

theorem isProtocolValue_strip (optionalProperty : Bool) (value : Value)
    (hvalue : isProtocolValue optionalProperty value = true) :
    isProtocolValue optionalProperty (strip value) = true := by
  cases value with
  | array items => exact areProtocolItems_strip items hvalue
  | object props => exact areProtocolProps_strip props hvalue
  | _ => exact hvalue

theorem areProtocolItems_strip (items : List Value) (hitems : areProtocolItems items = true) :
    areProtocolItems (stripItems items) = true := by
  cases items with
  | nil => rfl
  | cons item items =>
    rw [areProtocolItems, Bool.and_eq_true] at hitems
    rw [stripItems, areProtocolItems, isProtocolValue_strip false item hitems.1, areProtocolItems_strip items hitems.2]
    rfl

theorem areProtocolProps_strip (props : List (JsStr × Value)) (hprops : areProtocolProps props = true) :
    areProtocolProps (stripEntries props) = true := by
  cases props with
  | nil => rfl
  | cons entry props =>
    obtain ⟨key, value⟩ := entry
    rw [areProtocolProps, Bool.and_eq_true] at hprops
    rw [stripEntries]
    split_ifs
    · exact areProtocolProps_strip props hprops.2
    · rw [areProtocolProps, isProtocolValue_strip true value hprops.1, areProtocolProps_strip props hprops.2]
      rfl

end

theorem assertCompleteFrame_eq_ok {frame : Bytes} {option : Option Int} {maxFrameLength : Nat}
    (hlimit : resolveMaxFrameLength option = .ok maxFrameLength) (hassert : assertCompleteFrame frame option = .ok ()) :
    headerValue (frame.take frameHeaderLength) ≤ maxFrameLength ∧
      frame.length = frameHeaderLength + headerValue (frame.take frameHeaderLength) := by
  rw [assertCompleteFrame, hlimit] at hassert
  simp only [Except.mapError, ok_bind] at hassert
  split_ifs at hassert with hshort hlong hone
  exact ⟨Nat.not_lt.mp hlong, not_not.mp hone⟩

theorem mapError_eq_ok {α ε φ : Type} {first : Except ε α} {convert : ε → φ} {value : α} :
    first.mapError convert = .ok value ↔ first = .ok value := by
  cases first <;> simp [Except.mapError]

namespace Codec

variable {codec : Codec}

theorem parse_eq_ok {value result : Value} : codec.parse value = .ok result ↔
    isProtocolValue false value = true ∧ codec.check value = true ∧ result = value := by
  rw [parse]
  cases isProtocolValue false value <;> cases codec.check value <;> simp [eq_comm]

variable {decoder : MessageDecoder} (hcreate : MessageDecoder.create codec = .ok decoder)

include hcreate

theorem took_create : codec.limit ≤ Framing.maxUint32 ∧ resolveMaxFrameLength codec.option = .ok codec.limit ∧
    Represents codec.limit decoder.frames (.pending []) ∧ ∀ chunks : List Bytes,
      codec.Took chunks.flatten (decoder.pushAll codec chunks).2 (decoder.pushAll codec chunks).1 := by
  obtain ⟨frames, hframes, hdecoder⟩ := bind_eq_ok.mp hcreate
  cases hdecoder
  obtain ⟨hrep, hmax⟩ := create_represents hframes
  obtain ⟨limit, hlimit, hfresh⟩ := bind_eq_ok.mp hframes
  have hsame : codec.limit = limit := by
    rw [resolveMaxFrameLength] at hlimit
    split_ifs at hlimit
    exact Except.ok.inj hlimit
  subst hsame
  cases hfresh
  refine ⟨hmax, hlimit, hrep, fun chunks => ?_⟩
  have hfresh : codec.Took [] [] ⟨false, _⟩ := .running rfl hrep rfl rfl
  exact hfresh.pushAll chunks

/-- **Chunks.** However the stream is cut, the decoder fails exactly when it fails on the whole stream. The messages it
has delivered are those of the first frames, and without a failure those of the whole stream. -/
theorem pushAll_independent_of_chunking (chunks : List Bytes) :
    (decoder.pushAll codec chunks).1.failed = (decoder.push codec chunks.flatten).1.failed ∧
    (∃ frames, frames <+: (decoder.frames.pushEach chunks.flatten).delivered ∧
      frames.mapM codec.readFrame = .ok (decoder.pushAll codec chunks).2) ∧
    ∀ messages, (decoder.push codec chunks.flatten).2 = .ok messages → (decoder.pushAll codec chunks).2 = messages ∧
      ((decoder.pushAll codec chunks).1.finish codec).2 = ((decoder.push codec chunks.flatten).1.finish codec).2 := by
  obtain ⟨_, _, hrep, htook⟩ := took_create hcreate
  have hchunks := htook chunks
  have hwhole := htook [chunks.flatten]
  rw [flatten_singleton] at hwhole
  simp only [MessageDecoder.pushAll, append_nil] at hwhole
  have hdelivered := (pushEach_spec hrep chunks.flatten).2
  rw [resume, nil_append] at hdelivered
  refine ⟨Bool.eq_iff_iff.mpr (hchunks.failed_iff.trans hwhole.failed_iff.symm), ?_, fun messages hmessages => ?_⟩
  · rw [hdelivered]
    cases hchunks with
    | running _ _ _ hread => exact ⟨_, prefix_refl _, hread⟩
    | failed _ hbegins hread _ => exact ⟨_, hbegins, hread⟩
  · have hreadable : codec.Readable chunks.flatten := by
      by_contra hbad
      have hfailed := hwhole.failed_iff.mpr hbad
      rw [MessageDecoder.push] at hmessages hfailed
      split_ifs at hmessages hfailed
      dsimp only at hmessages hfailed
      rw [hmessages] at hfailed
      cases hfailed
    obtain ⟨hread, hfinish⟩ := hchunks.finish_eq hreadable
    obtain ⟨hreadWhole, hfinishWhole⟩ := hwhole.finish_eq hreadable
    rw [hmessages] at hreadWhole
    exact ⟨Except.ok.inj (hread.symm.trans hreadWhole), hfinish.trans hfinishWhole.symm⟩

/-- The frame of a message holds one payload, which is read back without the undefined-valued properties. -/
theorem readFrame_of_encode {message : Value} {frame : Bytes} (hsup : Supported message)
    (hcheck : codec.check (strip message) = true) (hencode : codec.encodeProtocolMessage message = .ok frame) :
    ∃ payload : Bytes,
      frame = headerBytes payload.length ++ payload ∧ payload.length ≤ codec.limit ∧
        codec.readFrame payload = .ok (strip message) := by
  obtain ⟨validated, hparse, hframe⟩ := bind_eq_ok.mp hencode
  obtain ⟨hvalue, -, rfl⟩ := parse_eq_ok.mp hparse
  obtain ⟨payload, hpayload, hframe⟩ := bind_eq_ok.mp (mapError_eq_ok.mp hframe)
  obtain ⟨framed, hframed, hassert⟩ := bind_eq_ok.mp hframe
  obtain ⟨_, hassert, hframe⟩ := bind_eq_ok.mp hassert
  cases hframe
  obtain ⟨options, hoptions, hfits, rfl, hlength⟩ := hsup.encoded (mapError_eq_ok.mp hpayload)
  have hwhole := mapError_eq_ok.mp hframed
  rw [encodeFrame] at hwhole
  split_ifs at hwhole
  obtain rfl := Except.ok.inj hwhole
  refine ⟨_, rfl, ?_, ?_⟩
  · obtain ⟨hlong, hone⟩ := assertCompleteFrame_eq_ok (took_create hcreate).2.1 hassert
    rw [length_append, headerBytes_length] at hone
    exact (Nat.add_left_cancel hone).trans_le hlong
  · rw [readFrame, hfits.decodeCbor_eq hoptions hlength]
    exact parse_eq_ok.mpr ⟨isProtocolValue_strip _ _ hvalue, hcheck, rfl⟩

variable {messages : List Value} {frames : List Bytes} (hsup : ∀ message ∈ messages, Supported message)
  (hcheck : ∀ message ∈ messages, codec.check (strip message) = true)
  (hencode : messages.mapM codec.encodeProtocolMessage = .ok frames)

include hsup hcheck hencode

theorem readFrames_of_encode : ∃ payloads : List Bytes,
      frames.flatten = (payloads.flatMap fun payload => headerBytes payload.length ++ payload) ∧
        (∀ payload ∈ payloads, payload.length ≤ codec.limit) ∧
          payloads.mapM codec.readFrame = .ok (messages.map strip) := by
  rw [mapM_eq_ok] at hencode
  induction hencode with
  | nil => exact ⟨[], rfl, by simp, rfl⟩
  | cons hfirst _ ih =>
    obtain ⟨hsupFirst, hsup⟩ := forall_mem_cons.mp hsup
    obtain ⟨hcheckFirst, hcheck⟩ := forall_mem_cons.mp hcheck
    obtain ⟨payload, rfl, hlength, hread⟩ := readFrame_of_encode hcreate hsupFirst hcheckFirst hfirst
    obtain ⟨payloads, hflat, hlengths, hreads⟩ := ih hsup hcheck
    refine ⟨payload :: payloads, by rw [flatten_cons, hflat, flatMap_cons], forall_mem_cons.mpr ⟨hlength, hlengths⟩, ?_⟩
    rw [mapM_cons, hread, ok_bind, hreads]
    rfl

/-- **Round trip.** Messages that were encoded under the same options come out of the decoder in their order, without
their undefined-valued properties, however the stream of their frames is cut, and its end is accepted. -/
theorem pushAll_encoded {chunks : List Bytes} (hchunks : chunks.flatten = frames.flatten) :
    (decoder.pushAll codec chunks).2 = messages.map strip ∧
      ((decoder.pushAll codec chunks).1.finish codec).2 = .ok () := by
  obtain ⟨hmax, -, -, htook⟩ := took_create hcreate
  obtain ⟨payloads, hflat, hlengths, hreads⟩ := readFrames_of_encode hcreate hsup hcheck hencode
  have hsplit := split_encoded hmax payloads hlengths
  rw [← hflat, ← hchunks] at hsplit
  have hreadable : codec.Readable chunks.flatten := by
    rw [Readable, hsplit]
    exact ⟨Tail.noConfusion, _, hreads⟩
  obtain ⟨hread, hfinish⟩ := (htook chunks).finish_eq hreadable
  rw [hsplit] at hread hfinish
  exact ⟨Except.ok.inj (hread.symm.trans hreads), hfinish⟩

end Codec

/-- The first message of a client. -/
def hello : Value := .object [(js "type", .text (js "hello")), (js "version", .number (.int 1))]

def helloCodec : Codec where
  kind := .client
  check
    | .object [(_, .text type), (_, .number (.int version))] => type == js "hello" && version == 1
    | _ => false
  option := none

theorem hello_supported : Supported hello := by
  refine .object (by decide) ?_ ?_
  all_goals
    intro entry hentry _
    simp only [mem_cons, not_mem_nil, or_false] at hentry
    rcases hentry with rfl | rfl
  · exact ⟨_, rfl⟩
  · exact ⟨_, rfl⟩
  · exact .text ⟨_, rfl⟩
  · exact .number (show (1 : Int).natAbs ≤ maxSafeInteger by decide)

/-- An empty frame is no message. -/
theorem pushAll_independent_of_chunking_sample : ∃ decoder, MessageDecoder.create helloCodec = .ok decoder ∧
    (decoder.pushAll helloCodec [[0], [0, 0, 0]]).1.failed = true := by
  refine ⟨_, rfl, (Codec.pushAll_independent_of_chunking rfl [[0], [0, 0, 0]]).1.trans ?_⟩
  decide +kernel

theorem pushAll_encoded_sample : ∃ decoder frames, MessageDecoder.create helloCodec = .ok decoder ∧
    [hello].mapM helloCodec.encodeProtocolMessage = .ok frames ∧ ∀ chunks : List Bytes, chunks.flatten = frames.flatten →
      (decoder.pushAll helloCodec chunks).2 = [hello] ∧
        ((decoder.pushAll helloCodec chunks).1.finish helloCodec).2 = .ok () := by
  have hencode : ([hello].mapM helloCodec.encodeProtocolMessage).isOk = true := by decide +kernel
  cases hframes : [hello].mapM helloCodec.encodeProtocolMessage with
  | error error =>
    rw [hframes] at hencode
    cases hencode
  | ok frames =>
    exact ⟨_, frames, rfl, rfl, fun chunks => Codec.pushAll_encoded rfl (forall_mem_singleton.mpr hello_supported)
      (forall_mem_singleton.mpr (by decide +kernel)) hframes⟩

end PiRp.Protocol
