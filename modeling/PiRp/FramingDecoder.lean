import PiRp.FramingStream

/-! The decoder refines the frame stream. Between calls it represents a tail of the stream: a failed
decoder the oversized tail, an open one the bytes of the incomplete frame, kept as header bytes or as
payload blocks. Every round of its loops keeps this, so what it delivers and what it holds on to
depend on the bytes alone and not on how they were cut into chunks. -/

namespace PiRp.Framing

open List

namespace FrameDecoder

/-- The fields the payload loop leaves alone. -/
structure SameControl (decoder other : FrameDecoder) : Prop where
  header : other.header = decoder.header
  headerLength : other.headerLength = decoder.headerLength
  maxFrameLength : other.maxFrameLength = decoder.maxFrameLength
  expected : other.expectedPayloadLength = decoder.expectedPayloadLength
  state : other.state = decoder.state

theorem SameControl.refl (decoder : FrameDecoder) : SameControl decoder decoder :=
  ⟨rfl, rfl, rfl, rfl, rfl⟩

theorem SameControl.trans {first second third : FrameDecoder} (hleft : SameControl first second)
    (hright : SameControl second third) : SameControl first third :=
  ⟨hright.header.trans hleft.header, hright.headerLength.trans hleft.headerLength,
    hright.maxFrameLength.trans hleft.maxFrameLength, hright.expected.trans hleft.expected,
    hright.state.trans hleft.state⟩

/-- The blocks are `full` and then `current`, of which the first `currentPayloadBlockLength` bytes
are filled; together they hold `data` and stay within the expected length. -/
structure Blocks (decoder : FrameDecoder) (expected : Nat) (data : Bytes) (full : List Bytes)
    (current : Bytes) : Prop where
  blocks : decoder.payloadBlocks = full ++ [current]
  data : full.flatten ++ current.take decoder.currentPayloadBlockLength = data
  filled : decoder.currentPayloadBlockLength ≤ current.length
  within : full.flatten.length + current.length ≤ expected

/-- The payload bytes copied so far are `data`. -/
structure Holds (decoder : FrameDecoder) (expected : Nat) (data : Bytes) : Prop where
  length : decoder.payloadLength = data.length
  blocks : (decoder.payloadBlocks = [] ∧ data = []) ∨
    ∃ full current, Blocks decoder expected data full current

theorem Blocks.data_length {decoder : FrameDecoder} {expected : Nat} {data : Bytes}
    {full : List Bytes} {current : Bytes} (hbloc : Blocks decoder expected data full current) :
    data.length = full.flatten.length + decoder.currentPayloadBlockLength := by
  have hfil := hbloc.filled
  rw [← hbloc.data, length_append, length_take]
  omega

theorem holds_resetPayload (decoder : FrameDecoder) (expected : Option Nat) (length : Nat) :
    Holds (decoder.resetPayload expected) length [] :=
  ⟨rfl, Or.inl ⟨rfl, rfl⟩⟩

theorem ensureBlock_room {decoder : FrameDecoder} {expected : Nat} {data : Bytes}
    (hholds : Holds decoder expected data) (hmore : data.length < expected) :
    SameControl decoder (decoder.ensureBlock expected) ∧ (decoder.ensureBlock expected).payloadLength = data.length ∧
      ∃ full current, Blocks (decoder.ensureBlock expected) expected data full current ∧
        (decoder.ensureBlock expected).currentPayloadBlockLength < current.length := by
  have hblock : 0 < min payloadBlockSize (expected - data.length) := by
    rw [lt_min_iff, payloadBlockSize]
    omega
  rcases hholds.blocks with ⟨hempty, rfl⟩ | ⟨full, current, hbloc⟩
  · have hens : decoder.ensureBlock expected =
        { decoder with
          payloadBlocks := [List.replicate (min payloadBlockSize (expected - decoder.payloadLength)) 0]
          currentPayloadBlockLength := 0 } := by
      simp only [ensureBlock, hempty, getLast?_nil, nil_append]
    rw [hens, hholds.length]
    refine ⟨⟨rfl, rfl, rfl, rfl, rfl⟩, rfl, [], _, ⟨rfl, rfl, Nat.zero_le _, ?_⟩, ?_⟩
    · simp only [flatten_nil, length_nil, length_replicate]
      omega
    · simpa only [length_replicate] using hblock
  · have hlast : decoder.payloadBlocks.getLast? = some current := by
      rw [hbloc.blocks, getLast?_concat]
    by_cases hfull : decoder.currentPayloadBlockLength = current.length
    · have hens : decoder.ensureBlock expected =
          { decoder with
            payloadBlocks := (full ++ [current]) ++
              [List.replicate (min payloadBlockSize (expected - decoder.payloadLength)) 0]
            currentPayloadBlockLength := 0 } := by
        simp only [ensureBlock, hlast, if_pos hfull, ← hbloc.blocks]
      have hdata : (full ++ [current]).flatten = data := by
        rw [← hbloc.data, hfull, take_length, flatten_concat]
      rw [hens, hholds.length]
      refine ⟨⟨rfl, rfl, rfl, rfl, rfl⟩, rfl, full ++ [current], _, ⟨rfl, ?_, Nat.zero_le _, ?_⟩, ?_⟩
      · rw [hdata, take_zero, append_nil]
      · rw [hdata, length_replicate]
        omega
      · simpa only [length_replicate] using hblock
    · have hens : decoder.ensureBlock expected = decoder := by
        simp only [ensureBlock, hlast, if_neg hfull]
      rw [hens]
      exact ⟨SameControl.refl _, hholds.length, full, current, hbloc, lt_of_le_of_ne hbloc.filled hfull⟩

theorem fillBlock_spec {decoder : FrameDecoder} {expected : Nat} {data chunk : Bytes}
    (hholds : Holds decoder expected data) (hmore : data.length < expected) (hchunk : chunk ≠ []) :
    ∃ count, 0 < count ∧ count ≤ chunk.length ∧ data.length + count ≤ expected ∧
      (decoder.fillBlock expected chunk).2 = chunk.drop count ∧
      SameControl decoder (decoder.fillBlock expected chunk).1 ∧
      Holds (decoder.fillBlock expected chunk).1 expected (data ++ chunk.take count) := by
  obtain ⟨hsame, hlen, full, current, hbloc, hroom⟩ := ensureBlock_room hholds hmore
  have hdata := hbloc.data_length
  have hwit := hbloc.within
  have hpos : 0 < chunk.length := length_pos_of_ne_nil hchunk
  set ensured := decoder.ensureBlock expected
  set filled := ensured.currentPayloadBlockLength
  set count := min (current.length - filled) chunk.length with hcount
  have htake : (chunk.take count).length = count := by
    rw [length_take]
    omega
  have hfill : decoder.fillBlock expected chunk =
      ({ ensured with
          payloadBlocks := full ++ [setBytes current (chunk.take count) filled]
          currentPayloadBlockLength := filled + count
          payloadLength := ensured.payloadLength + count }, chunk.drop count) := by
    simp only [fillBlock]
    rw [hbloc.blocks, dropLast_concat, getLastD_concat]
  rw [hfill]
  refine ⟨count, by omega, by omega, by omega, rfl,
    hsame.trans ⟨rfl, rfl, rfl, rfl, rfl⟩, ⟨?_, Or.inr ⟨full, _, ⟨rfl, ?_, ?_, ?_⟩⟩⟩⟩
  · simp only [length_append, htake, hlen]
  · have htaken := @setBytes_take current (chunk.take count) filled (by omega)
    rw [htake] at htaken
    simp only [htaken]
    rw [← append_assoc, hbloc.data]
  · rw [setBytes_length (by omega)]
    simp only
    omega
  · rw [setBytes_length (by omega)]
    exact hwit

theorem fillPayload_spec {rounds : Nat} {decoder : FrameDecoder} {expected : Nat}
    {data chunk : Bytes} (hholds : Holds decoder expected data) (hle : data.length ≤ expected)
    (hroun : chunk.length ≤ rounds) :
    (fillPayload rounds decoder expected chunk).2 = chunk.drop (expected - data.length) ∧
      SameControl decoder (fillPayload rounds decoder expected chunk).1 ∧
      Holds (fillPayload rounds decoder expected chunk).1 expected (data ++ chunk.take (expected - data.length)) := by
  induction rounds generalizing decoder data chunk with
  | zero =>
    have hnil : chunk = [] := length_eq_zero_iff.mp (Nat.le_zero.mp hroun)
    subst hnil
    simp only [fillPayload, drop_nil, take_nil, append_nil, true_and]
    exact ⟨SameControl.refl _, hholds⟩
  | succ rounds ih =>
    rw [fillPayload]
    by_cases hloop : chunk ≠ [] ∧ decoder.payloadLength < expected
    · rw [if_pos hloop]
      obtain ⟨count, hpos, hcount, hfits, hrest, hsame, hfil⟩ :=
        fillBlock_spec hholds (hholds.length ▸ hloop.2) hloop.1
      have hlen : (data ++ chunk.take count).length = data.length + count := by
        rw [length_append, length_take]
        omega
      obtain ⟨hdrop, hcon, hdone⟩ := @ih _ _ (chunk.drop count) hfil (by omega)
        (by rw [length_drop]; omega)
      simp only [hrest]
      have hsum : count + (expected - (data.length + count)) = expected - data.length := by omega
      rw [hlen, drop_drop, hsum] at hdrop
      rw [hlen, append_assoc, ← take_add, hsum] at hdone
      exact ⟨hdrop, hsame.trans hcon, hdone⟩
    · rw [if_neg hloop]
      have hstop : chunk.drop (expected - data.length) = chunk ∧
          chunk.take (expected - data.length) = [] := by
        by_cases hchunk : chunk = []
        · subst hchunk
          exact ⟨drop_nil, take_nil⟩
        · have hfull : expected - data.length = 0 := by
            have hlen := hholds.length
            have hnot : ¬ decoder.payloadLength < expected := fun hlt => hloop ⟨hchunk, hlt⟩
            omega
          rw [hfull]
          exact ⟨rfl, rfl⟩
      rw [hstop.1, hstop.2, append_nil]
      exact ⟨rfl, SameControl.refl _, hholds⟩

theorem copyBlocks (blocks : List Bytes) (copied : Bytes) (expected : Nat)
    (hfits : copied.length + blocks.flatten.length ≤ expected) : (blocks.foldl (fun (copied : Bytes × Nat) block =>
        (setBytes copied.1 block copied.2, copied.2 + block.length))
      (copied ++ List.replicate (expected - copied.length) 0, copied.length)).1 = (copied ++ blocks.flatten) ++
        List.replicate (expected - (copied ++ blocks.flatten).length) 0 := by
  induction blocks generalizing copied with
  | nil => simp
  | cons block blocks ih =>
    rw [flatten_cons, length_append] at hfits
    have hset : setBytes (copied ++ List.replicate (expected - copied.length) 0) block
        copied.length = (copied ++ block) ++
          List.replicate (expected - (copied ++ block).length) 0 := by
      rw [setBytes, take_left, ← drop_drop, drop_left, drop_replicate, length_append, Nat.sub_sub]
    have hnext := ih (copied ++ block) (by rw [length_append]; omega)
    rw [foldl_cons, hset, ← length_append, hnext, flatten_cons, append_assoc copied block]

theorem assemblePayload_eq {decoder : FrameDecoder} {expected : Nat} {data : Bytes}
    (hholds : Holds decoder expected data) (hcom : data.length = expected)
    (hpos : 0 < expected) : decoder.assemblePayload expected = data := by
  rcases hholds.blocks with ⟨_, rfl⟩ | ⟨full, current, hbloc⟩
  · simp only [length_nil] at hcom
    omega
  have hfil : decoder.currentPayloadBlockLength = current.length := by
    have hdata := hbloc.data_length
    have hwit := hbloc.within
    have hle := hbloc.filled
    omega
  have hflat : decoder.payloadBlocks.flatten = data := by
    rw [hbloc.blocks, flatten_concat, ← hbloc.data, hfil, take_length]
  rw [assemblePayload]
  split
  · rename_i block heq
    rw [heq, flatten_singleton] at hflat
    exact hflat
  · have hcopy := copyBlocks decoder.payloadBlocks [] expected
      (by rw [hflat, length_nil]; omega)
    simp only [nil_append, length_nil, Nat.sub_zero, hflat, hcom, Nat.sub_self, replicate_zero, append_nil] at hcopy
    exact hcopy

/-- What of the stream an idle decoder stands for. -/
inductive Represents (maxFrameLength : Nat) : FrameDecoder → Tail → Prop where
  | failed {decoder : FrameDecoder} (hstate : decoder.state = .failed)
      (hheaderLength : decoder.headerLength = 0) (hexp : decoder.expectedPayloadLength = none) :
      Represents maxFrameLength decoder .oversized
  | header {decoder : FrameDecoder} {bytes : Bytes} (hstate : decoder.state = .open)
      (hmax : decoder.maxFrameLength = maxFrameLength)
      (hhead : decoder.header.length = frameHeaderLength)
      (hexp : decoder.expectedPayloadLength = none)
      (hlen : decoder.headerLength = bytes.length) (hshort : bytes.length < frameHeaderLength)
      (hbytes : decoder.header.take bytes.length = bytes) :
      Represents maxFrameLength decoder (.pending bytes)
  | payload {decoder : FrameDecoder} {data : Bytes} (hstate : decoder.state = .open)
      (hmax : decoder.maxFrameLength = maxFrameLength)
      (hhead : decoder.header.length = frameHeaderLength)
      (hexp : decoder.expectedPayloadLength = some (headerValue decoder.header))
      (hlen : decoder.headerLength = 0) (hfits : headerValue decoder.header ≤ maxFrameLength)
      (hholds : Holds decoder (headerValue decoder.header) data)
      (hinc : data.length < headerValue decoder.header) :
      Represents maxFrameLength decoder (.pending (decoder.header ++ data))

variable {maxFrameLength : Nat} {decoder : FrameDecoder}

theorem Represents.stable {tail : Tail} (hrep : Represents maxFrameLength decoder tail) :
    tail.Stable maxFrameLength := by
  cases hrep with
  | failed => trivial
  | header hstate hmax hhead hexp hlen hshort hbytes => exact split_short hshort
  | payload hstate hmax hhead hexp hlen hfits hholds hinc =>
    exact split_incomplete hhead hfits hinc

/-- What a round does to a stream: it runs into an oversized frame, or it moves on to the bytes of
a later incomplete frame. -/
inductive Advances (maxFrameLength : Nat) (stream : Bytes) (round : Round) : Prop where
  | failed (fault : FrameFault) (hthr : round.thrown = some fault)
      (hrep : Represents maxFrameLength round.decoder .oversized)
      (hsplit : split maxFrameLength stream = (.oversized, round.delivered))
  | continues (left : Bytes) (hthr : round.thrown = none)
      (hrep : Represents maxFrameLength round.decoder (.pending left))
      (hsplit : split maxFrameLength stream =
        ((split maxFrameLength (left ++ round.rest)).1,
          round.delivered ++ (split maxFrameLength (left ++ round.rest)).2))

theorem pushPayload_advances {data chunk : Bytes} (hstate : decoder.state = .open)
    (hmax : decoder.maxFrameLength = maxFrameLength) (hhead : decoder.header.length = frameHeaderLength)
    (hexp : decoder.expectedPayloadLength = some (headerValue decoder.header))
    (hlen : decoder.headerLength = 0) (hfits : headerValue decoder.header ≤ maxFrameLength)
    (hholds : Holds decoder (headerValue decoder.header) data) (hinc : data.length < headerValue decoder.header) :
    Advances maxFrameLength (decoder.header ++ data ++ chunk)
        (decoder.pushPayload (headerValue decoder.header) chunk) ∧
      (decoder.pushPayload (headerValue decoder.header) chunk).rest =
        chunk.drop (headerValue decoder.header - data.length) := by
  set expected := headerValue decoder.header
  obtain ⟨hrest, hsame, hfil⟩ :=
    fillPayload_spec hholds hinc.le le_rfl
  set result := fillPayload chunk.length decoder expected chunk
  have hfilledLength : result.1.payloadLength =
      data.length + min (expected - data.length) chunk.length := by
    rw [hfil.length, length_append, length_take]
  by_cases hcom : result.1.payloadLength = expected
  · have hpush : decoder.pushPayload expected chunk =
        ⟨result.1.resetPayload none, [result.1.assemblePayload expected], result.2, none⟩ := by
      simp only [pushPayload]
      exact if_pos hcom
    have hload := assemblePayload_eq hfil (hfil.length ▸ hcom) (by omega)
    have hframe : decoder.header ++ data ++ chunk =
        decoder.header ++ (data ++ chunk.take (expected - data.length)) ++
          chunk.drop (expected - data.length) := by
      rw [append_assoc, append_assoc, append_assoc, take_append_drop]
    rw [hpush, hload, hrest]
    refine ⟨.continues [] rfl (.header (hsame.state.trans hstate) (hsame.maxFrameLength.trans hmax)
      (by rw [← hhead]; exact congrArg List.length hsame.header) rfl
      (hsame.headerLength.trans hlen) (by decide) rfl) ?_, rfl⟩
    rw [hframe, split_frame hhead hfits (by rw [length_append, length_take]; omega)]
    rfl
  · have hpush : decoder.pushPayload expected chunk = ⟨result.1, [], result.2, none⟩ := by
      simp only [pushPayload]
      exact if_neg hcom
    have htake : chunk.take (expected - data.length) = chunk :=
      take_of_length_le (by omega)
    have hdrop : chunk.drop (expected - data.length) = [] :=
      drop_eq_nil_of_le (by omega)
    rw [htake] at hfil
    rw [hpush, hrest, hdrop, append_assoc]
    refine ⟨.continues (result.1.header ++ (data ++ chunk)) rfl ?_ ?_, rfl⟩
    · refine .payload (hsame.state.trans hstate) (hsame.maxFrameLength.trans hmax) ?_ ?_
        (hsame.headerLength.trans hlen) ?_ ?_ ?_
      · rw [hsame.header, hhead]
      · rw [hsame.expected, hexp, hsame.header]
      · rw [hsame.header]
        exact hfits
      · rw [hsame.header]
        exact hfil
      · rw [hsame.header, length_append]
        omega
    · rw [hsame.header, append_nil]
      rfl

theorem startFrame_advances {chunk : Bytes} (hstate : decoder.state = .open)
    (hmax : decoder.maxFrameLength = maxFrameLength) (hhead : decoder.header.length = frameHeaderLength)
    (hexp : decoder.expectedPayloadLength = none) :
    Advances maxFrameLength (decoder.header ++ chunk) (decoder.startFrame chunk) ∧
      (decoder.startFrame chunk).rest.length ≤ chunk.length := by
  subst hmax
  by_cases hlong : decoder.maxFrameLength < headerValue decoder.header
  · have hstart : decoder.startFrame chunk =
        ⟨{ decoder with headerLength := 0 }.fail, [], chunk,
          some (.frameLengthExceeds (headerValue decoder.header) decoder.maxFrameLength)⟩ := by
      simp only [startFrame, if_pos hlong]
    rw [hstart]
    exact ⟨.failed _ rfl (.failed rfl rfl rfl) (split_oversized hhead hlong), le_rfl⟩
  by_cases hzero : headerValue decoder.header = 0
  · have hstart : decoder.startFrame chunk =
        ⟨{ decoder with headerLength := 0 }, [[]], chunk, none⟩ := by
      simp only [startFrame, if_neg hlong, if_pos hzero]
    rw [hstart]
    refine ⟨.continues [] rfl (.header hstate rfl hhead hexp rfl (by decide) rfl) ?_, le_rfl⟩
    have hframe := @split_frame _ _ [] chunk hhead (Nat.not_lt.mp hlong) hzero.symm
    rw [append_nil] at hframe
    exact hframe
  · have hstart : decoder.startFrame chunk =
        (({ decoder with headerLength := 0 }).resetPayload
          (some (headerValue decoder.header))).pushPayload (headerValue decoder.header) chunk := by
      simp only [startFrame, if_neg hlong, if_neg hzero]
    obtain ⟨hadv, hrest⟩ := @pushPayload_advances _
      (({ decoder with headerLength := 0 }).resetPayload (some (headerValue decoder.header)))
      [] _ hstate rfl hhead rfl rfl
      (Nat.not_lt.mp hlong) (holds_resetPayload _ _ _) (Nat.pos_of_ne_zero hzero)
    rw [hstart]
    refine ⟨?_, ?_⟩
    · have hnil : decoder.header ++ chunk = decoder.header ++ [] ++ chunk := by
        rw [append_nil]
      rw [hnil]
      exact hadv
    · refine (congrArg List.length hrest).trans_le ?_
      rw [length_drop]
      omega

theorem pushHeader_spec {bytes chunk : Bytes} (hhead : decoder.header.length = frameHeaderLength)
    (hlen : decoder.headerLength = bytes.length) (hshort : bytes.length < frameHeaderLength)
    (hbytes : decoder.header.take bytes.length = bytes) :
    (decoder.pushHeader chunk).2 = chunk.drop (frameHeaderLength - bytes.length) ∧
      ∃ header, (decoder.pushHeader chunk).1 = { decoder with
            header := header
            headerLength := (bytes ++ chunk.take (frameHeaderLength - bytes.length)).length } ∧
        header.length = frameHeaderLength ∧
        header.take (bytes ++ chunk.take (frameHeaderLength - bytes.length)).length =
          bytes ++ chunk.take (frameHeaderLength - bytes.length) := by
  set count := min (frameHeaderLength - bytes.length) chunk.length with hcount
  have htake : chunk.take (frameHeaderLength - bytes.length) = chunk.take count :=
    take_eq_take_min
  have hdrop : chunk.drop (frameHeaderLength - bytes.length) = chunk.drop count := by
    rcases Nat.le_total (frameHeaderLength - bytes.length) chunk.length with hle | hle
    · rw [hcount, min_eq_left hle]
    · rw [hcount, min_eq_right hle, drop_length, drop_eq_nil_of_le hle]
  have hlengthTake : (chunk.take count).length = count := by
    rw [length_take]
    omega
  have hfits : bytes.length + (chunk.take count).length ≤ decoder.header.length := by omega
  rw [htake, hdrop]
  refine ⟨by rw [hcount, ← hlen]; rfl, setBytes decoder.header (chunk.take count) bytes.length,
    ?_, ?_, ?_⟩
  · simp only [pushHeader, hlen, length_append, hlengthTake]
    rfl
  · rw [setBytes_length hfits, hhead]
  · rw [length_append, setBytes_take hfits, hbytes]

theorem pushRound_advances {bytes chunk : Bytes}
    (hrep : Represents maxFrameLength decoder (.pending bytes)) (hchunk : chunk ≠ []) :
    Advances maxFrameLength (bytes ++ chunk) (decoder.pushRound chunk) ∧
      (decoder.pushRound chunk).rest.length < chunk.length := by
  have hpos : 0 < chunk.length := length_pos_of_ne_nil hchunk
  cases hrep with
  | payload hstate hmax hhead hexp hlen hfits hholds hinc =>
    obtain ⟨hadv, hrest⟩ :=
      pushPayload_advances hstate hmax hhead hexp hlen hfits hholds
        hinc
    simp only [pushRound, hexp]
    refine ⟨hadv, ?_⟩
    rw [hrest, length_drop]
    omega
  | header hstate hmax hhead hexp hlen hshort hbytes =>
    obtain ⟨hrest, header, hcol, hfull, hstar⟩ :=
      pushHeader_spec hhead hlen hshort hbytes
    have hstr : bytes ++ chunk = (bytes ++ chunk.take (frameHeaderLength - bytes.length)) ++
        chunk.drop (frameHeaderLength - bytes.length) := by
      rw [append_assoc, take_append_drop]
    have hshor : (chunk.drop (frameHeaderLength - bytes.length)).length < chunk.length := by
      rw [length_drop]
      omega
    simp only [pushRound, hexp]
    rw [hstr, hcol, hrest]
    by_cases hagain : (bytes ++ chunk.take (frameHeaderLength - bytes.length)).length <
        frameHeaderLength
    · rw [if_pos hagain]
      refine ⟨.continues _ rfl (.header hstate hmax hfull hexp rfl hagain hstar) rfl, hshor⟩
    · rw [if_neg hagain]
      have hcom : (bytes ++ chunk.take (frameHeaderLength - bytes.length)).length =
          header.length := by
        rw [length_append, length_take] at hagain ⊢
        omega
      rw [hcom, take_length] at hstar
      rw [← hstar]
      obtain ⟨hadv, hle⟩ := @startFrame_advances _
        { decoder with header := header, headerLength := header.length } _
        hstate hmax hfull hexp
      exact ⟨hadv, lt_of_le_of_lt hle hshor⟩

/-- **The loop refines the stream.** From a decoder standing for the bytes of an incomplete frame,
the loop delivers the frames of these bytes continued by the chunk, and stands for what is left. -/
theorem pushLoop_spec {rounds : Nat} {bytes chunk : Bytes}
    (hrep : Represents maxFrameLength decoder (.pending bytes)) (hroun : chunk.length ≤ rounds) :
    Represents maxFrameLength (pushLoop rounds decoder chunk).decoder (split maxFrameLength (bytes ++ chunk)).1 ∧
      (pushLoop rounds decoder chunk).delivered = (split maxFrameLength (bytes ++ chunk)).2 := by
  have hstab : split maxFrameLength bytes = (.pending bytes, []) := hrep.stable
  induction rounds generalizing decoder bytes chunk with
  | zero =>
    have hnil : chunk = [] := length_eq_zero_iff.mp (Nat.le_zero.mp hroun)
    subst hnil
    rw [append_nil, hstab]
    exact ⟨hrep, rfl⟩
  | succ rounds ih =>
    rw [pushLoop]
    by_cases hchunk : chunk = []
    · subst hchunk
      rw [if_pos rfl, append_nil, hstab]
      exact ⟨hrep, rfl⟩
    rw [if_neg hchunk]
    obtain ⟨hadv, hshor⟩ := pushRound_advances hrep hchunk
    cases hadv with
    | failed fault hthr hfail hsplit =>
      simp only [hthr, hsplit, and_true]
      exact hfail
    | continues left hthr hnext hsplit =>
      have hlater := @ih _ _ (decoder.pushRound chunk).rest hnext (by omega) hnext.stable
      simp only [hthr, hsplit]
      exact ⟨hlater.1, by rw [hlater.2]⟩

/-- One call of `pushEach` as a step that returns the frames it delivered. -/
def pushStep (decoder : FrameDecoder) (chunk : Bytes) : FrameDecoder × List Bytes :=
  ((decoder.pushEach chunk).decoder, (decoder.pushEach chunk).delivered)

theorem pushChunks_eq_feed (chunks : List Bytes) : decoder.pushChunks chunks = feed pushStep decoder chunks := by
  induction chunks generalizing decoder with
  | nil => rfl
  | cons chunk chunks ih =>
    rw [pushChunks, ih]
    rfl

theorem pushEach_spec {tail : Tail} (hrep : Represents maxFrameLength decoder tail) (chunk : Bytes) :
    Represents maxFrameLength (decoder.pushEach chunk).decoder (resume maxFrameLength tail chunk).1 ∧
      (decoder.pushEach chunk).delivered = (resume maxFrameLength tail chunk).2 := by
  cases tail with
  | oversized =>
    have hstate : decoder.state = .failed := by
      cases hrep
      assumption
    simp only [pushEach, hstate]
    exact ⟨hrep, rfl⟩
  | pending bytes =>
    have hstate : decoder.state = .open := by
      cases hrep <;> assumption
    simp only [pushEach, hstate]
    exact pushLoop_spec hrep le_rfl

theorem pushStep_simulates (maxFrameLength : Nat) : (frameStream maxFrameLength).Simulates pushStep
      (fun decoder tail => Represents maxFrameLength decoder tail.1) where
  step_rep chunk hrep := (pushEach_spec hrep chunk).1
  step_output chunk hrep := (pushEach_spec hrep chunk).2

/-- What a decoder that stands for a tail shows. -/
def outcomeOf : Tail → DecoderState × Bytes × Option FrameFault
  | .pending bytes => (.open, bytes, if bytes = [] then none else some .truncated)
  | .oversized => (.failed, [], some .failed)

theorem Holds.pending_eq {expected : Nat} {data : Bytes} (hholds : Holds decoder expected data)
    (hexp : decoder.expectedPayloadLength = some expected) : decoder.pending = decoder.header ++ data := by
  simp only [pending, hexp]
  rcases hholds.blocks with ⟨hempty, rfl⟩ | ⟨full, current, hbloc⟩
  · rw [hempty, flatten_nil, take_nil]
  · rw [hbloc.blocks, flatten_concat, hholds.length, hbloc.data_length, take_append,
      Nat.add_sub_cancel_left, take_of_length_le (Nat.le_add_right _ _), hbloc.data]

theorem Represents.outcome_eq {tail : Tail} (hrep : Represents maxFrameLength decoder tail) :
    decoder.outcome = outcomeOf tail := by
  cases hrep with
  | failed hstate hheaderLength hexp =>
    simp only [outcome, outcomeOf, pending, finish, hstate, hexp, hheaderLength, take_zero]
  | @header bytes hstate hmax hhead hexp hlen hshort hbytes =>
    simp only [outcome, outcomeOf, pending, finish, hstate, hexp, hlen, hbytes]
    by_cases hempty : bytes = []
    · subst hempty
      rfl
    · have hne : bytes.length ≠ 0 := fun h => hempty (length_eq_zero_iff.mp h)
      rw [if_pos (Or.inl hne), if_neg hempty]
  | @payload data hstate hmax hhead hexp hlen hfits hholds hinc =>
    have hne : decoder.header ++ data ≠ [] := by
      intro hnil
      rw [(append_eq_nil_iff.mp hnil).1] at hhead
      exact absurd hhead (by decide)
    simp only [outcome, outcomeOf, hholds.pending_eq hexp, finish, hstate, hexp, if_neg hne]
    rw [if_pos (Or.inr (Option.some_ne_none _))]

theorem create_represents {option : Option Int} (hcreate : create option = .ok decoder) :
    Represents decoder.maxFrameLength decoder (.pending []) ∧ decoder.maxFrameLength ≤ maxUint32 := by
  simp only [create, resolveMaxFrameLength] at hcreate
  split_ifs at hcreate with hrange
  · cases hcreate
  · cases hcreate
    refine ⟨.header rfl rfl rfl rfl rfl (by decide) rfl, ?_⟩
    simp only
    omega

end FrameDecoder

theorem headerBytes_length (length : Nat) : (headerBytes length).length = frameHeaderLength := rfl

theorem headerValue_headerBytes {length : Nat} (hlen : length ≤ maxUint32) :
    headerValue (headerBytes length) = length := by
  have hbyte (value : Nat) : (UInt8.ofNat value).toNat = value % 256 := UInt8.toNat_ofNat'
  simp only [headerBytes, headerValue, hbyte, Nat.shiftRight_eq_div_pow, maxUint32] at hlen ⊢
  omega

theorem encodeFrame_eq {payload : Bytes} (hload : payload.length ≤ maxUint32) :
    encodeFrame payload = .ok (headerBytes payload.length ++ payload) :=
  if_neg (Nat.not_lt.mpr hload)

theorem split_encoded {maxFrameLength : Nat} (hmax : maxFrameLength ≤ maxUint32)
    (payloads : List Bytes) (hpayl : ∀ payload ∈ payloads, payload.length ≤ maxFrameLength) : split maxFrameLength
        (payloads.flatMap fun payload => headerBytes payload.length ++ payload) = (.pending [], payloads) := by
  induction payloads with
  | nil => rfl
  | cons payload payloads ih =>
    have hload := hpayl payload mem_cons_self
    have hvalue := headerValue_headerBytes (hload.trans hmax)
    rw [flatMap_cons, split_frame (headerBytes_length _) (hvalue.le.trans hload)
      hvalue.symm, ih fun other hother => hpayl other (mem_cons_of_mem _ hother)]

theorem mapM_encodeFrame (payloads : List Bytes) (hpayl : ∀ payload ∈ payloads, payload.length ≤ maxUint32) :
    payloads.mapM encodeFrame = .ok (payloads.map fun payload => headerBytes payload.length ++ payload) := by
  induction payloads with
  | nil => rfl
  | cons payload payloads ih =>
    rw [mapM_cons, encodeFrame_eq (hpayl payload mem_cons_self),
      ih fun other hother => hpayl other (mem_cons_of_mem _ hother)]
    rfl

open FrameDecoder in
/-- **Framing is independent of chunking.** A fresh decoder fed any chunks delivers the payloads,
and is left with the pending bytes, the failure and the answer to `end()`, that it has after one call
with the whole stream; and a stream of encoded payloads within the limit is delivered exactly. -/
theorem pushChunks_independent_of_chunking {option : Option Int} {decoder : FrameDecoder}
    (hcreate : create option = .ok decoder) : (∀ chunks : List Bytes,
      (decoder.pushChunks chunks).2 = (decoder.pushEach chunks.flatten).delivered ∧
      (decoder.pushChunks chunks).1.outcome = (decoder.pushEach chunks.flatten).decoder.outcome) ∧
    ∀ payloads : List Bytes, (∀ payload ∈ payloads, payload.length ≤ decoder.maxFrameLength) →
      ∃ frames, payloads.mapM encodeFrame = .ok frames ∧ ∀ chunks : List Bytes, chunks.flatten = frames.flatten →
          (decoder.pushChunks chunks).2 = payloads ∧ (decoder.pushChunks chunks).1.finish.2 = none := by
  obtain ⟨hrep, hmax⟩ := create_represents hcreate
  have hfeed := fun chunks => @Transducer.Simulates.feed _ _ _ _ _ _ _ (pushStep_simulates decoder.maxFrameLength) _
    ⟨.pending [], hrep.stable⟩ hrep chunks
  refine ⟨fun chunks => ?_, fun payloads hpayl => ?_⟩
  · obtain ⟨hchun, hdel⟩ := hfeed chunks
    obtain ⟨hwhole, hdeliveredWhole⟩ := pushEach_spec hrep chunks.flatten
    rw [pushChunks_eq_feed, hdel, hdeliveredWhole, hchun.outcome_eq, hwhole.outcome_eq]
    exact ⟨rfl, rfl⟩
  · refine ⟨_, mapM_encodeFrame payloads fun payload h => (hpayl payload h).trans hmax,
      fun chunks hstr => ?_⟩
    obtain ⟨hchun, hdel⟩ := hfeed chunks
    have hsplit : resume decoder.maxFrameLength (.pending []) chunks.flatten =
        (.pending [], payloads) := by
      rw [resume, nil_append, hstr, ← flatMap_def, split_encoded hmax payloads hpayl]
    rw [pushChunks_eq_feed, hdel]
    simp only [frameStream, hsplit, true_and] at hchun ⊢
    exact congrArg (fun outcome => outcome.2.2) hchun.outcome_eq

/-- Two frames, one of them empty, under a limit of three bytes. -/
theorem pushChunks_two_frames : ∃ decoder, FrameDecoder.create (some 3) = .ok decoder ∧
      ∀ chunks : List Bytes, chunks.flatten = [0, 0, 0, 2, 7, 8, 0, 0, 0, 0] →
        (decoder.pushChunks chunks).2 = [[7, 8], []] ∧ (decoder.pushChunks chunks).1.finish.2 = none := by
  refine ⟨_, rfl, fun chunks hchun => ?_⟩
  obtain ⟨frames, hfram, hdel⟩ :=
    (@pushChunks_independent_of_chunking (some 3) _ rfl).2 [[7, 8], []] (by decide)
  cases hfram
  exact hdel chunks hchun

end PiRp.Framing
