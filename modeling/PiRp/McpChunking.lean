import PiRp.JsonDecimal
import PiRp.McpReading
import PiRp.McpStreams

/-! Chunks of the MCP transports. `handleStdout` of `packages/mcp/src/transports/stdio.ts` reads a message from each
line, `consumeSseStream` events; both give up on a line that is too long as soon as a chunk ends in it, so the chunks do
not matter only where nothing is made of what follows. -/

namespace PiRp.Mcp

open List Sse JsonText Utf8

/-! ### Lines of the standard output -/

/-- The lines that are complete, and what is behind them. -/
def linesOf (bytes : List UInt8) : List (List UInt8) := (bytes.splitOn 0x0a).dropLast

def restOf (bytes : List UInt8) : List UInt8 := (bytes.splitOn 0x0a).getLast?.getD []

theorem linesOf_append (left right : List UInt8) : linesOf (left ++ right) = linesOf left ++ linesOf (restOf left ++ right) :=
  dropLast_splitOn_append _ left right

theorem restOf_append (left right : List UInt8) : restOf (left ++ right) = restOf (restOf left ++ right) :=
  congrArg (·.getD []) (getLast?_splitOn_append _ left right)

theorem linesOf_line {line : List UInt8} (hline : 0x0a ∉ line) (rest : List UInt8) :
    linesOf (line ++ 0x0a :: rest) = line :: linesOf rest ∧ restOf (line ++ 0x0a :: rest) = restOf rest := by
  have hne := splitOn_ne_nil (0x0a : UInt8) rest
  rw [linesOf, restOf, splitOn_append_cons_self_of_not_mem hline, dropLast_cons_of_ne_nil hne,
    getLast?_cons_of_ne_nil hne]
  exact ⟨rfl, rfl⟩

theorem linesOf_open {bytes : List UInt8} (hbytes : 0x0a ∉ bytes) : linesOf bytes = [] ∧ restOf bytes = bytes := by
  rw [linesOf, restOf, splitOn_eq_singleton hbytes]
  exact ⟨rfl, rfl⟩

theorem notMem_restOf (bytes : List UInt8) : 0x0a ∉ restOf bytes := by
  have hne := splitOn_ne_nil (0x0a : UInt8) bytes
  rw [restOf, getLast?_eq_some_getLast hne, Option.getD_some]
  exact notMem_of_mem_splitOn (getLast_mem hne)

section Stdout

variable [NumberText]

/-- What `handleStdout` emits; the errors are the one of the limit and those of `JSON.parse` and
`parseJsonRpcMessage`. -/
inductive Emission where
  | message (value : Json)
  | exceeded
  | invalid

def Emission.toMessage? : Emission → Option Json
  | .message value => some value
  | _ => none

/-- One line without its line feed. -/
def handleLine (maxMessageBytes : Nat) (line : List UInt8) : List Emission :=
  if line.length > maxMessageBytes then [.exceeded]
  else
    let decoded := decode line
    let text := if decoded.getLast? = some 0x0d then decoded.dropLast else decoded
    if JsStr.trim text = [] then []
    else
      match Streams.parseJsonRpcMessage text with
      | some value => [.message value]
      | none => [.invalid]

def handleStdout (maxMessageBytes : Nat) (stdoutBuffer chunk : List UInt8) : List Emission × List UInt8 :=
  let pieces := (stdoutBuffer ++ chunk).splitOn 0x0a
  let emitted := pieces.dropLast.flatMap (handleLine maxMessageBytes)
  let rest := pieces.getLast?.getD []
  if rest.length > maxMessageBytes then (emitted ++ [.exceeded], []) else (emitted, rest)

def handleChunks (maxMessageBytes : Nat) (stdoutBuffer : List UInt8) : List (List UInt8) → List Emission
  | [] => []
  | chunk :: rest =>
    (handleStdout maxMessageBytes stdoutBuffer chunk).1 ++
      handleChunks maxMessageBytes (handleStdout maxMessageBytes stdoutBuffer chunk).2 rest

/-- The message of a line that is not too long. -/
def lineMessage (maxMessageBytes : Nat) (line : List UInt8) : List Json :=
  (handleLine maxMessageBytes line).filterMap Emission.toMessage?

def messagesOf (maxMessageBytes : Nat) (lines : List (List UInt8)) : List Json :=
  lines.flatMap (lineMessage maxMessageBytes)

theorem messages_handleStdout (maxMessageBytes : Nat) (stdoutBuffer chunk : List UInt8) :
    (handleStdout maxMessageBytes stdoutBuffer chunk).1.filterMap Emission.toMessage? =
      messagesOf maxMessageBytes (linesOf (stdoutBuffer ++ chunk)) := by
  rw [handleStdout]
  split_ifs
  · rw [filterMap_append, filterMap_flatMap]
    exact append_nil _
  · rw [filterMap_flatMap]
    rfl

/-- Nothing is a message that ends a line behind more bytes than the limit. -/
def NoMessageInside (maxMessageBytes : Nat) (line : List UInt8) : Prop :=
  ∀ count, maxMessageBytes < count → count ≤ line.length → lineMessage maxMessageBytes (line.drop count) = []

/-- What the buffer is behind some bytes: their last line, or what came of it after it was given up. -/
def Buffered (maxMessageBytes : Nat) (bytes stdoutBuffer : List UInt8) : Prop :=
  ∃ count, (count = 0 ∨ maxMessageBytes < count) ∧ count ≤ (restOf bytes).length ∧
    stdoutBuffer = (restOf bytes).drop count

theorem lineMessage_long {maxMessageBytes : Nat} {line : List UInt8} (hlong : maxMessageBytes < line.length) :
    lineMessage maxMessageBytes line = [] := by
  rw [lineMessage, handleLine, if_pos hlong]
  rfl

/-- One chunk: the messages are those of the lines it completes. -/
theorem handleStdout_buffered {maxMessageBytes : Nat} {bytes stdoutBuffer : List UInt8}
    (hbuffered : Buffered maxMessageBytes bytes stdoutBuffer) (chunk : List UInt8)
    (hlines : ∀ line ∈ linesOf (bytes ++ chunk), NoMessageInside maxMessageBytes line) :
    messagesOf maxMessageBytes (linesOf (stdoutBuffer ++ chunk)) =
        messagesOf maxMessageBytes (linesOf (restOf bytes ++ chunk)) ∧
      Buffered maxMessageBytes (bytes ++ chunk) (handleStdout maxMessageBytes stdoutBuffer chunk).2 := by
  obtain ⟨count, hcount, hle, rfl⟩ := hbuffered
  have hopen := notMem_restOf bytes
  rw [linesOf_append] at hlines
  set rest := restOf bytes with hrest
  have hkept : Buffered maxMessageBytes (bytes ++ chunk) (restOf (rest.drop count ++ chunk)) → Buffered maxMessageBytes
      (bytes ++ chunk) (handleStdout maxMessageBytes (rest.drop count) chunk).2 := by
    intro hbehind
    rw [handleStdout]
    split_ifs with hlong
    · obtain ⟨other, -, hother, hdrop⟩ := hbehind
      refine ⟨(restOf (bytes ++ chunk)).length, .inr ?_, Nat.le_refl _, (drop_length ..).symm⟩
      have hlength := congrArg List.length hdrop
      rw [length_drop] at hlength
      exact lt_of_lt_of_le (lt_of_lt_of_eq hlong hlength) (Nat.sub_le _ _)
    · exact hbehind
  by_cases hchunk : 0x0a ∈ chunk
  · obtain ⟨front, behind, rfl, hfront⟩ := eq_append_cons_of_mem hchunk
    have hline : 0x0a ∉ rest ++ front := fun hmem => (mem_append.mp hmem).elim hopen hfront
    have hpart : 0x0a ∉ rest.drop count ++ front := fun hmem =>
      (mem_append.mp hmem).elim (fun h => hopen (mem_of_mem_drop h)) hfront
    have hnew := linesOf_line hline behind
    have hold := linesOf_line hpart behind
    rw [append_assoc] at hnew hold
    refine ⟨?_, hkept ⟨0, .inl rfl, Nat.zero_le _, ?_⟩⟩
    · rw [hnew.1, hold.1, messagesOf, messagesOf, flatMap_cons, flatMap_cons]
      obtain rfl | hlong := hcount
      · rfl
      · have hnone := hlines (rest ++ front) (mem_append_right _ (by rw [hnew.1]; exact mem_cons_self ..))
          count hlong (by rw [length_append]; omega)
        rw [drop_append_of_le_length hle] at hnone
        rw [hnone, lineMessage_long (by rw [length_append]; omega)]
    · rw [restOf_append bytes, hnew.2, hold.2, drop_zero]
  · have hline : 0x0a ∉ rest ++ chunk := fun hmem => (mem_append.mp hmem).elim hopen hchunk
    have hpart : 0x0a ∉ rest.drop count ++ chunk := fun hmem =>
      (mem_append.mp hmem).elim (fun h => hopen (mem_of_mem_drop h)) hchunk
    rw [(linesOf_open hline).1, (linesOf_open hpart).1]
    refine ⟨rfl, hkept ⟨count, hcount, ?_, ?_⟩⟩
    · rw [restOf_append bytes, (linesOf_open hline).2, length_append]
      omega
    · rw [restOf_append bytes, (linesOf_open hline).2, (linesOf_open hpart).2, drop_append_of_le_length hle]

theorem handleChunks_messages {maxMessageBytes : Nat} {bytes stdoutBuffer : List UInt8} {chunks : List (List UInt8)}
    (hbuffered : Buffered maxMessageBytes bytes stdoutBuffer)
    (hlines : ∀ line ∈ linesOf (bytes ++ chunks.flatten), NoMessageInside maxMessageBytes line) :
    messagesOf maxMessageBytes (linesOf bytes) ++
        (handleChunks maxMessageBytes stdoutBuffer chunks).filterMap Emission.toMessage? =
      messagesOf maxMessageBytes (linesOf (bytes ++ chunks.flatten)) := by
  induction chunks generalizing bytes stdoutBuffer with
  | nil => simp [handleChunks]
  | cons chunk chunks ih =>
    rw [flatten_cons, ← append_assoc] at hlines ⊢
    have hfirst : ∀ line ∈ linesOf (bytes ++ chunk), NoMessageInside maxMessageBytes line := by
      intro line hline
      refine hlines line ?_
      rw [linesOf_append]
      exact mem_append_left _ hline
    obtain ⟨hsame, hnext⟩ := handleStdout_buffered hbuffered chunk hfirst
    rw [← ih hnext hlines, handleChunks, filterMap_append, messages_handleStdout, hsame, linesOf_append bytes,
      ← append_assoc]
    congr 1
    exact (flatMap_append ..).symm

omit [NumberText] in
/-- A line stands between what is before and what is behind it. -/
theorem linesOf_mem {bytes line : List UInt8} (hline : line ∈ linesOf bytes) :
    ∃ before behind, bytes = before ++ (line ++ 0x0a :: behind) ∧ restOf before = [] ∧ 0x0a ∉ line := by
  induction hlength : bytes.length using Nat.strongRecOn generalizing bytes with
  | _ length ih =>
    by_cases hmem : 0x0a ∈ bytes
    · obtain ⟨first, rest, rfl, hfirst⟩ := eq_append_cons_of_mem hmem
      rw [(linesOf_line hfirst rest).1, mem_cons] at hline
      obtain rfl | hline := hline
      · exact ⟨[], rest, rfl, rfl, hfirst⟩
      · obtain ⟨before, behind, rfl, hempty, hnot⟩ :=
          ih rest.length (by rw [← hlength, length_append, length_cons]; omega) hline rfl
        exact ⟨first ++ 0x0a :: before, behind, by simp, (linesOf_line hfirst before).2.trans hempty, hnot⟩
    · rw [(linesOf_open hmem).1] at hline
      cases hline

/-- The messages of the standard output are those of its lines. -/
def StdoutFramed (maxMessageBytes : Nat) (bytes : List UInt8) : Prop :=
  ∀ chunks : List (List UInt8), chunks.flatten = bytes →
    (handleChunks maxMessageBytes [] chunks).filterMap Emission.toMessage? = messagesOf maxMessageBytes (linesOf bytes)

theorem stdoutFramed_iff (maxMessageBytes : Nat) (bytes : List UInt8) :
    StdoutFramed maxMessageBytes bytes ↔ ∀ line ∈ linesOf bytes, NoMessageInside maxMessageBytes line := by
  constructor
  · intro hframed line hline count hlong hle
    obtain ⟨before, behind, rfl, hempty, hnot⟩ := linesOf_mem hline
    have hcut : 0x0a ∉ line.take count := fun hmem => hnot (mem_of_mem_take hmem)
    have htail : 0x0a ∉ line.drop count := fun hmem => hnot (mem_of_mem_drop hmem)
    -- The line is cut behind more bytes than the limit, so the first chunk ends in a line that is given up.
    have hrun := hframed [before ++ line.take count, line.drop count ++ 0x0a :: behind] (by
      rw [flatten_cons, flatten_singleton, append_assoc, ← append_assoc (line.take count), take_append_drop])
    have hfirst : restOf (before ++ line.take count) = line.take count := by
      rw [restOf_append, hempty, nil_append, (linesOf_open hcut).2]
    have hdropped : (handleStdout maxMessageBytes [] (before ++ line.take count)).2 = [] := by
      rw [handleStdout, if_pos]
      have hlength := congrArg List.length hfirst
      rw [length_take_of_le hle] at hlength
      exact lt_of_lt_of_eq hlong hlength.symm
    rw [handleChunks, handleChunks, handleChunks, hdropped, append_nil, filterMap_append,
      messages_handleStdout, messages_handleStdout, nil_append, nil_append, (linesOf_line htail behind).1,
      linesOf_append before, hempty, nil_append, linesOf_append before, hempty, nil_append,
      (linesOf_open hcut).1, (linesOf_line hnot behind).1, append_nil, messagesOf, messagesOf, messagesOf,
      flatMap_append, append_cancel_left_eq, flatMap_cons, flatMap_cons,
      lineMessage_long (lt_of_lt_of_le hlong hle), nil_append] at hrun
    exact append_left_eq_self.mp hrun
  · rintro hlines chunks rfl
    have hstart : Buffered maxMessageBytes [] [] := ⟨0, .inl rfl, Nat.zero_le _, rfl⟩
    have hrun := handleChunks_messages hstart (show ∀ line ∈ linesOf ([] ++ chunks.flatten), _ by rwa [nil_append])
    rwa [nil_append] at hrun

end Stdout

/-! ### Events -/

section Events

variable {σ : Type*} (call : σ → Call → σ) (maxEventBytes : Nat)

/-- A chunk without the check of what is left. -/
def feedLines (reader : Reader σ) (chunk : List UInt8) : Except σ (Reader σ) :=
  let (text, decoder) := reader.decoder.decode chunk
  let pieces := (reader.buffered ++ text).splitOn newline
  (processLines call maxEventBytes reader.pending reader.sink pieces.dropLast).map fun (pending, sink) =>
    ⟨decoder, pieces.getLast?.getD [], pending, sink⟩

theorem feed_eq (reader : Reader σ) (chunk : List UInt8) :
    Sse.feed call maxEventBytes reader chunk = (feedLines call maxEventBytes reader chunk).bind fun next =>
      if byteLength next.buffered > maxEventBytes then .error next.sink else .ok next := by
  rw [Sse.feed, feedLines]
  dsimp only
  split <;> rename_i heq <;> rw [heq] <;> rfl

theorem mark_append (decoder : Decoder) (first second : JsStr) (unfinished : Option Pending) :
    decoder.mark (first ++ second) =
      decoder.mark first ++ Decoder.mark ⟨decoder.bomSeen || !first.isEmpty, unfinished⟩ second := by
  cases first with
  | nil => simp [Decoder.mark]
  | cons unit first => by_cases hmark : unit = 0xfeff <;> cases hseen : decoder.bomSeen <;> simp [Decoder.mark, hmark, hseen]

theorem decode_append (decoder : Decoder) (left right : List UInt8) : decoder.decode (left ++ right) =
      ((decoder.decode left).1 ++ ((decoder.decode left).2.decode right).1, ((decoder.decode left).2.decode right).2) := by
  have hempty (first second : JsStr) : (!(first ++ second).isEmpty) = (!first.isEmpty || !second.isEmpty) := by
    cases first <;> rfl
  rw [Decoder.decode, decodeFrom_append]
  dsimp only
  rw [mark_append decoder _ _ (decodeFrom decoder.unfinished left).2, hempty, ← Bool.or_assoc]
  rfl

variable {call maxEventBytes}

theorem processLines_append (pending : PendingEvent) (sink : σ) (left right : List JsStr) :
    processLines call maxEventBytes pending sink (left ++ right) =
      (processLines call maxEventBytes pending sink left).bind fun (pending, sink) =>
        processLines call maxEventBytes pending sink right := by
  induction left generalizing pending sink with
  | nil => rfl
  | cons line rest ih =>
    rw [cons_append, processLines, processLines]
    cases processLine maxEventBytes pending line with
    | none => rfl
    | some next => exact ih next.1 _

theorem feedLines_append (reader : Reader σ) (left right : List UInt8) :
    feedLines call maxEventBytes reader (left ++ right) =
      (feedLines call maxEventBytes reader left).bind fun next => feedLines call maxEventBytes next right := by
  rw [feedLines, feedLines, decode_append]
  dsimp only
  rw [← append_assoc, dropLast_splitOn_append, getLast?_splitOn_append, processLines_append]
  cases processLines call maxEventBytes reader.pending reader.sink
      ((reader.buffered ++ (reader.decoder.decode left).1).splitOn newline).dropLast with
  | error sink => rfl
  | ok next => rfl

variable (call maxEventBytes) (ending : Ending)

/-- What is left to do when the chunks have been read. -/
def conclude : Except σ (Reader σ) → σ × Outcome
  | .error sink => (sink, .exceeded)
  | .ok reader =>
    match ending with
    | .dropped => (reader.sink, .dropped)
    | .clean =>
      match finish call maxEventBytes reader with
      | .error sink => (sink, .exceeded)
      | .ok sink => (sink, .ended)

theorem consumeSseStream_conclude (sink : σ) (chunks : List (List UInt8)) :
    consumeSseStream call maxEventBytes sink ⟨chunks, ending⟩ =
      conclude call maxEventBytes ending (feedAll call maxEventBytes (startReader sink) chunks) := by
  rw [consumeSseStream]
  cases feedAll call maxEventBytes (startReader sink) chunks with
  | error sink => rfl
  | ok reader => cases ending <;> rfl

end Events

/-! ### Lines that are too long -/

section TooLong

variable (maxEventBytes : Nat) (ending : Ending)

/-- The reading of some lines, of the last one and of the end of the stream fails before it calls back. -/
def failsSilently (last flushed : JsStr) (pending : PendingEvent) : List JsStr → Bool
  | [] => byteLength last > maxEventBytes ||
      ending = .clean && !flushed.isEmpty && (processLine maxEventBytes pending flushed).isNone
  | line :: rest =>
    match processLine maxEventBytes pending line with
    | none => true
    | some (next, calls) => calls.isEmpty && failsSilently last flushed next rest

/-- The calls in their order. -/
def record (calls : List Call) (call : Call) : List Call := calls ++ [call]

def Reader.failsSilently (reader : Reader (List Call)) (bytes : List UInt8) : Bool :=
  let (text, decoder) := reader.decoder.decode bytes
  let pieces := (reader.buffered ++ text).splitOn newline
  let last := pieces.getLast?.getD []
  Mcp.failsSilently maxEventBytes ending last (last ++ decoder.mark (flush decoder.unfinished)) reader.pending
    pieces.dropLast

/-- A line that is too long where a chunk can end in it makes the reading fail anyway, with nothing called back from
there on. -/
def LongLinesFail (reader : Reader (List Call)) (bytes : List UInt8) : Prop :=
  ∀ front behind, bytes = front ++ behind → ∀ next, feedLines record maxEventBytes reader front = .ok next →
    byteLength next.buffered > maxEventBytes → Reader.failsSilently maxEventBytes ending next behind = true

variable {maxEventBytes ending}

/-- What is done with some lines and the rest of a stream behind them. -/
def concludeLines (maxEventBytes : Nat) (ending : Ending) (decoder : Decoder) (last : JsStr) (pending : PendingEvent)
    (sink : List Call) (lines : List JsStr) : List Call × Outcome :=
  conclude record maxEventBytes ending
    ((processLines record maxEventBytes pending sink lines).bind fun (pending, sink) =>
      if byteLength last > maxEventBytes then .error sink else .ok ⟨decoder, last, pending, sink⟩)

theorem foldl_record (sink calls : List Call) : calls.foldl record sink = sink ++ calls := by
  induction calls generalizing sink with
  | nil => simp
  | cons call calls ih => simp [ih, record]

theorem concludeLines_cons (decoder : Decoder) (last : JsStr) (pending : PendingEvent) (sink : List Call)
    (line : JsStr) (rest : List JsStr) : concludeLines maxEventBytes ending decoder last pending sink (line :: rest) =
      match processLine maxEventBytes pending line with
      | none => (sink, .exceeded)
      | some (next, calls) => concludeLines maxEventBytes ending decoder last next (sink ++ calls) rest := by
  rw [concludeLines, processLines]
  cases processLine maxEventBytes pending line with
  | none => rfl
  | some next =>
    dsimp only
    rw [foldl_record]
    rfl

theorem concludeLines_nil (decoder : Decoder) (last : JsStr) (pending : PendingEvent) (sink : List Call) :
    concludeLines maxEventBytes ending decoder last pending sink [] =
      if byteLength last > maxEventBytes then (sink, .exceeded) else match ending with
        | .dropped => (sink, .dropped)
        | .clean =>
          let flushed := last ++ decoder.mark (flush decoder.unfinished)
          if flushed = [] then (sink ++ (dispatch pending).2, .ended)
          else match processLine maxEventBytes pending flushed with
            | none => (sink, .exceeded)
            | some (next, calls) => (sink ++ calls ++ (dispatch next).2, .ended) := by
  rw [concludeLines, processLines, Except.bind]
  split_ifs with hlong
  · rfl
  · cases ending with
    | dropped => rfl
    | clean =>
      rw [conclude, finish]
      dsimp only
      split_ifs with hnone
      · rw [processLines, ← foldl_record]
      · rw [processLines]
        cases processLine maxEventBytes pending (last ++ decoder.mark (flush decoder.unfinished)) with
        | none => rfl
        | some next =>
          dsimp only
          rw [← foldl_record, ← foldl_record]
          rfl

theorem prefix_concludeLines (decoder : Decoder) (last : JsStr) (pending : PendingEvent) (sink : List Call)
    (lines : List JsStr) : sink <+: (concludeLines maxEventBytes ending decoder last pending sink lines).1 := by
  induction lines generalizing pending sink with
  | nil =>
    rw [concludeLines_nil]
    split_ifs
    · exact prefix_refl _
    · cases ending with
      | dropped => exact prefix_refl _
      | clean =>
        dsimp only
        split_ifs
        · exact prefix_append _ _
        · split
          · exact prefix_refl _
          · exact (prefix_append _ _).trans (prefix_append _ _)
  | cons line rest ih =>
    rw [concludeLines_cons]
    split
    · exact prefix_refl _
    · exact (prefix_append _ _).trans (ih _ _)

/-- The reading fails with no more calls just when a line is in the way. -/
theorem concludeLines_eq_exceeded (decoder : Decoder) (last : JsStr) (pending : PendingEvent) (sink : List Call)
    (lines : List JsStr) : concludeLines maxEventBytes ending decoder last pending sink lines = (sink, .exceeded) ↔
      failsSilently maxEventBytes ending last (last ++ decoder.mark (flush decoder.unfinished)) pending lines =
        true := by
  induction lines generalizing pending with
  | nil =>
    rw [concludeLines_nil, failsSilently]
    by_cases hlong : byteLength last > maxEventBytes
    · simp [hlong]
    · cases ending with
      | dropped => simp [hlong]
      | clean =>
        by_cases hnone : last ++ decoder.mark (flush decoder.unfinished) = []
        · simp [hlong, hnone]
        · cases hline : processLine maxEventBytes pending (last ++ decoder.mark (flush decoder.unfinished)) with
          | none => simp [hlong, hnone, hline]
          | some next => simp [hlong, hnone, hline]
  | cons line rest ih =>
    rw [concludeLines_cons, failsSilently]
    cases hline : processLine maxEventBytes pending line with
    | none => simp
    | some next =>
      obtain ⟨next, calls⟩ := next
      cases calls with
      | nil => simpa using ih next
      | cons call calls =>
        refine iff_of_false (fun heq => ?_) (by simp)
        have hgrows : _ <+: (concludeLines maxEventBytes ending decoder last next _ rest).1 :=
          prefix_concludeLines decoder last next (sink ++ call :: calls) rest
        have hlength := hgrows.length_le.trans_eq (congrArg (List.length ·.1) heq)
        simp at hlength

/-- What is behind a chunk, in one piece. -/
theorem conclude_feed (reader : Reader (List Call)) (bytes : List UInt8) :
    conclude record maxEventBytes ending (Sse.feed record maxEventBytes reader bytes) = (reader.sink, .exceeded) ↔
      Reader.failsSilently maxEventBytes ending reader bytes = true := by
  rw [Reader.failsSilently, feed_eq, feedLines]
  generalize reader.decoder.decode bytes = decoded
  obtain ⟨text, decoder⟩ := decoded
  dsimp only
  rw [← concludeLines_eq_exceeded _ _ _ reader.sink, concludeLines]
  cases processLines record maxEventBytes reader.pending reader.sink
      ((reader.buffered ++ text).splitOn newline).dropLast with
  | error sink => rfl
  | ok next => rfl

theorem LongLinesFail.behind {reader next : Reader (List Call)} {front behind : List UInt8}
    (hlong : LongLinesFail maxEventBytes ending reader (front ++ behind))
    (hnext : feedLines record maxEventBytes reader front = .ok next) : LongLinesFail maxEventBytes ending next behind := by
  intro start rest hsplit last hlast
  refine hlong (front ++ start) rest (by rw [hsplit, append_assoc]) last ?_
  rw [feedLines_append, hnext]
  exact hlast

/-- A chunk and what follows it in one piece are read as one piece. -/
theorem conclude_cut {reader : Reader (List Call)} {front behind : List UInt8}
    (hlong : LongLinesFail maxEventBytes ending reader (front ++ behind)) :
    conclude record maxEventBytes ending ((Sse.feed record maxEventBytes reader front).bind fun next =>
        Sse.feed record maxEventBytes next behind) =
      conclude record maxEventBytes ending (Sse.feed record maxEventBytes reader (front ++ behind)) := by
  rw [feed_eq, feed_eq, feedLines_append]
  cases hnext : feedLines record maxEventBytes reader front with
  | error sink => rfl
  | ok next =>
    simp only [Except.bind]
    split_ifs with hbig
    · have hfails := (conclude_feed next behind).mpr (hlong front behind rfl next hnext hbig)
      rw [feed_eq] at hfails
      exact hfails.symm
    · dsimp only
      rw [feed_eq]
      rfl

/-- The chunks of a stream are read as one piece. -/
theorem conclude_feedAll {reader : Reader (List Call)} {chunks : List (List UInt8)} (hsome : chunks ≠ [])
    (hlong : LongLinesFail maxEventBytes ending reader chunks.flatten) :
    conclude record maxEventBytes ending (feedAll record maxEventBytes reader chunks) =
      conclude record maxEventBytes ending (Sse.feed record maxEventBytes reader chunks.flatten) := by
  induction chunks generalizing reader with
  | nil => exact absurd rfl hsome
  | cons chunk rest ih =>
    cases rest with
    | nil =>
      rw [feedAll, flatten_singleton]
      cases Sse.feed record maxEventBytes reader chunk <;> rfl
    | cons other rest =>
      rw [flatten_cons] at hlong ⊢
      rw [← conclude_cut hlong, feedAll]
      cases hfeed : Sse.feed record maxEventBytes reader chunk with
      | error sink => rfl
      | ok next =>
        refine ih (cons_ne_nil _ _) (hlong.behind ?_)
        rw [feed_eq] at hfeed
        cases hlines : feedLines record maxEventBytes reader chunk with
        | error sink =>
          rw [hlines] at hfeed
          cases hfeed
        | ok last =>
          rw [hlines] at hfeed
          simp only [Except.bind] at hfeed
          split_ifs at hfeed
          exact hfeed

theorem consume_one (bytes : List UInt8) : consumeSseStream record maxEventBytes [] ⟨[bytes], ending⟩ =
      conclude record maxEventBytes ending (Sse.feed record maxEventBytes (startReader []) bytes) := by
  rw [consumeSseStream_conclude, feedAll]
  cases Sse.feed record maxEventBytes (startReader []) bytes <;> rfl

/-- A stream gives the same calls and the same outcome in all chunks. -/
def StreamFramed (maxEventBytes : Nat) (ending : Ending) (bytes : List UInt8) : Prop :=
  ∀ chunks other : List (List UInt8), chunks.flatten = bytes → other.flatten = bytes →
    consumeSseStream record maxEventBytes [] ⟨chunks, ending⟩ = consumeSseStream record maxEventBytes [] ⟨other, ending⟩

theorem streamFramed_iff (bytes : List UInt8) :
    StreamFramed maxEventBytes ending bytes ↔ LongLinesFail maxEventBytes ending (startReader []) bytes := by
  constructor
  · rintro hframed front behind rfl next hnext hbig
    have hrun := hframed [front, behind] [front ++ behind] (by simp) (by simp)
    have hfirst : Sse.feed record maxEventBytes (startReader []) front = .error next.sink := by
      rw [feed_eq, hnext]
      exact if_pos hbig
    rw [consume_one, consumeSseStream_conclude, feedAll, hfirst, feed_eq, feedLines_append, hnext] at hrun
    refine (conclude_feed next behind).mp ?_
    rw [feed_eq]
    exact hrun.symm
  · intro hlong chunks other hchunks hother
    suffices hone : ∀ pieces : List (List UInt8), pieces.flatten = bytes →
        consumeSseStream record maxEventBytes [] ⟨pieces, ending⟩ =
          consumeSseStream record maxEventBytes [] ⟨[bytes], ending⟩ from
      (hone chunks hchunks).trans (hone other hother).symm
    rintro pieces rfl
    rw [consume_one, consumeSseStream_conclude]
    cases pieces with
    | nil =>
      have hstart : Sse.feed record maxEventBytes (startReader []) [] = .ok (startReader []) := by
        rw [feed_eq]
        exact if_neg (t := .error []) (Nat.not_lt_zero maxEventBytes)
      rw [flatten_nil, hstart]
      rfl
    | cons piece pieces => exact conclude_feedAll (cons_ne_nil _ _) hlong

end TooLong

/-- Neither transport depends on the chunks. -/
def Framed [NumberText] (maxBytes : Nat) (bytes : List UInt8) : Prop :=
  StdoutFramed maxBytes bytes ∧ ∀ ending, StreamFramed maxBytes ending bytes

theorem framed_iff [NumberText] (maxBytes : Nat) (bytes : List UInt8) :
    Framed maxBytes bytes ↔ (∀ line ∈ linesOf bytes, NoMessageInside maxBytes line) ∧
      ∀ ending, LongLinesFail maxBytes ending (startReader []) bytes :=
  and_congr (stdoutFramed_iff maxBytes bytes) (forall_congr' fun _ => streamFramed_iff bytes)

section Sample

local instance chunkingNumbers : NumberText := decimalNumbers

def methodLine : List UInt8 := (js "\x7b\"jsonrpc\":\"2.0\",\"method\":\"m\"\x7d\n").map UInt16.toUInt8

/-- A message behind as many blanks as a line may have bytes. -/
theorem not_framed_blanks : ¬ Framed 30 (List.replicate 31 0x20 ++ methodLine) := by
  intro hframed
  have hrun := congrArg List.length (hframed.1 [List.replicate 31 0x20, methodLine] (by simp))
  revert hrun
  decide +kernel

end Sample

end PiRp.Mcp
