import PiRp.JsonDecimal
import PiRp.McpReading
import PiRp.McpStreams

/-! Resumed event streams. The server keeps a log of events and replays those behind an id. The cursor moves to the id
of an event when that line is read, before the event is complete, and at a clean end what was received of an event is
taken for all of it. A break is harmless when what it leaves of the broken event is nothing or the whole. -/

namespace PiRp.Mcp.Streams

open List Sse Option

/-- An event of a log: its lines with the one that has its id, and the blank line behind them. -/
structure LogEvent where
  lines : List (List UInt8)
  blank : List UInt8
  id : JsStr
  hlines : ∀ line ∈ lines, 0x0a ∉ line ∧ fieldOf (Utf8.decode line) ≠ .blank ∧
    (Utf8.decode line).head? ≠ some 0xfeff
  hblank : blank = [] ∨ blank = [0x0d]
  hid : (lines.filterMap fun line =>
    match fieldOf (Utf8.decode line) with
    | .id value => some value
    | _ => none) = [id]

namespace LogEvent

variable (event : LogEvent)

/-- The lines of the event with the blank one. -/
def allLines : List (List UInt8) := event.lines ++ [event.blank]

def bytes : List UInt8 := event.allLines.flatMap fun line => line ++ [0x0a]

def textLines : List JsStr := event.allLines.map Utf8.decode

/-- What the reader calls back for the event. -/
def calls (maxEventBytes : Nat) : List Call :=
  ((readLines maxEventBytes .empty event.textLines).map Prod.snd).getD []

/-- The event and each of its lines keep the limit, also while they are received. -/
def Fits (maxEventBytes : Nat) : Prop :=
  (readLines maxEventBytes .empty event.textLines).isSome = true ∧
    ∀ line ∈ event.allLines, ∀ start, start <+: line → byteLength (Utf8.textOf start) ≤ maxEventBytes

end LogEvent

def idsOf (calls : List Call) : List JsStr :=
  calls.filterMap fun
    | .onId id => some id
    | _ => none

/-- What the reader calls back for the part of an event that was received before the stream ended; none when the limit
is exceeded. -/
def cutCalls (maxEventBytes : Nat) (part : List UInt8) (ending : Ending) : Option (List Call) :=
  let pieces := part.splitOn 0x0a
  (readLines maxEventBytes .empty (pieces.dropLast.map Utf8.decode)).bind fun step =>
    match ending with
    | .dropped => some step.2
    | .clean =>
      let buffered := Utf8.decode (pieces.getLast?.getD [])
      (readLines maxEventBytes step.1 (if buffered = [] then [] else [buffered])).map fun last =>
        step.2 ++ last.2 ++ (dispatch last.1).2

/-! ### Events -/

section Events

variable {maxEventBytes : Nat}

theorem newline_notMem_allLines (event : LogEvent) : ∀ line ∈ event.allLines, 0x0a ∉ line := by
  intro line hline
  rcases mem_append.mp hline with hline | hline
  · exact (event.hlines line hline).1
  · obtain rfl := mem_singleton.mp hline
    rcases event.hblank with hblank | hblank
    · rw [hblank]
      decide
    · rw [hblank]
      decide

theorem fieldOf_blank (event : LogEvent) : fieldOf (Utf8.decode event.blank) = .blank := by
  rcases event.hblank with hblank | hblank
  · rw [hblank]
    decide
  · rw [hblank]
    decide

/-- Without data there are no bytes of data. -/
def Sound (pending : PendingEvent) : Prop := pending.dataLines = [] → pending.dataBytes = 0

variable {pending : PendingEvent}

theorem sound_dispatch (hsound : Sound pending) : (dispatch pending).1 = .empty := by
  obtain ⟨name, id, data, bytes⟩ := pending
  rw [dispatch]
  split_ifs with hdata
  · have hbytes : bytes = 0 := hsound hdata
    dsimp only at hdata ⊢
    rw [hdata, hbytes]
    rfl
  · rfl

theorem sound_processLine {line : JsStr} {step : PendingEvent × List Call}
    (hsound : Sound pending) (hstep : processLine maxEventBytes pending line = some step) : Sound step.1 := by
  rw [processLine] at hstep
  cases hfield : fieldOf line with
  | blank =>
    rw [hfield] at hstep
    obtain rfl := Option.some.inj hstep
    rw [sound_dispatch hsound]
    exact fun _ => rfl
  | data value =>
    rw [hfield] at hstep
    dsimp only at hstep
    split_ifs at hstep
    all_goals
      obtain rfl := Option.some.inj hstep
      intro hempty
      exact absurd hempty (append_ne_nil_of_right_ne_nil _ (cons_ne_nil _ _))
  | _ =>
    rw [hfield] at hstep
    obtain rfl := Option.some.inj hstep
    exact hsound

theorem sound_readLines {lines : List JsStr} {step : PendingEvent × List Call}
    (hsound : Sound pending) (hread : readLines maxEventBytes pending lines = some step) : Sound step.1 := by
  induction lines generalizing pending step with
  | nil =>
    obtain rfl := Option.some.inj hread
    exact hsound
  | cons line rest ih =>
    rw [readLines] at hread
    obtain ⟨first, hfirst, hrest⟩ := bind_eq_some_iff.mp hread
    obtain ⟨last, hlast, rfl⟩ := map_eq_some_iff.mp hrest
    have hsoundLast : Sound last.1 := ih (sound_processLine hsound hfirst) hlast
    exact hsoundLast

theorem readLines_event {event : LogEvent} (hfits : event.Fits maxEventBytes) :
    readLines maxEventBytes .empty event.textLines = some (.empty, event.calls maxEventBytes) := by
  obtain ⟨⟨pending, calls⟩, hread⟩ := isSome_iff_exists.mp hfits.1
  have hcalls : event.calls maxEventBytes = calls := by
    rw [LogEvent.calls, hread]
    rfl
  rw [hcalls, hread]
  have hlines : event.textLines = event.lines.map Utf8.decode ++ [Utf8.decode event.blank] := by
    rw [LogEvent.textLines, LogEvent.allLines, map_append]
    rfl
  rw [hlines, readLines_append] at hread
  obtain ⟨step, hstep, hlast⟩ := bind_eq_some_iff.mp hread
  obtain ⟨last, hblank, heq⟩ := map_eq_some_iff.mp hlast
  rw [readLines, processLine, fieldOf_blank, bind_some, readLines, map_some] at hblank
  obtain rfl := Option.some.inj hblank
  have hsound : Sound step.1 := sound_readLines (fun _ => rfl) hstep
  have hpend := (Prod.mk.inj heq).1
  dsimp only at hpend
  rw [sound_dispatch hsound] at hpend
  rw [← hpend]

theorem readLines_events {events : List LogEvent} (hfits : ∀ event ∈ events, event.Fits maxEventBytes) :
    readLines maxEventBytes .empty (events.flatMap LogEvent.textLines) =
      some (.empty, events.flatMap fun event => event.calls maxEventBytes) := by
  induction events with
  | nil => rfl
  | cons event rest ih =>
    rw [flatMap_cons, readLines_append, readLines_event (hfits event mem_cons_self), bind_some,
      ih fun other hother => hfits other (mem_cons_of_mem _ hother), map_some, flatMap_cons]

theorem idsOf_readLines {lines : List JsStr} {step : PendingEvent × List Call}
    (hread : readLines maxEventBytes pending lines = some step) : idsOf step.2 = lines.filterMap fun line =>
      match fieldOf line with
      | .id value => some value
      | _ => none := by
  have hdis (pending : PendingEvent) : idsOf (dispatch pending).2 = [] := by
    rw [dispatch]
    split_ifs <;> rfl
  induction lines generalizing pending step with
  | nil =>
    obtain rfl := Option.some.inj hread
    rfl
  | cons line rest ih =>
    rw [readLines] at hread
    obtain ⟨first, hfirst, hrest⟩ := bind_eq_some_iff.mp hread
    obtain ⟨last, hlast, rfl⟩ := map_eq_some_iff.mp hrest
    have hline : idsOf first.2 = match fieldOf line with
        | .id value => [value]
        | _ => [] := by
      rw [processLine] at hfirst
      cases hfield : fieldOf line with
      | blank =>
        rw [hfield] at hfirst
        obtain rfl := Option.some.inj hfirst
        exact hdis pending
      | data value =>
        rw [hfield] at hfirst
        dsimp only at hfirst
        split_ifs at hfirst
        all_goals
          obtain rfl := Option.some.inj hfirst
          rfl
      | _ =>
        rw [hfield] at hfirst
        obtain rfl := Option.some.inj hfirst
        rfl
    rw [idsOf, filterMap_append, ← idsOf, ← idsOf, hline, ih hlast, filterMap_cons]
    cases fieldOf line <;> rfl

theorem idsOf_calls {event : LogEvent} (hfits : event.Fits maxEventBytes) :
    idsOf (event.calls maxEventBytes) = [event.id] := by
  rw [idsOf_readLines (readLines_event hfits), LogEvent.textLines, LogEvent.allLines, map_append,
    filterMap_append, map_singleton, filterMap_cons, fieldOf_blank, filterMap_map]
  have hid := event.hid
  rw [Function.comp_def]
  rw [hid]
  rfl

end Events

/-! ### Streams of events -/

section StreamBytes

variable {maxEventBytes : Nat}

/-- The bytes of some events. -/
def bytesOf (events : List LogEvent) : List UInt8 := events.flatMap LogEvent.bytes

section

variable (events : List LogEvent)

theorem bytesOf_eq : bytesOf events = (events.flatMap LogEvent.allLines).flatMap fun line => line ++ [0x0a] := by
  rw [bytesOf, flatMap_assoc]
  rfl

theorem newline_notMem_lines : ∀ line ∈ events.flatMap LogEvent.allLines, 0x0a ∉ line := by
  intro line hline
  obtain ⟨event, -, hmem⟩ := mem_flatMap.mp hline
  exact newline_notMem_allLines event line hmem

theorem splitOn_bytesOf (part : List UInt8) :
    (bytesOf events ++ part).splitOn 0x0a = events.flatMap LogEvent.allLines ++ part.splitOn 0x0a := by
  rw [bytesOf_eq, splitOn_lines (newline_notMem_lines events)]

theorem completeLines_bytesOf (part : List UInt8) : completeLines (bytesOf events ++ part) =
      events.flatMap LogEvent.textLines ++ (part.splitOn 0x0a).dropLast.map Utf8.decode := by
  have hlines : (events.flatMap LogEvent.allLines).map Utf8.decode = events.flatMap LogEvent.textLines :=
    map_flatMap
  rw [completeLines, newline, (Utf8.splitOn_textOf _).1, dropLast_concat, splitOn_bytesOf,
    dropLast_append_of_ne_nil (splitOn_ne_nil _ _), map_append, hlines]

theorem textOf_prefix {start bytes : List UInt8} (hstart : start <+: bytes) :
    Utf8.textOf start <+: Utf8.textOf bytes := by
  obtain ⟨rest, rfl⟩ := hstart
  rw [Utf8.textOf_append]
  exact prefix_append _ _

theorem head?_textOf_bytesOf : (Utf8.textOf (bytesOf events)).head? ≠ some 0xfeff := by
  cases events with
  | nil => exact nofun
  | cons event rest =>
    have hfirst : ∃ line lines, event.allLines = line :: lines ∧ (Utf8.decode line).head? ≠ some 0xfeff := by
      rw [LogEvent.allLines]
      cases hlines : event.lines with
      | nil =>
        refine ⟨event.blank, [], rfl, ?_⟩
        rcases event.hblank with hblank | hblank
        · rw [hblank]
          decide
        · rw [hblank]
          decide
      | cons line lines =>
        exact ⟨line, lines ++ [event.blank], rfl, (event.hlines line (by rw [hlines]; exact mem_cons_self)).2.2⟩
    obtain ⟨line, lines, hall, hhead⟩ := hfirst
    rw [bytesOf, flatMap_cons, LogEvent.bytes, hall, flatMap_cons, append_assoc, append_assoc,
      singleton_append, Utf8.textOf, Utf8.decodeFrom_newline]
    cases hdec : Utf8.decode line with
    | nil =>
      change some (0x0a : UInt16) ≠ some 0xfeff
      decide
    | cons unit units =>
      rw [hdec] at hhead
      exact hhead

end

theorem readable_bytesOf {events : List LogEvent} (hfits : ∀ event ∈ events, event.Fits maxEventBytes) :
    Readable maxEventBytes (bytesOf events) := by
  refine ⟨fun start hstart => ?_, fun start hstart => ?_, ?_⟩
  · obtain ⟨rest, hrest⟩ := textOf_prefix hstart
    have hhead := head?_textOf_bytesOf events
    rw [← hrest] at hhead
    intro hmark
    rw [head?_append, hmark] at hhead
    exact hhead rfl
  · obtain ⟨rest, hrest⟩ := hstart
    have hpiec : bytesOf events = bytesOf events ++ [] := (append_nil _).symm
    obtain ⟨piece, hpiece, hstart⟩ := getLast?_prefix_piece (0x0a : UInt8) start rest
    rw [hrest, hpiec, splitOn_bytesOf] at hpiece
    have hlast : lastPiece start = Utf8.textOf ((start.splitOn 0x0a).getLast?.getD []) := by
      rw [lastPiece, newline, (Utf8.splitOn_textOf start).1, getLast?_concat]
      rfl
    rw [hlast]
    rcases mem_append.mp hpiece with hline | hempty
    · obtain ⟨event, hevent, hmem⟩ := mem_flatMap.mp hline
      exact (hfits event hevent).2 piece hmem _ hstart
    · rw [splitOn_nil, mem_singleton] at hempty
      rw [hempty, prefix_nil] at hstart
      rw [hstart]
      exact Nat.zero_le _
  · have hlines := completeLines_bytesOf events []
    rw [append_nil, splitOn_nil, dropLast_singleton, map_nil, append_nil] at hlines
    rw [hlines, readLines_events hfits]
    rfl

variable {σ : Type*} {call : σ → Call → σ}

/-- **Reading a stream that breaks in an event**: the calls of the whole events, then those of the part. -/
theorem consumeSseStream_part {events : List LogEvent} (hfits : ∀ event ∈ events, event.Fits maxEventBytes)
    {stream : Stream} {part : List UInt8} (hstr : stream.chunks.flatten = bytesOf events ++ part)
    (hreadab : Readable maxEventBytes stream.chunks.flatten) {cut : List Call}
    (hcut : cutCalls maxEventBytes part stream.ending = some cut) (sink : σ) :
    consumeSseStream call maxEventBytes sink stream =
      (((events.flatMap fun event => event.calls maxEventBytes) ++ cut).foldl call sink, match stream.ending with
        | .dropped => .dropped
        | .clean => .ended) := by
  obtain ⟨pending, calls, hread, hcon⟩ := consumeSseStream_eq call sink hreadab
  rw [hcon]
  rw [hstr, completeLines_bytesOf, readLines_append, readLines_events hfits, bind_some] at hread
  obtain ⟨step, hstep, heq⟩ := map_eq_some_iff.mp hread
  obtain ⟨rfl, rfl⟩ := Prod.mk.inj heq
  rw [cutCalls, hstep, bind_some] at hcut
  cases hend : stream.ending with
  | dropped =>
    rw [hend] at hcut
    obtain rfl := Option.some.inj hcut
    rfl
  | clean =>
    rw [hend] at hcut
    have hlast : (stream.chunks.flatten.splitOn 0x0a).getLast?.getD [] = (part.splitOn 0x0a).getLast?.getD [] := by
      rw [hstr, splitOn_bytesOf, getLast?_append_of_ne_nil _ (splitOn_ne_nil _ _)]
    obtain ⟨last, hfin, rfl⟩ := map_eq_some_iff.mp hcut
    dsimp only
    rw [hlast, processLines_eq hfin]
    dsimp only
    rw [← foldl_append, ← foldl_append]
    simp only [append_assoc]

end StreamBytes

/-! ### Positions in the log -/

/-- The number of whole events in some bytes of them, and the bytes of the next one. -/
def locate : List LogEvent → Nat → Nat × Nat
  | [], _ => (0, 0)
  | event :: rest, size =>
    if size < event.bytes.length then (0, size)
    else ((locate rest (size - event.bytes.length)).1 + 1, (locate rest (size - event.bytes.length)).2)

/-- The bytes of the event that some bytes of the log break in. -/
def partOf (events : List LogEvent) (size : Nat) : List UInt8 :=
  match events[(locate events size).1]? with
  | some event => event.bytes.take (locate events size).2
  | none => []

theorem take_bytesOf (events : List LogEvent) (size : Nat) :
    (bytesOf events).take size = bytesOf (events.take (locate events size).1) ++ partOf events size := by
  induction events generalizing size with
  | nil => exact take_nil
  | cons event rest ih =>
    rw [partOf, locate]
    split_ifs with hsize
    · rw [bytesOf, flatMap_cons, take_append_of_le_length (Nat.le_of_lt hsize)]
      rfl
    · have hrest := ih (size - event.bytes.length)
      rw [partOf] at hrest
      dsimp only
      rw [bytesOf, flatMap_cons, take_append, take_of_length_le (Nat.le_of_not_lt hsize), ← bytesOf,
        hrest, take_succ_cons, getElem?_cons_succ, bytesOf, bytesOf, flatMap_cons, append_assoc]

/-- The events behind the one with the id; without an id all of them. -/
def replay (log : List LogEvent) : Option JsStr → List LogEvent
  | none => log
  | some id => (log.dropWhile fun event => event.id ≠ id).drop 1

/-- The id of the last event before a position. -/
def idBefore (log : List LogEvent) (position : Nat) : Option JsStr :=
  (log.take position).getLast?.map LogEvent.id

theorem replay_idBefore {log : List LogEvent} (hids : (log.map LogEvent.id).Nodup) {position : Nat}
    (hpos : position ≤ log.length) : replay log (idBefore log position) = log.drop position := by
  cases position with
  | zero => rfl
  | succ position =>
    have hlt : position < log.length := hpos
    have hlast : idBefore log (position + 1) = some log[position].id := by
      rw [idBefore, take_succ_eq_append_getElem hlt, getLast?_concat]
      rfl
    have hother : ∀ event ∈ log.take position, event.id ≠ log[position].id := by
      intro event hevent heq
      obtain ⟨index, hindex, rfl⟩ := getElem_of_mem hevent
      rw [length_take] at hindex
      rw [getElem_take] at heq
      have hindexMap : index < (log.map LogEvent.id).length := by
        rw [length_map]
        omega
      have hpositionMap : position < (log.map LogEvent.id).length := by rwa [length_map]
      have hinj := @List.Nodup.getElem_inj_iff _ _ hids index hindexMap position hpositionMap
      rw [getElem_map, getElem_map] at hinj
      have hsame : index = position := hinj.mp heq
      omega
    have hbef : (log.dropWhile fun event => event.id ≠ log[position].id) = log.drop position := by
      generalize hid : log[position].id = id at hother
      calc log.dropWhile (fun event => event.id ≠ id)
        _ = (log.take position ++ log.drop position).dropWhile (fun event => event.id ≠ id) := by
          rw [take_append_drop]
        _ = (log.drop position).dropWhile (fun event => event.id ≠ id) :=
          dropWhile_append_of_pos fun event hevent => by simpa using hother event hevent
        _ = log.drop position := by
          rw [drop_eq_getElem_cons hlt, dropWhile_cons_of_neg (by simpa using hid)]
    rw [hlast, replay, hbef, drop_drop]

/-- An attempt to open a stream: the server sends that many bytes of the replay in some chunks and the stream ends, or
it sends none. -/
inductive Attempt where
  | stream (size : Nat) (sizes : List Nat) (ending : Ending) (stayedUp : Bool)
  | refused (retryable : Bool)
  | notOffered
  | closed

def chunked : List Nat → List UInt8 → List (List UInt8)
  | [], bytes => [bytes]
  | size :: sizes, bytes => bytes.take size :: chunked sizes (bytes.drop size)

theorem flatten_chunked (sizes : List Nat) (bytes : List UInt8) : (chunked sizes bytes).flatten = bytes := by
  induction sizes generalizing bytes with
  | nil => exact flatten_singleton
  | cons size sizes ih => rw [chunked, flatten_cons, ih, take_append_drop]

/-- What the server of the log answers to an attempt with that id. -/
def serve (log : List LogEvent) (lastEventId : Option JsStr) : Attempt → Opening
  | .stream size sizes ending stayedUp =>
    .stream ⟨chunked sizes ((bytesOf (replay log lastEventId)).take size), ending⟩ stayedUp
  | .refused retryable => .refused retryable
  | .notOffered => .notOffered
  | .closed => .closed

section Runs

variable [JsonText.NumberText]

def messagesOf (calls : List Call) : List Json :=
  calls.filterMap fun
    | .onEvent event => messageOf event
    | _ => none

/-- The messages of the events of a log. -/
def messages (maxEventBytes : Nat) (log : List LogEvent) : List Json :=
  log.flatMap fun event => messagesOf (event.calls maxEventBytes)

/-- The position in the log behind an attempt, when its stream breaks harmlessly: what was received of the broken
event calls back nothing that counts, and the event is sent again, or the id and the message of the whole event, and
it is not. -/
def advance (maxEventBytes : Nat) (log : List LogEvent) (position : Nat) : Attempt → Option Nat
  | .stream size _ ending _ =>
    let events := log.drop position
    let whole := (locate events size).1
    match events[whole]? with
    | none => some (position + whole)
    | some event =>
      match cutCalls maxEventBytes (event.bytes.take (locate events size).2) ending with
      | none => none
      | some cut =>
        if idsOf cut = [] ∧ messagesOf cut = [] then some (position + whole)
        else if idsOf cut = [event.id] ∧ messagesOf cut = messagesOf (event.calls maxEventBytes) then
          some (position + whole + 1)
        else none
  | _ => some position

/-- The position behind some attempts, when all their breaks are harmless. -/
def follow (maxEventBytes : Nat) (log : List LogEvent) (position : Nat) (attempts : List Attempt) : Option Nat :=
  attempts.foldlM (advance maxEventBytes log) position

/-! ### Sinks -/

section Sinks

variable {requestId : Option Json}

theorem foldl_call (sink : Sink) (calls : List Call) :
    (calls.foldl (Sink.call requestId) sink).emitted = sink.emitted ++ messagesOf calls ∧
      (calls.foldl (Sink.call requestId) sink).cursor.lastEventId =
        (idsOf calls).getLast?.or sink.cursor.lastEventId ∧
      ((calls.foldl (Sink.call requestId) sink).answered = true →
        sink.answered = true ∨ ∃ message ∈ messagesOf calls, answers requestId message = true) := by
  induction calls generalizing sink with
  | nil => exact ⟨(append_nil _).symm, rfl, .inl⟩
  | cons call rest ih =>
    obtain ⟨hemit, hcur, hans⟩ := ih (sink.call requestId call)
    rw [foldl_cons]
    cases call with
    | onId id =>
      refine ⟨hemit, hcur.trans ?_, hans⟩
      have hids : idsOf (.onId id :: rest) = id :: idsOf rest := rfl
      rw [hids, getLast?_cons]
      cases (idsOf rest).getLast? <;> rfl
    | onRetry delayMs => exact ⟨hemit, hcur, hans⟩
    | onEvent event =>
      have hids : idsOf (.onEvent event :: rest) = idsOf rest := rfl
      cases hmsg : messageOf event with
      | none =>
        have hmsgs : messagesOf (.onEvent event :: rest) = messagesOf rest := by
          simp only [messagesOf, filterMap_cons, hmsg]
        simp only [Sink.call, hmsg] at hemit hcur hans ⊢
        rw [hmsgs, hids]
        exact ⟨hemit, hcur, hans⟩
      | some message =>
        have hmsgs : messagesOf (.onEvent event :: rest) = message :: messagesOf rest := by
          simp only [messagesOf, filterMap_cons, hmsg]
        simp only [Sink.call, hmsg] at hemit hcur hans ⊢
        rw [hmsgs, hids]
        refine ⟨?_, hcur, fun hlater => ?_⟩
        · rw [hemit, append_assoc, singleton_append]
        · rcases hans hlater with hbef | ⟨other, hother, hansw⟩
          · rw [Bool.or_eq_true] at hbef
            rcases hbef with hbef | hthis
            · exact .inl hbef
            · exact .inr ⟨message, mem_cons_self, hthis⟩
          · exact .inr ⟨other, mem_cons_of_mem _ hother, hansw⟩

/-- The sink has taken the events before a position, and the cursor is at the last of them. -/
structure At (maxEventBytes : Nat) (log : List LogEvent) (requestId : Option Json) (position : Nat) (sink : Sink) :
    Prop where
  le : position ≤ log.length
  emitted : sink.emitted = messages maxEventBytes (log.take position)
  cursor : sink.cursor.lastEventId = idBefore log position
  answered : sink.answered = true → ∃ message ∈ sink.emitted, answers requestId message = true

variable {maxEventBytes position : Nat} {log : List LogEvent} {sink : Sink}

theorem At.calls (hat : At maxEventBytes log requestId position sink) {count : Nat}
    (hcount : count ≤ (log.drop position).length) {calls : List Call}
    (hids : idsOf calls = ((log.drop position).take count).map LogEvent.id)
    (hmsgs : messagesOf calls = messages maxEventBytes ((log.drop position).take count)) :
    At maxEventBytes log requestId (position + count) (calls.foldl (Sink.call requestId) sink) := by
  obtain ⟨hemit, hcur, hans⟩ := @foldl_call _ requestId sink calls
  have htake : log.take (position + count) = log.take position ++ (log.drop position).take count := take_add
  refine ⟨?_, ?_, ?_, fun hafter => ?_⟩
  · have hle := hat.le
    rw [length_drop] at hcount
    omega
  · rw [hemit, hat.emitted, hmsgs, htake, messages, messages, messages, flatMap_append]
  · rw [hcur, hids, hat.cursor, idBefore, idBefore, htake, getLast?_append, getLast?_map]
    cases ((log.drop position).take count).getLast? <;> rfl
  · rw [hemit]
    rcases hans hafter with hbef | ⟨message, hmsg, hansw⟩
    · obtain ⟨message, hmsg, hansw⟩ := hat.answered hbef
      exact ⟨message, mem_append_left _ hmsg, hansw⟩
    · exact ⟨message, mem_append_right _ hmsg, hansw⟩

omit [JsonText.NumberText] in
theorem locate_le (events : List LogEvent) (size : Nat) : (locate events size).1 ≤ events.length := by
  induction events generalizing size with
  | nil => exact Nat.le_refl _
  | cons event rest ih =>
    rw [locate]
    split_ifs
    · exact Nat.zero_le _
    · exact Nat.succ_le_succ (ih _)

omit [JsonText.NumberText] in
theorem idsOf_flatMap {events : List LogEvent} (hfits : ∀ event ∈ events, event.Fits maxEventBytes) :
    idsOf (events.flatMap fun event => event.calls maxEventBytes) = events.map LogEvent.id := by
  induction events with
  | nil => rfl
  | cons event rest ih =>
    rw [flatMap_cons, idsOf, filterMap_append, ← idsOf, ← idsOf,
      idsOf_calls (hfits event mem_cons_self), ih fun other hother => hfits other (mem_cons_of_mem _ hother)]
    rfl

theorem messagesOf_flatMap (events : List LogEvent) :
    messagesOf (events.flatMap fun event => event.calls maxEventBytes) = messages maxEventBytes events := by
  rw [messagesOf, filterMap_flatMap]
  rfl

/-- **A stream that breaks harmlessly** takes the events up to the position from which the next one goes on. -/
theorem consumeSse_at {options : Options} (hids : (log.map LogEvent.id).Nodup)
    (hfits : ∀ event ∈ log, event.Fits options.maxMessageBytes)
    (hat : At options.maxMessageBytes log requestId position sink) {size : Nat} {sizes : List Nat} {ending : Ending}
    {stayedUp : Bool} {next : Nat}
    (hadv : advance options.maxMessageBytes log position (.stream size sizes ending stayedUp) = some next) :
    At options.maxMessageBytes log requestId next (consumeSse options requestId sink
        ⟨chunked sizes ((bytesOf (replay log sink.cursor.lastEventId)).take size), ending⟩).1 ∧
      (consumeSse options requestId sink
        ⟨chunked sizes ((bytesOf (replay log sink.cursor.lastEventId)).take size), ending⟩).2 ≠ .exceeded := by
  rw [hat.cursor, replay_idBefore hids hat.le]
  have heven : ∀ event ∈ log.drop position, event.Fits options.maxMessageBytes := fun event hevent =>
    hfits event (mem_of_mem_drop hevent)
  have hle := locate_le (log.drop position) size
  have hwhole : ∀ event ∈ (log.drop position).take (locate (log.drop position) size).1,
      event.Fits options.maxMessageBytes := fun event hevent => heven event (mem_of_mem_take hevent)
  have hbytes := take_bytesOf (log.drop position) size
  have hreadab : Readable options.maxMessageBytes
      (chunked sizes ((bytesOf (log.drop position)).take size)).flatten := by
    rw [flatten_chunked]
    exact (readable_bytesOf heven).start ( take_prefix _ _)
  rw [advance] at hadv
  rw [partOf] at hbytes
  generalize locate (log.drop position) size = located at hadv hle hwhole hbytes
  obtain ⟨whole, offset⟩ := located
  dsimp only at hadv hle hwhole hbytes
  have hcon {part : List UInt8} {cut : List Call}
      (hpart : (bytesOf (log.drop position)).take size = bytesOf ((log.drop position).take whole) ++ part)
      (hcut : cutCalls options.maxMessageBytes part ending = some cut) :=
    @consumeSseStream_part options.maxMessageBytes _ (Sink.call requestId) _ hwhole
      ⟨chunked sizes ((bytesOf (log.drop position)).take size), ending⟩ part ((flatten_chunked _ _).trans hpart)
      hreadab cut hcut sink
  have hout : (match ending with
      | .dropped => Outcome.dropped
      | .clean => Outcome.ended) ≠ .exceeded := by
    cases ending <;> exact nofun
  cases hevent : (log.drop position)[whole]? with
  | none =>
    rw [hevent] at hadv hbytes
    obtain rfl := Option.some.inj hadv
    have hcut : cutCalls options.maxMessageBytes [] ending = some [] := by cases ending <;> rfl
    rw [consumeSse, hcon hbytes hcut, append_nil]
    exact ⟨hat.calls hle (idsOf_flatMap hwhole) (messagesOf_flatMap _), hout⟩
  | some event =>
    rw [hevent] at hadv hbytes
    dsimp only at hadv hbytes
    cases hcut : cutCalls options.maxMessageBytes (event.bytes.take offset) ending with
    | none =>
      rw [hcut] at hadv
      exact nomatch hadv
    | some cut =>
      rw [hcut] at hadv
      dsimp only at hadv
      rw [consumeSse, hcon hbytes hcut]
      refine ⟨?_, hout⟩
      have hcutIds (events : List LogEvent) (hfit : ∀ event ∈ events, event.Fits options.maxMessageBytes) :
          idsOf ((events.flatMap fun event => event.calls options.maxMessageBytes) ++ cut) =
            events.map LogEvent.id ++ idsOf cut := by
        rw [idsOf, filterMap_append, ← idsOf, ← idsOf, idsOf_flatMap hfit]
      have hcutMessages (events : List LogEvent) :
          messagesOf ((events.flatMap fun event => event.calls options.maxMessageBytes) ++ cut) =
            messages options.maxMessageBytes events ++ messagesOf cut := by
        rw [messagesOf, filterMap_append, ← messagesOf, ← messagesOf, messagesOf_flatMap]
      split_ifs at hadv with hnot hall
      · obtain rfl := Option.some.inj hadv
        refine hat.calls hle ?_ ?_
        · rw [hcutIds _ hwhole, hnot.1, append_nil]
        · rw [hcutMessages, hnot.2, append_nil]
      · obtain rfl := Option.some.inj hadv
        obtain ⟨hlt, hget⟩ := List.getElem?_eq_some_iff.mp hevent
        have htake : (log.drop position).take (whole + 1) = (log.drop position).take whole ++ [event] := by
          rw [take_succ_eq_append_getElem hlt, hget]
        rw [Nat.add_assoc]
        refine hat.calls hlt ?_ ?_
        · rw [hcutIds _ hwhole, hall.1, htake, map_append]
          rfl
        · rw [hcutMessages, hall.2, htake, messages, messages, flatMap_append, flatMap_singleton]

end Sinks

end Runs

end PiRp.Mcp.Streams
