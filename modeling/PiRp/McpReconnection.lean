import PiRp.McpResumption

/-! The two loops that reopen a broken stream. While every break is harmless, the messages that they emit are those of
the log from its start, and each turn that leaves a loop open goes on where the last stream stopped. -/

namespace PiRp.Mcp.Streams

open Sse

section Reconnection

variable [JsonText.NumberText] {options : Options} {log : List LogEvent} {requestId : Option Json}

/-- The loop has taken the events up to a position, the last one while it is open. -/
structure Resumed (maxEventBytes : Nat) (log : List LogEvent) (requestId : Option Json) (position : Nat) (loop : Loop) :
    Prop where
  taken : ∃ reached ≤ position, At maxEventBytes log requestId reached loop.sink ∧
    (loop.status = .open → reached = position) ∧ (loop.status = .noId → reached = 0)
  answered : loop.status = .answered → loop.sink.answered = true

variable {maxEventBytes position : Nat}

theorem At.received {sink : Sink} (hat : At maxEventBytes log requestId position sink) (received : Bool) :
    At maxEventBytes log requestId position { sink with cursor := { sink.cursor with received } } :=
  { hat with }

theorem position_of_noId {sink : Sink}
    (hat : At maxEventBytes log requestId position sink) (hnone : sink.cursor.lastEventId = none) : position = 0 := by
  rw [hat.cursor, idBefore, Option.map_eq_none_iff, List.getLast?_eq_none_iff, List.take_eq_nil_iff] at hnone
  rcases hnone with hzero | hempty
  · exact hzero
  · have hle := hat.le
    rw [hempty] at hle
    exact Nat.le_zero.mp hle

theorem advance_le {next : Nat} {attempt : Attempt}
    (hadv : advance maxEventBytes log position attempt = some next) : position ≤ next := by
  cases attempt with
  | stream size sizes ending stayedUp =>
    simp only [advance] at hadv
    split at hadv
    · obtain rfl := Option.some.inj hadv
      exact Nat.le_add_right _ _
    · split at hadv
      · cases hadv
      · split_ifs at hadv
        · obtain rfl := Option.some.inj hadv
          exact Nat.le_add_right _ _
        · obtain rfl := Option.some.inj hadv
          omega
  | _ => exact Nat.le_of_eq (Option.some.inj hadv)

/-! ### Turns -/

theorem checkResponse_resumed (loop : Loop) {outcome : Outcome}
    (hat : At options.maxMessageBytes log requestId position loop.sink) (hopen : loop.status = .open)
    (hout : outcome ≠ .exceeded) :
    Resumed options.maxMessageBytes log requestId position (checkResponse options loop outcome) ∧
      (checkResponse options loop outcome).status ≠ .failed := by
  rw [checkResponse, if_neg hout]
  by_cases hans : loop.sink.answered = true
  · rw [if_pos hans]
    exact ⟨⟨⟨position, Nat.le_refl _, hat, nofun, nofun⟩, fun _ => hans⟩, nofun⟩
  rw [if_neg hans]
  by_cases hnone : loop.sink.cursor.lastEventId = none
  · rw [if_pos hnone]
    exact ⟨⟨⟨position, Nat.le_refl _, hat, nofun, fun _ => position_of_noId hat hnone⟩, nofun⟩, nofun⟩
  rw [if_neg hnone]
  by_cases hret : loop.attempt ≥ options.maxRetries
  · rw [if_pos hret]
    exact ⟨⟨⟨position, Nat.le_refl _, hat, nofun, nofun⟩, nofun⟩, nofun⟩
  rw [if_neg hret]
  refine ⟨⟨⟨position, Nat.le_refl _, hat.received false, fun _ => rfl, ?_⟩, ?_⟩, ?_⟩
  all_goals
    dsimp only
    rw [hopen]
    exact nofun

theorem reopenGet_resumed (loop : Loop)
    (hat : At options.maxMessageBytes log requestId position loop.sink) (hopen : loop.status = .open) :
    Resumed options.maxMessageBytes log requestId position (reopenGet options loop) ∧
      (reopenGet options loop).status ≠ .failed := by
  rw [reopenGet]
  dsimp only
  split_ifs
  · exact ⟨⟨⟨position, Nat.le_refl _, hat.received false, nofun, nofun⟩, nofun⟩, nofun⟩
  · refine ⟨⟨⟨position, Nat.le_refl _, hat.received false, fun _ => rfl, ?_⟩, ?_⟩, ?_⟩
    all_goals
      dsimp only
      rw [hopen]
      exact nofun

variable {loop : Loop}

theorem Resumed.mono {next : Nat} (hres : Resumed maxEventBytes log requestId position loop) (hle : position ≤ next)
    (hended : loop.status ≠ .open) : Resumed maxEventBytes log requestId next loop := by
  obtain ⟨⟨reached, hreac, hat, -, hnoId⟩, hans⟩ := hres
  exact ⟨⟨reached, hreac.trans hle, hat, fun hopen => absurd hopen hended, hnoId⟩, hans⟩

theorem Resumed.at_open (hres : Resumed maxEventBytes log requestId position loop) (hopen : loop.status = .open) :
    At maxEventBytes log requestId position loop.sink := by
  obtain ⟨reached, -, hat, hlast, -⟩ := hres.taken
  exact hlast hopen ▸ hat

theorem Resumed.end
    (hat : At maxEventBytes log requestId position loop.sink) {status : Status} (hclos : status ≠ .open)
    (hid : status ≠ .noId) (hansw : status ≠ .answered) :
    Resumed maxEventBytes log requestId position { loop with status } :=
  ⟨⟨position, Nat.le_refl _, hat, fun hopen => absurd hopen hclos, fun hnoId => absurd hnoId hid⟩,
    fun hans => absurd hans hansw⟩

section Turns

variable (hids : (log.map LogEvent.id).Nodup) (hfits : ∀ event ∈ log, event.Fits options.maxMessageBytes)

include hids hfits

/-- **One turn for a response**: after a harmless break the loop stands behind the events that were taken. -/
theorem responseTurn_resumed {request : Json} {position next : Nat} {loop : Loop} {attempt : Attempt}
    (hres : Resumed options.maxMessageBytes log (some request) position loop)
    (hadv : advance options.maxMessageBytes log position attempt = some next) :
    Resumed options.maxMessageBytes log (some request) next
        (responseTurn options request loop (serve log loop.sink.cursor.lastEventId attempt)) ∧
      ((responseTurn options request loop (serve log loop.sink.cursor.lastEventId attempt)).status = .failed →
        loop.status = .failed ∨ attempt = .refused false) := by
  rw [responseTurn.eq_def]
  by_cases hopen : loop.status = .open
  · rw [if_neg (not_not.mpr hopen)]
    have hat := hres.at_open hopen
    cases attempt with
    | stream size sizes ending stayedUp =>
      obtain ⟨hnext, hout⟩ := consumeSse_at hids hfits hat hadv
      obtain ⟨hcheck, hfail⟩ := checkResponse_resumed { loop with sink := _ } hnext hopen hout
      exact ⟨hcheck, fun hstat => absurd hstat hfail⟩
    | refused retryable =>
      obtain rfl := Option.some.inj hadv
      cases retryable with
      | true =>
        have hout : Outcome.ended ≠ .exceeded := nofun
        obtain ⟨hcheck, hfail⟩ := checkResponse_resumed loop hat hopen hout
        exact ⟨hcheck, fun hstat => absurd hstat hfail⟩
      | false => exact ⟨.end hat nofun nofun nofun, fun _ => .inr rfl⟩
    | notOffered =>
      obtain rfl := Option.some.inj hadv
      have hout : Outcome.ended ≠ .exceeded := nofun
      obtain ⟨hcheck, hfail⟩ := checkResponse_resumed loop hat hopen hout
      exact ⟨hcheck, fun hstat => absurd hstat hfail⟩
    | closed =>
      obtain rfl := Option.some.inj hadv
      exact ⟨.end hat nofun nofun nofun, nofun⟩
  · rw [if_pos hopen]
    exact ⟨hres.mono (advance_le hadv) hopen, .inl⟩

/-- **One turn of the stream from the server.** -/
theorem getTurn_resumed {position next : Nat} {loop : Loop} {attempt : Attempt}
    (hres : Resumed options.maxMessageBytes log none position loop)
    (hadv : advance options.maxMessageBytes log position attempt = some next) :
    Resumed options.maxMessageBytes log none next
        (getTurn options loop (serve log loop.sink.cursor.lastEventId attempt)) ∧
      ((getTurn options loop (serve log loop.sink.cursor.lastEventId attempt)).status = .failed →
        loop.status = .failed ∨ attempt = .refused false) := by
  rw [getTurn.eq_def]
  by_cases hopen : loop.status = .open
  · rw [if_neg (not_not.mpr hopen)]
    have hat := hres.at_open hopen
    cases attempt with
    | stream size sizes ending stayedUp =>
      obtain ⟨hnext, hout⟩ := consumeSse_at hids hfits hat hadv
      rw [serve]
      dsimp only
      generalize consumeSse options none loop.sink _ = result at hnext hout
      obtain ⟨sink, outcome⟩ := result
      cases outcome with
      | exceeded => exact absurd rfl hout
      | dropped =>
        obtain ⟨hreop, hfail⟩ := reopenGet_resumed { loop with sink } hnext hopen
        exact ⟨hreop, fun hstat => absurd hstat hfail⟩
      | ended =>
        obtain ⟨hreop, hfail⟩ := reopenGet_resumed
          { loop with sink, attempt := if sink.cursor.received || stayedUp then 0 else loop.attempt } hnext hopen
        exact ⟨hreop, fun hstat => absurd hstat hfail⟩
    | refused retryable =>
      obtain rfl := Option.some.inj hadv
      cases retryable with
      | true =>
        obtain ⟨hreop, hfail⟩ := reopenGet_resumed loop hat hopen
        exact ⟨hreop, fun hstat => absurd hstat hfail⟩
      | false => exact ⟨.end hat nofun nofun nofun, fun _ => .inr rfl⟩
    | notOffered =>
      obtain rfl := Option.some.inj hadv
      exact ⟨.end hat nofun nofun nofun, nofun⟩
    | closed =>
      obtain rfl := Option.some.inj hadv
      exact ⟨.end hat nofun nofun nofun, nofun⟩
  · rw [if_pos hopen]
    exact ⟨hres.mono (advance_le hadv) hopen, .inl⟩

end Turns

/-! ### Runs -/

theorem runLoop_resumed {turn : Loop → Opening → Loop}
    (hturn : ∀ {position next : Nat} {loop : Loop} {attempt : Attempt},
      Resumed options.maxMessageBytes log requestId position loop →
      advance options.maxMessageBytes log position attempt = some next →
      Resumed options.maxMessageBytes log requestId next
          (turn loop (serve log loop.sink.cursor.lastEventId attempt)) ∧
        ((turn loop (serve log loop.sink.cursor.lastEventId attempt)).status = .failed →
          loop.status = .failed ∨ attempt = .refused false))
    {attempts : List Attempt} {position last : Nat} {loop : Loop}
    (hres : Resumed options.maxMessageBytes log requestId position loop)
    (hfol : follow options.maxMessageBytes log position attempts = some last) :
    Resumed options.maxMessageBytes log requestId last (runLoop turn (serve log) loop attempts) ∧
      ((runLoop turn (serve log) loop attempts).status = .failed →
        loop.status = .failed ∨ .refused false ∈ attempts) := by
  induction attempts generalizing position loop with
  | nil =>
    obtain rfl := Option.some.inj hfol
    exact ⟨hres, .inl⟩
  | cons attempt rest ih =>
    rw [follow, List.foldlM_cons] at hfol
    obtain ⟨next, hadv, hrest⟩ := Option.bind_eq_some_iff.mp hfol
    obtain ⟨hnext, hfail⟩ := hturn hres hadv
    obtain ⟨hlast, hend⟩ := ih hnext hrest
    refine ⟨hlast, fun hstat => ?_⟩
    rcases hend hstat with htur | hlater
    · rcases hfail htur with hbef | rfl
      · exact .inl hbef
      · exact .inr List.mem_cons_self
    · exact .inr (List.mem_cons_of_mem _ hlater)

theorem resumed_start : Resumed maxEventBytes log requestId 0 startLoop :=
  ⟨⟨0, Nat.le_refl _, ⟨Nat.zero_le _, rfl, rfl, nofun⟩, fun _ => rfl, nofun⟩, nofun⟩

/-- What a loop has emitted behind some attempts: the messages of the log from its start, each once and in order, up
to the position of the attempts while it is open. It ends with the response, without retries, because a response
stream broke before its first event, or because an attempt is not retried. -/
def Delivered (maxEventBytes : Nat) (log : List LogEvent) (requestId : Option Json) (position : Nat)
    (attempts : List Attempt) (loop : Loop) : Prop :=
  (∃ reached ≤ position, loop.sink.emitted = messages maxEventBytes (log.take reached) ∧
    (loop.status = .open → reached = position) ∧ (loop.status = .noId → reached = 0)) ∧
  (loop.status = .answered → ∃ message ∈ loop.sink.emitted, answers requestId message = true) ∧
  (loop.status = .failed → .refused false ∈ attempts)

theorem Resumed.delivered {attempts : List Attempt} (hres : Resumed maxEventBytes log requestId position loop)
    (hfail : loop.status = .failed → .refused false ∈ attempts) :
    Delivered maxEventBytes log requestId position attempts loop := by
  obtain ⟨⟨reached, hreac, hat, hopen, hnoId⟩, hans⟩ := hres
  exact ⟨⟨reached, hreac, hat.emitted, hopen, hnoId⟩, fun hstat => hat.answered (hans hstat), hfail⟩

end Reconnection

section Samples

local instance : JsonText.NumberText := JsonText.decimalNumbers

def ascii (text : String) : List UInt8 := text.toList.map fun c => UInt8.ofNat c.toNat

/-- An event with an id that carries no message. -/
def primingEvent : LogEvent where
  lines := [ascii "id: 7"]
  blank := []
  id := js "7"
  hlines := by decide +kernel
  hblank := .inl rfl
  hid := by decide +kernel

/-- The response to the request 1. -/
def responseEvent : LogEvent where
  lines := [ascii "id: 8", ascii "data: \x7b\"jsonrpc\":\"2.0\",\"id\":1,\"result\":true\x7d"]
  blank := []
  id := js "8"
  hlines := by decide +kernel
  hblank := .inl rfl
  hid := by decide +kernel

def sampleLog : List LogEvent := [primingEvent, responseEvent]

def sampleOptions : Options := ⟨4096, 5⟩

theorem fits_of_inits {event : LogEvent} {maxEventBytes : Nat}
    (hread : (readLines maxEventBytes .empty event.textLines).isSome = true)
    (hstar : ∀ line ∈ event.allLines, ∀ start ∈ line.inits, byteLength (Utf8.textOf start) ≤ maxEventBytes) :
    event.Fits maxEventBytes :=
  ⟨hread, fun line hline start hstart => hstar line hline start (List.mem_inits _ _ |>.mpr hstart)⟩

theorem sampleLog_fits : ∀ event ∈ sampleLog, event.Fits sampleOptions.maxMessageBytes := by
  intro event hevent
  rcases List.mem_cons.mp hevent with rfl | hevent
  · exact fits_of_inits (by decide +kernel) (by decide +kernel)
  · obtain rfl := List.mem_singleton.mp hevent
    exact fits_of_inits (by decide +kernel) (by decide +kernel)

end Samples

end PiRp.Mcp.Streams
