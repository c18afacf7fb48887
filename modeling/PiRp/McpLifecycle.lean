import PiRp.EventRun
import PiRp.McpClient

/-! The life of a protocol client over a whole run. Every request is settled once, and none is pending when the
client is closed. A client that is closed stays closed as long as no `connect` takes the end of its last send for
a connection that is still there. -/

namespace PiRp.Mcp

open List JsMap

variable {client : McpClient} {id : JsonRpcId} {entry : PendingRequest} {settlement : Settlement}

/-- A response settles the request with its id. -/
def Settlement.Answers (id : JsonRpcId) : Settlement → Prop
  | .resolved response _ | .errored response => response = id
  | .sendFailed | .aborted | .timedOut | .closed => True

namespace McpClient

def settledIds (client : McpClient) : List JsonRpcId := client.settled.map Prod.fst

def Issued (client : McpClient) (id : JsonRpcId) : Prop :=
  ∃ number : Nat, 1 ≤ number ∧ number < client.nextRequestId ∧ id = .number number

/-- Every request that has been issued is pending or has been settled, and never both. -/
structure Ledger (client : McpClient) : Prop where
  positive : 1 ≤ client.nextRequestId
  issued : ∀ id, client.Issued id ↔ client.pending.has id = true ∨ id ∈ client.settledIds
  apart : ∀ id ∈ client.settledIds, client.pending.get? id = none
  once : client.settledIds.Nodup
  answers : ∀ entry ∈ client.settled, entry.2.Answers entry.1

/-- A client that is closed has no pending request. -/
def Drained (client : McpClient) : Prop := client.state = .closed → ∀ id, client.pending.get? id = none

namespace Ledger

theorem initial : McpClient.initial.Ledger where
  positive := le_refl 1
  issued id := by
    refine ⟨?_, ?_⟩
    · rintro ⟨number, hone, hnext, _⟩
      exact absurd hnext (Nat.not_lt.mpr hone)
    · rintro (hhas | hsett)
      · exact absurd hhas Bool.false_ne_true
      · exact absurd hsett not_mem_nil
  apart _ hid := absurd hid not_mem_nil
  once := nodup_nil
  answers _ hentry := absurd hentry not_mem_nil

theorem of_eq (hledg : client.Ledger) {next : McpClient} (hpend : next.pending = client.pending)
    (hsett : next.settled = client.settled) (hnext : next.nextRequestId = client.nextRequestId) : next.Ledger := by
  obtain ⟨hpos, hiss, hapart, honce, hans⟩ := hledg
  refine ⟨?_, ?_, ?_, ?_, ?_⟩
  · rw [hnext]
    exact hpos
  · intro id
    unfold Issued settledIds
    rw [hnext, hpend, hsett]
    exact hiss id
  · unfold settledIds
    rw [hpend, hsett]
    exact hapart
  · unfold settledIds
    rw [hsett]
    exact honce
  · rw [hsett]
    exact hans

theorem settle (hledg : client.Ledger) (hget : client.pending.get? id = some entry)
    (hans : settlement.Answers id) : (client.settle id entry settlement).Ledger := by
  have hids : (client.settle id entry settlement).settledIds = client.settledIds ++ [id] := map_append
  have hpend : ∀ other, (client.settle id entry settlement).pending.get? other =
      if other = id then none else client.pending.get? other := get?_delete client.pending id
  refine ⟨hledg.positive, fun other => ?_, fun other hother => ?_, ?_, ?_⟩
  · show client.Issued other ↔ _
    rw [hledg.issued, hids, mem_append, mem_singleton, has, has, hpend]
    by_cases hid : other = id
    · rw [if_pos hid, hid, hget]
      simp
    · rw [if_neg hid]
      simp [hid]
  · rw [hpend]
    split_ifs with hid
    · rfl
    · rw [hids, mem_append, mem_singleton] at hother
      exact hledg.apart other (hother.resolve_right hid)
  · rw [hids]
    refine nodup_append'.mpr ⟨hledg.once, nodup_singleton id, ?_⟩
    refine disjoint_singleton.mpr fun hid => ?_
    cases (hledg.apart id hid).symm.trans hget
  · intro found hfound
    rcases mem_append.mp hfound with hold | hnew
    · exact hledg.answers found hold
    · rw [mem_singleton.mp hnew]
      exact hans

theorem settleAll (hans : ∀ id, settlement.Answers id) (entries : List (JsonRpcId × PendingRequest))
    (hnodup : (entries.map Prod.fst).Nodup) (hledg : client.Ledger)
    (hin : ∀ entry ∈ entries, client.pending.get? entry.1 = some entry.2) :
    (entries.foldl (fun client entry => client.settle entry.1 entry.2 settlement) client).Ledger ∧
      ∀ id, (entries.foldl (fun client entry => client.settle entry.1 entry.2 settlement) client).pending.get? id =
        if id ∈ entries.map Prod.fst then none else client.pending.get? id := by
  induction entries generalizing client with
  | nil => exact ⟨hledg, fun id => (if_neg not_mem_nil).symm⟩
  | cons first entries ih =>
    rw [map_cons, nodup_cons] at hnodup
    have hfirst := hin first mem_cons_self
    have hpend : ∀ other, (client.settle first.1 first.2 settlement).pending.get? other =
        if other = first.1 then none else client.pending.get? other := get?_delete client.pending first.1
    have hrest : ∀ entry ∈ entries,
        (client.settle first.1 first.2 settlement).pending.get? entry.1 = some entry.2 := by
      intro entry hentry
      rw [hpend, if_neg]
      · exact hin entry (mem_cons_of_mem _ hentry)
      · intro hsame
        exact hnodup.1 (hsame ▸ mem_map_of_mem hentry)
    obtain ⟨hdone, hleft⟩ := ih hnodup.2 (hledg.settle hfirst (hans _)) hrest
    refine ⟨hdone, fun id => (hleft id).trans ?_⟩
    simp only [hpend, map_cons, mem_cons]
    by_cases hid : id = first.1
    · simp only [hid, if_true, true_or, ite_self]
    · simp only [hid, if_false, false_or]

theorem rejectPending (hledg : client.Ledger) (hans : ∀ id, settlement.Answers id) :
    (client.rejectPending settlement).Ledger ∧ ∀ id, (client.rejectPending settlement).pending.get? id = none := by
  obtain ⟨hdone, hleft⟩ := settleAll hans client.pending.entries client.pending.nodup hledg
    fun entry hentry => JsMap.get?_eq_some.mpr hentry
  refine ⟨hdone, fun id => (hleft id).trans ?_⟩
  split_ifs with hid
  · rfl
  · exact JsMap.get?_eq_none.mpr (Bool.eq_false_iff.mpr fun hhas => hid (JsMap.has_iff.mp hhas))

end Ledger

theorem rejectPending_eq (client : McpClient) (settlement : Settlement) : ∃ pending progressRequests settled,
    client.rejectPending settlement = { client with pending, progressRequests, settled } := by
  unfold rejectPending
  generalize client.pending.entries = entries
  induction entries generalizing client with
  | nil => exact ⟨_, _, _, rfl⟩
  | cons first entries ih => exact ih (client.settle first.1 first.2 settlement)

/-- The ledger is right, nothing is pending when the client is closed, and the close listeners have been run as
often as it has been closed. -/
structure Sound (client : McpClient) : Prop where
  ledger : client.Ledger
  drained : client.Drained
  notices : client.closeNotices = if client.state = .closed then 1 else 0

namespace Sound

theorem initial : McpClient.initial.Sound := ⟨.initial, nofun, rfl⟩

variable (hsound : client.Sound)

include hsound

theorem of_eq {next : McpClient} (hpend : next.pending = client.pending)
    (hsett : next.settled = client.settled) (hnext : next.nextRequestId = client.nextRequestId)
    (hstate : next.state = client.state) (hnot : next.closeNotices = client.closeNotices) : next.Sound := by
  refine ⟨hsound.ledger.of_eq hpend hsett hnext, ?_, ?_⟩
  · unfold Drained
    rw [hstate, hpend]
    exact hsound.drained
  · rw [hstate, hnot]
    exact hsound.notices

theorem of_open (hopen : client.state ≠ .closed) {next : McpClient}
    (hpend : next.pending = client.pending) (hsett : next.settled = client.settled)
    (hnext : next.nextRequestId = client.nextRequestId) (hstate : next.state ≠ .closed)
    (hnot : next.closeNotices = client.closeNotices) : next.Sound := by
  refine ⟨hsound.ledger.of_eq hpend hsett hnext, fun hclos => absurd hclos hstate, ?_⟩
  rw [hnot, hsound.notices, if_neg hopen, if_neg hstate]

theorem settle (hget : client.pending.get? id = some entry)
    (hans : settlement.Answers id) : (client.settle id entry settlement).Sound := by
  refine ⟨hsound.ledger.settle hget hans, fun hclos => ?_, hsound.notices⟩
  cases (hsound.drained hclos id).symm.trans hget

theorem markClosed : client.markClosed.Sound := by
  have hclosing : { client with state := .closed }.Ledger := hsound.ledger.of_eq rfl rfl rfl
  have hans : ∀ id, Settlement.closed.Answers id := fun _ => trivial
  obtain ⟨hledg, hnone⟩ := hclosing.rejectPending hans
  obtain ⟨pending, progressRequests, settled, heq⟩ :=
    rejectPending_eq { client with state := .closed } .closed
  refine ⟨hledg.of_eq rfl rfl rfl, fun _ => hnone, ?_⟩
  have hstate : client.markClosed.state = .closed := by
    show ({ client with state := .closed }.rejectPending .closed).state = .closed
    rw [heq]
  rw [hstate, if_pos rfl]
  show (if client.state = .closed then client.closeNotices else client.closeNotices + 1) = 1
  rw [hsound.notices]
  split_ifs
  · rfl
  · rfl

theorem issue (hopen : client.state ≠ .closed) (entry : PendingRequest)
    {progressRequests : JsMap JsonRpcId JsonRpcId} {sent : List Outgoing} : ({ client with
      nextRequestId := client.nextRequestId + 1
      pending := client.pending.set (.number client.nextRequestId) entry
      progressRequests
      sent } : McpClient).Sound := by
  have hledg := hsound.ledger
  have hnew : ¬client.Issued (.number client.nextRequestId) := by
    rintro ⟨number, _, hnum, hsame⟩
    rw [JsonRpcId.number.injEq, Int.ofNat_inj] at hsame
    omega
  rw [hledg.issued, not_or] at hnew
  refine ⟨⟨Nat.le_succ_of_le hledg.positive, fun other => ?_, fun other hother => ?_, hledg.once,
    hledg.answers⟩, fun hclos => absurd hclos hopen, hsound.notices⟩
  · show _ ↔ (client.pending.set (.number client.nextRequestId) entry).has other = true ∨ other ∈ client.settledIds
    rw [has_set, or_assoc, ← hledg.issued]
    constructor
    · rintro ⟨number, hnum, hlt, rfl⟩
      rcases Nat.lt_succ_iff_lt_or_eq.mp hlt with hold | heq
      · exact .inr ⟨number, hnum, hold, rfl⟩
      · exact .inl (by rw [heq])
    · rintro (rfl | ⟨number, hnum, hlt, rfl⟩)
      · exact ⟨client.nextRequestId, hledg.positive, Nat.lt_succ_self _, rfl⟩
      · exact ⟨number, hnum, Nat.lt_succ_of_lt hlt, rfl⟩
  · show (client.pending.set (.number client.nextRequestId) entry).get? other = none
    have hsett : other ∈ client.settledIds := hother
    rw [get?_set, if_neg]
    · exact hledg.apart other hsett
    · rintro rfl
      exact hnew.2 hsett

theorem arm (id : JsonRpcId) : ({ client with pending := client.pending.modify id armTimeout } : McpClient).Sound := by
  have hpend : ∀ other, (client.pending.modify id armTimeout).get? other = none ↔
      client.pending.get? other = none := by
    intro other
    rw [get?_modify]
    split_ifs with hid
    · rw [Option.map_eq_none_iff, hid]
    · rfl
  have hhas : ∀ other, (client.pending.modify id armTimeout).has other = client.pending.has other := by
    intro other
    rw [Bool.eq_iff_iff, ← not_iff_not, Bool.not_eq_true, Bool.not_eq_true, ← get?_eq_none, ← get?_eq_none, hpend]
  refine ⟨{ hsound.ledger with issued := fun other => ?_, apart := fun other hother => ?_ }, fun hclos other => ?_,
    hsound.notices⟩
  · show _ ↔ (client.pending.modify id armTimeout).has other = true ∨ _
    rw [hhas]
    exact hsound.ledger.issued other
  · exact (hpend other).mpr (hsound.ledger.apart other hother)
  · exact (hpend other).mpr (hsound.drained hclos other)

end Sound

/-! ### Steps -/

/-- What a step is made of. -/
inductive Moves : McpClient → McpClient → Prop
  | quiet {client next : McpClient} (hpend : next.pending = client.pending) (hsett : next.settled = client.settled)
      (hnext : next.nextRequestId = client.nextRequestId) (hstate : next.state = client.state)
      (hnot : next.closeNotices = client.closeNotices)
      (hcon : next.connects.count true = client.connects.count true) : Moves client next
  | opened {client next : McpClient} (hopen : client.state ≠ .closed) (hpend : next.pending = client.pending)
      (hsett : next.settled = client.settled) (hnext : next.nextRequestId = client.nextRequestId)
      (hstate : next.state ≠ .closed) (hnot : next.closeNotices = client.closeNotices) : Moves client next
  | issued {client : McpClient} (hopen : client.state ≠ .closed) (entry : PendingRequest)
      (progressRequests : JsMap JsonRpcId JsonRpcId) (sent : List Outgoing) : Moves client { client with
        nextRequestId := client.nextRequestId + 1
        pending := client.pending.set (.number client.nextRequestId) entry
        progressRequests
        sent }
  | armed (client : McpClient) (id : JsonRpcId) :
      Moves client { client with pending := client.pending.modify id armTimeout }
  | settled {client : McpClient} {id : JsonRpcId} {entry : PendingRequest} {settlement : Settlement}
      (hget : client.pending.get? id = some entry) (hans : settlement.Answers id) :
      Moves client (client.settle id entry settlement)
  | closed (client : McpClient) : Moves client client.markClosed
  | trans {client between next : McpClient} (hfirst : Moves client between) (hsecond : Moves between next) :
      Moves client next

namespace Moves

theorem refl (client : McpClient) : Moves client client := .quiet rfl rfl rfl rfl rfl rfl

theorem sound {next : McpClient} (hmoves : Moves client next) (hsound : client.Sound) : next.Sound := by
  induction hmoves with
  | quiet hpend hsett hnext hstate hnot _ => exact hsound.of_eq hpend hsett hnext hstate hnot
  | opened hopen hpend hsett hnext hstate hnot => exact hsound.of_open hopen hpend hsett hnext hstate hnot
  | issued hopen entry => exact hsound.issue hopen entry
  | armed _ id => exact hsound.arm id
  | settled hget hans => exact hsound.settle hget hans
  | closed => exact hsound.markClosed
  | trans _ _ ihfirst ihsecond => exact ihsecond (ihfirst hsound)

theorem close (client : McpClient) : Moves client client.close := by
  refine trans ?_ (closed { client with transport := false, listening := false })
  exact quiet rfl rfl rfl rfl rfl rfl

theorem failConnect (client : McpClient) : Moves client client.failConnect :=
  (close client).trans (.quiet rfl rfl rfl rfl rfl rfl)

theorem cancelPending (hans : settlement.Answers id) (notifyServer : Bool) :
    Moves client (client.cancelPending id settlement notifyServer) := by
  unfold McpClient.cancelPending
  split
  · exact refl client
  · next entry hget =>
    dsimp only
    split_ifs
    · exact (settled hget hans).trans (.quiet rfl rfl rfl rfl rfl rfl)
    · exact settled hget hans

theorem requestInternal {options : RequestOptions} {allowConnecting cancellable : Bool} {requested : McpClient}
    (hreq : client.requestInternal options allowConnecting cancellable = some requested) :
    Moves client requested := by
  unfold McpClient.requestInternal at hreq
  rw [Option.ite_none_left_eq_some, Option.ite_none_left_eq_some, Bool.not_eq_true, Bool.not_eq_false'] at hreq
  obtain ⟨htrans, -, hreq⟩ := hreq
  obtain rfl := Option.some.inj hreq
  refine issued (fun hclos => ?_) ..
  rw [hasTransport, hclos] at htrans
  simp at htrans

end Moves

end McpClient

/-- The send that ends the handshake does not succeed after the client has been closed. -/
def Event.Timely (client : McpClient) : Event → Prop
  | .notified success => success = true → client.handshake = some .notifying → client.state ≠ .closed
  | _ => True

namespace McpClient

theorem moves_step {event : Event} (htim : event.Timely client) : Moves client (step client event) := by
  cases event with
  | connect =>
    show Moves client client.connect
    unfold connect
    split_ifs with hidle
    · exact .quiet rfl rfl rfl rfl rfl (count_append ..)
    · rw [not_not] at hidle
      exact .opened (by rw [hidle]; exact nofun) rfl rfl rfl nofun rfl
  | transportStarted started timed =>
    show Moves client (client.transportStarted started timed)
    unfold transportStarted
    split
    · split_ifs
      · split
        · exact .failConnect client
        · next requested hreq => exact (Moves.requestInternal hreq).trans (.quiet rfl rfl rfl rfl rfl rfl)
      · exact .failConnect client
    · exact .refl client
  | initialized =>
    show Moves client client.initialized
    unfold initialized
    split
    · split
      · exact .refl client
      · split
        · exact .failConnect client
        · dsimp only
          split_ifs
          · exact .quiet rfl rfl rfl rfl rfl rfl
          · refine .trans ?_ (.failConnect _)
            exact .quiet rfl rfl rfl rfl rfl rfl
          · exact .failConnect client
      · exact .failConnect client
    · exact .refl client
  | notified success =>
    show Moves client (client.notified success)
    unfold notified
    split
    · next hshake =>
      split_ifs with hsuc
      · exact .opened (htim hsuc hshake) rfl rfl rfl nofun rfl
      · exact .failConnect client
    · exact .refl client
  | rejectConnect =>
    show Moves client client.rejectConnect
    unfold rejectConnect
    split
    · exact .quiet rfl rfl rfl rfl rfl (count_append ..)
    · exact .refl client
  | request options =>
    show Moves client (client.request options)
    unfold request
    cases hreq : client.requestInternal options false true with
    | none => exact .refl client
    | some requested => exact .requestInternal hreq
  | notify =>
    show Moves client client.notify
    unfold notify
    split_ifs
    · exact .quiet rfl rfl rfl rfl rfl rfl
    · exact .refl client
  | close => exact .close client
  | transportClose =>
    show Moves client client.handleTransportClose
    unfold handleTransportClose
    split_ifs
    · exact .closed client
    · exact .refl client
  | response id result =>
    show Moves client (client.handleResponse id result)
    unfold handleResponse
    split_ifs
    · split
      · exact .refl client
      · next entry hget =>
        refine .settled hget ?_
        split
        · rfl
        · rfl
    · exact .refl client
  | serverRequest id handler =>
    show Moves client (client.handleRequest id handler)
    unfold handleRequest
    split_ifs
    · exact .quiet rfl rfl rfl rfl rfl rfl
    · exact .quiet rfl rfl rfl rfl rfl rfl
    · exact .refl client
  | requestHandled id => exact .quiet rfl rfl rfl rfl rfl rfl
  | progress progressToken =>
    show Moves client (client.handleProgress progressToken)
    unfold handleProgress
    split_ifs
    · split
      · exact .refl client
      · next id _ => exact .armed client id
    · exact .refl client
  | cancelled id => exact .refl client
  | timeout id =>
    show Moves client (client.timeout id)
    unfold timeout
    split
    · exact .refl client
    · split_ifs
      · exact .cancelPending (show Settlement.Answers id .timedOut from trivial) _
      · exact .refl client
  | abort id =>
    show Moves client (client.abort id)
    unfold abort
    split
    · exact .refl client
    · split_ifs
      · exact .cancelPending (show Settlement.Answers id .aborted from trivial) _
      · exact .refl client
  | sendFailed id => exact .cancelPending (show Settlement.Answers id .sendFailed from trivial) false

theorem Sound.step (hsound : client.Sound) {event : Event} (htim : event.Timely client) : (step client event).Sound :=
  (moves_step htim).sound hsound

/-! ### Closed clients -/

/-- No call of `connect` has been resolved, and the client is closed if it was. -/
def StaysClosed (client next : McpClient) : Prop :=
  client.state = .closed → next.state = .closed ∧ next.connects.count true = client.connects.count true

theorem staysClosed_markClosed (client : McpClient) : client.StaysClosed client.markClosed := by
  obtain ⟨_, _, _, heq⟩ := rejectPending_eq { client with state := .closed } .closed
  intro _
  show ({ client with state := .closed }.rejectPending .closed).state = .closed ∧
    ({ client with state := .closed }.rejectPending .closed).connects.count true = client.connects.count true
  rw [heq]
  exact ⟨rfl, rfl⟩

theorem Moves.staysClosed {next : McpClient} (hmoves : Moves client next) : client.StaysClosed next := by
  induction hmoves with
  | quiet _ _ _ hstate _ hcon => exact fun hclos => ⟨hstate.trans hclos, hcon⟩
  | opened hopen => exact fun hclos => absurd hclos hopen
  | issued hopen => exact fun hclos => absurd hclos hopen
  | armed => exact fun hclos => ⟨hclos, rfl⟩
  | settled => exact fun hclos => ⟨hclos, rfl⟩
  | closed client => exact staysClosed_markClosed client
  | trans _ _ ihfirst ihsecond =>
    intro hclos
    obtain ⟨hbetween, hcon⟩ := ihfirst hclos
    exact ⟨(ihsecond hbetween).1, (ihsecond hbetween).2.trans hcon⟩

theorem StaysClosed.step (client : McpClient) {event : Event} (htim : event.Timely client) :
    client.StaysClosed (step client event) :=
  (moves_step htim).staysClosed

end McpClient

theorem sound_run {events : List Event} (hall : AllowedRun step Event.Timely .initial events) : (run events).Sound :=
  hall.invariant (fun _ _ hsound htim => hsound.step htim) .initial

theorem timely_of_staysClosed {event : Event} (hstays : client.StaysClosed (step client event)) :
    event.Timely client := by
  cases event with
  | notified success =>
    rintro rfl hshake hclos
    have hstate : (step client (.notified true)).state = .connected := by
      show (client.notified true).state = .connected
      rw [McpClient.notified, hshake]
      rfl
    exact absurd (hstate.symm.trans (hstays hclos).1) nofun
  | connect | transportStarted _ _ | initialized | rejectConnect | request _ | notify | close
  | transportClose | response _ _ | serverRequest _ _ | requestHandled _ | progress _ | cancelled _
  | timeout _ | abort _ | sendFailed _ => trivial

/-- Every step of a run keeps a closed client closed and its requests and close listeners in order, just when no
step ends the handshake of a client that has been closed. -/
theorem client_lifecycle (events : List Event) : (∀ before event after, events = before ++ event :: after →
      (run before).StaysClosed (step (run before) event) ∧ (step (run before) event).Sound) ↔
      AllowedRun step Event.Timely .initial events := by
  rw [allowedRun_iff]
  constructor
  · intro hlife before event after hsplit
    exact timely_of_staysClosed (hlife before event after hsplit).1
  · intro htim before event after hsplit
    have hevent := htim before event after hsplit
    refine ⟨.step _ hevent, ?_⟩
    have hbef : AllowedRun step Event.Timely .initial before := by
      rw [allowedRun_iff]
      rintro earlier other between rfl
      exact htim earlier other (between ++ event :: after) (by rw [hsplit, append_assoc, cons_append])
    exact (sound_run hbef).step hevent

section Sample

def sampleResult : Json := .object
  [(js "protocolVersion", .string (js "2025-11-25")), (js "capabilities", .object []),
    (js "serverInfo", .object [(js "name", .string (js "s")), (js "version", .string (js "1"))])]

/-- The transport closes while the last send of the handshake is in flight; the send then succeeds. -/
def resurrectedEvents : List Event :=
  [.connect, .transportStarted true true, .response (.number 1) (some sampleResult), .initialized, .transportClose,
    .notified true, .close]

/-- The client is closed, then connected, then closed again, and its close listeners are run twice. -/
theorem client_resurrected : (run (resurrectedEvents.take 5)).state = .closed ∧
    (run (resurrectedEvents.take 6)).state = .connected ∧ (run (resurrectedEvents.take 6)).connects = [true] ∧
    (run resurrectedEvents).state = .closed ∧ (run resurrectedEvents).closeNotices = 2 := by
  decide +kernel

end Sample

end PiRp.Mcp
