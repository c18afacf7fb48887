import PiRp.EventRun
import PiRp.JsText
import PiRp.PrioritySemaphore

/-! `RequestGateway`: requests to model providers, gated by a semaphore for each provider. A request is a state
machine of its own: it acquires, it calls the model runtime, and it releases when the call has ended. -/

namespace PiRp.Gateway

/-- The limits, as whole numbers. -/
structure RequestGatewayConfig where
  providers : JsStr → Option ℤ
  defaultMaxConcurrency : Option ℤ

variable (config : RequestGatewayConfig)

/-- `none` stands for `Infinity`: unset and nonpositive limits gate nothing. -/
def maxConcurrencyFor (providerId : JsStr) : Option ℕ :=
  match (config.providers providerId).or config.defaultMaxConcurrency with
  | none => none
  | some max => if max ≤ 0 then none else some max.toNat

/-- An entry's closures settle the promise of the request with its number. -/
abbrev QueuedAcquire (P : Type*) := Waiter P

structure PerProviderGate (P : Type*) where
  active : ℤ
  max : Option ℕ
  queue : List (QueuedAcquire P)

/-- The promise of an `acquire`. -/
inductive Acquired
  | pending
  | resolved
  | rejected
  deriving DecidableEq

inductive Kind
  | streamed
  | completed
  deriving DecidableEq

/-- How far a request is: `settling` is a stream that has been forwarded and waits for `result()`. -/
inductive Phase
  | acquiring (promise : Acquired)
  | calling
  | settling
  | ended
  deriving DecidableEq

structure Request (P : Type*) where
  kind : Kind
  provider : JsStr
  priority : P
  signal : Option ℕ
  phase : Phase

/-- What happened to the slots, for the statements only: the gates know no requests. -/
inductive Slot
  | acquired (request : ℕ)
  | released (request : ℕ)
  deriving DecidableEq

/-- The gateway with the requests in flight. A request is numbered by its arrival. -/
structure RequestGateway (P : Type*) where
  gates : JsStr → Option (PerProviderGate P)
  requests : List (Request P)
  /-- the signals that are aborted -/
  aborted : List ℕ
  /-- the `onAbort` listeners, as signal and request, in the order of their registration -/
  listeners : List (ℕ × ℕ)
  log : List Slot

def RequestGateway.start (P : Type*) : RequestGateway P :=
  { gates := fun _ => none, requests := [], aborted := [], listeners := [], log := [] }

variable {P : Type*}

section Steps

variable (state : RequestGateway P)

def RequestGateway.gateFor (providerId : JsStr) : PerProviderGate P :=
  (state.gates providerId).getD { active := 0, max := maxConcurrencyFor config providerId, queue := [] }

def RequestGateway.setGate (providerId : JsStr) (gate : PerProviderGate P) : RequestGateway P :=
  { state with gates := Function.update state.gates providerId (some gate) }

def RequestGateway.setPhase (request : ℕ) (phase : Phase) : RequestGateway P :=
  { state with requests := state.requests.modify request fun r => { r with phase := phase } }

/-- A promise settles once. -/
def RequestGateway.settle (request : ℕ) (promise : Acquired) : RequestGateway P :=
  { state with requests := state.requests.modify request fun r =>
      if r.phase = .acquiring .pending then { r with phase := .acquiring promise } else r }

/-- The listener that a queued request registers on its signal. -/
def listenerOf (r : Request P) (request : ℕ) : List (ℕ × ℕ) :=
  match r.signal with
  | none => []
  | some signal => [(signal, request)]

variable [LinearOrder P]

/-- `acquire` by a new request, which joins the others with the promise that it returns. -/
def acquire (r : Request P) : RequestGateway P :=
  let request := state.requests.length
  let gate := state.gateFor config r.provider
  let join (promise : Acquired) (state : RequestGateway P) : RequestGateway P :=
    { state with requests := state.requests ++ [{ r with phase := .acquiring promise }] }
  match gate.max with
  | none => join .resolved (state.setGate r.provider gate)
  | some max =>
    if r.signal.any state.aborted.contains then join .rejected (state.setGate r.provider gate)
    else if gate.active < max then
      join .resolved
        { state.setGate r.provider { gate with active := gate.active + 1 } with
          log := state.log ++ [.acquired request] }
    else
      let entry : QueuedAcquire P := { priority := r.priority, arrival := request }
      let queue := insertBefore (fun e => e.priority < r.priority) entry gate.queue
      join .pending
        { state.setGate r.provider { gate with queue := queue } with
          listeners := state.listeners ++ listenerOf r request }

omit [LinearOrder P] in
/-- `release` by a request: the slot goes to the first in the queue, and the counter stays. -/
def release (request : ℕ) (r : Request P) : RequestGateway P :=
  let gate := state.gateFor config r.provider
  match gate.max with
  | none => state
  | some _ =>
    match gate.queue with
    | [] =>
      { state.setGate r.provider { gate with active := gate.active - 1 } with
        log := state.log ++ [.released request] }
    | entry :: queue =>
      { (state.setGate r.provider { gate with queue := queue }).settle entry.arrival .resolved with
        listeners := state.listeners.filter fun listener => listener.2 ≠ entry.arrival
        log := state.log ++ [.released request, .acquired entry.arrival] }

omit [LinearOrder P] in
/-- `onAbort` of a request that was queued. -/
def onAbort (request : ℕ) : RequestGateway P :=
  match state.requests[request]? with
  | none => state
  | some r =>
    let gate := state.gateFor config r.provider
    let queue := gate.queue.eraseP (·.arrival = request)
    (state.setGate r.provider { gate with queue := queue }).settle request .rejected

omit [LinearOrder P] in
/-- The `abort` event of a signal, dispatched to its listeners. -/
def abort (signal : ℕ) : RequestGateway P :=
  if state.aborted.contains signal then state
  else
    let fired := (state.listeners.filter (·.1 = signal)).map (·.2)
    fired.foldl (onAbort config)
      { state with aborted := signal :: state.aborted, listeners := state.listeners.filter (·.1 ≠ signal) }

omit [LinearOrder P] in
/-- What follows the `await` of `acquire`: the call of the model runtime, unless the request was aborted. -/
def resume (request : ℕ) (throws : Bool) : RequestGateway P :=
  match state.requests[request]? with
  | none => state
  | some r =>
    match r.phase with
    | .acquiring .rejected => state.setPhase request .ended
    | .acquiring .resolved =>
      if throws then
        match r.kind with
        -- the call stands before the iterator that releases
        | .streamed => state.setPhase request .ended
        | .completed => (release config state request r).setPhase request .ended
      else state.setPhase request .calling
    | _ => state

omit [LinearOrder P] in
/-- The end of a call, in the `finally`: of the iteration of a stream, or of a completion. -/
def callEnds (request : ℕ) (fails : Bool) : RequestGateway P :=
  match state.requests[request]? with
  | none => state
  | some r =>
    if r.phase = .calling then
      (release config state request r).setPhase request
        (if r.kind = .streamed ∧ fails = false then .settling else .ended)
    else state

omit [LinearOrder P] in
/-- The `result()` of a stream that has been forwarded. -/
def resultSettles (request : ℕ) : RequestGateway P :=
  match state.requests[request]? with
  | none => state
  | some r => if r.phase = .settling then state.setPhase request .ended else state

end Steps

inductive Event (P : Type*)
  /-- `streamSimple` or `completeSimple`, with the priority of its identity -/
  | request (kind : Kind) (provider : JsStr) (priority : Option P) (signal : Option ℕ)
  | abort (signal : ℕ)
  | resume (request : ℕ) (throws : Bool)
  | callEnds (request : ℕ) (fails : Bool)
  | resultSettles (request : ℕ)

def step [LinearOrder P] [Zero P] (state : RequestGateway P) : Event P → RequestGateway P
  | .request kind provider priority signal =>
    acquire config state
      { kind := kind, provider := provider, priority := priority.getD 0, signal := signal,
        phase := .acquiring .pending }
  | .abort signal => abort config state signal
  | .resume request throws => resume config state request throws
  | .callEnds request fails => callEnds config state request fails
  | .resultSettles request => resultSettles state request

end PiRp.Gateway
