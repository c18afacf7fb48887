import PiRp.RequestGateway

/-! What the gateway's gates promise: each provider's gate follows a semaphore with its limit, as long as no call of
`streamSimple` throws after its request has a slot. -/

namespace PiRp.Gateway

open List Option Function

variable {P : Type*}

/-! ### What a gate sees of the requests -/

/-- Where a request stands for its gate. -/
inductive Place
  | waiting
  | inside
  | outside

def Phase.place : Phase → Place
  | .acquiring .pending => .waiting
  | .acquiring .resolved | .calling => .inside
  | _ => .outside

variable (config : RequestGatewayConfig) (state : RequestGateway P)

/-- The requests to a provider, with their priorities and places. -/
def RequestGateway.view (providerId : JsStr) (request : ℕ) : Option (P × Place) :=
  match state.requests[request]? with
  | none => none
  | some r => if providerId = r.provider then some (r.priority, r.phase.place) else none

/-- A request that has acquired a slot and not released it. -/
def RequestGateway.holds (providerId : JsStr) (request : ℕ) : Bool :=
  (state.requests[request]?).any (·.provider = providerId) &&
    state.log.contains (.acquired request) && !state.log.contains (.released request)

def RequestGateway.holders (providerId : JsStr) : Finset ℕ :=
  (Finset.range state.requests.length).filter fun request => state.holds providerId request

/-- A request whose `acquire` has not settled. -/
def RequestGateway.waits (providerId : JsStr) (waiter : Waiter P) : Prop :=
  state.view providerId waiter.arrival = some (waiter.priority, .waiting)

section Following

variable [LinearOrder P]

/-- The gate does what the semaphore does, and the requests stand where the semaphore has them. -/
structure Follows {limit : ℕ} (gate : PerProviderGate P) (view : ℕ → Option (P × Place))
    (semaphore : Semaphore P limit) : Prop where
  max : gate.max = some limit
  active : gate.active = semaphore.holders.card
  queue : gate.queue = semaphore.queue
  inside : ∀ request, request ∈ semaphore.holders ↔ ∃ priority, view request = some (priority, .inside)
  waits : ∀ waiter, waiter ∈ semaphore.queue ↔ view waiter.arrival = some (waiter.priority, .waiting)

namespace Follows

variable {limit : ℕ} {gate : PerProviderGate P} {view : ℕ → Option (P × Place)} {semaphore : Semaphore P limit}

variable {request : ℕ}

section

variable (follows : Follows gate view semaphore)

include follows

theorem notMem_of_none (hnone : view request = none) : request ∉ semaphore.holders := by
  rw [follows.inside, hnone]
  rintro ⟨priority, h⟩
  cases h

theorem enter (priority : P) (hnone : view request = none) (hfree : semaphore.holders.card < limit) :
    Follows { gate with active := gate.active + 1 } (Function.update view request (some (priority, .inside)))
      (semaphore.enter request hfree) where
  max := follows.max
  active := by
    show gate.active + 1 = ((insert request semaphore.holders).card : ℤ)
    rw [Finset.card_insert_of_notMem (follows.notMem_of_none hnone), follows.active]
    push_cast
    rfl
  queue := by
    show gate.queue = []
    rw [follows.queue, semaphore.queue_eq_nil hfree]
  inside := by
    intro other
    show other ∈ insert request semaphore.holders ↔ _
    rw [Finset.mem_insert, follows.inside]
    by_cases heq : other = request
    · subst heq
      exact iff_of_true (Or.inl rfl) ⟨priority, update_self ..⟩
    · rw [update_of_ne heq, or_iff_right heq]
  waits := by
    intro waiter
    refine iff_of_false not_mem_nil fun h => ?_
    by_cases heq : waiter.arrival = request
    · rw [heq, update_self] at h
      cases h
    · rw [update_of_ne heq, ← follows.waits, semaphore.queue_eq_nil hfree] at h
      exact not_mem_nil h

theorem wait (waiter : Waiter P) (hnone : view waiter.arrival = none) (hfull : semaphore.holders.card = limit)
    (hlast : ∀ other ∈ semaphore.queue, other.arrival < waiter.arrival) :
    Follows { gate with queue := insertBefore (fun e => e.priority < waiter.priority) waiter gate.queue }
      (Function.update view waiter.arrival (some (waiter.priority, .waiting)))
      (semaphore.wait waiter hfull hlast (follows.notMem_of_none hnone)) where
  max := follows.max
  active := follows.active
  queue := by
    show insertBefore _ waiter gate.queue = insertBefore _ waiter semaphore.queue
    rw [follows.queue]
  inside := by
    intro other
    show other ∈ semaphore.holders ↔ _
    rw [follows.inside]
    by_cases heq : other = waiter.arrival
    · rw [heq, update_self, hnone]
      refine iff_of_false ?_ ?_ <;> rintro ⟨priority, h⟩ <;> cases h
    · rw [update_of_ne heq]
  waits := by
    intro other
    show other ∈ insertBefore _ waiter semaphore.queue ↔ _
    rw [(insertBefore_perm _ waiter semaphore.queue).mem_iff, mem_cons, follows.waits]
    by_cases heq : other.arrival = waiter.arrival
    · rw [heq, update_self, hnone]
      constructor
      · rintro (rfl | h)
        · rfl
        · cases h
      · intro h
        obtain ⟨hprior, -⟩ := Prod.mk.inj (Option.some.inj h)
        refine Or.inl ?_
        cases other
        cases waiter
        exact Waiter.mk.injEq .. |>.mpr ⟨hprior.symm, heq⟩
    · rw [update_of_ne heq, or_iff_right fun h => heq (congrArg Waiter.arrival h)]

theorem stay (priority : P) (hplace : ∀ priority place, view request = some (priority, place) → place = .outside) :
    Follows gate (Function.update view request (some (priority, .outside))) semaphore where
  max := follows.max
  active := follows.active
  queue := follows.queue
  inside := by
    intro other
    rw [follows.inside]
    by_cases heq : other = request
    · rw [heq, update_self]
      refine iff_of_false ?_ ?_
      · rintro ⟨priority, h⟩
        cases hplace priority .inside h
      · rintro ⟨priority, h⟩
        cases h
    · rw [update_of_ne heq]
  waits := by
    intro waiter
    rw [follows.waits]
    by_cases heq : waiter.arrival = request
    · rw [heq, update_self]
      refine iff_of_false (fun h => ?_) (fun h => ?_)
      · cases hplace waiter.priority .waiting h
      · cases h
    · rw [update_of_ne heq]

end

variable {priority : P}

variable (follows : Follows gate view semaphore)

include follows

theorem withdraw (hwaits : view request = some (priority, .waiting)) :
    Follows { gate with queue := gate.queue.eraseP (·.arrival = request) }
      (Function.update view request (some (priority, .outside))) (semaphore.withdraw request) where
  max := follows.max
  active := follows.active
  queue := by
    show gate.queue.eraseP _ = semaphore.queue.eraseP _
    rw [follows.queue]
  inside := by
    intro other
    show other ∈ semaphore.holders ↔ _
    rw [follows.inside]
    by_cases heq : other = request
    · rw [heq, update_self, hwaits]
      refine iff_of_false ?_ ?_ <;> rintro ⟨priority, h⟩ <;> cases h
    · rw [update_of_ne heq]
  waits := by
    intro waiter
    rw [semaphore.mem_withdraw, follows.waits]
    by_cases heq : waiter.arrival = request
    · rw [heq, update_self]
      exact iff_of_false (fun h => h.2 rfl) (fun h => by cases h)
    · rw [update_of_ne heq, and_iff_left heq]

theorem leave (hins : view request = some (priority, .inside)) (hqueue : gate.queue = []) :
    Follows { gate with active := gate.active - 1 }
      (Function.update view request (some (priority, .outside))) (semaphore.leave request) where
  max := follows.max
  active := by
    have hmem : request ∈ semaphore.holders := (follows.inside request).mpr ⟨priority, hins⟩
    show gate.active - 1 = ((semaphore.holders.erase request).card : ℤ)
    rw [follows.active, ← Finset.card_erase_add_one hmem]
    push_cast
    exact Int.add_sub_cancel ..
  queue := hqueue
  inside := by
    intro other
    show other ∈ semaphore.holders.erase request ↔ _
    rw [Finset.mem_erase, follows.inside]
    by_cases heq : other = request
    · rw [heq, update_self]
      refine iff_of_false (fun h => h.1 rfl) ?_
      rintro ⟨priority, h⟩
      cases h
    · rw [update_of_ne heq, and_iff_right heq]
  waits := by
    intro waiter
    refine iff_of_false not_mem_nil fun h => ?_
    by_cases heq : waiter.arrival = request
    · rw [heq, update_self] at h
      cases h
    · rw [update_of_ne heq, ← follows.waits, ← follows.queue, hqueue] at h
      exact not_mem_nil h

theorem handOver (hins : view request = some (priority, .inside)) {first : Waiter P} {queue : List (Waiter P)}
    (hqueue : semaphore.queue = first :: queue) : Follows { gate with queue := queue }
      (Function.update (Function.update view first.arrival (some (first.priority, .inside))) request
        (some (priority, .outside)))
      (semaphore.handOver request first queue hqueue ((follows.inside request).mpr ⟨priority, hins⟩)) where
  max := follows.max
  active := by
    show gate.active = ((insert first.arrival (semaphore.holders.erase request)).card : ℤ)
    rw [semaphore.card_handOver ((follows.inside request).mpr ⟨priority, hins⟩) (hqueue ▸ mem_cons_self)]
    exact follows.active
  queue := rfl
  inside := by
    have hfirst := (follows.waits first).mp (hqueue ▸ mem_cons_self)
    have hne : first.arrival ≠ request := by
      intro heq
      rw [heq, hins] at hfirst
      cases hfirst
    intro other
    show other ∈ insert first.arrival (semaphore.holders.erase request) ↔ _
    rw [Finset.mem_insert, Finset.mem_erase, follows.inside]
    by_cases heq : other = request
    · rw [heq, update_self]
      refine iff_of_false (fun h => h.elim (fun h => hne h.symm) fun h => h.1 rfl) ?_
      rintro ⟨priority, h⟩
      cases h
    · rw [update_of_ne heq, and_iff_right heq]
      by_cases hsame : other = first.arrival
      · rw [hsame, update_self]
        exact iff_of_true (Or.inl rfl) ⟨first.priority, rfl⟩
      · rw [update_of_ne hsame, or_iff_right hsame]
  waits := by
    have hdist := semaphore.distinct
    rw [hqueue, map_cons] at hdist
    intro waiter
    have hmem := follows.waits waiter
    rw [hqueue, mem_cons] at hmem
    show waiter ∈ queue ↔ _
    by_cases heq : waiter.arrival = request
    · rw [heq, update_self]
      refine iff_of_false (fun h => ?_) (fun h => by cases h)
      have hwaits := hmem.mp (Or.inr h)
      rw [heq, hins] at hwaits
      cases (Prod.mk.inj (Option.some.inj hwaits)).2
    · rw [update_of_ne heq]
      by_cases hsame : waiter.arrival = first.arrival
      · rw [hsame, update_self]
        refine iff_of_false (fun h => ?_) (fun h => by cases (Prod.mk.inj (Option.some.inj h)).2)
        exact (nodup_cons.mp hdist).1 (hsame ▸ mem_map_of_mem h)
      · rw [update_of_ne hsame, ← hmem, or_iff_right fun h => hsame (congrArg Waiter.arrival h)]

end Follows

end Following

/-! ### What the steps change -/

section Views

variable {state}

theorem gateFor_setGate (providerId : JsStr) (gate : PerProviderGate P) (other : JsStr) :
    (state.setGate providerId gate).gateFor config other =
      if other = providerId then gate else state.gateFor config other := by
  show (Function.update state.gates providerId (some gate) other).getD _ = _
  rw [update_apply]
  split <;> rfl

variable {request : ℕ} {r : Request P}

section

variable (hr : state.requests[request]? = some r)

include hr

theorem view_of_request (providerId : JsStr) :
    state.view providerId request = if providerId = r.provider then some (r.priority, r.phase.place) else none := by
  rw [RequestGateway.view, hr]

omit hr in
theorem view_some {providerId : JsStr} {priority : P} {place : Place}
    (hview : state.view providerId request = some (priority, place)) :
    ∃ r, state.requests[request]? = some r ∧ providerId = r.provider ∧ r.priority = priority ∧
      r.phase.place = place := by
  rw [RequestGateway.view] at hview
  cases hr : state.requests[request]? with
  | none =>
    rw [hr] at hview
    cases hview
  | some r =>
    simp only [hr] at hview
    split at hview
    · cases hview
      exact ⟨r, rfl, ‹_›, rfl, rfl⟩
    · cases hview

theorem view_modify
    (change : Request P → Request P) (hprov : (change r).provider = r.provider)
    (hprior : (change r).priority = r.priority) (providerId : JsStr) :
    RequestGateway.view { state with requests := state.requests.modify request change } providerId =
      if providerId = r.provider then
        Function.update (state.view providerId) request (some (r.priority, (change r).phase.place))
      else state.view providerId := by
  funext other
  by_cases heq : other = request
  · subst heq
    have hmod : (state.requests.modify other change)[other]? = some (change r) := by
      rw [getElem?_modify_eq, hr]
      rfl
    rw [view_of_request hmod, hprov, hprior]
    split
    · rw [update_self]
    · rw [view_of_request hr, if_neg ‹_›]
  · have hmod : RequestGateway.view { state with requests := state.requests.modify request change }
        providerId other = state.view providerId other := by
      rw [RequestGateway.view, RequestGateway.view, getElem?_modify_ne change _ (Ne.symm heq)]
    rw [hmod]
    split
    · rw [update_of_ne heq]
    · rfl

theorem view_setPhase (phase : Phase) (providerId : JsStr) :
    (state.setPhase request phase).view providerId = if providerId = r.provider then
        Function.update (state.view providerId) request (some (r.priority, phase.place)) else state.view providerId :=
  view_modify hr (fun r => { r with phase := phase }) rfl rfl providerId

end

omit state in
theorem modify_eq {requests : List (Request P)} (hr : requests[request]? = some r)
    {change other : Request P → Request P} (heq : change r = other r) :
    requests.modify request change = requests.modify request other := by
  ext id q
  rw [getElem?_modify, getElem?_modify]
  by_cases hid : request = id
  · subst hid
    simp only [hr, Option.map_eq_map, map_some, if_pos, heq]
  · simp only [if_neg hid]

theorem settle_of_pending (hr : state.requests[request]? = some r)
    (hpend : r.phase = .acquiring .pending) (promise : Acquired) :
    state.settle request promise = state.setPhase request (.acquiring promise) := by
  exact congrArg (fun requests => ({ state with requests := requests } : RequestGateway P))
    (modify_eq hr (if_pos hpend))

theorem settle_of_settled (hr : state.requests[request]? = some r)
    (hsett : r.phase ≠ .acquiring .pending) (promise : Acquired) : state.settle request promise = state := by
  exact congrArg (fun requests => ({ state with requests := requests } : RequestGateway P))
    ((modify_eq hr (if_neg hsett)).trans (modify_id request state.requests))

theorem getElem?_join (r : Request P) (request : ℕ) : (state.requests ++ [r])[request]? =
      if request = state.requests.length then some r else state.requests[request]? := by
  split
  · rw [‹request = _›, getElem?_concat_length]
  · rcases lt_or_gt_of_ne ‹request ≠ _› with hlt | hgt
    · rw [getElem?_append_left hlt]
    · rw [getElem?_eq_none hgt.le, getElem?_eq_none]
      rw [length_append]
      exact hgt

theorem view_fresh (providerId : JsStr) : state.view providerId state.requests.length = none := by
  rw [RequestGateway.view, getElem?_eq_none le_rfl]

theorem view_join (r : Request P) (providerId : JsStr) :
    RequestGateway.view { state with requests := state.requests ++ [r] } providerId =
      if providerId = r.provider then
        Function.update (state.view providerId) state.requests.length (some (r.priority, r.phase.place))
      else state.view providerId := by
  funext request
  rw [RequestGateway.view, getElem?_join]
  by_cases heq : request = state.requests.length
  · subst heq
    rw [if_pos rfl]
    show (if _ then _ else _) = _
    split
    · rw [update_self]
    · rw [view_fresh]
  · rw [if_neg heq]
    show state.view providerId request = _
    split
    · rw [update_of_ne heq]
    · rfl

theorem getElem?_setPhase (hr : state.requests[request]? = some r) (phase : Phase) (other : ℕ) :
    (state.setPhase request phase).requests[other]? =
      if other = request then some { r with phase := phase } else state.requests[other]? := by
  rw [RequestGateway.setPhase]
  split
  · rw [‹other = request›, getElem?_modify_eq, hr]
    rfl
  · rw [getElem?_modify_ne _ _ (Ne.symm ‹other ≠ request›)]

end Views

/-- The state after a request has joined, with its gate and its slots as given. -/
def RequestGateway.joined (r : Request P) (gate : PerProviderGate P) (listeners : List (ℕ × ℕ)) (slots : List Slot)
    (promise : Acquired) : RequestGateway P :=
  { state.setGate r.provider gate with
    requests := state.requests ++ [{ r with phase := .acquiring promise }]
    listeners := listeners
    log := state.log ++ slots }

theorem acquire_cases [LinearOrder P] (r : Request P) : let gate := state.gateFor config r.provider
    gate.max = none ∧ acquire config state r = state.joined r gate state.listeners [] .resolved ∨
    ∃ limit, gate.max = some limit ∧
      (acquire config state r = state.joined r gate state.listeners [] .rejected ∨
        gate.active < limit ∧ acquire config state r =
          state.joined r { gate with active := gate.active + 1 } state.listeners
            [.acquired state.requests.length] .resolved ∨
        (limit : ℤ) ≤ gate.active ∧ acquire config state r =
          state.joined r
            { gate with
              queue := insertBefore (fun e => e.priority < r.priority) ⟨r.priority, state.requests.length⟩ gate.queue }
            (state.listeners ++ listenerOf r state.requests.length) [] .pending) := by
  intro gate
  cases hlimit : gate.max with
  | none =>
    refine Or.inl ⟨rfl, ?_⟩
    simp only [acquire, gate, hlimit, RequestGateway.joined, append_nil]
    rfl
  | some limit =>
    refine Or.inr ⟨limit, rfl, ?_⟩
    by_cases habor : r.signal.any state.aborted.contains
    · left
      simp only [acquire, gate, hlimit, RequestGateway.joined, append_nil, if_pos habor]
      rfl
    · by_cases hfree : gate.active < limit
      · refine Or.inr (Or.inl ⟨hfree, ?_⟩)
        simp only [acquire, gate, hlimit, RequestGateway.joined, if_neg habor, if_pos hfree]
        rfl
      · refine Or.inr (Or.inr ⟨not_lt.mp hfree, ?_⟩)
        simp only [acquire, gate, hlimit, RequestGateway.joined, append_nil, if_neg habor, if_neg hfree]
        rfl

theorem phase_of_waiting {phase : Phase} (h : phase.place = .waiting) : phase = .acquiring .pending := by
  unfold Phase.place at h
  split at h
  · rfl
  · cases h
  · cases h
  · cases h

variable {r : Request P}

theorem release_of_nil {request limit : ℕ} (hlimit : (state.gateFor config r.provider).max = some limit)
    (hqueue : (state.gateFor config r.provider).queue = []) : release config state request r =
      { state.setGate r.provider
          { state.gateFor config r.provider with active := (state.gateFor config r.provider).active - 1 } with
        log := state.log ++ [.released request] } := by
  simp only [release, hlimit, hqueue]

theorem release_of_cons {request limit : ℕ}
    (hlimit : (state.gateFor config r.provider).max = some limit) {entry : QueuedAcquire P}
    {queue : List (QueuedAcquire P)} (hqueue : (state.gateFor config r.provider).queue = entry :: queue)
    {q : Request P} (hq : state.requests[entry.arrival]? = some q) (hpend : q.phase = .acquiring .pending) :
    release config state request r =
      { (state.setGate r.provider { state.gateFor config r.provider with queue := queue }).setPhase entry.arrival
          (.acquiring .resolved) with
        listeners := state.listeners.filter fun listener => listener.2 ≠ entry.arrival
        log := state.log ++ [.released request, .acquired entry.arrival] } := by
  rw [← @settle_of_pending _ (state.setGate r.provider _) _ _ hq hpend]
  simp only [release, hlimit, hqueue]

/-! ### The invariant -/

/-- How often a request has acquired and released, by where it stands. -/
def Accounted : Option (Request P) → ℕ → ℕ → Prop
  | none, acquired, released => acquired = 0 ∧ released = 0
  | some r, acquired, released =>
    match r.phase.place with
    | .waiting => acquired = 0 ∧ released = 0
    | .inside => acquired = (if (maxConcurrencyFor config r.provider).isSome then 1 else 0) ∧ released = 0
    | .outside => released = acquired ∧ acquired ≤ 1

variable [LinearOrder P]

/-- Every limited provider's gate follows a semaphore with its limit, and the slots are accounted for. -/
structure Gated : Prop where
  max : ∀ providerId, (state.gateFor config providerId).max = maxConcurrencyFor config providerId
  follows : ∀ providerId limit, maxConcurrencyFor config providerId = some limit →
    ∃ semaphore : Semaphore P limit, Follows (state.gateFor config providerId) (state.view providerId) semaphore
  accounted : ∀ request, Accounted config state.requests[request]? (state.log.count (.acquired request))
    (state.log.count (.released request))

namespace Gated

variable {config state}

theorem start : Gated config (RequestGateway.start P) where
  max := fun _ => rfl
  follows := by
    intro providerId limit hlimit
    refine ⟨Semaphore.empty P limit, hlimit, rfl, rfl, fun request => ?_, fun waiter => ?_⟩
    · refine iff_of_false (Finset.notMem_empty request) ?_
      rintro ⟨priority, h⟩
      cases h
    · exact iff_of_false not_mem_nil (fun h => by cases h)
  accounted := fun _ => ⟨rfl, rfl⟩

theorem of_provider (gated : Gated config state) {next : RequestGateway P} {provider : JsStr}
    {gate : PerProviderGate P} {view : JsStr → ℕ → Option (P × Place)}
    (hgate : ∀ p, next.gateFor config p = if p = provider then gate else state.gateFor config p)
    (hview : ∀ p, next.view p = if p = provider then view p else state.view p)
    (hmax : gate.max = maxConcurrencyFor config provider)
    (hfol : ∀ limit, maxConcurrencyFor config provider = some limit →
      ∃ semaphore : Semaphore P limit, Follows gate (view provider) semaphore)
    (hacc : ∀ request, Accounted config next.requests[request]? (next.log.count (.acquired request))
      (next.log.count (.released request))) : Gated config next where
  max := by
    intro p
    rw [hgate]
    split
    · rw [hmax, ‹p = provider›]
    · exact gated.max p
  follows := by
    intro p limit hlimit
    rw [hgate, hview]
    split
    · subst p
      exact hfol limit hlimit
    · exact gated.follows p limit hlimit
  accounted := hacc

theorem counts_fresh (gated : Gated config state) : state.log.count (.acquired state.requests.length) = 0 ∧
    state.log.count (.released state.requests.length) = 0 := by
  have h := gated.accounted state.requests.length
  rw [getElem?_eq_none le_rfl] at h
  exact h

variable {r : Request P}

theorem joined (gated : Gated config state) {r : Request P} {gate : PerProviderGate P} {listeners : List (ℕ × ℕ)}
    {slots : List Slot} {promise : Acquired} (hmax : gate.max = maxConcurrencyFor config r.provider)
    (hfol : ∀ limit, maxConcurrencyFor config r.provider = some limit → ∃ semaphore : Semaphore P limit,
      Follows gate (Function.update (state.view r.provider) state.requests.length
        (some (r.priority, (Phase.acquiring promise).place))) semaphore)
    (hslots : slots = [] ∨ slots = [.acquired state.requests.length])
    (hacc : Accounted config (some { r with phase := .acquiring promise }) slots.length 0) :
    Gated config (state.joined r gate listeners slots promise) := by
  refine gated.of_provider (gateFor_setGate config r.provider gate) (view_join { r with phase := .acquiring promise })
    hmax hfol fun request => ?_
  show Accounted config (state.requests ++ [_])[request]? ((state.log ++ slots).count _) ((state.log ++ slots).count _)
  rw [getElem?_join, count_append, count_append]
  by_cases heq : request = state.requests.length
  · subst heq
    rw [if_pos rfl, gated.counts_fresh.1, gated.counts_fresh.2]
    rcases hslots with rfl | rfl
    · exact hacc
    · simpa using hacc
  · rw [if_neg heq]
    rcases hslots with rfl | rfl
    · exact gated.accounted request
    · simpa [Ne.symm heq] using gated.accounted request

theorem acquire (gated : Gated config state) (r : Request P) : Gated config (acquire config state r) := by
  have hmax := gated.max r.provider
  rcases acquire_cases config state r with ⟨hnone, h⟩ | ⟨limit, hlimit, h⟩
  · rw [h]
    rw [hmax] at hnone
    refine gated.joined hmax (fun limit h => ?_) (Or.inl rfl) ⟨?_, rfl⟩
    · rw [hnone] at h
      cases h
    · simp [hnone]
  · rw [hmax] at hlimit
    obtain ⟨semaphore, follows⟩ := gated.follows r.provider limit hlimit
    have hfresh := @view_fresh _ state r.provider
    rcases h with h | ⟨hfree, h⟩ | ⟨hfull, h⟩ <;> rw [h]
    · refine gated.joined hmax (fun other hother => ?_) (Or.inl rfl) ⟨rfl, Nat.zero_le 1⟩
      cases hlimit.symm.trans hother
      refine ⟨semaphore, follows.stay r.priority fun priority place h => ?_⟩
      rw [hfresh] at h
      cases h
    · refine gated.joined hmax (fun other hother => ?_) (Or.inr rfl) ⟨?_, rfl⟩
      · cases hlimit.symm.trans hother
        refine ⟨_, follows.enter r.priority hfresh ?_⟩
        rw [follows.active] at hfree
        exact_mod_cast hfree
      · simp [hlimit]
    · refine gated.joined hmax (fun other hother => ?_) (Or.inl rfl) ⟨rfl, rfl⟩
      cases hlimit.symm.trans hother
      refine ⟨_, follows.wait ⟨r.priority, state.requests.length⟩ hfresh (le_antisymm semaphore.bounded ?_) fun waiter hwait => ?_⟩
      · rw [follows.active] at hfull
        exact_mod_cast hfull
      · obtain ⟨q, hq, -⟩ := view_some ((follows.waits waiter).mp hwait)
        exact (List.getElem?_eq_some_iff.mp hq).1

variable {phase : Phase}

theorem setPhase (gated : Gated config state) {request : ℕ} (hr : state.requests[request]? = some r)
    (hplace : phase.place = r.phase.place) : Gated config (state.setPhase request phase) := by
  have hview : (state.setPhase request phase).view = state.view := by
    funext p
    rw [view_setPhase hr, hplace]
    split
    · apply update_eq_self_iff.mpr
      rw [view_of_request hr, if_pos ‹_›]
    · rfl
  refine ⟨gated.max, fun p limit hlimit => ?_, fun other => ?_⟩
  · rw [hview]
    exact gated.follows p limit hlimit
  · have h := gated.accounted other
    rw [getElem?_setPhase hr]
    split
    · subst other
      rw [hr] at h
      unfold Accounted at h ⊢
      simp only [hplace]
      exact h
    · exact h

omit [LinearOrder P] in
theorem accounted_finish (hplace : r.phase.place = .inside) {limit : ℕ} (hlimit : maxConcurrencyFor config r.provider = some limit)
    (hphase : phase.place = .outside) {acquired released : ℕ} (h : Accounted config (some r) acquired released) :
    Accounted config (some { r with phase := phase }) acquired (released + 1) := by
  unfold Accounted at h ⊢
  simp only [hplace, hphase, hlimit, isSome_some, if_true] at h ⊢
  omega

variable (gated : Gated config state)

include gated

theorem finish {request : ℕ} {r : Request P} (hr : state.requests[request]? = some r)
    (hplace : r.phase.place = .inside) {phase : Phase} (hphase : phase.place = .outside) :
    Gated config ((release config state request r).setPhase request phase) := by
  have hmax := gated.max r.provider
  have hins : state.view r.provider request = some (r.priority, .inside) := by
    rw [view_of_request hr, if_pos rfl, hplace]
  have hown := gated.accounted request
  rw [hr] at hown
  cases hlimit : maxConcurrencyFor config r.provider with
  | none =>
    have hrel : release config state request r = state := by
      rw [release, hmax, hlimit]
    rw [hrel]
    refine @of_provider _ _ _ _ gated _ r.provider (state.gateFor config r.provider) _ (fun p => ?_)
      (view_setPhase hr phase) hmax (fun limit h => ?_) fun other => ?_
    · show state.gateFor config p = _
      split
      · rw [‹p = r.provider›]
      · rfl
    · rw [hlimit] at h
      cases h
    · rw [getElem?_setPhase hr]
      split
      · subst other
        unfold Accounted at hown ⊢
        simp only [hplace, hphase, hlimit, isSome_none] at hown ⊢
        exact ⟨hown.2.trans hown.1.symm, hown.1.le.trans (Nat.zero_le 1)⟩
      · exact gated.accounted other
  | some limit =>
    obtain ⟨semaphore, follows⟩ := gated.follows r.provider limit hlimit
    cases hqueue : (state.gateFor config r.provider).queue with
    | nil =>
      rw [release_of_nil config state (hmax.trans hlimit) hqueue]
      refine @of_provider _ _ _ _ gated _ _ _
        (fun p => Function.update (state.view p) request (some (r.priority, .outside)))
        (gateFor_setGate config r.provider _)
        (fun p => ?_) hmax (fun other hother => ?_) fun other => ?_
      · rw [← hphase]
        exact view_setPhase hr phase p
      · cases hlimit.symm.trans hother
        exact ⟨_, follows.leave hins hqueue⟩
      · have hreq := getElem?_setPhase hr phase other
        show Accounted config _ ((state.log ++ _).count _) ((state.log ++ _).count _)
        refine hreq ▸ ?_
        rw [count_append, count_append]
        split
        · subst other
          simpa using accounted_finish hplace hlimit hphase hown
        · simpa [Ne.symm ‹other ≠ request›] using gated.accounted other
    | cons entry queue =>
      have hwaits := (follows.waits entry).mp (by rw [← follows.queue, hqueue]; exact mem_cons_self)
      obtain ⟨q, hq, hprov, hprior, hwaiting⟩ := view_some hwaits
      have hne : entry.arrival ≠ request := by
        intro heq
        rw [heq, hins] at hwaits
        cases (Prod.mk.inj (Option.some.inj hwaits)).2
      have hentry := gated.accounted entry.arrival
      rw [release_of_cons config state (hmax.trans hlimit) hqueue hq (phase_of_waiting hwaiting)]
      have hget : ∀ other, ((state.setGate r.provider { state.gateFor config r.provider with
          queue := queue }).setPhase entry.arrival (.acquiring .resolved)).requests[other]? =
          if other = entry.arrival then some { q with phase := .acquiring .resolved }
          else state.requests[other]? :=
        fun other => getElem?_setPhase hq (.acquiring .resolved) other
      have hr' := (hget request).trans ((if_neg hne.symm).trans hr)
      refine @of_provider _ _ _ _ gated _ _ _
        (fun p => Function.update (Function.update (state.view p) entry.arrival
          (some (entry.priority, .inside))) request (some (r.priority, .outside)))
        (gateFor_setGate config r.provider _)
        (fun p => ?_) hmax (fun other hother => ?_) fun other => ?_
      · refine (view_setPhase hr' phase p).trans ?_
        have hview := @view_setPhase _ state _ _ hq (.acquiring .resolved) p
        rw [← hprov, hprior] at hview
        split
        · rw [if_pos ‹p = r.provider›] at hview
          rw [hphase]
          exact congrArg (fun view => Function.update view request (some (r.priority, .outside))) hview
        · rw [if_neg ‹p ≠ r.provider›] at hview
          exact hview
      · cases hlimit.symm.trans hother
        exact ⟨_, follows.handOver hins (follows.queue.symm.trans hqueue)⟩
      · have hreq := (getElem?_setPhase hr' phase other).trans
          (congrArg (fun found => if other = request then _ else found) (hget other))
        show Accounted config _ ((state.log ++ _).count _) ((state.log ++ _).count _)
        refine hreq ▸ ?_
        rw [count_append, count_append]
        split
        · subst other
          simpa [hne, hne.symm] using accounted_finish hplace hlimit hphase hown
        · split
          · subst other
            rw [hq] at hentry
            unfold Accounted at hentry ⊢
            simp only [hwaiting] at hentry
            simp [Phase.place, hentry, ← hprov, hlimit, hne.symm]
          · have h := gated.accounted other
            simpa [Ne.symm ‹other ≠ request›, Ne.symm ‹other ≠ entry.arrival›] using h

theorem onAbort (request : ℕ) : Gated config (onAbort config state request) := by
  unfold Gateway.onAbort
  cases hr : state.requests[request]? with
  | none => exact gated
  | some r =>
    have hmax := gated.max r.provider
    have hown := gated.accounted request
    rw [hr] at hown
    have hview : state.view r.provider request = some (r.priority, r.phase.place) := by
      rw [view_of_request hr, if_pos rfl]
    simp only []
    by_cases hpend : r.phase = .acquiring .pending
    · rw [@settle_of_pending _ (state.setGate r.provider _) _ _ hr hpend]
      refine gated.of_provider (gateFor_setGate config r.provider _)
        (@view_setPhase _ state _ _ hr (.acquiring .rejected)) hmax (fun limit hlimit => ?_) fun other => ?_
      · obtain ⟨semaphore, follows⟩ := gated.follows r.provider limit hlimit
        rw [hpend] at hview
        exact ⟨_, follows.withdraw hview⟩
      · refine (@getElem?_setPhase _ state _ _ hr (.acquiring .rejected) other).symm ▸ ?_
        split
        · subst other
          unfold Accounted at hown ⊢
          simp only [hpend, Phase.place] at hown ⊢
          exact ⟨hown.2.trans hown.1.symm, hown.1.le.trans (Nat.zero_le 1)⟩
        · exact gated.accounted other
    · rw [@settle_of_settled _ (state.setGate r.provider _) _ _ hr hpend]
      refine @of_provider _ _ _ _ gated _ _ _ state.view (gateFor_setGate config r.provider _) (fun p => ?_) hmax
        (fun limit hlimit => ?_) gated.accounted
      · split <;> rfl
      · obtain ⟨semaphore, follows⟩ := gated.follows r.provider limit hlimit
        refine ⟨semaphore, ?_⟩
        rw [eraseP_of_forall_not]
        · exact follows
        · intro waiter hwait heq
          rw [follows.queue, follows.waits, of_decide_eq_true heq, hview] at hwait
          exact hpend (phase_of_waiting (Prod.mk.inj (Option.some.inj hwait)).2)

theorem abort (signal : ℕ) : Gated config (abort config state signal) := by
  unfold Gateway.abort
  split
  · exact gated
  · have hkept : ∀ (state : RequestGateway P) request, Gated config state →
        Gated config (Gateway.onAbort config state request) := fun _ request gated => gated.onAbort request
    exact foldl_invariant hkept _ ⟨gated.max, gated.follows, gated.accounted⟩

end Gated

/-- No call of `streamSimple` throws when its request has a slot of a limited provider. -/
def CallsReturn (state : RequestGateway P) : Event P → Prop
  | .resume request true =>
    ∀ r, state.requests[request]? = some r → r.kind = .streamed → r.phase = .acquiring .resolved →
      maxConcurrencyFor config r.provider = none
  | _ => True

namespace Gated

variable {config state}

variable (gated : Gated config state)

include gated

theorem resume {request : ℕ} {throws : Bool} (hallow : CallsReturn config state (.resume request throws)) :
    Gated config (resume config state request throws) := by
  unfold Gateway.resume
  cases hr : state.requests[request]? with
  | none => exact gated
  | some r =>
    simp only []
    split
    · exact gated.setPhase hr (by rw [‹r.phase = _›]; rfl)
    · rename_i hresolved
      have hplace : r.phase.place = .inside := by rw [hresolved]; rfl
      cases throws with
      | false => exact gated.setPhase hr hplace.symm
      | true =>
        cases hkind : r.kind with
        | completed => exact gated.finish hr hplace rfl
        | streamed =>
          -- a provider without a limit has nothing to release
          have hnone := hallow r hr hkind hresolved
          have hrel : release config state request r = state := by
            rw [release, gated.max, hnone]
          have h := @finish _ _ _ _ gated _ _ hr hplace .ended rfl
          rwa [hrel] at h
    · exact gated

theorem callEnds (request : ℕ) (fails : Bool) : Gated config (callEnds config state request fails) := by
  unfold Gateway.callEnds
  cases hr : state.requests[request]? with
  | none => exact gated
  | some r =>
    simp only []
    split
    · refine gated.finish hr (by rw [‹r.phase = _›]; rfl) ?_
      split <;> rfl
    · exact gated

theorem resultSettles (request : ℕ) : Gated config (resultSettles state request) := by
  unfold Gateway.resultSettles
  cases hr : state.requests[request]? with
  | none => exact gated
  | some r =>
    simp only []
    split
    · exact gated.setPhase hr (by rw [‹r.phase = _›]; rfl)
    · exact gated

theorem step [Zero P] {event : Event P} (hallow : CallsReturn config state event) :
    Gated config (step config state event) := by
  cases event with
  | request kind provider priority signal => exact gated.acquire _
  | abort signal => exact gated.abort signal
  | resume request throws => exact gated.resume hallow
  | callEnds request fails => exact gated.callEnds request fails
  | resultSettles request => exact gated.resultSettles request

omit gated in
theorem of_run [Zero P] {events : List (Event P)}
    (hallow : AllowedRun (Gateway.step config) (CallsReturn config) (RequestGateway.start P) events) :
    Gated config (events.foldl (Gateway.step config) (RequestGateway.start P)) := by
  have hkept : ∀ (state : RequestGateway P) event, Gated config state → CallsReturn config state event →
      Gated config (Gateway.step config state event) := fun _ _ gated hallow => gated.step hallow
  exact hallow.invariant hkept Gated.start

theorem holds_iff {providerId : JsStr} {limit : ℕ}
    (hlimit : maxConcurrencyFor config providerId = some limit) (request : ℕ) :
    state.holds providerId request = true ↔ ∃ priority, state.view providerId request = some (priority, .inside) := by
  have hown := gated.accounted request
  rw [RequestGateway.holds]
  cases hr : state.requests[request]? with
  | none =>
    refine iff_of_false (by simp) ?_
    rintro ⟨priority, h⟩
    obtain ⟨r, h, -⟩ := view_some h
    rw [hr] at h
    cases h
  | some r =>
    rw [view_of_request hr]
    rw [hr] at hown
    by_cases hprov : providerId = r.provider
    · subst hprov
      rw [if_pos rfl, any_some]
      unfold Accounted at hown
      cases hplace : r.phase.place with
      | waiting =>
        simp only [hplace, List.count_eq_zero] at hown
        simp [hown]
      | inside =>
        simp only [hplace, hlimit, isSome_some, if_true, List.count_eq_zero] at hown
        have hmem : .acquired request ∈ state.log := count_pos_iff.mp (hown.1 ▸ Nat.one_pos)
        simp [hown.2, hmem]
      | outside =>
        simp only [hplace] at hown
        have hboth : .acquired request ∈ state.log → .released request ∈ state.log := by
          rw [← count_pos_iff, ← count_pos_iff, hown.1]
          exact id
        simpa using hboth
    · rw [if_neg hprov]
      refine iff_of_false ?_ ?_
      · simp [Ne.symm hprov]
      · rintro ⟨priority, h⟩
        cases h

theorem holders_eq {providerId : JsStr} {limit : ℕ}
    (hlimit : maxConcurrencyFor config providerId = some limit) {semaphore : Semaphore P limit}
    (follows : Follows (state.gateFor config providerId) (state.view providerId) semaphore) :
    state.holders providerId = semaphore.holders := by
  ext request
  rw [RequestGateway.holders, Finset.mem_filter, gated.holds_iff hlimit, follows.inside]
  refine and_iff_right_of_imp ?_
  rintro ⟨priority, h⟩
  obtain ⟨r, hr, -⟩ := view_some h
  exact Finset.mem_range.mpr (List.getElem?_eq_some_iff.mp hr).1

end Gated

/-! ### The semaphore of a provider -/

variable {config state}

/-- What the gateway owes the requests to a provider with a limit. -/
structure Serves (config : RequestGatewayConfig) (state : RequestGateway P) (providerId : JsStr) (limit : ℕ) :
    Prop where
  bounded : (state.holders providerId).card ≤ limit
  /-- nobody waits while a slot is free -/
  busy : ∀ waiter, state.waits providerId waiter → (state.holders providerId).card = limit
  /-- a slot stays with its request until the call has ended -/
  kept : ∀ request r, state.requests[request]? = some r → r.provider = providerId → r.phase.place = .inside →
    state.log.count (.acquired request) = 1 ∧ state.log.count (.released request) = 0
  /-- and is released exactly once -/
  once : ∀ request r, state.requests[request]? = some r → r.provider = providerId → r.phase = .ended →
    state.log.count (.released request) = state.log.count (.acquired request) ∧
      state.log.count (.acquired request) ≤ 1
  drained : (∀ (request : ℕ) (r : Request P), state.requests[request]? = some r → r.provider = providerId → r.phase = .ended) →
    (state.gateFor config providerId).active = 0

/-- Whoever takes a slot is a newcomer that finds nobody waiting, or the first in the order of service. -/
def AdmitsInOrder [Zero P] (config : RequestGatewayConfig) (state : RequestGateway P) (event : Event P) : Prop :=
  ∀ request, .acquired request ∉ state.log → .acquired request ∈ (step config state event).log →
    (∃ r, request = state.requests.length ∧ (step config state event).requests[request]? = some r ∧
      ∀ waiter, ¬ state.waits r.provider waiter) ∨
    ∃ providerId first, first.arrival = request ∧ state.waits providerId first ∧
      ∀ waiter, state.waits providerId waiter → waiter = first ∨ first.ahead waiter

theorem Gated.serves (gated : Gated config state) {providerId : JsStr} {limit : ℕ}
    (hlimit : maxConcurrencyFor config providerId = some limit) : Serves config state providerId limit := by
  obtain ⟨semaphore, follows⟩ := gated.follows providerId limit hlimit
  have hhol := gated.holders_eq hlimit follows
  refine ⟨?_, fun waiter hwaits => ?_, fun request r hr hprov hins => ?_,
    fun request r hr hprov hended => ?_, fun hall => ?_⟩
  · rw [hhol]
    exact semaphore.bounded
  · rw [hhol]
    exact semaphore.busy (ne_nil_of_mem ((follows.waits waiter).mpr hwaits))
  · have hown := gated.accounted request
    rw [hr] at hown
    unfold Accounted at hown
    simpa only [hins, hprov, hlimit, isSome_some, if_true] using hown
  · have hown := gated.accounted request
    rw [hr] at hown
    unfold Accounted at hown
    simpa only [hended, Phase.place] using hown
  · have hempty : semaphore.holders = ∅ := by
      refine Finset.eq_empty_of_forall_notMem fun request hmem => ?_
      obtain ⟨priority, h⟩ := (follows.inside request).mp hmem
      obtain ⟨r, hr, hprov, -, hplace⟩ := view_some h
      rw [hall request r hr hprov.symm] at hplace
      cases hplace
    rw [follows.active, hempty]
    rfl

theorem Gated.release_log (gated : Gated config state) {request other : ℕ}
    (hmem : .acquired other ∈ (release config state request r).log) (hnew : .acquired other ∉ state.log) :
    ∃ providerId first, first.arrival = other ∧ state.waits providerId first ∧
      ∀ waiter, state.waits providerId waiter → waiter = first ∨ first.ahead waiter := by
  unfold release at hmem
  cases hlimit : (state.gateFor config r.provider).max with
  | none =>
    simp only [hlimit] at hmem
    exact absurd hmem hnew
  | some limit =>
    obtain ⟨semaphore, follows⟩ := gated.follows r.provider limit ((gated.max r.provider).symm.trans hlimit)
    cases hqueue : (state.gateFor config r.provider).queue with
    | nil =>
      simp only [hlimit, hqueue, mem_append, hnew, false_or, mem_singleton, reduceCtorEq] at hmem
    | cons entry queue =>
      simp only [hlimit, hqueue, mem_append, hnew, false_or, mem_cons, reduceCtorEq,
        not_mem_nil, or_false, Slot.acquired.injEq] at hmem
      have hfirst := follows.queue.symm.trans hqueue
      refine ⟨r.provider, entry, hmem.symm, (follows.waits entry).mp (hfirst ▸ mem_cons_self), ?_⟩
      exact fun waiter hwaits => semaphore.first_ahead hfirst ((follows.waits waiter).mpr hwaits)

omit [LinearOrder P] in
theorem onAbort_log (state : RequestGateway P) (request : ℕ) : (onAbort config state request).log = state.log := by
  unfold onAbort
  split <;> rfl

omit [LinearOrder P] in
theorem abort_log (state : RequestGateway P) (signal : ℕ) : (abort config state signal).log = state.log := by
  unfold abort
  split
  · rfl
  · have hkept : ∀ (other : RequestGateway P) request, other.log = state.log →
        (onAbort config other request).log = state.log := fun other request h => (onAbort_log other request).trans h
    exact foldl_invariant hkept _ rfl

theorem Gated.admits [Zero P] (gated : Gated config state) (event : Event P) : AdmitsInOrder config state event := by
  intro request hnew hmem
  cases event with
  | request kind provider priority signal =>
    left
    rw [Gateway.step] at hmem ⊢
    generalize (Request.mk kind provider (priority.getD 0) signal (.acquiring .pending)) = r at hmem ⊢
    have hunc : ∀ {listeners gate promise},
        .acquired request ∉ (state.joined r gate listeners [] promise).log := by
      intro listeners gate promise h
      exact hnew (append_nil state.log ▸ h)
    rcases acquire_cases config state r with ⟨-, h⟩ | ⟨limit, hlimit, h | ⟨hfree, h⟩ | ⟨-, h⟩⟩ <;>
      rw [h] at hmem ⊢
    · exact absurd hmem hunc
    · exact absurd hmem hunc
    · obtain ⟨semaphore, follows⟩ := gated.follows r.provider limit ((gated.max r.provider).symm.trans hlimit)
      have hrequest : request = state.requests.length := by
        rcases mem_append.mp hmem with hmem | hmem
        · exact absurd hmem hnew
        · exact Slot.acquired.inj (mem_singleton.mp hmem)
      refine ⟨{ r with phase := .acquiring .resolved }, hrequest, ?_, fun waiter hwaits => ?_⟩
      · exact (getElem?_join _ request).trans (if_pos hrequest)
      · rw [follows.active] at hfree
        have hmem := (follows.waits waiter).mpr hwaits
        rw [semaphore.queue_eq_nil (by exact_mod_cast hfree)] at hmem
        exact not_mem_nil hmem
    · exact absurd hmem hunc
  | abort signal => exact absurd (abort_log state signal ▸ hmem) hnew
  | resume id throws =>
    rw [Gateway.step, Gateway.resume] at hmem
    split at hmem
    · exact absurd hmem hnew
    · split at hmem
      · exact absurd hmem hnew
      · split at hmem
        · split at hmem
          · exact absurd hmem hnew
          · exact Or.inr (gated.release_log hmem hnew)
        · exact absurd hmem hnew
      · exact absurd hmem hnew
  | callEnds id fails =>
    rw [Gateway.step, Gateway.callEnds] at hmem
    split at hmem
    · exact absurd hmem hnew
    · split at hmem
      · exact Or.inr (gated.release_log hmem hnew)
      · exact absurd hmem hnew
  | resultSettles id =>
    rw [Gateway.step, Gateway.resultSettles] at hmem
    split at hmem
    · exact absurd hmem hnew
    · split at hmem <;> exact absurd hmem hnew

/-- In every run in which no call of `streamSimple` throws on a request that has a slot, each limited provider has a
semaphore with its limit, and the slots go to the requests in order. -/
theorem gating_correct [Zero P] (config : RequestGatewayConfig) (events : List (Event P))
    (hallow : AllowedRun (step config) (CallsReturn config) (RequestGateway.start P) events) :
    (∀ providerId limit, maxConcurrencyFor config providerId = some limit →
      Serves config (events.foldl (step config) (RequestGateway.start P)) providerId limit) ∧
    ∀ event, AdmitsInOrder config (events.foldl (step config) (RequestGateway.start P)) event :=
  ⟨fun _ _ hlimit => (Gated.of_run hallow).serves hlimit, (Gated.of_run hallow).admits⟩

section Samples

/-- One slot for every provider. -/
def oneSlot : RequestGatewayConfig := { providers := fun _ => none, defaultMaxConcurrency := some 1 }

/-- Two requests, of which the second waits until the first has been completed. -/
theorem gating_correct_sample : let events : List (Event ℤ) := [.request .streamed (js "openai") (some 2) none,
      .request .completed (js "openai") none (some 0), .resume 0 false, .callEnds 0 false]
    AllowedRun (step oneSlot) (CallsReturn oneSlot) (RequestGateway.start ℤ) events ∧
      Serves oneSlot (events.foldl (step oneSlot) (RequestGateway.start ℤ)) (js "openai") 1 := by
  intro events
  have hallow : AllowedRun (step oneSlot) (CallsReturn oneSlot) (RequestGateway.start ℤ) events :=
    ⟨trivial, trivial, trivial, trivial, trivial⟩
  exact ⟨hallow, (gating_correct oneSlot events hallow).1 (js "openai") 1 rfl⟩

/-- The runtime's `streamSimple` throws: its request has ended, and the slot is never released. -/
theorem slot_lost : ¬ ∀ (events : List (Event ℤ)) providerId limit,
    maxConcurrencyFor oneSlot providerId = some limit →
    Serves oneSlot (events.foldl (step oneSlot) (RequestGateway.start ℤ)) providerId limit := by
  intro h
  have hser := h [.request .streamed (js "openai") none none, .resume 0 true] (js "openai") 1 rfl
  exact absurd (hser.once 0 _ rfl rfl rfl).1 (by decide +kernel)

end Samples

end PiRp.Gateway
