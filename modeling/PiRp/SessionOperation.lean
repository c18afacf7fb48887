import PiRp.ExceptBind
import PiRp.SessionInvariant

/-! The operations every session storage offers, as `InMemorySessionStorage` and
`JsonlSessionStorage` carry them out: an operation is validated against the state and becomes a
mutation with the next sequence number. A mutation prepared in a reachable state is never rejected
afterwards. -/

namespace PiRp.Session

/-- A value of `Date.now()`: milliseconds since the epoch, up to the largest time value. -/
structure TimeValue where
  milliseconds : Nat
  bounded : milliseconds ≤ 8640000000000000

inductive Operation where
  | createLane (lane : JsStr) (leafId : Option JsStr)
  | moveLane (lane : JsStr) (leafId : Option JsStr)
  | appendEntry (newEntry : ProvisionedEntry) (lane : JsStr) (now : TimeValue)
  | appendRecord (newRecord : NewRecord) (now : TimeValue)
  | setName (name : Option JsStr)
  | setLabel (id : JsStr) (label : Option JsStr)

namespace SessionState

/-- Rejects a second open operation in a lane. -/
def validateOperation (state : SessionState) (newRecord : NewRecord) : Except SessionError Unit := do
  let openOperations ← state.findOpenOperations newRecord.lane (some 1)
  match newRecord.type, openOperations with
  | .operationStarted, current :: _ =>
    .error ⟨.storage, js "Lane " ++ newRecord.lane ++ js " already has an open operation " ++ current.id⟩
  | _, _ => .ok ()

/-- The mutation of an operation, or the error it is rejected with. -/
def prepare (state : SessionState) : Operation → Except SessionError SessionMutation
  | .createLane lane leafId => do
      state.validateNewLane lane
      state.validateTarget leafId
      return .lane state.nextSequence lane leafId
  | .moveLane lane leafId => do
      let _ ← state.requireLane lane
      state.validateTarget leafId
      return .lane state.nextSequence lane leafId
  | .appendEntry newEntry lane now => do
      let parentId ← state.requireLane lane
      state.validateUnusedId newEntry.id
      return .entry (some lane)
        { newEntry with parentId, seq := state.nextSequence, timestamp := now.milliseconds }
  | .appendRecord newRecord now => do
      let _ ← state.requireLane newRecord.lane
      state.validateUnusedId newRecord.id
      state.validateOperation newRecord
      return .record { newRecord with seq := state.nextSequence, timestamp := now.milliseconds }
  | .setName name => .ok (.name state.nextSequence name)
  | .setLabel id label => do
      state.validateTarget (some id)
      return .label state.nextSequence id label

variable {state : SessionState}

theorem requireLane_eq_ok {lane : JsStr} {leafId : Option JsStr} :
    state.requireLane lane = .ok leafId ↔ state.lanes.get? lane = some leafId := by
  rw [requireLane]
  cases state.lanes.get? lane <;> simp

theorem validateTarget_eq_ok {targetId : Option JsStr} : state.validateTarget targetId = .ok () ↔
      ∀ id, targetId = some id → state.entriesById.has id = true := by
  cases targetId with
  | none => simp [validateTarget]
  | some targetId =>
    cases hhas : state.entriesById.has targetId <;> simp [validateTarget, hhas]

theorem validateUnusedId_eq_ok {id : JsStr} : state.validateUnusedId id = .ok () ↔ id ∉ state.usedIds := by
  by_cases hid : id ∈ state.usedIds <;> simp [validateUnusedId, hid]

theorem validateNewLane_eq_ok {lane : JsStr} :
    state.validateNewLane lane = .ok () ↔ state.lanes.has lane = false := by
  cases hhas : state.lanes.has lane <;> simp [validateNewLane, hhas]

/-- The mutations an operation can become in a state, with what its validation has checked. -/
inductive Prepares (state : SessionState) : Operation → SessionMutation → Prop
  | createLane {lane : JsStr} {leafId : Option JsStr} (hnew : state.lanes.has lane = false)
      (hleaf : ∀ id, leafId = some id → state.entriesById.has id = true) :
      Prepares state (.createLane lane leafId) (.lane state.nextSequence lane leafId)
  | moveLane {lane : JsStr} {leafId : Option JsStr} (hlane : state.lanes.has lane = true)
      (hleaf : ∀ id, leafId = some id → state.entriesById.has id = true) :
      Prepares state (.moveLane lane leafId) (.lane state.nextSequence lane leafId)
  | appendEntry {newEntry : ProvisionedEntry} {lane : JsStr} {now : TimeValue}
      {parentId : Option JsStr} (hlane : state.lanes.get? lane = some parentId)
      (hid : newEntry.id ∉ state.usedIds) :
      Prepares state (.appendEntry newEntry lane now) (.entry (some lane)
        { newEntry with parentId, seq := state.nextSequence, timestamp := now.milliseconds })
  | appendRecord {newRecord : NewRecord} {now : TimeValue}
      (hlane : state.lanes.has newRecord.lane = true) (hid : newRecord.id ∉ state.usedIds)
      (hopen : state.validateOperation newRecord = .ok ()) :
      Prepares state (.appendRecord newRecord now) (.record
        { newRecord with seq := state.nextSequence, timestamp := now.milliseconds })
  | setName {name : Option JsStr} :
      Prepares state (.setName name) (.name state.nextSequence name)
  | setLabel {id : JsStr} {label : Option JsStr}
      (htgt : state.entriesById.has id = true) :
      Prepares state (.setLabel id label) (.label state.nextSequence id label)

theorem prepare_spec {operation : Operation} {mutation : SessionMutation}
    (hprep : state.prepare operation = .ok mutation) : state.Prepares operation mutation := by
  cases operation with
  | createLane lane leafId =>
    obtain ⟨⟨⟩, hnew, hrest⟩ := bind_eq_ok.mp hprep
    obtain ⟨⟨⟩, hleaf, hmut⟩ := bind_eq_ok.mp hrest
    cases hmut
    exact .createLane (validateNewLane_eq_ok.mp hnew) (validateTarget_eq_ok.mp hleaf)
  | moveLane lane leafId =>
    obtain ⟨_, hlane, hrest⟩ := bind_eq_ok.mp hprep
    obtain ⟨⟨⟩, hleaf, hmut⟩ := bind_eq_ok.mp hrest
    cases hmut
    exact .moveLane (JsMap.has_of_get? (requireLane_eq_ok.mp hlane))
      (validateTarget_eq_ok.mp hleaf)
  | appendEntry newEntry lane now =>
    obtain ⟨parentId, hlane, hrest⟩ := bind_eq_ok.mp hprep
    obtain ⟨⟨⟩, hid, hmut⟩ := bind_eq_ok.mp hrest
    cases hmut
    exact .appendEntry (requireLane_eq_ok.mp hlane) (validateUnusedId_eq_ok.mp hid)
  | appendRecord newRecord now =>
    obtain ⟨_, hlane, hrest⟩ := bind_eq_ok.mp hprep
    obtain ⟨⟨⟩, hid, hrest⟩ := bind_eq_ok.mp hrest
    obtain ⟨⟨⟩, hopen, hmut⟩ := bind_eq_ok.mp hrest
    cases hmut
    exact .appendRecord (JsMap.has_of_get? (requireLane_eq_ok.mp hlane))
      (validateUnusedId_eq_ok.mp hid) hopen
  | setName name =>
    cases hprep
    exact .setName
  | setLabel id label =>
    obtain ⟨⟨⟩, htgt, hmut⟩ := bind_eq_ok.mp hprep
    cases hmut
    exact .setLabel (validateTarget_eq_ok.mp htgt id rfl)

/-- **A validated mutation is never rejected.** -/
theorem Prepares.applies [JsNumber.Addition] {accepted : List SessionMutation}
    {operation : Operation} {mutation : SessionMutation} (hinv : Invariant state accepted)
    (hprepar : state.Prepares operation mutation) : ∃ next, state.Applies mutation next := by
  cases hprepar with
  | createLane _ hleaf => exact ⟨_, .lane rfl hleaf⟩
  | moveLane _ hleaf => exact ⟨_, .lane rfl hleaf⟩
  | @appendEntry newEntry lane now parentId hlane hid =>
    refine ⟨_, .entry rfl hid (fun name hname => Option.some.inj hname ▸ hlane) fun id hpar => ?_⟩
    have hparentId : parentId = some id := hpar
    obtain ⟨entry, hentry, rfl⟩ := hinv.leaves lane id (hparentId ▸ hlane)
    exact hinv.entriesById_has.mpr ⟨entry, hentry, rfl⟩
  | appendRecord hlane hid _ => exact ⟨_, .record rfl hlane hid⟩
  | setName => exact ⟨_, .name rfl⟩
  | setLabel htgt => exact ⟨_, .label rfl htgt⟩

end SessionState

end PiRp.Session
