import PiRp.Session

/-! `SessionState` of `packages/agent/src/harness/session/state.ts`: the state of a session in memory.
`applyMutation` returns the state it leaves behind together with the error it throws, if any. -/

namespace PiRp.Session

inductive SessionMutation where
  | entry (lane : Option JsStr) (entry : Entry)
  | record (record : LaneRecord)
  | lane (seq : Nat) (lane : JsStr) (leafId : Option JsStr)
  | name (seq : Nat) (name : Option JsStr)
  | label (seq : Nat) (targetId : JsStr) (label : Option JsStr)
  deriving DecidableEq

def SessionMutation.seq : SessionMutation → Nat
  | .entry _ added => added.seq
  | .record added => added.seq
  | .lane seq _ _ | .name seq _ | .label seq _ _ => seq

/-- The log item pushed for a mutation. -/
def SessionMutation.logItem : SessionMutation → LogItem
  | .entry _ added => .entry added.seq added
  | .record added => .record added.seq added
  | .lane seq pointer leafId => .lane seq pointer leafId
  | .name seq value => .name seq value
  | .label seq targetId value => .label seq targetId value

def invalidMutation (message : JsStr) : SessionError :=
  ⟨.invalidEntry, js "Invalid session mutation: " ++ message⟩

def assertValidLimit (limit : Option Int) : Except SessionError Unit :=
  match limit with
  | none => .ok ()
  | some limit =>
    if limit ≤ 0 then .error ⟨.invalidQuery, js "limit must be a positive integer"⟩ else .ok ()

def assertValidCursor (afterSeq : Option Int) : Except SessionError Unit :=
  match afterSeq with
  | none => .ok ()
  | some afterSeq =>
    if afterSeq < 0 then
      .error ⟨.invalidQuery, js "cursor sequence must be a non-negative integer"⟩
    else .ok ()

def ordered {α : Type} (items : List α) (order : Option EntryOrder) : List α :=
  if order = some .oldestFirst then items else items.reverse

/-- The loop that keeps the items matching a query until the limit is reached. -/
def collect {α : Type} (isMatch : α → Bool) (limit : Option Int) (items : List α) : List α :=
  match limit with
  | none => items.filter isMatch
  | some limit => (items.filter isMatch).take limit.toNat

structure SessionState where
  sequence : Nat
  usedIds : List JsStr
  entries : List Entry
  entriesById : JsMap JsStr Entry
  records : List LaneRecord
  openOperationsByLane : JsMap JsStr (JsMap JsStr LaneRecord)
  lanes : JsMap JsStr (Option JsStr)
  log : List LogItem
  stats : SessionStats
  name : Option JsStr
  labels : JsMap JsStr JsStr

namespace SessionState

def initial : SessionState where
  sequence := 0
  usedIds := []
  entries := []
  entriesById := .empty
  records := []
  openOperationsByLane := .empty
  lanes := JsMap.empty.set (js "main") none
  log := []
  stats := ⟨0, .int 0, .int 0, .int 0, .int 0⟩
  name := none
  labels := .empty

def nextSequence (state : SessionState) : Nat := state.sequence + 1

def getLanes (state : SessionState) : List LanePointer :=
  state.lanes.entries.map fun entry => ⟨entry.1, entry.2⟩

def requireLane (state : SessionState) (lane : JsStr) : Except SessionError (Option JsStr) :=
  match state.lanes.get? lane with
  | none => .error ⟨.invalidLane, js "Lane not found: " ++ lane⟩
  | some leafId => .ok leafId

def validateNewLane (state : SessionState) (lane : JsStr) : Except SessionError Unit :=
  if state.lanes.has lane then .error ⟨.alreadyExists, js "Lane already exists: " ++ lane⟩
  else .ok ()

def validateTarget (state : SessionState) (targetId : Option JsStr) : Except SessionError Unit :=
  match targetId with
  | none => .ok ()
  | some targetId =>
    if state.entriesById.has targetId then .ok ()
    else .error ⟨.notFound, js "Entry not found: " ++ targetId⟩

def validateUnusedId (state : SessionState) (id : JsStr) : Except SessionError Unit :=
  if id ∈ state.usedIds then .error ⟨.alreadyExists, js "Session id already exists: " ++ id⟩
  else .ok ()

/-- The reason the lane given with an entry does not accept it. -/
def laneProblem (state : SessionState) (lane : Option JsStr) (entry : Entry) : Option JsStr :=
  match lane with
  | none => none
  | some lane =>
    match state.lanes.get? lane with
    | none => some (js "references missing lane " ++ lane)
    | some leafId =>
      if entry.parentId ≠ leafId then some (js "does not chain to the lane leaf") else none

/-- The id that names no entry, if any. -/
def missingEntry (state : SessionState) (id : Option JsStr) : Option JsStr :=
  id.filter fun id => !state.entriesById.has id

def addEntry (state : SessionState) (lane : Option JsStr) (entry : Entry) : SessionState :=
  { state with
    sequence := entry.seq
    usedIds := state.usedIds.insert entry.id
    entries := state.entries ++ [entry]
    entriesById := state.entriesById.set entry.id entry
    lanes := match lane with
      | none => state.lanes
      | some lane => state.lanes.set lane (some entry.id)
    log := state.log ++ [.entry entry.seq entry]
    stats := if entry.type = .message then
        { state.stats with messageCount := state.stats.messageCount + 1 }
      else state.stats }

/-- The open operations after a record. -/
def trackOperation (openOperationsByLane : JsMap JsStr (JsMap JsStr LaneRecord))
    (record : LaneRecord) : JsMap JsStr (JsMap JsStr LaneRecord) :=
  match record.type with
  | .operationStarted =>
    let openOperations := (openOperationsByLane.get? record.lane).getD .empty
    openOperationsByLane.set record.lane (openOperations.set record.id record)
  | .operationFinished =>
    match openOperationsByLane.get? record.lane, record.runId? with
    | some openOperations, some runId =>
      openOperationsByLane.set record.lane (openOperations.delete runId)
    | _, _ => openOperationsByLane
  | _ => openOperationsByLane

variable [JsNumber.Addition]

open JsNumber.Addition

/-- The statistics after a record. -/
def addUsage (stats : SessionStats) (record : LaneRecord) : SessionStats :=
  match record.type, record.usageNumbers? with
  | .usage, some usage =>
    { stats with
      cachedTokens := add stats.cachedTokens usage.cacheRead
      uncachedTokens := add stats.uncachedTokens (add usage.input usage.cacheWrite)
      totalTokens := add stats.totalTokens usage.totalTokens
      costTotal := add stats.costTotal usage.costTotal }
  | _, _ => stats

def addRecord (state : SessionState) (record : LaneRecord) : SessionState :=
  { state with
    sequence := record.seq
    usedIds := state.usedIds.insert record.id
    records := state.records ++ [record]
    openOperationsByLane := trackOperation state.openOperationsByLane record
    log := state.log ++ [.record record.seq record]
    stats := addUsage state.stats record }

def setLane (state : SessionState) (seq : Nat) (lane : JsStr) (leafId : Option JsStr) :
    SessionState :=
  { state with
    sequence := seq
    lanes := state.lanes.set lane leafId
    log := state.log ++ [.lane seq lane leafId] }

def setName (state : SessionState) (seq : Nat) (name : Option JsStr) : SessionState :=
  { state with
    sequence := seq
    name := name
    log := state.log ++ [.name seq name] }

def setLabel (state : SessionState) (seq : Nat) (targetId : JsStr) (label : Option JsStr) :
    SessionState :=
  { state with
    sequence := seq
    labels := match label with
      | none => state.labels.delete targetId
      | some label => state.labels.set targetId label
    log := state.log ++ [.label seq targetId label] }

def reject (state : SessionState) (message : JsStr) : SessionState × Option SessionError :=
  (state, some (invalidMutation message))

/-- The state a mutation leaves behind and the error it is rejected with. -/
def applyMutation (state : SessionState) (mutation : SessionMutation) :
    SessionState × Option SessionError :=
  if mutation.seq ≠ state.sequence + 1 then
    state.reject (js "has non-consecutive seq " ++ decimal mutation.seq)
  else
    match mutation with
    | .entry lane entry =>
      if entry.id ∈ state.usedIds then state.reject (js "contains duplicate id " ++ entry.id)
      else
        match state.laneProblem lane entry with
        | some message => state.reject message
        | none =>
          match state.missingEntry entry.parentId with
          | some parentId => state.reject (js "references missing parent " ++ parentId)
          | none => (state.addEntry lane entry, none)
    | .record record =>
      if state.lanes.has record.lane = false then
        state.reject (js "references missing lane " ++ record.lane)
      else if record.id ∈ state.usedIds then
        state.reject (js "contains duplicate id " ++ record.id)
      else (state.addRecord record, none)
    | .lane seq lane leafId =>
      match state.missingEntry leafId with
      | some leafId => state.reject (js "references missing lane target " ++ leafId)
      | none => (state.setLane seq lane leafId, none)
    | .name seq name => (state.setName seq name, none)
    | .label seq targetId label =>
      match state.missingEntry (some targetId) with
      | some targetId => state.reject (js "references missing label target " ++ targetId)
      | none => (state.setLabel seq targetId label, none)

omit [JsNumber.Addition]

def getEntry (state : SessionState) (id : JsStr) : Option Entry := state.entriesById.get? id

def matchesEntryQuery (entry : Entry) (query : EntryQuery) : Bool :=
  (match query.type with
    | none => true
    | some type => entry.type = type) &&
  (match query.customType with
    | none => true
    | some customType => entry.type = .custom && entry.customType? = some customType) &&
  match query.cursor with
  | none => true
  | some afterSeq =>
    if query.order = some .oldestFirst then afterSeq < entry.seq else (entry.seq : Int) < afterSeq

def findEntries (state : SessionState) (query : EntryQuery) : Except SessionError (List Entry) := do
  assertValidLimit query.limit
  assertValidCursor query.cursor
  return collect (matchesEntryQuery · query) query.limit (ordered state.entries query.order)

/-- How a walk to the root ended: at its last entry, with an error, or not within the bound on its
length. -/
inductive WalkEnd where
  | done
  | thrown (error : SessionError)
  | running
  deriving DecidableEq

/-- The entries a generator yields, and how it ends after them. -/
structure Walk where
  yielded : List Entry
  ending : WalkEnd

/-- The scan ends after the entry. -/
def reachesBound (entry : Entry) (bounds : BranchBounds) : Bool :=
  bounds.stopAtId = some entry.id || bounds.stopAtType = some entry.type

/-- The loop of `walkToRoot` at an entry; `fuel` bounds its rounds. -/
def walkFrom (state : SessionState) (bounds : BranchBounds) :
    Nat → List JsStr → Entry → Walk
  | 0, _, _ => ⟨[], .running⟩
  | fuel + 1, visited, current =>
    if current.id ∈ visited then
      ⟨[], .thrown ⟨.invalidEntry, js "Session branch contains a cycle at " ++ current.id⟩⟩
    else if reachesBound current bounds then ⟨[current], .done⟩
    else
      match current.parentId with
      | none => ⟨[current], .done⟩
      | some parentId =>
        match state.entriesById.get? parentId with
        | none => ⟨[current], .thrown ⟨.invalidEntry, js "Entry not found: " ++ parentId⟩⟩
        | some parent =>
          let rest := walkFrom state bounds fuel (current.id :: visited) parent
          ⟨current :: rest.yielded, rest.ending⟩

/-- The walk from an entry along the parent links. No entry is yielded twice, so the walk ends within
one round more than there are entries. -/
def walkToRoot (state : SessionState) (start : Option JsStr) (bounds : BranchBounds) : Walk :=
  match start with
  | none => ⟨[], .done⟩
  | some start =>
    match state.entriesById.get? start with
    | none => ⟨[], .thrown ⟨.notFound, js "Entry not found: " ++ start⟩⟩
    | some entry => walkFrom state bounds (state.entriesById.entries.length + 1) [] entry

/-- Spreads a walk into an array. -/
def Walk.toArray (walk : Walk) : Except SessionError (List Entry) :=
  match walk.ending with
  | .done => .ok walk.yielded
  | .thrown error => .error error
  | .running => .error ⟨.invalidEntry, js "Walk did not end"⟩

/-- The prefix up to the first entry that reaches a bound. -/
def upToBound (bounds : BranchBounds) : List Entry → List Entry
  | [] => []
  | entry :: rest => if reachesBound entry bounds then [entry] else entry :: upToBound bounds rest

/-- `findEntriesOnBranch`. The newest-first loop stops a walk once the limit is reached, so an error
further up is not met. -/
def findEntriesOnBranch (state : SessionState) (query : EntryQuery) (bounds : BranchBounds)
    (start : JsStr) : Except SessionError (List Entry) := do
  assertValidLimit query.limit
  assertValidCursor query.cursor
  if query.order = some .oldestFirst then do
    let path ← (state.walkToRoot (some start) {}).toArray
    return collect (matchesEntryQuery · query) query.limit (upToBound bounds path.reverse)
  else do
    let walk := state.walkToRoot (some start) bounds
    let results := collect (matchesEntryQuery · query) query.limit walk.yielded
    if query.limit = some (results.length : Int) then return results
    else do
      let _ ← walk.toArray
      return results

def findOpenOperations (state : SessionState) (lane : JsStr) (limit : Option Int) :
    Except SessionError (List LaneRecord) := do
  assertValidLimit limit
  let openOperations := match state.openOperationsByLane.get? lane with
    | some openOperations => openOperations.values.reverse
    | none => []
  match limit with
  | none => return openOperations
  | some limit => return openOperations.take limit.toNat

def getName (state : SessionState) : Option JsStr := state.name

def getLabel (state : SessionState) (id : JsStr) : Option JsStr := state.labels.get? id

/-- The leaf of the fork's main lane: the selected message, or the entry before it. -/
def forkTarget (state : SessionState) (entryId : Option JsStr) (position : Option ForkPosition) :
    Except SessionError (Option JsStr) := do
  let selectedEntryId ← match entryId with
    | some entryId => .ok (some entryId)
    | none => state.requireLane (js "main")
  match selectedEntryId with
  | none => return none
  | some selectedEntryId =>
    let notMessage : SessionError :=
      ⟨.invalidForkTarget, js "Fork target is not a message entry: " ++ selectedEntryId⟩
    match state.getEntry selectedEntryId with
    | none => .error notMessage
    | some entry =>
      if entry.type ≠ .message then .error notMessage
      else
        let position := position.getD (if entryId = none then .at else .before)
        return if position = .at then some entry.id else entry.parentId

/-- The entries a fork copies and the lanes it starts with. -/
def forkSelection (state : SessionState) (options : ForkOptions) :
    Except SessionError (List Entry × List LanePointer) :=
  match options with
  | .tree => do
      let copiedEntries ← state.findEntries { order := some .oldestFirst }
      return (copiedEntries, state.getLanes)
  | .branch entryId position => do
      let targetId ← state.forkTarget entryId position
      let copiedEntries ← match targetId with
        | none => .ok []
        | some targetId => state.findEntriesOnBranch { order := some .oldestFirst } {} targetId
      return (copiedEntries, [⟨js "main", targetId⟩])

/-- Gives the drafts the sequence numbers from `1` on. -/
def numberDrafts (drafts : List (Nat → SessionMutation)) : List SessionMutation :=
  drafts.mapIdx fun index draft => draft (index + 1)

def createForkMutations (state : SessionState) (options : ForkOptions) :
    Except SessionError (List SessionMutation) := do
  let (copiedEntries, forkLanes) ← state.forkSelection options
  let entryDrafts := copiedEntries.map fun entry seq => SessionMutation.entry none { entry with seq }
  let laneDrafts := forkLanes.map fun pointer seq => SessionMutation.lane seq pointer.lane pointer.leafId
  let nameDrafts := match state.name with
    | none => []
    | some name => [fun seq => SessionMutation.name seq (some name)]
  let labelDrafts := copiedEntries.filterMap fun entry =>
    (state.labels.get? entry.id).map fun label seq => SessionMutation.label seq entry.id (some label)
  return numberDrafts (entryDrafts ++ laneDrafts ++ nameDrafts ++ labelDrafts)

end SessionState

end PiRp.Session
