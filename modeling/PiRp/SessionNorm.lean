import PiRp.SessionInvariant

/-! The state of a session with minus zero replaced by zero in every payload. JSON text does not
distinguish the two, so this is what a state read back from text is compared with. Applying a
mutation commutes with it. -/

namespace PiRp.Session

open Option

open Json (normProps)

variable (props : Props Json) (key : JsStr)

theorem stringAt?_normProps : stringAt? (normProps props) key = stringAt? props key := by
  rw [stringAt?, stringAt?, Json.get?_normProps]
  cases props.get? key with
  | none => rfl
  | some value => cases value <;> simp [Json.norm]

theorem numberAt?_normProps : numberAt? (normProps props) key = (numberAt? props key).map JsNumber.norm := by
  rw [numberAt?, numberAt?, Json.get?_normProps]
  cases props.get? key with
  | none => rfl
  | some value => cases value <;> simp [Json.norm]

theorem objectAt?_normProps : objectAt? (normProps props) key = (objectAt? props key).map normProps := by
  rw [objectAt?, objectAt?, Json.get?_normProps]
  cases props.get? key with
  | none => rfl
  | some value => cases value <;> simp [Json.norm]

theorem arrayAt?_normProps :
    arrayAt? (normProps props) key = (arrayAt? props key).map fun items => items.map Json.norm := by
  rw [arrayAt?, arrayAt?, Json.get?_normProps]
  cases props.get? key with
  | none => rfl
  | some value => cases value <;> simp [Json.norm, Json.normItems_eq]

theorem isString_norm (value : Json) : value.norm.isString = value.isString := by
  cases value <;> simp [Json.norm, Json.isString]

theorem customType?_normProps : customType? (normProps props) = customType? props :=
  stringAt?_normProps props _

theorem runId?_normProps : runId? (normProps props) = runId? props := stringAt?_normProps props _

theorem operationKind?_normProps : operationKind? (normProps props) = operationKind? props := by
  rw [operationKind?, operationKind?, objectAt?_normProps]
  cases objectAt? props (js "intent") with
  | none => rfl
  | some intent =>
    simp only [map_some, bind_eq_bind, bind_some, stringAt?_normProps]

def UsageNumbers.norm (usage : UsageNumbers) : UsageNumbers where
  cacheRead := usage.cacheRead.norm
  input := usage.input.norm
  cacheWrite := usage.cacheWrite.norm
  totalTokens := usage.totalTokens.norm
  costTotal := usage.costTotal.norm

theorem usageNumbers?_normProps : usageNumbers? (normProps props) = (usageNumbers? props).map UsageNumbers.norm := by
  rw [usageNumbers?, usageNumbers?, objectAt?_normProps]
  cases objectAt? props (js "usage") with
  | none => rfl
  | some usage =>
    simp only [map_some, bind_eq_bind, bind_some, numberAt?_normProps, objectAt?_normProps]
    cases numberAt? usage (js "cacheRead") <;> cases numberAt? usage (js "input") <;>
      cases numberAt? usage (js "cacheWrite") <;> cases numberAt? usage (js "totalTokens") <;>
      try rfl
    cases objectAt? usage (js "cost") with
    | none => rfl
    | some cost =>
      simp only [map_some, bind_some, numberAt?_normProps]
      cases numberAt? cost (js "total") <;> rfl

theorem hasEntryFields_normProps (type : EntryType) :
    hasEntryFields type (normProps props) = hasEntryFields type props := by
  cases type with
  | activeToolsChange =>
    simp only [hasEntryFields, arrayAt?_normProps, Option.map_map, Function.comp_def, List.all_map, isString_norm]
  | _ =>
    simp only [hasEntryFields, stringAt?_normProps, numberAt?_normProps, objectAt?_normProps,
      arrayAt?_normProps, customType?_normProps, isSome_map]

theorem EntryTyped.norm {props : Props Json} {type : EntryType} (htyped : EntryTyped type props) :
    EntryTyped type (normProps props) :=
  (hasEntryFields_normProps props type).trans htyped

theorem RecordTyped.norm {props : Props Json} {type : RecordType} (htyped : RecordTyped type props) :
    RecordTyped type (normProps props) := by
  cases type with
  | operationStarted =>
    rw [RecordTyped, operationKind?_normProps]
    exact htyped
  | operationFinished =>
    rw [RecordTyped, runId?_normProps]
    exact htyped
  | usage =>
    rw [RecordTyped, usageNumbers?_normProps, isSome_map]
    exact htyped
  | _ => trivial

def Payload.norm (payload : Payload) : Payload where
  props := normProps payload.props
  serializable := by
    have hnorm := payload.serializable.norm
    rwa [Json.norm] at hnorm
  keys := by
    intro entry hentry
    rw [Json.normProps_eq] at hentry
    obtain ⟨source, hsrc, rfl⟩ := List.mem_map.mp hentry
    exact payload.keys source hsrc

def Entry.norm (entry : Entry) : Entry :=
  { entry with payload := entry.payload.norm, typed := entry.typed.norm }

def LaneRecord.norm (record : LaneRecord) : LaneRecord :=
  { record with payload := record.payload.norm, typed := record.typed.norm }

def SessionMutation.norm : SessionMutation → SessionMutation
  | .entry pointer added => .entry pointer added.norm
  | .record added => .record added.norm
  | .lane seq pointer leafId => .lane seq pointer leafId
  | .name seq value => .name seq value
  | .label seq targetId value => .label seq targetId value

def LogItem.norm : LogItem → LogItem
  | .entry seq added => .entry seq added.norm
  | .record seq added => .record seq added.norm
  | .lane seq pointer leafId => .lane seq pointer leafId
  | .name seq value => .name seq value
  | .label seq targetId value => .label seq targetId value

def SessionStats.norm (stats : SessionStats) : SessionStats where
  messageCount := stats.messageCount
  cachedTokens := stats.cachedTokens.norm
  uncachedTokens := stats.uncachedTokens.norm
  totalTokens := stats.totalTokens.norm
  costTotal := stats.costTotal.norm

/-- The state with minus zero replaced by zero. -/
def SessionState.norm (state : SessionState) : SessionState :=
  { state with
    entries := state.entries.map Entry.norm
    entriesById := state.entriesById.mapValues Entry.norm
    records := state.records.map LaneRecord.norm
    openOperationsByLane :=
      state.openOperationsByLane.mapValues fun openOperations =>
        openOperations.mapValues LaneRecord.norm
    log := state.log.map LogItem.norm
    stats := state.stats.norm }

theorem SessionMutation.seq_norm (mutation : SessionMutation) : mutation.norm.seq = mutation.seq := by
  cases mutation <;> rfl

theorem LaneRecord.usageNumbers?_norm (record : LaneRecord) :
    record.norm.usageNumbers? = record.usageNumbers?.map UsageNumbers.norm :=
  usageNumbers?_normProps record.payload.props

theorem LaneRecord.runId?_norm (record : LaneRecord) : record.norm.runId? = record.runId? :=
  runId?_normProps record.payload.props

namespace SessionState

theorem norm_initial : initial.norm = initial := rfl

theorem trackOperation_norm (openOperationsByLane : JsMap JsStr (JsMap JsStr LaneRecord))
    (record : LaneRecord) : (trackOperation openOperationsByLane record).mapValues (·.mapValues LaneRecord.norm) =
      trackOperation (openOperationsByLane.mapValues (·.mapValues LaneRecord.norm)) record.norm := by
  have htype : record.norm.type = record.type := rfl
  have hlane : record.norm.lane = record.lane := rfl
  have hid : record.norm.id = record.id := rfl
  simp only [trackOperation, htype, hlane, hid, record.runId?_norm, JsMap.get?_mapValues]
  cases record.type with
  | operationStarted =>
    simp only [JsMap.mapValues_set]
    cases openOperationsByLane.get? record.lane <;> rfl
  | operationFinished =>
    cases openOperationsByLane.get? record.lane <;> cases record.runId? <;>
      simp [JsMap.mapValues_set, JsMap.mapValues_delete]
  | _ => rfl

variable [JsNumber.Addition]

open JsNumber.Addition

theorem addUsage_norm (stats : SessionStats) (record : LaneRecord) :
    (addUsage stats record).norm = addUsage stats.norm record.norm := by
  have htype : record.norm.type = record.type := rfl
  simp only [addUsage, htype, record.usageNumbers?_norm]
  cases record.type with
  | usage =>
    cases record.usageNumbers? with
    | none => rfl
    | some usage => simp [SessionStats.norm, UsageNumbers.norm, norm_add]
  | _ => rfl

/-- **A state accepts what it accepts up to the sign of zeros.** -/
theorem Applies.norm {state next : SessionState} {mutation : SessionMutation}
    (happl : state.Applies mutation next) : state.norm.Applies mutation.norm next.norm := by
  cases happl with
  | @entry lane entry hseq hid hlane hpar =>
    have hnext : (state.addEntry lane entry).norm = state.norm.addEntry lane entry.norm := by
      simp only [addEntry, SessionState.norm, List.map_append, JsMap.mapValues_set]
      congr 1
      by_cases htype : entry.type = .message
      · simp [Entry.norm, SessionStats.norm, htype]
      · simp [Entry.norm, htype]
    rw [hnext]
    refine .entry hseq hid hlane fun id hparentId => ?_
    rw [SessionState.norm, JsMap.has_mapValues]
    exact hpar id hparentId
  | @record record hseq hlane hid =>
    have hnext : (state.addRecord record).norm = state.norm.addRecord record.norm := by
      simp only [addRecord, SessionState.norm, List.map_append, trackOperation_norm, addUsage_norm]
      rfl
    rw [hnext]
    exact .record hseq hlane hid
  | @lane seq lane leafId hseq hleaf =>
    have hnext : (state.setLane seq lane leafId).norm = state.norm.setLane seq lane leafId := by
      simp only [setLane, SessionState.norm, List.map_append]
      rfl
    rw [hnext]
    refine .lane hseq fun id hid => ?_
    rw [SessionState.norm, JsMap.has_mapValues]
    exact hleaf id hid
  | @name seq name hseq =>
    have hnext : (state.setName seq name).norm = state.norm.setName seq name := by
      simp only [setName, SessionState.norm, List.map_append]
      rfl
    rw [hnext]
    exact .name hseq
  | @label seq targetId label hseq htgt =>
    have hnext : (state.setLabel seq targetId label).norm =
        state.norm.setLabel seq targetId label := by
      simp only [setLabel, SessionState.norm, List.map_append]
      rfl
    rw [hnext]
    refine .label hseq ?_
    rw [SessionState.norm, JsMap.has_mapValues]
    exact htgt

theorem AppliesAll.norm {state next : SessionState} {mutations : List SessionMutation}
    (hrun : AppliesAll state mutations next) :
    AppliesAll state.norm (mutations.map SessionMutation.norm) next.norm := by
  induction hrun with
  | nil => exact .nil
  | cons happl _ ih => exact .cons happl.norm ih

end SessionState

end PiRp.Session
