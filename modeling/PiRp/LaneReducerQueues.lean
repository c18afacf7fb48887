import PiRp.LaneReducer

/-! Queued input across a recovery. Every item that was enqueued is an entry by now, was cancelled, is pending in
one list, or was dropped with its operation; and an entry that materializes a pending item takes it off the
lists and nothing else. -/

namespace PiRp.Reducer

open List Sequenced Bool

/-! ### What was enqueued -/

/-- The enqueued items with their queues, in the order of the records. -/
def enqueued (records : List Record) : List (Queue × Target) :=
  records.filterMap fun record =>
    match record.body with
    | .queueEnqueued queue target => some (queue, target)
    | _ => none

theorem queuedTargets_eq (wanted : Queue → Bool) (records : List Record) :
    queuedTargets wanted records = ((enqueued records).filter fun item => wanted item.1).map Prod.snd := by
  induction records with
  | nil => rfl
  | cons record rest ih =>
    rw [queuedTargets, enqueued, filterMap_cons, filterMap_cons, ← queuedTargets, ← enqueued]
    cases record.body with
    | queueEnqueued queue target =>
      dsimp only
      rw [filter_cons]
      cases hwan : wanted queue with
      | true => simp [ih]
      | false => simp [ih]
    | _ => exact ih

/-- The lists of input an operation or a lane has yet to take. -/
inductive PendingList where
  | steer
  | followUp
  | nextRun
  | initialMessages
  | writes

namespace LaneState

/-- A list of the open operation, empty without one. -/
def ofOperation (state : LaneState) (list : OperationState → List Target) : List Target :=
  state.operation.elim [] list

def pending (state : LaneState) : PendingList → List Target
  | .steer => state.ofOperation OperationState.pendingSteer
  | .followUp => state.ofOperation OperationState.pendingFollowUp
  | .nextRun => state.pendingNextRun
  | .initialMessages => state.ofOperation OperationState.missingInitialMessages
  | .writes => state.ofOperation OperationState.pendingWrites

end LaneState

/-- Whether the entry of an id exists. -/
def isPresent (input : LaneReductionInput) (id : JsStr) : Bool :=
  (input.entries ++ input.ownEntries).any fun entry => entry.id = id

def isCancelled (input : LaneReductionInput) (id : JsStr) : Bool := (cancelledQueueIds input.records).contains id

/-- The initial messages of the open operation. -/
def initialMessages (input : LaneReductionInput) : List Target :=
  input.openOperations.head?.elim [] fun started => started.intent.initialMessages

/-- How often an id is listed. -/
def listed (id : JsStr) (targets : List Target) : Nat := (targets.map Target.id).count id

/-- In how many ways an enqueued item is accounted for. -/
def accounts (input : LaneReductionInput) (state : LaneState) (id : JsStr) : Nat :=
  (if isPresent input id then 1 else 0) + (if isCancelled input id then 1 else 0) +
    listed id (state.pending .steer) + listed id (state.pending .followUp) + listed id (state.pending .nextRun) +
    listed id (state.pending .initialMessages)

/-- An item of an operation that is aborting or is not open. -/
def Dropped (state : LaneState) (queue : Queue) : Prop :=
  ∃ runId, queue.runId? = some runId ∧ ∀ operation, state.operation = some operation → operation.id = runId →
    operation.aborting = true

/-! ### The lists of a valid slice -/

section Lists

variable (input : LaneReductionInput)

theorem has_entriesMap {entries : List Entry} {id : JsStr} :
    ((entriesMap entries).get? id).isSome = true ↔ ∃ entry ∈ entries, entry.id = id := has_index

theorem isPresent_iff {id : JsStr} : isPresent input id = true ↔
    ∃ entry ∈ input.entries ++ input.ownEntries, entry.id = id := by
  rw [isPresent, any_eq_true]
  simp only [decide_eq_true_eq]

theorem isNone_entriesMap (id : JsStr) :
    ((entriesMap (input.entries ++ bySequence Entry.seq input.ownEntries)).get? id).isNone = !isPresent input id := by
  rw [Bool.eq_iff_iff, Option.isNone_iff_eq_none, ← Option.not_isSome_iff_eq_none, has_entriesMap, not_eq_true',
    ← not_eq_true, isPresent_iff]
  simp only [mem_append, mem_bySequence]

theorem mem_cancelledQueueIds {records : List Record} {id : JsStr} : id ∈ cancelledQueueIds records ↔
    ∃ record ∈ records, ∃ runId, record.body = .queueCancelled runId id := by
  rw [cancelledQueueIds, mem_filterMap]
  refine exists_congr fun record => and_congr_right fun _ => ?_
  cases hbody : record.body with
  | queueCancelled runId entryId => simp
  | _ => simp

theorem contains_cancelled (id : JsStr) :
    (cancelledQueueIds (bySequence Record.seq input.records)).contains id = isCancelled input id := by
  rw [isCancelled, contains_eq_mem, contains_eq_mem, decide_eq_decide, mem_cancelledQueueIds, mem_cancelledQueueIds]
  simp only [mem_bySequence]

/-- Neither an entry nor cancelled. -/
def isPending (target : Target) : Bool := !isPresent input target.id && !isCancelled input target.id

/-- The targets of a queue in the order they were enqueued. -/
def inOrder (wanted : Queue → Bool) : List Target :=
  ((enqueued (bySequence Record.seq input.records)).filter fun item => wanted item.1).map Prod.snd

theorem reduceValid_pendingNextRun : (reduceValid input).laneState.pendingNextRun =
    (inOrder input (· = .nextRun)).filter fun target =>
      isPending input target && !((initialMessages input).map Target.id).contains target.id := by
  rw [reduceValid]
  simp only [isNone_entriesMap, contains_cancelled, queuedTargets_eq]
  cases hstar : input.openOperations.head? with
  | none => rw [initialMessages, hstar]; rfl
  | some started => rw [initialMessages, hstar]; rfl

theorem reduceValid_operation_none (hstar : input.openOperations.head? = none) :
    (reduceValid input).laneState.operation = none := by
  simp only [reduceValid, hstar]

/-- Whether the records of an operation hold a request to abort it. -/
def isAborting (operationId : JsStr) : Bool :=
  ((bySequence Record.seq input.records).filter (belongsTo operationId)).any isAbortRequest

theorem reduceValid_operation {started : OperationStarted} (hstar : input.openOperations.head? = some started) :
    ∃ operation, (reduceValid input).laneState.operation = some operation ∧ operation.id = started.id ∧
      operation.aborting = isAborting input started.id ∧ operation.missingInitialMessages =
        ((initialMessages input).filter fun target => !isPresent input target.id) ∧
      operation.pendingSteer = (if isAborting input started.id then [] else
        (inOrder input (· = .steer started.id)).filter (isPending input)) ∧
      operation.pendingFollowUp = (if isAborting input started.id then [] else
        (inOrder input (· = .followUp started.id)).filter (isPending input)) ∧ operation.pendingWrites =
        (deferredWrites ((bySequence Record.seq input.records).filter (belongsTo started.id))).filter fun target =>
          !isPresent input target.id := by
  rw [reduceValid]
  simp only [hstar, isNone_entriesMap, contains_cancelled, queuedTargets_eq]
  refine ⟨_, rfl, rfl, rfl, ?_, rfl, rfl, rfl⟩
  rw [initialMessages, hstar]
  rfl

end Lists

/-! ### Accounting -/

section Accounting

variable {input : LaneReductionInput} {queue : Queue} {target : Target}

/-- The items have different ids. -/
def DistinctItems (input : LaneReductionInput) : Prop := ((enqueued input.records).map fun item => item.2.id).Nodup

instance (input : LaneReductionInput) : Decidable (DistinctItems input) :=
  inferInstanceAs (Decidable ((enqueued input.records).map fun item => item.2.id).Nodup)

/-- An item that was captured as an initial message was one of the next run, was captured once and is kept. -/
def CapturedOnce (input : LaneReductionInput) (queue : Queue) (target : Target) : Prop :=
  target.id ∈ (initialMessages input).map Target.id →
    listed target.id (initialMessages input) = 1 ∧ isCancelled input target.id = false ∧ queue = .nextRun

theorem enqueued_perm (input : LaneReductionInput) :
    (enqueued (bySequence Record.seq input.records)).Perm (enqueued input.records) :=
  (bySequence_perm Record.seq input.records).filterMap _

theorem listed_inOrder (hitems : DistinctItems input) (hmem : (queue, target) ∈ enqueued input.records)
    (wanted : Queue → Bool) (admits : Target → Bool) :
    listed target.id ((inOrder input wanted).filter admits) = if wanted queue && admits target then 1 else 0 := by
  have hnodup : ((enqueued (bySequence Record.seq input.records)).map fun item => item.2.id).Nodup :=
    ((enqueued_perm input).map _).nodup_iff.mpr hitems
  have hsub : (((inOrder input wanted).filter admits).map Target.id).Sublist
      ((enqueued (bySequence Record.seq input.records)).map fun item => item.2.id) := by
    have hall : (inOrder input wanted).Sublist ((enqueued (bySequence Record.seq input.records)).map Prod.snd) :=
      filter_sublist.map _
    have hids : (((inOrder input wanted).filter admits).map Target.id).Sublist
        (((enqueued (bySequence Record.seq input.records)).map Prod.snd).map Target.id) :=
      (filter_sublist.trans hall).map Target.id
    rwa [map_map] at hids
  have hlis : target.id ∈ ((inOrder input wanted).filter admits).map Target.id ↔
      (wanted queue && admits target) = true := by
    have hitem := (enqueued_perm input).mem_iff.mpr hmem
    rw [mem_map, and_eq_true]
    constructor
    · rintro ⟨found, hfound, hid⟩
      obtain ⟨hfound, hadm⟩ := mem_filter.mp hfound
      obtain ⟨item, hitems, rfl⟩ := mem_map.mp hfound
      obtain ⟨hitems, hwan⟩ := mem_filter.mp hitems
      obtain rfl : item = (queue, target) := inj_on_of_nodup_map hnodup hitems hitem hid
      exact ⟨hwan, hadm⟩
    · rintro ⟨hwan, hadm⟩
      have hlis : target ∈ inOrder input wanted :=
        mem_map.mpr ⟨_, mem_filter.mpr ⟨hitem, hwan⟩, rfl⟩
      exact ⟨target, mem_filter.mpr ⟨hlis, hadm⟩, rfl⟩
  rw [listed, (hnodup.sublist hsub).count]
  exact if_congr hlis rfl rfl

theorem listed_filter_missing (id : JsStr) (targets : List Target) :
    listed id (targets.filter fun target => !isPresent input target.id) =
      if isPresent input id then 0 else listed id targets := by
  induction targets with
  | nil => simp [listed]
  | cons target rest ih =>
    rw [listed] at ih ⊢
    rw [filter_cons, listed, map_cons, count_cons]
    by_cases hid : target.id = id
    · subst hid
      cases hpres : isPresent input target.id with
      | true => simpa [hpres] using ih
      | false =>
        rw [hpres] at ih
        simpa [hpres, listed] using ih
    · cases isPresent input target.id <;> simpa [hid, listed] using ih

theorem require_eq_ok {condition : Bool} {reason : Reason} {message : JsStr} :
    require condition reason message = .ok () ↔ condition = true := by
  rw [require]
  cases condition <;> simp

variable [DeepEqual]

variable (hvalid : validateRecordLog input.toRecordLogSlice = .ok ())

include hvalid

theorem validateRecordLog_mem {record : Record} (hrec : record ∈ input.records) :
    ∃ before after, validateRecord (entriesMap input.entries).get? before record = .ok after := by
  rw [validateRecordLog] at hvalid
  obtain ⟨-, -, hvalid⟩ := bind_eq_ok.mp hvalid
  obtain ⟨-, -, hvalid⟩ := bind_eq_ok.mp hvalid
  obtain ⟨last, hrun, -⟩ := bind_eq_ok.mp hvalid
  exact foldlM_mem hrun (mem_bySequence.mpr hrec)

theorem isPresent_of_cancelled
    (hown : ∀ entry ∈ input.ownEntries, ∃ found ∈ input.entries, found.id = entry.id) {id : JsStr}
    (hcan : isCancelled input id = true) : isPresent input id = false := by
  rw [isCancelled, contains_iff_mem, mem_cancelledQueueIds] at hcan
  obtain ⟨record, hrec, runId, hbody⟩ := hcan
  obtain ⟨before, after, hacc⟩ := validateRecordLog_mem hvalid hrec
  rw [validateRecord] at hacc
  obtain ⟨_, -, hacc⟩ := bind_eq_ok.mp hacc
  rw [hbody] at hacc
  obtain ⟨_, hreq, -⟩ := bind_eq_ok.mp hacc
  have habs := (and_eq_true_iff.mp (require_eq_ok.mp hreq)).2
  rw [← not_eq_true, isPresent_iff]
  rintro ⟨entry, hentry, rfl⟩
  obtain ⟨found, hfound, hid⟩ : ∃ found ∈ input.entries, found.id = entry.id := by
    rcases mem_append.mp hentry with hentry | hentry
    · exact ⟨entry, hentry, rfl⟩
    · exact hown entry hentry
  have hpres := has_entriesMap.mpr ⟨found, hfound, hid⟩
  rw [Option.isNone_iff_eq_none] at habs
  rw [habs] at hpres
  exact nomatch hpres

theorem accounts_once (hown : ∀ entry ∈ input.ownEntries, ∃ found ∈ input.entries, found.id = entry.id)
    (hitems : DistinctItems input) (hmem : (queue, target) ∈ enqueued input.records)
    (hcap : CapturedOnce input queue target) : accounts input (reduceValid input).laneState target.id = 1 ∨
      (accounts input (reduceValid input).laneState target.id = 0 ∧ Dropped (reduceValid input).laneState queue) := by
  have hexcl : isCancelled input target.id = true → isPresent input target.id = false :=
    isPresent_of_cancelled hvalid hown
  have hnext := listed_inOrder hitems hmem (· = .nextRun) fun target =>
    isPending input target && !((initialMessages input).map Target.id).contains target.id
  rw [← reduceValid_pendingNextRun] at hnext
  have hcon : ((initialMessages input).map Target.id).contains target.id = true ↔
      target.id ∈ (initialMessages input).map Target.id := contains_iff_mem
  have hmis : target.id ∉ (initialMessages input).map Target.id → listed target.id (initialMessages input) = 0 :=
    count_eq_zero_of_not_mem
  rw [accounts, LaneState.pending, LaneState.pending, LaneState.pending, hnext]
  cases hstar : input.openOperations.head? with
  | none =>
    have hnone := reduceValid_operation_none input hstar
    have hinit : initialMessages input = [] := by rw [initialMessages, hstar]; rfl
    simp only [LaneState.pending, LaneState.ofOperation, hnone, hinit, Dropped, isPending, Option.elim_none,
      listed, map_nil, count_nil, contains_nil]
    cases hpres : isPresent input target.id <;> cases hcan : isCancelled input target.id <;>
      cases queue <;> simp_all [Queue.runId?]
  | some started =>
    obtain ⟨operation, hoper, hid, habor, hinit, hsteer, hfollowUp, -⟩ :=
      reduceValid_operation input hstar
    have hsteer' := listed_inOrder hitems hmem (· = .steer started.id) (isPending input)
    have hfollowUp' := listed_inOrder hitems hmem (· = .followUp started.id) (isPending input)
    have hlist : ∀ targets : List Target, listed target.id (if isAborting input started.id then [] else targets) =
        if isAborting input started.id then 0 else listed target.id targets := by
      intro targets
      split_ifs <;> rfl
    simp only [LaneState.pending, LaneState.ofOperation, hoper, Option.elim_some, hinit, hsteer, hfollowUp,
      hlist, hsteer', hfollowUp', listed_filter_missing, Dropped, isPending, Option.some.injEq, forall_eq', hid, habor]
    by_cases hins : target.id ∈ (initialMessages input).map Target.id
    · obtain ⟨hone, hkept, rfl⟩ := hcap hins
      simp only [hcon.mpr hins, hone, hkept]
      by_cases hpres : isPresent input target.id = true
      · simp [hpres]
      · simp [hpres]
    · have hout := eq_false_iff.mpr (hcon.not.mpr hins)
      simp only [hout, hmis hins]
      by_cases hpres : isPresent input target.id = true
      · have hkept : isCancelled input target.id = false := by
          rw [← not_eq_true]
          intro hcan
          exact nomatch hpres.symm.trans (hexcl hcan)
        simp [hpres, hkept]
      · by_cases hcan : isCancelled input target.id = true
        · simp [hpres, hcan]
        · cases queue with
          | nextRun => simp [hpres, hcan]
          | steer runId =>
            by_cases hrun : runId = started.id
            · by_cases habort : isAborting input started.id = true
              · simp [hpres, hcan, hrun, habort, Queue.runId?]
              · simp [hpres, hcan, hrun, habort]
            · simp [hpres, hcan, hrun, Ne.symm hrun, Queue.runId?]
          | followUp runId =>
            by_cases hrun : runId = started.id
            · by_cases habort : isAborting input started.id = true
              · simp [hpres, hcan, hrun, habort, Queue.runId?]
              · simp [hpres, hcan, hrun, habort]
            · simp [hpres, hcan, hrun, Ne.symm hrun, Queue.runId?]

end Accounting

end PiRp.Reducer
