import PiRp.LaneReducerQueues

/-! The entry that stores a pending item: a slice with it is valid when the slice without it is, and the item
leaves the list it was pending in. -/

namespace PiRp.Reducer

open List Sequenced LaneState

/-! ### Entries that store an item -/

/-- The targets a record provisions. -/
def Record.provisioned (record : Record) : List Target :=
  match record.body with
  | .operationStarted _ intent => intent.initialMessages
  | .queueEnqueued _ target => [target]
  | .writeDeferred _ target => [target]
  | _ => []

/-- The ids a record provisions for results. -/
def Record.resultIds (record : Record) : List JsStr :=
  match record.body with
  | .operationStarted _ (.compaction resultEntryId _) => [resultEntryId]
  | .operationStarted _ (.navigation summaryEntryId _) => summaryEntryId.toList
  | .stepAttempt attempt => [attempt.resultEntryId]
  | .toolStarted started => [started.resultEntryId]
  | _ => []

/-- A slice with one more entry, which the open operation may own. -/
def materialize (input : LaneReductionInput) (entry : Entry) (isOwn : Bool) : LaneReductionInput :=
  { input with
    entries := input.entries ++ [entry]
    ownEntries := if isOwn then input.ownEntries ++ [entry] else input.ownEntries }

section Stored

variable [DeepEqual]

/-- A new entry, after every record, with the content of the targets of its id, that is neither cancelled nor
the result of a step. -/
structure Stores (input : LaneReductionInput) (entry : Entry) : Prop where
  isNew : isPresent input entry.id = false
  isKept : isCancelled input entry.id = false
  follows : ∀ record ∈ input.records, record.seq < entry.seq
  content : ∀ record ∈ input.records, ∀ target ∈ record.provisioned, target.id = entry.id →
    matchesProvisionedEntry entry target = true
  noResult : ∀ record ∈ input.records, entry.id ∉ record.resultIds
  handle : lacksHandle entry = false

/-! ### Validity -/

/-- The entries with one more. -/
def extend (entriesById : EntriesById) (entry : Entry) : EntriesById := fun id =>
  if id = entry.id then some entry else entriesById id

omit [DeepEqual] in
theorem entriesMap_append (entries : List Entry) (entry : Entry) :
    (entriesMap (entries ++ [entry])).get? = extend (entriesMap entries).get? entry := by
  funext id
  rw [entriesMap, index, foldl_append, foldl_cons, foldl_nil, JsMap.get?_set]
  rfl

section Extend

variable {entriesById : EntriesById} {entry : Entry}

omit [DeepEqual] in
theorem extend_same : extend entriesById entry entry.id = some entry := if_pos rfl

omit [DeepEqual] in
theorem extend_other {id : JsStr} (hid : id ≠ entry.id) : extend entriesById entry id = entriesById id := if_neg hid

theorem validateExactProvisionedEntry_extend {target : Target}
    (hcont : target.id = entry.id → matchesProvisionedEntry entry target = true)
    (hvalid : validateExactProvisionedEntry entriesById target = .ok ()) :
    validateExactProvisionedEntry (extend entriesById entry) target = .ok () := by
  rw [validateExactProvisionedEntry, require_eq_ok] at hvalid ⊢
  by_cases hid : target.id = entry.id
  · rw [hid, extend_same]
    exact hcont hid
  · rwa [extend_other hid]

omit [DeepEqual] in
theorem validateResultEntry_extend {resultEntryId description : JsStr} {isMatch : Entry → Bool}
    (hid : resultEntryId ≠ entry.id) :
    validateResultEntry (extend entriesById entry) resultEntryId isMatch description =
      validateResultEntry entriesById resultEntryId isMatch description := by
  rw [validateResultEntry, validateResultEntry, extend_other hid]

omit [DeepEqual] in
theorem validateAttemptSequence_extend {id : JsStr} {seq : Nat} {attempt : StepAttempt}
    {previous : Option StepAttempt} (hnew : entriesById entry.id = none) (hseq : seq < entry.seq) :
    validateAttemptSequence id seq attempt previous (extend entriesById entry) =
      validateAttemptSequence id seq attempt previous entriesById := by
  have hall : ∀ resultEntryId, ((extend entriesById entry resultEntryId).all fun result => decide (seq ≤ result.seq)) =
      (entriesById resultEntryId).all fun result => decide (seq ≤ result.seq) := by
    intro resultEntryId
    by_cases hid : resultEntryId = entry.id
    · rw [hid, extend_same, hnew]
      exact decide_eq_true hseq.le
    · rw [extend_other hid]
  simp only [validateAttemptSequence, hall]

omit [DeepEqual] in
theorem validateAttemptResult_extend {attempt : StepAttempt} (hid : attempt.resultEntryId ≠ entry.id) :
    validateAttemptResult (extend entriesById entry) attempt = validateAttemptResult entriesById attempt := by
  simp only [validateAttemptResult, validateResultEntry_extend hid]

omit [DeepEqual] in
theorem validateToolStart_extend {id : JsStr} {started : ToolStarted} {invocations found : List (JsStr × Nat)}
    (hnew : entriesById entry.id = none) (hid : started.resultEntryId ≠ entry.id)
    (hvalid : validateToolStart id started entriesById invocations = .ok found) :
    validateToolStart id started (extend entriesById entry) invocations = .ok found := by
  have hass : started.assistantEntryId ≠ entry.id := by
    intro hsame
    rw [validateToolStart] at hvalid
    obtain ⟨_, -, hvalid⟩ := bind_eq_ok.mp hvalid
    rw [hsame, hnew] at hvalid
    exact nomatch hvalid
  rw [validateToolStart] at hvalid ⊢
  rwa [extend_other hass, validateResultEntry_extend hid]

theorem forM_extend {targets : List Target}
    (hcont : ∀ target ∈ targets, target.id = entry.id → matchesProvisionedEntry entry target = true)
    (hvalid : targets.forM (validateExactProvisionedEntry entriesById) = .ok ()) :
    targets.forM (validateExactProvisionedEntry (extend entriesById entry)) = .ok () := by
  induction targets with
  | nil => rfl
  | cons target rest ih =>
    rw [forM_eq_forM, forM_cons] at hvalid ⊢
    obtain ⟨_, hfirst, hrest⟩ := bind_eq_ok.mp hvalid
    refine bind_eq_ok.mpr ⟨(), validateExactProvisionedEntry_extend (hcont target mem_cons_self) hfirst, ?_⟩
    exact ih (fun target htgt => hcont target (mem_cons_of_mem _ htgt)) hrest

theorem validateOperationResult_extend {intent : Intent}
    (hcont : ∀ target ∈ intent.initialMessages, target.id = entry.id → matchesProvisionedEntry entry target = true)
    (hcomp : ∀ resultEntryId rest, intent = .compaction resultEntryId rest → resultEntryId ≠ entry.id)
    (hnav : ∀ summaryEntryId rest, intent = .navigation (some summaryEntryId) rest → summaryEntryId ≠ entry.id)
    (hvalid : validateOperationResult entriesById intent = .ok ()) :
    validateOperationResult (extend entriesById entry) intent = .ok () := by
  cases intent with
  | run initialMessages rest => exact forM_extend hcont hvalid
  | compaction resultEntryId rest =>
    rw [validateOperationResult] at hvalid ⊢
    rwa [validateResultEntry_extend (hcomp resultEntryId rest rfl)]
  | navigation summaryEntryId rest =>
    cases summaryEntryId with
    | none => exact hvalid
    | some summaryEntryId =>
      rw [validateOperationResult] at hvalid ⊢
      rwa [validateResultEntry_extend (hnav summaryEntryId rest rfl)]

theorem validateRecord_extend {seen after : Seen} {record : Record} (hnew : entriesById entry.id = none)
    (hseq : record.seq < entry.seq)
    (hcont : ∀ target ∈ record.provisioned, target.id = entry.id → matchesProvisionedEntry entry target = true)
    (hres : entry.id ∉ record.resultIds) (hkept : ∀ runId, record.body ≠ .queueCancelled runId entry.id)
    (hvalid : validateRecord entriesById seen record = .ok after) :
    validateRecord (extend entriesById entry) seen record = .ok after := by
  rw [validateRecord] at hvalid ⊢
  obtain ⟨_, hrun, hvalid⟩ := bind_eq_ok.mp hvalid
  refine bind_eq_ok.mpr ⟨(), hrun, ?_⟩
  rw [Record.provisioned] at hcont
  rw [Record.resultIds] at hres
  cases hbody : record.body with
  | operationStarted sourceLeafId intent =>
    rw [hbody] at hvalid hcont hres
    obtain ⟨_, hint, hvalid⟩ := bind_eq_ok.mp hvalid
    refine bind_eq_ok.mpr ⟨(), validateOperationResult_extend hcont ?_ ?_ hint, hvalid⟩
    · rintro resultEntryId rest rfl rfl
      exact hres mem_cons_self
    · rintro summaryEntryId rest rfl rfl
      exact hres mem_cons_self
  | stepAttempt attempt =>
    rw [hbody] at hvalid hres
    have hid : attempt.resultEntryId ≠ entry.id := fun hsame => hres (hsame ▸ mem_cons_self)
    simp only [validateAttemptSequence_extend hnew hseq, validateAttemptResult_extend hid]
    exact hvalid
  | toolStarted started =>
    rw [hbody] at hvalid hres
    have hid : started.resultEntryId ≠ entry.id := fun hsame => hres (hsame ▸ mem_cons_self)
    obtain ⟨invocations, htool, hvalid⟩ := bind_eq_ok.mp hvalid
    exact bind_eq_ok.mpr ⟨invocations, validateToolStart_extend hnew hid htool, hvalid⟩
  | queueEnqueued queue target =>
    rw [hbody] at hvalid hcont
    obtain ⟨_, habort, hvalid⟩ := bind_eq_ok.mp hvalid
    obtain ⟨_, htgt, hvalid⟩ := bind_eq_ok.mp hvalid
    have hstored := validateExactProvisionedEntry_extend (hcont target mem_cons_self) htgt
    exact bind_eq_ok.mpr ⟨(), habort, bind_eq_ok.mpr ⟨(), hstored, hvalid⟩⟩
  | queueCancelled runId entryId =>
    rw [hbody] at hvalid
    have hid : entryId ≠ entry.id := by
      rintro rfl
      exact hkept runId hbody
    simp only [extend_other hid]
    exact hvalid
  | writeDeferred runId target =>
    rw [hbody] at hvalid hcont
    obtain ⟨_, htgt, hvalid⟩ := bind_eq_ok.mp hvalid
    have hstored := validateExactProvisionedEntry_extend (hcont target mem_cons_self) htgt
    exact bind_eq_ok.mpr ⟨(), hstored, hvalid⟩
  | _ =>
    rw [hbody] at hvalid
    exact hvalid

end Extend

omit [DeepEqual] in
theorem validateDeferredHandles_eq_ok {entries : List Entry} :
    validateDeferredHandles entries = .ok () ↔ ∀ entry ∈ entries, lacksHandle entry = false := by
  rw [validateDeferredHandles]
  cases hfound : entries.find? lacksHandle with
  | none =>
    refine iff_of_true rfl fun entry hentry => ?_
    exact Bool.eq_false_iff.mpr (find?_eq_none.mp hfound entry hentry)
  | some entry =>
    refine iff_of_false (fun hok => nomatch hok) fun hall => ?_
    have hlacks := find?_some hfound
    rw [hall entry (mem_of_find?_eq_some hfound)] at hlacks
    exact nomatch hlacks

variable {input : LaneReductionInput} {entry : Entry}

theorem Stores.validateRecordLog (hstor : Stores input entry) (isOwn : Bool)
    (hvalid : validateRecordLog input.toRecordLogSlice = .ok ()) :
    Reducer.validateRecordLog (materialize input entry isOwn).toRecordLogSlice = .ok () := by
  have hnew : (entriesMap input.entries).get? entry.id = none := by
    rw [← Option.not_isSome_iff_eq_none, has_entriesMap]
    rintro ⟨found, hfound, hid⟩
    have hpres := (isPresent_iff input).mpr ⟨found, mem_append_left _ hfound, hid⟩
    exact nomatch hstor.isNew.symm.trans hpres
  rw [Reducer.validateRecordLog] at hvalid ⊢
  obtain ⟨_, hopen, hvalid⟩ := bind_eq_ok.mp hvalid
  obtain ⟨_, hhan, hvalid⟩ := bind_eq_ok.mp hvalid
  obtain ⟨last, hrun, -⟩ := bind_eq_ok.mp hvalid
  refine bind_eq_ok.mpr ⟨(), hopen, bind_eq_ok.mpr ⟨(), ?_, bind_eq_ok.mpr ⟨last, ?_, rfl⟩⟩⟩
  · refine validateDeferredHandles_eq_ok.mpr fun found hfound => ?_
    rw [materialize, entriesMap, index, foldl_append] at hfound
    rcases JsMap.mem_values_set hfound with hfound | rfl
    · exact validateDeferredHandles_eq_ok.mp hhan found hfound
    · exact hstor.handle
  · change (bySequence Record.seq input.records).foldlM
      (validateRecord (entriesMap (input.entries ++ [entry])).get?) {} = .ok last
    rw [entriesMap_append]
    refine foldlM_mono (fun record hrec before after hacc => ?_) hrun
    have hrec := mem_bySequence.mp hrec
    refine validateRecord_extend hnew (hstor.follows record hrec) (hstor.content record hrec)
      (hstor.noResult record hrec) (fun runId hbody => ?_) hacc
    have hcan : isCancelled input entry.id = true := by
      rw [isCancelled, contains_iff_mem]
      exact mem_cancelledQueueIds.mpr ⟨record, hrec, runId, hbody⟩
    exact nomatch hstor.isKept.symm.trans hcan

/-! ### The lists after an item is stored -/

omit [DeepEqual] in
theorem isPresent_materialize (input : LaneReductionInput) (entry : Entry) (isOwn : Bool) (id : JsStr) :
    isPresent (materialize input entry isOwn) id = (isPresent input id || entry.id = id) := by
  cases isOwn with
  | false => simp [isPresent, materialize, Bool.or_assoc, Bool.or_comm]
  | true => simp [isPresent, materialize, Bool.or_assoc, Bool.or_comm]

omit [DeepEqual] in
theorem pending_materialize (input : LaneReductionInput) (entry : Entry) (isOwn : Bool) (list : PendingList) :
    (reduceValid (materialize input entry isOwn)).laneState.pending list =
      ((reduceValid input).laneState.pending list).filter fun target => target.id ≠ entry.id := by
  have hmis : (fun target : Target => !isPresent (materialize input entry isOwn) target.id) =
      fun target => decide (target.id ≠ entry.id) && !isPresent input target.id := by
    funext target
    rw [isPresent_materialize, Bool.not_or, ← decide_not, Bool.and_comm]
    simp only [ne_comm]
  have hpend : isPending (materialize input entry isOwn) =
      fun target => decide (target.id ≠ entry.id) && isPending input target := by
    funext target
    rw [isPending, isPending, congrFun hmis target, Bool.and_assoc]
    rfl
  cases list with
  | nextRun =>
    rw [pending, pending, reduceValid_pendingNextRun, reduceValid_pendingNextRun, filter_filter]
    refine filter_congr fun target _ => ?_
    rw [hpend, Bool.and_assoc]
    rfl
  | _ =>
    rw [pending, pending, ofOperation, ofOperation]
    cases hstar : input.openOperations.head? with
    | none =>
      have hbef := reduceValid_operation_none input hstar
      have hafter := reduceValid_operation_none (materialize input entry isOwn) hstar
      rw [hbef, hafter]
      rfl
    | some started =>
      obtain ⟨before, hbef, -, -, hinit, hsteer, hfollowUp, hwrit⟩ := reduceValid_operation input hstar
      obtain ⟨after, hafter, -, -, hinit', hsteer', hfollowUp', hwrit'⟩ :=
        reduceValid_operation (materialize input entry isOwn) hstar
      rw [hmis] at hinit' hwrit'
      rw [hpend] at hsteer' hfollowUp'
      rw [hbef, hafter, Option.elim_some, Option.elim_some]
      first
        | rw [hinit, hinit', filter_filter]; rfl
        | rw [hsteer, hsteer', apply_ite (List.filter _), filter_filter]; rfl
        | rw [hfollowUp, hfollowUp', apply_ite (List.filter _), filter_filter]; rfl
        | rw [hwrit, hwrit', filter_filter]; rfl

/-! ### Conservation -/

omit [DeepEqual] in
theorem filter_of_unlisted {id : JsStr} {targets : List Target} (hlis : listed id targets = 0) :
    targets.filter (fun target => target.id ≠ id) = targets := by
  refine filter_eq_self.mpr fun target htgt => decide_eq_true fun hid => ?_
  exact List.count_eq_zero.mp hlis (mem_map.mpr ⟨target, htgt, hid⟩)

omit [DeepEqual] in
theorem filter_of_listed_once {id : JsStr} {targets : List Target} (hlis : listed id targets = 1) :
    ∃ before stored rest, targets = before ++ stored :: rest ∧ stored.id = id ∧
      targets.filter (fun target => target.id ≠ id) = before ++ rest := by
  have hmem : id ∈ targets.map Target.id := count_pos_iff.mp (hlis.symm ▸ Nat.one_pos : 0 < listed id targets)
  obtain ⟨stored, hstored, rfl⟩ := mem_map.mp hmem
  obtain ⟨before, rest, rfl⟩ := append_of_mem hstored
  rw [listed, map_append, map_cons, count_append, count_cons_self] at hlis
  refine ⟨before, stored, rest, rfl, rfl, ?_⟩
  rw [filter_append, filter_cons_of_neg (by simp), filter_of_unlisted (by rw [listed]; omega),
    filter_of_unlisted (by rw [listed]; omega)]

omit [DeepEqual] in
theorem listed_of_accounts {state : LaneState} {id : JsStr} (hone : accounts input state id ≤ 1)
    {list : PendingList} (hlist : list ≠ .writes) (hmem : id ∈ (state.pending list).map Target.id) :
    listed id (state.pending list) = 1 ∧
      ∀ other, other ≠ list → other ≠ .writes → listed id (state.pending other) = 0 := by
  have hpos : 0 < listed id (state.pending list) := count_pos_iff.mpr hmem
  rw [accounts] at hone
  cases list with
  | writes => exact absurd rfl hlist
  | steer =>
    refine ⟨by omega, fun other hother hwrit => ?_⟩
    cases other <;> first | contradiction | omega
  | followUp =>
    refine ⟨by omega, fun other hother hwrit => ?_⟩
    cases other <;> first | contradiction | omega
  | nextRun =>
    refine ⟨by omega, fun other hother hwrit => ?_⟩
    cases other <;> first | contradiction | omega
  | initialMessages =>
    refine ⟨by omega, fun other hother hwrit => ?_⟩
    cases other <;> first | contradiction | omega

omit [DeepEqual] in
theorem pending_ordered (input : LaneReductionInput) :
    ((reduceValid input).laneState.pending .nextRun).Sublist (inOrder input (· = .nextRun)) ∧
      ((reduceValid input).laneState.pending .initialMessages).Sublist (initialMessages input) ∧
      ∀ operation, (reduceValid input).laneState.operation = some operation →
        operation.pendingSteer.Sublist (inOrder input (· = .steer operation.id)) ∧
        operation.pendingFollowUp.Sublist (inOrder input (· = .followUp operation.id)) := by
  refine ⟨?_, ?_, fun operation hoper => ?_⟩
  · rw [pending, reduceValid_pendingNextRun]
    exact filter_sublist
  · rw [pending, ofOperation]
    cases hstar : input.openOperations.head? with
    | none =>
      rw [reduceValid_operation_none input hstar]
      exact nil_sublist _
    | some started =>
      obtain ⟨operation, hoper, -, -, hinit, -⟩ := reduceValid_operation input hstar
      rw [hoper, Option.elim_some, hinit]
      exact filter_sublist
  · cases hstar : input.openOperations.head? with
    | none => cases hoper.symm.trans (reduceValid_operation_none input hstar)
    | some started =>
      obtain ⟨found, hfound, hid, -, -, hsteer, hfollowUp, -⟩ := reduceValid_operation input hstar
      obtain rfl : operation = found := Option.some.inj (hoper.symm.trans hfound)
      rw [hsteer, hfollowUp, hid]
      split_ifs
      · exact ⟨nil_sublist _, nil_sublist _⟩
      · exact ⟨filter_sublist, filter_sublist⟩

theorem reduceLaneState_eq_ok {result : LaneReductionResult} : reduceLaneState input = .ok result ↔
    validateRecordLog input.toRecordLogSlice = .ok () ∧ result = reduceValid input := by
  rw [reduceLaneState, bind_eq_ok]
  exact ⟨fun ⟨_, hvalid, heq⟩ => ⟨hvalid, (Except.ok.inj heq).symm⟩, fun ⟨hvalid, heq⟩ => ⟨(), hvalid, heq ▸ rfl⟩⟩

/-- **Queued input is conserved across a recovery**: an enqueued item is accounted for once or was dropped with
its operation, the lists are in order, and the entry that stores a pending item takes it off its list and
changes no other list of the queues. -/
theorem queues_conserved {result : LaneReductionResult} (hacc : reduceLaneState input = .ok result)
    (hown : ∀ entry ∈ input.ownEntries, ∃ found ∈ input.entries, found.id = entry.id) (hitems : DistinctItems input) :
    (∀ queue target, (queue, target) ∈ enqueued input.records → CapturedOnce input queue target →
      accounts input result.laneState target.id = 1 ∨
        (accounts input result.laneState target.id = 0 ∧ Dropped result.laneState queue)) ∧
    ((result.laneState.pending .nextRun).Sublist (inOrder input (· = .nextRun)) ∧
      (result.laneState.pending .initialMessages).Sublist (initialMessages input) ∧
      ∀ operation, result.laneState.operation = some operation →
        operation.pendingSteer.Sublist (inOrder input (· = .steer operation.id)) ∧
        operation.pendingFollowUp.Sublist (inOrder input (· = .followUp operation.id))) ∧
    ∀ entry isOwn, Stores input entry → ∃ after, reduceLaneState (materialize input entry isOwn) = .ok after ∧
        (∀ list, after.laneState.pending list =
          (result.laneState.pending list).filter fun target => target.id ≠ entry.id) ∧
        ∀ queue target list, (queue, target) ∈ enqueued input.records → CapturedOnce input queue target →
          target.id = entry.id → list ≠ .writes → target.id ∈ (result.laneState.pending list).map Target.id →
            (∃ before stored rest, result.laneState.pending list = before ++ stored :: rest ∧ stored.id = entry.id ∧
              after.laneState.pending list = before ++ rest) ∧ ∀ other, other ≠ list → other ≠ .writes →
              after.laneState.pending other = result.laneState.pending other := by
  obtain ⟨hvalid, rfl⟩ := reduceLaneState_eq_ok.mp hacc
  have haccoun := fun queue target (hmem : (queue, target) ∈ enqueued input.records)
    (hcap : CapturedOnce input queue target) => accounts_once hvalid hown hitems hmem hcap
  refine ⟨haccoun, pending_ordered input, fun entry isOwn hstor => ?_⟩
  refine ⟨_, reduceLaneState_eq_ok.mpr ⟨hstor.validateRecordLog isOwn hvalid, rfl⟩,
    pending_materialize input entry isOwn, fun queue target list hmem hcap hid hlist htgt => ?_⟩
  have hone : accounts input (reduceValid input).laneState target.id ≤ 1 := by
    rcases haccoun queue target hmem hcap with hone | ⟨hzero, -⟩
    · exact hone.le
    · exact hzero.le.trans (Nat.zero_le 1)
  obtain ⟨hlis, hoth⟩ := listed_of_accounts hone hlist htgt
  simp only [pending_materialize, ← hid]
  exact ⟨filter_of_listed_once hlis, fun other hother hwrit => filter_of_unlisted (hoth other hother hwrit)⟩

end Stored

section Samples

/-- Deep equality of values whose properties stand in one order. -/
local instance queueEqual : DeepEqual where
  isDeepEqual left right := left = right

def queuedTarget : Target := ⟨js "a", .message (.other .user [(js "content", .string (js "go"))]) false⟩

/-- A run that captured an item of the next run after it was cancelled. -/
def cancelledSlice : LaneReductionInput where
  lane := js "main"
  openOperations := [⟨js "run-1", 3, js "main", .int 3, none, .run [queuedTarget] []⟩]
  records := [⟨js "q", 1, js "main", .int 1, .queueEnqueued .nextRun queuedTarget⟩,
    ⟨js "c", 2, js "main", .int 2, .queueCancelled none (js "a")⟩,
    ⟨js "run-1", 3, js "main", .int 3, .operationStarted none (.run [queuedTarget] [])⟩]
  entries := []
  leafId := none
  ownEntries := []
  configurationEntries := []
  defaults := ⟨js "openai", js "m", js "off", []⟩

/-- The captured item is cancelled and an initial message that is missing. -/
theorem cancelled_capture : DistinctItems cancelledSlice ∧
    (Queue.nextRun, queuedTarget) ∈ enqueued cancelledSlice.records ∧
    (reduceLaneState cancelledSlice).toOption.map (fun result => accounts cancelledSlice result.laneState (js "a")) =
      some 2 := by
  decide +kernel

/-- A run with an item that steers it. -/
def steeredSlice : LaneReductionInput :=
  { cancelledSlice with
    openOperations := [⟨js "run-1", 1, js "main", .int 1, none, .run [] []⟩]
    records := [⟨js "run-1", 1, js "main", .int 1, .operationStarted none (.run [] [])⟩,
      ⟨js "q", 2, js "main", .int 2, .queueEnqueued (.steer (js "run-1")) queuedTarget⟩] }

def storedEntry : Entry := { queuedTarget with parentId := none, seq := 3, timestamp := .int 3 }

theorem storedEntry_stores : Stores steeredSlice storedEntry where
  isNew := by decide +kernel
  isKept := by decide +kernel
  follows := by decide +kernel
  content := by decide +kernel
  noResult := by decide +kernel
  handle := by decide +kernel

theorem queues_conserved_sample : accounts steeredSlice (reduceValid steeredSlice).laneState (js "a") = 1 ∧
    ∃ after, reduceLaneState (materialize steeredSlice storedEntry true) = .ok after ∧
      after.laneState.pending .steer = [] := by
  have hvalid : reduceLaneState steeredSlice = .ok (reduceValid steeredSlice) :=
    reduceLaneState_eq_ok.mpr ⟨by decide +kernel, rfl⟩
  have hmem : (Queue.steer (js "run-1"), queuedTarget) ∈ enqueued steeredSlice.records := by decide +kernel
  have hcap : CapturedOnce steeredSlice (.steer (js "run-1")) queuedTarget := fun hins => nomatch hins
  obtain ⟨hone, -, hstored⟩ := queues_conserved hvalid (fun entry hentry => nomatch hentry) (by decide +kernel)
  obtain ⟨after, hafter, hlists, -⟩ := hstored storedEntry true storedEntry_stores
  refine ⟨?_, after, hafter, ?_⟩
  · exact (hone _ _ hmem hcap).resolve_right fun ⟨hzero, _⟩ => absurd hzero (by decide +kernel)
  · rw [hlists]
    decide +kernel

end Samples

end PiRp.Reducer
