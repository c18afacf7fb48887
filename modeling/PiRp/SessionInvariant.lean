import PiRp.SessionState

/-! The invariant of `SessionState` over every run of offered mutations. `Applies` says once what an
accepted mutation requires and does; a rejected one changes nothing. The invariant relates the state
to the mutations accepted so far. -/

namespace PiRp.Session

open List JsNumber

def SessionMutation.entry? : SessionMutation → Option Entry
  | .entry _ added => some added
  | _ => none

def SessionMutation.record? : SessionMutation → Option LaneRecord
  | .record added => some added
  | _ => none

/-- The timestamp a mutation carries. -/
def SessionMutation.timestamp? : SessionMutation → Option Nat
  | .entry _ added => some added.timestamp
  | .record added => some added.timestamp
  | _ => none

namespace SessionState

variable {state : SessionState}

theorem missingEntry_eq_none {id : Option JsStr} :
    state.missingEntry id = none ↔ ∀ target, id = some target → state.entriesById.has target = true := by
  cases id with
  | none => simp [missingEntry]
  | some target => simp [missingEntry, Option.filter]

theorem laneProblem_eq_none {lane : Option JsStr} {entry : Entry} : state.laneProblem lane entry = none ↔
      ∀ name, lane = some name → state.lanes.get? name = some entry.parentId := by
  cases lane with
  | none => simp [laneProblem]
  | some name =>
    cases hleaf : state.lanes.get? name with
    | none => simp [laneProblem, hleaf]
    | some leafId => simp [laneProblem, hleaf, eq_comm]

variable [Addition]

/-- A mutation the state accepts, with the state after it. -/
inductive Applies (state : SessionState) : SessionMutation → SessionState → Prop
  | entry {lane : Option JsStr} {entry : Entry} (hseq : entry.seq = state.sequence + 1)
      (hid : entry.id ∉ state.usedIds)
      (hlane : ∀ name, lane = some name → state.lanes.get? name = some entry.parentId)
      (hpar : ∀ id, entry.parentId = some id → state.entriesById.has id = true) :
      Applies state (.entry lane entry) (state.addEntry lane entry)
  | record {record : LaneRecord} (hseq : record.seq = state.sequence + 1)
      (hlane : state.lanes.has record.lane = true) (hid : record.id ∉ state.usedIds) :
      Applies state (.record record) (state.addRecord record)
  | lane {seq : Nat} {lane : JsStr} {leafId : Option JsStr} (hseq : seq = state.sequence + 1)
      (hleaf : ∀ id, leafId = some id → state.entriesById.has id = true) :
      Applies state (.lane seq lane leafId) (state.setLane seq lane leafId)
  | name {seq : Nat} {name : Option JsStr} (hseq : seq = state.sequence + 1) :
      Applies state (.name seq name) (state.setName seq name)
  | label {seq : Nat} {targetId : JsStr} {label : Option JsStr}
      (hseq : seq = state.sequence + 1) (htgt : state.entriesById.has targetId = true) :
      Applies state (.label seq targetId label) (state.setLabel seq targetId label)

/-- **A mutation is either rejected without any effect or applied.** -/
theorem applyMutation_spec (state : SessionState) (mutation : SessionMutation) :
    (∃ error, state.applyMutation mutation = (state, some error)) ∨
      ∃ next, state.applyMutation mutation = (next, none) ∧ state.Applies mutation next := by
  unfold applyMutation
  split_ifs with hseq
  · exact .inl ⟨_, rfl⟩
  rw [ne_eq, not_not] at hseq
  cases mutation with
  | entry lane entry =>
    dsimp only
    split_ifs with hid
    · exact .inl ⟨_, rfl⟩
    cases hlane : state.laneProblem lane entry with
    | some message => exact .inl ⟨_, rfl⟩
    | none =>
      cases hpar : state.missingEntry entry.parentId with
      | some parentId => exact .inl ⟨_, rfl⟩
      | none => exact .inr ⟨_, rfl, .entry hseq hid (laneProblem_eq_none.mp hlane) (missingEntry_eq_none.mp hpar)⟩
  | record record =>
    dsimp only
    split_ifs with hlane hid
    · exact .inl ⟨_, rfl⟩
    · exact .inl ⟨_, rfl⟩
    · exact .inr ⟨_, rfl, .record hseq (Bool.not_eq_false _ ▸ hlane) hid⟩
  | lane seq lane leafId =>
    dsimp only
    cases hleaf : state.missingEntry leafId with
    | some missing => exact .inl ⟨_, rfl⟩
    | none => exact .inr ⟨_, rfl, .lane hseq (missingEntry_eq_none.mp hleaf)⟩
  | name seq name => exact .inr ⟨_, rfl, .name hseq⟩
  | label seq targetId label =>
    dsimp only
    cases htgt : state.missingEntry (some targetId) with
    | some missing => exact .inl ⟨_, rfl⟩
    | none => exact .inr ⟨_, rfl, .label hseq (missingEntry_eq_none.mp htgt targetId rfl)⟩

theorem Applies.applyMutation_eq {mutation : SessionMutation} {next : SessionState}
    (happl : state.Applies mutation next) : state.applyMutation mutation = (next, none) := by
  cases happl with
  | entry hseq hid hlane hpar =>
    simp [applyMutation, SessionMutation.seq, hseq, hid, laneProblem_eq_none.mpr hlane, missingEntry_eq_none.mpr hpar]
  | record hseq hlane hid => simp [applyMutation, SessionMutation.seq, hseq, hlane, hid]
  | lane hseq hleaf =>
    simp [applyMutation, SessionMutation.seq, hseq, missingEntry_eq_none.mpr hleaf]
  | name hseq => simp [applyMutation, SessionMutation.seq, hseq]
  | label hseq htgt =>
    have hmis : state.missingEntry (some _) = none :=
      missingEntry_eq_none.mpr fun _ heq => Option.some.inj heq ▸ htgt
    simp [applyMutation, SessionMutation.seq, hseq, hmis]

theorem Applies.effect {mutation : SessionMutation} {next : SessionState} (happl : state.Applies mutation next) :
    next.sequence = mutation.seq ∧ next.log = state.log ++ [mutation.logItem] ∧
      next.entries = state.entries ++ mutation.entry?.toList ∧
        next.records = state.records ++ mutation.record?.toList := by
  cases happl with
  | entry => exact ⟨rfl, rfl, rfl, (append_nil _).symm⟩
  | record => exact ⟨rfl, rfl, (append_nil _).symm, rfl⟩
  | lane => exact ⟨rfl, rfl, (append_nil _).symm, (append_nil _).symm⟩
  | name => exact ⟨rfl, rfl, (append_nil _).symm, (append_nil _).symm⟩
  | label => exact ⟨rfl, rfl, (append_nil _).symm, (append_nil _).symm⟩

theorem Applies.seq_eq {mutation : SessionMutation} {next : SessionState}
    (happl : state.Applies mutation next) : mutation.seq = state.sequence + 1 := by
  cases happl <;> assumption

/-- The run of offered mutations: the state at its end and the mutations it accepted. -/
def offerAll (state : SessionState) : List SessionMutation → SessionState × List SessionMutation
  | [] => (state, [])
  | mutation :: mutations =>
    let applied := state.applyMutation mutation
    let rest := offerAll applied.1 mutations
    (rest.1, if applied.2 = none then mutation :: rest.2 else rest.2)

end SessionState

/-! ### The invariant -/

/-- The later record finishes the operation the earlier one started. -/
def LaneRecord.isFinishedBy (record later : LaneRecord) : Bool :=
  later.type = .operationFinished && later.lane = record.lane && later.runId? = some record.id &&
    record.seq < later.seq

/-- The operations started in the lane and not finished by a later record. -/
def openRecords (records : List LaneRecord) (lane : JsStr) : List LaneRecord :=
  records.filter fun record =>
    record.type = .operationStarted && record.lane = lane && !records.any record.isFinishedBy

/-- The invariant of a state reached by accepting these mutations. -/
structure Invariant (state : SessionState) (accepted : List SessionMutation) : Prop where
  sequence : state.sequence = accepted.length
  /-- The accepted mutations are numbered from `1` without gaps. -/
  seqs : accepted.map SessionMutation.seq = List.range' 1 accepted.length
  /-- The log holds them in this order. -/
  log : state.log = accepted.map SessionMutation.logItem
  entries : state.entries = accepted.filterMap SessionMutation.entry?
  records : state.records = accepted.filterMap SessionMutation.record?
  /-- No id is used twice. -/
  ids : (state.entries.map (·.id) ++ state.records.map (·.id)).Nodup
  usedIds : ∀ id, id ∈ state.usedIds ↔
    id ∈ state.entries.map (·.id) ++ state.records.map (·.id)
  byId : state.entriesById.entries = state.entries.map fun entry => (entry.id, entry)
  /-- Every parent is an earlier entry. -/
  parents : ∀ entry ∈ state.entries, ∀ id, entry.parentId = some id →
    ∃ parent ∈ state.entries, parent.id = id ∧ parent.seq < entry.seq
  leaves : ∀ lane id, state.lanes.get? lane = some (some id) → ∃ entry ∈ state.entries, entry.id = id
  labels : ∀ id label, state.labels.get? id = some label → ∃ entry ∈ state.entries, entry.id = id
  /-- The open operations of a lane are those started in it and not finished since. -/
  openOperations : ∀ lane, ((state.openOperationsByLane.get? lane).getD .empty).entries =
    (openRecords state.records lane).map fun record => (record.id, record)

namespace Invariant

variable {state : SessionState} {accepted : List SessionMutation}

variable (hinv : Invariant state accepted)

include hinv

theorem entriesById_get? {id : JsStr} {entry : Entry} :
    state.entriesById.get? id = some entry ↔ entry ∈ state.entries ∧ entry.id = id := by
  rw [JsMap.get?_eq_some, hinv.byId, mem_map]
  constructor
  · rintro ⟨found, hfound, heq⟩
    obtain ⟨rfl, rfl⟩ := Prod.mk.injEq .. ▸ heq
    exact ⟨hfound, rfl⟩
  · rintro ⟨hentry, rfl⟩
    exact ⟨entry, hentry, rfl⟩

theorem entriesById_has {id : JsStr} : state.entriesById.has id = true ↔ ∃ entry ∈ state.entries, entry.id = id := by
  rw [JsMap.has, Option.isSome_iff_exists]
  exact exists_congr fun entry => hinv.entriesById_get?

theorem entry_seq_le {entry : Entry} (hentry : entry ∈ state.entries) : entry.seq ≤ state.sequence := by
  rw [hinv.entries, mem_filterMap] at hentry
  obtain ⟨mutation, hmut, heq⟩ := hentry
  have hseq : mutation.seq = entry.seq := by
    cases mutation <;> simp_all [SessionMutation.entry?, SessionMutation.seq]
  have hmem := mem_map_of_mem (f := SessionMutation.seq) hmut
  rw [hinv.seqs, mem_range'_1, hseq] at hmem
  rw [hinv.sequence]
  omega

theorem record_seq_le {record : LaneRecord} (hrec : record ∈ state.records) : record.seq ≤ state.sequence := by
  rw [hinv.records, mem_filterMap] at hrec
  obtain ⟨mutation, hmut, heq⟩ := hrec
  have hseq : mutation.seq = record.seq := by
    cases mutation <;> simp_all [SessionMutation.record?, SessionMutation.seq]
  have hmem := mem_map_of_mem (f := SessionMutation.seq) hmut
  rw [hinv.seqs, mem_range'_1, hseq] at hmem
  rw [hinv.sequence]
  omega

end Invariant

theorem invariant_initial : Invariant .initial [] where
  sequence := rfl
  seqs := rfl
  log := rfl
  entries := rfl
  records := rfl
  ids := nodup_nil
  usedIds := fun _ => Iff.rfl
  byId := rfl
  parents := fun _ hentry => absurd hentry not_mem_nil
  leaves := by
    intro lane id hleaf
    simp only [SessionState.initial, JsMap.get?_set, JsMap.get?_empty] at hleaf
    split_ifs at hleaf
    cases hleaf
  labels := fun _ _ hlabel => by cases hlabel
  openOperations := fun _ => rfl

namespace Invariant

variable [Addition] {state next : SessionState} {accepted : List SessionMutation}
  {mutation : SessionMutation}

section

variable (hinv : Invariant state accepted)

include hinv

variable (happl : state.Applies mutation next)

include happl

theorem seqs_step :
    (accepted ++ [mutation]).map SessionMutation.seq = List.range' 1 (accepted ++ [mutation]).length := by
  rw [map_append, length_append, length_singleton, range'_1_concat, hinv.seqs,
    map_singleton, happl.seq_eq, hinv.sequence, Nat.add_comm 1]

theorem ids_step : (next.entries.map (·.id) ++ next.records.map (·.id)).Nodup := by
  cases happl with
  | @entry lane entry hseq hid hlane hpar =>
    have hnew : entry.id ∉ state.entries.map (·.id) ++ state.records.map (·.id) :=
      fun h => hid ((hinv.usedIds _).mpr h)
    have hperm : ((state.entries ++ [entry]).map (·.id) ++ state.records.map (·.id)).Perm
        (entry.id :: (state.entries.map (·.id) ++ state.records.map (·.id))) := by
      rw [map_append, append_assoc]
      exact perm_middle
    exact hperm.nodup_iff.mpr (nodup_cons.mpr ⟨hnew, hinv.ids⟩)
  | @record record hseq hlane hid =>
    have hnew : record.id ∉ state.entries.map (·.id) ++ state.records.map (·.id) :=
      fun h => hid ((hinv.usedIds _).mpr h)
    have hperm : (state.entries.map (·.id) ++ (state.records ++ [record]).map (·.id)).Perm
        (record.id :: (state.entries.map (·.id) ++ state.records.map (·.id))) := by
      rw [map_append, ← append_assoc]
      exact perm_append_singleton _ _
    exact hperm.nodup_iff.mpr (nodup_cons.mpr ⟨hnew, hinv.ids⟩)
  | lane => exact hinv.ids
  | name => exact hinv.ids
  | label => exact hinv.ids

theorem usedIds_step (id : JsStr) : id ∈ next.usedIds ↔ id ∈ next.entries.map (·.id) ++ next.records.map (·.id) := by
  have hused := hinv.usedIds id
  rw [mem_append] at hused ⊢
  cases happl with
  | entry =>
    simp only [SessionState.addEntry, mem_insert_iff, hused, map_append, mem_append, map_singleton, mem_singleton]
    tauto
  | record =>
    simp only [SessionState.addRecord, mem_insert_iff, hused, map_append, mem_append, map_singleton, mem_singleton]
    tauto
  | lane => exact hused
  | name => exact hused
  | label => exact hused

theorem byId_step : next.entriesById.entries = next.entries.map fun entry => (entry.id, entry) := by
  cases happl with
  | @entry lane entry hseq hid hlane hpar =>
    have hnew : state.entriesById.has entry.id = false := by
      rw [← Bool.not_eq_true, hinv.entriesById_has]
      rintro ⟨other, hother, heq⟩
      exact hid ((hinv.usedIds _).mpr
        (mem_append_left _ (heq ▸ mem_map_of_mem (f := (·.id)) hother)))
    simp only [SessionState.addEntry, JsMap.entries_set_of_new entry hnew, hinv.byId, map_append, map_singleton]
  | record => exact hinv.byId
  | lane => exact hinv.byId
  | name => exact hinv.byId
  | label => exact hinv.byId

theorem parents_step : ∀ entry ∈ next.entries, ∀ id, entry.parentId = some id →
      ∃ parent ∈ next.entries, parent.id = id ∧ parent.seq < entry.seq := by
  cases happl with
  | @entry lane entry hseq hid hlane hpar =>
    intro other hother id hparentId
    rcases mem_append.mp hother with hother | hother
    · obtain ⟨parent, hmem, heq, hlt⟩ := hinv.parents other hother id hparentId
      exact ⟨parent, mem_append_left _ hmem, heq, hlt⟩
    · obtain rfl := mem_singleton.mp hother
      obtain ⟨parent, hmem, heq⟩ := hinv.entriesById_has.mp (hpar id hparentId)
      have hle := hinv.entry_seq_le hmem
      exact ⟨parent, mem_append_left _ hmem, heq, by omega⟩
  | record => exact hinv.parents
  | lane => exact hinv.parents
  | name => exact hinv.parents
  | label => exact hinv.parents

theorem leaves_step : ∀ lane id, next.lanes.get? lane = some (some id) → ∃ entry ∈ next.entries, entry.id = id := by
  cases happl with
  | @entry lane entry hseq hid hlane hpar =>
    intro other id hleaf
    have hold : state.lanes.get? other = some (some id) →
        ∃ found ∈ state.entries ++ [entry], found.id = id := fun h =>
      let ⟨found, hfound, heq⟩ := hinv.leaves other id h
      ⟨found, mem_append_left _ hfound, heq⟩
    cases lane with
    | none => exact hold hleaf
    | some name =>
      simp only [SessionState.addEntry, JsMap.get?_set] at hleaf
      split_ifs at hleaf with hname
      · refine ⟨entry, mem_append_right _ (mem_singleton_self _), ?_⟩
        exact Option.some.inj (Option.some.inj hleaf)
      · exact hold hleaf
  | record => exact hinv.leaves
  | @lane seq lane leafId hseq hleafId =>
    intro other id hleaf
    simp only [SessionState.setLane, JsMap.get?_set] at hleaf
    split_ifs at hleaf with hname
    · exact hinv.entriesById_has.mp (hleafId id (Option.some.inj hleaf))
    · exact hinv.leaves other id hleaf
  | name => exact hinv.leaves
  | label => exact hinv.leaves

theorem labels_step : ∀ id label, next.labels.get? id = some label → ∃ entry ∈ next.entries, entry.id = id := by
  cases happl with
  | entry =>
    intro id label hlabel
    obtain ⟨found, hfound, heq⟩ := hinv.labels id label hlabel
    exact ⟨found, mem_append_left _ hfound, heq⟩
  | record => exact hinv.labels
  | lane => exact hinv.labels
  | name => exact hinv.labels
  | @label seq targetId label hseq htgt =>
    intro id found hlabel
    cases label with
    | none =>
      simp only [SessionState.setLabel, JsMap.get?_delete] at hlabel
      split_ifs at hlabel
      exact hinv.labels id found hlabel
    | some label =>
      simp only [SessionState.setLabel, JsMap.get?_set] at hlabel
      split_ifs at hlabel with heq
      · exact hinv.entriesById_has.mp (heq ▸ htgt)
      · exact hinv.labels id found hlabel

end

omit [Addition] in
theorem openRecords_append {records : List LaneRecord} {record : LaneRecord}
    (hlast : ∀ other ∈ records, other.seq < record.seq) (lane : JsStr) : openRecords (records ++ [record]) lane =
      ((openRecords records lane).filter fun other =>
        !(record.type = .operationFinished && record.lane = lane && record.runId? = some other.id)) ++
      if record.type = .operationStarted ∧ record.lane = lane then [record] else [] := by
  have hself : (records ++ [record]).any record.isFinishedBy = false := by
    rw [any_eq_false]
    intro other hother hfin
    simp only [LaneRecord.isFinishedBy, Bool.and_eq_true, decide_eq_true_eq] at hfin
    rcases mem_append.mp hother with hother | hother
    · have hlt := hlast other hother
      omega
    · obtain rfl := mem_singleton.mp hother
      exact absurd hfin.2 (Nat.lt_irrefl _)
  rw [openRecords, filter_append, openRecords, filter_filter]
  congr 1
  · refine filter_congr fun other hother => ?_
    have hlt := hlast other hother
    have hlat : [record].any other.isFinishedBy = (record.type = .operationFinished &&
        record.lane = other.lane && record.runId? = some other.id : Bool) := by
      rw [any_cons, any_nil, Bool.or_false, LaneRecord.isFinishedBy, decide_eq_true hlt, Bool.and_true]
    rw [any_append, hlat]
    by_cases hlane : other.lane = lane
    · subst hlane
      cases decide (other.type = .operationStarted) <;> cases records.any other.isFinishedBy <;> simp
    · simp [hlane]
  · rw [filter_singleton, hself]
    by_cases hstar : record.type = .operationStarted <;> by_cases hlane : record.lane = lane <;>
      simp [hstar, hlane]

omit [Addition] in
theorem trackOperation_entries {byLane : JsMap JsStr (JsMap JsStr LaneRecord)}
    {record : LaneRecord} (hnew : ((byLane.get? record.lane).getD .empty).has record.id = false) (lane : JsStr) :
    (((SessionState.trackOperation byLane record).get? lane).getD .empty).entries =
      (((byLane.get? lane).getD .empty).entries.filter fun entry =>
        !(record.type = .operationFinished && record.lane = lane && record.runId? = some entry.1)) ++
      if record.type = .operationStarted ∧ record.lane = lane then [(record.id, record)] else [] := by
  cases htype : record.type with
  | operationStarted =>
    simp only [SessionState.trackOperation, htype, JsMap.get?_set, reduceCtorEq, decide_false,
      Bool.false_and, Bool.not_false, filter_true, true_and]
    by_cases hlane : lane = record.lane
    · subst hlane
      simp only [if_true, Option.getD_some, JsMap.entries_set_of_new record hnew]
    · simp only [hlane, Ne.symm hlane, if_false, append_nil]
  | operationFinished =>
    obtain ⟨runId, hrunId⟩ : ∃ runId, record.runId? = some runId := by
      have htyped := record.typed
      rw [htype] at htyped
      exact Option.isSome_iff_exists.mp htyped
    simp only [SessionState.trackOperation, htype, hrunId, reduceCtorEq, false_and, if_false,
      append_nil, decide_true, Bool.true_and]
    cases hinner : byLane.get? record.lane with
    | none =>
      by_cases hlane : lane = record.lane
      · subst hlane
        rw [hinner]
        rfl
      · simp [Ne.symm hlane]
    | some openOperations =>
      by_cases hlane : lane = record.lane
      · subst hlane
        simp only [JsMap.get?_set, if_true, Option.getD_some, JsMap.delete, hinner, decide_true,
          Bool.true_and, Option.some.injEq]
        refine filter_congr fun entry _ => ?_
        simp [eq_comm]
      · simp [JsMap.get?_set, hlane, Ne.symm hlane]
  | _ => simp [SessionState.trackOperation, htype]

theorem openOperations_step (hinv : Invariant state accepted) (happl : state.Applies mutation next) (lane : JsStr) :
    ((next.openOperationsByLane.get? lane).getD .empty).entries =
      (openRecords next.records lane).map fun record => (record.id, record) := by
  have hopen := hinv.openOperations lane
  cases happl with
  | entry => exact hopen
  | @record record hseq hlane hid =>
    have hlast : ∀ other ∈ state.records, other.seq < record.seq := fun other hother => by
      have hle := hinv.record_seq_le hother
      omega
    have hrecor : (state.addRecord record).records = state.records ++ [record] := rfl
    have htrac : (state.addRecord record).openOperationsByLane =
        SessionState.trackOperation state.openOperationsByLane record := rfl
    have hnew : ((state.openOperationsByLane.get? record.lane).getD .empty).has record.id = false := by
      rw [← Bool.not_eq_true, JsMap.has_iff, JsMap.keys, hinv.openOperations, map_map, mem_map]
      rintro ⟨other, hother, heq⟩
      have hmem : record.id ∈ state.records.map (·.id) :=
        mem_map.mpr ⟨other, (mem_filter.mp hother).1, heq⟩
      exact hid ((hinv.usedIds _).mpr (mem_append_right _ hmem))
    rw [hrecor, htrac, openRecords_append hlast, trackOperation_entries hnew, hopen, map_append, filter_map]
    congr 1
    split_ifs
    · rfl
    · rfl
  | lane => exact hopen
  | name => exact hopen
  | label => exact hopen

/-- **One accepted mutation keeps the invariant.** -/
theorem step (hinv : Invariant state accepted) (happl : state.Applies mutation next) :
    Invariant next (accepted ++ [mutation]) where
  sequence := by
    rw [happl.effect.1, happl.seq_eq, hinv.sequence, length_append, length_singleton]
  seqs := hinv.seqs_step happl
  log := by
    rw [happl.effect.2.1, hinv.log, map_append, map_singleton]
  entries := by
    rw [happl.effect.2.2.1, hinv.entries, filterMap_append]
    cases mutation <;> rfl
  records := by
    rw [happl.effect.2.2.2, hinv.records, filterMap_append]
    cases mutation <;> rfl
  ids := hinv.ids_step happl
  usedIds := hinv.usedIds_step happl
  byId := hinv.byId_step happl
  parents := hinv.parents_step happl
  leaves := hinv.leaves_step happl
  labels := hinv.labels_step happl
  openOperations := hinv.openOperations_step happl

end Invariant

/-- **Every run of offered mutations keeps the invariant.** -/
theorem offerAll_invariant [Addition] (mutations : List SessionMutation) :
    ∀ {state : SessionState} {accepted : List SessionMutation}, Invariant state accepted →
      Invariant (state.offerAll mutations).1 (accepted ++ (state.offerAll mutations).2) := by
  induction mutations with
  | nil =>
    intro state accepted hinv
    rw [SessionState.offerAll, append_nil]
    exact hinv
  | cons mutation mutations ih =>
    intro state accepted hinv
    rw [SessionState.offerAll]
    rcases state.applyMutation_spec mutation with ⟨error, herror⟩ | ⟨next, hnext, happl⟩
    · simp only [herror, reduceCtorEq, if_false]
      exact ih hinv
    · simp only [hnext, if_true]
      rw [← singleton_append, ← append_assoc]
      exact ih (hinv.step happl)

/-- A run of accepted mutations. -/
inductive SessionState.AppliesAll [Addition] :
    SessionState → List SessionMutation → SessionState → Prop
  | nil {state : SessionState} : AppliesAll state [] state
  | cons {state next last : SessionState} {mutation : SessionMutation}
      {mutations : List SessionMutation} (happl : state.Applies mutation next)
      (hrest : AppliesAll next mutations last) : AppliesAll state (mutation :: mutations) last

namespace SessionState.AppliesAll

variable [Addition] {state next last : SessionState} {mutation : SessionMutation}
  {mutations more accepted : List SessionMutation}

theorem append (hfirst : AppliesAll state mutations next) (hsnd : AppliesAll next more last) :
    AppliesAll state (mutations ++ more) last := by
  induction hfirst with
  | nil => exact hsnd
  | cons happl _ ih => exact .cons happl (ih hsnd)

theorem concat (hfirst : AppliesAll state mutations next) (happl : next.Applies mutation last) :
    AppliesAll state (mutations ++ [mutation]) last :=
  hfirst.append (.cons happl .nil)

theorem split (hrun : AppliesAll state (mutations ++ more) last) :
    ∃ middle, AppliesAll state mutations middle ∧ AppliesAll middle more last := by
  induction mutations generalizing state with
  | nil => exact ⟨state, .nil, hrun⟩
  | cons mutation mutations ih =>
    cases hrun with
    | cons happl hrest =>
      obtain ⟨middle, hfirst, hsnd⟩ := ih hrest
      exact ⟨middle, .cons happl hfirst, hsnd⟩

theorem invariant (hrun : AppliesAll state mutations next) (hinv : Invariant state accepted) :
    Invariant next (accepted ++ mutations) := by
  induction hrun generalizing accepted with
  | nil => exact (append_nil accepted).symm ▸ hinv
  | cons happl _ ih =>
    rw [← singleton_append, ← append_assoc]
    exact ih (hinv.step happl)

end SessionState.AppliesAll

/-! ### Walks to the root -/

namespace SessionState

/-- The number of entries before the one with the given sequence number. -/
def rank (state : SessionState) (seq : Nat) : Nat :=
  (state.entries.filter fun entry => entry.seq < seq).length

theorem rank_lt {state : SessionState} {entry : Entry} {seq : Nat} (hentry : entry ∈ state.entries)
    (hlt : entry.seq < seq) : state.rank entry.seq < state.rank seq := by
  have hsub : (state.entries.filter fun other => other.seq < entry.seq) =
      (state.entries.filter fun other => other.seq < seq).filter fun other =>
        other.seq < entry.seq := by
    rw [filter_filter]
    refine filter_congr fun other _ => ?_
    by_cases hother : other.seq < entry.seq
    · simp [hother, hother.trans hlt]
    · simp [hother]
  rw [rank, rank, hsub, length_filter_lt_length_iff_exists]
  exact ⟨entry, mem_filter.mpr ⟨hentry, decide_eq_true hlt⟩, by simp⟩

theorem walkFrom_done {state : SessionState} {accepted : List SessionMutation}
    (hinv : Invariant state accepted) (bounds : BranchBounds) {fuel : Nat} {visited : List JsStr}
    {current : Entry} (hcur : current ∈ state.entries) (hfuel : state.rank current.seq < fuel)
    (hvis : ∀ entry ∈ state.entries, entry.id ∈ visited → current.seq < entry.seq) :
    (state.walkFrom bounds fuel visited current).ending = .done := by
  induction fuel generalizing visited current with
  | zero => omega
  | succ fuel ih =>
    have hnew : current.id ∉ visited := fun h =>
      Nat.lt_irrefl _ (hvis current hcur h)
    rw [walkFrom, if_neg hnew]
    split_ifs
    · rfl
    cases hparentId : current.parentId with
    | none => rfl
    | some parentId =>
      obtain ⟨parent, hpar, heq, hlt⟩ := hinv.parents current hcur parentId hparentId
      have hget := hinv.entriesById_get?.mpr ⟨hpar, heq⟩
      simp only [hget]
      refine ih hpar ?_ ?_
      · have hrank := rank_lt hpar hlt
        omega
      · intro entry hentry hmem
        rcases mem_cons.mp hmem with hid | hmem
        · have hsame := (hinv.entriesById_get?.mpr ⟨hentry, hid⟩).symm.trans
            (hinv.entriesById_get?.mpr ⟨hcur, rfl⟩)
          rw [Option.some.inj hsame]
          exact hlt
        · exact hlt.trans (hvis entry hentry hmem)

theorem walkToRoot_done {state : SessionState} {accepted : List SessionMutation}
    (hinv : Invariant state accepted) (bounds : BranchBounds) {id : JsStr}
    (hid : state.entriesById.has id = true) : (state.walkToRoot (some id) bounds).ending = .done := by
  obtain ⟨entry, hentry⟩ := Option.isSome_iff_exists.mp hid
  rw [walkToRoot, hentry]
  refine walkFrom_done hinv bounds (hinv.entriesById_get?.mp hentry).1 ?_
    fun _ _ hmem => absurd hmem not_mem_nil
  rw [hinv.byId, length_map]
  exact Nat.lt_succ_of_le (length_filter_le _ _)

theorem findOpenOperations_eq {state : SessionState} {accepted : List SessionMutation}
    (hinv : Invariant state accepted) (lane : JsStr) :
    state.findOpenOperations lane none = .ok (openRecords state.records lane).reverse := by
  have hopen := hinv.openOperations lane
  have hval : ((state.openOperationsByLane.get? lane).getD .empty).values =
      openRecords state.records lane := by
    rw [JsMap.values, hopen, map_map]
    exact map_id _
  rw [findOpenOperations]
  cases hinner : state.openOperationsByLane.get? lane with
  | none =>
    rw [hinner] at hval
    rw [← hval]
    rfl
  | some openOperations =>
    rw [hinner] at hval
    rw [← hval]
    rfl

end SessionState

/-- **Session state.** After any sequence of offered mutations the invariant relates the state to the
accepted ones, the open operations of a lane are those started and not finished in it, a rejected
mutation changes nothing, and a walk from an existing entry ends without an error. -/
theorem sessionState_invariant [Addition] (mutations : List SessionMutation) :
    let run := SessionState.initial.offerAll mutations
    Invariant run.1 run.2 ∧
    (∀ lane, run.1.findOpenOperations lane none = .ok (openRecords run.1.records lane).reverse) ∧
    (∀ mutation error, (run.1.applyMutation mutation).2 = some error →
      (run.1.applyMutation mutation).1 = run.1) ∧
    ∀ id bounds, run.1.entriesById.has id = true →
      (run.1.walkToRoot (some id) bounds).ending = .done := by
  intro run
  have hinv : Invariant run.1 run.2 := offerAll_invariant mutations invariant_initial
  refine ⟨hinv, SessionState.findOpenOperations_eq hinv, fun mutation error herror => ?_,
    fun id bounds hid => SessionState.walkToRoot_done hinv bounds hid⟩
  rcases run.1.applyMutation_spec mutation with ⟨other, hrej⟩ | ⟨next, hnext, _⟩
  · rw [hrej]
  · rw [hnext] at herror
    exact nomatch herror

end PiRp.Session
