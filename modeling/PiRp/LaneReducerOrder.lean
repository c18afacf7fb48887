import PiRp.LaneReducer

/-! The order in which a slice lists its records and entries does not matter to the reduction. The records are
sorted by their sequence numbers, and the entries are looked up by their ids. -/

namespace PiRp.Reducer

open List Sequenced Corruption

/-- The entries a slice holds, those of every list. -/
def LaneReductionInput.allEntries (input : LaneReductionInput) : List Entry :=
  input.entries ++ input.ownEntries ++ input.configurationEntries

/-- The sequence numbers tell the records apart, and the ids and the sequence numbers tell the entries apart. -/
structure Distinct (input : LaneReductionInput) : Prop where
  records : Determined Record.seq input.records
  ids : Determined (fun entry : Entry => entry.id) input.allEntries
  seqs : Determined Entry.seq input.allEntries

/-- The same slice with its lists in another order. -/
structure Reordered (input other : LaneReductionInput) : Prop where
  lane : other.lane = input.lane
  openOperations : other.openOperations = input.openOperations
  leafId : other.leafId = input.leafId
  defaults : other.defaults = input.defaults
  records : input.records.Perm other.records
  entries : input.entries.Perm other.entries
  ownEntries : input.ownEntries.Perm other.ownEntries
  configurationEntries : input.configurationEntries.Perm other.configurationEntries

theorem validateDeferredHandles_eq {entries others : List Entry} (hmem : ∀ entry, entry ∈ entries ↔ entry ∈ others) :
    (validateDeferredHandles others).mapError reason = (validateDeferredHandles entries).mapError reason := by
  rw [validateDeferredHandles, validateDeferredHandles]
  cases hfound : entries.find? lacksHandle with
  | none =>
    have hother : others.find? lacksHandle = none := find?_eq_none.mpr fun entry hentry =>
      find?_eq_none.mp hfound entry ((hmem entry).mpr hentry)
    rw [hother]
  | some entry =>
    cases hother : others.find? lacksHandle with
    | none =>
      have hentry := (hmem entry).mp (mem_of_find?_eq_some hfound)
      exact absurd (find?_some hfound) (find?_eq_none.mp hother entry hentry)
    | some found => rfl

section Slices

variable [DeepEqual] {input other : LaneReductionInput}

namespace Reordered

omit [DeepEqual] in
theorem records_eq (hreor : Reordered input other) (hdist : Distinct input) :
    bySequence Record.seq other.records = bySequence Record.seq input.records :=
  (bySequence_eq_of_perm hreor.records hdist.records).symm

omit [DeepEqual] in
theorem ownEntries_eq (hreor : Reordered input other) (hdist : Distinct input) :
    bySequence Entry.seq other.ownEntries = bySequence Entry.seq input.ownEntries := by
  refine (bySequence_eq_of_perm hreor.ownEntries (hdist.seqs.mono fun entry hentry => ?_)).symm
  exact mem_append_left _ (mem_append_right _ hentry)

omit [DeepEqual] in
theorem configuration_eq (hreor : Reordered input other) (hdist : Distinct input) :
    deriveEffectiveConfiguration other = deriveEffectiveConfiguration input := by
  have hsub : ∀ entry ∈ input.configurationEntries ++ input.ownEntries, entry ∈ input.allEntries := by
    intro entry hentry
    rw [LaneReductionInput.allEntries, mem_append, mem_append]
    rcases mem_append.mp hentry with hentry | hentry
    · exact .inr hentry
    · exact .inl (.inr hentry)
  have hmem : ∀ entry, entry ∈ input.configurationEntries ++ input.ownEntries ↔
      entry ∈ other.configurationEntries ++ other.ownEntries := fun entry =>
    (hreor.configurationEntries.append hreor.ownEntries).mem_iff
  have hids : Determined (fun entry : Entry => entry.id) (input.configurationEntries ++ input.ownEntries) :=
    hdist.ids.mono hsub
  have hsor : bySequence Entry.seq
      (entriesMap (input.configurationEntries ++ input.ownEntries)).values =
        bySequence Entry.seq
          (entriesMap (other.configurationEntries ++ other.ownEntries)).values := by
    refine bySequence_eq_of_perm (values_index_perm hmem hids) (hdist.seqs.mono fun entry hentry => ?_)
    exact hsub entry ((mem_values_index hids).mp hentry)
  rw [deriveEffectiveConfiguration, deriveEffectiveConfiguration, ← hsor, hreor.defaults]

omit [DeepEqual] in
theorem reduceValid_eq (hreor : Reordered input other) (hdist : Distinct input) :
    reduceValid other = reduceValid input := by
  have hents : (entriesMap (other.entries ++ bySequence Entry.seq input.ownEntries)).get? =
      (entriesMap (input.entries ++ bySequence Entry.seq input.ownEntries)).get? := by
    funext id
    refine (get?_index_congr (fun entry => ?_) (hdist.ids.mono fun entry hentry => ?_) id).symm
    · rw [mem_append, mem_append, hreor.entries.mem_iff]
    · rw [mem_append, mem_bySequence, ← mem_append] at hentry
      exact mem_append_left _ hentry
  simp only [reduceValid, hreor.records_eq hdist, hreor.ownEntries_eq hdist,
    hreor.configuration_eq hdist, hreor.openOperations, hreor.lane, hreor.leafId, hents]

theorem validateRecordLog_eq (hreor : Reordered input other) (hdist : Distinct input) :
    (validateRecordLog other.toRecordLogSlice).mapError reason =
      (validateRecordLog input.toRecordLogSlice).mapError reason := by
  have hsub : ∀ entry ∈ input.entries, entry ∈ input.allEntries := fun entry hentry =>
    mem_append_left _ (mem_append_left _ hentry)
  have hids : Determined (fun entry : Entry => entry.id) input.entries := hdist.ids.mono hsub
  have hmem : ∀ entry, entry ∈ input.entries ↔ entry ∈ other.entries := fun entry => hreor.entries.mem_iff
  have hents : (entriesMap other.entries).get? =
      (entriesMap input.entries).get? :=
    funext fun id => (get?_index_congr hmem hids id).symm
  have hhan : (validateDeferredHandles (entriesMap other.entries).values).mapError reason =
      (validateDeferredHandles (entriesMap input.entries).values).mapError reason :=
    validateDeferredHandles_eq fun _ => (values_index_perm hmem hids).mem_iff
  rw [validateRecordLog, validateRecordLog, hreor.openOperations, hreor.lane, hents, hreor.records_eq hdist]
  cases require (input.openOperations.length ≤ 1) .multipleOpenOperations
      (js "Lane " ++ input.lane ++ js " has at least two open operations") with
  | error corruption => rfl
  | ok =>
    simp only [ok_bind]
    cases hfirst : validateDeferredHandles (entriesMap input.entries).values with
    | error corruption =>
      rw [hfirst] at hhan
      cases hsnd : validateDeferredHandles (entriesMap other.entries).values with
      | error found =>
        rw [hsnd] at hhan
        exact hhan
      | ok => rw [hsnd] at hhan; cases hhan
    | ok =>
      rw [hfirst] at hhan
      cases hsnd : validateDeferredHandles (entriesMap other.entries).values with
      | error found => rw [hsnd] at hhan; cases hhan
      | ok => rfl

end Reordered

/-- **The order of a slice does not matter**: every ordering of the lists of a slice is reduced alike, and when
one is rejected the others are with the same reason. -/
theorem reduceLaneState_reordered (hdist : Distinct input) (hreor : Reordered input other) :
    (reduceLaneState other).mapError reason = (reduceLaneState input).mapError reason := by
  have hvalid := hreor.validateRecordLog_eq hdist
  rw [reduceLaneState, reduceLaneState, hreor.reduceValid_eq hdist]
  cases hfirst : validateRecordLog input.toRecordLogSlice with
  | error corruption =>
    rw [hfirst] at hvalid
    cases hsnd : validateRecordLog other.toRecordLogSlice with
    | error found =>
      rw [hsnd] at hvalid
      exact congrArg Except.error (Except.error.inj hvalid)
    | ok => rw [hsnd] at hvalid; exact nomatch hvalid
  | ok =>
    rw [hfirst] at hvalid
    cases hsnd : validateRecordLog other.toRecordLogSlice with
    | error found => rw [hsnd] at hvalid; exact nomatch hvalid
    | ok => rfl

end Slices

section Samples

/-- Deep equality of values whose properties stand in one order. -/
local instance sliceEqual : DeepEqual where
  isDeepEqual left right := left = right

def sampleTarget : Target := ⟨js "a", .message (.other .user [(js "content", .string (js "go"))]) false⟩

/-- A run that was started and steered, with the message that steered it and an older one. -/
def sampleSlice : LaneReductionInput where
  lane := js "main"
  openOperations := [⟨js "run-1", 1, js "main", .int 1, none, .run [] []⟩]
  records := [⟨js "run-1", 1, js "main", .int 1, .operationStarted none (.run [] [])⟩,
    ⟨js "q", 2, js "main", .int 2, .queueEnqueued (.steer (js "run-1")) sampleTarget⟩]
  entries := [{ sampleTarget with parentId := none, seq := 3, timestamp := .int 3 },
    ⟨⟨js "b", .thinkingLevelChange (js "high")⟩, none, 1, .int 1⟩]
  leafId := some (js "a")
  ownEntries := []
  configurationEntries := []
  defaults := ⟨js "openai", js "m", js "off", []⟩

/-- The slice with its lists reversed. -/
def reversedSlice : LaneReductionInput :=
  { sampleSlice with records := sampleSlice.records.reverse, entries := sampleSlice.entries.reverse }

theorem reduceLaneState_reordered_sample : (reduceLaneState reversedSlice).mapError reason =
    (reduceLaneState sampleSlice).mapError reason :=
  reduceLaneState_reordered ⟨by decide +kernel, by decide +kernel, by decide +kernel⟩
    ⟨rfl, rfl, rfl, rfl, .swap _ _ _, .swap _ _ _, .refl _, .refl _⟩

end Samples

end PiRp.Reducer
