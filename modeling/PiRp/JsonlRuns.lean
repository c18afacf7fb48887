import PiRp.JsonDecimal
import PiRp.JsonlLoading
import PiRp.SessionFork

/-! Runs of `JsonlSessionStorage`. While every append succeeds, the file holds the header and the
accepted mutations in their order. -/

namespace PiRp.Jsonl

open List Session JsonlSessionStorage

theorem prepared_timestamp {state : SessionState} {operation : Operation}
    {mutation : SessionMutation} (hprepar : state.Prepares operation mutation) :
    ∀ timestamp, mutation.timestamp? = some timestamp → timestamp ≤ maxSafeInteger := by
  have hbound : ∀ now : TimeValue, now.milliseconds ≤ maxSafeInteger := fun now =>
    now.bounded.trans (by decide)
  intro timestamp hstamp
  cases hprepar with
  | @appendEntry newEntry lane now => exact Option.some.inj hstamp ▸ hbound now
  | @appendRecord newRecord now => exact Option.some.inj hstamp ▸ hbound now
  | createLane | moveLane | setName | setLabel => exact nomatch hstamp

section Runs

variable [JsonText.NumberText] [JsNumber.Addition]

/-- The file of the storage holds exactly these mutations, and its state is the one after them. -/
structure Wrote (storage : JsonlSessionStorage) (mutations : List SessionMutation) : Prop where
  file : storage.file = fileText storage.header mutations
  run : SessionState.initial.AppliesAll mutations storage.state
  timestamps : ∀ mutation ∈ mutations, ∀ timestamp, mutation.timestamp? = some timestamp →
    timestamp ≤ maxSafeInteger

variable {storage : JsonlSessionStorage} {mutations : List SessionMutation}

theorem wrote_create (path : JsStr) (header : JsonlV4Header) : Wrote (create path header) [] where
  file := (append_nil _).symm
  run := .nil
  timestamps := fun _ hmut => absurd hmut not_mem_nil

namespace Wrote

variable (hwrote : Wrote storage mutations)

include hwrote

theorem invariant : Invariant storage.state mutations :=
  hwrote.run.invariant invariant_initial

theorem seq_eq {index : Nat} (hindex : index < mutations.length) : mutations[index].seq = index + 1 := by
  have hseqs := hwrote.invariant.seqs
  have hget : (mutations.map SessionMutation.seq)[index]? = some (index + 1) := by
    rw [hseqs, getElem?_range' hindex]
    simp [Nat.add_comm]
  rw [getElem?_map, getElem?_eq_getElem hindex] at hget
  exact Option.some.inj hget

theorem safe {count : Nat} (hcount : count ≤ maxSafeInteger) :
    ∀ mutation ∈ mutations.take count, SafeNumbers mutation := by
  intro mutation hmut
  obtain ⟨index, hindex, rfl⟩ := getElem_of_mem hmut
  rw [length_take] at hindex
  have hseq := hwrote.seq_eq (show index < mutations.length by omega)
  rw [getElem_take]
  exact ⟨by omega, by omega, hwrote.timestamps _ (getElem_mem _)⟩

theorem safe_all (hlen : mutations.length ≤ maxSafeInteger) : ∀ mutation ∈ mutations, SafeNumbers mutation := by
  have hsafe := hwrote.safe hlen
  rwa [take_length] at hsafe

theorem length_eq : mutations.length = storage.state.sequence := hwrote.invariant.sequence.symm

theorem record {mutation : SessionMutation} {next : SessionState} (happl : storage.state.Applies mutation next)
    (hstamp : ∀ timestamp, mutation.timestamp? = some timestamp → timestamp ≤ maxSafeInteger) :
    storage.record mutation .ok =
        ({ storage with file := storage.file ++ encodeMutation mutation, state := next }, none) ∧
      Wrote { storage with file := storage.file ++ encodeMutation mutation, state := next }
        (mutations ++ [mutation]) := by
  refine ⟨?_, ?_, hwrote.run.concat happl, ?_⟩
  · simp only [JsonlSessionStorage.record, happl.applyMutation_eq]
  · simp only [fileText_concat, hwrote.file]
  · intro other hother
    rcases mem_append.mp hother with hother | hother
    · exact hwrote.timestamps other hother
    · exact mem_singleton.mp hother ▸ hstamp

end Wrote

section

variable (hwrote : Wrote storage mutations)

include hwrote

theorem Wrote.perform (operation : Operation) :
    (∃ error, storage.state.prepare operation = .error error ∧
      ∀ result, storage.perform operation result = (storage, some error)) ∨
    ∃ mutation next, storage.state.prepare operation = .ok mutation ∧ storage.state.Applies mutation next ∧
      (∀ timestamp, mutation.timestamp? = some timestamp → timestamp ≤ maxSafeInteger) ∧
      ∀ result, storage.perform operation result = storage.record mutation result := by
  cases hprep : storage.state.prepare operation with
  | error error =>
    refine .inl ⟨error, rfl, fun result => ?_⟩
    rw [JsonlSessionStorage.perform, hprep]
  | ok mutation =>
    have hprepar := SessionState.prepare_spec hprep
    obtain ⟨next, happl⟩ := hprepar.applies hwrote.invariant
    refine .inr ⟨mutation, next, rfl, happl, prepared_timestamp hprepar, fun result => ?_⟩
    rw [JsonlSessionStorage.perform, hprep]

theorem Wrote.perform_ok (operation : Operation) :
    ∃ more, Wrote (storage.perform operation .ok).1 (mutations ++ more) := by
  rcases hwrote.perform operation with ⟨error, _, hper⟩ | ⟨mutation, next, _, happl, htime, hper⟩
  · rw [hper]
    exact ⟨[], (append_nil mutations).symm ▸ hwrote⟩
  · obtain ⟨hrec, hnext⟩ := hwrote.record happl htime
    rw [hper, hrec]
    exact ⟨[mutation], hnext⟩

theorem Wrote.performAll (operations : List Operation) :
    ∃ more, Wrote (storage.performAll operations) (mutations ++ more) := by
  induction operations generalizing storage mutations with
  | nil => exact ⟨[], (append_nil mutations).symm ▸ hwrote⟩
  | cons operation operations ih =>
    obtain ⟨first, hfirst⟩ := hwrote.perform_ok operation
    obtain ⟨more, hmore⟩ := ih hfirst
    exact ⟨first ++ more, append_assoc mutations first more ▸ hmore⟩

omit hwrote in
theorem perform_path (storage : JsonlSessionStorage) (operation : Operation)
    (result : AppendResult) : (storage.perform operation result).1.path = storage.path := by
  simp only [JsonlSessionStorage.perform]
  cases storage.state.prepare operation with
  | error error => rfl
  | ok mutation => cases result <;> rfl

omit hwrote in
theorem performAll_path (storage : JsonlSessionStorage) (operations : List Operation) :
    (storage.performAll operations).path = storage.path := by
  induction operations generalizing storage with
  | nil => rfl
  | cons operation operations ih => exact (ih _).trans (perform_path storage operation .ok)

theorem Wrote.recordAll {more : List SessionMutation}
    {target : JsonlSessionStorage} (htim : ∀ mutation ∈ more, ∀ timestamp, mutation.timestamp? = some timestamp →
      timestamp ≤ maxSafeInteger)
    (hrec : storage.recordAll more = .ok target) : Wrote target (mutations ++ more) := by
  induction more generalizing storage mutations with
  | nil =>
    cases hrec
    exact (append_nil mutations).symm ▸ hwrote
  | cons mutation more ih =>
    rw [JsonlSessionStorage.recordAll] at hrec
    rcases storage.state.applyMutation_spec mutation with ⟨error, happly⟩ | ⟨next, happly, happl⟩
    · simp only [JsonlSessionStorage.record, happly] at hrec
      exact nomatch hrec
    · obtain ⟨hnext, hwroteNext⟩ := hwrote.record happl (htim mutation mem_cons_self)
      rw [hnext] at hrec
      have htgt := ih hwroteNext
        (fun other hother => htim other (mem_cons_of_mem _ hother)) hrec
      rwa [append_assoc, singleton_append] at htgt

end

/-! ### Loading a written file -/

section

variable (hwrote : Wrote storage mutations)

include hwrote

theorem Wrote.load_tooLong (hlen : maxSafeInteger < mutations.length) :
    load storage.path storage.file =
      .error (invalidFile storage.path (maxSafeInteger + 2) (js "has invalid seq")) := by
  obtain ⟨front, mutation, rest, hsplit, hfront⟩ : ∃ front mutation rest,
      mutations = front ++ mutation :: rest ∧ front.length = maxSafeInteger := by
    refine ⟨mutations.take maxSafeInteger, mutations[maxSafeInteger], mutations.drop (maxSafeInteger + 1), ?_, ?_⟩
    · rw [← drop_eq_getElem_cons hlen, take_append_drop]
    · rw [length_take, Nat.min_eq_left hlen.le]
  have hseq : mutation.seq = maxSafeInteger + 1 := by
    have hget := hwrote.seq_eq hlen
    simpa only [hsplit, ← hfront, getElem_append_right (Nat.le_refl _), Nat.sub_self, getElem_cons_zero] using hget
  have hsafe : ∀ other ∈ front, SafeNumbers other := by
    have htake := hwrote.safe (Nat.le_refl maxSafeInteger)
    rwa [hsplit, ← hfront, take_left] at htake
  obtain ⟨middle, hrun, _⟩ := (hsplit ▸ hwrote.run).split
  have hlines : loadLines storage.path 1 .initial (mutations.map mutationText) =
      .error (invalidFile storage.path (maxSafeInteger + 2) (js "has invalid seq")) := by
    have hfrontLines := loadLines_mutations storage.path hrun hsafe
      ((mutation :: rest).map mutationText) 1
    rw [SessionState.norm_initial, ← map_append, ← hsplit] at hfrontLines
    rw [hfrontLines, map_cons, loadLines, parseMutation_tooLarge (by omega), hfront,
      Nat.add_comm 1]
    exact if_neg fun h => by cases h.2
  have hphys : physicalLines (fileText storage.header mutations) =
      headerText storage.header :: mutations.map mutationText := by
    rw [fileText_eq, physicalLines_terminated (newline_not_mem_fileLines _ _)]
    rfl
  rw [hwrote.file, load, hphys]
  simp only [if_neg (headerText_ne_nil storage.header), parseHeader_headerText, hlines]
  rfl

theorem Wrote.load (hlen : mutations.length ≤ maxSafeInteger) :
    load storage.path storage.file = .ok (loaded storage.path storage.header mutations storage.state) := by
  rw [hwrote.file]
  exact load_fileText hwrote.run (hwrote.safe_all hlen)

omit hwrote in
theorem wrote_loaded {path : JsStr} {header : JsonlV4Header} {state : SessionState}
    (hrun : SessionState.initial.AppliesAll mutations state)
    (htim : ∀ mutation ∈ mutations, ∀ timestamp, mutation.timestamp? = some timestamp → timestamp ≤ maxSafeInteger) :
    Wrote (loaded path header mutations state) (mutations.map SessionMutation.norm) where
  file := (fileText_norm header mutations).symm
  run := by
    have hnorm := hrun.norm
    rwa [SessionState.norm_initial] at hnorm
  timestamps := by
    intro mutation hmut
    obtain ⟨source, hsrc, rfl⟩ := mem_map.mp hmut
    have hsame : source.norm.timestamp? = source.timestamp? := by cases source <;> rfl
    rw [hsame]
    exact htim source hsrc

theorem Wrote.of_load {target : JsonlSessionStorage}
    (hload : JsonlSessionStorage.load storage.path storage.file = .ok target) :
    Wrote target (mutations.map SessionMutation.norm) := by
  rcases Nat.lt_or_ge maxSafeInteger mutations.length with hlong | hshort
  · exact nomatch (hwrote.load_tooLong hlong).symm.trans hload
  · obtain rfl := Except.ok.inj ((hwrote.load hshort).symm.trans hload)
    exact wrote_loaded hwrote.run hwrote.timestamps

end

/-- The storages that come out of creating, opening, forking and using others while every append
succeeds. -/
inductive Produced : JsonlSessionStorage → Prop
  | create (path : JsStr) (header : JsonlV4Header) : Produced (create path header)
  | perform {storage : JsonlSessionStorage} (hstor : Produced storage) (operation : Operation) :
      Produced (storage.perform operation .ok).1
  | load {storage target : JsonlSessionStorage} (hstor : Produced storage)
      (hload : load storage.path storage.file = .ok target) : Produced target
  | fork {storage target : JsonlSessionStorage} {path : JsStr} {header : JsonlV4Header}
      {options : ForkOptions} (hstor : Produced storage)
      (hfork : storage.fork path header options = .ok target) : Produced target

/-- **Every produced file holds the header and the accepted mutations.** -/
theorem Produced.wrote (hstor : Produced storage) : ∃ mutations, Wrote storage mutations := by
  induction hstor with
  | create path header => exact ⟨[], wrote_create path header⟩
  | perform _ operation ih =>
    obtain ⟨mutations, hwrote⟩ := ih
    obtain ⟨more, hmore⟩ := hwrote.perform_ok operation
    exact ⟨_, hmore⟩
  | load _ hload ih =>
    obtain ⟨mutations, hwrote⟩ := ih
    exact ⟨_, hwrote.of_load hload⟩
  | @fork storage target path header options _ hfork ih =>
    obtain ⟨mutations, hwrote⟩ := ih
    obtain ⟨forked, hfor, hrest⟩ := bind_eq_ok.mp hfork
    obtain ⟨staged, hstag, hload⟩ := bind_eq_ok.mp hrest
    have htim : ∀ mutation ∈ forked, ∀ timestamp,
        mutation.timestamp? = some timestamp → timestamp ≤ maxSafeInteger := by
      intro mutation hmut timestamp hstamp
      obtain ⟨entry, hentry, rfl⟩ := SessionState.createForkMutations_timestamp hwrote.invariant
        hfor mutation hmut timestamp hstamp
      rw [hwrote.invariant.entries, mem_filterMap] at hentry
      obtain ⟨source, hsrc, heq⟩ := hentry
      refine hwrote.timestamps source hsrc _ ?_
      cases source with
      | entry lane added => rw [SessionMutation.timestamp?, Option.some.inj heq]
      | record | lane | name | label => exact nomatch heq
    have hwroteStaged := (wrote_create (path ++ js ".tmp") header).recordAll htim hstag
    have hwrotePath : Wrote { staged with path } forked :=
      { hwroteStaged with }
    exact ⟨_, hwrotePath.of_load hload⟩

theorem performAll_names (storage : JsonlSessionStorage) (count : Nat) :
    (storage.performAll (List.replicate count (.setName none))).state.sequence = storage.state.sequence + count := by
  induction count generalizing storage with
  | zero => rfl
  | succ count ih =>
    have hper : storage.perform (.setName none) .ok =
        ({ storage with
          file := storage.file ++ encodeMutation (.name storage.state.nextSequence none)
          state := storage.state.setName storage.state.nextSequence none }, none) := by
      have happl : storage.state.Applies (.name storage.state.nextSequence none) _ := .name rfl
      have hprep : storage.state.prepare (.setName none) =
          .ok (.name storage.state.nextSequence none) := rfl
      simp only [JsonlSessionStorage.perform, hprep, JsonlSessionStorage.record, happl.applyMutation_eq]
    rw [replicate_succ, JsonlSessionStorage.performAll, foldl_cons, hper]
    refine (ih _).trans ?_
    rw [SessionState.setName, SessionState.nextSequence]
    exact Nat.add_right_comm _ 1 count

theorem load_names (path : JsStr) (header : JsonlV4Header) {count : Nat} (hcount : maxSafeInteger < count) :
    load path ((create path header).performAll (List.replicate count (.setName none))).file =
      .error (invalidFile path (maxSafeInteger + 2) (js "has invalid seq")) := by
  obtain ⟨more, hmore⟩ := (wrote_create path header).performAll
    (List.replicate count (.setName none))
  have hlen : maxSafeInteger < ([] ++ more).length := by
    rw [hmore.length_eq, performAll_names]
    exact Nat.lt_of_lt_of_le hcount (Nat.le_add_left _ _)
  have hload := hmore.load_tooLong hlen
  rwa [performAll_path] at hload

end Runs

/-! ### A concrete session -/

section Sample

local instance : JsonText.NumberText := JsonText.decimalNumbers

local instance : JsNumber.Addition := JsNumber.integerAddition

theorem metadata_none : ∀ props, (none : Option (Props Json)) = some props → (Json.object props).Serializable := by
  rintro _ ⟨⟩

def sampleHeader : JsonlV4Header :=
  ⟨js "session", ⟨1, by decide⟩, js "/work", none, none, none, .inl rfl, metadata_none⟩

def sampleEntry : ProvisionedEntry where
  type := .custom
  id := js "entry"
  payload := ⟨[(js "customType", .string (js "note"))], by decide +kernel, by decide +kernel⟩
  typed := by decide +kernel

def sampleOperations : List Operation :=
  [.setName (some (js "draft")), .createLane (js "side") none,
    .appendEntry sampleEntry (js "side") ⟨2, by decide⟩, .setLabel (js "entry") (some (js "first"))]

end Sample

end PiRp.Jsonl
