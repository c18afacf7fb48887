import PiRp.JsonlRuns

/-! What loading recovers. A truncated file is loaded up to its last complete line and repaired. After
a failed append the storage goes on behind whatever was written: acknowledged mutations survive as
long as nothing is written after an append that failed behind a part of its data. -/

namespace PiRp.Jsonl

open List Session JsonlSessionStorage

section Recovery

variable [JsonText.NumberText]

theorem headerText_starts (header : JsonlV4Header) (mutations : List SessionMutation) :
    headerText header <+: fileText header mutations := by
  rw [fileText, encodeHeader, append_assoc]
  exact prefix_append _ _

/-! ### Truncated files -/

variable [JsNumber.Addition]

variable {storage : JsonlSessionStorage} {mutations : List SessionMutation}

theorem Wrote.load_kept (hwrote : Wrote storage mutations) {kept : JsStr}
    (hhead : headerText storage.header <+: kept) (hkept : kept <+: storage.file) : ∃ count ≤ mutations.length,
      (∀ index ≤ mutations.length, completeText storage.header (mutations.take index) <+: kept ↔ index ≤ count) ∧
      ∃ state, SessionState.initial.AppliesAll (mutations.take count) state ∧
        (count ≤ maxSafeInteger → JsonlSessionStorage.load storage.path kept =
          .ok (loaded storage.path storage.header (mutations.take count) state)) := by
  rw [hwrote.file] at hkept
  obtain ⟨count, hcount, hkeeps⟩ := exists_keeps hhead hkept
  have hrun := hwrote.run
  rw [← take_append_drop count mutations] at hrun
  obtain ⟨state, hstate, _⟩ := hrun.split
  exact ⟨count, hcount, fun index hindex => hkeeps.complete_iff hkept hcount hindex, state, hstate,
    fun hbound => hkeeps.load hstate (hwrote.safe hbound)⟩

theorem Wrote.header_starts (hwrote : Wrote storage mutations) : headerText storage.header <+: storage.file := by
  rw [hwrote.file]
  exact headerText_starts storage.header mutations

theorem load_kept_names (path : JsStr) (header : JsonlV4Header) {count : Nat} (hcount : maxSafeInteger < count) :
    ∃ kept error, headerText ((create path header).performAll (List.replicate count (.setName none))).header <+:
        kept ∧ kept <+: ((create path header).performAll (List.replicate count (.setName none))).file ∧
      load path kept = .error error := by
  obtain ⟨more, hmore⟩ := (wrote_create path header).performAll
    (List.replicate count (.setName none))
  exact ⟨_, _, hmore.header_starts, prefix_refl _, load_names path header hcount⟩

/-! ### Failed appends -/

/-- An operation together with how its append ends. -/
structure Step where
  operation : Operation
  result : AppendResult

namespace JsonlSessionStorage

/-- The mutation of a step whose operation resolves. -/
def acknowledged (storage : JsonlSessionStorage) (step : Step) : Option SessionMutation :=
  match storage.state.prepare step.operation, (storage.perform step.operation step.result).2 with
  | .ok mutation, none => some mutation
  | _, _ => none

/-- A run of operations: the storage at its end and the acknowledged mutations. -/
def runSteps (storage : JsonlSessionStorage) :
    List Step → JsonlSessionStorage × List SessionMutation
  | [] => (storage, [])
  | step :: steps =>
    let rest := runSteps (storage.perform step.operation step.result).1 steps
    (rest.1, (storage.acknowledged step).toList ++ rest.2)

/-- The step writes to the file: its operation is valid, and the append gets to write something. -/
def writes (storage : JsonlSessionStorage) (step : Step) : Bool :=
  match storage.state.prepare step.operation, step.result with
  | .error _, _ => false
  | .ok _, .ok => true
  | .ok _, .error written _ => 0 < written

/-- The append of the step fails behind a part of its data. -/
def tears (storage : JsonlSessionStorage) (step : Step) : Bool :=
  storage.writes step && step.result ≠ .ok

/-- No step writes after an append that failed behind a part of its data. -/
def NoWriteAfterTear (storage : JsonlSessionStorage) (torn : Bool) : List Step → Prop
  | [] => True
  | step :: steps =>
    (torn = true → storage.writes step = false) ∧
      NoWriteAfterTear (storage.perform step.operation step.result).1
        (torn || storage.tears step) steps

end JsonlSessionStorage

/-- How the file looks in a run without writes after a tear: it holds the acknowledged mutations,
and behind a tear the start of one more line. -/
inductive Holds (storage : JsonlSessionStorage) (mutations : List SessionMutation) : Bool → Prop
  | clean (hwrote : Wrote storage mutations) : Holds storage mutations false
  | torn {mutation : SessionMutation} {next : SessionState} {tail : JsStr}
      (hwrote : Wrote { storage with file := fileText storage.header mutations } mutations)
      (happl : storage.state.Applies mutation next)
      (hstamp : ∀ timestamp, mutation.timestamp? = some timestamp → timestamp ≤ maxSafeInteger)
      (htail : tail <+: encodeMutation mutation)
      (hfile : storage.file = fileText storage.header mutations ++ tail) :
      Holds storage mutations true

theorem perform_of_not_writes {step : Step} (hwrit : storage.writes step = false) :
    (storage.perform step.operation step.result).1 = storage ∧ storage.acknowledged step = none ∧
      storage.tears step = false := by
  have htears : storage.tears step = false := by
    rw [JsonlSessionStorage.tears, hwrit, Bool.false_and]
  obtain ⟨operation, result⟩ := step
  simp only [JsonlSessionStorage.writes] at hwrit
  simp only [JsonlSessionStorage.acknowledged, JsonlSessionStorage.perform]
  cases hprep : storage.state.prepare operation with
  | error error => exact ⟨rfl, rfl, htears⟩
  | ok mutation =>
    rw [hprep] at hwrit
    cases result with
    | ok => cases hwrit
    | error written error =>
      obtain rfl : written = 0 := by simpa using hwrit
      refine ⟨?_, rfl, htears⟩
      simp only [JsonlSessionStorage.record, take_zero, append_nil]

theorem Holds.step {torn : Bool} (hholds : Holds storage mutations torn) {step : Step}
    (hclean : torn = true → storage.writes step = false) : Holds (storage.perform step.operation step.result).1
      (mutations ++ (storage.acknowledged step).toList) (torn || storage.tears step) := by
  cases hwrit : storage.writes step with
  | false =>
    obtain ⟨hstor, hack, htears⟩ := perform_of_not_writes hwrit
    rw [hstor, hack, htears, Bool.or_false, Option.toList_none, append_nil]
    exact hholds
  | true =>
    cases hholds with
    | torn => exact nomatch hwrit.symm.trans (hclean rfl)
    | clean hwrote =>
      obtain ⟨operation, result⟩ := step
      rcases hwrote.perform operation with
        ⟨error, hprep, _⟩ | ⟨mutation, next, hprep, happl, hstamp, hper⟩
      · rw [JsonlSessionStorage.writes, hprep] at hwrit
        exact nomatch hwrit
      simp only [JsonlSessionStorage.acknowledged, JsonlSessionStorage.tears, hwrit, hprep,
        hper, Bool.false_or, Bool.true_and]
      cases result with
      | ok =>
        obtain ⟨hrec, hnext⟩ := hwrote.record happl hstamp
        rw [hrec]
        exact .clean hnext
      | error written error =>
        simp only [JsonlSessionStorage.record, Option.toList_none, append_nil]
        refine .torn ⟨rfl, hwrote.run, hwrote.timestamps⟩ happl hstamp
          ( take_prefix written _) ?_
        simp only [hwrote.file]

theorem Holds.run {torn : Bool} (hholds : Holds storage mutations torn) {steps : List Step}
    (hclean : storage.NoWriteAfterTear torn steps) :
    ∃ torn, Holds (storage.runSteps steps).1 (mutations ++ (storage.runSteps steps).2) torn := by
  induction steps generalizing storage mutations torn with
  | nil => exact ⟨torn, (append_nil mutations).symm ▸ hholds⟩
  | cons step steps ih =>
    obtain ⟨hstep, hrest⟩ := hclean
    obtain ⟨last, hlast⟩ := ih (hholds.step hstep) hrest
    exact ⟨last, append_assoc mutations _ _ ▸ hlast⟩

theorem loaded_log {path : JsStr} {header : JsonlV4Header} {state : SessionState}
    (hrun : SessionState.initial.AppliesAll mutations state) : (loaded path header mutations state).state.log =
      mutations.map fun mutation => mutation.logItem.norm := by
  have hlog := (hrun.invariant invariant_initial).log
  rw [nil_append] at hlog
  rw [loaded, SessionState.norm, hlog, map_map]
  rfl

theorem Holds.load {torn : Bool} (hholds : Holds storage mutations torn)
    (hbound : storage.state.sequence < maxSafeInteger) :
    ∃ target, JsonlSessionStorage.load storage.path storage.file = .ok target ∧
      mutations.map (fun mutation => mutation.logItem.norm) <+: target.state.log := by
  cases hholds with
  | clean hwrote =>
    refine ⟨_, hwrote.load (hwrote.length_eq ▸ hbound.le), ?_⟩
    rw [loaded_log hwrote.run]
  | @torn mutation next tail hwrote happl hstamp htail hfile =>
    obtain ⟨_, hext⟩ := hwrote.record happl hstamp
    have hlen : mutations.length = storage.state.sequence := hwrote.length_eq
    have hstar : storage.file <+: fileText storage.header mutations ++ encodeMutation mutation := by
      rw [hfile]
      exact (prefix_append_right_inj _).mpr htail
    have hhead : headerText storage.header <+: storage.file := by
      rw [hfile]
      exact (headerText_starts storage.header mutations).trans (prefix_append _ _)
    obtain ⟨count, hcount, hcom, state, hrun, hload⟩ := hext.load_kept hhead hstar
    have hkept : mutations.length ≤ count := by
      refine (hcom mutations.length (by simp)).mp ?_
      rw [take_left, hfile]
      exact ( dropLast_prefix _).trans (prefix_append _ _)
    rw [length_append, length_singleton] at hcount
    refine ⟨_, hload (by omega), ?_⟩
    rw [loaded_log hrun]
    refine List.IsPrefix.map _ ?_
    exact prefix_take_iff.mpr ⟨prefix_append _ _, hkept⟩

/-- **Acknowledged mutations survive failed appends.** In a run in which nothing is written after an
append that failed behind a part of its data, the file can be loaded at the end and its log starts
with the acknowledged mutations in their order. -/
theorem acknowledged_survive {start : JsonlSessionStorage} (hstart : Produced start)
    (steps : List Step) (hclean : start.NoWriteAfterTear false steps)
    (hbound : (start.runSteps steps).1.state.sequence < maxSafeInteger) :
    ∃ target, load (start.runSteps steps).1.path (start.runSteps steps).1.file = .ok target ∧
      (start.state.log ++ (start.runSteps steps).2.map SessionMutation.logItem).map LogItem.norm <+:
        target.state.log := by
  obtain ⟨mutations, hwrote⟩ := hstart.wrote
  obtain ⟨torn, hholds⟩ := (Holds.clean hwrote).run hclean
  obtain ⟨target, hload, hlog⟩ := hholds.load hbound
  refine ⟨target, hload, ?_⟩
  rw [hwrote.invariant.log, ← map_append, map_map]
  exact hlog

end Recovery

/-! ### Concrete runs -/

section Sample

local instance : JsonText.NumberText := JsonText.decimalNumbers

local instance : JsNumber.Addition := JsNumber.integerAddition

/-- A change of the name whose append fails after five characters, then one that succeeds. -/
def lostSteps : List Step :=
  [⟨.setName (some (js "a")), .error 5 ⟨.unknown, js "disk full"⟩⟩, ⟨.setName (some (js "b")), .ok⟩]

/-- The second change is acknowledged and lost. -/
theorem acknowledged_lost : let run := (create (js "a.jsonl") sampleHeader).runSteps lostSteps
    run.2 = [.name 1 (some (js "b"))] ∧
      ¬ ∃ target, load run.1.path run.1.file = .ok target ∧
        ∀ mutation ∈ run.2, mutation.logItem.norm ∈ target.state.log := by
  intro run
  have hack : run.2 = [.name 1 (some (js "b"))] := by decide +kernel
  have hload : (load run.1.path run.1.file).map (fun target => target.state.log) = .ok [] := by
    decide +kernel
  refine ⟨hack, ?_⟩
  rintro ⟨target, htgt, hall⟩
  rw [htgt] at hload
  have hlog : target.state.log = [] := Except.ok.inj hload
  rw [hack, hlog] at hall
  exact absurd (hall _ (mem_singleton_self _)) not_mem_nil

/-- A change of the name that succeeds, then one whose append fails after five characters. -/
def keptSteps : List Step :=
  [⟨.setName (some (js "a")), .ok⟩, ⟨.setName (some (js "b")), .error 5 ⟨.unknown, js "disk full"⟩⟩,
    ⟨.createLane (js "main") none, .ok⟩]

theorem acknowledged_survive_sample : let run := (create (js "a.jsonl") sampleHeader).runSteps keptSteps
    run.2 = [.name 1 (some (js "a"))] ∧
      ∃ target, load run.1.path run.1.file = .ok target ∧
        (run.2.map SessionMutation.logItem).map LogItem.norm <+: target.state.log :=
  ⟨by decide +kernel,
    acknowledged_survive (.create (js "a.jsonl") sampleHeader) keptSteps
      ⟨nofun, nofun, fun _ => by decide +kernel, trivial⟩ (by decide +kernel)⟩

end Sample

end PiRp.Jsonl
