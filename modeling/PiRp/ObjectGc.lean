import PiRp.Bundle
import PiRp.JsonDecimal

/-! The garbage collector of `packages/agent/src/core/objects/gc.ts`. A call marks what the roots reach
and lists the other objects; a dry run keeps the list as a plan, a sweep removes the objects of a plan
that still fits. What the window and the store answer during a call is part of its input. Between
calls the store may change in any way. -/

namespace PiRp.ObjectGc

open List Bundle

structure ImportPin where
  importId : JsStr
  roots : List BundleRoot

structure RootsSnapshot where
  id : JsStr
  roots : List BundleRoot
  importPins : List ImportPin

inductive Mode where
  | dryRun
  | sweep (dryRunId : JsStr)

structure Input where
  rootsSnapshot : RootsSnapshot
  gcWindowId : JsStr
  mode : Mode

/-- What happens at one candidate of a sweep. -/
inductive SweepAnswer where
  /-- The window is closed, the barrier is down or the roots snapshot is another one. -/
  | conditionsChanged
  | removed
  /-- `remove` throws, with the object gone or not. -/
  | removeFailed (gone : Bool)

/-- What the surroundings answer during a call. -/
structure Answers where
  isOpen : Bool
  writeBarrierActive : Bool
  windowId : JsStr
  currentRootsSnapshotId : JsStr
  randomUUID : JsStr
  /-- Listing the store or reading a candidate throws. -/
  storeFails : Bool
  atCandidate : Nat → SweepAnswer

structure Plan where
  windowId : JsStr
  snapshotId : JsStr
  candidates : List ObjectHash

structure GcReport where
  dryRunId : JsStr
  markedCount : Nat
  candidateCount : Nat
  candidateBytes : Nat
  removedCount : Nat
  removedBytes : Nat
  isPartial : Bool
  candidates : List ObjectHash

/-- The store, with the plans of the collector and the reports of its dry runs. -/
structure State where
  store : ObjectStore
  plans : JsMap JsStr Plan
  dryRuns : List GcReport

def RootsSnapshot.allRoots (snapshot : RootsSnapshot) : List ClosureRoot :=
  (snapshot.roots ++ snapshot.importPins.flatMap ImportPin.roots).map .object

/-- The stored objects that are not marked, in the order of their hashes. -/
def candidatesOf (store : ObjectStore) (objects : List (ObjectHash × Nat)) : List ObjectHash :=
  (store.keys.filter fun hash => hash ∉ objects.map Prod.fst).insertionSort (· ≤ ·)

def byteLength (store : ObjectStore) (hash : ObjectHash) : Nat := ((store.get? hash).map List.length).getD 0

/-- How far a sweep came. -/
structure Sweep where
  store : ObjectStore
  removedCount : Nat
  removedBytes : Nat
  completed : Bool

def Sweep.remove (done : Sweep) (lengths : ObjectStore) (hash : ObjectHash) : Sweep :=
  { done with
    store := done.store.delete hash
    removedCount := done.removedCount + 1
    removedBytes := done.removedBytes + byteLength lengths hash }

/-- The loop of the sweep; `lengths` is the store as it was read before. -/
def sweep (lengths : ObjectStore) (atCandidate : Nat → SweepAnswer) (done : Sweep) (index : Nat) :
    List ObjectHash → Sweep
  | [] => { done with completed := true }
  | hash :: rest =>
    match atCandidate index with
    | .conditionsChanged => { done with completed := false }
    | .removeFailed gone =>
      { done with completed := false, store := if gone then done.store.delete hash else done.store }
    | .removed => sweep lengths atCandidate (done.remove lengths hash) (index + 1) rest

/-- The plan of a sweep still fits the input and the candidates. -/
def Plan.Fits (plan : Plan) (input : Input) (candidates : List ObjectHash) : Prop :=
  plan.windowId = input.gcWindowId ∧ plan.snapshotId = input.rootsSnapshot.id ∧
    plan.candidates = candidates

instance (plan : Plan) (input : Input) (candidates : List ObjectHash) :
    Decidable (plan.Fits input candidates) :=
  inferInstanceAs (Decidable (_ ∧ _ ∧ _))

def reportOf (store : ObjectStore) (dryRunId : JsStr) (marked : ClosureWalk)
    (candidates : List ObjectHash) : GcReport where
  dryRunId := dryRunId
  markedCount := marked.objects.length
  candidateCount := candidates.length
  candidateBytes := (candidates.map (byteLength store)).sum
  removedCount := 0
  removedBytes := 0
  isPartial := false
  candidates := candidates

def dryRun (state : State) (input : Input) (answers : Answers) (marked : ClosureWalk)
    (candidates : List ObjectHash) : State × Option GcReport :=
  let report := reportOf state.store answers.randomUUID marked candidates
  ({ state with
      plans := state.plans.set answers.randomUUID
        ⟨input.gcWindowId, input.rootsSnapshot.id, candidates⟩
      dryRuns := state.dryRuns ++ [report] }, some report)

def sweepPlan (state : State) (answers : Answers) (dryRunId : JsStr) (marked : ClosureWalk)
    (candidates : List ObjectHash) : State × Option GcReport :=
  let swept := sweep state.store answers.atCandidate ⟨state.store, 0, 0, false⟩ 0 candidates
  ({ state with
      store := swept.store
      plans := if swept.completed then state.plans.delete dryRunId else state.plans },
    some { reportOf state.store dryRunId marked candidates with
      removedCount := swept.removedCount
      removedBytes := swept.removedBytes
      isPartial := !swept.completed && 0 < swept.removedCount })

theorem sweep_get? (lengths : ObjectStore) (atCandidate : Nat → SweepAnswer) (done : Sweep)
    (index : Nat) (candidates : List ObjectHash) (hash : ObjectHash) :
    (sweep lengths atCandidate done index candidates).store.get? hash = done.store.get? hash ∨ (hash ∈ candidates ∧
        (sweep lengths atCandidate done index candidates).store.get? hash = none) := by
  induction candidates generalizing done index with
  | nil => exact .inl rfl
  | cons first rest ih =>
    rw [sweep]
    cases atCandidate index with
    | conditionsChanged => exact .inl rfl
    | removeFailed gone =>
      cases gone with
      | false => exact .inl rfl
      | true =>
        simp only [if_true, JsMap.get?_delete]
        split_ifs with hfirst
        · exact .inr ⟨hfirst ▸ mem_cons_self, rfl⟩
        · exact .inl rfl
    | removed =>
      rcases ih (done.remove lengths first) (index + 1) with hkept | ⟨hmem, hgone⟩
      · rw [Sweep.remove, JsMap.get?_delete] at hkept
        split_ifs at hkept with hfirst
        · exact .inr ⟨hfirst ▸ mem_cons_self, hkept⟩
        · exact .inl hkept
      · exact .inr ⟨mem_cons_of_mem _ hmem, hgone⟩

variable {candidates : List ObjectHash}

theorem sweep_frame (lengths : ObjectStore) (atCandidate : Nat → SweepAnswer) (done : Sweep)
    (index : Nat) {hash : ObjectHash} (hhash : hash ∉ candidates) :
    (sweep lengths atCandidate done index candidates).store.get? hash = done.store.get? hash := by
  rcases sweep_get? lengths atCandidate done index candidates hash with hkept | ⟨hmem, _⟩
  · exact hkept
  · exact absurd hmem hhash

theorem sweep_completed {lengths : ObjectStore} {atCandidate : Nat → SweepAnswer} {done : Sweep} {index : Nat}
    (hcom : (sweep lengths atCandidate done index candidates).completed = true) :
    ∀ hash ∈ candidates, (sweep lengths atCandidate done index candidates).store.get? hash = none := by
  induction candidates generalizing done index with
  | nil => exact fun hash hhash => absurd hhash not_mem_nil
  | cons first rest ih =>
    rw [sweep] at hcom ⊢
    cases hans : atCandidate index with
    | conditionsChanged => rw [hans] at hcom; exact nomatch hcom
    | removeFailed gone => rw [hans] at hcom; exact nomatch hcom
    | removed =>
      rw [hans] at hcom
      intro hash hhash
      rcases mem_cons.mp hhash with rfl | hhash
      · rcases sweep_get? lengths atCandidate (done.remove lengths hash) (index + 1) rest hash with
          hkept | ⟨_, hgone⟩
        · exact hkept.trans (by rw [Sweep.remove, JsMap.get?_delete, if_pos rfl])
        · exact hgone
      · exact ih hcom hash hhash

theorem le_sweep_removedCount (lengths : ObjectStore) (atCandidate : Nat → SweepAnswer) (done : Sweep)
    (index : Nat) (candidates : List ObjectHash) :
    done.removedCount ≤ (sweep lengths atCandidate done index candidates).removedCount := by
  induction candidates generalizing done index with
  | nil => exact Nat.le_refl _
  | cons first rest ih =>
    rw [sweep]
    cases atCandidate index with
    | conditionsChanged => exact Nat.le_refl _
    | removeFailed gone => exact Nat.le_refl _
    | removed => exact (Nat.le_succ _).trans (ih (done.remove lengths first) (index + 1))

theorem sweep_started (lengths : ObjectStore) {atCandidate : Nat → SweepAnswer} (done : Sweep) {index : Nat}
    (hfirst : candidates = [] ∨ atCandidate index = .removed) :
    (sweep lengths atCandidate done index candidates).completed = true ∨
      0 < (sweep lengths atCandidate done index candidates).removedCount := by
  cases candidates with
  | nil => exact .inl rfl
  | cons first rest =>
    refine .inr ?_
    rcases hfirst with hnil | hrem
    · exact nomatch hnil
    · rw [sweep, hrem]
      exact (Nat.succ_pos done.removedCount).trans_le
        (le_sweep_removedCount lengths atCandidate (done.remove lengths first) (index + 1) rest)

/-- The sweep of the plan of a dry run, when it is known and fits. -/
def sweepMode (state : State) (input : Input) (answers : Answers) (dryRunId : JsStr)
    (marked : ClosureWalk) (candidates : List ObjectHash) : State × Option GcReport :=
  match state.plans.get? dryRunId with
  | none => (state, none)
  | some plan =>
    if plan.Fits input candidates then sweepPlan state answers dryRunId marked candidates
    else (state, none)

def runMode (state : State) (input : Input) (answers : Answers) (marked : ClosureWalk)
    (candidates : List ObjectHash) : State × Option GcReport :=
  match input.mode with
  | .dryRun => dryRun state input answers marked candidates
  | .sweep dryRunId => sweepMode state input answers dryRunId marked candidates

theorem runMode_cases (state : State) (input : Input) (answers : Answers) (marked : ClosureWalk)
    (candidates : List ObjectHash) : runMode state input answers marked candidates = (state, none) ∨
      (input.mode = .dryRun ∧ runMode state input answers marked candidates =
        dryRun state input answers marked candidates) ∨
      ∃ dryRunId plan, input.mode = .sweep dryRunId ∧ state.plans.get? dryRunId = some plan ∧
        plan.candidates = candidates ∧ runMode state input answers marked candidates =
          sweepPlan state answers dryRunId marked candidates := by
  rw [runMode]
  cases input.mode with
  | dryRun => exact .inr (.inl ⟨rfl, rfl⟩)
  | sweep dryRunId =>
    simp only [sweepMode]
    cases hplan : state.plans.get? dryRunId with
    | none => exact .inl rfl
    | some plan =>
      simp only
      split_ifs with hfits
      · exact .inr (.inr ⟨dryRunId, plan, rfl, hplan, hfits.2.2, rfl⟩)
      · exact .inl rfl

section Collect

variable [Sha256] [JsonText.NumberText]

/-- `collectGarbage`: the state after the call, and its report unless it throws. -/
def collectGarbage (state : State) (input : Input) (answers : Answers) : State × Option GcReport :=
  if answers.isOpen && answers.writeBarrierActive && input.gcWindowId = answers.windowId &&
      input.rootsSnapshot.id = answers.currentRootsSnapshotId then
    match walk input.rootsSnapshot.allRoots state.store with
    | none => (state, none)
    | some marked =>
      if answers.storeFails then (state, none)
      else runMode state input answers marked (candidatesOf state.store marked.objects)
  else (state, none)

theorem collectGarbage_cases (state : State) (input : Input) (answers : Answers) :
    collectGarbage state input answers = (state, none) ∨
      ∃ marked, walk input.rootsSnapshot.allRoots state.store = some marked ∧
        ((input.mode = .dryRun ∧ collectGarbage state input answers =
            dryRun state input answers marked (candidatesOf state.store marked.objects)) ∨
          ∃ dryRunId plan, input.mode = .sweep dryRunId ∧ state.plans.get? dryRunId = some plan ∧
            plan.candidates = candidatesOf state.store marked.objects ∧ collectGarbage state input answers =
              sweepPlan state answers dryRunId marked (candidatesOf state.store marked.objects)) := by
  rw [collectGarbage]
  split_ifs with hwin hfails
  · cases walk input.rootsSnapshot.allRoots state.store with
    | none => exact .inl rfl
    | some marked => exact .inl rfl
  · cases walk input.rootsSnapshot.allRoots state.store with
    | none => exact .inl rfl
    | some marked =>
      rcases runMode_cases state input answers marked (candidatesOf state.store marked.objects) with
        hnothing | hrun
      · exact .inl hnothing
      · exact .inr ⟨marked, rfl, hrun⟩
  · exact .inl rfl

/-- The walks from the roots of a call, together and one by one, have the outcome they had before. -/
def KeepsWalks (before after : ObjectStore) (roots : List ClosureRoot) : Prop :=
  walk roots after = walk roots before ∧ ∀ root ∈ roots, walk [root] after = walk [root] before

theorem KeepsWalks.refl (store : ObjectStore) (roots : List ClosureRoot) : KeepsWalks store store roots :=
  ⟨rfl, fun _ _ => rfl⟩

omit [Sha256] [JsonText.NumberText] in
theorem mem_candidatesOf {store : ObjectStore} {objects : List (ObjectHash × Nat)} {hash : ObjectHash} :
    hash ∈ candidatesOf store objects ↔ hash ∈ store.keys ∧ hash ∉ objects.map Prod.fst := by
  rw [candidatesOf, mem_insertionSort, mem_filter, decide_eq_true_eq]

variable {state : State}

theorem sweepPlan_keepsWalks {answers : Answers} {dryRunId : JsStr}
    {roots : List ClosureRoot} {marked : ClosureWalk} (hwalk : walk roots state.store = some marked) :
    KeepsWalks state.store (sweepPlan state answers dryRunId marked (candidatesOf state.store marked.objects)).1.store
      roots := by
  have hsame : ∀ object ∈ marked.objects,
      (sweepPlan state answers dryRunId marked (candidatesOf state.store marked.objects)).1.store.get?
        object.1 = state.store.get? object.1 := by
    intro object hobj
    refine sweep_frame state.store answers.atCandidate _ 0 fun hmem => ?_
    exact (mem_candidatesOf.mp hmem).2 (mem_map.mpr ⟨object, hobj, rfl⟩)
  refine ⟨walk_congr hwalk hsame fun _ hroot => hroot, fun root hroot => ?_⟩
  exact walk_congr hwalk hsame fun other hother => mem_singleton.mp hother ▸ hroot

/-- What a call has to keep: the walks, removals that a dry run announced, and a sweep that is not
reported as partial has removed every candidate. -/
structure Safe (state : State) (input : Input) (answers : Answers) : Prop where
  walks : KeepsWalks state.store (collectGarbage state input answers).1.store input.rootsSnapshot.allRoots
  announced : ∀ hash ∈ state.store.keys,
    hash ∉ (collectGarbage state input answers).1.store.keys →
      ∃ dryRunId, input.mode = .sweep dryRunId ∧
        ∃ report ∈ state.dryRuns, report.dryRunId = dryRunId ∧ hash ∈ report.candidates
  complete : ∀ dryRunId report, input.mode = .sweep dryRunId →
    (collectGarbage state input answers).2 = some report → report.isPartial = false →
      ∀ hash ∈ report.candidates, hash ∉ (collectGarbage state input answers).1.store.keys

/-- Every plan was announced by a dry run. -/
def State.Planned (state : State) : Prop :=
  ∀ dryRunId plan, state.plans.get? dryRunId = some plan →
    ∃ report ∈ state.dryRuns, report.dryRunId = dryRunId ∧ report.candidates = plan.candidates

/-- The first check of a sweep passes and its first removal succeeds, or nothing is to be removed. -/
def Starts (state : State) (input : Input) (answers : Answers) : Prop :=
  ∀ dryRunId, input.mode = .sweep dryRunId → answers.atCandidate 0 = .removed ∨
    ∀ marked, walk input.rootsSnapshot.allRoots state.store = some marked →
      ∀ hash ∈ state.store.keys, hash ∈ marked.objects.map Prod.fst

omit [Sha256] [JsonText.NumberText] in
theorem not_mem_keys_iff {store : ObjectStore} {hash : ObjectHash} : hash ∉ store.keys ↔ store.get? hash = none := by
  rw [JsMap.get?_eq_none, ← JsMap.has_iff, Bool.not_eq_true]

theorem safe_of_starts {input : Input} {answers : Answers} (hplann : state.Planned)
    (hstar : Starts state input answers) : Safe state input answers := by
  rcases collectGarbage_cases state input answers with
    hnothing | ⟨marked, hwalk, ⟨hmode, hdry⟩ | ⟨dryRunId, plan, hmode, hplan, hcands, hsweep⟩⟩
  · refine ⟨?_, ?_, ?_⟩
    · rw [hnothing]
      exact .refl _ _
    · rw [hnothing]
      exact fun hash hhash hgone => absurd hhash hgone
    · rw [hnothing]
      exact fun _ _ _ hrep => nomatch hrep
  · refine ⟨?_, ?_, ?_⟩
    · rw [hdry]
      exact .refl _ _
    · rw [hdry]
      exact fun hash hhash hgone => absurd hhash hgone
    · rw [hmode]
      exact fun _ _ hsweep => nomatch hsweep
  · refine ⟨?_, fun hash hhash hgone => ?_, fun otherId report _ hrep hpar hash hhash => ?_⟩
    · rw [hsweep]
      exact sweepPlan_keepsWalks hwalk
    · obtain ⟨report, hrep, hid, hsame⟩ := hplann dryRunId plan hplan
      refine ⟨dryRunId, hmode, report, hrep, hid, ?_⟩
      rw [hsame, hcands]
      by_contra hmem
      rw [hsweep, not_mem_keys_iff] at hgone
      have hframe := sweep_frame state.store answers.atCandidate ⟨state.store, 0, 0, false⟩ 0 hmem
      exact not_mem_keys_iff.mpr (hframe.symm.trans hgone) hhash
    · rw [hsweep] at hrep ⊢
      obtain rfl := Option.some.inj hrep
      have hfirst : candidatesOf state.store marked.objects = [] ∨ answers.atCandidate 0 = .removed := by
        rcases hstar dryRunId hmode with hrem | hall
        · exact .inr hrem
        · refine .inl (eq_nil_iff_forall_not_mem.mpr fun other hother => ?_)
          obtain ⟨hstor, hunm⟩ := mem_candidatesOf.mp hother
          exact hunm (hall marked hwalk other hstor)
      have hcom : (sweep state.store answers.atCandidate ⟨state.store, 0, 0, false⟩ 0
          (candidatesOf state.store marked.objects)).completed = true := by
        rcases sweep_started state.store ⟨state.store, 0, 0, false⟩ hfirst with
          hcom | hpos
        · exact hcom
        · simpa [sweepPlan, hpos] using hpar
      exact not_mem_keys_iff.mpr (sweep_completed hcom hash hhash)

/-- What happens to the store: a change from outside between calls, or a call of the collector. -/
inductive Event where
  | outside (store : ObjectStore)
  | collect (input : Input) (answers : Answers)

def State.start (store : ObjectStore) : State := ⟨store, .empty, []⟩

def State.step (state : State) : Event → State
  | .outside store => { state with store := store }
  | .collect input answers => (collectGarbage state input answers).1

def State.run (state : State) (events : List Event) : State := events.foldl State.step state

theorem State.step_planned (hplann : state.Planned) (event : Event) : (state.step event).Planned := by
  cases event with
  | outside store => exact hplann
  | collect input answers =>
    rw [State.step]
    rcases collectGarbage_cases state input answers with
      hnothing | ⟨marked, _, ⟨_, hdry⟩ | ⟨dryRunId, plan, _, _, _, hsweep⟩⟩
    · rw [hnothing]
      exact hplann
    · rw [hdry]
      intro dryRunId plan hplan
      rw [dryRun, JsMap.get?_set] at hplan
      split_ifs at hplan with hid
      · obtain rfl := Option.some.inj hplan
        exact ⟨_, mem_append_right _ (mem_singleton_self _), hid.symm, rfl⟩
      · obtain ⟨report, hrep, hfound⟩ := hplann dryRunId plan hplan
        exact ⟨report, mem_append_left _ hrep, hfound⟩
    · rw [hsweep]
      intro otherId other hother
      apply hplann otherId other
      simp only [sweepPlan] at hother
      split_ifs at hother
      · rw [JsMap.get?_delete] at hother
        split_ifs at hother
        exact hother
      · exact hother

theorem State.run_planned (hplann : state.Planned) (events : List Event) : (state.run events).Planned := by
  induction events generalizing state with
  | nil => exact hplann
  | cons event rest ih => exact ih (state.step_planned hplann event)

omit [Sha256] [JsonText.NumberText] in
theorem State.start_planned (store : ObjectStore) : (State.start store).Planned :=
  fun _ _ hplan => nomatch hplan

/-- **Garbage collection.** In a run whose sweeps pass their first check and remove their first
candidate, every call keeps the walks from its roots, removes only what a dry run announced, and
removes every candidate unless it reports the sweep as partial. -/
theorem run_safe (store : ObjectStore) (events : List Event)
    (hstar : ∀ before input answers after, events = before ++ .collect input answers :: after →
      Starts ((State.start store).run before) input answers) :
    ∀ before input answers after, events = before ++ .collect input answers :: after →
      Safe ((State.start store).run before) input answers := by
  intro before input answers after heven
  apply safe_of_starts
  · exact State.run_planned (State.start_planned store) before
  · exact hstar before input answers after heven

end Collect

section Sample

local instance : JsonText.NumberText := JsonText.decimalNumbers

/-- The digests of the sample object and of the empty closure. -/
def sampleDigest (data : Bytes) : Bytes :=
  if data = textEncode (js "\"orphan\"") then
    [79, 209, 72, 17, 26, 152, 69, 86, 10, 159, 85, 137, 225, 81, 143, 59,
      136, 165, 227, 175, 129, 101, 12, 76, 129, 42, 27, 184, 91, 17, 138, 244]
  else if data = closureDomain ++ List.replicate 8 0 then
    [47, 20, 19, 251, 167, 190, 210, 246, 200, 46, 130, 197, 93, 78, 239, 85,
      1, 40, 7, 160, 82, 214, 29, 36, 210, 182, 132, 224, 50, 188, 227, 229]
  else List.replicate 32 0

local instance : Sha256 where
  digest := sampleDigest
  length_digest data := by
    unfold sampleDigest
    split_ifs <;> rfl

def sampleHash : ObjectHash := js "4fd148111a9845560a9f5589e1518f3b88a5e3af81650c4c812a1bb85b118af4"

/-- A store with one object that no root reaches. -/
def sampleStore : ObjectStore := JsMap.empty.set sampleHash (textEncode (js "\"orphan\""))

def sampleCall (mode : Mode) (answer : SweepAnswer) : Event :=
  .collect ⟨⟨js "roots", [], []⟩, js "window", mode⟩
    ⟨true, true, js "window", js "roots", js "plan", false, fun _ => answer⟩

/-- A dry run and the sweep of its plan. -/
def sampleRun (answer : SweepAnswer) : List Event :=
  [sampleCall .dryRun answer, sampleCall (.sweep (js "plan")) answer]

/-- The sweep of the plan with the answers it gets. -/
def sampleInput : Input := ⟨⟨js "roots", [], []⟩, js "window", .sweep (js "plan")⟩

def sampleAnswers : Answers :=
  ⟨true, true, js "window", js "roots", js "plan", false, fun _ => .removed⟩

theorem run_safe_sample : Safe ((State.start sampleStore).run [sampleCall .dryRun .removed])
    sampleInput sampleAnswers := by
  refine run_safe sampleStore (sampleRun .removed) ?_ _ _ _ [] rfl
  intro before input answers after heven dryRunId hmode
  have hmem : Event.collect input answers ∈ sampleRun .removed := by
    rw [heven]
    exact mem_append_right _ mem_cons_self
  rcases mem_cons.mp hmem with hfirst | hmem
  · cases hfirst
    exact nomatch hmode
  · cases mem_singleton.mp hmem
    exact .inl rfl

/-- The removal of the only candidate fails, and the sweep is not reported as partial. -/
theorem sweep_failure_unreported :
    ¬ ∀ (store : ObjectStore) (events before : List Event) (input : Input) (answers : Answers)
      (after : List Event), events = before ++ .collect input answers :: after →
        Safe ((State.start store).run before) input answers := by
  intro hclaim
  have hcomp := (hclaim sampleStore (sampleRun (.removeFailed false))
    [sampleCall .dryRun (.removeFailed false)] _ _ [] rfl).complete (js "plan") _ rfl rfl (by decide)
    sampleHash (by decide)
  exact hcomp (by decide)

end Sample

end PiRp.ObjectGc
