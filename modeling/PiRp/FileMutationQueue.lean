import PiRp.EventRun

/-! The queue of file mutations, `packages/coding-agent/src/core/tools/file-mutation-queue.ts`. Calls look their key up one
after the other, in the file system as it is then, and run in the order of the calls with the same key. -/

namespace PiRp.FileMutation

variable {Fs Path : Type}

/-- What `fsRealpath` gives; `missing` stands for ENOENT and ENOTDIR. -/
inductive Realpath (Path : Type) where
  | found (path : Path)
  | missing
  | failed

/-- `resolve` and `fsRealpath`. -/
structure Paths (Fs Path : Type) where
  resolve : Path → Path
  fsRealpath : Fs → Path → Realpath Path

def getMutationQueueKey (paths : Paths Fs Path) (files : Fs) (filePath : Path) : Option Path :=
  match paths.fsRealpath files (paths.resolve filePath) with
  | .found path => some path
  | .missing => some (paths.resolve filePath)
  | .failed => none

inductive Phase where
  | queued
  | active
  | finished
  deriving DecidableEq

/-- A call that is registered. `currentQueue` is the call that it waits for. -/
structure Call (Path : Type) where
  filePath : Path
  key : Path
  currentQueue : Option Nat
  phase : Phase

/-- Calls are numbered as they are made. The first of the `registrationQueue` is the one that is being registered, and
`key` the one that was looked up for it. -/
structure State (Fs Path : Type) where
  files : Fs
  registrationQueue : List Path := []
  registered : Nat := 0
  key : Option Path := none
  calls : Nat → Option (Call Path) := fun _ => none
  fileMutationQueues : Path → Option Nat := fun _ => none
  ran : List Nat := []
  failed : List Nat := []

inductive Event (Fs Path : Type) where
  | withFileMutationQueue (filePath : Path)
  | lookup
  | enter
  | start (id : Nat)
  | write (id : Nat) (files : Fs)
  | finish (id : Nat)

def State.inPhase (state : State Fs Path) (id : Nat) (phase : Phase) : Bool :=
  (state.calls id).any fun call => call.phase = phase

/-- `await currentQueue` is over. -/
def State.released (state : State Fs Path) (currentQueue : Option Nat) : Bool :=
  currentQueue.all fun previous => state.inPhase previous .finished

def State.setPhase (state : State Fs Path) (id : Nat) (call : Call Path) (phase : Phase) : State Fs Path :=
  { state with calls := Function.update state.calls id (some { call with phase }) }

variable [DecidableEq Path] in
/-- A step of a call; an event that is not possible changes nothing. -/
def step (paths : Paths Fs Path) (state : State Fs Path) : Event Fs Path → State Fs Path
  | .withFileMutationQueue filePath => { state with registrationQueue := state.registrationQueue ++ [filePath] }
  | .lookup =>
    match state.key, state.registrationQueue with
    | none, filePath :: rest =>
      match getMutationQueueKey paths state.files filePath with
      | some key => { state with key := some key }
      | none => { state with
          registrationQueue := rest
          registered := state.registered + 1
          failed := state.failed ++ [state.registered] }
    | _, _ => state
  | .enter =>
    match state.key, state.registrationQueue with
    | some key, filePath :: rest => { state with
        registrationQueue := rest
        registered := state.registered + 1
        key := none
        calls := Function.update state.calls state.registered
          (some { filePath, key, currentQueue := state.fileMutationQueues key, phase := .queued })
        fileMutationQueues := Function.update state.fileMutationQueues key (some state.registered) }
    | _, _ => state
  | .start id =>
    match state.calls id with
    | some call =>
      if call.phase = .queued ∧ state.released call.currentQueue = true then
        { state.setPhase id call .active with ran := state.ran ++ [id] }
      else state
    | none => state
  | .write id files => if state.inPhase id .active then { state with files } else state
  | .finish id =>
    match state.calls id with
    | some call =>
      if call.phase = .active then
        { state.setPhase id call .finished with
          fileMutationQueues :=
            if state.fileMutationQueues call.key = some id then Function.update state.fileMutationQueues call.key none
            else state.fileMutationQueues }
      else state
    | none => state

/-! ### Order of the calls with one key -/

/-- Every call waits for all calls with its key that were registered before. -/
structure State.Ordered (state : State Fs Path) : Prop where
  below : ∀ id call, state.calls id = some call → id < state.registered
  serial : ∀ id call, state.calls id = some call → call.phase ≠ .queued → ∀ earlier < id, ∀ other,
    state.calls earlier = some other → other.key = call.key → other.phase = .finished
  waits : ∀ id call, state.calls id = some call → ∀ earlier < id, ∀ other, state.calls earlier = some other →
    other.key = call.key → other.phase = .finished ∨ ∃ previous, call.currentQueue = some previous ∧ earlier ≤ previous
  sameKey : ∀ id call previous, state.calls id = some call → call.currentQueue = some previous →
    previous < id ∧ ∃ other, state.calls previous = some other ∧ other.key = call.key
  last : ∀ id call, state.calls id = some call →
    call.phase = .finished ∨ ∃ last, state.fileMutationQueues call.key = some last ∧ id ≤ last
  lastKey : ∀ key last, state.fileMutationQueues key = some last → ∃ call, state.calls last = some call ∧ call.key = key

variable {call : Call Path}

theorem update_eq_some {calls : Nat → Option (Call Path)} {id other : Nat} {new : Call Path} :
    Function.update calls id (some new) other = some call ↔
      other = id ∧ new = call ∨ other ≠ id ∧ calls other = some call := by
  rcases eq_or_ne other id with rfl | hne
  · simp
  · simp [hne]

variable {state : State Fs Path}

variable [DecidableEq Path] in
theorem State.Ordered.enter (hord : state.Ordered) (filePath key : Path)
    (rest : List Path) : State.Ordered { state with
      registrationQueue := rest
      registered := state.registered + 1
      key := none
      calls := Function.update state.calls state.registered
        (some { filePath, key, currentQueue := state.fileMutationQueues key, phase := .queued })
      fileMutationQueues := Function.update state.fileMutationQueues key (some state.registered) } where
  below := by
    intro id call hcall
    obtain ⟨rfl, -⟩ | ⟨-, hcall⟩ := update_eq_some.mp hcall
    · exact Nat.lt_succ_self _
    · exact Nat.lt_succ_of_lt (hord.below id call hcall)
  serial := by
    intro id call hcall hphase earlier hlt other hother hkey
    obtain ⟨rfl, rfl⟩ | ⟨-, hcall⟩ := update_eq_some.mp hcall
    · exact absurd rfl hphase
    · obtain ⟨rfl, rfl⟩ | ⟨-, hother⟩ := update_eq_some.mp hother
      · exact absurd (hord.below id call hcall) (Nat.lt_asymm hlt)
      · exact hord.serial id call hcall hphase earlier hlt other hother hkey
  waits := by
    intro id call hcall earlier hlt other hother hkey
    obtain ⟨rfl, rfl⟩ | ⟨-, hcall⟩ := update_eq_some.mp hcall
    · obtain ⟨rfl, -⟩ | ⟨-, hold⟩ := update_eq_some.mp hother
      · exact absurd hlt (Nat.lt_irrefl _)
      · obtain rfl : other.key = key := hkey
        exact hord.last earlier other hold
    · obtain ⟨rfl, -⟩ | ⟨-, hother⟩ := update_eq_some.mp hother
      · exact absurd (hord.below id call hcall) (Nat.lt_asymm hlt)
      · exact hord.waits id call hcall earlier hlt other hother hkey
  sameKey := by
    intro id call previous hcall hprevious
    have hold : previous < id ∧ ∃ other, state.calls previous = some other ∧ other.key = call.key := by
      obtain ⟨rfl, rfl⟩ | ⟨-, hcall⟩ := update_eq_some.mp hcall
      · obtain ⟨other, hother, hkey⟩ := hord.lastKey key previous hprevious
        exact ⟨hord.below previous other hother, other, hother, hkey⟩
      · exact hord.sameKey id call previous hcall hprevious
    obtain ⟨hlt, other, hother, hkey⟩ := hold
    exact ⟨hlt, other, update_eq_some.mpr (.inr ⟨Nat.ne_of_lt (hord.below previous other hother), hother⟩), hkey⟩
  last := by
    intro id call hcall
    obtain ⟨rfl, rfl⟩ | ⟨-, hcall⟩ := update_eq_some.mp hcall
    · exact .inr ⟨state.registered, Function.update_self .., Nat.le_refl _⟩
    · obtain hfinished | ⟨last, hlast, hle⟩ := hord.last id call hcall
      · exact .inl hfinished
      · rcases eq_or_ne call.key key with hkey | hkey
        · exact .inr ⟨state.registered, by simp [hkey], Nat.le_of_lt (hord.below id call hcall)⟩
        · exact .inr ⟨last, by simp [hkey, hlast], hle⟩
  lastKey := by
    intro other last hlast
    rcases eq_or_ne other key with rfl | hkey
    · obtain rfl : state.registered = last := by simpa using hlast
      exact ⟨_, Function.update_self .., rfl⟩
    · obtain ⟨call, hcall, hcallKey⟩ := hord.lastKey other last (by simpa [hkey] using hlast)
      exact ⟨call, update_eq_some.mpr (.inr ⟨Nat.ne_of_lt (hord.below last call hcall), hcall⟩), hcallKey⟩

/-- A call that waits for nothing goes on. -/
theorem State.Ordered.setPhase (hord : state.Ordered) {id : Nat}
    (hcall : state.calls id = some call) (hunfinished : call.phase ≠ .finished)
    (hserial : ∀ earlier < id, ∀ other, state.calls earlier = some other → other.key = call.key →
      other.phase = .finished) (phase : Phase) : (state.setPhase id call phase).Ordered where
  below := by
    intro other new hnew
    obtain ⟨rfl, -⟩ | ⟨-, hnew⟩ := update_eq_some.mp hnew
    · exact hord.below other call hcall
    · exact hord.below other new hnew
  serial := by
    intro later new hnew hstarted earlier hlt other hother hkey
    obtain ⟨rfl, rfl⟩ | ⟨-, hother⟩ := update_eq_some.mp hother
    · obtain ⟨rfl, -⟩ | ⟨-, hnew⟩ := update_eq_some.mp hnew
      · exact absurd hlt (Nat.lt_irrefl _)
      · exact absurd (hord.serial later new hnew hstarted earlier hlt call hcall hkey) hunfinished
    · obtain ⟨rfl, rfl⟩ | ⟨-, hnew⟩ := update_eq_some.mp hnew
      · exact hserial earlier hlt other ‹_› hkey
      · exact hord.serial later new hnew hstarted earlier hlt other hother hkey
  waits := by
    intro later new hnew earlier hlt other hother hkey
    obtain ⟨old, hold, hqueue, holdKey⟩ : ∃ old, state.calls later = some old ∧ old.currentQueue = new.currentQueue ∧
        old.key = new.key := by
      obtain ⟨rfl, rfl⟩ | ⟨-, hnew⟩ := update_eq_some.mp hnew
      · exact ⟨call, hcall, rfl, rfl⟩
      · exact ⟨new, hnew, rfl, rfl⟩
    rw [← hqueue]
    obtain ⟨rfl, rfl⟩ | ⟨-, hother⟩ := update_eq_some.mp hother
    · obtain hfinished | hle := hord.waits later old hold earlier hlt call hcall (hkey.trans holdKey.symm)
      · exact absurd hfinished hunfinished
      · exact .inr hle
    · exact hord.waits later old hold earlier hlt other hother (hkey.trans holdKey.symm)
  sameKey := by
    intro later new previous hnew hprevious
    obtain ⟨hlt, other, hother, hkey⟩ : previous < later ∧
        ∃ other, state.calls previous = some other ∧ other.key = new.key := by
      obtain ⟨rfl, rfl⟩ | ⟨-, hnew⟩ := update_eq_some.mp hnew
      · exact hord.sameKey later call previous hcall hprevious
      · exact hord.sameKey later new previous hnew hprevious
    rcases eq_or_ne previous id with rfl | hne
    · obtain rfl : call = other := Option.some.inj (hcall.symm.trans hother)
      exact ⟨hlt, _, Function.update_self .., hkey⟩
    · exact ⟨hlt, other, update_eq_some.mpr (.inr ⟨hne, hother⟩), hkey⟩
  last := by
    intro other new hnew
    obtain ⟨rfl, rfl⟩ | ⟨-, hnew⟩ := update_eq_some.mp hnew
    · obtain hfinished | hlast := hord.last other call hcall
      · exact absurd hfinished hunfinished
      · exact .inr hlast
    · exact hord.last other new hnew
  lastKey := by
    intro key last hlast
    obtain ⟨other, hother, hkey⟩ := hord.lastKey key last hlast
    rcases eq_or_ne last id with rfl | hne
    · obtain rfl : call = other := Option.some.inj (hcall.symm.trans hother)
      exact ⟨_, Function.update_self .., hkey⟩
    · exact ⟨other, update_eq_some.mpr (.inr ⟨hne, hother⟩), hkey⟩

variable [DecidableEq Path] in
/-- The queue of a key goes away with the last call. -/
theorem State.Ordered.delete (hord : state.Ordered) {id : Nat}
    (hcall : state.calls id = some call) (hfinished : call.phase = .finished)
    (hlast : state.fileMutationQueues call.key = some id) :
    State.Ordered { state with fileMutationQueues := Function.update state.fileMutationQueues call.key none } :=
  { hord with
    last := by
      intro other otherCall hother
      obtain hdone | ⟨last, hqueue, hle⟩ := hord.last other otherCall hother
      · exact .inl hdone
      · rcases eq_or_ne otherCall.key call.key with hkey | hkey
        · obtain rfl : last = id := Option.some.inj (hqueue.symm.trans (hkey ▸ hlast))
          rcases Nat.lt_or_eq_of_le hle with hlt | rfl
          · exact .inl (hord.serial last call hcall (by simp [hfinished]) other hlt otherCall hother hkey)
          · obtain rfl : call = otherCall := Option.some.inj (hcall.symm.trans hother)
            exact .inl hfinished
        · exact .inr ⟨last, by simp [hkey, hqueue], hle⟩
    lastKey := by
      intro key last hqueue
      rcases eq_or_ne key call.key with rfl | hkey
      · simp at hqueue
      · exact hord.lastKey key last (by simpa [hkey] using hqueue) }

/-- What started has started once, and a registered call has failed just when it has no queue. -/
structure State.Counted (state : State Fs Path) : Prop where
  nodup : state.ran.Nodup
  ran : ∀ id, id ∈ state.ran ↔ ∃ call, state.calls id = some call ∧ call.phase ≠ .queued
  failed : ∀ id, id ∈ state.failed ↔ id < state.registered ∧ state.calls id = none

structure State.Sound (state : State Fs Path) : Prop where
  ordered : state.Ordered
  counted : state.Counted

theorem Sound.initial (files : Fs) : State.Sound ({ files } : State Fs Path) := by
  constructor
  · constructor <;> simp
  · constructor <;> simp

theorem State.inPhase_eq_true {id : Nat} {phase : Phase} :
    state.inPhase id phase = true ↔ ∃ call, state.calls id = some call ∧ call.phase = phase := by
  simp [inPhase, Option.any_eq_true]

/-- When what a call waits for is over, all earlier calls with its key are. -/
theorem State.Ordered.released (hord : state.Ordered) {id : Nat}
    (hcall : state.calls id = some call) (hreleased : state.released call.currentQueue = true) :
    ∀ earlier < id, ∀ other, state.calls earlier = some other → other.key = call.key → other.phase = .finished := by
  intro earlier hlt other hother hkey
  obtain hfinished | ⟨previous, hprevious, hle⟩ := hord.waits id call hcall earlier hlt other hother hkey
  · exact hfinished
  · rw [hprevious, State.released, Option.all_some, inPhase_eq_true] at hreleased
    obtain ⟨before, hbefore, hfinished⟩ := hreleased
    obtain ⟨-, same, hsame, hsameKey⟩ := hord.sameKey id call previous hcall hprevious
    obtain rfl : before = same := Option.some.inj (hbefore.symm.trans hsame)
    rcases Nat.lt_or_eq_of_le hle with hlt | rfl
    · exact hord.serial previous before hbefore (by simp [hfinished]) earlier hlt other hother
        (hkey.trans hsameKey.symm)
    · obtain rfl : before = other := Option.some.inj (hbefore.symm.trans hother)
      exact hfinished

theorem State.Counted.start (hcount : state.Counted) {id : Nat}
    (hcall : state.calls id = some call) (hqueued : call.phase = .queued) :
    State.Counted { state.setPhase id call .active with ran := state.ran ++ [id] } where
  nodup := by
    have hfresh : id ∉ state.ran := by
      intro hran
      obtain ⟨other, hother, hstarted⟩ := (hcount.ran id).mp hran
      obtain rfl : call = other := Option.some.inj (hcall.symm.trans hother)
      exact hstarted hqueued
    exact List.nodup_append.mpr ⟨hcount.nodup, by simp, by grind⟩
  ran := by
    intro other
    rcases eq_or_ne other id with rfl | hne
    · simp [setPhase]
    · simpa [setPhase, hne] using hcount.ran other
  failed := by
    intro other
    rcases eq_or_ne other id with rfl | hne
    · simpa [setPhase, hcall] using hcount.failed other
    · simpa [setPhase, hne] using hcount.failed other

theorem State.Counted.finish (hcount : state.Counted) {id : Nat}
    (hcall : state.calls id = some call) (hactive : call.phase = .active) :
    (state.setPhase id call .finished).Counted where
  nodup := hcount.nodup
  ran := by
    intro other
    rcases eq_or_ne other id with rfl | hne
    · simpa [setPhase, hcall, hactive] using hcount.ran other
    · simpa [setPhase, hne] using hcount.ran other
  failed := by
    intro other
    rcases eq_or_ne other id with rfl | hne
    · simpa [setPhase, hcall] using hcount.failed other
    · simpa [setPhase, hne] using hcount.failed other

variable [DecidableEq Path] (paths : Paths Fs Path)

theorem step_sound (hsound : state.Sound) (event : Event Fs Path) :
    (step paths state event).Sound := by
  obtain ⟨hord, hcount⟩ := hsound
  have hfresh : state.calls state.registered = none := by
    cases hcall : state.calls state.registered with
    | none => rfl
    | some call => exact absurd (hord.below _ _ hcall) (Nat.lt_irrefl _)
  cases event with
  | withFileMutationQueue filePath => exact ⟨{ hord with }, { hcount with }⟩
  | lookup =>
    rw [step]
    split
    · split
      · exact ⟨{ hord with }, { hcount with }⟩
      · refine ⟨{ hord with below := fun id call hcall => ?_ }, { hcount with failed := fun id => ?_ }⟩
        · exact Nat.lt_succ_of_lt (hord.below id call hcall)
        · have hfailed := hcount.failed id
          grind
    · exact ⟨hord, hcount⟩
  | enter =>
    rw [step]
    split
    · refine ⟨hord.enter _ _ _, hcount.nodup, fun id => ?_, fun id => ?_⟩
      · rcases eq_or_ne id state.registered with rfl | hne
        · simpa [hfresh] using hcount.ran state.registered
        · simpa [hne] using hcount.ran id
      · have hfailed := hcount.failed id
        rcases eq_or_ne id state.registered with rfl | hne
        · simpa [hfresh] using hfailed
        · simp only [Function.update_of_ne hne]
          grind
    · exact ⟨hord, hcount⟩
  | start id =>
    rw [step]
    split
    · rename_i call hcall
      split_ifs with hready
      · have hstarted := hord.setPhase hcall (by simp [hready.1]) (hord.released hcall hready.2) .active
        exact ⟨{ hstarted with }, hcount.start hcall hready.1⟩
      · exact ⟨hord, hcount⟩
    · exact ⟨hord, hcount⟩
  | write id files =>
    rw [step]
    split_ifs
    · exact ⟨{ hord with }, { hcount with }⟩
    · exact ⟨hord, hcount⟩
  | finish id =>
    rw [step]
    split
    · rename_i call hcall
      split_ifs with hactive hown
      · have hdone := hord.setPhase hcall (by simp [hactive])
          (hord.serial id call hcall (by simp [hactive])) .finished
        have hself : (state.setPhase id call .finished).calls id = some { call with phase := .finished } :=
          Function.update_self ..
        exact ⟨{ hdone.delete hself rfl hown with }, { hcount.finish hcall hactive with }⟩
      · have hdone := hord.setPhase hcall (by simp [hactive])
          (hord.serial id call hcall (by simp [hactive])) .finished
        exact ⟨{ hdone with }, { hcount.finish hcall hactive with }⟩
      · exact ⟨hord, hcount⟩
    · exact ⟨hord, hcount⟩

/-! ### Mutual exclusion -/

/-- Both paths lead to the same file. -/
def SameFile (files : Fs) (filePath other : Path) : Prop :=
  ∃ file, paths.fsRealpath files (paths.resolve filePath) = .found file ∧
    paths.fsRealpath files (paths.resolve other) = .found file

/-- No two callbacks are active on one file. -/
def Exclusive (state : State Fs Path) : Prop :=
  ∀ id other call otherCall, state.calls id = some call → state.calls other = some otherCall →
    call.phase = .active → otherCall.phase = .active → SameFile paths state.files call.filePath otherCall.filePath →
    id = other

/-- No event of the queue is possible. -/
def Stuck (state : State Fs Path) : Prop :=
  step paths state .lookup = state ∧ step paths state .enter = state ∧
    ∀ id, step paths state (.start id) = state ∧ step paths state (.finish id) = state

/-- No callback runs twice, or after a failed lookup, and when the queue has come to its end every call has run or
failed. -/
def RunsOnce (state : State Fs Path) : Prop :=
  state.ran.Nodup ∧ (∀ id ∈ state.ran, id ∉ state.failed) ∧
    (Stuck paths state → ∀ id < state.registered + state.registrationQueue.length, id ∈ state.ran ∨ id ∈ state.failed)

/-- No callback starts under an outdated key, and none makes the key of an active one outdated. -/
def KeepsKeys (state : State Fs Path) : Event Fs Path → Prop
  | .start id => ∀ call, state.calls id = some call →
      getMutationQueueKey paths state.files call.filePath = some call.key
  | .write _ files => ∀ id call, state.calls id = some call → call.phase = .active →
      getMutationQueueKey paths files call.filePath = getMutationQueueKey paths state.files call.filePath
  | _ => True

/-- The keys of the active callbacks are those of their paths. -/
def Current (state : State Fs Path) : Prop :=
  ∀ id call, state.calls id = some call → call.phase = .active →
    getMutationQueueKey paths state.files call.filePath = some call.key

theorem step_current (hcur : Current paths state) {event : Event Fs Path}
    (hkeeps : KeepsKeys paths state event) : Current paths (step paths state event) := by
  intro id call hcall hactive
  cases event with
  | withFileMutationQueue filePath => exact hcur id call hcall hactive
  | lookup =>
    rw [step] at hcall ⊢
    split at hcall
    · split at hcall
      · exact hcur id call hcall hactive
      · exact hcur id call hcall hactive
    · exact hcur id call hcall hactive
  | enter =>
    rw [step] at hcall ⊢
    split at hcall
    · obtain ⟨rfl, rfl⟩ | ⟨-, hcall⟩ := update_eq_some.mp hcall
      · cases hactive
      · exact hcur id call hcall hactive
    · exact hcur id call hcall hactive
  | start started =>
    rw [step] at hcall ⊢
    split at hcall
    · rename_i old hold
      split_ifs at hcall ⊢
      · obtain ⟨rfl, rfl⟩ | ⟨-, hcall⟩ := update_eq_some.mp hcall
        · exact hkeeps old hold
        · exact hcur id call hcall hactive
      · exact hcur id call hcall hactive
    · exact hcur id call hcall hactive
  | write writer files =>
    rw [step] at hcall ⊢
    split_ifs at hcall ⊢
    · exact (hkeeps id call hcall hactive).trans (hcur id call hcall hactive)
    · exact hcur id call hcall hactive
  | finish finished =>
    rw [step] at hcall ⊢
    split at hcall
    · split_ifs at hcall ⊢
      · obtain ⟨rfl, rfl⟩ | ⟨-, hcall⟩ := update_eq_some.mp hcall
        · cases hactive
        · exact hcur id call hcall hactive
      · obtain ⟨rfl, rfl⟩ | ⟨-, hcall⟩ := update_eq_some.mp hcall
        · cases hactive
        · exact hcur id call hcall hactive
      · exact hcur id call hcall hactive
    · exact hcur id call hcall hactive

omit [DecidableEq Path] in
theorem getMutationQueueKey_found {files : Fs} {filePath file : Path}
    (hfound : paths.fsRealpath files (paths.resolve filePath) = .found file) :
    getMutationQueueKey paths files filePath = some file := by
  rw [getMutationQueueKey, hfound]

theorem exclusive_of_current (hord : state.Ordered) (hcur : Current paths state) :
    Exclusive paths state := by
  rintro id other call otherCall hcall hother hactive hotherActive ⟨file, hfile, hotherFile⟩
  have hkey : call.key = otherCall.key := by
    have hleft := (hcur id call hcall hactive).symm.trans (getMutationQueueKey_found paths hfile)
    have hright := (hcur other otherCall hother hotherActive).symm.trans (getMutationQueueKey_found paths hotherFile)
    exact Option.some.inj (hleft.trans hright.symm)
  rcases Nat.lt_trichotomy id other with hlt | rfl | hgt
  · have hfinished := hord.serial other otherCall hother (by simp [hotherActive]) id hlt call hcall hkey
    rw [hactive] at hfinished
    cases hfinished
  · rfl
  · have hfinished := hord.serial id call hcall (by simp [hactive]) other hgt otherCall hother hkey.symm
    rw [hotherActive] at hfinished
    cases hfinished

/-- A queue that cannot go on has registered all calls. -/
theorem registrationQueue_of_stuck (hstuck : Stuck paths state) :
    state.registrationQueue = [] := by
  obtain ⟨hlookup, henter, -⟩ := hstuck
  cases hqueue : state.registrationQueue with
  | nil => rfl
  | cons filePath rest =>
    cases hkey : state.key with
    | none =>
      rw [step, hkey, hqueue] at hlookup
      cases hlook : getMutationQueueKey paths state.files filePath with
      | none =>
        simp only [hlook] at hlookup
        exact absurd (congrArg State.registered hlookup) (Nat.succ_ne_self _)
      | some key =>
        simp only [hlook] at hlookup
        exact absurd ((congrArg State.key hlookup).trans hkey) (by simp)
    | some key =>
      rw [step, hkey, hqueue] at henter
      exact absurd (congrArg State.registered henter) (Nat.succ_ne_self _)

/-- And all its calls are finished: the first that is not could start or finish. -/
theorem finished_of_stuck (hord : state.Ordered) (hstuck : Stuck paths state) (id : Nat)
    (hcall : state.calls id = some call) : call.phase = .finished := by
  induction id using Nat.strongRecOn generalizing call with
  | _ id ih =>
    obtain ⟨hstart, hfinish⟩ := hstuck.2.2 id
    cases hphase : call.phase with
    | finished => rfl
    | active =>
      have hcalls : (step paths state (.finish id)).calls id = some { call with phase := .finished } := by
        simp [step, hcall, hphase, State.setPhase]
      rw [hfinish, hcall, Option.some.injEq] at hcalls
      rw [hcalls] at hphase
      cases hphase
    | queued =>
      have hreleased : state.released call.currentQueue = true := by
        cases hqueue : call.currentQueue with
        | none => rfl
        | some previous =>
          obtain ⟨hlt, other, hother, -⟩ := hord.sameKey id call previous hcall hqueue
          exact State.inPhase_eq_true.mpr ⟨other, hother, ih previous hlt hother⟩
      have hran := congrArg State.ran hstart
      simp [step, hcall, hphase, hreleased] at hran

theorem runsOnce_of_sound (hsound : state.Sound) : RunsOnce paths state := by
  obtain ⟨hord, hcount⟩ := hsound
  refine ⟨hcount.nodup, fun id hran hfailed => ?_, fun hstuck id hlt => ?_⟩
  · obtain ⟨call, hcall, -⟩ := (hcount.ran id).mp hran
    rw [((hcount.failed id).mp hfailed).2] at hcall
    cases hcall
  · rw [registrationQueue_of_stuck paths hstuck] at hlt
    cases hcall : state.calls id with
    | none => exact .inr ((hcount.failed id).mpr ⟨hlt, hcall⟩)
    | some call =>
      exact .inl ((hcount.ran id).mpr ⟨call, hcall, by simp [finished_of_stuck paths hord hstuck id hcall]⟩)

/-- A link to a directory: `link/file` is `dir/file` once that exists. -/
inductive LinkedPath where
  | link
  | dir
  deriving DecidableEq

def linkedPaths : Paths Bool LinkedPath where
  resolve := id
  fsRealpath := fun created _ => if created then .found .dir else .missing

/-- One call for the file behind the link, then a second one when the first has created it. -/
def createdBehindLink : List (Event Bool LinkedPath) :=
  [.withFileMutationQueue .link, .lookup, .enter, .start 0, .write 0 true,
    .withFileMutationQueue .link, .lookup, .enter, .start 1]

end PiRp.FileMutation
