import PiRp.EventRun
import PiRp.SettingsMerge
import Mathlib.Logic.Function.Basic

/-! Several processes on one settings file, `FileSettingsStorage.withLock`, with each of its calls to the storage
and the lock a step of its own. A call that finds no file takes the lock only before it writes, and what it writes
is merged with nothing: a file that another process has made in the meantime is lost. -/

namespace PiRp.Settings

open List WriteTask

/-- Where a process is in `withLock`, with the first task of its queue. -/
inductive Stage where
  | idle
  /-- The file exists, and the lock is waited for. -/
  | found
  | locked
  /-- The file has been read; what is written next. -/
  | merged (next : Props Json)
  /-- There is no file, and the lock is waited for. -/
  | missed (next : Props Json)
  | creating (next : Props Json)
  | written

/-- The process has the lock. -/
def Stage.holds : Stage → Bool
  | .locked | .merged _ | .creating _ | .written => true
  | .idle | .found | .missed _ => false

structure Process where
  manager : SettingsManager
  stage : Stage
  /-- All the writes that were enqueued. -/
  enqueued : List WriteTask

/-- The processes with the file; `written` are the writes in their order. -/
structure System where
  file : Option (Props Json)
  lock : Option Nat
  processes : Nat → Process
  written : List (Nat × WriteTask)

namespace System

def initial (file : Option (Props Json)) (memory : Nat → Props Json) : System where
  file
  lock := none
  processes id := ⟨.load (memory id), .idle, []⟩
  written := []

def update (system : System) (id : Nat) (process : Process) : System :=
  { system with processes := Function.update system.processes id process }

/-- A call of a setter, between the tasks of the queue. -/
def set (system : System) (id : Nat) (setter : Setter) : System :=
  let process := system.processes id
  match process.stage, setter.apply process.manager.globalSettings with
  | .idle, some _ =>
    let manager := process.manager.set setter
    system.update id ⟨manager, .idle, process.enqueued ++ manager.writeQueue.getLast?.toList⟩
  | _, _ => system

/-- `existsSync` for the next task of the queue. -/
def test (system : System) (id : Nat) : System :=
  let process := system.processes id
  match process.stage, process.manager.writeQueue with
  | .idle, task :: _ =>
    system.update id
      { process with stage := if system.file.isSome then .found else .missed (task.persist none) }
  | _, _ => system

/-- `acquireLockSync`, when the lock is free. -/
def acquire (system : System) (id : Nat) : System :=
  let process := system.processes id
  match system.lock, process.stage with
  | none, .found => { system.update id { process with stage := .locked } with lock := some id }
  | none, .missed next => { system.update id { process with stage := .creating next } with lock := some id }
  | _, _ => system

/-- `readTextFileSync` and the callback. -/
def read (system : System) (id : Nat) : System :=
  let process := system.processes id
  match process.stage, process.manager.writeQueue with
  | .locked, task :: _ => system.update id { process with stage := .merged (task.persist system.file) }
  | _, _ => system

/-- `writeTextFileSync` of the content. -/
def writeNext (system : System) (id : Nat) (next : Props Json) : System :=
  let process := system.processes id
  { system.update id { process with stage := .written } with
    file := some next
    written := system.written ++ (process.manager.writeQueue.head?.map fun task => (id, task)).toList }

def write (system : System) (id : Nat) : System :=
  match (system.processes id).stage with
  | .merged next | .creating next => system.writeNext id next
  | _ => system

/-- `release`, and the end of the task. -/
def release (system : System) (id : Nat) : System :=
  let process := system.processes id
  match process.stage with
  | .written =>
    let manager := { process.manager with writeQueue := process.manager.writeQueue.tail }.clearModifiedScope
    { system.update id { process with manager, stage := .idle } with lock := none }
  | _ => system

end System

inductive FileEvent where
  | set (id : Nat) (setter : Setter)
  | test (id : Nat)
  | acquire (id : Nat)
  | read (id : Nat)
  | write (id : Nat)
  | release (id : Nat)

def fileStep (system : System) : FileEvent → System
  | .set id setter => system.set id setter
  | .test id => system.test id
  | .acquire id => system.acquire id
  | .read id => system.read id
  | .write id => system.write id
  | .release id => system.release id

def fileRun (file : Option (Props Json)) (memory : Nat → Props Json) (events : List FileEvent) : System :=
  events.foldl fileStep (.initial file memory)

/-- What has found no file writes none that exists. -/
def FileEvent.Timely (system : System) : FileEvent → Prop
  | .write id => ∀ next, (system.processes id).stage = .creating next → system.file = none
  | _ => True

/-! ### The writes one after the other -/

/-- The file after the writes, each of them merged with what the one before it has left. -/
def replay (file : Option (Props Json)) (tasks : List WriteTask) : Option (Props Json) :=
  tasks.foldl (fun file task => some (task.persist file)) file

theorem replay_append (file : Option (Props Json)) (tasks : List WriteTask) (task : WriteTask) :
    replay file (tasks ++ [task]) = some (task.persist (replay file tasks)) := by
  rw [replay, foldl_append]
  rfl

/-- The tasks of a process. -/
def tasksOf (written : List (Nat × WriteTask)) (id : Nat) : List WriteTask :=
  (written.filter fun entry => entry.1 = id).map Prod.snd

theorem tasksOf_append_self (written : List (Nat × WriteTask)) (id : Nat) (task : WriteTask) :
    tasksOf (written ++ [(id, task)]) id = tasksOf written id ++ [task] := by
  rw [tasksOf, filter_append, map_append, tasksOf]
  simp

theorem tasksOf_append_other (written : List (Nat × WriteTask)) {id other : Nat} (hid : id ≠ other)
    (task : WriteTask) : tasksOf (written ++ [(id, task)]) other = tasksOf written other := by
  rw [tasksOf, filter_append, map_append, tasksOf]
  simp [hid]

/-- The queue without the task that has been written. -/
def Process.waiting (process : Process) : List WriteTask :=
  match process.stage with
  | .written => process.manager.writeQueue.tail
  | _ => process.manager.writeQueue

/-- What the process is about to write goes with the first task of its queue. -/
def Process.Fits (process : Process) (file : Option (Props Json)) : Prop :=
  match process.stage with
  | .idle => True
  | .found | .locked | .written => process.manager.writeQueue ≠ []
  | .merged next => ∃ task ∈ process.manager.writeQueue.head?, next = task.persist file
  | .missed next | .creating next => ∃ task ∈ process.manager.writeQueue.head?, next = task.persist none

structure Process.Sound (process : Process) (file : Option (Props Json)) (holder : Prop) (done : List WriteTask) :
    Prop where
  holder : holder ↔ process.stage.holds = true
  fits : process.Fits file
  enqueued : process.enqueued = done ++ process.waiting
  captured : process.manager.capture.Settled
  settled : ∀ task ∈ process.manager.writeQueue, task.Settled

structure System.Sound (system : System) (file : Option (Props Json)) : Prop where
  processes : ∀ id, (system.processes id).Sound system.file (system.lock = some id) (tasksOf system.written id)
  file : system.file = replay file (system.written.map Prod.snd)
  settled : ∀ entry ∈ system.written, entry.2.Settled

namespace System

variable {system : System} {file : Option (Props Json)} {id other : Nat} {process : Process}

theorem processes_update_self (system : System) (id : Nat) (process : Process) :
    (system.update id process).processes id = process := Function.update_self _ _ _

theorem processes_update_other (system : System) (process : Process) (hid : other ≠ id) :
    (system.update id process).processes other = system.processes other := Function.update_of_ne hid _ _

namespace Sound

theorem initial (file : Option (Props Json)) (memory : Nat → Props Json) : (System.initial file memory).Sound file where
  processes _ :=
    { holder := iff_of_false nofun nofun
      fits := trivial
      enqueued := rfl
      captured := ⟨nofun, nofun, fun _ _ => nofun, rfl, nofun, nofun, nofun⟩
      settled := nofun }
  file := rfl
  settled := nofun

variable (hsound : system.Sound file)

include hsound

theorem update (hproc : process.Sound system.file (system.lock = some id) (tasksOf system.written id)) :
    (system.update id process).Sound file where
  processes other := by
    by_cases hid : other = id
    · subst hid
      rw [processes_update_self]
      exact hproc
    · rw [processes_update_other _ _ hid]
      exact hsound.processes other
  file := hsound.file
  settled := hsound.settled

theorem set (id : Nat) (setter : Setter) : (system.set id setter).Sound file := by
  unfold System.set
  dsimp only
  split
  · next globalSettings hstage happly =>
    have hproc := hsound.processes id
    have hsett := SettingsManager.settled_apply hproc.captured happly
    have hman : (system.processes id).manager.set setter = (setter.marks.foldl SettingsManager.markModified
        { (system.processes id).manager with globalSettings }).save := by
      rw [SettingsManager.set, happly]
    have hqueue : ((system.processes id).manager.set setter).writeQueue = (system.processes id).manager.writeQueue ++
        [(setter.marks.foldl SettingsManager.markModified
          { (system.processes id).manager with globalSettings }).capture] := by
      rw [hman]
      show SettingsManager.writeQueue (List.foldl _ _ _) ++ _ = _
      rw [SettingsManager.writeQueue_foldl_mark]
      rfl
    apply hsound.update
    refine ⟨?_, trivial, ?_, ?_, ?_⟩
    · rw [hproc.holder, hstage]
    · show _ ++ Option.toList _ = _ ++ SettingsManager.writeQueue _
      have henq := hproc.enqueued
      unfold Process.waiting at henq
      rw [hstage] at henq
      rw [hqueue, getLast?_append, henq, append_assoc]
      rfl
    · rw [hman]
      exact hsett
    · show ∀ task ∈ SettingsManager.writeQueue _, task.Settled
      rw [hqueue]
      intro task htask
      rcases mem_append.mp htask with hold | hnew
      · exact hproc.settled task hold
      · rw [mem_singleton.mp hnew]
        exact hsett
  · exact hsound

theorem stage {stage : Stage} (hholds : stage.holds = (system.processes id).stage.holds)
    (hwait : { system.processes id with stage := stage }.waiting = (system.processes id).waiting)
    (hfits : { system.processes id with stage := stage }.Fits system.file) :
    (system.update id { system.processes id with stage := stage }).Sound file := by
  have hproc := hsound.processes id
  apply hsound.update
  refine ⟨?_, hfits, ?_, hproc.captured, hproc.settled⟩
  · rw [hproc.holder, hholds]
  · rw [hwait]
    exact hproc.enqueued

theorem test (id : Nat) : (system.test id).Sound file := by
  unfold System.test
  dsimp only
  split
  · next task rest hstage hqueue =>
    have hwait : (system.processes id).waiting = (system.processes id).manager.writeQueue := by
      unfold Process.waiting
      rw [hstage]
    split_ifs
    · apply hsound.stage
      · rw [hstage]
        rfl
      · exact hwait.symm
      · show (system.processes id).manager.writeQueue ≠ []
        rw [hqueue]
        exact cons_ne_nil _ _
    · apply hsound.stage
      · rw [hstage]
        rfl
      · exact hwait.symm
      · refine ⟨task, ?_, rfl⟩
        show task ∈ (system.processes id).manager.writeQueue.head?
        rw [hqueue]
        rfl
  · exact hsound

theorem read (id : Nat) : (system.read id).Sound file := by
  unfold System.read
  dsimp only
  split
  · next task rest hstage hqueue =>
    apply hsound.stage
    · rw [hstage]
      rfl
    · unfold Process.waiting
      rw [hstage]
    · refine ⟨task, ?_, rfl⟩
      show task ∈ (system.processes id).manager.writeQueue.head?
      rw [hqueue]
      rfl
  · exact hsound

theorem withLock {lock : Option Nat} (hoth : ∀ other, other ≠ id → (lock = some other ↔ system.lock = some other))
    (hproc : process.Sound system.file (lock = some id) (tasksOf system.written id)) :
    ({ system.update id process with lock } : System).Sound file where
  processes other := by
    by_cases hid : other = id
    · subst hid
      show ((system.update other process).processes other).Sound _ _ _
      rw [processes_update_self]
      exact hproc
    · show ((system.update id process).processes other).Sound _ _ _
      rw [processes_update_other _ _ hid]
      have hother := hsound.processes other
      exact { hother with holder := (hoth other hid).trans hother.holder }
  file := hsound.file
  settled := hsound.settled

theorem acquire (id : Nat) : (system.acquire id).Sound file := by
  have hproc := hsound.processes id
  unfold System.acquire
  dsimp only
  split
  · next hlock hstage =>
    apply hsound.withLock
    · intro other hid
      rw [hlock]
      exact iff_of_false (fun hsame => hid (Option.some.inj hsame).symm) nofun
    · refine ⟨iff_of_true rfl rfl, ?_, ?_, hproc.captured, hproc.settled⟩
      · have hfits := hproc.fits
        unfold Process.Fits at hfits
        rw [hstage] at hfits
        exact hfits
      · have henq := hproc.enqueued
        unfold Process.waiting at henq
        rw [hstage] at henq
        exact henq
  · next next hlock hstage =>
    apply hsound.withLock
    · intro other hid
      rw [hlock]
      exact iff_of_false (fun hsame => hid (Option.some.inj hsame).symm) nofun
    · refine ⟨iff_of_true rfl rfl, ?_, ?_, hproc.captured, hproc.settled⟩
      · have hfits := hproc.fits
        unfold Process.Fits at hfits
        rw [hstage] at hfits
        exact hfits
      · have henq := hproc.enqueued
        unfold Process.waiting at henq
        rw [hstage] at henq
        exact henq
  · exact hsound

theorem release (id : Nat) : (system.release id).Sound file := by
  have hproc := hsound.processes id
  unfold System.release
  dsimp only
  split
  · next hstage =>
    have hlock : system.lock = some id := by
      rw [hproc.holder, hstage]
      rfl
    apply hsound.withLock
    · intro other hid
      rw [hlock]
      exact iff_of_false nofun fun hsame => hid (Option.some.inj hsame).symm
    · refine ⟨iff_of_false nofun nofun, trivial, ?_, ?_, ?_⟩
      · have henq := hproc.enqueued
        unfold Process.waiting at henq
        rw [hstage] at henq
        exact henq
      · exact ⟨nofun, nofun, fun _ _ => nofun, rfl, nofun, nofun, nofun⟩
      · exact fun task htask => hproc.settled task (mem_of_mem_tail htask)
  · exact hsound

theorem writeNext {next : Props Json} {task : WriteTask} (hholds : (system.processes id).stage.holds = true)
    (htask : (system.processes id).manager.writeQueue.head? = some task)
    (hwait : (system.processes id).waiting = (system.processes id).manager.writeQueue)
    (hnext : next = task.persist system.file) : (system.writeNext id next).Sound file := by
  have hproc := hsound.processes id
  have hlock : system.lock = some id := hproc.holder.mpr hholds
  obtain ⟨rest, hqueue⟩ := head?_eq_some_iff.mp htask
  have hwrt : (system.writeNext id next).written = system.written ++ [(id, task)] := by
    unfold System.writeNext
    dsimp only
    rw [htask]
    rfl
  refine ⟨fun other => ?_, ?_, ?_⟩
  · rw [hwrt]
    by_cases hid : other = id
    · subst hid
      show ((system.update other _).processes other).Sound (some next) (system.lock = some other) _
      rw [processes_update_self, tasksOf_append_self]
      refine ⟨iff_of_true hlock rfl, ?_, ?_, hproc.captured, hproc.settled⟩
      · show (system.processes other).manager.writeQueue ≠ []
        rw [hqueue]
        exact cons_ne_nil _ _
      · show (system.processes other).enqueued = _ ++ (system.processes other).manager.writeQueue.tail
        rw [hproc.enqueued, hwait, hqueue, append_assoc]
        rfl
    · show ((system.update id _).processes other).Sound (some next) (system.lock = some other) _
      rw [processes_update_other _ _ hid, tasksOf_append_other _ (Ne.symm hid)]
      have hother := hsound.processes other
      have hfree : (system.processes other).stage.holds = false := by
        rw [← Bool.not_eq_true, ← hother.holder, hlock]
        exact fun hsame => hid (Option.some.inj hsame).symm
      refine { hother with fits := ?_ }
      have hfits := hother.fits
      unfold Process.Fits at hfits ⊢
      split at hfits
      · trivial
      · exact hfits
      · exact hfits
      · exact hfits
      · next hmer =>
        rw [hmer] at hfree
        exact absurd hfree nofun
      · exact hfits
      · exact hfits
  · rw [hwrt, map_append, map_singleton, replay_append, ← hsound.file, ← hnext]
    rfl
  · rw [hwrt]
    intro entry hentry
    rcases mem_append.mp hentry with hold | hnew
    · exact hsound.settled entry hold
    · rw [mem_singleton.mp hnew]
      refine hproc.settled task ?_
      rw [hqueue]
      exact mem_cons_self

theorem write {id : Nat} (htim : (FileEvent.write id).Timely system) : (system.write id).Sound file := by
  have hfits := (hsound.processes id).fits
  unfold Process.Fits at hfits
  unfold System.write
  split
  · next next hstage =>
    rw [hstage] at hfits
    obtain ⟨task, htask, hnext⟩ := hfits
    apply hsound.writeNext
    · rw [hstage]
      rfl
    · exact htask
    · unfold Process.waiting
      rw [hstage]
    · exact hnext
  · next next hstage =>
    rw [hstage] at hfits
    obtain ⟨task, htask, hnext⟩ := hfits
    apply hsound.writeNext
    · rw [hstage]
      rfl
    · exact htask
    · unfold Process.waiting
      rw [hstage]
    · rw [htim next hstage]
      exact hnext
  · exact hsound

theorem step {event : FileEvent} (htim : event.Timely system) : (fileStep system event).Sound file := by
  cases event with
  | set id setter => exact hsound.set id setter
  | test id => exact hsound.test id
  | acquire id => exact hsound.acquire id
  | read id => exact hsound.read id
  | write id => exact hsound.write htim
  | release id => exact hsound.release id

end Sound

/-- Nothing is left to write. -/
def Quiescent (system : System) : Prop := ∀ id, (system.processes id).manager.writeQueue = []

end System

/-! ### What the file holds -/

theorem migrated_replay {tasks : List WriteTask} (hsett : ∀ task ∈ tasks, task.Settled) (hsome : tasks ≠ [])
    (file : Option (Props Json)) : Migrated ((replay file tasks).getD []) := by
  induction tasks using List.reverseRecOn with
  | nil => exact absurd rfl hsome
  | append_singleton tasks task _ =>
    rw [replay_append]
    exact (hsett task (mem_append_right _ (mem_singleton_self task))).persist _

section Views

variable {α : Type*} {view : Props Json → α} {file : Option (Props Json)} {tasks before after : List WriteTask}
  {task : WriteTask}

variable (hview : ∀ settings, Migrated settings → view (migrateSettings settings) = view settings)

include hview

theorem view_before (hsett : ∀ task ∈ tasks, task.Settled) : view (migrateSettings ((replay file tasks).getD [])) =
      view (if tasks = [] then migrateSettings (file.getD []) else (replay file tasks).getD []) := by
  split_ifs with hnone
  · rw [hnone]
    rfl
  · exact hview _ (migrated_replay hsett hnone file)

theorem view_unmarked (hsett : ∀ task ∈ tasks, task.Settled)
    (hkeep : ∀ task ∈ tasks, ∀ current, view (task.persist current) = view (migrateSettings (current.getD []))) :
    view ((replay file tasks).getD []) = view (if tasks = [] then file.getD [] else migrateSettings (file.getD [])) := by
  induction tasks using List.reverseRecOn with
  | nil => rfl
  | append_singleton tasks last ih =>
    have hrest : ∀ task ∈ tasks, task.Settled := fun task htask => hsett task (mem_append_left _ htask)
    rw [replay_append, if_neg (append_ne_nil_of_right_ne_nil _ (cons_ne_nil _ _))]
    refine (hkeep last (by simp) _).trans ?_
    rw [view_before hview hrest]
    split_ifs with hnone
    · rfl
    · refine (ih hrest fun task htask => hkeep task (mem_append_left _ htask)).trans ?_
      rw [if_neg hnone]

theorem view_last (hsett : ∀ found ∈ before ++ task :: after, found.Settled) {value : α}
    (hvalue : ∀ current, view (task.persist current) = value)
    (hkeep : ∀ later ∈ after, ∀ current, view (later.persist current) = view (migrateSettings (current.getD []))) :
    view ((replay file (before ++ task :: after)).getD []) = value := by
  induction after using List.reverseRecOn with
  | nil =>
    rw [replay_append]
    exact hvalue _
  | append_singleton after last ih =>
    have hrest : ∀ found ∈ before ++ task :: after, found.Settled := by
      intro found hfound
      refine hsett found ?_
      rw [← cons_append, ← append_assoc]
      exact mem_append_left _ hfound
    rw [← cons_append, ← append_assoc, replay_append]
    refine (hkeep last (by simp) _).trans ?_
    rw [view_before hview hrest, if_neg (append_ne_nil_of_right_ne_nil _ (cons_ne_nil _ _))]
    exact ih hrest fun later hlater => hkeep later (mem_append_left _ hlater)

end Views

theorem nestedValue_migrateSettings (field key : JsStr) (settings : Props Json) (hmig : Migrated settings) :
    nestedValue (migrateSettings settings) field key = nestedValue settings field key := by
  unfold nestedValue
  rw [get?_migrateSettings hmig]

/-- What the file holds after tasks that were written one after the other: for a field and for a key, the value of
the last task that marked it, and the initial value where none did. -/
structure LastWrites (file : Option (Props Json)) (tasks : List WriteTask) (content : Props Json) : Prop where
  field : ∀ field before task after, tasks = before ++ task :: after → task.Whole field →
    (∀ later ∈ after, field ∉ later.modifiedFields) →
    Props.get? content field = Props.get? task.snapshotSettings field
  key : ∀ field key before task after, tasks = before ++ task :: after → task.MarksKey field key →
    (∀ later ∈ after, ¬later.MarksKey field key) →
    nestedValue content field key = nestedValue task.snapshotSettings field key
  unmarkedField : ∀ field, (∀ task ∈ tasks, field ∉ task.modifiedFields) → Props.get? content field =
    Props.get? (if tasks = [] then file.getD [] else migrateSettings (file.getD [])) field
  unmarkedKey : ∀ field key, (∀ task ∈ tasks, ¬task.MarksKey field key) → nestedValue content field key =
    nestedValue (if tasks = [] then file.getD [] else migrateSettings (file.getD [])) field key

theorem lastWrites_replay (file : Option (Props Json)) {tasks : List WriteTask}
    (hsett : ∀ task ∈ tasks, task.Settled) : LastWrites file tasks ((replay file tasks).getD []) where
  field := by
    rintro field before task after rfl hwhole hafter
    apply @view_last _ fun settings => Props.get? settings field
    · exact fun settings hmig => get?_migrateSettings hmig field
    · exact hsett
    · exact fun current => get?_persist_whole hwhole
    · exact fun later hlater current => get?_persist_unmarked (hafter later hlater)
  key := by
    rintro field key before task after rfl hmarks hafter
    apply @view_last _ fun settings => nestedValue settings field key
    · exact nestedValue_migrateSettings field key
    · exact hsett
    · exact fun current => (nestedValue_persist task current field key).trans (if_pos hmarks)
    · exact fun later hlater current =>
        (nestedValue_persist later current field key).trans (if_neg (hafter later hlater))
  unmarkedField field hunm := by
    apply @view_unmarked _ fun settings => Props.get? settings field
    · exact fun settings hmig => get?_migrateSettings hmig field
    · exact hsett
    · exact fun task htask current => get?_persist_unmarked (hunm task htask)
  unmarkedKey field key hunm := by
    apply @view_unmarked _ fun settings => nestedValue settings field key
    · exact nestedValue_migrateSettings field key
    · exact hsett
    · exact fun task htask current =>
        (nestedValue_persist task current field key).trans (if_neg (hunm task htask))

section Sample

def themeSetter : Setter := .fields [⟨js "theme", some (.string (js "dark")), by decide +kernel⟩]

def modelSetter : Setter := .fields [⟨js "defaultModel", some (.string (js "m")), by decide +kernel⟩]

/-- Two processes set different fields and find no file. -/
def lostEvents : List FileEvent :=
  [.set 0 themeSetter, .set 1 modelSetter, .test 0, .test 1, .acquire 0, .write 0, .release 0, .acquire 1, .write 1,
    .release 1]

/-- The same setters, with the tasks one after the other. -/
def keptEvents : List FileEvent :=
  [.set 0 themeSetter, .set 1 modelSetter, .test 0, .acquire 0, .write 0, .release 0, .test 1, .acquire 1, .read 1,
    .write 1, .release 1]

end Sample

end PiRp.Settings
