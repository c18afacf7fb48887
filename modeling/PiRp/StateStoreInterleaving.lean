import PiRp.StateStore
import PiRp.JsonDecimal

/-! Two processes in `commitNamespace` on one namespace. Each takes its file steps in its own order:
read the file, write the temporary file both share, rename it over the file. A schedule says which
process takes the next step. The revision is compared when the file is read and not when it is renamed,
so two commits are serial exactly when no process reads between the read and the rename of the other. -/

namespace PiRp.State

open Function

/-- Where a call of `commitNamespace` stands. -/
inductive Phase where
  /-- About to read; `retries` counts the attempts after this one. -/
  | atRead (expected retries : Nat)
  /-- The revision matched and the operations are replayed. -/
  | atWrite (revision : Nat) (root : Props JsValue)
  | atRename (revision : Nat)
  | returned (result : CommitResult)
  | threw
  deriving DecidableEq

/-- Between the read that matched and the rename. -/
def Phase.Committing : Phase → Prop
  | .atWrite _ _ | .atRename _ => True
  | _ => False

instance (phase : Phase) : Decidable phase.Committing := by
  cases phase <;> unfold Phase.Committing <;> infer_instance

/-- The namespace file and the temporary file next to it. -/
structure Files where
  file : Option NamespaceFile
  tmp : Option NamespaceFile

/-- The files and the two calls; the processes are named by a `Bool`. -/
structure System where
  files : Files
  phase : Bool → Phase

/-- The revision a call is going to return, once its read has matched. -/
def Phase.revision? : Phase → Option Nat
  | .atWrite revision _ | .atRename revision | .returned (.ok revision) => some revision
  | _ => none

theorem Phase.revision?_of_committing {phase : Phase} (hphase : phase.Committing) :
    ∃ revision, phase.revision? = some revision := by
  cases phase with
  | atWrite revision root => exact ⟨revision, rfl⟩
  | atRename revision => exact ⟨revision, rfl⟩
  | atRead expected retries => exact hphase.elim
  | returned result => exact hphase.elim
  | threw => exact hphase.elim

/-- The next attempt after a read that found another revision. -/
def Phase.retry (revision : Nat) : Nat → Phase
  | 0 => .returned .conflict
  | retries + 1 => .atRead revision retries

section Steps

variable [JsNumber.Addition]

/-- The next file step of a call. -/
def Phase.step (ops : List StoreOp) (files : Files) : Phase → Phase × Files
  | .atRead expected retries =>
    if (readNamespace files.file).revision = expected then
      match replay (baseline (readNamespace files.file)) ops with
      | some root => (.atWrite ((readNamespace files.file).revision + 1) root, files)
      | none => (.threw, files)
    else (.retry (readNamespace files.file).revision retries, files)
  | .atWrite revision root => (.atRename revision, { files with tmp := some (written revision root) })
  | .atRename revision =>
    match files.tmp with
    | some content => (.returned (.ok revision), ⟨some content, none⟩)
    | none => (.threw, files)
  | .returned result => (.returned result, files)
  | .threw => (.threw, files)

def System.step (ops : Bool → List StoreOp) (system : System) (process : Bool) : System :=
  { files := ((system.phase process).step (ops process) system.files).2
    phase := Function.update system.phase process
      ((system.phase process).step (ops process) system.files).1 }

def System.run (ops : Bool → List StoreOp) (system : System) (schedule : List Bool) : System :=
  schedule.foldl (System.step ops) system

def System.start (files : Files) (expected retries : Bool → Nat) : System :=
  ⟨files, fun process => .atRead (expected process) (retries process)⟩

/-- Both calls are between their read and their rename. -/
def System.Overlap (system : System) : Prop :=
  (system.phase false).Committing ∧ (system.phase true).Committing

/-- No state of the run has both calls between their read and their rename. -/
def System.Exclusive (ops : Bool → List StoreOp) (system : System) (schedule : List Bool) : Prop :=
  ∀ steps, ¬ (system.run ops (schedule.take steps)).Overlap

/-- The file after one process committed and then the other one. -/
def serialCommits (ops : Bool → List StoreOp) (first : Bool) (file : Option NamespaceFile) :
    Option NamespaceFile :=
  (commitFile (ops first) file).bind fun changed => commitFile (ops !first) (some changed)

theorem System.run_append (ops : Bool → List StoreOp) (system : System) (left right : List Bool) :
    system.run ops (left ++ right) = (system.run ops left).run ops right :=
  List.foldl_append

theorem System.step_self (ops : Bool → List StoreOp) (system : System) (process : Bool) :
    (system.step ops process).phase process = ((system.phase process).step (ops process) system.files).1 :=
  update_self ..

variable {process : Bool}

theorem System.step_other (ops : Bool → List StoreOp) (system : System) {other : Bool}
    (hother : other ≠ process) : (system.step ops process).phase other = system.phase other :=
  update_of_ne hother ..

variable {ops : List StoreOp} {files : Files} {phase : Phase} {revision : Nat}

theorem Phase.step_revision? (hrev : phase.revision? = some revision) :
    (phase.step ops files).1 = .threw ∨ (phase.step ops files).1.revision? = some revision := by
  cases phase with
  | atRead expected retries => exact nomatch hrev
  | atWrite own root => exact .inr hrev
  | atRename own =>
    rw [Phase.step]
    cases files.tmp with
    | none => exact .inl rfl
    | some content => exact .inr hrev
  | returned result => exact .inr hrev
  | threw => exact nomatch hrev

variable {system : System}

theorem System.run_threw (ops : Bool → List StoreOp) (hphase : system.phase process = .threw) (schedule : List Bool) :
    (system.run ops schedule).phase process = .threw := by
  induction schedule generalizing system with
  | nil => exact hphase
  | cons next rest ih =>
    apply ih
    by_cases hnext : process = next
    · rw [← hnext, System.step_self, hphase, Phase.step]
    · rw [System.step_other ops system hnext, hphase]

theorem System.run_revision? (ops : Bool → List StoreOp) (hphase : (system.phase process).revision? = some revision)
    (schedule : List Bool) : (system.run ops schedule).phase process = .threw ∨
      ((system.run ops schedule).phase process).revision? = some revision := by
  induction schedule generalizing system with
  | nil => exact .inr hphase
  | cons next rest ih =>
    by_cases hnext : process = next
    · rcases Phase.step_revision? hphase with hthrew | hkept
      · refine .inl (System.run_threw ops ?_ rest)
        rw [← hnext, System.step_self, hthrew]
      · apply ih
        rw [← hnext, System.step_self, hkept]
    · apply ih
      rw [System.step_other ops system hnext, hphase]

/-- Nobody has renamed: the file is the first one, and a call that matched returns its successor. -/
def System.Pristine (file : Option NamespaceFile) (system : System) : Prop :=
  system.files.file = file ∧
    ∀ process revision, (system.phase process).revision? = some revision →
      revision = (readNamespace file).revision + 1

theorem Phase.step_file (ops : List StoreOp) (files : Files) (phase : Phase) :
    (∃ revision, (phase.step ops files).1 = .returned (.ok revision)) ∨ (phase.step ops files).2.file = files.file ∧
        ∀ revision, (phase.step ops files).1.revision? = some revision →
          phase.revision? = some revision ∨ revision = (readNamespace files.file).revision + 1 := by
  cases phase with
  | atRead expected retries =>
    refine .inr ?_
    rw [Phase.step]
    split_ifs with hexp
    · cases replay (baseline (readNamespace files.file)) ops with
      | none => exact ⟨rfl, nofun⟩
      | some root => exact ⟨rfl, fun revision hrev => .inr (Option.some.inj hrev).symm⟩
    · cases retries with
      | zero => exact ⟨rfl, nofun⟩
      | succ retries => exact ⟨rfl, nofun⟩
  | atWrite own root => exact .inr ⟨rfl, fun revision hrev => .inl hrev⟩
  | atRename own =>
    rw [Phase.step]
    cases files.tmp with
    | none => exact .inr ⟨rfl, nofun⟩
    | some content => exact .inl ⟨own, rfl⟩
  | returned result => exact .inr ⟨rfl, fun revision hrev => .inl hrev⟩
  | threw => exact .inr ⟨rfl, nofun⟩

variable {file : Option NamespaceFile}

theorem System.step_pristine (ops : Bool → List StoreOp) (hpris : system.Pristine file) (process : Bool) :
    (system.step ops process).Pristine file ∨
      ∃ revision, (system.step ops process).phase process = .returned (.ok revision) := by
  obtain ⟨hfile, hrevs⟩ := hpris
  rcases Phase.step_file (ops process) system.files (system.phase process) with
    ⟨revision, hret⟩ | ⟨hkept, hnew⟩
  · exact .inr ⟨revision, by rw [System.step_self, hret]⟩
  · refine .inl ⟨hkept.trans hfile, fun other revision hrev => ?_⟩
    by_cases hother : other = process
    · rw [hother, System.step_self] at hrev
      rcases hnew revision hrev with hold | hfresh
      · exact hrevs process revision hold
      · rw [hfresh, hfile]
    · rw [System.step_other ops system hother] at hrev
      exact hrevs other revision hrev

theorem System.run_returned (ops : Bool → List StoreOp)
    {result : CommitResult} (hphase : system.phase process = .returned result)
    (schedule : List Bool) : (system.run ops schedule).phase process = .returned result := by
  induction schedule generalizing system with
  | nil => exact hphase
  | cons next rest ih =>
    apply ih
    by_cases hnext : process = next
    · rw [← hnext, System.step_self, hphase, Phase.step]
    · rw [System.step_other ops system hnext, hphase]

theorem System.run_pristine (ops : Bool → List StoreOp) (hpris : system.Pristine file) (schedule : List Bool) :
    (system.run ops schedule).Pristine file ∨
      ∃ process revision, (system.run ops schedule).phase process = .returned (.ok revision) := by
  induction schedule generalizing system with
  | nil => exact .inl hpris
  | cons next rest ih =>
    rcases System.step_pristine ops hpris next with hstep | ⟨revision, hret⟩
    · exact ih hstep
    · exact .inr ⟨next, revision, System.run_returned ops hret rest⟩

omit [JsNumber.Addition] in
theorem System.start_pristine (files : Files) (expected retries : Bool → Nat) :
    (System.start files expected retries).Pristine files.file :=
  ⟨rfl, fun _ _ hrev => nomatch hrev⟩

theorem System.overlap_revision (ops : Bool → List StoreOp) {expected retries : Bool → Nat} {before : List Bool}
    (hover : ((System.start files expected retries).run ops before).Overlap) (after : List Bool) (process : Bool)
    (hok : ((System.start files expected retries).run ops (before ++ after)).phase process =
      .returned (.ok revision)) : revision = (readNamespace files.file).revision + 1 := by
  have hboth : ∀ other, (((System.start files expected retries).run ops before).phase other).Committing := by
    intro other
    cases other with
    | false => exact hover.1
    | true => exact hover.2
  have hpris : ((System.start files expected retries).run ops before).Pristine files.file := by
    rcases System.run_pristine ops (System.start_pristine files expected retries) before with
      hpris | ⟨other, found, hret⟩
    · exact hpris
    · have hcomm := hboth other
      rw [hret] at hcomm
      exact hcomm.elim
  obtain ⟨own, hown⟩ := Phase.revision?_of_committing (hboth process)
  rw [System.run_append] at hok
  rcases System.run_revision? ops hown after with hthrew | hkept
  · rw [hok] at hthrew
    exact nomatch hthrew
  · rw [hok] at hkept
    rw [Option.some.inj hkept]
    exact hpris.2 process own hown

/-- A call that has not renamed yet and computes from the file that is there. -/
def Phase.Fresh (ops : List StoreOp) (files : Files) : Phase → Prop
  | .atWrite revision root => commitFile ops files.file = some (written revision root)
  | .atRename revision =>
    ∃ content, commitFile ops files.file = some content ∧ files.tmp = some content ∧
      revision = content.revision
  | .returned (.ok _) => False
  | _ => True

theorem Phase.Fresh.of_not_committing (others : Files)
    (hfresh : phase.Fresh ops files) (hphase : ¬ phase.Committing) : phase.Fresh ops others := by
  cases phase with
  | atRead expected retries => trivial
  | atWrite revision root => exact absurd trivial hphase
  | atRename revision => exact absurd trivial hphase
  | returned result =>
    cases result with
    | ok revision => exact hfresh.elim
    | conflict => trivial
  | threw => trivial

theorem Phase.step_not_committing (ops : List StoreOp) (files : Files)
    (hphase : ¬ phase.Committing) : (phase.step ops files).2 = files := by
  cases phase with
  | atRead expected retries =>
    rw [Phase.step]
    split_ifs with hexp
    · cases replay (baseline (readNamespace files.file)) ops with
      | none => rfl
      | some root => rfl
    · rfl
  | atWrite revision root => exact absurd trivial hphase
  | atRename revision => exact absurd trivial hphase
  | returned result => rfl
  | threw => rfl

theorem Phase.step_fresh (hfresh : phase.Fresh ops files) : ((phase.step ops files).2.file = files.file ∧
        (phase.step ops files).1.Fresh ops (phase.step ops files).2) ∨
      ∃ content, commitFile ops files.file = some content ∧ (phase.step ops files).2.file = some content ∧
        (phase.step ops files).1 = .returned (.ok content.revision) := by
  cases phase with
  | atRead expected retries =>
    refine .inl ?_
    rw [Phase.step]
    split_ifs with hexp
    · cases hroot : replay (baseline (readNamespace files.file)) ops with
      | none => exact ⟨rfl, trivial⟩
      | some root =>
        refine ⟨rfl, ?_⟩
        show commitFile ops files.file = _
        rw [commitFile, hroot, Option.map_some]
    · cases retries with
      | zero => exact ⟨rfl, trivial⟩
      | succ retries => exact ⟨rfl, trivial⟩
  | atWrite revision root =>
    exact .inl ⟨rfl, written revision root, hfresh, rfl, rfl⟩
  | atRename revision =>
    obtain ⟨content, hcom, htmp, rfl⟩ := hfresh
    refine .inr ⟨content, hcom, ?_⟩
    rw [Phase.step, htmp]
    exact ⟨rfl, rfl⟩
  | returned result => exact .inl ⟨rfl, hfresh⟩
  | threw => exact .inl ⟨rfl, trivial⟩

/-- The states of a run in which the calls commit one after the other. -/
inductive System.Serialized (ops : Bool → List StoreOp) (file : Option NamespaceFile)
    (system : System) : Prop
  | nobody (hfile : system.files.file = file)
      (hfresh : ∀ process, (system.phase process).Fresh (ops process) system.files)
  | one (first : Bool) (changed : NamespaceFile)
      (hcom : commitFile (ops first) file = some changed)
      (hfile : system.files.file = some changed)
      (hfirst : system.phase first = .returned (.ok changed.revision))
      (hfresh : (system.phase !first).Fresh (ops !first) system.files)
  | both (first : Bool) (changed final : NamespaceFile)
      (hcom : commitFile (ops first) file = some changed)
      (hsnd : commitFile (ops !first) (some changed) = some final)
      (hfile : system.files.file = some final)
      (hphase : system.phase first = .returned (.ok changed.revision))
      (hother : system.phase (!first) = .returned (.ok final.revision))

theorem System.step_returned (ops : Bool → List StoreOp)
    {result : CommitResult} (hphase : system.phase process = .returned result) :
    system.step ops process = system := by
  rw [System.step, hphase, Phase.step, ← hphase, update_eq_self]

omit [JsNumber.Addition] in
theorem bool_ne_iff {other : Bool} : other ≠ process ↔ other = !process := by
  cases process <;> cases other <;> decide

section

variable (ops : Bool → List StoreOp)

theorem System.step_nobody (hfile : system.files.file = file)
    (hfresh : ∀ process, (system.phase process).Fresh (ops process) system.files)
    (hexcl : ¬ system.Overlap) (process : Bool) : (system.step ops process).Serialized ops file := by
  -- the other call does not see the step: it has nothing in hand, or the files stay as they are
  have hother : (system.phase !process).Fresh (ops !process) (system.step ops process).files := by
    by_cases hphase : (system.phase process).Committing
    · refine (hfresh !process).of_not_committing _ fun hcomm => hexcl ?_
      cases process with
      | false => exact ⟨hphase, hcomm⟩
      | true => exact ⟨hcomm, hphase⟩
    · rw [System.step, Phase.step_not_committing _ _ hphase]
      exact hfresh !process
  have hkeep : (system.step ops process).phase (!process) = system.phase !process :=
    System.step_other ops system (bool_ne_iff.mpr rfl)
  rcases Phase.step_fresh (hfresh process) with ⟨hsame, hnext⟩ | ⟨content, hcom, hnew, hret⟩
  · refine .nobody (hsame.trans hfile) fun other => ?_
    by_cases heq : other = process
    · rw [heq, System.step_self]
      exact hnext
    · rw [bool_ne_iff.mp heq, hkeep]
      exact hother
  · refine .one process content (hfile ▸ hcom) hnew ?_ ?_
    · rw [System.step_self, hret]
    · rw [hkeep]
      exact hother

theorem System.step_one {first : Bool} {changed : NamespaceFile} (hcom : commitFile (ops first) file = some changed)
    (hfile : system.files.file = some changed) (hfirst : system.phase first = .returned (.ok changed.revision))
    (hfresh : (system.phase !first).Fresh (ops !first) system.files) :
    (system.step ops !first).Serialized ops file := by
  have hkeep : (system.step ops !first).phase first = .returned (.ok changed.revision) := by
    rw [System.step_other ops system (Bool.not_ne_self first).symm, hfirst]
  rcases Phase.step_fresh hfresh with ⟨hsame, hnext⟩ | ⟨content, hsnd, hnew, hret⟩
  · refine .one first changed hcom (hsame.trans hfile) hkeep ?_
    rw [System.step_self]
    exact hnext
  · refine .both first changed content hcom (hfile ▸ hsnd) hnew hkeep ?_
    rw [System.step_self, hret]

theorem System.step_serialized (hser : system.Serialized ops file) (hexcl : ¬ system.Overlap)
    (process : Bool) : (system.step ops process).Serialized ops file := by
  cases hser with
  | nobody hfile hfresh => exact System.step_nobody ops hfile hfresh hexcl process
  | one first changed hcom hfile hfirst hfresh =>
    by_cases heq : process = first
    · rw [heq, System.step_returned ops hfirst]
      exact .one first changed hcom hfile hfirst hfresh
    · rw [bool_ne_iff.mp heq]
      exact System.step_one ops hcom hfile hfirst hfresh
  | both first changed final hcom hsnd hfile hfirst hother =>
    have hstay : system.step ops process = system := by
      by_cases heq : process = first
      · rw [heq, System.step_returned ops hfirst]
      · rw [bool_ne_iff.mp heq, System.step_returned ops hother]
    rw [hstay]
    exact .both first changed final hcom hsnd hfile hfirst hother

theorem System.run_serialized (hser : system.Serialized ops file) {schedule : List Bool}
    (hexcl : system.Exclusive ops schedule) : (system.run ops schedule).Serialized ops file := by
  induction schedule generalizing system with
  | nil => exact hser
  | cons next rest ih =>
    refine ih (System.step_serialized ops hser (hexcl 0) next) ?_
    exact fun steps => hexcl (steps + 1)

theorem System.start_serialized (files : Files) (expected retries : Bool → Nat) :
    (System.start files expected retries).Serialized ops files.file :=
  .nobody rfl fun _ => trivial

end

omit [JsNumber.Addition] in
theorem revision_eq_of_returned {revision : Bool → Nat}
    (hok : ∀ process, system.phase process = .returned (.ok (revision process)))
    {found : Nat} (hphase : system.phase process = .returned (.ok found)) : revision process = found := by
  have heq := (hok process).symm.trans hphase
  injection heq with heq
  injection heq

/-- **Concurrent commits.** When two calls of `commitNamespace` both return ok, they returned different
revisions and the file holds the one commit after the other exactly when the calls never stood
together between a matching read and the rename. -/
theorem commits_serial_iff (ops : Bool → List StoreOp) (files : Files) (expected retries : Bool → Nat)
    (schedule : List Bool) (revision : Bool → Nat)
    (hok : ∀ process, ((System.start files expected retries).run ops schedule).phase process =
      .returned (.ok (revision process))) : (revision false ≠ revision true ∧
        ∃ first serial, serialCommits ops first files.file = some serial ∧
          (readNamespace ((System.start files expected retries).run ops schedule).files.file).state = serial.state) ↔
      (System.start files expected retries).Exclusive ops schedule := by
  constructor
  · rintro ⟨hdif, _⟩ steps hover
    apply hdif
    have hall : ∀ process, revision process = (readNamespace files.file).revision + 1 := by
      intro process
      refine System.overlap_revision ops hover (schedule.drop steps) process ?_
      rw [List.take_append_drop]
      exact hok process
    rw [hall false, hall true]
  · intro hexcl
    cases System.run_serialized ops (System.start_serialized ops files expected retries) hexcl with
    | nobody hfile hfresh =>
      have hfalse := hfresh false
      rw [hok false] at hfalse
      exact hfalse.elim
    | one first changed hcom hfile hfirst hfresh =>
      rw [hok !first] at hfresh
      exact hfresh.elim
    | both first changed final hcom hsnd hfile hfirst hother =>
      have hdif : revision first ≠ revision !first := by
        rw [revision_eq_of_returned hok hfirst, revision_eq_of_returned hok hother, commitFile_revision hsnd]
        exact (Nat.lt_succ_self changed.revision).ne
      refine ⟨?_, first, final, ?_, ?_⟩
      · cases first with
        | false => exact hdif
        | true => exact hdif.symm
      · rw [serialCommits, hcom, Option.bind_some, hsnd]
      · rw [hfile]
        rfl

end Steps

section Sample

local instance : JsNumber.Addition := JsNumber.integerAddition

/-- One process adds to `a`, the other one to `b`. -/
def sampleOps (process : Bool) : List StoreOp :=
  [⟨.add (.number (.int 1)), if process then js "b" else js "a"⟩]

def sampleStart : System := System.start ⟨none, none⟩ (fun _ => 0) (fun _ => 3)

/-- The first process commits, the second one finds its revision gone and retries. -/
theorem commits_serial_sample : (∀ process, (sampleStart.run sampleOps
        [false, false, false, true, true, true, true]).phase process = .returned (.ok (if process then 2 else 1))) ∧
      (sampleStart.Exclusive sampleOps [false, false, false, true, true, true, true]) := by
  have hok : ∀ process, (sampleStart.run sampleOps
      [false, false, false, true, true, true, true]).phase process =
      .returned (.ok (if process then 2 else 1)) := by decide
  refine ⟨hok, (commits_serial_iff sampleOps ⟨none, none⟩ (fun _ => 0) (fun _ => 3) _ _ hok).mp ?_⟩
  refine ⟨by decide, false, written 2 [(js "a", .number (.int 1)), (js "b", .number (.int 1))], ?_⟩
  decide

/-- Both processes read revision 0; the second rename drops the commit of the first one. -/
theorem commits_lose_update : ¬ ∀ (ops : Bool → List StoreOp) (files : Files) (expected retries : Bool → Nat)
      (schedule : List Bool) (revision : Bool → Nat),
      (∀ process, ((System.start files expected retries).run ops schedule).phase process =
        .returned (.ok (revision process))) → revision false ≠ revision true ∧
        ∃ first serial, serialCommits ops first files.file = some serial ∧
          (readNamespace ((System.start files expected retries).run ops schedule).files.file).state =
            serial.state := by
  intro hclaim
  exact (hclaim sampleOps ⟨none, none⟩ (fun _ => 0) (fun _ => 3)
    [false, true, false, false, true, true] (fun _ => 1) (by decide)).1 rfl

end Sample

end PiRp.State
