import PiRp.EventRun
import PiRp.JsValue
import PiRp.JsonValue
import Mathlib.Logic.Function.Basic

/-! The credentials of `packages/coding-agent/src/core/auth-storage.ts`: calls of `modify`, `delete` and `reload`
by any number of processes on one file, step by step. A call that finds no file writes an empty one before it has
the lock, over whatever another call has written in the meantime. -/

namespace PiRp.Auth

open List Option Function

/-- A call, with the provider that it is about. -/
inductive Operation where
  | modify (provider : JsStr)
  | delete (provider : JsStr)
  | reload

def Operation.provider? : Operation → Option JsStr
  | .modify provider | .delete provider => some provider
  | .reload => none

/-- What a call makes of the file; a `modify` whose callback gives nothing keeps it. -/
inductive Change where
  | set (provider : JsStr) (credential : Json)
  | keep (provider : JsStr)
  | delete (provider : JsStr)
  deriving DecidableEq

namespace Change

def provider : Change → JsStr
  | .set provider _ | .keep provider | .delete provider => provider

/-- `{ ...currentData, [provider]: next }` or `delete currentData[provider]`. -/
def apply (change : Change) (data : Props Json) : Props Json :=
  match change with
  | .set provider credential => Props.set data provider credential
  | .keep _ => data
  | .delete provider => Props.delete data provider

/-- The content that is written. -/
def next (change : Change) (data : Props Json) : Option (Props Json) :=
  match change with
  | .keep _ => none
  | .set _ _ | .delete _ => some (change.apply data)

end Change

/-- How the callback of `modify` ends. -/
inductive Answer where
  | credential (credential : Json)
  | nothing
  | throws

/-- Where a call is in `withLockAsync` or `withLock`. -/
inductive Stage where
  | ready
  /-- The file does not exist, and is about to be created. -/
  | absent
  /-- For the lock. -/
  | waiting
  | locked
  /-- The callback runs on the data. -/
  | called (data : Props Json)
  /-- The callback is done, with the change and the next content. -/
  | answered (change : Option (Change × Option Json)) (next : Option (Props Json))
  /-- The lock is about to be released. -/
  | releasing (resolves : Bool)
  | resolved
  | rejected
  deriving DecidableEq

/-- The call has the lock. -/
def Stage.holds : Stage → Bool
  | .locked | .called _ | .answered _ _ | .releasing _ => true
  | .ready | .absent | .waiting | .resolved | .rejected => false

structure Call where
  operation : Operation
  aborted : Bool
  stage : Stage

/-- A `modify` or `delete` that is past its write: what it has made of the file, and the entry of its provider that
its callback was given. -/
structure Update where
  id : Nat
  change : Change
  seen : Option Json

structure System where
  file : Option (Props Json)
  lock : Option Nat
  calls : Nat → Call
  updates : List Update

namespace System

def initial (file : Option (Props Json)) (operations : Nat → Operation) : System where
  file
  lock := none
  calls id := ⟨operations id, false, .ready⟩
  updates := []

/-- The credentials in the file; none when there is no file. -/
def data (system : System) : Props Json := system.file.getD []

def enter (system : System) (id : Nat) (stage : Stage) : System :=
  { system with calls := Function.update system.calls id { system.calls id with stage } }

def abort (system : System) (id : Nat) : System :=
  { system with calls := Function.update system.calls id { system.calls id with aborted := true } }

/-- `throwIfAborted` and the existence test of `ensureFileExists`. -/
def start (system : System) (id : Nat) : System :=
  match (system.calls id).stage with
  | .ready =>
    if (system.calls id).aborted then system.enter id .rejected
    else if system.file.isSome then system.enter id .waiting
    else system.enter id .absent
  | _ => system

/-- `writeTextFileSync(this.authPath, "{}")`. -/
def create (system : System) (id : Nat) : System :=
  match (system.calls id).stage with
  | .absent => { system.enter id .waiting with file := some [] }
  | _ => system

def acquire (system : System) (id : Nat) : System :=
  match system.lock, (system.calls id).stage with
  | none, .waiting => { system.enter id .locked with lock := some id }
  | _, _ => system

/-- The lock is not acquired in time, or the signal aborts while it is waited for. -/
def giveUp (system : System) (id : Nat) : System :=
  match (system.calls id).stage with
  | .waiting => system.enter id .rejected
  | _ => system

/-- `throwIfAborted`, and the content for the callback. -/
def read (system : System) (id : Nat) : System :=
  match (system.calls id).stage with
  | .locked =>
    if (system.calls id).aborted then system.enter id (.releasing false)
    else system.enter id (.called system.data)
  | _ => system

/-- The change that the callback of the operation makes; the answer is that of the callback of `modify`. -/
def changeOf (operation : Operation) (answer : Answer) : Option Change :=
  match operation, answer with
  | .modify provider, .credential credential => some (.set provider credential)
  | .modify provider, _ => some (.keep provider)
  | .delete provider, _ => some (.delete provider)
  | .reload, _ => none

def throws (operation : Operation) (answer : Answer) : Bool :=
  match operation, answer with
  | .modify _, .throws => true
  | _, _ => false

/-- The end of the callback. -/
def answer (system : System) (id : Nat) (answer : Answer) : System :=
  match (system.calls id).stage with
  | .called data =>
    if throws (system.calls id).operation answer then system.enter id (.releasing false)
    else
      let change := changeOf (system.calls id).operation answer
      system.enter id (.answered (change.map fun change => (change, Props.get? data change.provider))
        (change.bind fun change => change.next data))
  | _ => system

/-- `throwIfAborted`, and the write when there is something to write. -/
def write (system : System) (id : Nat) : System :=
  match (system.calls id).stage with
  | .answered change next =>
    if (system.calls id).aborted then system.enter id (.releasing false)
    else
      { system.enter id (.releasing true) with
        file := next.orElse fun _ => system.file
        updates := system.updates ++ (change.map fun change => ⟨id, change.1, change.2⟩).toList }
  | _ => system

def release (system : System) (id : Nat) : System :=
  match (system.calls id).stage with
  | .releasing resolves => { system.enter id (if resolves then .resolved else .rejected) with lock := none }
  | _ => system

end System

inductive Event where
  | abort (id : Nat)
  | start (id : Nat)
  | create (id : Nat)
  | acquire (id : Nat)
  | giveUp (id : Nat)
  | read (id : Nat)
  | answer (id : Nat) (answer : Answer)
  | write (id : Nat)
  | release (id : Nat)

def step (system : System) : Event → System
  | .abort id => system.abort id
  | .start id => system.start id
  | .create id => system.create id
  | .acquire id => system.acquire id
  | .giveUp id => system.giveUp id
  | .read id => system.read id
  | .answer id answer => system.answer id answer
  | .write id => system.write id
  | .release id => system.release id

def run (file : Option (Props Json)) (operations : Nat → Operation) (events : List Event) : System :=
  events.foldl step (.initial file operations)

/-- An empty file is written over nothing that has credentials. -/
def Event.Harmless (system : System) : Event → Prop
  | .create id => (system.calls id).stage = .absent → system.data = []
  | _ => True

/-! ### One after the other -/

def replay (data : Props Json) (updates : List Update) : Props Json :=
  updates.foldl (fun data update => update.change.apply data) data

theorem replay_append (data : Props Json) (updates : List Update) (update : Update) :
    replay data (updates ++ [update]) = update.change.apply (replay data updates) := by
  rw [replay, foldl_append]
  rfl

theorem Change.get?_apply_other (change : Change) (data : Props Json) {other : JsStr}
    (hother : other ≠ change.provider) : Props.get? (change.apply data) other = Props.get? data other := by
  cases change with
  | set provider credential => exact (Props.get?_set data provider other credential).trans (if_neg (Ne.symm hother))
  | keep provider => rfl
  | delete provider => exact (Props.get?_delete data provider other).trans (if_neg (Ne.symm hother))

/-- The call is a `modify` or `delete` that has resolved or is past its write. -/
def Call.Past (call : Call) : Prop :=
  call.operation ≠ .reload ∧ (call.stage = .releasing true ∨ call.stage = .resolved)

/-- The updates are serial: each was given the entry that the ones before it had left, and what it has made of the
file is a change of its operation. -/
structure Serial (data : Props Json) (operations : Nat → Operation) (updates : List Update) : Prop where
  seen : ∀ before update after, updates = before ++ update :: after →
    update.seen = Props.get? (replay data before) update.change.provider
  change : ∀ update ∈ updates, ∃ answer, System.changeOf (operations update.id) answer = some update.change

theorem Serial.append {data : Props Json} {operations : Nat → Operation} {updates : List Update} {update : Update}
    (hser : Serial data operations updates)
    (hseen : update.seen = Props.get? (replay data updates) update.change.provider)
    (hchg : ∃ answer, System.changeOf (operations update.id) answer = some update.change) :
    Serial data operations (updates ++ [update]) := by
  constructor
  · intro before found after hsplit
    rcases eq_nil_or_concat after with rfl | ⟨rest, last, rfl⟩
    · obtain ⟨rfl, hlast⟩ := append_inj' hsplit rfl
      obtain rfl := (List.cons.inj hlast).1
      exact hseen
    · rw [concat_eq_append, ← cons_append, ← append_assoc] at hsplit
      obtain ⟨hbef, _⟩ := append_inj' hsplit rfl
      exact hser.seen before found rest hbef
  · intro found hfound
    rcases mem_append.mp hfound with hold | hnew
    · exact hser.change found hold
    · rw [mem_singleton.mp hnew]
      exact hchg

theorem isSome_changeOf (operation : Operation) (answer : Answer) :
    (System.changeOf operation answer).isSome = true ↔ operation ≠ .reload := by
  cases operation with
  | reload => exact iff_of_false nofun fun hne => hne rfl
  | delete provider => exact iff_of_true rfl nofun
  | modify provider =>
    refine iff_of_true ?_ nofun
    cases answer with
    | credential _ => rfl
    | nothing => rfl
    | throws => rfl

theorem provider_changeOf {operation : Operation} {answer : Answer} {change : Change}
    (hchg : System.changeOf operation answer = some change) : operation.provider? = some change.provider := by
  cases operation with
  | reload => exact absurd hchg nofun
  | delete provider =>
    obtain rfl := Option.some.inj hchg
    rfl
  | modify provider =>
    cases answer with
    | credential _ =>
      obtain rfl := Option.some.inj hchg
      rfl
    | nothing =>
      obtain rfl := Option.some.inj hchg
      rfl
    | throws =>
      obtain rfl := Option.some.inj hchg
      rfl

/-- What a call that holds the lock has read is what is in the file. -/
def Call.Fits (call : Call) (data : Props Json) : Prop :=
  match call.stage with
  | .called read => read = data
  | .answered change next =>
    (∃ answer, change.map Prod.fst = System.changeOf call.operation answer) ∧
      (∀ found ∈ change, found.2 = Props.get? data found.1.provider) ∧
      next = (change.map Prod.fst).bind fun change => change.next data
  | _ => True

structure System.Sound (system : System) (file : Option (Props Json)) (operations : Nat → Operation) : Prop where
  operation : ∀ id, (system.calls id).operation = operations id
  holder : ∀ id, system.lock = some id ↔ (system.calls id).stage.holds = true
  fits : ∀ id, (system.calls id).Fits system.data
  data : system.data = replay (file.getD []) system.updates
  updates : ∀ id, id ∈ system.updates.map Update.id ↔ (system.calls id).Past
  once : (system.updates.map Update.id).Nodup
  serial : Serial (file.getD []) operations system.updates

theorem Call.not_past {call : Call} (hrel : call.stage ≠ .releasing true) (hres : call.stage ≠ .resolved) :
    ¬call.Past := fun hpast => hpast.2.elim hrel hres

theorem Call.not_past_at {call : Call} {stage : Stage} (hstage : call.stage = stage) (hrel : stage ≠ .releasing true)
    (hres : stage ≠ .resolved) : ¬call.Past := Call.not_past (hstage ▸ hrel) (hstage ▸ hres)

namespace System.Sound

variable {system : System} {file : Option (Props Json)} {operations : Nat → Operation}

theorem initial (file : Option (Props Json)) (operations : Nat → Operation) :
    (System.initial file operations).Sound file operations where
  operation _ := rfl
  holder _ := iff_of_false nofun nofun
  fits _ := True.intro
  data := rfl
  updates _ := by
    refine iff_of_false nofun ?_
    rintro ⟨_, hstage | hstage⟩
    · exact absurd hstage nofun
    · exact absurd hstage nofun
  once := nodup_nil
  serial := ⟨fun before update after hsplit => absurd hsplit.symm
    (append_ne_nil_of_right_ne_nil before (cons_ne_nil update after)), nofun⟩

variable (hsound : system.Sound file operations)

include hsound

theorem change (id : Nat) {call : Call} {lock : Option Nat} (hoper : call.operation = (system.calls id).operation)
    (hoth : ∀ other, other ≠ id → (lock = some other ↔ system.lock = some other))
    (hhol : lock = some id ↔ call.stage.holds = true) (hfits : call.Fits system.data)
    (hpast : call.Past ↔ (system.calls id).Past) :
    ({ system with calls := Function.update system.calls id call, lock } : System).Sound file operations where
  operation other := by
    show (Function.update system.calls id call other).operation = _
    by_cases hid : other = id
    · subst hid
      rw [update_self, hoper]
      exact hsound.operation other
    · rw [update_of_ne hid]
      exact hsound.operation other
  holder other := by
    show lock = some other ↔ (Function.update system.calls id call other).stage.holds = true
    by_cases hid : other = id
    · subst hid
      rw [update_self]
      exact hhol
    · rw [update_of_ne hid, hoth other hid]
      exact hsound.holder other
  fits other := by
    show (Function.update system.calls id call other).Fits system.data
    by_cases hid : other = id
    · subst hid
      rw [update_self]
      exact hfits
    · rw [update_of_ne hid]
      exact hsound.fits other
  data := hsound.data
  updates other := by
    show _ ↔ (Function.update system.calls id call other).Past
    by_cases hid : other = id
    · subst hid
      rw [update_self, hpast]
      exact hsound.updates other
    · rw [update_of_ne hid]
      exact hsound.updates other
  once := hsound.once
  serial := hsound.serial

theorem enter (id : Nat) {stage : Stage} (hholds : stage.holds = (system.calls id).stage.holds)
    (hfits : { system.calls id with stage := stage }.Fits system.data)
    (hbef : ¬(system.calls id).Past) (hafter : ¬{ system.calls id with stage := stage }.Past) :
    (system.enter id stage).Sound file operations := by
  refine hsound.change id rfl (fun _ _ => Iff.rfl) ?_ hfits (iff_of_false hafter hbef)
  rw [hsound.holder, hholds]

theorem of_data {next : Option (Props Json)}
    (hdata : next.getD [] = system.data) : { system with file := next }.Sound file operations where
  operation := hsound.operation
  holder := hsound.holder
  fits id := by
    show (system.calls id).Fits (next.getD [])
    rw [hdata]
    exact hsound.fits id
  data := hdata.trans hsound.data
  updates := hsound.updates
  once := hsound.once
  serial := hsound.serial

theorem abort (id : Nat) : (system.abort id).Sound file operations :=
  hsound.change id rfl (fun _ _ => Iff.rfl) (hsound.holder id) (hsound.fits id) Iff.rfl

theorem start (id : Nat) : (system.start id).Sound file operations := by
  unfold System.start
  split
  · next hstage =>
    have hbef := Call.not_past_at hstage nofun nofun
    split_ifs
    · exact hsound.enter id (by rw [hstage]; rfl) trivial hbef (Call.not_past nofun nofun)
    · exact hsound.enter id (by rw [hstage]; rfl) trivial hbef (Call.not_past nofun nofun)
    · exact hsound.enter id (by rw [hstage]; rfl) trivial hbef (Call.not_past nofun nofun)
  · exact hsound

theorem create {id : Nat} (hhar : (Event.create id).Harmless system) : (system.create id).Sound file operations := by
  unfold System.create
  split
  · next hstage =>
    have hbef := Call.not_past_at hstage nofun nofun
    have hent : (system.enter id .waiting).Sound file operations :=
      hsound.enter id (by rw [hstage]; rfl) trivial hbef (Call.not_past nofun nofun)
    exact hent.of_data (hhar hstage).symm
  · exact hsound

theorem acquire (id : Nat) : (system.acquire id).Sound file operations := by
  unfold System.acquire
  split
  · next hlock hstage =>
    have hbef := Call.not_past_at hstage nofun nofun
    refine hsound.change id rfl (fun other hid => ?_) (iff_of_true rfl rfl) trivial
      (iff_of_false (Call.not_past nofun nofun) hbef)
    rw [hlock]
    exact iff_of_false (fun hsame => hid (Option.some.inj hsame).symm) nofun
  · exact hsound

theorem giveUp (id : Nat) : (system.giveUp id).Sound file operations := by
  unfold System.giveUp
  split
  · next hstage =>
    apply hsound.enter id
    · rw [hstage]
      rfl
    · exact True.intro
    · exact Call.not_past_at hstage nofun nofun
    · exact Call.not_past nofun nofun
  · exact hsound

theorem read (id : Nat) : (system.read id).Sound file operations := by
  unfold System.read
  split
  · next hstage =>
    have hbef := Call.not_past_at hstage nofun nofun
    split_ifs
    · exact hsound.enter id (by rw [hstage]; rfl) trivial hbef (Call.not_past nofun nofun)
    · exact hsound.enter id (by rw [hstage]; rfl) rfl hbef (Call.not_past nofun nofun)
  · exact hsound

theorem answer (id : Nat) (given : Answer) : (system.answer id given).Sound file operations := by
  unfold System.answer
  split
  · next data hstage =>
    have hbef := Call.not_past_at hstage nofun nofun
    have hdata : data = system.data := by
      have hfits := hsound.fits id
      unfold Call.Fits at hfits
      rw [hstage] at hfits
      exact hfits
    split_ifs
    · exact hsound.enter id (by rw [hstage]; rfl) trivial hbef (Call.not_past nofun nofun)
    · apply hsound.enter id
      · rw [hstage]
        rfl
      · refine ⟨⟨given, ?_⟩, ?_, ?_⟩
        · rw [Option.map_map]
          exact Option.map_id'
        · intro found hfound
          obtain ⟨change, _, rfl⟩ := map_eq_some_iff.mp hfound
          rw [hdata]
        · rw [Option.map_map, ← hdata]
          show _ = Option.bind (Option.map (fun change => change) _) _
          rw [Option.map_id']
      · exact hbef
      · exact Call.not_past nofun nofun
  · exact hsound

theorem release (id : Nat) : (system.release id).Sound file operations := by
  unfold System.release
  split
  · next resolves hstage =>
    have hlock : system.lock = some id := by
      rw [hsound.holder, hstage]
      rfl
    refine hsound.change id rfl (fun other hid => ?_) ?_ ?_ ?_
    · rw [hlock]
      exact iff_of_false nofun fun hsame => hid (Option.some.inj hsame).symm
    · cases resolves with
      | true => exact iff_of_false nofun nofun
      | false => exact iff_of_false nofun nofun
    · cases resolves with
      | true => exact True.intro
      | false => exact True.intro
    · unfold Call.Past
      rw [hstage]
      cases resolves with
      | true => exact and_congr_right fun _ => iff_of_true (.inr rfl) (.inl rfl)
      | false =>
        refine and_congr_right fun _ => iff_of_false ?_ ?_
        · exact fun hor => hor.elim nofun nofun
        · exact fun hor => hor.elim nofun nofun
  · exact hsound

omit hsound in
theorem data_orElse (change : Option Change) (file : Option (Props Json)) :
    ((change.bind fun change => change.next (file.getD [])).orElse fun _ => file).getD [] =
      (change.map fun change => change.apply (file.getD [])).getD (file.getD []) := by
  cases change with
  | none => rfl
  | some change =>
    cases change with
    | set provider credential => rfl
    | keep provider => rfl
    | delete provider => rfl

theorem write (id : Nat) : (system.write id).Sound file operations := by
  unfold System.write
  split
  · next change next hstage =>
    have hbef := Call.not_past_at hstage nofun nofun
    have hlock : system.lock = some id := by
      rw [hsound.holder, hstage]
      rfl
    have hfits := hsound.fits id
    unfold Call.Fits at hfits
    rw [hstage] at hfits
    obtain ⟨⟨answer, hchg⟩, hseen, hnext⟩ := hfits
    rw [hsound.operation] at hchg
    split_ifs
    · exact hsound.enter id (by rw [hstage]; rfl) trivial hbef (Call.not_past nofun nofun)
    have hdata : (next.orElse fun _ => system.file).getD [] =
        ((change.map Prod.fst).map fun change => change.apply system.data).getD system.data := by
      rw [hnext]
      exact data_orElse _ _
    refine ⟨fun other => ?_, fun other => ?_, fun other => ?_, ?_, fun other => ?_, ?_, ?_, ?_⟩
    · show (Function.update system.calls id _ other).operation = _
      by_cases hid : other = id
      · subst hid
        rw [update_self]
        exact hsound.operation other
      · rw [update_of_ne hid]
        exact hsound.operation other
    · show system.lock = some other ↔ (Function.update system.calls id _ other).stage.holds = true
      by_cases hid : other = id
      · subst hid
        rw [update_self]
        exact iff_of_true hlock rfl
      · rw [update_of_ne hid]
        exact hsound.holder other
    · show (Function.update system.calls id _ other).Fits _
      by_cases hid : other = id
      · subst hid
        rw [update_self]
        exact True.intro
      · rw [update_of_ne hid]
        have hfree : (system.calls other).stage.holds = false := by
          rw [← Bool.not_eq_true, ← hsound.holder, hlock]
          exact fun hsame => hid (Option.some.inj hsame).symm
        unfold Call.Fits
        split
        · next hcal =>
          rw [hcal] at hfree
          exact absurd hfree nofun
        · next hans =>
          rw [hans] at hfree
          exact absurd hfree nofun
        · exact True.intro
    · refine hdata.trans ?_
      cases change with
      | none =>
        show system.data = replay _ (system.updates ++ [])
        rw [append_nil]
        exact hsound.data
      | some found =>
        show found.1.apply system.data = replay _ (system.updates ++ [_])
        rw [replay_append, ← hsound.data]
    · show other ∈ (system.updates ++ _).map Update.id ↔ (Function.update system.calls id _ other).Past
      rw [map_append, mem_append]
      by_cases hid : other = id
      · subst hid
        rw [update_self]
        have hkind : (system.calls other).operation ≠ .reload ↔ change.isSome = true := by
          rw [hsound.operation, ← isSome_changeOf _ answer, ← hchg, isSome_map]
        show _ ↔ (system.calls other).operation ≠ .reload ∧ (Stage.releasing true = .releasing true ∨ _)
        rw [and_iff_left (.inl rfl), hkind]
        cases change with
        | none => exact iff_of_false (fun hor => hor.elim (fun hmem => hbef ((hsound.updates other).mp hmem)) nofun) nofun
        | some found => exact iff_of_true (.inr (mem_singleton_self _)) rfl
      · rw [update_of_ne hid, ← hsound.updates other]
        refine or_iff_left fun hmem => ?_
        obtain ⟨update, hupd, rfl⟩ := mem_map.mp hmem
        obtain ⟨found, _, rfl⟩ := map_eq_some_iff.mp (mem_toList.mp hupd)
        exact hid rfl
    · show ((system.updates ++ _).map Update.id).Nodup
      cases change with
      | none =>
        show ((system.updates ++ []).map Update.id).Nodup
        rw [append_nil]
        exact hsound.once
      | some found =>
        show ((system.updates ++ [_]).map Update.id).Nodup
        rw [map_append, nodup_append]
        refine ⟨hsound.once, nodup_singleton _, fun one hone last hlast hsame => ?_⟩
        rw [hsame, mem_singleton.mp hlast] at hone
        exact hbef ((hsound.updates id).mp hone)
    · cases change with
      | none =>
        show ∀ before update after, system.updates ++ [] = before ++ update :: after → _
        rw [append_nil]
        exact hsound.serial.seen
      | some found =>
        refine (hsound.serial.append ?_ ⟨answer, hchg.symm⟩).seen
        exact (hseen found rfl).trans (congrArg (Props.get? · found.1.provider) hsound.data)
    · cases change with
      | none =>
        show ∀ update ∈ system.updates ++ [], _
        rw [append_nil]
        exact hsound.serial.change
      | some found =>
        refine (hsound.serial.append ?_ ⟨answer, hchg.symm⟩).change
        exact (hseen found rfl).trans (congrArg (Props.get? · found.1.provider) hsound.data)
  · exact hsound

theorem step {event : Event} (hhar : event.Harmless system) : (step system event).Sound file operations := by
  cases event with
  | abort id => exact hsound.abort id
  | start id => exact hsound.start id
  | create id => exact hsound.create hhar
  | acquire id => exact hsound.acquire id
  | giveUp id => exact hsound.giveUp id
  | read id => exact hsound.read id
  | answer id given => exact hsound.answer id given
  | write id => exact hsound.write id
  | release id => exact hsound.release id

end System.Sound

/-- In a run in which an empty file is written over nothing, the credentials in the file are at any time those that
the `modify` and `delete` calls past their write have made, one after the other, each of them once and each of its
own provider; a call that rejects is not among them. -/
theorem credentials_serial (file : Option (Props Json)) (operations : Nat → Operation) (events : List Event)
    (hhar : AllowedRun step Event.Harmless (.initial file operations) events) :
    (run file operations events).data = replay (file.getD []) (run file operations events).updates ∧
      ((run file operations events).updates.map Update.id).Nodup ∧
      (∀ id, id ∈ (run file operations events).updates.map Update.id ↔ operations id ≠ .reload ∧
        (((run file operations events).calls id).stage = .releasing true ∨
          ((run file operations events).calls id).stage = .resolved)) ∧
      Serial (file.getD []) operations (run file operations events).updates ∧
      (∀ update ∈ (run file operations events).updates, ∀ data other, (operations update.id).provider? ≠ some other →
        Props.get? (update.change.apply data) other = Props.get? data other) ∧
      ∀ id, ((run file operations events).calls id).stage = .rejected →
        id ∉ (run file operations events).updates.map Update.id := by
  have hstep : ∀ system event, system.Sound file operations → event.Harmless system →
      (step system event).Sound file operations := fun _ _ hsound hhar => hsound.step hhar
  have hsound : (run file operations events).Sound file operations :=
    AllowedRun.invariant hstep hhar (System.Sound.initial file operations)
  refine ⟨hsound.data, hsound.once, fun id => ?_, hsound.serial, fun update hupd data other hother => ?_,
    fun id hrej hmem => ?_⟩
  · rw [← hsound.operation id]
    exact hsound.updates id
  · obtain ⟨answer, hchg⟩ := hsound.serial.change update hupd
    apply Change.get?_apply_other
    rintro rfl
    exact hother (provider_changeOf hchg)
  · refine Call.not_past ?_ ?_ ((hsound.updates id).mp hmem)
    · rw [hrej]
      exact nofun
    · rw [hrej]
      exact nofun

section Sample

def key (text : String) : Json := .object [(js "type", .string (js "api_key")), (js "key", .string (js text))]

def twoKeys : Nat → Operation
  | 0 => .modify (js "anthropic")
  | _ => .modify (js "openai")

/-- Call 1 sees no file, and writes an empty one after call 0 is done. -/
def erasedEvents : List Event :=
  [.start 0, .start 1, .create 0, .acquire 0, .read 0, .answer 0 (.credential (key "a")), .write 0, .release 0,
    .create 1]

/-- The credential of a call that has resolved is gone. -/
theorem credentials_erased :
    ((run none twoKeys erasedEvents).calls 0).stage = .resolved ∧ (run none twoKeys erasedEvents).lock = none ∧
    (run none twoKeys erasedEvents).file = some [] ∧
    replay [] (run none twoKeys erasedEvents).updates = [(js "anthropic", key "a")] := by
  decide +kernel

/-- Call 1 creates the file in time, and call 2 is aborted while its callback runs. -/
def serialEvents : List Event :=
  [.start 0, .start 1, .create 0, .create 1, .acquire 0, .read 0, .answer 0 (.credential (key "a")), .write 0,
    .release 0, .start 2, .acquire 1, .read 1, .answer 1 (.credential (key "b")), .write 1, .release 1, .acquire 2,
    .read 2, .abort 2, .answer 2 (.credential (key "c")), .write 2, .release 2]

theorem credentials_serial_sample :
    (run none twoKeys serialEvents).data = replay [] (run none twoKeys serialEvents).updates ∧
    (run none twoKeys serialEvents).data = [(js "anthropic", key "a"), (js "openai", key "b")] ∧
    ((run none twoKeys serialEvents).calls 2).stage = .rejected := by
  have hhar : AllowedRun step Event.Harmless (.initial none twoKeys) serialEvents := by
    refine ⟨trivial, trivial, fun _ => rfl, fun _ => rfl, ?_⟩
    exact ⟨trivial, trivial, trivial, trivial, trivial, trivial, trivial, trivial, trivial, trivial, trivial,
      trivial, trivial, trivial, trivial, trivial, trivial, trivial⟩
  exact ⟨(credentials_serial none twoKeys serialEvents hhar).1, by decide +kernel, by decide +kernel⟩

end Sample

end PiRp.Auth
