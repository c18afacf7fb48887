import PiRp.SettingsFile
import PiRp.SettingsTargets

/-! One manager alone with its file: `reload` waits for the writes that were queued when it was called, and puts
what the file holds in the place of the settings in memory. A setter that is called while it waits is in the queue
and not in the file when it loads, and is undone in memory. -/

namespace PiRp.Settings

open List WriteTask

/-- A manager with the file that nobody else writes. -/
structure Owner where
  file : Option (Props Json)
  manager : SettingsManager
  projectTrusted : Bool
  /-- For each `reload` that waits, the number of tasks of the queue that it waits for. -/
  reloads : List Nat
  /-- The calls of setters that have returned. -/
  calls : List Setter

namespace Owner

def initial (file : Option (Props Json)) : Owner := ⟨file, .load (migrateSettings (file.getD [])), true, [], []⟩

def set (owner : Owner) (setter : Setter) : Owner :=
  match setter.apply owner.manager.globalSettings with
  | some _ => { owner with manager := owner.manager.set setter, calls := owner.calls ++ [setter] }
  | none => owner

/-- `reload`, to where it awaits the queue. -/
def reload (owner : Owner) : Owner :=
  { owner with reloads := owner.reloads ++ [owner.manager.writeQueue.length] }

/-- The rest of `reload`, when the tasks it waits for are done. -/
def resume (owner : Owner) : Owner :=
  if 0 ∈ owner.reloads then
    { owner with
      manager := { SettingsManager.load (migrateSettings (owner.file.getD [])) with writeQueue := owner.manager.writeQueue }
      reloads := owner.reloads.erase 0 }
  else owner

/-- The next task of the queue, after the calls of `reload` that do not wait for it. -/
def runTask (owner : Owner) : Owner :=
  match owner.manager.writeQueue with
  | task :: rest =>
    if 0 ∈ owner.reloads then owner
    else
      { owner with
        file := some (task.persist owner.file)
        manager := { owner.manager with writeQueue := rest }.clearModifiedScope
        reloads := owner.reloads.map (· - 1) }
  | [] => owner

end Owner

inductive OwnerEvent where
  | set (setter : Setter)
  | reload
  | resume
  | runTask
  /-- `flush` waits and does nothing. -/
  | flush
  | setProjectTrusted (trusted : Bool)

def ownerStep (owner : Owner) : OwnerEvent → Owner
  | .set setter => owner.set setter
  | .reload => owner.reload
  | .resume => owner.resume
  | .runTask => owner.runTask
  | .flush => owner
  | .setProjectTrusted trusted => { owner with projectTrusted := trusted }

def ownerRun (file : Option (Props Json)) (events : List OwnerEvent) : Owner :=
  events.foldl ownerStep (.initial file)

/-- No call or task is pending. -/
def Owner.Idle (owner : Owner) : Prop := owner.manager.writeQueue = [] ∧ owner.reloads = []

/-! ### The condition -/

/-- The names that an object without properties has a value for. -/
def prototypeMembers : List JsStr :=
  [js "constructor", js "hasOwnProperty", js "isPrototypeOf", js "propertyIsEnumerable", js "toLocaleString",
    js "toString", js "valueOf", js "__defineGetter__", js "__defineSetter__", js "__lookupGetter__",
    js "__lookupSetter__"]

/-- The call changes a plain object under a name that marks it. -/
def SettingsManager.Takes (manager : SettingsManager) : Setter → Prop
  | .fields _ => True
  | .nested assignment => (Props.get? manager.globalSettings assignment.field).any isArray = false
  | .extensionSetting extensionId key _ =>
    (Props.get? manager.globalSettings (js "extensionSettings")).any isArray = false ∧
    (nestedValue manager.globalSettings (js "extensionSettings") extensionId).any isArray = false ∧
    (extensionId = [] → manager.modifiedNestedFields.get? (js "extensionSettings") = none) ∧
    (extensionId ∈ prototypeMembers →
      nestedValue manager.globalSettings (js "extensionSettings") extensionId ≠ none) ∧
    extensionId ≠ js "__proto__" ∧ key ≠ js "__proto__"

/-- `reload` loads when nothing is left to write. -/
def OwnerEvent.Orderly (owner : Owner) : OwnerEvent → Prop
  | .set setter => owner.manager.Takes setter
  | .resume => owner.manager.writeQueue = []
  | _ => True

/-! ### Agreement -/

/-- The same value, or objects with the same values in another order. -/
def Same (one other : Option Json) : Prop :=
  one = other ∨ ∃ props props', one = some (.object props) ∧ other = some (.object props') ∧
    ∀ key, Props.get? props key = Props.get? props' key

structure Agrees (settings other : Props Json) : Prop where
  field : ∀ field ∉ keyedFields, Props.get? settings field = Props.get? other field
  keyed : ∀ field ∈ keyedFields, Same (Props.get? settings field) (Props.get? other field)

namespace Agrees

variable {settings other : Props Json} {field key : JsStr}

theorem refl (settings : Props Json) : Agrees settings settings := ⟨fun _ _ => rfl, fun _ _ => .inl rfl⟩

theorem nestedValue (hagr : Agrees settings other) (field key : JsStr) :
    nestedValue settings field key = nestedValue other field key := by
  unfold Settings.nestedValue
  by_cases hfield : field ∈ keyedFields
  · rcases hagr.keyed field hfield with hsame | ⟨props, props', hone, hother, hkeys⟩
    · rw [hsame]
    · rw [hone, hother]
      exact hkeys key
  · rw [hagr.field field hfield]

theorem valueOf (hagr : Agrees settings other) {target : Target} (hprop : target.Proper) :
    valueOf settings target = valueOf other target := by
  cases target with
  | field field => exact hagr.field field hprop
  | key field key => exact hagr.nestedValue field key
  | extension extensionId key =>
    unfold Settings.valueOf
    dsimp only
    rw [hagr.nestedValue]

end Agrees

/-! ### The marks -/

namespace SettingsManager

variable {manager : SettingsManager} {setter : Setter} {globalSettings : Props Json} {field : JsStr}
  {keys : List JsStr}

/-- Fields of which keys are marked are not arrays. -/
def Marked (manager : SettingsManager) : Prop :=
  ∀ field keys, manager.modifiedNestedFields.get? field = some keys →
    field ∈ keyedFields ∧ (Props.get? manager.globalSettings field).any isArray = false

theorem get?_foldl_mark_setter
    (hget : (setter.marks.foldl markModified { manager with globalSettings }).modifiedNestedFields.get? field = some keys) :
    (manager.modifiedNestedFields.get? field = some keys ∧ ∀ key, (field, some key) ∈ setter.marks → key = []) ∨
      ∃ key ∈ keys, setter.marks = [(field, some key)] := by
  have hsin : ∀ marked key, ({ manager with globalSettings }.markModified
      (marked, some key)).modifiedNestedFields.get? field = some keys →
      (manager.modifiedNestedFields.get? field = some keys ∧
        ∀ key', (field, some key') ∈ [(marked, some key)] → key' = []) ∨
      ∃ key' ∈ keys, [(marked, some key)] = [(field, some key')] := by
    intro marked key hmar
    unfold markModified at hmar
    dsimp only at hmar
    split_ifs at hmar with hkey
    · refine .inl ⟨hmar, fun key' hmem => ?_⟩
      obtain ⟨_, hsame⟩ := Prod.mk.inj (mem_singleton.mp hmem)
      exact (Option.some.inj hsame).trans hkey
    · rw [JsMap.get?_set] at hmar
      split_ifs at hmar with hfield
      · obtain rfl := Option.some.inj hmar
        exact .inr ⟨key, mem_addTo.mpr (.inr rfl), by rw [hfield]⟩
      · refine .inl ⟨hmar, fun key' hmem => ?_⟩
        exact absurd (Prod.mk.inj (mem_singleton.mp hmem)).1 hfield
  cases setter with
  | fields assignments =>
    have hmarks : (Setter.fields assignments).marks =
        (assignments.map FieldAssignment.field).map fun field => (field, none) := by
      rw [map_map]
      rfl
    rw [hmarks, modifiedNestedFields_foldl_mark] at hget
    refine .inl ⟨hget, fun key hmem => ?_⟩
    obtain ⟨assignment, _, hsame⟩ := mem_map.mp hmem
    cases (Prod.mk.inj hsame).2
  | nested assignment => exact hsin _ _ hget
  | extensionSetting extensionId key value => exact hsin _ _ hget

theorem mark_keyed {key : JsStr} (hmark : (field, some key) ∈ setter.marks) : field ∈ keyedFields := by
  cases setter with
  | fields assignments =>
    obtain ⟨assignment, _, hsame⟩ := mem_map.mp hmark
    exact absurd (Prod.mk.inj hsame).2 nofun
  | nested assignment =>
    obtain ⟨entry, hentry, hfield, _⟩ := assignment.listed
    rw [(Prod.mk.inj (mem_singleton.mp hmark)).1, ← hfield]
    exact nestedFields_keyed entry hentry
  | extensionSetting extensionId key value =>
    rw [(Prod.mk.inj (mem_singleton.mp hmark)).1]
    exact mem_cons_self

theorem mark_of_keyed (hkeyed : field ∈ keyedFields) {mark : JsStr × Option JsStr} (hmark : mark ∈ setter.marks)
    (hfield : mark.1 = field) : ∃ key, mark = (field, some key) := by
  subst hfield
  cases setter with
  | fields assignments =>
    obtain ⟨assignment, _, rfl⟩ := mem_map.mp hmark
    exact absurd hkeyed (topLevelFields_not_keyed _ assignment.mem_topLevelFields)
  | nested assignment => exact ⟨_, by rw [mem_singleton.mp hmark]⟩
  | extensionSetting extensionId key value => exact ⟨_, by rw [mem_singleton.mp hmark]⟩

theorem isArray_apply {key : JsStr} (happly : setter.apply manager.globalSettings = some globalSettings)
    (hmark : (field, some key) ∈ setter.marks) : (Props.get? globalSettings field).any isArray = false := by
  cases setter with
  | fields assignments =>
    obtain ⟨assignment, _, hsame⟩ := mem_map.mp hmark
    exact absurd (Prod.mk.inj hsame).2 nofun
  | nested assignment =>
    obtain ⟨props, _, rfl⟩ := assignNested_spec happly
    rw [(Prod.mk.inj (mem_singleton.mp hmark)).1, Props.get?_set, if_pos rfl]
    rfl
  | extensionSetting extensionId key' value =>
    rw [(Prod.mk.inj (mem_singleton.mp hmark)).1]
    have hass : assignExtensionSetting manager.globalSettings extensionId key' value = some globalSettings :=
      happly
    unfold assignExtensionSetting at hass
    split at hass
    · next unit units hstr =>
      split_ifs at hass
      rw [← Option.some.inj hass, hstr]
      rfl
    · obtain ⟨extensions, _, hbound⟩ := Option.bind_eq_some_iff.mp hass
      obtain ⟨assigned, _, rfl⟩ := Option.map_eq_some_iff.mp hbound
      rw [Props.get?_set, if_pos rfl]
      rfl

theorem Marked.apply (hmar : manager.Marked) (happly : setter.apply manager.globalSettings = some globalSettings) :
    (setter.marks.foldl markModified { manager with globalSettings }).Marked := by
  intro field keys hget
  rw [globalSettings_foldl_mark]
  by_cases hmark : ∃ key, (field, some key) ∈ setter.marks
  · obtain ⟨key, hmark⟩ := hmark
    exact ⟨mark_keyed hmark, isArray_apply happly hmark⟩
  · rcases get?_foldl_mark_setter hget with ⟨hbef, _⟩ | ⟨key, _, hmarks⟩
    · obtain ⟨hkeyed, harray⟩ := hmar field keys hbef
      refine ⟨hkeyed, ?_⟩
      show (Props.get? globalSettings field).any isArray = false
      rw [Setter.get?_apply_other happly]
      · exact harray
      · intro mark hmem hfield
        obtain ⟨key, rfl⟩ := mark_of_keyed hkeyed hmem hfield
        exact hmark ⟨key, hmem⟩
    · exact absurd ⟨key, by rw [hmarks]; exact mem_singleton_self _⟩ hmark

theorem Takes.not_touches (htakes : manager.Takes setter) (hkeyed : field ∈ keyedFields)
    (hget : (setter.marks.foldl markModified { manager with globalSettings }).modifiedNestedFields.get? field = some keys)
    {key : JsStr} (hkey : key ∉ keys) : ¬setter.Touches field key := by
  rintro ⟨mark, hmark, hfield, hnes⟩
  obtain ⟨nestedKey, rfl⟩ := mark_of_keyed hkeyed hmark hfield
  obtain rfl := hnes nestedKey rfl
  rcases get?_foldl_mark_setter hget with ⟨hbef, hempty⟩ | ⟨found, hfound, hmarks⟩
  · obtain rfl := hempty nestedKey hmark
    cases setter with
    | fields assignments =>
      obtain ⟨assignment, _, hsame⟩ := mem_map.mp hmark
      exact absurd (Prod.mk.inj hsame).2 nofun
    | nested assignment =>
      obtain ⟨entry, hentry, _, hlis⟩ := assignment.listed
      rw [← Option.some.inj (Prod.mk.inj (mem_singleton.mp hmark)).2] at hlis
      exact nestedFields_keys entry hentry hlis
    | extensionSetting extensionId key value =>
      obtain ⟨hname, hid⟩ := Prod.mk.inj (mem_singleton.mp hmark)
      rw [hname] at hbef
      exact absurd (hbef.symm.trans (htakes.2.2.1 (Option.some.inj hid).symm)) nofun
  · rw [hmarks] at hmark
    obtain ⟨_, hsame⟩ := Prod.mk.inj (mem_singleton.mp hmark)
    exact hkey (Option.some.inj hsame ▸ hfound)

theorem Takes.agrees (htakes : manager.Takes setter) (hmar : manager.Marked) (hsett : manager.capture.Settled)
    (happly : setter.apply manager.globalSettings = some globalSettings) {current : Option (Props Json)}
    (hagr : Agrees (migrateSettings (current.getD [])) manager.globalSettings) :
    Agrees (migrateSettings ((setter.marks.foldl markModified { manager with globalSettings }).capture.persist current))
      globalSettings := by
  have hper := (settled_apply hsett happly).persist current
  have hnextMarked := hmar.apply happly
  have hvalue : (setter.marks.foldl markModified { manager with globalSettings }).capture.snapshotSettings =
      globalSettings := globalSettings_foldl_mark _ _
  have hunm : ∀ field, field ∉ (setter.marks.foldl markModified { manager with globalSettings }).capture.modifiedFields →
      Props.get? globalSettings field = Props.get? manager.globalSettings field := by
    intro field hfield
    apply Setter.get?_apply_other happly
    intro mark hmark hsame
    exact hfield ((mem_modifiedFields_foldl_mark _ _).mpr (.inr ⟨mark, hmark, hsame⟩))
  constructor
  · intro field hkeyed
    rw [get?_migrateSettings hper, get?_persist]
    split_ifs with hfield
    · rw [fieldValue, nestedKeys_of_none, hvalue]
      by_contra hnes
      obtain ⟨keys, hkeys⟩ := Option.ne_none_iff_exists'.mp hnes
      exact hkeyed (hnextMarked field keys hkeys).1
    · rw [hunm field hfield]
      exact hagr.field field hkeyed
  · intro field hkeyed
    rw [get?_migrateSettings hper, get?_persist]
    split_ifs with hfield
    · unfold fieldValue
      split
      · next value keys hnes =>
        obtain ⟨hsnap, hbox, hkeys⟩ := nestedKeys_eq_some hnes
        obtain ⟨_, harray⟩ := hnextMarked field keys hkeys
        rw [globalSettings_foldl_mark] at harray
        rw [hvalue] at hsnap
        cases value with
        | object props =>
          refine .inr ⟨_, props, rfl, hsnap, fun key => ?_⟩
          rw [get?_mergeNested]
          split_ifs with hkey
          · rfl
          · have hsame := Setter.nestedValue_apply_other happly (htakes.not_touches hkeyed hkeys hkey)
            rw [← hagr.nestedValue] at hsame
            refine hsame.symm.trans ?_
            rw [nestedValue, hsnap]
            rfl
        | array items =>
          have hitems : (Props.get? globalSettings field).any isArray = false := harray
          rw [hsnap] at hitems
          cases hitems
        | null => cases hbox
        | bool _ => cases hbox
        | number _ => cases hbox
        | string _ => cases hbox
      · rw [hvalue]
        exact .inl rfl
    · rw [hunm field hfield]
      exact hagr.keyed field hkeyed

end SettingsManager

/-! ### Convergence -/

/-- Once the queue is written, the file is what memory has, which has what the setters were last given. -/
structure Owner.Converges (owner : Owner) : Prop where
  agrees : Agrees (migrateSettings ((replay owner.file owner.manager.writeQueue).getD [])) owner.manager.globalSettings
  marked : owner.manager.Marked
  settled : owner.manager.capture.Settled
  given : ∀ target value, lastGiven owner.calls target = some value →
    target.Proper ∧ valueOf owner.manager.globalSettings target = value

namespace Owner.Converges

variable {owner : Owner}

theorem initial (file : Option (Props Json)) : (Owner.initial file).Converges where
  agrees := .refl _
  marked := nofun
  settled := ⟨nofun, nofun, fun _ _ => nofun, rfl, nofun, nofun, nofun⟩
  given := nofun

variable (hconv : owner.Converges)

include hconv

theorem set {setter : Setter} (htakes : owner.manager.Takes setter) : (owner.set setter).Converges := by
  unfold Owner.set
  split
  · next globalSettings happly =>
    have hman : owner.manager.set setter =
        (setter.marks.foldl SettingsManager.markModified { owner.manager with globalSettings }).save := by
      rw [SettingsManager.set, happly]
    have hglob : (owner.manager.set setter).globalSettings = globalSettings := by
      rw [hman]
      exact SettingsManager.globalSettings_foldl_mark _ _
    refine ⟨?_, ?_, ?_, ?_⟩
    · show Agrees (migrateSettings ((replay owner.file (owner.manager.set setter).writeQueue).getD []))
        (owner.manager.set setter).globalSettings
      rw [hglob, hman]
      show Agrees (migrateSettings ((replay owner.file (SettingsManager.writeQueue _ ++ _)).getD [])) _
      rw [SettingsManager.writeQueue_foldl_mark, replay_append]
      exact htakes.agrees hconv.marked hconv.settled happly hconv.agrees
    · rw [hman]
      exact hconv.marked.apply happly
    · rw [hman]
      exact SettingsManager.settled_apply hconv.settled happly
    · intro target value hlast
      rw [lastGiven_append] at hlast
      show target.Proper ∧ valueOf (owner.manager.set setter).globalSettings target = value
      rw [hglob]
      cases hgives : setter.gives target with
      | some given =>
        rw [hgives] at hlast
        have hprop := Setter.proper_of_gives hgives
        refine ⟨hprop, ?_⟩
        rw [Setter.valueOf_apply happly hprop, hgives]
        exact Option.some.inj hlast
      | none =>
        rw [hgives] at hlast
        obtain ⟨hprop, hvalue⟩ := hconv.given target value hlast
        refine ⟨hprop, ?_⟩
        rw [Setter.valueOf_apply happly hprop, hgives]
        exact hvalue
  · exact hconv

theorem resume (hqueue : owner.manager.writeQueue = []) : owner.resume.Converges := by
  unfold Owner.resume
  split_ifs
  · have hagr := hconv.agrees
    rw [hqueue] at hagr
    refine ⟨?_, nofun, ⟨nofun, nofun, fun _ _ => nofun, rfl, nofun, nofun, nofun⟩, fun target value hlast => ?_⟩
    · show Agrees (migrateSettings ((replay owner.file owner.manager.writeQueue).getD [])) _
      rw [hqueue]
      exact .refl _
    · obtain ⟨hprop, hvalue⟩ := hconv.given target value hlast
      exact ⟨hprop, (hagr.valueOf hprop).trans hvalue⟩
  · exact hconv

theorem runTask : owner.runTask.Converges := by
  unfold Owner.runTask
  split
  · next task rest hqueue =>
    split_ifs
    · exact hconv
    · refine ⟨?_, nofun, ⟨nofun, nofun, fun _ _ => nofun, rfl, nofun, nofun, nofun⟩, hconv.given⟩
      have hagr := hconv.agrees
      rw [hqueue] at hagr
      exact hagr
  · exact hconv

theorem step {event : OwnerEvent} (hord : event.Orderly owner) : (ownerStep owner event).Converges := by
  cases event with
  | set setter => exact hconv.set hord
  | reload => exact { hconv with }
  | resume => exact hconv.resume hord
  | runTask => exact hconv.runTask
  | flush => exact hconv
  | setProjectTrusted trusted =>
    exact { hconv with }

end Owner.Converges

section Sample

/-- A setter between the call of `reload` and the load. -/
def undoneEvents : List OwnerEvent := [.reload, .set themeSetter, .resume, .runTask]

def retrySetter : Setter := .nested ⟨js "retry", js "enabled", .bool true, by decide +kernel⟩

/-- Setters of both kinds before `reload`, over a file in the old format. -/
def convergedEvents : List OwnerEvent :=
  [.set themeSetter, .set retrySetter, .reload, .runTask, .setProjectTrusted false, .runTask, .resume, .flush]

def oldFile : Option (Props Json) := some [(js "queueMode", .string (js "all"))]

end Sample

end PiRp.Settings
