import PiRp.JsonDecimal
import PiRp.Settings

/-! What a write makes of the settings in the file, field by field and key by key, and that the migration changes
nothing that a write of the setters has left. -/

namespace PiRp.Settings

open List Props

open JsonText (isDigit isDigit_decimal)

variable {settings other : Props Json} {field key : JsStr}

/-! ### Assignments -/

theorem get?_assign (props : Props Json) (key : JsStr) (value : Option Json) (other : JsStr) :
    get? (assign props key value) other = if key = other then value else get? props other := by
  unfold assign
  split
  · exact get?_delete props key other
  · exact get?_set props key other _

theorem get?_foldl_assign (value : JsStr → Option Json) (keys : List JsStr) (props : Props Json)
    (other : JsStr) : get? (keys.foldl (fun props key => assign props key (value key)) props) other =
      if other ∈ keys then value other else get? props other := by
  induction keys generalizing props with
  | nil => exact (if_neg not_mem_nil).symm
  | cons key keys ih =>
    rw [foldl_cons, ih, get?_assign]
    by_cases hkeys : other ∈ keys
    · rw [if_pos hkeys, if_pos (mem_cons_of_mem _ hkeys)]
    · rw [if_neg hkeys]
      by_cases hkey : key = other
      · rw [if_pos hkey, if_pos (mem_cons.mpr (.inl hkey.symm)), hkey]
      · rw [if_neg hkey, if_neg fun hmem => (mem_cons.mp hmem).elim (Ne.symm hkey) hkeys]

theorem get?_indexed (items : List Json) (hkey : ∃ unit ∈ key, isDigit unit = false) :
    get? (indexed items) key = none := by
  apply get?_eq_none
  intro entry hentry hsame
  obtain ⟨item, _, rfl⟩ := mem_map.mp hentry
  obtain ⟨unit, hunit, hlet⟩ := hkey
  rw [← hsame] at hunit
  exact absurd ((isDigit_decimal item.2 unit hunit).symm.trans hlet) nofun

theorem delete_of_absent (hkey : get? settings key = none) : delete settings key = settings := by
  have habs : ∀ entry ∈ settings, entry.1 ≠ key := by
    induction settings with
    | nil => exact fun entry hentry => absurd hentry not_mem_nil
    | cons first rest ih =>
      rw [get?] at hkey
      split_ifs at hkey with hfirst
      intro entry hentry
      rcases mem_cons.mp hentry with rfl | hrest
      · exact hfirst
      · exact ih hkey entry hrest
  exact filter_eq_self.mpr fun entry hentry => decide_eq_true (habs entry hentry)

/-! ### The effect of a write -/

namespace WriteTask

variable {task : WriteTask} {current : Option (Props Json)}

/-- What the task gives a field of the file, which had a value. -/
def fieldValue (task : WriteTask) (current : Props Json) (field : JsStr) : Option Json :=
  match task.nestedKeys field with
  | some (value, keys) => some (.object (mergeNested (get? current field) value keys))
  | none => get? task.snapshotSettings field

theorem mergeField_eq (task : WriteTask) (current merged : Props Json) (field : JsStr) :
    task.mergeField current merged field = assign merged field (task.fieldValue current field) := by
  unfold mergeField fieldValue
  cases task.nestedKeys field with
  | none => rfl
  | some pair => rfl

theorem get?_persist (task : WriteTask) (current : Option (Props Json)) (field : JsStr) :
    get? (task.persist current) field =
      if field ∈ task.modifiedFields then task.fieldValue (migrateSettings (current.getD [])) field
      else get? (migrateSettings (current.getD [])) field := by
  have hmerge : task.mergeField (migrateSettings (current.getD [])) =
      fun props key => assign props key (task.fieldValue (migrateSettings (current.getD [])) key) := by
    funext props key
    exact mergeField_eq task _ props key
  rw [persist, hmerge]
  exact get?_foldl_assign _ _ _ _

theorem get?_mergeNested (current : Option Json) (value : Json) (keys : List JsStr) (key : JsStr) :
    get? (mergeNested current value keys) key =
      if key ∈ keys then get? (spread value) key else get? (spread (current.getD .null)) key :=
  get?_foldl_assign _ _ _ _

/-- The field is marked as a whole, or what it has is not an object. -/
def Whole (task : WriteTask) (field : JsStr) : Prop :=
  field ∈ task.modifiedFields ∧ task.nestedKeys field = none

/-- The key of the field is marked, by itself or with the whole field. -/
def MarksKey (task : WriteTask) (field key : JsStr) : Prop :=
  field ∈ task.modifiedFields ∧ ∀ found ∈ task.nestedKeys field, key ∈ found.2

instance (task : WriteTask) (field key : JsStr) : Decidable (task.MarksKey field key) :=
  inferInstanceAs (Decidable (_ ∧ _))

end WriteTask

/-- `settings.field.key`. -/
def nestedValue (settings : Props Json) (field key : JsStr) : Option Json :=
  get? (spread ((get? settings field).getD .null)) key

namespace WriteTask

variable {task : WriteTask} {current : Option (Props Json)}

theorem get?_persist_whole (hwhole : task.Whole field) :
    get? (task.persist current) field = get? task.snapshotSettings field := by
  rw [get?_persist, if_pos hwhole.1, fieldValue, hwhole.2]

theorem get?_persist_unmarked (hfield : field ∉ task.modifiedFields) :
    get? (task.persist current) field = get? (migrateSettings (current.getD [])) field := by
  rw [get?_persist, if_neg hfield]

theorem nestedKeys_eq_some {value : Json} {keys : List JsStr} (hkeys : task.nestedKeys field = some (value, keys)) :
    get? task.snapshotSettings field = some value ∧ isContainer value = true ∧
      task.modifiedNestedFields.get? field = some keys := by
  unfold nestedKeys at hkeys
  split at hkeys
  · next found value' hfound hvalue =>
    split_ifs at hkeys with hbox
    obtain ⟨rfl, rfl⟩ := Prod.mk.inj (Option.some.inj hkeys)
    exact ⟨hvalue, hbox, hfound⟩
  · cases hkeys

theorem nestedValue_persist (task : WriteTask) (current : Option (Props Json)) (field key : JsStr) :
    nestedValue (task.persist current) field key =
      if task.MarksKey field key then nestedValue task.snapshotSettings field key
      else nestedValue (migrateSettings (current.getD [])) field key := by
  unfold nestedValue
  rw [get?_persist]
  by_cases hfield : field ∈ task.modifiedFields
  · rw [if_pos hfield, fieldValue]
    cases hnes : task.nestedKeys field with
    | none =>
      rw [if_pos ⟨hfield, by rw [hnes]; exact nofun⟩]
    | some pair =>
      obtain ⟨value, keys⟩ := pair
      obtain ⟨hvalue, _, _⟩ := nestedKeys_eq_some hnes
      show get? (mergeNested _ value keys) key = _
      rw [get?_mergeNested]
      by_cases hkey : key ∈ keys
      · rw [if_pos hkey, if_pos ⟨hfield, by rw [hnes]; rintro _ ⟨⟩; exact hkey⟩, hvalue]
        rfl
      · rw [if_neg hkey, if_neg fun hmarks => hkey (hmarks.2 _ hnes)]
  · rw [if_neg hfield, if_neg fun hmarks => hfield hmarks.1]

end WriteTask

/-! ### The migration -/

/-- There is nothing to migrate. -/
structure Migrated (settings : Props Json) : Prop where
  queueMode : get? settings (js "queueMode") ≠ none → get? settings (js "steeringMode") ≠ none
  websockets : ∀ value, get? settings (js "websockets") = some (.bool value) →
    get? settings (js "transport") ≠ none
  skills : ∀ props, get? settings (js "skills") ≠ some (.object props)
  retry : ∀ props, get? settings (js "retry") = some (.object props) →
    get? props (js "maxDelayMs") = none

section

variable (settings)

theorem migrateQueueMode_spec : (get? (migrateQueueMode settings) (js "queueMode") ≠ none →
      get? (migrateQueueMode settings) (js "steeringMode") ≠ none) ∧
    ∀ other, other ≠ js "queueMode" → other ≠ js "steeringMode" →
      get? (migrateQueueMode settings) other = get? settings other := by
  unfold migrateQueueMode
  split
  · next queueMode hqueue hsteer =>
    refine ⟨fun hpres => ?_, fun other hother hother' => ?_⟩
    · rw [get?_delete, if_pos rfl] at hpres
      exact absurd rfl hpres
    · rw [get?_delete, get?_set, if_neg (Ne.symm hother), if_neg (Ne.symm hother')]
  · next hnot =>
    refine ⟨fun hpres habs => ?_, fun _ _ _ => rfl⟩
    obtain ⟨queueMode, hqueue⟩ := Option.ne_none_iff_exists'.mp hpres
    exact hnot queueMode hqueue habs

theorem migrateWebsockets_spec : (∀ value, get? (migrateWebsockets settings) (js "websockets") = some (.bool value) →
      get? (migrateWebsockets settings) (js "transport") ≠ none) ∧
    ∀ other, other ≠ js "websockets" → other ≠ js "transport" →
      get? (migrateWebsockets settings) other = get? settings other := by
  unfold migrateWebsockets
  split
  · next websockets htrans hweb =>
    refine ⟨fun value hpres => ?_, fun other hother hother' => ?_⟩
    · rw [get?_delete, if_pos rfl] at hpres
      exact absurd hpres nofun
    · rw [get?_delete, get?_set, if_neg (Ne.symm hother), if_neg (Ne.symm hother')]
  · next hnot => exact ⟨fun value hpres habs => hnot value habs hpres, fun _ _ _ => rfl⟩

theorem migrateSkills_spec : (∀ props, get? (migrateSkills settings) (js "skills") ≠ some (.object props)) ∧
    ∀ other, other ≠ js "skills" → other ≠ js "enableSkillCommands" →
      get? (migrateSkills settings) other = get? settings other := by
  have henab : ∀ skills other, other ≠ js "enableSkillCommands" →
      get? (migrateEnableSkillCommands settings skills) other = get? settings other := by
    intro skills other hother
    unfold migrateEnableSkillCommands
    split
    · rw [get?_set, if_neg (Ne.symm hother)]
    · rfl
  unfold migrateSkills
  split
  · next skills hskil =>
    dsimp only
    split
    · refine ⟨fun props => ?_, fun other hother hother' => ?_⟩
      · rw [get?_set, if_pos rfl]
        exact nofun
      · rw [get?_set, if_neg (Ne.symm hother), henab skills other hother']
    · refine ⟨fun props => ?_, fun other hother hother' => ?_⟩
      · rw [get?_delete, if_pos rfl]
        exact nofun
      · rw [get?_delete, if_neg (Ne.symm hother), henab skills other hother']
  · next hnot => exact ⟨hnot, fun _ _ _ => rfl⟩

theorem migrateRetry_spec : (∀ props, get? (migrateRetry settings) (js "retry") = some (.object props) →
      get? props (js "maxDelayMs") = none) ∧
    ∀ other, other ≠ js "retry" → get? (migrateRetry settings) other = get? settings other := by
  unfold migrateRetry
  split
  · next retry hretry =>
    refine ⟨fun props hprops => ?_, fun other hother => ?_⟩
    · rw [get?_set, if_pos rfl, Option.some.injEq, Json.object.injEq] at hprops
      rw [← hprops, migrateMaxDelay, get?_delete, if_pos rfl]
    · rw [get?_set, if_neg (Ne.symm hother)]
  · next hnot => exact ⟨fun props hprops => absurd hprops (hnot props), fun _ _ => rfl⟩

theorem migrated_migrateSettings : Migrated (migrateSettings settings) := by
  obtain ⟨hqueue, hqueueOther⟩ := migrateQueueMode_spec settings
  obtain ⟨hsoc, hsocketsOther⟩ := migrateWebsockets_spec (migrateQueueMode settings)
  obtain ⟨hskil, hskillsOther⟩ := migrateSkills_spec (migrateWebsockets (migrateQueueMode settings))
  obtain ⟨hretry, hretryOther⟩ := migrateRetry_spec (migrateSkills (migrateWebsockets (migrateQueueMode settings)))
  unfold migrateSettings
  refine ⟨?_, ?_, ?_, hretry⟩
  · rw [hretryOther _ (by decide), hretryOther _ (by decide), hskillsOther _ (by decide) (by decide),
      hskillsOther _ (by decide) (by decide), hsocketsOther _ (by decide) (by decide),
      hsocketsOther _ (by decide) (by decide)]
    exact hqueue
  · intro value
    rw [hretryOther _ (by decide), hretryOther _ (by decide), hskillsOther _ (by decide) (by decide),
      hskillsOther _ (by decide) (by decide)]
    exact hsoc value
  · intro props
    rw [hretryOther _ (by decide)]
    exact hskil props

end

theorem get?_migrateSettings (hmig : Migrated settings) (field : JsStr) :
    get? (migrateSettings settings) field = get? settings field := by
  have hqueue : migrateQueueMode settings = settings := by
    unfold migrateQueueMode
    split
    · next queueMode hqueue hsteer =>
      exact absurd hsteer (hmig.queueMode (by rw [hqueue]; exact nofun))
    · rfl
  have hsoc : migrateWebsockets settings = settings := by
    unfold migrateWebsockets
    split
    · next websockets htrans hweb => exact absurd htrans (hmig.websockets _ hweb)
    · rfl
  have hskil : migrateSkills settings = settings := by
    unfold migrateSkills
    split
    · next skills hskil => exact absurd hskil (hmig.skills skills)
    · rfl
  rw [migrateSettings, hqueue, hsoc, hskil]
  unfold migrateRetry
  split
  · next retry hretry =>
    have habs := hmig.retry retry hretry
    have hsame : migrateMaxDelay retry = retry := by
      unfold migrateMaxDelay
      rw [habs]
      exact delete_of_absent habs
    rw [hsame, get?_set]
    split_ifs with hfield
    · rw [← hfield, hretry]
    · rfl
  · rfl

/-! ### Writes of the setters -/

/-- The marks and values are such as the setters leave: the migration finds nothing to do in what is marked. -/
structure WriteTask.Settled (task : WriteTask) : Prop where
  queueMode : js "queueMode" ∉ task.modifiedFields
  websockets : js "websockets" ∉ task.modifiedFields
  present : ∀ field, field = js "steeringMode" ∨ field = js "transport" → field ∈ task.modifiedFields →
    get? task.snapshotSettings field ≠ none
  nestedSkills : task.modifiedNestedFields.get? (js "skills") = none
  skills : js "skills" ∈ task.modifiedFields →
    ∀ props, get? task.snapshotSettings (js "skills") ≠ some (.object props)
  nestedRetry : ∀ keys, task.modifiedNestedFields.get? (js "retry") = some keys → js "maxDelayMs" ∉ keys
  retry : js "retry" ∈ task.modifiedFields → task.modifiedNestedFields.get? (js "retry") ≠ none

namespace WriteTask

variable {task : WriteTask} {current : Option (Props Json)}

theorem nestedKeys_of_none (hnone : task.modifiedNestedFields.get? field = none) : task.nestedKeys field = none := by
  unfold nestedKeys
  rw [hnone]

theorem fieldValue_ne_none {base : Props Json} (hpres : get? task.snapshotSettings field ≠ none) :
    task.fieldValue base field ≠ none := by
  unfold fieldValue
  split
  · exact nofun
  · exact hpres

theorem get?_maxDelayMs_spread (hretry : ∀ props, get? settings (js "retry") = some (.object props) →
      get? props (js "maxDelayMs") = none) :
    get? (spread ((get? settings (js "retry")).getD .null)) (js "maxDelayMs") = none := by
  have hlet : ∃ unit ∈ js "maxDelayMs", isDigit unit = false := by decide
  cases hvalue : get? settings (js "retry") with
  | none => rfl
  | some value =>
    cases value with
    | object props => exact hretry props hvalue
    | array items => exact get?_indexed items hlet
    | string value => exact get?_indexed _ hlet
    | null => rfl
    | bool value => rfl
    | number value => rfl

theorem Settled.persist (hsett : task.Settled) (current : Option (Props Json)) : Migrated (task.persist current) := by
  have hbase := migrated_migrateSettings (current.getD [])
  have hkept : ∀ field, field = js "steeringMode" ∨ field = js "transport" →
      get? (migrateSettings (current.getD [])) field ≠ none →
      get? (task.persist current) field ≠ none := by
    intro field hfield hbef
    rw [get?_persist]
    split_ifs with hmar
    · exact fieldValue_ne_none (hsett.present field hfield hmar)
    · exact hbef
  refine ⟨?_, ?_, fun props => ?_, fun props => ?_⟩
  · rw [get?_persist_unmarked hsett.queueMode]
    exact fun hqueue => hkept _ (.inl rfl) (hbase.queueMode hqueue)
  · intro value
    rw [get?_persist_unmarked hsett.websockets]
    exact fun hsoc => hkept _ (.inr rfl) (hbase.websockets value hsoc)
  · rw [get?_persist]
    split_ifs with hmar
    · rw [fieldValue, nestedKeys_of_none hsett.nestedSkills]
      exact hsett.skills hmar props
    · exact hbase.skills props
  · rw [get?_persist]
    split_ifs with hmar
    · obtain ⟨keys, hkeys⟩ := Option.ne_none_iff_exists'.mp (hsett.retry hmar)
      have hdelay := hsett.nestedRetry keys hkeys
      unfold fieldValue
      split
      · next value found hfound =>
        intro hprops
        rw [Option.some.injEq, Json.object.injEq] at hprops
        obtain ⟨_, _, hsame⟩ := nestedKeys_eq_some hfound
        obtain rfl := Option.some.inj (hkeys.symm.trans hsame)
        rw [← hprops, get?_mergeNested, if_neg hdelay]
        exact get?_maxDelayMs_spread hbase.retry
      · next hnone =>
        intro hprops
        unfold nestedKeys at hnone
        rw [hkeys, hprops] at hnone
        exact absurd hnone nofun
    · exact hbase.retry props

end WriteTask

namespace SettingsManager

variable {manager : SettingsManager}

/-- What `save` captures. -/
def capture (manager : SettingsManager) : WriteTask :=
  ⟨manager.globalSettings, manager.modifiedFields, manager.modifiedNestedFields⟩

theorem mem_addTo {items : List JsStr} {item found : JsStr} :
    found ∈ addTo items item ↔ found ∈ items ∨ found = item := by
  unfold addTo
  split_ifs with hitem
  · exact ⟨.inl, fun hfound => hfound.elim id fun hsame => hsame ▸ hitem⟩
  · rw [mem_append, mem_singleton]

@[simp] theorem globalSettings_foldl_mark (marks : List (JsStr × Option JsStr)) (manager : SettingsManager) :
    (marks.foldl markModified manager).globalSettings = manager.globalSettings := by
  induction marks generalizing manager with
  | nil => rfl
  | cons mark marks ih => exact ih (manager.markModified mark)

@[simp] theorem writeQueue_foldl_mark (marks : List (JsStr × Option JsStr)) (manager : SettingsManager) :
    (marks.foldl markModified manager).writeQueue = manager.writeQueue := by
  induction marks generalizing manager with
  | nil => rfl
  | cons mark marks ih => exact ih (manager.markModified mark)

theorem mem_modifiedFields_foldl_mark (marks : List (JsStr × Option JsStr)) (manager : SettingsManager) :
    field ∈ (marks.foldl markModified manager).modifiedFields ↔
      field ∈ manager.modifiedFields ∨ ∃ mark ∈ marks, mark.1 = field := by
  induction marks generalizing manager with
  | nil => simp
  | cons mark marks ih =>
    rw [foldl_cons, ih]
    show field ∈ addTo manager.modifiedFields mark.1 ∨ _ ↔ _
    rw [mem_addTo, or_assoc]
    refine or_congr_right ⟨?_, ?_⟩
    · rintro (rfl | ⟨other, hother, rfl⟩)
      · exact ⟨mark, mem_cons_self, rfl⟩
      · exact ⟨other, mem_cons_of_mem _ hother, rfl⟩
    · rintro ⟨other, hother, rfl⟩
      rcases mem_cons.mp hother with rfl | hrest
      · exact .inl rfl
      · exact .inr ⟨other, hrest, rfl⟩

theorem modifiedNestedFields_foldl_mark (fields : List JsStr) (manager : SettingsManager) :
    ((fields.map fun field => (field, none)).foldl markModified manager).modifiedNestedFields =
      manager.modifiedNestedFields := by
  induction fields generalizing manager with
  | nil => rfl
  | cons field fields ih => exact ih (manager.markModified (field, none))

end SettingsManager

theorem get?_foldl_assignments (assignments : List FieldAssignment) (settings : Props Json) (field : JsStr) :
    (∃ assignment ∈ assignments, assignment.field = field ∧
      get? (assignments.foldl (fun settings assignment => assign settings assignment.field assignment.value)
        settings) field = assignment.value) ∨ (∀ assignment ∈ assignments, assignment.field ≠ field) ∧
      get? (assignments.foldl (fun settings assignment => assign settings assignment.field assignment.value)
        settings) field = get? settings field := by
  induction assignments generalizing settings with
  | nil => exact .inr ⟨fun _ hmem => absurd hmem not_mem_nil, rfl⟩
  | cons first rest ih =>
    rcases ih (assign settings first.field first.value) with ⟨assignment, hmem, hfield, hget⟩ | ⟨hrest, hget⟩
    · exact .inl ⟨assignment, mem_cons_of_mem _ hmem, hfield, hget⟩
    · rw [get?_assign] at hget
      by_cases hfirst : first.field = field
      · rw [if_pos hfirst] at hget
        exact .inl ⟨first, mem_cons_self, hfirst, hget⟩
      · rw [if_neg hfirst] at hget
        refine .inr ⟨fun assignment hmem => ?_, hget⟩
        rcases mem_cons.mp hmem with rfl | hmem
        · exact hfirst
        · exact hrest assignment hmem

namespace FieldAssignment

variable (assignment : FieldAssignment)

theorem mem_topLevelFields : assignment.field ∈ topLevelFields := by
  have hacc := assignment.accepted
  unfold accepts at hacc
  rw [Bool.and_eq_true, decide_eq_true_eq] at hacc
  exact hacc.1

theorem value_ne_none (hfield : assignment.field = js "steeringMode" ∨ assignment.field = js "transport") :
    assignment.value ≠ none := by
  have hacc := assignment.accepted
  unfold accepts at hacc
  rw [Bool.and_eq_true, if_pos (by simpa using hfield)] at hacc
  exact Option.isSome_iff_ne_none.mp hacc.2

theorem value_ne_object (hfield : assignment.field = js "skills") (props : Props Json) :
    assignment.value ≠ some (.object props) := by
  have hacc := assignment.accepted
  unfold accepts at hacc
  rw [Bool.and_eq_true, hfield, if_neg (by decide), if_pos rfl] at hacc
  intro hvalue
  rw [hvalue] at hacc
  exact absurd hacc.2 nofun

end FieldAssignment

namespace SettingsManager

variable {manager : SettingsManager}

variable (hsett : manager.capture.Settled)

include hsett

theorem settled_fields (assignments : List FieldAssignment) :
    (((Setter.fields assignments).marks.foldl markModified { manager with
      globalSettings := assignments.foldl
        (fun settings assignment => assign settings assignment.field assignment.value)
        manager.globalSettings }).capture).Settled := by
  have hmem : ∀ field, field ∈ ((Setter.fields assignments).marks.foldl markModified { manager with
      globalSettings := assignments.foldl
        (fun settings assignment => assign settings assignment.field assignment.value)
        manager.globalSettings }).modifiedFields ↔
      field ∈ manager.modifiedFields ∨ ∃ assignment ∈ assignments, assignment.field = field := by
    intro field
    rw [mem_modifiedFields_foldl_mark, Setter.marks]
    simp only [mem_map, exists_exists_and_eq_and]
  have hnes : ((Setter.fields assignments).marks.foldl markModified { manager with
      globalSettings := assignments.foldl
        (fun settings assignment => assign settings assignment.field assignment.value)
        manager.globalSettings }).modifiedNestedFields = manager.modifiedNestedFields := by
    have hmarks : (Setter.fields assignments).marks =
        (assignments.map FieldAssignment.field).map fun field => (field, none) := by
      rw [map_map]
      rfl
    rw [hmarks, modifiedNestedFields_foldl_mark]
  have hunl : ∀ field, field ∉ topLevelFields →
      (field ∈ manager.modifiedFields ∨ ∃ assignment ∈ assignments, assignment.field = field) →
      field ∈ manager.modifiedFields := by
    rintro field hfield (hold | ⟨assignment, _, rfl⟩)
    · exact hold
    · exact absurd assignment.mem_topLevelFields hfield
  refine ⟨?_, ?_, fun field hfield hmar => ?_, ?_, fun hmar props => ?_, ?_, fun hmar => ?_⟩
  · exact fun hmar => hsett.queueMode (hunl _ (by decide) ((hmem _).mp hmar))
  · exact fun hmar => hsett.websockets (hunl _ (by decide) ((hmem _).mp hmar))
  · show get? (SettingsManager.globalSettings _) field ≠ none
    rw [globalSettings_foldl_mark]
    rcases get?_foldl_assignments assignments manager.globalSettings field with
      ⟨assignment, _, rfl, hget⟩ | ⟨hnone, hget⟩
    · rw [hget]
      exact assignment.value_ne_none hfield
    · rw [hget]
      rcases (hmem field).mp hmar with hold | ⟨assignment, hassig, hsame⟩
      · exact hsett.present field hfield hold
      · exact absurd hsame (hnone assignment hassig)
  · show (SettingsManager.modifiedNestedFields _).get? _ = none
    rw [hnes]
    exact hsett.nestedSkills
  · show get? (SettingsManager.globalSettings _) _ ≠ _
    rw [globalSettings_foldl_mark]
    rcases get?_foldl_assignments assignments manager.globalSettings (js "skills") with
      ⟨assignment, _, hfield, hget⟩ | ⟨hnone, hget⟩
    · rw [hget]
      exact assignment.value_ne_object hfield props
    · rw [hget]
      rcases (hmem _).mp hmar with hold | ⟨assignment, hassig, hsame⟩
      · exact hsett.skills hold props
      · exact absurd hsame (hnone assignment hassig)
  · show ∀ keys, (SettingsManager.modifiedNestedFields _).get? _ = some keys → _
    rw [hnes]
    exact hsett.nestedRetry
  · show (SettingsManager.modifiedNestedFields _).get? _ ≠ none
    rw [hnes]
    exact hsett.retry (hunl _ (by decide) ((hmem _).mp hmar))

theorem settled_nested {field key : JsStr} {globalSettings : Props Json}
    (hother : ∀ other, other ≠ field → get? globalSettings other = get? manager.globalSettings other)
    (hfield : field ∉ [js "queueMode", js "websockets", js "steeringMode", js "transport", js "skills"])
    (hkey : field = js "retry" → key ≠ js "maxDelayMs" ∧ key ≠ []) :
    ({ manager with globalSettings }.markModified (field, some key)).capture.Settled := by
  have hne : ∀ name ∈ [js "queueMode", js "websockets", js "steeringMode", js "transport", js "skills"],
      name ≠ field := by
    rintro name hname rfl
    exact hfield hname
  have hmem : ∀ name, name ∈ ({ manager with globalSettings }.markModified (field, some key)).modifiedFields ↔
      name ∈ manager.modifiedFields ∨ name = field := fun name => mem_addTo
  have hnes : ∀ name, name ≠ field →
      ({ manager with globalSettings }.markModified (field, some key)).modifiedNestedFields.get? name =
        manager.modifiedNestedFields.get? name := by
    intro name hname
    unfold markModified
    dsimp only
    split_ifs
    · rfl
    · rw [JsMap.get?_set, if_neg hname]
  have hold : ∀ name ∈ [js "queueMode", js "websockets", js "steeringMode", js "transport", js "skills"],
      name ∈ ({ manager with globalSettings }.markModified (field, some key)).modifiedFields →
      name ∈ manager.modifiedFields := fun name hname hmar => ((hmem name).mp hmar).resolve_right (hne name hname)
  refine ⟨fun hmar => hsett.queueMode (hold _ (by simp) hmar),
    fun hmar => hsett.websockets (hold _ (by simp) hmar), fun name hname hmar => ?_, ?_,
    fun hmar props => ?_, fun keys hkeys => ?_, fun hmar => ?_⟩
  · have hlis : name ∈ [js "queueMode", js "websockets", js "steeringMode", js "transport", js "skills"] := by
      rcases hname with rfl | rfl
      · simp
      · simp
    show get? globalSettings name ≠ none
    rw [hother name (hne name hlis)]
    exact hsett.present name hname (hold name hlis hmar)
  · exact (hnes _ (hne _ (by simp))).trans hsett.nestedSkills
  · show get? globalSettings _ ≠ _
    rw [hother _ (hne _ (by simp))]
    exact hsett.skills (hold _ (by simp) hmar) props
  · have hget : ({ manager with globalSettings }.markModified (field, some key)).modifiedNestedFields.get?
        (js "retry") = some keys := hkeys
    by_cases hretry : field = js "retry"
    · unfold markModified at hget
      dsimp only at hget
      rw [if_neg (hkey hretry).2, JsMap.get?_set, if_pos hretry.symm, Option.some.injEq] at hget
      rw [← hget, mem_addTo, not_or]
      refine ⟨?_, (hkey hretry).1.symm⟩
      cases hbef : manager.modifiedNestedFields.get? field with
      | none => exact not_mem_nil
      | some before => exact hsett.nestedRetry before (hretry ▸ hbef)
    · rw [hnes _ (Ne.symm hretry)] at hget
      exact hsett.nestedRetry keys hget
  · show ({ manager with globalSettings }.markModified (field, some key)).modifiedNestedFields.get? _ ≠ none
    by_cases hretry : field = js "retry"
    · unfold markModified
      dsimp only
      rw [if_neg (hkey hretry).2, JsMap.get?_set, if_pos hretry.symm]
      rintro ⟨⟩
    · rw [hnes _ (Ne.symm hretry)]
      exact hsett.retry (((hmem _).mp hmar).resolve_right (Ne.symm hretry))

omit hsett in
theorem assignNested_spec {settings assigned : Props Json} {field key : JsStr} {value : Json}
    (hass : assignNested settings field key value = some assigned) :
    ∃ props, openObject (get? settings field) = some props ∧
      assigned = Props.set settings field (.object (Props.set props key value)) := by
  obtain ⟨props, hprops, rfl⟩ := Option.map_eq_some_iff.mp hass
  exact ⟨props, hprops, rfl⟩

omit hsett in
theorem get?_assignExtensionSetting {settings assigned : Props Json} {extensionId key other : JsStr}
    {value : Option Json} (hass : assignExtensionSetting settings extensionId key value = some assigned)
    (hother : other ≠ js "extensionSettings") : get? assigned other = get? settings other := by
  unfold assignExtensionSetting at hass
  split at hass
  · split_ifs at hass
    rw [Option.some.inj hass]
  · obtain ⟨extensions, _, hass⟩ := Option.bind_eq_some_iff.mp hass
    obtain ⟨next, _, rfl⟩ := Option.map_eq_some_iff.mp hass
    rw [get?_set, if_neg (Ne.symm hother)]

theorem settled_apply {setter : Setter} {globalSettings : Props Json}
    (happly : setter.apply manager.globalSettings = some globalSettings) :
    (setter.marks.foldl markModified { manager with globalSettings }).capture.Settled := by
  cases setter with
  | fields assignments =>
    obtain rfl := Option.some.inj happly
    exact settled_fields hsett assignments
  | nested assignment =>
    have hlis : ∀ entry ∈ nestedFields,
        entry.1 ∉ [js "queueMode", js "websockets", js "steeringMode", js "transport", js "skills"] ∧
          (entry.1 = js "retry" → js "maxDelayMs" ∉ entry.2 ∧ [] ∉ entry.2) := by decide +kernel
    obtain ⟨entry, hentry, hfield, hkey⟩ := assignment.listed
    obtain ⟨hunm, hretryKeys⟩ := hlis entry hentry
    obtain ⟨props, _, rfl⟩ := assignNested_spec happly
    refine settled_nested hsett (fun other hother => ?_) ?_ (fun hretry => ?_)
    · rw [get?_set, if_neg (Ne.symm hother)]
    · rw [← hfield]
      exact hunm
    · obtain ⟨hdelay, hempty⟩ := hretryKeys (hfield.trans hretry)
      exact ⟨fun hsame => hdelay (hsame ▸ hkey), fun hsame => hempty (hsame ▸ hkey)⟩
  | extensionSetting extensionId key value =>
    refine settled_nested hsett (fun other hother => ?_) (by decide) (fun hretry => ?_)
    · exact get?_assignExtensionSetting happly hother
    · exact absurd hretry (by decide)

end SettingsManager

end PiRp.Settings
