import PiRp.JsObject
import PiRp.SettingsMerge

/-! What the setters of the settings are for, and the values that calls of them give: a call changes the fields and
keys that it marks, and leaves every other value as it is. -/

namespace PiRp.Settings

open List Option Props SettingsManager

/-- The fields of which setters change single keys. -/
def keyedFields : List JsStr := js "extensionSettings" :: nestedFields.map Prod.fst

theorem topLevelFields_not_keyed : ∀ field ∈ topLevelFields, field ∉ keyedFields := by decide +kernel

theorem extensionSettings_not_nested : ∀ entry ∈ nestedFields, entry.1 ≠ js "extensionSettings" := by decide +kernel

theorem nestedFields_keyed : ∀ entry ∈ nestedFields, entry.1 ∈ keyedFields := by decide +kernel

theorem nestedFields_keys : ∀ entry ∈ nestedFields, [] ∉ entry.2 := by decide +kernel

/-! ### What a setter gives -/

/-- What a setter is for. -/
inductive Target where
  | field (field : JsStr)
  | key (field key : JsStr)
  | extension (extensionId key : JsStr)

def valueOf (settings : Props Json) : Target → Option Json
  | .field field => get? settings field
  | .key field key => nestedValue settings field key
  | .extension extensionId key =>
    get? (spread ((nestedValue settings (js "extensionSettings") extensionId).getD .null)) key

/-- The value that the fields are given in this order. -/
def lastAssigned (assignments : List FieldAssignment) (field : JsStr) : Option (Option Json) :=
  assignments.foldl (fun found assignment => if assignment.field = field then some assignment.value else found) none

/-- The value that a call gives the target. -/
def Setter.gives : Setter → Target → Option (Option Json)
  | .fields assignments, .field field => lastAssigned assignments field
  | .nested assignment, .key field key =>
    if assignment.field = field ∧ assignment.key = key then some (some assignment.value) else none
  | .extensionSetting extensionId key value, .extension extensionId' key' =>
    if extensionId = extensionId' ∧ key = key' then some value else none
  | _, _ => none

/-- The value that the last of the calls for the target has given it. -/
def lastGiven (calls : List Setter) (target : Target) : Option (Option Json) :=
  calls.foldl (fun found setter => (setter.gives target).or found) none

theorem lastGiven_append (calls : List Setter) (setter : Setter) (target : Target) :
    lastGiven (calls ++ [setter]) target = (setter.gives target).or (lastGiven calls target) := by
  rw [lastGiven, foldl_append]
  rfl

/-- There is a setter for the target. -/
def Target.Proper : Target → Prop
  | .field name => name ∉ keyedFields
  | .key name _ => name ∈ keyedFields ∧ name ≠ js "extensionSettings"
  | .extension _ _ => True

theorem get?_foldl_lastAssigned (assignments : List FieldAssignment) (settings : Props Json) (field : JsStr) :
    get? (assignments.foldl (fun settings assignment => assign settings assignment.field assignment.value)
      settings) field = (lastAssigned assignments field).getD (get? settings field) := by
  induction assignments using List.reverseRecOn with
  | nil => rfl
  | append_singleton assignments last ih =>
    rw [lastAssigned, foldl_append, foldl_append]
    show get? (assign _ last.field last.value) field =
      (if last.field = field then some last.value else lastAssigned assignments field).getD _
    rw [get?_assign, ih]
    split_ifs
    · rfl
    · rfl

theorem lastAssigned_isSome {assignments : List FieldAssignment} {field : JsStr} {value : Option Json}
    (hlast : lastAssigned assignments field = some value) : ∃ assignment ∈ assignments, assignment.field = field := by
  induction assignments using List.reverseRecOn with
  | nil => exact absurd hlast nofun
  | append_singleton assignments last ih =>
    rw [lastAssigned, foldl_append] at hlast
    by_cases hfield : last.field = field
    · exact ⟨last, by simp, hfield⟩
    · have hbef : lastAssigned assignments field = some value := (if_neg hfield).symm.trans hlast
      obtain ⟨assignment, hmem, hsame⟩ := ih hbef
      exact ⟨assignment, mem_append_left _ hmem, hsame⟩

theorem Setter.proper_of_gives {setter : Setter} {target : Target} {value : Option Json}
    (hgives : setter.gives target = some value) : target.Proper := by
  cases setter with
  | fields assignments =>
    cases target with
    | field field =>
      obtain ⟨assignment, _, rfl⟩ := lastAssigned_isSome hgives
      show assignment.field ∉ keyedFields
      exact topLevelFields_not_keyed _ assignment.mem_topLevelFields
    | key _ _ => exact absurd hgives nofun
    | extension _ _ => exact absurd hgives nofun
  | nested assignment =>
    cases target with
    | field _ => exact absurd hgives nofun
    | key field key =>
      unfold Setter.gives at hgives
      dsimp only at hgives
      split_ifs at hgives with hsame
      obtain ⟨entry, hentry, hfield, _⟩ := assignment.listed
      rw [← hsame.1, ← hfield]
      exact ⟨nestedFields_keyed entry hentry, extensionSettings_not_nested entry hentry⟩
    | extension _ _ => exact absurd hgives nofun
  | extensionSetting _ _ _ =>
    cases target with
    | field _ => exact absurd hgives nofun
    | key _ _ => exact absurd hgives nofun
    | extension _ _ => exact True.intro

/-! ### The effect of a call -/

section Effect

variable {settings next : Props Json} {field key other extensionId : JsStr} {value : Option Json}

theorem nestedValue_set (settings : Props Json) (field key : JsStr) (props : Props Json) :
    nestedValue (Props.set settings field (.object props)) field key = get? props key := by
  rw [nestedValue, get?_set, if_pos rfl]
  rfl

theorem get?_openObject {props : Props Json} (hopen : openObject value = some props) (key : JsStr) :
    get? props key = get? (spread (value.getD .null)) key := by
  cases value with
  | none =>
    obtain rfl := Option.some.inj hopen
    rfl
  | some found =>
    unfold openObject at hopen
    dsimp only at hopen
    split_ifs at hopen with hfalsy
    · obtain rfl := Option.some.inj hopen
      cases found with
      | null => rfl
      | bool _ => rfl
      | number _ => rfl
      | string units =>
        have hempty : units = [] := of_decide_eq_true hfalsy
        rw [hempty]
        rfl
      | array _ => exact absurd hfalsy nofun
      | object _ => exact absurd hfalsy nofun
    · obtain rfl := Option.some.inj hopen
      rfl

theorem nestedValue_assignNested {value : Json} (hass : assignNested settings field key value = some next)
    (other : JsStr) :
    nestedValue next field other = if key = other then some value else nestedValue settings field other := by
  obtain ⟨props, hopen, rfl⟩ := assignNested_spec hass
  rw [nestedValue_set, get?_set, get?_openObject hopen]
  rfl

theorem get?_deleteExtension {extensions assigned : Props Json}
    (hdel : deleteExtension extensions extensionId key = some assigned) :
    (∀ other, other ≠ extensionId → get? assigned other = get? extensions other) ∧
    ∀ other, get? (spread ((get? assigned extensionId).getD .null)) other =
      if key = other then none else get? (spread ((get? extensions extensionId).getD .null)) other := by
  unfold deleteExtension at hdel
  split at hdel
  · next unit units hstr =>
    split_ifs at hdel with hkey
    obtain rfl := Option.some.inj hdel
    refine ⟨fun _ _ => rfl, fun other => ?_⟩
    by_cases hother : key = other
    · rw [if_pos hother, ← hother, hstr]
      rw [Bool.or_eq_true, not_or] at hkey
      exact not_isSome_iff_eq_none.mp hkey.2
    · rw [if_neg hother]
  · obtain rfl := Option.some.inj hdel
    constructor
    · intro other hother
      split_ifs
      · rw [get?_delete, if_neg (Ne.symm hother)]
      · rw [get?_set, if_neg (Ne.symm hother)]
    · intro other
      rw [← get?_delete]
      split_ifs with hleft
      · rw [hleft, get?_delete, if_pos rfl]
        rfl
      · rw [get?_set, if_pos rfl]
        rfl

theorem get?_assignExtension {extensions assigned : Props Json}
    (hass : assignExtension extensions extensionId key value = some assigned) :
    (∀ other, other ≠ extensionId → get? assigned other = get? extensions other) ∧
    ∀ other, get? (spread ((get? assigned extensionId).getD .null)) other =
      if key = other then value else get? (spread ((get? extensions extensionId).getD .null)) other := by
  cases value with
  | none => exact get?_deleteExtension hass
  | some value =>
    obtain ⟨ns, hopen, rfl⟩ := map_eq_some_iff.mp hass
    constructor
    · intro other hother
      rw [get?_set, if_neg (Ne.symm hother)]
    · intro other
      rw [get?_set, if_pos rfl]
      show get? (Props.set ns key value) other = _
      rw [get?_set, get?_openObject hopen]

theorem absent_of_unit {text : JsStr} (hzero : key ≠ js "0") :
    get? (spread ((get? (spread (.string text)) extensionId).getD .null)) key = none := by
  cases hunit : get? (spread (.string text)) extensionId with
  | none => rfl
  | some unit =>
    obtain ⟨item, hitem, hsame⟩ := mem_map.mp (mem_of_get? hunit)
    obtain ⟨code, _, hcode⟩ := mem_map.mp (fst_mem_of_mem_zipIdx hitem)
    obtain rfl : unit = .string [code] := (Prod.mk.inj hsame).2.symm.trans hcode.symm
    have hdec : decimal 0 = js "0" := by decide
    show (if decimal 0 = key then some _ else none) = none
    rw [hdec, if_neg (Ne.symm hzero)]

theorem get?_assignExtensionSetting_extension
    (hass : assignExtensionSetting settings extensionId key value = some next) :
    (∀ other, other ≠ extensionId → nestedValue next (js "extensionSettings") other =
      nestedValue settings (js "extensionSettings") other) ∧ ∀ other, valueOf next (.extension extensionId other) =
      if key = other then value else valueOf settings (.extension extensionId other) := by
  unfold assignExtensionSetting at hass
  split at hass
  · next unit units hstr =>
    split_ifs at hass with hpas
    obtain rfl := Option.some.inj hass
    refine ⟨fun _ _ => rfl, fun other => ?_⟩
    by_cases hother : key = other
    · subst hother
      rw [if_pos rfl]
      unfold passesString at hpas
      simp only [Bool.and_eq_true, isNone_iff_eq_none, decide_eq_true_eq] at hpas
      obtain ⟨⟨⟨rfl, hunit⟩, hzero⟩, _⟩ := hpas
      show get? (spread ((nestedValue settings (js "extensionSettings") extensionId).getD .null)) key = none
      rw [nestedValue, hstr]
      exact absent_of_unit hzero
    · rw [if_neg hother]
  · next hnot =>
    obtain ⟨extensions, hopen, hbound⟩ := bind_eq_some_iff.mp hass
    obtain ⟨assigned, hext, rfl⟩ := map_eq_some_iff.mp hbound
    obtain ⟨hoth, hkeys⟩ := get?_assignExtension hext
    constructor
    · intro other hother
      rw [nestedValue_set, hoth other hother, get?_openObject hopen]
      rfl
    · intro other
      unfold valueOf
      dsimp only
      rw [nestedValue_set, hkeys, get?_openObject hopen]
      rfl

end Effect

namespace Setter

/-- The call changes the key of the field, or the whole field. -/
def Touches (setter : Setter) (field key : JsStr) : Prop :=
  ∃ mark ∈ setter.marks, mark.1 = field ∧ ∀ nestedKey ∈ mark.2, nestedKey = key

variable {setter : Setter} {settings next : Props Json} {field key : JsStr}

variable (happly : setter.apply settings = some next)

include happly

theorem get?_apply_other (hfield : ∀ mark ∈ setter.marks, mark.1 ≠ field) :
    get? next field = get? settings field := by
  cases setter with
  | fields assignments =>
    obtain rfl := Option.some.inj happly
    rw [get?_foldl_lastAssigned]
    cases hlast : lastAssigned assignments field with
    | none => rfl
    | some value =>
      obtain ⟨assignment, hmem, hsame⟩ := lastAssigned_isSome hlast
      exact absurd hsame (hfield (assignment.field, none) (mem_map_of_mem hmem))
  | nested assignment =>
    obtain ⟨props, _, rfl⟩ := assignNested_spec happly
    rw [get?_set, if_neg (hfield _ (mem_singleton_self _))]
  | extensionSetting extensionId key value =>
    exact get?_assignExtensionSetting happly (Ne.symm (hfield _ (mem_singleton_self _)))

theorem nestedValue_apply_other (htouc : ¬setter.Touches field key) :
    nestedValue next field key = nestedValue settings field key := by
  by_cases hfield : ∀ mark ∈ setter.marks, mark.1 ≠ field
  · rw [nestedValue, get?_apply_other happly hfield]
    rfl
  · push Not at hfield
    obtain ⟨mark, hmark, rfl⟩ := hfield
    cases setter with
    | fields assignments =>
      obtain ⟨assignment, _, rfl⟩ := mem_map.mp hmark
      exact absurd ⟨_, hmark, rfl, nofun⟩ htouc
    | nested assignment =>
      obtain rfl := mem_singleton.mp hmark
      rw [nestedValue_assignNested happly, if_neg]
      exact fun hkey => htouc ⟨_, hmark, rfl, fun nestedKey hnes => (Option.some.inj hnes).symm.trans hkey⟩
    | extensionSetting extensionId key' value =>
      obtain rfl := mem_singleton.mp hmark
      refine (get?_assignExtensionSetting_extension happly).1 key fun hkey => htouc ⟨_, hmark, rfl, ?_⟩
      exact fun nestedKey hnes => (Option.some.inj hnes).symm.trans hkey.symm

theorem valueOf_apply {target : Target} (hprop : target.Proper) :
    valueOf next target = (setter.gives target).getD (valueOf settings target) := by
  cases setter with
  | fields assignments =>
    have hkeyed : ∀ name ∈ keyedFields, get? next name = get? settings name := by
      intro name hname
      apply get?_apply_other happly
      rintro mark hmark rfl
      obtain ⟨assignment, _, rfl⟩ := mem_map.mp hmark
      exact topLevelFields_not_keyed _ assignment.mem_topLevelFields hname
    cases target with
    | field field =>
      obtain rfl := Option.some.inj happly
      exact get?_foldl_lastAssigned assignments settings field
    | key field key =>
      show nestedValue next field key = nestedValue settings field key
      rw [nestedValue, hkeyed field hprop.1]
      rfl
    | extension extensionId key =>
      show get? (spread ((nestedValue next _ extensionId).getD .null)) key = _
      rw [nestedValue, hkeyed _ mem_cons_self]
      rfl
  | nested assignment =>
    obtain ⟨entry, hentry, hlis, _⟩ := assignment.listed
    cases target with
    | field field =>
      refine get?_apply_other happly fun mark hmark hsame => hprop ?_
      obtain rfl := mem_singleton.mp hmark
      rw [← hsame, ← hlis]
      exact nestedFields_keyed entry hentry
    | key field key =>
      show nestedValue next field key = Option.getD (if _ ∧ _ then _ else _) _
      by_cases hfield : assignment.field = field
      · subst hfield
        rw [nestedValue_assignNested happly]
        by_cases hkey : assignment.key = key
        · rw [if_pos hkey, if_pos ⟨rfl, hkey⟩]
          rfl
        · rw [if_neg hkey, if_neg fun hboth => hkey hboth.2]
          rfl
      · rw [if_neg fun hboth => hfield hboth.1]
        refine nestedValue_apply_other happly ?_
        rintro ⟨mark, hmark, hsame, _⟩
        rw [mem_singleton.mp hmark] at hsame
        exact hfield hsame
    | extension extensionId key =>
      have hother : get? next (js "extensionSettings") = get? settings (js "extensionSettings") := by
        refine get?_apply_other happly fun mark hmark hsame => ?_
        rw [mem_singleton.mp hmark] at hsame
        exact extensionSettings_not_nested entry hentry (hlis.trans hsame)
      show get? (spread ((nestedValue next _ extensionId).getD .null)) key = _
      rw [nestedValue, hother]
      rfl
  | extensionSetting extensionId key value =>
    have hother : ∀ name, name ≠ js "extensionSettings" → get? next name = get? settings name :=
      fun name hname => get?_assignExtensionSetting happly hname
    cases target with
    | field field => exact hother field fun hsame => hprop (hsame ▸ mem_cons_self)
    | key field key =>
      show nestedValue next field key = nestedValue settings field key
      rw [nestedValue, hother field hprop.2]
      rfl
    | extension extensionId' key' =>
      obtain ⟨hoth, hkeys⟩ := get?_assignExtensionSetting_extension happly
      show valueOf next (.extension extensionId' key') = Option.getD (if _ ∧ _ then _ else _) _
      by_cases hid : extensionId = extensionId'
      · subst hid
        rw [hkeys]
        by_cases hkey : key = key'
        · rw [if_pos hkey, if_pos ⟨rfl, hkey⟩]
          rfl
        · rw [if_neg hkey, if_neg fun hboth => hkey hboth.2]
          rfl
      · rw [if_neg fun hboth => hid hboth.1]
        show get? (spread ((nestedValue next _ extensionId').getD .null)) key' = _
        rw [hoth extensionId' (Ne.symm hid)]
        rfl

end Setter

end PiRp.Settings
