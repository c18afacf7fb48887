import PiRp.JsonDecimal
import PiRp.StatePrototypes

/-! Managers do not change what others read, as long as no operation names `__proto__`. Every other property of
`Object.prototype` is a function, which no path goes through, so that each container that an operation finds lies
in the state of its own manager. -/

namespace PiRp.State.Prototypes

open Option

/-- The result leaves `Object.prototype` as the world has it. -/
def Keeps (world : World) (result : Except World World) : Prop := (settled result).shared = world.shared

theorem Keeps.bind {world : World} {result : Except World World} {next : World → Except World World}
    (hres : Keeps world result) (hnext : ∀ after, after.shared = world.shared → Keeps after (next after)) :
    Keeps world (result.bind next) := by
  cases result with
  | error after => exact hres
  | ok after => exact (hnext after hres).trans hres

/-! ### Lookups -/

/-- The lookup ends in the state, at a function, or nowhere. -/
def Found.InState (shared : Shared) : Found → Prop
  | .data (.root _) => True
  | .data (.shared steps) => readAt shared.value steps = some .function
  | .accessor => False
  | .builtin _ => True
  | .missing => True

theorem find_objectPrototype {key : JsStr} (hkey : key ≠ protoKey) :
    (objectPrototype.find key).InState objectPrototype := by
  rw [Shared.find]
  split_ifs with hprops hproto
  · obtain ⟨value, hvalue⟩ := isSome_iff_exists.mp hprops
    have hfun : ∀ entry ∈ objectPrototype.props, entry.2 = Value.function := by
      simp [objectPrototype]
    obtain rfl := hfun _ (Props.mem_of_get? hvalue)
    rw [Found.InState, Shared.value, readAt, hvalue]
    rfl
  · exact absurd hproto.1 hkey
  · exact trivial

section Lookup

variable {key : JsStr}

mutual

theorem find_inState (hkey : key ≠ protoKey) (steps : List Step) (value : Value) :
    (find objectPrototype (.root steps) key value).InState objectPrototype := by
  match value with
  | .object own proto =>
    rw [find]
    split_ifs
    · exact trivial
    · exact findProto_inState hkey steps proto
  | .array items =>
    rw [find]
    cases asArrayIndex key with
    | none =>
      dsimp only
      split_ifs
      · exact trivial
      · exact trivial
      · exact find_objectPrototype hkey
    | some index =>
      dsimp only
      split_ifs
      · exact trivial
      · exact find_objectPrototype hkey
  | .null => exact trivial
  | .bool _ => exact trivial
  | .number _ => exact trivial
  | .string _ => exact trivial
  | .function => exact trivial

theorem findProto_inState (hkey : key ≠ protoKey) (steps : List Step) (proto : Proto) :
    (findProto objectPrototype (.root steps) key proto).InState objectPrototype := by
  match proto with
  | .standard =>
    rw [findProto]
    exact find_objectPrototype hkey
  | .null => exact trivial
  | .value value =>
    rw [findProto]
    exact find_inState hkey (steps ++ [.proto]) value

end

variable {world : World}

variable (hshar : world.shared = objectPrototype)

include hshar

section

variable (hkey : key ≠ protoKey)

include hkey

theorem world_find_inState (steps : List Step) : (world.find (.root steps) key).InState objectPrototype := by
  rw [World.find]
  · cases world.read (.root steps) with
    | none => exact trivial
    | some value =>
      rw [hshar]
      exact find_inState hkey steps value
  · exact nofun

theorem childPlace_inState {steps : List Step}
    {inner : Place} (hchild : world.childPlace (.root steps) key = some inner) :
    (∃ below, inner = .root below) ∨ world.read inner = some .function := by
  have hfound := world_find_inState hshar hkey steps
  rw [World.childPlace] at hchild
  cases hfind : world.find (.root steps) key with
  | data found =>
    rw [hfind] at hchild hfound
    obtain rfl := Option.some.inj hchild
    cases found with
    | root below => exact .inl ⟨below, rfl⟩
    | shared below =>
      right
      rw [World.read, hshar]
      exact hfound
  | accessor =>
    rw [hfind] at hfound
    exact hfound.elim
  | builtin value =>
    rw [hfind] at hchild
    exact nomatch hchild
  | missing =>
    rw [hfind] at hchild
    exact nomatch hchild

theorem get_childPlace {steps : List Step}
    {inner : Place} (hchild : world.childPlace (.root steps) key = some inner) :
    world.get (.root steps) key = world.read inner := by
  have hfound := world_find_inState hshar hkey steps
  rw [World.childPlace] at hchild
  rw [World.get]
  cases hfind : world.find (.root steps) key with
  | data found =>
    rw [hfind] at hchild
    obtain rfl := Option.some.inj hchild
    rfl
  | accessor =>
    rw [hfind] at hfound
    exact hfound.elim
  | builtin value =>
    rw [hfind] at hchild
    exact nomatch hchild
  | missing =>
    rw [hfind] at hchild
    exact nomatch hchild

theorem childPlace_container {steps : List Step}
    {inner : Place} (hchild : world.childPlace (.root steps) key = some inner)
    (hbox : world.read inner ≠ some .function) : ∃ below, inner = .root below :=
  (childPlace_inState hshar hkey hchild).resolve_right hbox

theorem next_inState {steps : List Step}
    {inner : Place} (hnext : world.next (.root steps) key = some inner) : ∃ below, inner = .root below := by
  have hfil : (world.childPlace (.root steps) key).filter
      (fun inner => (world.read inner).any Value.isContainer) = some inner := by
    rw [World.next] at hnext
    split at hnext
    · split_ifs at hnext
      exact hnext
    · exact hnext
  obtain ⟨hchild, hbox⟩ := filter_eq_some_iff.mp hfil
  refine childPlace_container hshar hkey hchild fun hfun => ?_
  rw [hfun] at hbox
  exact nomatch hbox

end

theorem resolveParts_inState {parts : List JsStr} (hparts : protoKey ∉ parts) {steps : List Step} {parent : Place}
    (hresol : world.resolveParts (.root steps) parts = some parent) : ∃ below, parent = .root below := by
  induction parts generalizing steps with
  | nil => exact ⟨steps, (Option.some.inj hresol).symm⟩
  | cons part rest ih =>
    rw [List.mem_cons, not_or] at hparts
    rw [World.resolveParts] at hresol
    obtain ⟨inner, hnext, hrest⟩ := bind_eq_some_iff.mp hresol
    obtain ⟨below, rfl⟩ := next_inState hshar (Ne.symm hparts.1) hnext
    exact ih hparts.2 hrest

end Lookup

/-! ### Writes -/

section Writes

variable (world : World) (steps : List Step) (key : JsStr)

theorem keeps_setProto (value : Value) : Keeps world (world.setProto (.root steps) value) := by
  unfold World.setProto
  split
  · exact nomatch ‹Place.root steps = Place.shared []›
  · split
    · rfl
    · split_ifs <;> rfl
    · rfl

theorem keeps_assign (value : Value) : Keeps world (world.assign (.root steps) key value) := by
  unfold World.assign
  split
  · split
    · exact keeps_setProto world steps value
    · rfl
  · split <;> rfl
  · rfl

theorem keeps_deleteKey : Keeps world (world.deleteKey (.root steps) key) := by
  unfold World.deleteKey
  split
  · rfl
  · split_ifs
    · rfl
    · split <;> rfl
  · rfl

theorem keeps_replaceAllKeys (src : Props JsValue) : Keeps world (replaceAllKeys world src) := by
  have hfold (start : World) : Keeps start
      (src.foldlM (fun world entry => world.assign (.root []) entry.1 (ofJson entry.2)) start) := by
    induction src generalizing start with
    | nil => rfl
    | cons entry rest ih => exact (keeps_assign start [] entry.1 (ofJson entry.2)).bind fun after _ => ih after
  rw [replaceAllKeys]
  refine (hfold _).trans ?_
  split <;> rfl

end Writes

section Operations

variable {world : World} {steps : List Step}

theorem keeps_setParts_function {place : Place} (hread : world.read place = some .function) (value : Value)
    (parts : List JsStr) : Keeps world (setParts value world place parts) := by
  have hass (key : JsStr) (value : Value) : world.assign place key value = .ok world := by
    simp only [World.assign, hread]
  have hchild (key : JsStr) : world.childPlace place key = none := by
    have hfind : world.find place key = .missing := by
      unfold World.find
      split
      · exact nomatch hread
      · rw [hread]
        rfl
    rw [World.childPlace, hfind]
  have hnext (key : JsStr) : world.next place key = none := by
    simp only [World.next, hchild, hread, filter_none]
  match parts with
  | [] => rfl
  | [key] =>
    simp only [setParts, hread, hass]
    rfl
  | part :: following :: rest =>
    simp only [setParts, hread, hass, hnext, Except.bind, hchild]
    rfl

theorem keeps_setParts (hshar : world.shared = objectPrototype) {parts : List JsStr} (hparts : protoKey ∉ parts)
    (value : Value) : Keeps world (setParts value world (.root steps) parts) := by
  induction parts generalizing world steps with
  | nil => rfl
  | cons part rest ih =>
    rw [List.mem_cons, not_or] at hparts
    have hpart : part ≠ protoKey := Ne.symm hparts.1
    cases rest with
    | nil =>
      rw [setParts]
      split
      · split_ifs
        · exact keeps_assign world steps part value
        · rfl
      · exact keeps_assign world steps part value
    | cons following rest =>
      unfold setParts
      cases hnext : world.next (.root steps) part with
      | some inner =>
        obtain ⟨below, rfl⟩ := next_inState hshar hpart hnext
        exact ih hshar hparts.2
      | none =>
        dsimp only
        split
        · rfl
        · refine (keeps_assign world steps part _).bind fun after hafter => ?_
          rw [hshar] at hafter
          cases hchild : after.childPlace (.root steps) part with
          | none => rfl
          | some inner =>
            rcases childPlace_inState hafter hpart hchild with ⟨below, rfl⟩ | hfun
            · exact ih hafter hparts.2
            · exact keeps_setParts_function hfun value _

end Operations

/-! ### Merges -/

mutual

/-- An object of the value that a merge walks through has an object under `__proto__`. -/
def namesProto (value : JsValue) : Bool :=
  match value with
  | .object props => propsNameProto props
  | _ => false

def propsNameProto (props : List (JsStr × JsValue)) : Bool :=
  match props with
  | [] => false
  | (key, value) :: rest => key = protoKey && value.isObject || namesProto value || propsNameProto rest

end

mutual

theorem keeps_deepMerge {world : World} (hshar : world.shared = objectPrototype) (steps : List Step)
    (src : List (JsStr × JsValue)) (hsrc : propsNameProto src = false) :
    Keeps world (deepMerge world (.root steps) src) := by
  match src with
  | [] => rfl
  | (key, value) :: rest =>
    rw [propsNameProto, Bool.or_eq_false_iff, Bool.or_eq_false_iff] at hsrc
    obtain ⟨⟨hkey, hvalue⟩, hrest⟩ := hsrc
    rw [deepMerge]
    refine (keeps_mergeKey hshar steps key value hkey hvalue).bind fun after hafter => ?_
    exact keeps_deepMerge (hafter.trans hshar) steps rest hrest

theorem keeps_mergeKey {world : World} (hshar : world.shared = objectPrototype) (steps : List Step)
    (key : JsStr) (value : JsValue) (hkey : (decide (key = protoKey) && value.isObject) = false)
    (hvalue : namesProto value = false) : Keeps world (mergeKey world (.root steps) key value) := by
  match value with
  | .null => exact keeps_deleteKey world steps key
  | .object props =>
    have hne : key ≠ protoKey := by simpa [JsValue.isObject] using hkey
    rw [namesProto] at hvalue
    rw [mergeKey]
    cases hchild : world.childPlace (.root steps) key with
    | none => exact keeps_assign world steps key _
    | some inner =>
      dsimp only
      split_ifs with hobj
      · have hbox : world.read inner ≠ some .function := by
          intro hfun
          rw [hfun] at hobj
          exact nomatch hobj
        obtain ⟨below, rfl⟩ := childPlace_container hshar hne hchild hbox
        exact keeps_deepMerge hshar below props hvalue
      · exact keeps_assign world steps key _
  | .bool _ => exact keeps_assign world steps key _
  | .number _ => exact keeps_assign world steps key _
  | .string _ => exact keeps_assign world steps key _
  | .array _ => exact keeps_assign world steps key _

end

mutual

theorem keeps_fillMissing {world : World} (hshar : world.shared = objectPrototype) (steps : List Step)
    (defaults : List (JsStr × JsValue)) (hdef : propsNameProto defaults = false) :
    Keeps world (fillMissing world (.root steps) defaults) := by
  match defaults with
  | [] => rfl
  | (key, value) :: rest =>
    rw [propsNameProto, Bool.or_eq_false_iff, Bool.or_eq_false_iff] at hdef
    obtain ⟨⟨hkey, hvalue⟩, hrest⟩ := hdef
    rw [fillMissing]
    refine (keeps_fillKey hshar steps key value hkey hvalue).bind fun after hafter => ?_
    exact keeps_fillMissing (hafter.trans hshar) steps rest hrest

theorem keeps_fillKey {world : World} (hshar : world.shared = objectPrototype) (steps : List Step)
    (key : JsStr) (value : JsValue) (hkey : (decide (key = protoKey) && value.isObject) = false)
    (hvalue : namesProto value = false) : Keeps world (fillKey world (.root steps) key value) := by
  unfold fillKey
  split
  · exact keeps_assign world steps key _
  · match value with
    | .object props =>
      rename_i hget
      have hne : key ≠ protoKey := by simpa [JsValue.isObject] using hkey
      rw [namesProto] at hvalue
      cases hchild : world.childPlace (.root steps) key with
      | none => rfl
      | some inner =>
        have hbox : world.read inner ≠ some .function := by
          rw [← get_childPlace hshar hne hchild, hget]
          exact nofun
        obtain ⟨below, rfl⟩ := childPlace_container hshar hne hchild hbox
        exact keeps_fillMissing hshar below props hvalue
    | .null => rfl
    | .bool _ => rfl
    | .number _ => rfl
    | .string _ => rfl
    | .array _ => rfl
  · rfl

end

/-! ### Operations -/

/-- The operation goes through no `__proto__`: no segment of its path is `__proto__`, and in no object that it
merges does an object stand under that key. -/
def Safe (op : StoreOp) : Prop :=
  match op.op with
  | .add _ | .remove | .replace _ => protoKey ∉ pathParts op.path
  | .merge value | .seed value => namesProto value = false

instance (op : StoreOp) : Decidable (Safe op) :=
  match op with
  | ⟨.add _, path⟩ | ⟨.remove, path⟩ | ⟨.replace _, path⟩ => inferInstanceAs (Decidable (protoKey ∉ pathParts path))
  | ⟨.merge value, _⟩ | ⟨.seed value, _⟩ => inferInstanceAs (Decidable (namesProto value = false))

theorem keeps_setDeep {world : World} (hshar : world.shared = objectPrototype) {path : JsStr}
    (hpath : protoKey ∉ pathParts path) (value : JsValue) : Keeps world (setDeep world path value) := by
  unfold setDeep
  split_ifs
  · split
    · exact keeps_replaceAllKeys world _
    · rfl
  · exact keeps_setParts hshar hpath (ofJson value)

theorem lastPart_ne {path : JsStr} (hpath : protoKey ∉ pathParts path) : lastPart (pathParts path) ≠ protoKey := by
  rw [lastPart]
  cases hlast : (pathParts path).getLast? with
  | none => decide
  | some part =>
    rintro rfl
    exact hpath (List.mem_of_getLast? hlast)

section Apply

variable [JsNumber.Addition] {world : World}

theorem keeps_addKey (hshar : world.shared = objectPrototype) (steps : List Step) {key : JsStr}
    (hkey : key ≠ protoKey) (value : JsValue) : Keeps world (addKey world (.root steps) key value) := by
  unfold addKey
  split
  · exact keeps_assign world steps key _
  · rename_i items hget
    split_ifs
    · exact keeps_assign world steps key _
    · cases hchild : world.childPlace (.root steps) key with
      | none => rfl
      | some inner =>
        have hbox : world.read inner ≠ some .function := by
          rw [← get_childPlace hshar hkey hchild, hget]
          exact nofun
        obtain ⟨below, rfl⟩ := childPlace_container hshar hkey hchild hbox
        rfl
  · exact keeps_assign world steps key _

theorem keeps_applyOp (hshar : world.shared = objectPrototype) {op : StoreOp} (hsafe : Safe op) :
    Keeps world (applyOp world op.op op.path) := by
  obtain ⟨op, path⟩ := op
  have hinner (hpath : protoKey ∉ pathParts path) : protoKey ∉ (pathParts path).dropLast := fun hmem =>
    hpath (List.mem_of_mem_dropLast hmem)
  cases op with
  | add value =>
    have hpath : protoKey ∉ pathParts path := hsafe
    rw [applyOp, applyAdd]
    cases hresol : world.resolveParts (.root []) (pathParts path).dropLast with
    | none => exact keeps_setDeep hshar hpath value
    | some parent =>
      obtain ⟨below, rfl⟩ := resolveParts_inState hshar (hinner hpath) hresol
      have hadd := keeps_addKey hshar below (lastPart_ne hpath) value
      dsimp only
      split_ifs
      · exact keeps_replaceAllKeys world _
      · split
        · split_ifs
          · exact hadd
          · rfl
        · exact hadd
  | remove =>
    have hpath : protoKey ∉ pathParts path := hsafe
    rw [applyOp, applyRemove]
    cases hresol : world.resolveParts (.root []) (pathParts path).dropLast with
    | none => rfl
    | some parent =>
      obtain ⟨below, rfl⟩ := resolveParts_inState hshar (hinner hpath) hresol
      dsimp only
      split
      · rfl
      · exact keeps_deleteKey world below _
  | replace value => exact keeps_setDeep hshar hsafe value
  | merge value =>
    cases value with
    | object props => exact keeps_deepMerge hshar [] props hsafe
    | _ => exact keeps_replaceAllKeys world []
  | seed value =>
    cases value with
    | object props => exact keeps_fillMissing hshar [] props hsafe
    | _ => rfl

end Apply

/-! ### Runs -/

section Runs

variable {ι : Type*} [DecidableEq ι] [JsNumber.Addition]

theorem shared_apply {realm : Realm ι} (hshar : realm.shared = objectPrototype) (manager : ι) {op : StoreOp}
    (hsafe : Safe op) : (realm.apply manager op).shared = objectPrototype := by
  have hworld : (realm.world manager).shared = objectPrototype := hshar
  exact (keeps_applyOp hworld hsafe).trans hshar

theorem shared_run {realm : Realm ι} (hshar : realm.shared = objectPrototype) {steps : List (ι × StoreOp)}
    (hsafe : ∀ step ∈ steps, Safe step.2) : (realm.run steps).shared = objectPrototype := by
  induction steps generalizing realm with
  | nil => exact hshar
  | cons step rest ih =>
    exact ih (shared_apply hshar step.1 (hsafe step List.mem_cons_self)) fun other hother =>
      hsafe other (List.mem_cons_of_mem _ hother)

end Runs

section Samples

local instance isolationAddition : JsNumber.Addition := JsNumber.integerAddition

/-- Two managers of empty states. -/
def sampleRealm : Realm Bool := ⟨objectPrototype, fun _ => .object [] .standard⟩

end Samples

end PiRp.State.Prototypes
