import PiRp.JsonDecimal
import PiRp.StateOps

/-! Which places of a state an operation with a path can change. The place that the path names, what lies in it
and the containers around it: every other place keeps its value. The exception is `add` with a path that ends in
an empty segment. Its key is the one that `resolvePath` gives for the empty path, and the root is replaced. -/

namespace PiRp.State

open List Option JsNumber

/-- The value at a sequence of keys. -/
def valueAt (current : JsValue) : List JsStr → Option JsValue
  | [] => some current
  | key :: keys => (child current key).bind fun value => valueAt value keys

/-- The keys name neither a container around the place of the parts nor a place in it. -/
def Outside (parts keys : List JsStr) : Prop := ¬keys <+: parts ∧ ¬parts <+: keys

instance (parts keys : List JsStr) : Decidable (Outside parts keys) :=
  inferInstanceAs (Decidable (¬keys <+: parts ∧ ¬parts <+: keys))

/-- Two values that may be missing hold the same at every place outside the parts. -/
def AgreeOutside (parts : List JsStr) (left right : Option JsValue) : Prop :=
  ∀ keys, Outside parts keys →
    (left.bind fun value => valueAt value keys) = right.bind fun value => valueAt value keys

/-! ### Places -/

theorem AgreeOutside.refl (parts : List JsStr) (value : Option JsValue) : AgreeOutside parts value value :=
  fun _ _ => rfl

theorem AgreeOutside.trans {parts : List JsStr} {first second third : Option JsValue}
    (hleft : AgreeOutside parts first second) (hright : AgreeOutside parts second third) :
    AgreeOutside parts first third :=
  fun keys hkeys => (hleft keys hkeys).trans (hright keys hkeys)

theorem agreeOutside_nil (left right : Option JsValue) : AgreeOutside [] left right :=
  fun _ hkeys => absurd nil_prefix hkeys.2

variable {part : JsStr}

theorem agreeOutside_cons {rest : List JsStr} {left right : Option JsValue} (hother : ∀ key, key ≠ part →
      (left.bind fun value => child value key) = right.bind fun value => child value key)
    (hinner : AgreeOutside rest (left.bind fun value => child value part)
      (right.bind fun value => child value part)) : AgreeOutside (part :: rest) left right := by
  have hcons (found : Option JsValue) (key : JsStr) (keys : List JsStr) :
      (found.bind fun value => valueAt value (key :: keys)) =
        (found.bind fun value => child value key).bind fun value => valueAt value keys := by
    cases found with
    | none => rfl
    | some value => rfl
  intro keys hkeys
  cases keys with
  | nil => exact absurd nil_prefix hkeys.1
  | cons key keys =>
    rw [hcons, hcons]
    by_cases hkey : key = part
    · subst hkey
      refine hinner keys ⟨fun hpref => hkeys.1 ?_, fun hpref => hkeys.2 ?_⟩
      · exact cons_prefix_cons.mpr ⟨rfl, hpref⟩
      · exact cons_prefix_cons.mpr ⟨rfl, hpref⟩
    · rw [hother key hkey]

theorem agreeOutside_childless {parts : List JsStr} {left right : Option JsValue}
    (hleft : ∀ key, (left.bind fun value => child value key) = none)
    (hright : ∀ key, (right.bind fun value => child value key) = none) : AgreeOutside parts left right := by
  cases parts with
  | nil => exact agreeOutside_nil left right
  | cons part rest =>
    refine agreeOutside_cons (fun key _ => (hleft key).trans (hright key).symm) ?_
    rw [hleft part, hright part]
    exact .refl rest none

theorem child_of_not_container {value : JsValue} (hvalue : value.isContainer = false) (key : JsStr) :
    child value key = none := by
  cases value with
  | array items => exact nomatch hvalue
  | object props => exact nomatch hvalue
  | _ => rfl

theorem asArrayIndex_inj {left right : JsStr} {index : Nat} (hleft : asArrayIndex left = some index)
    (hright : asArrayIndex right = some index) : left = right := by
  have htext {part : JsStr} (hpart : asArrayIndex part = some index) : part = decimal index := by
    rw [asArrayIndex] at hpart
    split_ifs at hpart with hcan
    · rw [← Option.some.inj hpart]
      exact hcan.1
  rw [htext hleft, htext hright]

/-! ### One container -/

variable {key : JsStr}

theorem child_set_of_ne {items : List (Option JsValue)} {index : Nat} (hkey : key ≠ part)
    (hindex : asArrayIndex part = some index) (value : Option JsValue) :
    child (.array (items.set index value)) key = child (.array items) key := by
  rw [child, child]
  cases hother : asArrayIndex key with
  | none => rfl
  | some other =>
    have hne : index ≠ other := by
      rintro rfl
      exact hkey (asArrayIndex_inj hother hindex)
    rw [bind_some, bind_some, getElem?_set_ne hne]

theorem child_append_of_ne {items : List (Option JsValue)} (hkey : key ≠ part)
    (hindex : asArrayIndex part = some items.length) (value : JsValue) :
    child (.array (items ++ [some value])) key = child (.array items) key := by
  rw [child, child]
  cases hother : asArrayIndex key with
  | none => rfl
  | some other =>
    have hne : other ≠ items.length := by
      rintro rfl
      exact hkey (asArrayIndex_inj hother hindex)
    rw [bind_some, bind_some]
    rcases Nat.lt_or_ge other items.length with hlt | hge
    · rw [getElem?_append_left hlt]
    · rw [getElem?_eq_none hge, getElem?_eq_none]
      rw [length_append, length_singleton]
      omega

theorem child_object_set_of_ne {props : Props JsValue} (hkey : key ≠ part) (value : JsValue) :
    child (.object (Props.set props part value)) key = child (.object props) key := by
  rw [child, child, Props.get?_set, if_neg hkey.symm]

theorem child_setChild_of_ne (current value : JsValue) (hkey : key ≠ part) :
    child (setChild current part value) key = child current key := by
  cases current with
  | object props => exact child_object_set_of_ne hkey value
  | array items =>
    rw [setChild]
    cases hindex : asArrayIndex part with
    | none => rfl
    | some index => exact child_set_of_ne hkey hindex (some value)
  | _ => rfl

theorem child_setChild_self {current : JsValue} (value : JsValue)
    (hthere : current.isObject = true ∨ child current part ≠ none) :
    child (setChild current part value) part = some value := by
  cases current with
  | object props => rw [setChild, child, Props.get?_set, if_pos rfl]
  | array items =>
    have hchild := hthere.resolve_left nofun
    rw [child] at hchild
    cases hindex : asArrayIndex part with
    | none =>
      rw [hindex] at hchild
      exact absurd rfl hchild
    | some index =>
      rw [hindex, bind_some] at hchild
      have hlt : index < items.length := by
        by_contra hge
        rw [getElem?_eq_none (Nat.le_of_not_lt hge)] at hchild
        exact hchild rfl
      simp only [setChild, hindex, child, bind_some]
      rw [getElem?_set_self hlt]
      rfl
  | _ => exact absurd rfl (hthere.resolve_left nofun)

section Apply

variable [Addition]

variable {part key : JsStr}

theorem child_addKey_of_ne (parent value : JsValue) (hkey : key ≠ part) :
    child (addKey parent part value) key = child parent key := by
  cases parent with
  | object props =>
    rw [addKey]
    cases Props.get? props part with
    | none => exact child_object_set_of_ne hkey value
    | some current => exact child_object_set_of_ne hkey (addTo current value)
  | array items =>
    rw [addKey]
    cases hindex : asArrayIndex part with
    | none => rfl
    | some index =>
      dsimp only
      rcases hitem : items[index]? with _ | _ | current
      · dsimp only
        split_ifs with hlen
        · exact child_append_of_ne hkey (hlen ▸ hindex) value
        · rfl
      · exact child_set_of_ne hkey hindex (some value)
      · exact child_set_of_ne hkey hindex (some (addTo current value))
  | _ => rfl

variable {parent changed : JsValue}

omit [Addition] in
theorem child_removeKey_of_ne (hkey : key ≠ part)
    (hchg : removeKey parent part = some changed) : child changed key = child parent key := by
  cases parent with
  | object props =>
    obtain rfl := Option.some.inj hchg
    rw [child, child, Props.get?_delete, if_neg hkey.symm]
  | array items =>
    rw [removeKey] at hchg
    split_ifs at hchg
    cases hindex : asArrayIndex part with
    | none =>
      rw [hindex] at hchg
      obtain rfl := Option.some.inj hchg
      rfl
    | some index =>
      rw [hindex] at hchg
      obtain rfl := Option.some.inj hchg
      exact child_set_of_ne hkey hindex none
  | _ =>
    obtain rfl := Option.some.inj hchg
    rfl

/-! ### The way to a container -/

variable {current : JsValue} {parts : List JsStr}

omit [Addition] in
theorem agreeOutside_updateParts (hresol : resolveParts current parts = some parent)
    (hchg : ∀ other, other ≠ key → child changed other = child parent other) :
    AgreeOutside (parts ++ [key]) (some current) (some (updateParts current changed parts)) := by
  induction parts generalizing current with
  | nil =>
    obtain rfl := Option.some.inj hresol
    exact agreeOutside_cons (fun other hother => (hchg other hother).symm) (agreeOutside_nil _ _)
  | cons part rest ih =>
    rw [resolveParts] at hresol
    rw [updateParts]
    cases hchild : child current part with
    | none =>
      rw [hchild] at hresol
      exact nomatch hresol
    | some value =>
      simp only [hchild] at hresol
      split_ifs at hresol with hbox
      rw [cons_append]
      refine agreeOutside_cons (fun other hother => ?_) ?_
      · exact (child_setChild_of_ne current _ hother).symm
      · rw [bind_some, bind_some, hchild, child_setChild_self _ (.inr (by rw [hchild]; exact some_ne_none value))]
        exact ih hresol

omit [Addition] in
theorem agreeOutside_descend {inner : JsValue} (hdes : descend current part = some inner)
    (parts : List JsStr) : AgreeOutside parts (child current part) (some inner) := by
  have hempty (key : JsStr) : ((some (JsValue.object [])).bind fun value => child value key) = none := rfl
  rw [descend] at hdes
  cases hchild : child current part with
  | none =>
    rw [hchild] at hdes
    dsimp only at hdes
    split_ifs at hdes
    obtain rfl := Option.some.inj hdes
    exact agreeOutside_childless (fun _ => rfl) hempty
  | some value =>
    rw [hchild] at hdes
    dsimp only at hdes
    split_ifs at hdes with hbox
    · obtain rfl := Option.some.inj hdes
      exact .refl parts _
    · obtain rfl := Option.some.inj hdes
      exact agreeOutside_childless (child_of_not_container (Bool.eq_false_of_not_eq_true hbox)) hempty

omit [Addition] in
theorem there_of_descend {inner : JsValue} (hdes : descend current part = some inner) :
    current.isObject = true ∨ child current part ≠ none := by
  rw [descend] at hdes
  cases hchild : child current part with
  | none =>
    rw [hchild] at hdes
    dsimp only at hdes
    split_ifs at hdes with hobj
    exact .inl hobj
  | some value => exact .inr (some_ne_none value)

variable {value : JsValue}

omit [Addition] in
theorem assign_eq_some {part : JsStr} (hset : assign current part value = some changed) :
    (∃ props, current = .object props ∧ changed = .object (Props.set props part value)) ∨
      ∃ items index, current = .array items ∧ asArrayIndex part = some index ∧
        changed = .array (items.set index (some value)) := by
  cases current with
  | object props => exact .inl ⟨props, rfl, (Option.some.inj hset).symm⟩
  | array items =>
    rw [assign] at hset
    cases hindex : asArrayIndex part with
    | none =>
      rw [hindex] at hset
      exact nomatch hset
    | some index =>
      rw [hindex] at hset
      dsimp only at hset
      split_ifs at hset
      exact .inr ⟨items, index, rfl, rfl, (Option.some.inj hset).symm⟩
  | _ => exact nomatch hset

omit [Addition] in
theorem agreeOutside_setParts
    (hset : setParts value current parts = some changed) : AgreeOutside parts (some current) (some changed) := by
  induction parts generalizing current changed with
  | nil => exact nomatch hset
  | cons part rest ih =>
    cases rest with
    | nil =>
      refine agreeOutside_cons (fun other hother => ?_) (agreeOutside_nil _ _)
      obtain ⟨props, rfl, rfl⟩ | ⟨items, index, rfl, hindex, rfl⟩ := assign_eq_some hset
      · exact (child_object_set_of_ne hother value).symm
      · exact (child_set_of_ne hother hindex (some value)).symm
    | cons next rest =>
      rw [setParts] at hset
      cases hdes : descend current part with
      | none =>
        rw [hdes] at hset
        exact nomatch hset
      | some inner =>
        rw [hdes] at hset
        obtain ⟨innerChanged, hinner, rfl⟩ := map_eq_some_iff.mp hset
        refine agreeOutside_cons (fun other hother => ?_) ?_
        · exact (child_setChild_of_ne current _ hother).symm
        · rw [bind_some, bind_some, child_setChild_self _ (there_of_descend hdes)]
          exact (agreeOutside_descend hdes _).trans (ih hinner)

/-! ### The operations -/

omit [Addition] in
theorem pathParts_ne_nil (path : JsStr) : pathParts path ≠ [] := by
  rw [pathParts]
  split_ifs with hslash
  · cases path with
    | nil => exact nomatch hslash
    | cons unit rest =>
      obtain rfl := Option.some.inj hslash
      rw [splitOn_cons_eq_if_modifyHead, if_pos (beq_self_eq_true slash), drop_one, tail_cons]
      exact splitOn_ne_nil _ _
  · exact splitOn_ne_nil _ _

omit [Addition] in
theorem pathParts_eq (path : JsStr) : (pathParts path).dropLast ++ [lastPart (pathParts path)] = pathParts path := by
  have hlast : lastPart (pathParts path) = (pathParts path).getLast (pathParts_ne_nil path) := by
    rw [lastPart, getLast?_eq_some_getLast (pathParts_ne_nil path), getD_some]
  rw [hlast]
  exact dropLast_concat_getLast (pathParts_ne_nil path)

omit [Addition] in
theorem object_objectOr (hobj : value.isObject = true) : .object (objectOr value) = value := by
  cases value with
  | object props => rfl
  | _ => exact nomatch hobj

omit [Addition] in
theorem isObject_setChild (current value : JsValue) (part : JsStr) :
    (setChild current part value).isObject = current.isObject := by
  cases current with
  | array items =>
    rw [setChild]
    cases asArrayIndex part <;> rfl
  | _ => rfl

omit [Addition] in
theorem isObject_updateParts
    (hresol : resolveParts current parts = some parent) (hchg : changed.isObject = parent.isObject) :
    (updateParts current changed parts).isObject = current.isObject := by
  cases parts with
  | nil =>
    obtain rfl := Option.some.inj hresol
    exact hchg
  | cons part rest =>
    rw [updateParts]
    cases child current part with
    | none => rfl
    | some value => exact isObject_setChild current _ part

omit [Addition] in
theorem isObject_setParts
    (hset : setParts value current parts = some changed) : changed.isObject = current.isObject := by
  cases parts with
  | nil => exact nomatch hset
  | cons part rest =>
    cases rest with
    | nil =>
      obtain ⟨props, rfl, rfl⟩ | ⟨items, index, rfl, -, rfl⟩ := assign_eq_some hset
      · rfl
      · rfl
    | cons next rest =>
      rw [setParts] at hset
      cases hdes : descend current part with
      | none =>
        rw [hdes] at hset
        exact nomatch hset
      | some inner =>
        rw [hdes] at hset
        obtain ⟨innerChanged, -, rfl⟩ := map_eq_some_iff.mp hset
        exact isObject_setChild current _ part

theorem isObject_addKey (parent value : JsValue) (key : JsStr) :
    (addKey parent key value).isObject = parent.isObject := by
  cases parent with
  | object props =>
    rw [addKey]
    cases Props.get? props key <;> rfl
  | array items =>
    rw [addKey]
    cases asArrayIndex key with
    | none => rfl
    | some index =>
      dsimp only
      rcases items[index]? with _ | _ | current
      · dsimp only
        split_ifs <;> rfl
      · rfl
      · rfl
  | _ => rfl

omit [Addition] in
theorem isObject_removeKey (hchg : removeKey parent key = some changed) : changed.isObject = parent.isObject := by
  cases parent with
  | array items =>
    rw [removeKey] at hchg
    split_ifs at hchg
    cases hindex : asArrayIndex key with
    | none =>
      rw [hindex] at hchg
      obtain rfl := Option.some.inj hchg
      rfl
    | some index =>
      rw [hindex] at hchg
      obtain rfl := Option.some.inj hchg
      rfl
  | _ =>
    obtain rfl := Option.some.inj hchg
    rfl

/-- The root after an operation; one that throws leaves it as it was. -/
def rootAfter (root : Props JsValue) (op : StateOp) (path : JsStr) : Props JsValue :=
  (applyOp root op path).getD root

/-- The operation changes nothing outside the place that its path names. -/
def Local (root : Props JsValue) (op : StateOp) (path : JsStr) : Prop :=
  AgreeOutside (pathParts path) (some (.object root)) (some (.object (rootAfter root op path)))

variable {path : JsStr}

omit [Addition] in
theorem agreeOutside_setDeep (root : Props JsValue) (hpath : path ≠ []) (value : JsValue) :
    AgreeOutside (pathParts path) (some (.object root)) (some (.object (setDeep root path value))) := by
  rw [setDeep.eq_def, if_neg hpath]
  cases hset : setParts value (.object root) (pathParts path) with
  | none => exact .refl _ _
  | some changed =>
    dsimp only
    rw [object_objectOr (isObject_setParts hset)]
    exact agreeOutside_setParts hset

omit [Addition] in
theorem agreeOutside_parent {root : Props JsValue}
    (hresol : resolveParts (.object root) (pathParts path).dropLast = some parent)
    (hobj : changed.isObject = parent.isObject)
    (hchg : ∀ other, other ≠ lastPart (pathParts path) → child changed other = child parent other) :
    AgreeOutside (pathParts path) (some (.object root))
      (some (.object (objectOr (updateParts (.object root) changed (pathParts path).dropLast)))) := by
  have hupd := agreeOutside_updateParts hresol hchg
  rw [pathParts_eq] at hupd
  rw [object_objectOr (isObject_updateParts hresol hobj)]
  exact hupd

theorem local_remove (root : Props JsValue) (path : JsStr) : Local root .remove path := by
  rw [Local, rootAfter, applyOp, applyRemove]
  cases hresol : resolveParts (.object root) (pathParts path).dropLast with
  | none => exact .refl _ _
  | some parent =>
    dsimp only
    cases hrem : removeKey parent (lastPart (pathParts path)) with
    | none => exact .refl _ _
    | some changed =>
      exact agreeOutside_parent hresol (isObject_removeKey hrem) fun other hother =>
        child_removeKey_of_ne hother hrem

/-- `add` replaces the root: the path ends in an empty segment behind a container that is there, and the value is
not a root that agrees with the old one anyway. -/
def Wipes (root : Props JsValue) (value : JsValue) (path : JsStr) : Prop :=
  lastPart (pathParts path) = [] ∧
    resolveParts (.object root) (pathParts path).dropLast ≠ none ∧
    ¬AgreeOutside (pathParts path) (some (.object root)) (some (.object (objectOr value)))

theorem local_add_iff (root : Props JsValue) (hpath : path ≠ [])
    (hvalue : (objectOr value).Ordered) : Local root (.add value) path ↔ ¬Wipes root value path := by
  have hafter : rootAfter root (.add value) path = applyAdd root path value := rfl
  rw [Local, hafter, applyAdd, Wipes]
  cases hresol : resolveParts (.object root) (pathParts path).dropLast with
  | none => exact iff_of_true (agreeOutside_setDeep root hpath value) fun hwipes => hwipes.2.1 rfl
  | some parent =>
    dsimp only
    by_cases hlast : lastPart (pathParts path) = []
    · have hkeys : replaceAllKeys (objectOr value) = objectOr value := Props.foldl_set hvalue
      rw [if_pos hlast, hkeys]
      constructor
      · intro hagree hwipes
        exact hwipes.2.2 hagree
      · intro hnot
        by_contra hdif
        exact hnot ⟨hlast, some_ne_none parent, hdif⟩
    · rw [if_neg hlast]
      refine iff_of_true ?_ fun hwipes => hlast hwipes.1
      exact agreeOutside_parent hresol (isObject_addKey parent value _) fun other hother =>
        child_addKey_of_ne parent value hother

/-- **The operations with a path change the place that the path names and nothing else, but for `add` when it
replaces the root.** A path that names `__proto__` is left out, as its place is no own property. -/
theorem edits_local_iff (root : Props JsValue) {path : JsStr} (hpath : path ≠ [])
    (_hproto : js "__proto__" ∉ pathParts path) :
    (∀ value, (objectOr value).Ordered → (Local root (.add value) path ↔ ¬Wipes root value path)) ∧
      Local root .remove path ∧ ∀ value, Local root (.replace value) path :=
  ⟨fun _ hvalue => local_add_iff root hpath hvalue, local_remove root path,
    fun value => agreeOutside_setDeep root hpath value⟩

end Apply

section Samples

local instance localAddition : Addition := integerAddition

/-- A character and a counter. -/
def sampleRoot : Props JsValue :=
  [(js "hp", .number (.int 5)), (js "hero", .object [(js "name", .string (js "Ada"))])]

theorem edits_local_hero : ¬Wipes sampleRoot (.number (.int 1)) (js "hero.level") ∧
      Local sampleRoot (.add (.number (.int 1))) (js "hero.level") := by
  have hlast : lastPart (pathParts (js "hero.level")) = js "level" := by decide +kernel
  have hnot : ¬Wipes sampleRoot (.number (.int 1)) (js "hero.level") := fun hwipes =>
    absurd (hlast.symm.trans hwipes.1) (by decide)
  exact ⟨hnot, ((edits_local_iff sampleRoot (by decide) (by decide +kernel)).1 (.number (.int 1)) List.Pairwise.nil).mpr
    hnot⟩

/-- A dot too many: adding to the hero empties the state. -/
theorem edits_not_local :
    ¬∀ (root : Props JsValue) (path : JsStr), path ≠ [] → js "__proto__" ∉ pathParts path → ∀ value,
      Local root (.add value) path := by
  intro hlocal
  have hplace := hlocal sampleRoot (js "hero.") (by decide) (by decide +kernel) (.number (.int 1)) [js "hp"]
    (by decide +kernel)
  revert hplace
  decide +kernel

end Samples

end PiRp.State
