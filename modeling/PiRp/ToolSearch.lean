import PiRp.EventRun
import PiRp.JsMap
import PiRp.JsSplit
import PiRp.JsonValue

/-! `ToolSearchManager`: which tools of the catalog are folded away until a search finds them, which have been
discovered, and the names that are active. A `Set` of names is the list of its members in insertion order. -/

namespace PiRp.ToolSearch

open List

inductive ToolExposure where
  | direct
  | modelOnly
  | codemode
  | deferred
  | hidden
  deriving DecidableEq

structure ToolNamespace where
  name : JsStr
  description : Option JsStr
  instructions : Option JsStr

/-- A tool of the registry that allow and deny lists let through. -/
structure ToolSearchEntry where
  name : JsStr
  description : JsStr
  promptSnippet : Option JsStr
  parameters : Json
  exposure : ToolExposure
  toolNamespace : Option ToolNamespace

structure SearchableToolParameter where
  name : JsStr
  description : Option JsStr

structure SearchableTool where
  name : JsStr
  description : JsStr
  promptSnippet : Option JsStr
  toolNamespace : Option ToolNamespace
  parameters : List SearchableToolParameter

structure ToolSearchManagerInput where
  tools : List ToolSearchEntry
  active : Bool
  reservedTools : List JsStr

/-- `TOOL_SEARCH_TOOL_NAME`. -/
def toolSearchToolName : JsStr := js "tool_search"

/-- `NATIVE_EAGER_TOOL_NAMES[name]` is truthy: for the native tools, and for what every object inherits. -/
def isNativeEager (name : JsStr) : Bool :=
  ["read", "bash", "edit", "write", "grep", "find", "ls",
    "constructor", "hasOwnProperty", "isPrototypeOf", "propertyIsEnumerable", "toLocaleString", "toString", "valueOf",
    "__proto__", "__defineGetter__", "__defineSetter__", "__lookupGetter__", "__lookupSetter__"].any
      fun member => js member = name

/-! ### Sets of names -/

/-- `Set.add`. -/
def addName (names : List JsStr) (name : JsStr) : List JsStr :=
  if name ∈ names then names else names ++ [name]

variable {names : List JsStr} {name : JsStr}

@[simp] theorem mem_addName {other : JsStr} : other ∈ addName names name ↔ other ∈ names ∨ other = name := by
  rw [addName]
  split_ifs with hname
  · exact ⟨Or.inl, fun h => h.elim id fun heq => heq ▸ hname⟩
  · simp

/-- Names added to a list without repetition; empty names are dropped. -/
def addNames (target names : List JsStr) : List JsStr :=
  names.foldl (fun target name => if name = [] then target else addName target name) target

theorem mem_addNames {target : List JsStr} :
    name ∈ addNames target names ↔ name ∈ target ∨ name ∈ names ∧ name ≠ [] := by
  induction names generalizing target with
  | nil => simp [addNames]
  | cons first names ih =>
    rw [addNames, foldl_cons, ← addNames, ih, mem_cons]
    by_cases hfirst : first = []
    · rw [if_pos hfirst, hfirst]
      tauto
    · rw [if_neg hfirst, mem_addName]
      constructor
      · rintro ((htgt | rfl) | ⟨hname, hne⟩)
        · exact .inl htgt
        · exact .inr ⟨.inl rfl, hfirst⟩
        · exact .inr ⟨.inr hname, hne⟩
      · rintro (htgt | ⟨rfl | hname, hne⟩)
        · exact .inl (.inl htgt)
        · exact .inl (.inr rfl)
        · exact .inr ⟨hname, hne⟩

/-- `dedupeNames`. -/
def dedupeNames (names : List JsStr) : List JsStr := addNames [] names

theorem mem_dedupeNames : name ∈ dedupeNames names ↔ name ∈ names ∧ name ≠ [] := by
  rw [dedupeNames, mem_addNames]
  exact or_iff_right not_mem_nil

/-! ### The parameters of a tool -/

mutual

/-- `extractSearchableParameters`. -/
def extractSearchableParameters (schema : Json) (parent : JsStr) : List SearchableToolParameter :=
  match schema with
  | .object props =>
    propertyParameters props parent ++ itemParameters props parent ++
      variantParameters (js "anyOf") props parent ++ variantParameters (js "oneOf") props parent ++
        variantParameters (js "allOf") props parent
  | _ => []

/-- What `properties` of a schema declares. -/
def propertyParameters (props : List (JsStr × Json)) (parent : JsStr) : List SearchableToolParameter :=
  match props with
  | [] => []
  | (key, value) :: rest =>
    if key = js "properties" then
      match value with
      | .object named => namedParameters named parent
      | _ => []
    else propertyParameters rest parent

def namedParameters (named : List (JsStr × Json)) (parent : JsStr) : List SearchableToolParameter :=
  match named with
  | [] => []
  | (name, value) :: rest =>
    let fullName := if parent = [] then name else parent ++ js "." ++ name
    match value with
    | .object props =>
      let description := match Props.get? props (js "description") with
        | some (.string text) => some text
        | _ => none
      ⟨fullName, description⟩ :: extractSearchableParameters (.object props) fullName ++ namedParameters rest parent
    | .array _ => ⟨fullName, none⟩ :: namedParameters rest parent
    | _ => namedParameters rest parent

/-- What `items` of a schema declares. -/
def itemParameters (props : List (JsStr × Json)) (parent : JsStr) : List SearchableToolParameter :=
  match props with
  | [] => []
  | (key, value) :: rest =>
    if key = js "items" then extractSearchableParameters value (if parent = [] then [] else parent ++ js "[]")
    else itemParameters rest parent

/-- What the variants under the keyword declare. -/
def variantParameters (keyword : JsStr) (props : List (JsStr × Json)) (parent : JsStr) :
    List SearchableToolParameter :=
  match props with
  | [] => []
  | (key, value) :: rest =>
    if key = keyword then
      match value with
      | .array variants => eachVariant variants parent
      | _ => []
    else variantParameters keyword rest parent

def eachVariant (variants : List Json) (parent : JsStr) : List SearchableToolParameter :=
  match variants with
  | [] => []
  | variant :: rest => extractSearchableParameters variant parent ++ eachVariant rest parent

end

/-! ### The manager -/

structure ToolSearchManager where
  catalog : JsMap JsStr ToolSearchEntry
  searchableParameters : JsMap JsStr (List SearchableToolParameter)
  foldableNames : List JsStr
  foldedNames : List JsStr
  discoveredNames : List JsStr
  activeNames : List JsStr
  activated : Bool
  advertisedCatalog : List JsStr

structure ActiveToolsResult where
  activeToolNames : List JsStr
  activated : Bool
  changed : Bool

structure DiscoverResult where
  newNames : List JsStr
  alreadyDiscovered : List JsStr
  changed : Bool

structure ToolSearchCompactionDetails where
  discoveredToolNames : List JsStr
  addedToolNames : List JsStr

namespace ToolSearchManager

/-- `new ToolSearchManager()`. -/
def new : ToolSearchManager where
  catalog := .empty
  searchableParameters := .empty
  foldableNames := []
  foldedNames := []
  discoveredNames := []
  activeNames := []
  activated := false
  advertisedCatalog := []

def computeActiveToolNames (manager : ToolSearchManager) : List JsStr :=
  let names := manager.catalog.keys.filter fun name => !(manager.activated && name ∈ manager.foldedNames)
  if manager.activated && toolSearchToolName ∉ names then names ++ [toolSearchToolName] else names

/-- A tool of the catalog that may be folded. -/
def isFoldable (reserved : List JsStr) (tool : JsStr × ToolSearchEntry) : Bool :=
  tool.2.exposure = .direct && !isNativeEager tool.1 && tool.1 ≠ toolSearchToolName && tool.1 ∉ reserved

def recompute (manager : ToolSearchManager) (input : ToolSearchManagerInput) :
    ToolSearchManager × ActiveToolsResult :=
  let catalog := input.tools.foldl (fun catalog tool => catalog.set tool.name tool) .empty
  let searchableParameters := input.tools.foldl
    (fun parameters tool => parameters.set tool.name (extractSearchableParameters tool.parameters [])) .empty
  let foldableNames := (catalog.entries.filter (isFoldable input.reservedTools)).map Prod.fst
  let foldedUndiscovered := foldableNames.filter fun name => name ∉ manager.discoveredNames
  let activated := input.active && !foldedUndiscovered.isEmpty
  let next := { manager with
    catalog := catalog
    searchableParameters := searchableParameters
    foldableNames := foldableNames
    foldedNames := if activated then foldedUndiscovered else []
    activated := activated }
  let activeNames := next.computeActiveToolNames
  ({ next with activeNames := activeNames },
    { activeToolNames := activeNames
      activated := activated
      changed := manager.activated != activated || manager.activeNames != activeNames })

/-- The loop of `discover`. -/
structure Discovering where
  manager : ToolSearchManager
  seen : List JsStr
  newNames : List JsStr
  alreadyDiscovered : List JsStr

def Discovering.next (loop : Discovering) (name : JsStr) : Discovering :=
  if name ∈ loop.seen then loop
  else if name ∈ loop.manager.foldedNames then
    { loop with
      manager := { loop.manager with
        discoveredNames := addName loop.manager.discoveredNames name
        foldedNames := loop.manager.foldedNames.filter (· ≠ name) }
      seen := addName loop.seen name
      newNames := loop.newNames ++ [name] }
  else if name ∈ loop.manager.foldableNames ∧ name ∈ loop.manager.discoveredNames then
    { loop with seen := addName loop.seen name, alreadyDiscovered := loop.alreadyDiscovered ++ [name] }
  else { loop with seen := addName loop.seen name }

def discover (manager : ToolSearchManager) (names : List JsStr) : ToolSearchManager × DiscoverResult :=
  let loop := names.foldl Discovering.next ⟨manager, [], [], []⟩
  let result := ⟨loop.newNames, loop.alreadyDiscovered, !loop.newNames.isEmpty⟩
  if loop.newNames.isEmpty then (loop.manager, result)
  else
    let activated := loop.manager.activated && !loop.manager.foldedNames.isEmpty
    let next := { loop.manager with activated := activated }
    ({ next with activeNames := next.computeActiveToolNames }, result)

def restore (manager : ToolSearchManager) (names : List JsStr) : ToolSearchManager :=
  { manager with discoveredNames := addNames manager.discoveredNames names }

def reset (manager : ToolSearchManager) : ToolSearchManager :=
  { manager with
    foldableNames := []
    foldedNames := []
    discoveredNames := []
    activeNames := []
    activated := false
    advertisedCatalog := [] }

def filterNewNames (manager : ToolSearchManager) (names : List JsStr) : List JsStr :=
  (names.foldl addName []).filter fun name => name ∈ manager.foldedNames

def getSearchableTools (manager : ToolSearchManager) : List SearchableTool :=
  (manager.catalog.entries.filter fun tool =>
      tool.1 ∈ manager.foldedNames || tool.2.exposure = .deferred).map fun (name, entry) =>
    { name := entry.name
      description := entry.description
      promptSnippet := entry.promptSnippet
      toolNamespace := entry.toolNamespace
      parameters := (manager.searchableParameters.get? name).getD [] }

def buildCompactionDetailsSnapshot (manager : ToolSearchManager) (extensionAddedNames : List JsStr) :
    ToolSearchCompactionDetails :=
  let merged := dedupeNames (manager.discoveredNames ++ extensionAddedNames)
  { discoveredToolNames := merged, addedToolNames := merged }

/-! ### What the operations do -/

/-- The state of the names fits together: what is folded may be folded, something is folded exactly when the search
is activated, and the active names are those of the latest computation. -/
structure Settled (manager : ToolSearchManager) : Prop where
  folded_foldable : ∀ name ∈ manager.foldedNames, name ∈ manager.foldableNames
  foldable : toolSearchToolName ∉ manager.foldableNames
  activated : manager.activated = !manager.foldedNames.isEmpty
  activeNames : manager.activeNames = manager.computeActiveToolNames

theorem settled_new : Settled new := ⟨by simp [new], by simp [new], rfl, rfl⟩

theorem settled_recompute (manager : ToolSearchManager) (input : ToolSearchManagerInput) :
    Settled (manager.recompute input).1 where
  folded_foldable name hname := by
    simp only [recompute] at hname ⊢
    split_ifs at hname
    · exact (mem_filter.mp hname).1
    · exact absurd hname not_mem_nil
  foldable hname := by
    obtain ⟨tool, htool, heq⟩ := mem_map.mp hname
    have hfold := (mem_filter.mp htool).2
    simp [isFoldable, heq] at hfold
  activated := by
    simp only [recompute]
    split_ifs with hact
    · rw [hact]
      exact (Bool.and_eq_true_iff.mp hact).2.symm
    · exact Bool.eq_false_iff.mpr hact
  activeNames := rfl

theorem Settled.activeNames_eq {manager : ToolSearchManager} (hsett : Settled manager) :
    manager.activeNames = manager.catalog.keys.filter (· ∉ manager.foldedNames) ++
      if manager.foldedNames ≠ [] ∧ toolSearchToolName ∉ manager.catalog.keys then [toolSearchToolName] else [] := by
  have hunf : toolSearchToolName ∉ manager.foldedNames := fun hfol =>
    hsett.foldable (hsett.folded_foldable _ hfol)
  rw [hsett.activeNames, computeActiveToolNames, hsett.activated]
  by_cases hnone : manager.foldedNames = []
  · simp [hnone]
  · have hsome : manager.foldedNames.isEmpty = false := isEmpty_eq_false_iff.mpr hnone
    by_cases hcat : toolSearchToolName ∈ manager.catalog.keys
    · simp [hsome, hunf, hcat]
    · simp [hsome, hnone, hcat]

theorem recompute_congr {left right : ToolSearchManager} (input : ToolSearchManagerInput)
    (hdis : ∀ name, name ∈ left.discoveredNames ↔ name ∈ right.discoveredNames) :
    (left.recompute input).1 = { (right.recompute input).1 with
      discoveredNames := left.discoveredNames, advertisedCatalog := left.advertisedCatalog } := by
  simp only [recompute, computeActiveToolNames, hdis]

variable {loop : Discovering}

theorem Discovering.seen_next (hseen : ∀ name ∈ loop.seen, name ∉ loop.manager.foldedNames)
    (name : JsStr) : ∀ other ∈ (loop.next name).seen, other ∉ (loop.next name).manager.foldedNames := by
  intro other hother
  rw [next] at hother ⊢
  split_ifs at hother ⊢ with hname hfol
  · exact hseen other hother
  · intro hleft
    obtain ⟨hleft, hne⟩ := mem_filter.mp hleft
    rcases mem_addName.mp hother with hother | rfl
    · exact hseen other hother hleft
    · exact absurd rfl (of_decide_eq_true hne)
  all_goals
    rcases mem_addName.mp hother with hother | rfl
    · exact hseen other hother
    · exact hfol

theorem Discovering.manager_next (hseen : ∀ name ∈ loop.seen, name ∉ loop.manager.foldedNames)
    (name : JsStr) : (loop.next name).manager = { loop.manager with
      foldedNames := loop.manager.foldedNames.filter (· ≠ name)
      discoveredNames :=
        if name ∈ loop.manager.foldedNames then addName loop.manager.discoveredNames name
        else loop.manager.discoveredNames } := by
  by_cases hfol : name ∈ loop.manager.foldedNames
  · have hnew : name ∉ loop.seen := fun hname => hseen name hname hfol
    simp only [next, if_neg hnew, if_pos hfol]
  · have hkeep : loop.manager.foldedNames.filter (· ≠ name) = loop.manager.foldedNames :=
      filter_eq_self.mpr fun other hother => decide_eq_true fun heq => hfol (heq ▸ hother)
    simp only [next, if_neg hfol, hkeep]
    split_ifs <;> rfl

theorem Discovering.manager_foldl (names : List JsStr) {loop : Discovering}
    (hseen : ∀ name ∈ loop.seen, name ∉ loop.manager.foldedNames) :
    ∃ discovered, (names.foldl next loop).manager = { loop.manager with
        foldedNames := loop.manager.foldedNames.filter (· ∉ names), discoveredNames := discovered } ∧
      ∀ name, name ∈ discovered ↔
        name ∈ loop.manager.discoveredNames ∨ name ∈ names ∧ name ∈ loop.manager.foldedNames := by
  induction names generalizing loop with
  | nil => exact ⟨loop.manager.discoveredNames, by simp, by simp⟩
  | cons first names ih =>
    obtain ⟨discovered, hman, hmem⟩ := ih (seen_next hseen first)
    rw [manager_next hseen] at hman hmem
    refine ⟨discovered, ?_, fun name => ?_⟩
    · rw [foldl_cons, hman, filter_filter]
      simp only [mem_cons, not_or, ← Bool.decide_and, ne_eq, and_comm]
    · rw [hmem, mem_filter, mem_cons]
      by_cases heq : name = first
      · split_ifs with hfol <;> simp [heq, hfol]
      · split_ifs with hfol <;> simp [heq]

theorem Discovering.manager_of_nothing (names : List JsStr) (manager : ToolSearchManager)
    (hnot : (names.foldl next ⟨manager, [], [], []⟩).newNames = []) :
    (names.foldl next ⟨manager, [], [], []⟩).manager = manager :=
  @foldl_invariant _ _ next (fun loop => loop.newNames = [] → loop.manager = manager)
    (fun loop name hloop => by
      rw [next]
      split_ifs
      · exact hloop
      · exact fun hnil => absurd hnil (append_ne_nil_of_right_ne_nil _ (cons_ne_nil _ _))
      · exact hloop
      · exact hloop) names _ (fun _ => rfl) hnot

theorem discover_spec (manager : ToolSearchManager) (hsett : Settled manager) (names : List JsStr) :
    Settled (manager.discover names).1 ∧ ∀ name, name ∈ (manager.discover names).1.discoveredNames ↔
        name ∈ manager.discoveredNames ∨ name ∈ names ∧ name ∈ manager.foldedNames := by
  obtain ⟨discovered, hman, hmem⟩ := @Discovering.manager_foldl names
    ⟨manager, [], [], []⟩ (by simp)
  simp only [discover]
  split_ifs with hnot
  · rw [Discovering.manager_of_nothing names manager (List.isEmpty_iff.mp hnot)] at hman ⊢
    have hdis : manager.discoveredNames = discovered := congrArg discoveredNames hman
    exact ⟨hsett, fun name => hdis ▸ hmem name⟩
  · rw [hman]
    refine ⟨⟨fun name hname => ?_, hsett.foldable, ?_, rfl⟩, hmem⟩
    · exact hsett.folded_foldable name (mem_filter.mp hname).1
    · simp only
      cases hleft : (manager.foldedNames.filter (· ∉ names)).isEmpty with
      | true => rw [Bool.not_true, Bool.and_false]
      | false =>
        have hsome : manager.foldedNames ≠ [] := by
          rintro hnone
          rw [hnone] at hleft
          exact nomatch hleft
        rw [hsett.activated, Bool.not_false, Bool.and_true, isEmpty_eq_false_iff.mpr hsome, Bool.not_false]

end ToolSearchManager

end PiRp.ToolSearch
