import PiRp.EventRun
import PiRp.JsValue
import PiRp.JsonDecimal
import PiRp.ToolSearch

/-! What a session records of the tools that were discovered, and the manager of a session that is resumed: the
branch is scanned for the names in its tool results, the latest compaction adds its checkpoint, and the manager is
reset and restored with these names. -/

namespace PiRp.ToolSearch

open List JsonText ToolSearchManager

/-! ### Branches -/

/-- A part of an assistant message. -/
inductive AssistantPart where
  | toolCall (id name : JsStr)
  | other

structure ToolResultMessage where
  toolCallId : JsStr
  isError : Bool
  addedToolNames : Option Json
  details : Option Json
  /-- The texts of the content; `none` is a part without text. -/
  content : List (Option JsStr)

inductive SessionEntry where
  | assistant (content : List AssistantPart)
  | toolResult (message : ToolResultMessage)
  | compaction (details : Option Json)
  | other

def memberOf (value : Json) (key : JsStr) : Option Json :=
  match value with
  | .object props => Props.get? props key
  | _ => none

/-- The items of an array; any other value has none. -/
def candidatesOf : Option Json → List Json
  | some (.array items) => items
  | _ => []

def stringOf : Json → Option JsStr
  | .string text => some text
  | _ => none

/-- `addValidNames`; the names that were seen are those of the target. -/
def addValidNames (target : List JsStr) (candidates : Option Json) : List JsStr :=
  addNames target ((candidatesOf candidates).filterMap stringOf)

/-- A candidate of a payload: a name, or an object with one. -/
def candidateName (candidate : Json) : Option JsStr :=
  match candidate with
  | .string name => some name
  | _ => (memberOf candidate (js "name")).bind stringOf

/-- `collectFrom`. -/
def collectFrom (collected : List JsStr) (payload : Option Json) : List JsStr :=
  let candidates := [js "addedToolNames", js "names", js "tools"].flatMap fun key =>
    candidatesOf (payload.bind (memberOf · key))
  addNames collected (candidates.filterMap candidateName)

section Branches

variable [NumberText]

def parseToolSearchResultNames (result : ToolResultMessage) : List JsStr :=
  let collected := collectFrom [] result.details
  let text := JsStr.join (js "\n") (result.content.map fun part => part.getD [])
  let trimmed := text.dropWhile JsStr.isWhitespace
  if JsStr.startsWith trimmed (js "\x7b") || JsStr.startsWith trimmed (js "[") then
    collectFrom collected (parse text)
  else collected

omit [NumberText] in
def readCheckpointNames (details : Option Json) : List JsStr :=
  let added := (details.bind (memberOf · (js "deferred"))).bind (memberOf · (js "addedToolNames"))
  ((candidatesOf added).filterMap stringOf).filter (· ≠ [])

/-- The loop of `scanBranchForToolSearchDiscovery`. -/
structure Scanning where
  discoveredNames : List JsStr
  pendingSearchCalls : List JsStr

def Scanning.next (scan : Scanning) (entry : SessionEntry) : Scanning :=
  match entry with
  | .assistant content =>
    { scan with pendingSearchCalls := content.foldl (fun pending part =>
        match part with
        | .toolCall id name => if name = toolSearchToolName then addName pending id else pending
        | .other => pending) scan.pendingSearchCalls }
  | .toolResult message =>
    let discovered := addValidNames scan.discoveredNames message.addedToolNames
    { discoveredNames :=
        if message.toolCallId ∈ scan.pendingSearchCalls ∧ message.isError = false then
          addNames discovered (parseToolSearchResultNames message)
        else discovered
      pendingSearchCalls := scan.pendingSearchCalls.filter (· ≠ message.toolCallId) }
  | _ => scan

structure ToolSearchBranchScan where
  discoveredNames : List JsStr
  latestCheckpointNames : List JsStr

/-- The names of the compaction that comes first. -/
def firstCheckpointNames : List SessionEntry → List JsStr
  | [] => []
  | .compaction details :: _ => readCheckpointNames details
  | _ :: rest => firstCheckpointNames rest

def scanBranchForToolSearchDiscovery (branch : List SessionEntry) : ToolSearchBranchScan where
  discoveredNames := (branch.foldl Scanning.next ⟨[], []⟩).discoveredNames
  latestCheckpointNames := firstCheckpointNames branch.reverse

def collectRestoredToolNames (scan : ToolSearchBranchScan) : List JsStr :=
  addNames (addNames [] scan.discoveredNames) scan.latestCheckpointNames

/-- The names as a versioned record with one list. -/
def versioned (field : JsStr) (names : List JsStr) : Json :=
  .object [(js "version", .number (.int 1)), (field, .array (names.map .string))]

/-- The members of a record; any other value has none. -/
def membersOf : Option Json → Props Json
  | some (.object props) => props
  | _ => []

def mergeToolSearchCompactionDetails (existing : Option Json) (snapshot : ToolSearchCompactionDetails) : Json :=
  .object (Props.set
    (Props.set (membersOf existing) (js "toolSearch") (versioned (js "discoveredToolNames") snapshot.discoveredToolNames))
    (js "deferred") (versioned (js "addedToolNames") snapshot.addedToolNames))

omit [NumberText] in
theorem filterMap_stringOf (names : List JsStr) : (names.map Json.string).filterMap stringOf = names := by
  rw [filterMap_map]
  exact filterMap_some

omit [NumberText] in
theorem readCheckpointNames_merge (existing : Option Json) (snapshot : ToolSearchCompactionDetails) :
    readCheckpointNames (some (mergeToolSearchCompactionDetails existing snapshot)) =
      snapshot.addedToolNames.filter (· ≠ []) := by
  have hadded : memberOf (versioned (js "addedToolNames") snapshot.addedToolNames) (js "addedToolNames") =
      some (.array (snapshot.addedToolNames.map .string)) := by
    rw [versioned, memberOf, Props.get?, if_neg (by decide), Props.get?, if_pos rfl]
  rw [readCheckpointNames, mergeToolSearchCompactionDetails, Option.bind_some, memberOf, Props.get?_set, if_pos rfl,
    Option.bind_some, hadded, candidatesOf, filterMap_stringOf]

/-! ### Sessions -/

/-- A tool result of a batch. -/
structure ToolResultAgentMessage where
  toolCallId : JsStr
  isError : Bool
  addedToolNames : Option (List JsStr)
  details : Option Json
  content : List (Option JsStr)

namespace ToolResultAgentMessage

/-- `result.addedToolNames ?? []`. -/
def addedNames (result : ToolResultAgentMessage) : List JsStr := result.addedToolNames.getD []

/-- The result as the branch records it. -/
def message (result : ToolResultAgentMessage) : ToolResultMessage where
  toolCallId := result.toolCallId
  isError := result.isError
  addedToolNames := result.addedToolNames.map fun names => .array (names.map .string)
  details := result.details
  content := result.content

omit [NumberText] in
theorem filterMap_message (result : ToolResultAgentMessage) :
    (candidatesOf result.message.addedToolNames).filterMap stringOf = result.addedNames := by
  rw [message, addedNames]
  cases result.addedToolNames with
  | none => rfl
  | some names => exact filterMap_stringOf names

end ToolResultAgentMessage

/-- A session with the names that `filterNewNames` has returned so far. -/
structure ToolSearchSession where
  manager : ToolSearchManager
  branch : List SessionEntry
  returned : List JsStr

inductive Event where
  | recompute (input : ToolSearchManagerInput)
  | filterNewNames (names : List JsStr)
  /-- A batch of tool results is recorded and its names are discovered. -/
  | discover (results : List ToolResultAgentMessage)
  | compaction (existing : Option Json) (extensionAddedNames : List JsStr)
  /-- An assistant message is recorded. -/
  | assistant (content : List AssistantPart)
  /-- An entry without tool calls or results is recorded. -/
  | other

namespace ToolSearchSession

def start : ToolSearchSession := ⟨.new, [], []⟩

omit [NumberText] in
def step (session : ToolSearchSession) (event : Event) : ToolSearchSession :=
  match event with
  | .recompute input => { session with manager := (session.manager.recompute input).1 }
  | .filterNewNames names => { session with returned := session.returned ++ session.manager.filterNewNames names }
  | .discover results =>
    { session with
      manager := (session.manager.discover (results.flatMap fun result => result.addedNames)).1
      branch := session.branch ++ results.map fun result => .toolResult result.message }
  | .compaction existing extensionAddedNames =>
    { session with branch := session.branch ++ [.compaction (some (mergeToolSearchCompactionDetails existing
        (session.manager.buildCompactionDetailsSnapshot extensionAddedNames)))] }
  | .assistant content => { session with branch := session.branch ++ [.assistant content] }
  | .other => { session with branch := session.branch ++ [.other] }

/-- The names of a result come from `filterNewNames` and its payload has no others; the names that a compaction adds
are those that the branch records. -/
def Recorded (session : ToolSearchSession) : Event → Prop
  | .discover results => ∀ result ∈ results, (∀ name ∈ result.addedNames, name ∈ session.returned) ∧
      ∀ name ∈ parseToolSearchResultNames result.message, name ∈ result.addedNames
  | .compaction _ extensionAddedNames =>
    ∀ name ∈ extensionAddedNames, name ∈ (scanBranchForToolSearchDiscovery session.branch).discoveredNames
  | _ => True

/-- The names of a result are not empty and, when the batch completes, each is still folded or already discovered. -/
def Timely (session : ToolSearchSession) (event : Event) : Prop :=
  session.Recorded event ∧
    match event with
    | .discover results => ∀ result ∈ results, ∀ name ∈ result.addedNames, name ≠ [] ∧
        (name ∈ session.manager.foldedNames ∨ name ∈ session.manager.discoveredNames)
    | _ => True

instance (session : ToolSearchSession) (event : Event) : Decidable (session.Recorded event) :=
  match event with
  | .discover results => inferInstanceAs (Decidable (∀ result ∈ results, _ ∧ _))
  | .compaction _ extensionAddedNames => inferInstanceAs (Decidable (∀ name ∈ extensionAddedNames, _))
  | .recompute _ | .filterNewNames _ | .assistant _ | .other => isTrue trivial

instance (session : ToolSearchSession) (event : Event) : Decidable (session.Timely event) :=
  match event with
  | .discover results =>
    inferInstanceAs (Decidable (session.Recorded (.discover results) ∧ ∀ result ∈ results, ∀ name ∈ _, _ ∧ (_ ∨ _)))
  | .recompute input => inferInstanceAs (Decidable (session.Recorded (.recompute input) ∧ True))
  | .filterNewNames names => inferInstanceAs (Decidable (session.Recorded (.filterNewNames names) ∧ True))
  | .compaction existing names => inferInstanceAs (Decidable (session.Recorded (.compaction existing names) ∧ True))
  | .assistant content => inferInstanceAs (Decidable (session.Recorded (.assistant content) ∧ True))
  | .other => inferInstanceAs (Decidable (session.Recorded .other ∧ True))

/-! ### What the branch tells of the manager -/

omit [NumberText] in
theorem firstCheckpointNames_append {front : List SessionEntry} (rest : List SessionEntry)
    (hfront : ∀ entry ∈ front, ∀ details, entry ≠ .compaction details) :
    firstCheckpointNames (front ++ rest) = firstCheckpointNames rest := by
  induction front with
  | nil => rfl
  | cons entry front ih =>
    obtain ⟨hentry, hrest⟩ := forall_mem_cons.mp hfront
    cases entry with
    | compaction details => exact absurd rfl (hentry details)
    | _ => exact ih hrest

theorem latestCheckpointNames_append (branch : List SessionEntry) {entries : List SessionEntry}
    (hents : ∀ entry ∈ entries, ∀ details, entry ≠ .compaction details) :
    (scanBranchForToolSearchDiscovery (branch ++ entries)).latestCheckpointNames =
      (scanBranchForToolSearchDiscovery branch).latestCheckpointNames := by
  rw [scanBranchForToolSearchDiscovery, scanBranchForToolSearchDiscovery, reverse_append]
  exact firstCheckpointNames_append _ fun entry hentry => hents entry (mem_reverse.mp hentry)

theorem mem_discoveredNames_next (scan : Scanning) {result : ToolResultAgentMessage}
    (hload : ∀ name ∈ parseToolSearchResultNames result.message, name ∈ result.addedNames) (name : JsStr) :
    name ∈ (scan.next (.toolResult result.message)).discoveredNames ↔
      name ∈ scan.discoveredNames ∨ name ∈ result.addedNames ∧ name ≠ [] := by
  have hadded : name ∈ addValidNames scan.discoveredNames result.message.addedToolNames ↔
      name ∈ scan.discoveredNames ∨ name ∈ result.addedNames ∧ name ≠ [] := by
    rw [addValidNames, result.filterMap_message, mem_addNames]
  simp only [Scanning.next]
  split_ifs
  · rw [mem_addNames, hadded, or_iff_left_iff_imp]
    exact fun hname => .inr ⟨hload name hname.1, hname.2⟩
  · exact hadded

theorem mem_discoveredNames_results (results : List ToolResultAgentMessage) (scan : Scanning)
    (hload : ∀ result ∈ results, ∀ name ∈ parseToolSearchResultNames result.message, name ∈ result.addedNames)
    (name : JsStr) :
    name ∈ ((results.map fun result => SessionEntry.toolResult result.message).foldl Scanning.next scan).discoveredNames ↔
      name ∈ scan.discoveredNames ∨ name ∈ results.flatMap ToolResultAgentMessage.addedNames ∧ name ≠ [] := by
  induction results generalizing scan with
  | nil => simp
  | cons result results ih =>
    obtain ⟨hres, hresul⟩ := forall_mem_cons.mp hload
    rw [map_cons, foldl_cons, ih _ hresul, mem_discoveredNames_next scan hres, flatMap_cons,
      mem_append, or_and_right, or_assoc]

/-- The manager has discovered what the branch records. -/
structure Mirrors (session : ToolSearchSession) : Prop where
  settled : session.manager.Settled
  discovered : ∀ name, name ∈ session.manager.discoveredNames ↔
    name ∈ (scanBranchForToolSearchDiscovery session.branch).discoveredNames
  checkpoint : ∀ name ∈ (scanBranchForToolSearchDiscovery session.branch).latestCheckpointNames,
    name ∈ session.manager.discoveredNames
  ne_nil : ∀ name ∈ session.manager.discoveredNames, name ≠ []

theorem mirrors_start : Mirrors start where
  settled := settled_new
  discovered _ := Iff.rfl
  checkpoint _ hname := absurd hname not_mem_nil
  ne_nil _ hname := absurd hname not_mem_nil

variable {session : ToolSearchSession}

section

variable (hmir : Mirrors session)

include hmir

theorem Mirrors.discover
    {results : List ToolResultAgentMessage} (htim : session.Timely (.discover results)) :
    Mirrors (session.step (.discover results)) := by
  obtain ⟨hrec, hstate⟩ := htim
  obtain ⟨hsett, hdis⟩ := session.manager.discover_spec hmir.settled
    (results.flatMap fun result => result.addedNames)
  have hchec : (scanBranchForToolSearchDiscovery (session.branch ++
      results.map fun result => SessionEntry.toolResult result.message)).latestCheckpointNames =
        (scanBranchForToolSearchDiscovery session.branch).latestCheckpointNames :=
    latestCheckpointNames_append session.branch (by simp)
  refine ⟨hsett, fun name => ?_, fun name hname => ?_, fun name hname => ?_⟩
  · rw [step, hdis, scanBranchForToolSearchDiscovery, foldl_append,
      mem_discoveredNames_results results _ fun result hres => (hrec result hres).2]
    constructor
    · rintro (hname | ⟨hname, -⟩)
      · exact .inl ((hmir.discovered name).mp hname)
      · obtain ⟨result, hres, hname⟩ := mem_flatMap.mp hname
        exact .inr ⟨mem_flatMap.mpr ⟨result, hres, hname⟩, (hstate result hres name hname).1⟩
    · rintro (hname | ⟨hname, -⟩)
      · exact .inl ((hmir.discovered name).mpr hname)
      · obtain ⟨result, hres, hadded⟩ := mem_flatMap.mp hname
        rcases (hstate result hres name hadded).2 with hfol | hknown
        · exact .inr ⟨hname, hfol⟩
        · exact .inl hknown
  · refine (hdis name).mpr (.inl (hmir.checkpoint name ?_))
    rwa [step, hchec] at hname
  · rcases (hdis name).mp hname with hknown | ⟨hname, -⟩
    · exact hmir.ne_nil name hknown
    · obtain ⟨result, hres, hname⟩ := mem_flatMap.mp hname
      exact (hstate result hres name hname).1

theorem Mirrors.compaction {existing : Option Json}
    {extensionAddedNames : List JsStr} (hrec : session.Recorded (.compaction existing extensionAddedNames)) :
    Mirrors (session.step (.compaction existing extensionAddedNames)) := by
  refine ⟨hmir.settled, fun name => ?_, fun name hname => ?_, hmir.ne_nil⟩
  · rw [step, scanBranchForToolSearchDiscovery, foldl_append]
    exact hmir.discovered name
  · rw [step, scanBranchForToolSearchDiscovery, reverse_concat, firstCheckpointNames,
      readCheckpointNames_merge] at hname
    have hmer := (mem_dedupeNames.mp (mem_filter.mp hname).1).1
    rcases mem_append.mp hmer with hname | hname
    · exact hname
    · exact (hmir.discovered name).mpr (hrec name hname)

theorem Mirrors.step {event : Event}
    (htim : session.Timely event) : Mirrors (session.step event) := by
  cases event with
  | recompute input =>
    exact { hmir with settled := session.manager.settled_recompute input }
  | filterNewNames names => exact { hmir with }
  | discover results => exact hmir.discover htim
  | compaction existing extensionAddedNames => exact hmir.compaction htim.1
  | assistant content =>
    refine ⟨hmir.settled, fun name => ?_, fun name hname => hmir.checkpoint name ?_,
      hmir.ne_nil⟩
    · rw [ToolSearchSession.step, scanBranchForToolSearchDiscovery, foldl_append]
      exact hmir.discovered name
    · rwa [ToolSearchSession.step, latestCheckpointNames_append _ (by simp)] at hname
  | other =>
    refine ⟨hmir.settled, fun name => ?_, fun name hname => hmir.checkpoint name ?_,
      hmir.ne_nil⟩
    · rw [ToolSearchSession.step, scanBranchForToolSearchDiscovery, foldl_append]
      exact hmir.discovered name
    · rwa [ToolSearchSession.step, latestCheckpointNames_append _ (by simp)] at hname

end

/-- A manager that is reset and restored from the branch. -/
def resume (manager : ToolSearchManager) (branch : List SessionEntry) : ToolSearchManager :=
  manager.reset.restore (collectRestoredToolNames (scanBranchForToolSearchDiscovery branch))

theorem Mirrors.mem_resume (hmir : Mirrors session) (manager : ToolSearchManager) (name : JsStr) :
    name ∈ (resume manager session.branch).discoveredNames ↔ name ∈ session.manager.discoveredNames := by
  rw [resume, restore, reset, collectRestoredToolNames, mem_addNames, mem_addNames, mem_addNames]
  constructor
  · rintro (hname | ⟨(hname | ⟨hname, -⟩) | ⟨hname, -⟩, -⟩)
    · exact absurd hname not_mem_nil
    · exact absurd hname not_mem_nil
    · exact (hmir.discovered name).mpr hname
    · exact hmir.checkpoint name hname
  · intro hname
    have hne := hmir.ne_nil name hname
    exact .inr ⟨.inl (.inr ⟨(hmir.discovered name).mp hname, hne⟩), hne⟩

/-- The two managers show the same. -/
structure Agree (left right : ToolSearchManager) : Prop where
  activeNames : left.activeNames = right.activeNames
  activated : left.activated = right.activated
  foldedNames : left.foldedNames = right.foldedNames
  searchableTools : left.getSearchableTools = right.getSearchableTools

omit [NumberText] in
theorem agree_recompute {left right : ToolSearchManager} (input : ToolSearchManagerInput)
    (hdis : ∀ name, name ∈ left.discoveredNames ↔ name ∈ right.discoveredNames) :
    Agree (left.recompute input).1 (right.recompute input).1 := by
  rw [recompute_congr input hdis]
  exact ⟨rfl, rfl, rfl, rfl⟩

theorem Mirrors.run (hmir : Mirrors session) {events : List Event}
    (htim : AllowedRun ToolSearchSession.step Timely session events) :
    Mirrors (events.foldl ToolSearchSession.step session) :=
  htim.invariant (fun _ _ hmir htim => hmir.step htim) hmir

/-- **What is discovered survives a resumption.** After every history whose batches complete in time, a manager that is
restored from the branch shows what the live one does after the next input; and the active names are those of the
catalog that are not folded, followed by `tool_search` when something is folded and the catalog has no such tool. -/
theorem discovery_survives_resume (events : List Event) (htim : AllowedRun step Timely start events) :
    let live := events.foldl step start
    live.manager.activeNames = live.manager.catalog.keys.filter (· ∉ live.manager.foldedNames) ++
        (if live.manager.foldedNames ≠ [] ∧ toolSearchToolName ∉ live.manager.catalog.keys then [toolSearchToolName]
          else []) ∧
      ∀ (manager : ToolSearchManager) (input : ToolSearchManagerInput),
        Agree ((resume manager live.branch).recompute input).1 (live.manager.recompute input).1 := by
  have hmir := mirrors_start.run htim
  exact ⟨hmir.settled.activeNames_eq, fun manager input => agree_recompute input (hmir.mem_resume manager)⟩

end ToolSearchSession

end Branches

/-! ### Examples -/

namespace ToolSearchSession

local instance : NumberText := decimalNumbers

/-- A tool without parameters that the model declares. -/
def directTool (name : JsStr) : ToolSearchEntry where
  name := name
  description := name
  promptSnippet := none
  parameters := .object []
  exposure := .direct
  toolNamespace := none

/-- The result of a search that found the tools. -/
def foundTools (names : List JsStr) : ToolResultAgentMessage where
  toolCallId := js "call"
  isError := false
  addedToolNames := some names
  details := some (.object [(js "matchedToolNames", .array (names.map .string)),
    (js "addedToolNames", .array (names.map .string))])
  content := [some (JsStr.join (js "\n") names)]

/-- A search finds a tool, and a later catalog has further ones. -/
def searchedSession : List Event :=
  let tools := [directTool (js "read"), directTool (js "alpha"), directTool (js "beta")]
  [.recompute ⟨tools, true, []⟩, .assistant [.toolCall (js "call") toolSearchToolName],
    .filterNewNames [js "alpha"], .discover [foundTools [js "alpha"]], .compaction none [js "alpha"],
    .recompute ⟨tools ++ [directTool (js "gamma")], true, []⟩]

theorem discovery_survives_resume_sample : (searchedSession.foldl step start).manager.activeNames =
        (searchedSession.foldl step start).manager.catalog.keys.filter
            (· ∉ (searchedSession.foldl step start).manager.foldedNames) ++
          (if (searchedSession.foldl step start).manager.foldedNames ≠ [] ∧
              toolSearchToolName ∉ (searchedSession.foldl step start).manager.catalog.keys then [toolSearchToolName]
            else []) ∧ ∀ (manager : ToolSearchManager) (input : ToolSearchManagerInput),
        Agree ((resume manager (searchedSession.foldl step start).branch).recompute input).1
          ((searchedSession.foldl step start).manager.recompute input).1 :=
  discovery_survives_resume searchedSession (by decide +kernel)

/-- A tool is found, and before the batch completes it is reserved. -/
def lateBatch : List Event :=
  [.recompute ⟨[directTool (js "alpha")], true, []⟩, .filterNewNames [js "alpha"],
    .recompute ⟨[directTool (js "alpha")], true, [js "alpha"]⟩, .discover [foundTools [js "alpha"]]]

/-- A tool without a name is found. -/
def namelessTool : List Event :=
  [.recompute ⟨[directTool []], true, []⟩, .filterNewNames [[]], .discover [foundTools [[]]]]

/-- The catalog has a tool of the name `tool_search`. -/
def catalogSearch : List Event := [.recompute ⟨[directTool toolSearchToolName, directTool (js "alpha")], true, []⟩]

/-- A name that is not folded any more when its batch completes is in the branch and not discovered; so is an empty
name; and a catalog tool of the name `tool_search` is not followed by another one. -/
theorem resume_differs : (AllowedRun step Recorded start lateBatch ∧ ¬Agree
        ((resume .new (lateBatch.foldl step start).branch).recompute ⟨[directTool (js "alpha")], true, []⟩).1
        ((lateBatch.foldl step start).manager.recompute ⟨[directTool (js "alpha")], true, []⟩).1) ∧
      (AllowedRun step Recorded start namelessTool ∧ ¬Agree
        ((resume .new (namelessTool.foldl step start).branch).recompute ⟨[directTool []], true, []⟩).1
        ((namelessTool.foldl step start).manager.recompute ⟨[directTool []], true, []⟩).1) ∧
      AllowedRun step Recorded start catalogSearch ∧ (catalogSearch.foldl step start).manager.activeNames ≠
          (catalogSearch.foldl step start).manager.catalog.keys.filter
            (· ∉ (catalogSearch.foldl step start).manager.foldedNames) ++
          (if (catalogSearch.foldl step start).manager.foldedNames ≠ [] then [toolSearchToolName] else []) :=
  ⟨⟨by decide +kernel, fun hagree => absurd hagree.foldedNames (by decide +kernel)⟩,
    ⟨by decide +kernel, fun hagree => absurd hagree.foldedNames (by decide +kernel)⟩,
    by decide +kernel, by decide +kernel⟩

end ToolSearchSession

end PiRp.ToolSearch
