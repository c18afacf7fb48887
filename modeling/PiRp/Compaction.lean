import PiRp.JsMap
import PiRp.JsonText

/-! Context compaction of `packages/coding-agent/src/core/compaction/compaction.ts` over the branch
path and context of `core/session-manager.ts`. A path is the list of entries from the root to the
leaf; `prepareCompaction` picks a cut on its indices, `buildSessionContext` finds the kept entries
again by id once the compaction entry is appended. -/

namespace PiRp

/-- `new Date(timestamp).getTime()`. -/
class DateText where
  getTime : JsStr → JsNumber

namespace JsNumber

/-- A number is true as a condition unless it is a zero or not a number. -/
def isTruthy (value : JsNumber) : Bool := value ≠ .int 0 && value ≠ .negZero && value ≠ .nan

/-- `value > 0`. -/
def isPositive : JsNumber → Bool
  | .int value => 0 < value
  | .fraction bits => bits.1 < 2 ^ 63
  | .infinite negative => !negative
  | .negZero | .nan => false

/-- `count >= value` for a count of the program. -/
def atMost (value : JsNumber) (count : Nat) : Bool :=
  match value with
  | .int value => value ≤ count
  | .negZero => true
  | .fraction bits =>
    2 ^ 63 ≤ bits.1 ||
      Float64.significand bits.1 ≤ count * 2 ^ (1075 - Float64.scale bits.1)
  | .infinite negative => negative
  | .nan => false

/-- `count < value`: false as well when the value is not a number. -/
def exceeds (value : JsNumber) (count : Nat) : Bool := value ≠ .nan && !value.atMost count

end JsNumber

namespace Compaction

inductive ContentBlock where
  | text (text : JsStr)
  | image
  | thinking (thinking : JsStr)
  | toolCall (name : JsStr) (arguments : Props Json)
  | other (type : JsStr)
  deriving DecidableEq

inductive Content where
  | text (text : JsStr)
  | blocks (blocks : List ContentBlock)
  deriving DecidableEq

structure Usage where
  input : JsNumber
  output : JsNumber
  cacheRead : JsNumber
  cacheWrite : JsNumber
  totalTokens : JsNumber
  deriving DecidableEq

inductive StopReason where
  | stop
  | length
  | toolUse
  | error
  | aborted
  deriving DecidableEq

/-- A message of the conversation. Session files are parsed without validation, so the content of a
model message can be missing. -/
inductive AgentMessage where
  | user (content : Option Content) (timestamp : JsNumber)
  | assistant (content : Option (List ContentBlock)) (provider model : JsStr)
      (stopReason : StopReason) (usage : Option Usage) (timestamp : JsNumber)
  | toolResult (content : Option Content) (toolCallId toolName : JsStr) (timestamp : JsNumber)
  | bashExecution (command output : JsStr) (timestamp : JsNumber)
  | custom (customType : JsStr) (content : Content) (display : Bool) (details : Option Json)
      (timestamp : JsNumber)
  | branchSummary (summary fromId : JsStr) (timestamp : JsNumber)
  | compactionSummary (summary : JsStr) (tokensBefore timestamp : JsNumber)
  | other (role : JsStr) (timestamp : JsNumber)
  deriving DecidableEq

/-- The files a generated compaction has recorded. -/
structure CompactionDetails where
  readFiles : Option (List JsStr)
  modifiedFiles : Option (List JsStr)
  deriving DecidableEq

structure CompactionData where
  summary : JsStr
  firstKeptEntryId : JsStr
  tokensBefore : JsNumber
  details : Option CompactionDetails
  fromHook : Bool
  deriving DecidableEq

/-- The entries that never enter the context and are read by no function here but by their type. -/
inductive MetadataType where
  | presetChange
  | state
  | schemaChange
  | strictChange
  | custom
  | label
  | sessionInfo

inductive EntryBody where
  | message (message : AgentMessage)
  | thinkingLevelChange (thinkingLevel : JsStr)
  | modelChange (provider modelId : JsStr)
  | compaction (data : CompactionData)
  | branchSummary (fromId summary : JsStr)
  | customMessage (customType : JsStr) (content : Option Content) (details : Option Json)
      (display : Bool)
  | metadata (type : MetadataType)

structure SessionEntry where
  id : JsStr
  parentId : Option JsStr
  timestamp : JsStr
  body : EntryBody

def SessionEntry.compaction? (entry : SessionEntry) : Option CompactionData :=
  match entry.body with
  | .compaction data => some data
  | _ => none

def SessionEntry.isCompaction (entry : SessionEntry) : Bool := entry.compaction?.isSome

section Context

variable [DateText]

def createCompactionSummaryMessage (data : CompactionData) (timestamp : JsStr) : AgentMessage :=
  .compactionSummary data.summary data.tokensBefore (DateText.getTime timestamp)

/-- Projects one entry into the messages the model sees; a missing content becomes empty. -/
def sessionEntryToContextMessages (entry : SessionEntry) : List AgentMessage :=
  match entry.body with
  | .message (.user none timestamp) => [.user (some (.blocks [])) timestamp]
  | .message (.assistant none provider model stopReason usage timestamp) =>
    [.assistant (some []) provider model stopReason usage timestamp]
  | .message (.toolResult none toolCallId toolName timestamp) =>
    [.toolResult (some (.blocks [])) toolCallId toolName timestamp]
  | .message message => [message]
  | .customMessage customType content details display =>
    [.custom customType (content.getD (.blocks [])) display details (DateText.getTime entry.timestamp)]
  | .branchSummary fromId summary =>
    if summary = [] then []
    else [.branchSummary summary fromId (DateText.getTime entry.timestamp)]
  | .compaction data => [createCompactionSummaryMessage data entry.timestamp]
  | .thinkingLevelChange _ | .modelChange _ _ | .metadata _ => []

/-! ### The path and its context -/

def buildEntryIndex (entries : List SessionEntry) : JsMap JsStr SessionEntry :=
  entries.foldl (fun index entry => index.set entry.id entry) .empty

/-- `current.parentId ? index.get(current.parentId) : undefined`. -/
def parentEntry (index : JsMap JsStr SessionEntry) (current : SessionEntry) :
    Option SessionEntry :=
  match current.parentId with
  | none => none
  | some parentId => if parentId = [] then none else index.get? parentId

/-- The parents from an entry up, the entry first. The loop of the source runs until a parent is
missing; a path of distinct entries takes at most one round for each of them. -/
def climb (index : JsMap JsStr SessionEntry) : Nat → Option SessionEntry → List SessionEntry
  | 0, _ | _ + 1, none => []
  | rounds + 1, some current =>
    current :: climb index rounds (parentEntry index current)

/-- The path to the last entry: `buildSessionPath` without a leaf id. -/
def buildSessionPath (entries : List SessionEntry) : List SessionEntry :=
  (climb (buildEntryIndex entries) entries.length entries.getLast?).reverse

/-- The entries of the active context: the last compaction, what it kept, what came after it. -/
def buildContextEntriesFromPath (path : List SessionEntry) : List SessionEntry :=
  match path.reverse.find? SessionEntry.isCompaction with
  | none => path
  | some compaction =>
    let compactionIdx := path.findIdx fun entry => entry.id = compaction.id
    let firstKeptEntryId := (compaction.compaction?.map CompactionData.firstKeptEntryId).getD []
    compaction ::
      ((path.take compactionIdx).dropWhile fun entry => entry.id ≠ firstKeptEntryId) ++
        path.drop (compactionIdx + 1)

structure SessionContext where
  messages : List AgentMessage
  thinkingLevel : JsStr
  model : Option (JsStr × JsStr)

/-- One entry's effect on the thinking level and the model of the context. -/
def SessionContext.trackSettings (context : SessionContext) (entry : SessionEntry) :
    SessionContext :=
  match entry.body with
  | .thinkingLevelChange thinkingLevel => { context with thinkingLevel }
  | .modelChange provider modelId => { context with model := some (provider, modelId) }
  | .message (.assistant _ provider model _ _ _) =>
    if provider = [] ∨ model = [] then context
    else { context with model := some (provider, model) }
  | _ => context

def buildSessionContextFromPath (path : List SessionEntry) : SessionContext :=
  path.foldl SessionContext.trackSettings
    ⟨(buildContextEntriesFromPath path).flatMap sessionEntryToContextMessages, js "off", none⟩

def buildSessionContext (entries : List SessionEntry) : SessionContext :=
  buildSessionContextFromPath (buildSessionPath entries)

end Context

/-! ### Token estimates -/

def isCjk (unit : UInt16) : Bool :=
  (0x3000 ≤ unit.toNat && unit.toNat ≤ 0x9FFF) || (0xF900 ≤ unit.toNat && unit.toNat ≤ 0xFAFF) ||
    (0xAC00 ≤ unit.toNat && unit.toNat ≤ 0xD7AF)

/-- Three quarters of a token for a CJK character, a quarter for any other, rounded up. -/
def estimateTextTokens (text : JsStr) : Nat :=
  let cjkChars := text.countP isCjk
  (cjkChars * 3 + (text.length - cjkChars) + 3) / 4

def estimatedImageChars : Nat := 4800

def estimateContentTokens : Content → Nat
  | .text text => estimateTextTokens text
  | .blocks blocks => (blocks.map fun block => match block with
      | .text text => estimateTextTokens text
      | .image => estimatedImageChars / 4
      | _ => 0).sum

variable [JsonText.NumberText]

def estimateTokens : AgentMessage → Nat
  | .user content _ | .toolResult content _ _ _ => (content.map estimateContentTokens).getD 0
  | .assistant content _ _ _ _ _ => ((content.getD []).map fun block => match block with
      | .text text => estimateTextTokens text
      | .thinking thinking => estimateTextTokens thinking
      | .toolCall name arguments =>
        estimateTextTokens (name ++ JsonText.stringify (.object arguments))
      | _ => 0).sum
  | .custom _ content _ _ _ => estimateContentTokens content
  | .bashExecution command output _ => estimateTextTokens (command ++ output)
  | .branchSummary summary _ _ | .compactionSummary summary _ _ => estimateTextTokens summary
  | .other _ _ => 0

variable [JsNumber.Addition]

def calculateContextTokens (usage : Usage) : JsNumber :=
  if usage.totalTokens.isTruthy then usage.totalTokens
  else
    JsNumber.Addition.add
      (JsNumber.Addition.add (JsNumber.Addition.add usage.input usage.output) usage.cacheRead)
      usage.cacheWrite

def getAssistantUsage : AgentMessage → Option Usage
  | .assistant _ _ _ stopReason (some usage) _ =>
    if stopReason ≠ .aborted ∧ stopReason ≠ .error ∧
        (calculateContextTokens usage).isPositive = true then
      some usage
    else none
  | _ => none

/-- The tokens of the messages: the last reported usage and an estimate of what follows it. -/
def estimateContextTokens (messages : List AgentMessage) : JsNumber :=
  let trailing := messages.reverse.takeWhile fun message => (getAssistantUsage message).isNone
  let estimated : JsNumber := .int (trailing.map estimateTokens).sum
  match messages.reverse.findSome? getAssistantUsage with
  | none => estimated
  | some usage => JsNumber.Addition.add (calculateContextTokens usage) estimated

/-! ### The cut point -/

variable [DateText]

def isCutPointMessage : AgentMessage → Bool
  | .user _ _ | .assistant _ _ _ _ _ _ | .bashExecution _ _ _ | .custom _ _ _ _ _
  | .branchSummary _ _ _ | .compactionSummary _ _ _ => true
  | .toolResult _ _ _ _ | .other _ _ => false

def isTurnStartMessage : AgentMessage → Bool
  | .user _ _ | .bashExecution _ _ _ | .custom _ _ _ _ _ | .branchSummary _ _ _
  | .compactionSummary _ _ _ => true
  | .assistant _ _ _ _ _ _ | .toolResult _ _ _ _ | .other _ _ => false

def isTurnStartEntry (entry : SessionEntry) : Bool :=
  !entry.isCompaction && (sessionEntryToContextMessages entry).any isTurnStartMessage

def isCutPointEntry (entry : SessionEntry) : Bool :=
  !entry.isCompaction && (sessionEntryToContextMessages entry).any isCutPointMessage

/-- The indices from `start` to before `stop`. -/
def indices (start stop : Nat) : List Nat := List.range' start (stop - start)

/-- The entry at an index passes the test. -/
def testAt (entries : List SessionEntry) (test : SessionEntry → Bool) (index : Nat) : Bool :=
  (entries[index]?).any test

def findValidCutPoints (entries : List SessionEntry) (startIndex endIndex : Nat) : List Nat :=
  (indices startIndex endIndex).filter (testAt entries isCutPointEntry)

/-- The turn start at or before an index, searched downwards. -/
def findTurnStartIndex (entries : List SessionEntry) (entryIndex startIndex : Nat) : Option Nat :=
  (indices startIndex (entryIndex + 1)).reverse.find? (testAt entries isTurnStartEntry)

structure CutPointResult where
  firstKeptEntryIndex : Nat
  turnStartIndex : Option Nat
  isSplitTurn : Bool

/-- The loop that counts turn starts downwards until `keepTraces` of them are found. -/
def countTraces (entries : List SessionEntry) (keepTraces : Nat) :
    List Nat → Nat → Option Nat → Nat × Option Nat
  | [], traces, traceStart => (traces, traceStart)
  | index :: rest, traces, traceStart =>
    if testAt entries isTurnStartEntry index then
      if traces + 1 = keepTraces then (traces + 1, some index)
      else countTraces entries keepTraces rest (traces + 1) (some index)
    else countTraces entries keepTraces rest traces traceStart

def entryTokens (entries : List SessionEntry) (index : Nat) : Nat :=
  match entries[index]? with
  | none => 0
  | some entry => ((sessionEntryToContextMessages entry).map estimateTokens).sum

/-- The loop that adds up message sizes downwards until the recent budget is reached: the cut is the
first cut point from there on. -/
def cutByTokens (entries : List SessionEntry) (cutPoints : List Nat) (keepRecentTokens : JsNumber)
    (default : Nat) : List Nat → Nat → Nat
  | [], _ => default
  | index :: rest, accumulatedTokens =>
    let messageTokens := entryTokens entries index
    if messageTokens = 0 then
      cutByTokens entries cutPoints keepRecentTokens default rest accumulatedTokens
    else if keepRecentTokens.atMost (accumulatedTokens + messageTokens) then
      (cutPoints.find? fun cutPoint => index ≤ cutPoint).getD default
    else
      cutByTokens entries cutPoints keepRecentTokens default rest
        (accumulatedTokens + messageTokens)

/-- Entries without messages before the cut travel with it; a compaction stops them. -/
def travelBack (entries : List SessionEntry) (startIndex : Nat) : Nat → Nat
  | 0 => 0
  | cutIndex + 1 =>
    if startIndex < cutIndex + 1 then
      if testAt entries
          (fun entry => entry.isCompaction || !(sessionEntryToContextMessages entry).isEmpty)
          cutIndex then
        cutIndex + 1
      else travelBack entries startIndex cutIndex
    else cutIndex + 1

/-- `keepTraces` as a positive safe integer. -/
def positiveSafeInteger? : JsNumber → Option Nat
  | .int value => if 0 < value ∧ value.natAbs ≤ maxSafeInteger then some value.toNat else none
  | _ => none

def keepTracesMessage : JsStr := js "keepTraces must be a positive safe integer."

/-- The index both modes cut at: the start of the `keepTraces`-th turn from the end, or by size. -/
def chooseCutIndex (entries : List SessionEntry) (cutPoints : List Nat) (first startIndex : Nat)
    (downwards : List Nat) (keepRecentTokens : JsNumber) (keepTraces : Option JsNumber) :
    Except JsStr Nat :=
  match keepTraces with
  | none => .ok (cutByTokens entries cutPoints keepRecentTokens first downwards 0)
  | some keepTraces =>
    match positiveSafeInteger? keepTraces with
    | none => .error keepTracesMessage
    | some keepTraces =>
      let (traces, traceStart) := countTraces entries keepTraces downwards 0 none
      .ok (if traces < keepTraces then startIndex else traceStart.getD startIndex)

def findCutPoint (entries : List SessionEntry) (startIndex endIndex : Nat)
    (keepRecentTokens : JsNumber) (keepTraces : Option JsNumber) :
    Except JsStr CutPointResult :=
  match findValidCutPoints entries startIndex endIndex with
  | [] => .ok ⟨startIndex, none, false⟩
  | first :: others => do
      let cutIndex ← chooseCutIndex entries (first :: others) first startIndex
        (indices startIndex endIndex).reverse keepRecentTokens keepTraces
      let cutIndex := travelBack entries startIndex cutIndex
      let startsTurn := testAt entries isTurnStartEntry cutIndex
      let turnStartIndex :=
        if startsTurn then none else findTurnStartIndex entries cutIndex startIndex
      return ⟨cutIndex, turnStartIndex, !startsTurn && turnStartIndex.isSome⟩

/-! ### The preparation -/

structure CompactionSettings where
  enabled : Bool
  reserveTokens : JsNumber
  keepRecentTokens : Option JsNumber
  keepTraces : Option JsNumber
  summaryMaxTokens : Option JsNumber
  thresholdTokens : Option JsNumber
  deriving DecidableEq

/-- `DEFAULT_COMPACTION_SETTINGS.keepRecentTokens`. -/
def defaultKeepRecentTokens : JsNumber := .int 20000

/-- Sets in insertion order. -/
structure FileOperations where
  read : List JsStr
  written : List JsStr
  edited : List JsStr
  deriving DecidableEq

def addFile (files : List JsStr) (file : JsStr) : List JsStr :=
  if file ∈ files then files else files ++ [file]

def extractFileOpsFromBlock (fileOps : FileOperations) : ContentBlock → FileOperations
  | .toolCall name arguments =>
    match arguments.get? (js "path") with
    | some (.string path) =>
      if path = [] then fileOps
      else if name = js "read" then { fileOps with read := addFile fileOps.read path }
      else if name = js "write" then { fileOps with written := addFile fileOps.written path }
      else if name = js "edit" then { fileOps with edited := addFile fileOps.edited path }
      else fileOps
    | _ => fileOps
  | _ => fileOps

def extractFileOpsFromMessage (fileOps : FileOperations) : AgentMessage → FileOperations
  | .assistant (some blocks) _ _ _ _ _ => blocks.foldl extractFileOpsFromBlock fileOps
  | _ => fileOps

/-- The file operations of the messages, on top of those the previous compaction has recorded. -/
def extractFileOperations (messages : List AgentMessage) (prevCompaction : Option CompactionData) :
    FileOperations :=
  let details := prevCompaction.bind fun data => if data.fromHook then none else data.details
  let fileOps : FileOperations :=
    ⟨((details.bind CompactionDetails.readFiles).getD []).foldl addFile [], [],
      ((details.bind CompactionDetails.modifiedFiles).getD []).foldl addFile []⟩
  messages.foldl extractFileOpsFromMessage fileOps

structure CompactionPreparation where
  firstKeptEntryId : JsStr
  messagesToSummarize : List AgentMessage
  turnPrefixMessages : List AgentMessage
  isSplitTurn : Bool
  tokensBefore : JsNumber
  previousSummary : Option JsStr
  fileOps : FileOperations
  settings : CompactionSettings
  deriving DecidableEq

/-- `KEEP_NOTHING`: the id no entry has. -/
def keepNothingId : JsStr := []

def getMessageFromEntryForCompaction (entry : SessionEntry) : Option AgentMessage :=
  if entry.isCompaction then none else (sessionEntryToContextMessages entry).head?

/-- The entries at the indices from `start` to before `stop`. -/
def slice (entries : List SessionEntry) (start stop : Nat) : List SessionEntry :=
  (entries.take stop).drop start

/-- The index of the last compaction of the path. -/
def prevCompactionIndex (pathEntries : List SessionEntry) : Option Nat :=
  (indices 0 pathEntries.length).reverse.find? (testAt pathEntries SessionEntry.isCompaction)

/-- The data of the last compaction of the path. -/
def prevCompaction (pathEntries : List SessionEntry) : Option CompactionData :=
  (prevCompactionIndex pathEntries).bind fun index =>
    (pathEntries[index]?).bind SessionEntry.compaction?

/-- The first index of an entry with the id. -/
def indexOfId? (pathEntries : List SessionEntry) (id : JsStr) : Option Nat :=
  pathEntries.findIdx? fun entry => entry.id = id

/-- Where the entries start that the context still shows: what the previous compaction kept, or what
follows it. -/
def boundaryStart (pathEntries : List SessionEntry) : Nat :=
  match prevCompactionIndex pathEntries, prevCompaction pathEntries with
  | some index, some data => (indexOfId? pathEntries data.firstKeptEntryId).getD (index + 1)
  | _, _ => 0

/-- The cut of a preparation: `keepRecent = false` keeps no entry. -/
def prepareCut (pathEntries : List SessionEntry) (settings : CompactionSettings)
    (keepRecent : Bool) : Except JsStr CutPointResult :=
  if keepRecent then
    findCutPoint pathEntries (boundaryStart pathEntries) pathEntries.length
      (settings.keepRecentTokens.getD defaultKeepRecentTokens) settings.keepTraces
  else .ok ⟨pathEntries.length, none, false⟩

/-- The preparation for a cut. Without history to summarize it is given up when nothing is kept, or
when the turn prefix is smaller than the recent budget. -/
def preparationAt (pathEntries : List SessionEntry) (settings : CompactionSettings)
    (keepRecent : Bool) (cutPoint : CutPointResult) : Option CompactionPreparation :=
  let tokensBefore := estimateContextTokens (buildSessionContext pathEntries).messages
  let firstKeptEntryId :=
    if keepRecent then ((pathEntries[cutPoint.firstKeptEntryIndex]?).map SessionEntry.id).getD []
    else keepNothingId
  if keepRecent = true ∧ firstKeptEntryId = [] then none
  else
    let historyEnd :=
      if cutPoint.isSplitTurn then cutPoint.turnStartIndex.getD 0
      else cutPoint.firstKeptEntryIndex
    let messagesToSummarize :=
      (slice pathEntries (boundaryStart pathEntries) historyEnd).filterMap
        getMessageFromEntryForCompaction
    let turnPrefixMessages :=
      if cutPoint.isSplitTurn then
        (slice pathEntries historyEnd cutPoint.firstKeptEntryIndex).filterMap
          getMessageFromEntryForCompaction
      else []
    let prefixTokens := (turnPrefixMessages.map estimateTokens).sum
    if messagesToSummarize = [] ∧ (keepRecent = false ∨
        (settings.keepRecentTokens.getD defaultKeepRecentTokens).exceeds prefixTokens = true) then
      none
    else
      let fileOps := extractFileOperations messagesToSummarize (prevCompaction pathEntries)
      some {
        firstKeptEntryId, messagesToSummarize, turnPrefixMessages
        isSplitTurn := cutPoint.isSplitTurn
        tokensBefore
        previousSummary := (prevCompaction pathEntries).map CompactionData.summary
        fileOps :=
          if cutPoint.isSplitTurn then turnPrefixMessages.foldl extractFileOpsFromMessage fileOps
          else fileOps
        settings }

def prepareCompaction (pathEntries : List SessionEntry) (settings : CompactionSettings)
    (keepRecent : Bool) : Except JsStr (Option CompactionPreparation) :=
  if (pathEntries.getLast?).any SessionEntry.isCompaction then .ok none
  else do
    let cutPoint ← prepareCut pathEntries settings keepRecent
    return preparationAt pathEntries settings keepRecent cutPoint

end Compaction

end PiRp
