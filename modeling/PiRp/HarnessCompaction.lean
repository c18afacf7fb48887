import PiRp.Compact
import PiRp.JsonDecimal

/-! Compaction of the agent harness, `packages/agent/src/harness/compaction/compaction.ts`, beside the
one of the coding agent. An entry of the harness stores the messages its compaction retained, so a
preparation starts from these and what follows. Both versions of `compact` merge their summary in the
same way; what they do with the previous summary is settled for both at the end. -/

namespace PiRp.HarnessCompaction

open Compaction

structure CompactionData where
  summary : JsStr
  retainedTail : List AgentMessage
  details : Option CompactionDetails

inductive EntryBody where
  | message (message : AgentMessage)
  | branchSummary (summary fromId : JsStr) (timestamp : JsNumber)
  | compaction (data : CompactionData)
  /-- `thinking_level_change`, `model_change`, `active_tools_change` and `custom`. -/
  | metadata

def EntryBody.compaction? : EntryBody → Option CompactionData
  | .compaction data => some data
  | _ => none

def EntryBody.isCompaction (entry : EntryBody) : Bool := entry.compaction?.isSome

def getMessageFromEntryForCompaction : EntryBody → Option AgentMessage
  | .message message => some message
  | .branchSummary summary fromId timestamp => some (.branchSummary summary fromId timestamp)
  | .compaction _ | .metadata => none

/-! ### The cut point -/

def isCutPointEntry : EntryBody → Bool
  | .message message => isCutPointMessage message
  | .branchSummary _ _ _ => true
  | .compaction _ | .metadata => false

def isTurnStartEntry : EntryBody → Bool
  | .message (.user _ _) | .message (.bashExecution _ _ _) | .branchSummary _ _ _ => true
  | _ => false

def isUserMessage : EntryBody → Bool
  | .message (.user _ _) => true
  | _ => false

def testAt (entries : List EntryBody) (test : EntryBody → Bool) (index : Nat) : Bool :=
  (entries[index]?).any test

def findValidCutPoints (entries : List EntryBody) : List Nat :=
  (indices 0 entries.length).filter (testAt entries isCutPointEntry)

def findTurnStartIndex (entries : List EntryBody) (entryIndex : Nat) : Option Nat :=
  (indices 0 (entryIndex + 1)).reverse.find? (testAt entries isTurnStartEntry)

section Cut

variable [JsonText.NumberText]

/-- The loop over the messages from the end; other entries do not count. -/
def cutByTokens (entries : List EntryBody) (cutPoints : List Nat) (keepRecentTokens : JsNumber)
    (default : Nat) : List Nat → Nat → Nat
  | [], _ => default
  | index :: rest, accumulatedTokens =>
    match entries[index]? with
    | some (.message message) =>
      let accumulatedTokens := accumulatedTokens + estimateTokens message
      if keepRecentTokens.atMost accumulatedTokens then
        (cutPoints.find? fun cutPoint => index ≤ cutPoint).getD default
      else cutByTokens entries cutPoints keepRecentTokens default rest accumulatedTokens
    | _ => cutByTokens entries cutPoints keepRecentTokens default rest accumulatedTokens

/-- Entries before the cut that are no message travel with it; a compaction stops them. -/
def travelBack (entries : List EntryBody) : Nat → Nat
  | 0 => 0
  | cutIndex + 1 =>
    match entries[cutIndex]? with
    | some (.message _) | some (.compaction _) => cutIndex + 1
    | _ => travelBack entries cutIndex

def findCutPoint (entries : List EntryBody) (keepRecentTokens : JsNumber) : CutPointResult :=
  match findValidCutPoints entries with
  | [] => ⟨0, none, false⟩
  | first :: others =>
    let cutIndex := travelBack entries (cutByTokens entries (first :: others) keepRecentTokens first
      (indices 0 entries.length).reverse 0)
    let isUser := testAt entries isUserMessage cutIndex
    let turnStartIndex := if isUser then none else findTurnStartIndex entries cutIndex
    ⟨cutIndex, turnStartIndex, !isUser && turnStartIndex.isSome⟩

/-! ### The preparation -/

def slice (entries : List EntryBody) (start stop : Nat) : List EntryBody :=
  (entries.take stop).drop start

def prevCompaction (pathEntries : List EntryBody) : Option CompactionData :=
  pathEntries.reverse.findSome? EntryBody.compaction?

/-- The retained messages of the last compaction as entries, and what follows it. -/
def compactableEntries (pathEntries : List EntryBody) : List EntryBody :=
  match prevCompaction pathEntries with
  | none => pathEntries
  | some data =>
    data.retainedTail.map .message ++
      (pathEntries.reverse.takeWhile fun entry => !entry.isCompaction).reverse

structure CompactionPreparation where
  messagesToSummarize : List AgentMessage
  turnPrefixMessages : List AgentMessage
  retainedTail : List AgentMessage
  isSplitTurn : Bool
  previousSummary : Option JsStr
  fileOps : FileOperations
  deriving DecidableEq

/-- The file operations of the messages, on top of those the previous compaction has recorded. -/
def extractFileOperations (messages : List AgentMessage) (prevCompaction : Option CompactionData) :
    FileOperations :=
  let details := prevCompaction.bind CompactionData.details
  let fileOps : FileOperations :=
    ⟨((details.bind CompactionDetails.readFiles).getD []).foldl addFile [], [],
      ((details.bind CompactionDetails.modifiedFiles).getD []).foldl addFile []⟩
  messages.foldl extractFileOpsFromMessage fileOps

def historyEnd (cutPoint : CutPointResult) : Nat :=
  if cutPoint.isSplitTurn then cutPoint.turnStartIndex.getD 0 else cutPoint.firstKeptEntryIndex

def preparationAt (pathEntries : List EntryBody) (keepRecentTokens : JsNumber)
    (cutPoint : CutPointResult) : Option CompactionPreparation :=
  let entries := compactableEntries pathEntries
  let messagesToSummarize :=
    (slice entries 0 (historyEnd cutPoint)).filterMap getMessageFromEntryForCompaction
  let turnPrefixMessages :=
    if cutPoint.isSplitTurn then
      (slice entries (historyEnd cutPoint) cutPoint.firstKeptEntryIndex).filterMap
        getMessageFromEntryForCompaction
    else []
  if messagesToSummarize = [] ∧
      keepRecentTokens.exceeds (turnPrefixMessages.map estimateTokens).sum = true then none
  else
    let fileOps := extractFileOperations messagesToSummarize (prevCompaction pathEntries)
    some {
      messagesToSummarize, turnPrefixMessages
      retainedTail := (slice entries cutPoint.firstKeptEntryIndex entries.length).filterMap
        getMessageFromEntryForCompaction
      isSplitTurn := cutPoint.isSplitTurn
      previousSummary := (prevCompaction pathEntries).map CompactionData.summary
      fileOps :=
        if cutPoint.isSplitTurn then turnPrefixMessages.foldl extractFileOpsFromMessage fileOps
        else fileOps }

def prepareCompaction (pathEntries : List EntryBody) (keepRecentTokens : JsNumber) :
    Option CompactionPreparation :=
  if pathEntries = [] ∨ (pathEntries.getLast?).any EntryBody.isCompaction = true then none
  else
    preparationAt pathEntries keepRecentTokens
      (findCutPoint (compactableEntries pathEntries) keepRecentTokens)

end Cut

/-! ### The summary -/

/-- The text of a response, or the error of the generating functions; an aborted call is one. -/
def generateText (summarizer : Summarizer) (request : SummarizationRequest) : Except JsStr JsStr :=
  match summarizer request with
  | .error error => .error error
  | .ok response =>
    match response.stopReason with
    | .aborted => .error (match response.errorMessage with
        | none => request.label ++ js " aborted"
        | some message => if message = [] then request.label ++ js " aborted" else message)
    | .error => .error (request.label ++ js " failed: " ++ response.reason)
    | .stop | .length | .toolUse => .ok (contentText response.content)

def CompactionPreparation.task (preparation : CompactionPreparation) : SummaryTask where
  messagesToSummarize := preparation.messagesToSummarize
  turnPrefixMessages := preparation.turnPrefixMessages
  isSplitTurn := preparation.isSplitTurn
  previousSummary := preparation.previousSummary
  fileOps := preparation.fileOps

structure CompactResult where
  summary : JsStr
  retainedTail : List AgentMessage
  readFiles : List JsStr
  modifiedFiles : List JsStr

def compact (preparation : CompactionPreparation) (customInstructions : Option JsStr)
    (summarizer : Summarizer) : List SummarizationRequest × Except JsStr CompactResult :=
  let made := preparation.task.run customInstructions (generateText summarizer)
  (made.1, made.2.map fun summary => {
    summary
    retainedTail := preparation.retainedTail
    readFiles := (computeFileLists preparation.fileOps).1
    modifiedFiles := (computeFileLists preparation.fileOps).2 })

/-! ### What happens to the previous summary -/

/-- The cut falls inside the first turn that has messages. -/
def CutsFirstTurn (pathEntries : List EntryBody) (cutPoint : CutPointResult) : Prop :=
  cutPoint.isSplitTurn = true ∧
    (∃ entry ∈ slice (compactableEntries pathEntries) (cutPoint.turnStartIndex.getD 0)
      cutPoint.firstKeptEntryIndex, getMessageFromEntryForCompaction entry ≠ none) ∧
    ∀ entry ∈ slice (compactableEntries pathEntries) 0 (cutPoint.turnStartIndex.getD 0),
      getMessageFromEntryForCompaction entry = none

theorem exists_generateText (request : SummarizationRequest) (text : JsStr) :
    ∃ summarizer, generateText summarizer request = .ok text := by
  refine ⟨fun _ => .ok ⟨.stop, none, [.text text]⟩, ?_⟩
  rw [generateText]
  simp [contentText, JsStr.join]

section Preparation

variable [JsonText.NumberText]

theorem skipsHistory_iff {pathEntries : List EntryBody} {keepRecentTokens : JsNumber}
    {preparation : CompactionPreparation}
    (hprep : prepareCompaction pathEntries keepRecentTokens = some preparation) :
    preparation.previousSummary = (prevCompaction pathEntries).map CompactionData.summary ∧
      (preparation.task.SkipsHistory ↔ CutsFirstTurn pathEntries
        (findCutPoint (compactableEntries pathEntries) keepRecentTokens)) := by
  rw [prepareCompaction] at hprep
  split_ifs at hprep
  rw [preparationAt] at hprep
  dsimp only at hprep
  split_ifs at hprep
  all_goals obtain rfl := Option.some.inj hprep
  all_goals refine ⟨rfl, ?_⟩
  all_goals simp only [SummaryTask.SkipsHistory, CutsFirstTurn, CompactionPreparation.task]
  all_goals simp_all [List.filterMap_eq_nil_iff, historyEnd]

variable [DateText] [JsNumber.Addition]

/-- **When a compaction keeps the previous summary.** For every answer of the model, the previous
summary is handed to the model or is part of the new summary, exactly when the cut does not fall inside
the first turn with messages. Then no history is asked for and "No prior history." takes the place of
the previous summary, which is kept only if its text happens to be part of the fixed texts. -/
theorem compact_keeps_summary_iff :
    (∀ (pathEntries : List SessionEntry) (settings : CompactionSettings) (keepRecent : Bool)
      (preparation : Compaction.CompactionPreparation) (data : Compaction.CompactionData)
      (customInstructions : Option JsStr),
      Compaction.prepareCompaction pathEntries settings keepRecent = .ok (some preparation) →
      Compaction.prevCompaction pathEntries = some data → data.summary ≠ [] →
      ((∀ summarizer, KeepsSummary data.summary (Compaction.compact preparation customInstructions summarizer).1
          ((Compaction.compact preparation customInstructions summarizer).2.map CompactionResult.summary)) ↔
        (∀ cutPoint, prepareCut pathEntries settings keepRecent = .ok cutPoint →
          ¬ Compaction.CutsFirstTurn pathEntries cutPoint) ∨ data.summary <:+: noPriorHistory ++ turnContextMark ∨
          data.summary <:+: fileText preparation.fileOps)) ∧
    ∀ (pathEntries : List EntryBody) (keepRecentTokens : JsNumber)
      (preparation : CompactionPreparation) (data : CompactionData) (customInstructions : Option JsStr),
      prepareCompaction pathEntries keepRecentTokens = some preparation →
      prevCompaction pathEntries = some data → data.summary ≠ [] → ((∀ summarizer, KeepsSummary data.summary
          (compact preparation customInstructions summarizer).1
          ((compact preparation customInstructions summarizer).2.map CompactResult.summary)) ↔
        ¬ CutsFirstTurn pathEntries (findCutPoint (compactableEntries pathEntries) keepRecentTokens) ∨
          data.summary <:+: noPriorHistory ++ turnContextMark ∨ data.summary <:+: fileText preparation.fileOps) := by
  constructor
  · intro pathEntries settings keepRecent preparation data customInstructions hprep hdata hne
    obtain ⟨hprev, hskips⟩ := Compaction.skipsHistory_iff hprep
    rw [hdata, Option.map_some] at hprev
    have hkeeps := @SummaryTask.keeps_iff _ preparation.task _ hne hprev customInstructions _
      Compaction.exists_generateText
    rw [← hskips]
    refine Iff.trans (forall_congr' fun summarizer => ?_) hkeeps
    simp only [Compaction.compact]
    cases (preparation.task.run customInstructions (Compaction.generateText summarizer)).2 with
    | error error => rfl
    | ok summary => rfl
  · intro pathEntries keepRecentTokens preparation data customInstructions hprep hdata hne
    obtain ⟨hprev, hskips⟩ := skipsHistory_iff hprep
    rw [hdata, Option.map_some] at hprev
    have hkeeps := @SummaryTask.keeps_iff _ preparation.task _ hne hprev customInstructions _
      exists_generateText
    rw [← hskips]
    refine Iff.trans (forall_congr' fun summarizer => ?_) hkeeps
    simp only [compact]
    cases (preparation.task.run customInstructions (generateText summarizer)).2 with
    | error error => rfl
    | ok summary => rfl

end Preparation

section Sample

local instance : DateText := ⟨fun _ => .int 0⟩

local instance : JsonText.NumberText := JsonText.decimalNumbers

local instance : JsNumber.Addition := JsNumber.integerAddition

def sampleAnswer (text : String) : AgentMessage :=
  .assistant (some [.text (js text)]) (js "p") (js "m") .stop none (.int 0)

def sampleQuestion (text : String) : AgentMessage := .user (some (.text (js text))) (.int 0)

def sampleData : Compaction.CompactionData := ⟨js "old", js "b", .int 4, none, false⟩

/-- A compaction in the middle of the turn that starts with the entry `b`, which it kept. -/
def sampleEntries : List SessionEntry :=
  [⟨js "a", none, js "t", .message (sampleQuestion "one")⟩,
    ⟨js "b", some (js "a"), js "t", .message (sampleQuestion "two")⟩,
    ⟨js "c", some (js "b"), js "t", .message (sampleAnswer "six")⟩,
    ⟨js "d", some (js "c"), js "t", .compaction sampleData⟩,
    ⟨js "e", some (js "d"), js "t", .message (sampleAnswer "ten")⟩]

def sampleSettings (keepRecentTokens : Int) : CompactionSettings :=
  ⟨true, .int 16384, some (.int keepRecentTokens), none, none, none⟩

def samplePreparation : Compaction.CompactionPreparation :=
  ⟨js "e", [], [sampleQuestion "two", sampleAnswer "six"], true, .int 4, some (js "old"), ⟨[], [], []⟩,
    sampleSettings 1⟩

def sampleSummarizer : Summarizer := fun _ => .ok ⟨.stop, none, [.text (js "new")]⟩

/-- The next compaction cuts the same turn and loses the summary of what came before it. -/
theorem compact_drops_summary :
    Compaction.prepareCompaction sampleEntries (sampleSettings 1) true = .ok (some samplePreparation) ∧
      Compaction.prevCompaction sampleEntries = some sampleData ∧ sampleData.summary ≠ [] ∧
      ¬ KeepsSummary sampleData.summary (Compaction.compact samplePreparation none sampleSummarizer).1
        ((Compaction.compact samplePreparation none sampleSummarizer).2.map CompactionResult.summary) := by
  refine ⟨by decide +kernel, by decide +kernel, by decide, ?_⟩
  rintro (⟨request, hreq, hpas⟩ | hkept)
  · have hreques : (Compaction.compact samplePreparation none sampleSummarizer).1 =
        [.turnPrefix [sampleQuestion "two", sampleAnswer "six"]] := by decide +kernel
    rw [hreques, List.mem_singleton] at hreq
    rw [hreq] at hpas
    exact nomatch hpas
  · have hsum : (Compaction.compact samplePreparation none sampleSummarizer).2.map
        CompactionResult.summary = .ok (noPriorHistory ++ turnContextMark ++ js "new") := by
      decide +kernel
    exact absurd (hkept _ hsum) (by decide +kernel)

/-- An earlier turn is left to summarize when two turns follow the boundary. -/
def turnEntries : List SessionEntry :=
  sampleEntries ++ [⟨js "f", some (js "e"), js "t", .message (sampleQuestion "end")⟩]

def turnPreparation : Compaction.CompactionPreparation :=
  ⟨js "f", [sampleQuestion "two", sampleAnswer "six", sampleAnswer "ten"], [], false, .int 5,
    some (js "old"), ⟨[], [], []⟩, sampleSettings 1⟩

theorem compact_keeps_summary_sample : (∀ summarizer, KeepsSummary sampleData.summary
        (Compaction.compact turnPreparation none summarizer).1
        ((Compaction.compact turnPreparation none summarizer).2.map CompactionResult.summary)) ∧
      ∀ summarizer, KeepsSummary (js "old")
        (compact ⟨[sampleAnswer "six"], [], [sampleQuestion "end"], false, some (js "old"),
          ⟨[], [], []⟩⟩ none summarizer).1
        ((compact ⟨[sampleAnswer "six"], [], [sampleQuestion "end"], false, some (js "old"),
          ⟨[], [], []⟩⟩ none summarizer).2.map CompactResult.summary) := by
  constructor
  · refine (compact_keeps_summary_iff.1 turnEntries (sampleSettings 1) true turnPreparation sampleData none
      (by decide +kernel) (by decide +kernel) (by decide)).mpr (.inl fun cutPoint hcut => ?_)
    have hsplit : prepareCut turnEntries (sampleSettings 1) true = .ok ⟨5, none, false⟩ := rfl
    rw [hsplit] at hcut
    rw [← Except.ok.inj hcut]
    exact fun hcuts => nomatch hcuts.1
  · refine (compact_keeps_summary_iff.2 [.compaction ⟨js "old", [sampleAnswer "six"], none⟩,
      .message (sampleQuestion "end")] (.int 1) _ ⟨js "old", [sampleAnswer "six"], none⟩ none
      (by decide +kernel) rfl (by decide)).mpr (.inl fun hcuts => ?_)
    exact nomatch hcuts.1

end Sample

end PiRp.HarnessCompaction
