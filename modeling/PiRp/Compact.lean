import PiRp.Compaction
import PiRp.ExceptBind
import PiRp.JsSplit

/-! The summaries of a compaction: `compact` of `packages/coding-agent/src/core/compaction/compaction.ts`.
What the summarization model answers is an arbitrary function of the request; a run of `compact` makes
at most one request of each kind. -/

namespace PiRp.Compaction

/-- A request to the summarization model, by the arguments of the function that sends it. -/
inductive SummarizationRequest where
  /-- `generateSummaryWithUsage`. -/
  | history (messages : List AgentMessage) (customInstructions previousSummary : Option JsStr)
  /-- `generateTurnPrefixSummary`. -/
  | turnPrefix (messages : List AgentMessage)
  deriving DecidableEq

def SummarizationRequest.previousSummary? : SummarizationRequest → Option JsStr
  | .history _ _ previousSummary => previousSummary
  | .turnPrefix _ => none

def SummarizationRequest.label : SummarizationRequest → JsStr
  | .history _ _ _ => js "Summarization"
  | .turnPrefix _ => js "Turn prefix summarization"

/-- The assistant message that answers a request. -/
structure SummarizationResponse where
  stopReason : StopReason
  errorMessage : Option JsStr
  content : List ContentBlock

/-- The call fails or a response arrives. -/
abbrev Summarizer := SummarizationRequest → Except JsStr SummarizationResponse

/-- `response.errorMessage || "Unknown error"`. -/
def SummarizationResponse.reason (response : SummarizationResponse) : JsStr :=
  match response.errorMessage with
  | none => js "Unknown error"
  | some message => if message = [] then js "Unknown error" else message

/-- Why a response cannot be kept; a text that was cut off is incomplete. -/
def getSummarizationFailure (response : SummarizationResponse) (label : JsStr) : Option JsStr :=
  match response.stopReason with
  | .error => some (label ++ js " failed: " ++ response.reason)
  | .length =>
    some (label ++ js " failed: generation hit the token cap and the summary is incomplete")
  | .stop | .toolUse | .aborted => none

def contentText (content : List ContentBlock) : JsStr :=
  JsStr.join (js "\n") (content.filterMap fun block => match block with
    | .text text => some text
    | _ => none)

/-- The text both generating functions return, or the error they throw. -/
def generateText (summarizer : Summarizer) (request : SummarizationRequest) : Except JsStr JsStr :=
  match summarizer request with
  | .error error => .error error
  | .ok response =>
    match getSummarizationFailure response request.label with
    | some failure => .error failure
    | none => .ok (contentText response.content)

/-! ### The file lists -/

def sortTexts (texts : List JsStr) : List JsStr := texts.insertionSort (· ≤ ·)

def computeFileLists (fileOps : FileOperations) : List JsStr × List JsStr :=
  let modified := fileOps.written.foldl addFile (fileOps.edited.foldl addFile [])
  (sortTexts (fileOps.read.filter fun file => file ∉ modified), sortTexts modified)

/-- The lists of files in tags, after an empty line. -/
def formatFileOperations (readFiles modifiedFiles : List JsStr) : JsStr :=
  let sections :=
    (if readFiles = [] then []
      else [js "<read-files>\n" ++ JsStr.join (js "\n") readFiles ++ js "\n</read-files>"]) ++
    if modifiedFiles = [] then []
      else [js "<modified-files>\n" ++ JsStr.join (js "\n") modifiedFiles ++ js "\n</modified-files>"]
  if sections = [] then [] else js "\n\n" ++ JsStr.join (js "\n\n") sections

def fileText (fileOps : FileOperations) : JsStr :=
  formatFileOperations (computeFileLists fileOps).1 (computeFileLists fileOps).2

/-! ### The summary -/

def noPriorHistory : JsStr := js "No prior history."

def turnContextMark : JsStr := js "\n\n---\n\n**Turn Context (split turn):**\n\n"

/-- The part of a preparation the summary is made from. -/
structure SummaryTask where
  messagesToSummarize : List AgentMessage
  turnPrefixMessages : List AgentMessage
  isSplitTurn : Bool
  previousSummary : Option JsStr
  fileOps : FileOperations

/-- The requests of a run and the text it merges from the answers. -/
def SummaryTask.summarize (task : SummaryTask) (customInstructions : Option JsStr)
    (generate : SummarizationRequest → Except JsStr JsStr) :
    List SummarizationRequest × Except JsStr JsStr :=
  let history := .history task.messagesToSummarize customInstructions task.previousSummary
  let turn := .turnPrefix task.turnPrefixMessages
  if task.isSplitTurn = true ∧ task.turnPrefixMessages ≠ [] then
    if task.messagesToSummarize = [] then
      ([turn], (generate turn).map fun text => noPriorHistory ++ turnContextMark ++ text)
    else
      match generate history with
      | .error error => ([history], .error error)
      | .ok historyText =>
        ([history, turn], (generate turn).map fun text => historyText ++ turnContextMark ++ text)
  else ([history], generate history)

/-- The summary with the lists of files. -/
def SummaryTask.run (task : SummaryTask) (customInstructions : Option JsStr)
    (generate : SummarizationRequest → Except JsStr JsStr) :
    List SummarizationRequest × Except JsStr JsStr :=
  let made := task.summarize customInstructions generate
  (made.1, made.2.map fun summary => summary ++ fileText task.fileOps)

def CompactionPreparation.task (preparation : CompactionPreparation) : SummaryTask where
  messagesToSummarize := preparation.messagesToSummarize
  turnPrefixMessages := preparation.turnPrefixMessages
  isSplitTurn := preparation.isSplitTurn
  previousSummary := preparation.previousSummary
  fileOps := preparation.fileOps

structure CompactionResult where
  summary : JsStr
  firstKeptEntryId : JsStr
  tokensBefore : JsNumber
  readFiles : List JsStr
  modifiedFiles : List JsStr

/-- The requests `compact` makes and what it returns. -/
def compact (preparation : CompactionPreparation) (customInstructions : Option JsStr)
    (summarizer : Summarizer) : List SummarizationRequest × Except JsStr CompactionResult :=
  let made := preparation.task.run customInstructions (generateText summarizer)
  (made.1, made.2.map fun summary => {
    summary
    firstKeptEntryId := preparation.firstKeptEntryId
    tokensBefore := preparation.tokensBefore
    readFiles := (computeFileLists preparation.fileOps).1
    modifiedFiles := (computeFileLists preparation.fileOps).2 })

/-! ### What happens to the previous summary -/

/-- A summary is handed to the model, or is part of every text the run returns. -/
def KeepsSummary (summary : JsStr) (requests : List SummarizationRequest)
    (result : Except JsStr JsStr) : Prop :=
  (∃ request ∈ requests, request.previousSummary? = some summary) ∨
    ∀ text, result = .ok text → summary <:+: text

/-- The history is asked for, which carries the previous summary, unless the run only has the prefix
of a turn. -/
def SummaryTask.SkipsHistory (task : SummaryTask) : Prop :=
  task.isSplitTurn = true ∧ task.turnPrefixMessages ≠ [] ∧ task.messagesToSummarize = []

theorem SummaryTask.history_mem_of_not_skips {task : SummaryTask} (hskips : ¬ task.SkipsHistory)
    (customInstructions : Option JsStr) (generate : SummarizationRequest → Except JsStr JsStr) :
    .history task.messagesToSummarize customInstructions task.previousSummary ∈
      (task.run customInstructions generate).1 := by
  rw [run, summarize]
  by_cases hsplit : task.isSplitTurn = true ∧ task.turnPrefixMessages ≠ []
  · have hmsgs : task.messagesToSummarize ≠ [] := fun hempty =>
      hskips ⟨hsplit.1, hsplit.2, hempty⟩
    rw [if_pos hsplit, if_neg hmsgs]
    cases generate (.history task.messagesToSummarize customInstructions task.previousSummary) with
    | error error => exact List.mem_cons_self
    | ok historyText => exact List.mem_cons_self
  · rw [if_neg hsplit]
    exact List.mem_cons_self

theorem SummaryTask.run_of_skips {task : SummaryTask} (hskips : task.SkipsHistory)
    (customInstructions : Option JsStr) (generate : SummarizationRequest → Except JsStr JsStr) :
    task.run customInstructions generate =
      ([.turnPrefix task.turnPrefixMessages], (generate (.turnPrefix task.turnPrefixMessages)).map
        fun text => noPriorHistory ++ turnContextMark ++ (text ++ fileText task.fileOps)) := by
  obtain ⟨hsplit, hpref, hmsgs⟩ := hskips
  rw [run, summarize, if_pos ⟨hsplit, hpref⟩, if_pos hmsgs]
  cases generate (.turnPrefix task.turnPrefixMessages) with
  | error error => rfl
  | ok text => simp only [Except.map, List.append_assoc]

/-- Over every behaviour of a model that can answer any text, the previous summary is kept exactly
when the history is asked for or the summary is part of the fixed texts. -/
theorem SummaryTask.keeps_iff {β : Type*} {task : SummaryTask} {summary : JsStr} (hne : summary ≠ [])
    (hprev : task.previousSummary = some summary) (customInstructions : Option JsStr)
    {generate : β → SummarizationRequest → Except JsStr JsStr}
    (hany : ∀ request text, ∃ behaviour, generate behaviour request = .ok text) :
    (∀ behaviour, KeepsSummary summary (task.run customInstructions (generate behaviour)).1
        (task.run customInstructions (generate behaviour)).2) ↔
      ¬ task.SkipsHistory ∨ summary <:+: noPriorHistory ++ turnContextMark ∨ summary <:+: fileText task.fileOps := by
  by_cases hskips : task.SkipsHistory
  · rw [or_iff_right (not_not_intro hskips), ← forall_infix_iff hne]
    constructor
    · intro hkeeps text
      obtain ⟨behaviour, hans⟩ := hany (.turnPrefix task.turnPrefixMessages) text
      have hkept := hkeeps behaviour
      rw [run_of_skips hskips, hans] at hkept
      rcases hkept with ⟨request, hreq, hpas⟩ | hkept
      · obtain rfl := List.mem_singleton.mp hreq
        exact nomatch hpas
      · exact hkept _ rfl
    · intro hall behaviour
      rw [run_of_skips hskips]
      refine .inr fun text htext => ?_
      cases hans : generate behaviour (.turnPrefix task.turnPrefixMessages) with
      | error error =>
        rw [hans] at htext
        exact nomatch htext
      | ok answer =>
        rw [hans] at htext
        obtain rfl := Except.ok.inj htext
        exact hall answer
  · refine ⟨fun _ => .inl hskips, fun _ behaviour => .inl ?_⟩
    exact ⟨_, task.history_mem_of_not_skips hskips customInstructions (generate behaviour), hprev⟩

section Preparation

variable [DateText]

/-- The cut falls inside the first turn that has messages: nothing before that turn is left to
summarize. -/
def CutsFirstTurn (pathEntries : List SessionEntry) (cutPoint : CutPointResult) : Prop :=
  cutPoint.isSplitTurn = true ∧
    (∃ entry ∈ slice pathEntries (cutPoint.turnStartIndex.getD 0) cutPoint.firstKeptEntryIndex,
      getMessageFromEntryForCompaction entry ≠ none) ∧
    ∀ entry ∈ slice pathEntries (boundaryStart pathEntries) (cutPoint.turnStartIndex.getD 0),
      getMessageFromEntryForCompaction entry = none

variable [JsonText.NumberText] [JsNumber.Addition]

theorem preparationAt_fields {pathEntries : List SessionEntry} {settings : CompactionSettings}
    {keepRecent : Bool} {cutPoint : CutPointResult} {preparation : CompactionPreparation}
    (hprep : preparationAt pathEntries settings keepRecent cutPoint = some preparation) :
    preparation.previousSummary = (prevCompaction pathEntries).map CompactionData.summary ∧
      (preparation.task.SkipsHistory ↔ CutsFirstTurn pathEntries cutPoint) := by
  rw [preparationAt] at hprep
  dsimp only at hprep
  split_ifs at hprep with _ _ _ _ hsplit hsplit
  all_goals obtain rfl := Option.some.inj hprep
  all_goals refine ⟨rfl, ?_⟩
  all_goals simp only [SummaryTask.SkipsHistory, CutsFirstTurn, CompactionPreparation.task]
  all_goals simp_all [List.filterMap_eq_nil_iff]

theorem skipsHistory_iff {pathEntries : List SessionEntry} {settings : CompactionSettings}
    {keepRecent : Bool} {preparation : CompactionPreparation}
    (hprep : prepareCompaction pathEntries settings keepRecent = .ok (some preparation)) :
    preparation.previousSummary = (prevCompaction pathEntries).map CompactionData.summary ∧
      (¬ preparation.task.SkipsHistory ↔ ∀ cutPoint, prepareCut pathEntries settings keepRecent = .ok cutPoint →
          ¬ CutsFirstTurn pathEntries cutPoint) := by
  rw [prepareCompaction] at hprep
  split_ifs at hprep
  · exact nomatch hprep
  · obtain ⟨cutPoint, hcut, hprep⟩ := bind_eq_ok.mp hprep
    obtain ⟨hsum, hskips⟩ := preparationAt_fields (Except.ok.inj hprep)
    refine ⟨hsum, ?_⟩
    rw [hskips, hcut]
    constructor
    · intro hnot other hother
      rw [← Except.ok.inj hother]
      exact hnot
    · exact fun hall => hall cutPoint rfl

end Preparation

theorem exists_generateText (request : SummarizationRequest) (text : JsStr) :
    ∃ summarizer, generateText summarizer request = .ok text := by
  refine ⟨fun _ => .ok ⟨.stop, none, [.text text]⟩, ?_⟩
  rw [generateText]
  simp [getSummarizationFailure, contentText, JsStr.join]

end PiRp.Compaction
