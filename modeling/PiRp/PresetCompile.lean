import PiRp.PresetRepair
import PiRp.PresetSquash

/-! `compileMessagesSync`: the texts of a preset around the chat history, the operations on the history, the
squashing and the rules. The texts of items and what extensions insert are rendered by functions that do not
assign to messages. A preset whose history options spoil a message changes the caller's objects. -/

namespace PiRp.Preset

/-! ### Presets -/

/-- The role of an item. -/
inductive ItemRole where
  | system
  | user
  | assistant
  | custom

def ItemRole.speaker : ItemRole → Speaker
  | .system => .system
  | .user => .user
  | .assistant => .assistant
  | .custom => .custom

/-- What an item's text is made of. -/
inductive ItemBody where
  | block (content : JsStr)
  | slot (slot : JsStr) (options : Option HistoryOptions)

/-- An item with a text; `rest` are the properties only its rendering reads. -/
structure TextItem where
  id : JsStr
  name : Option JsStr
  enabled : Bool
  role : Option ItemRole
  body : ItemBody
  rest : Props Json

/-- An operation on the history. The renderer of an insertion gives none when it fails or does not return an
array. -/
inductive HistoryOp where
  | insert (id : JsStr) (depth : Nat) (content : Option JsStr) (isAsync : Bool) (usesHostData : Bool)
      (render : Option (List Message → Option (List Message)))
  | keep (tokens traces : Option JsNumber)
  | reduce (hides : Bool)

structure HistoryItem where
  id : JsStr
  enabled : Bool
  options : Option HistoryOptions
  ops : List HistoryOp

inductive Item where
  | text (item : TextItem)
  | history (item : HistoryItem)

namespace Item

def enabled : Item → Bool
  | .text item => item.enabled
  | .history item => item.enabled

def text? : Item → Option TextItem
  | .text item => some item
  | .history _ => none

def history? : Item → Option HistoryItem
  | .text _ => none
  | .history item => some item

/-- The options of the chat history at an item. -/
def options : Item → Option HistoryOptions
  | .history item => item.options
  | .text item =>
    match item.body with
    | .slot _ options => options
    | .block _ => none

end Item

/-- A compiled rule; `transform` is `transformString` with its pattern and replacement. -/
structure RegexRule where
  roles : Option (List JsStr)
  minDepth : Option Nat
  maxDepth : Option Nat
  maxMessages : Option Nat
  transform : JsStr → JsStr

structure PromptPreset where
  id : JsStr
  items : List Item
  historyRules : List RegexRule
  compiledRules : List RegexRule

/-- An operation of an extension. -/
structure RegisteredOp where
  op : HistoryOp
  extensionId : JsStr
  order : Nat

/-- The messages are objects of the caller; `rest` is what texts are rendered from, variables included. -/
structure PromptRuntime (κ σ : Type*) where
  messages : List κ
  latestUserMessage : Option JsStr
  now : JsNumber
  currentTraceStartIndex : Option Nat
  historyOps : List RegisteredOp
  isAborted : Bool
  rest : σ

/-- The functions outside the compiler. -/
structure Rendering (σ : Type*) where
  /-- `getSlot(slot)?.position === "chat-history"` -/
  isChatHistorySlot : JsStr → σ → Bool
  renderItemTextSync : TextItem → List Message → Option JsStr → σ → JsStr × σ
  estimateTokens : Message → Nat

/-! ### Rules -/

def RegexRule.appliesTo (rule : RegexRule) (message : Message) (depth : Nat) : Bool :=
  rule.roles.all (·.contains message.role.name) && rule.minDepth.all (· ≤ depth) && rule.maxDepth.all (depth ≤ ·)

def eligibleMessageIndexes (messages : List Message) (rule : RegexRule) : List Nat :=
  (messages.zipIdx.filter fun entry => rule.appliesTo entry.1 (messages.length - 1 - entry.2)).map Prod.snd

def transformMessage (message : Message) (rule : RegexRule) : Message :=
  match message with
  | .content speaker (.string text) fields => .content speaker (.string (rule.transform text)) fields
  | .content speaker (.array blocks) fields =>
    .content speaker (.array (blocks.map fun part =>
      match part with
      | .text text signature => .text (rule.transform text) signature
      | part => part)) fields
  | message => message

def transformMessages (messages : List Message) (rule : RegexRule) : List Message :=
  let eligible := eligibleMessageIndexes messages rule
  let eligibleSet := match rule.maxMessages with
    | some maxMessages => if maxMessages ≠ 0 then eligible.drop (eligible.length - maxMessages) else eligible
    | none => eligible
  messages.mapIdx fun index message =>
    if eligibleSet.contains index then transformMessage message rule else message

def applyRegexRulesToMessages (rules : List RegexRule) (messages : List Message) : List Message :=
  rules.foldl transformMessages messages

/-! ### Operations on the history -/

inductive Origin where
  | preset (itemId : JsStr) (opIndex : Nat)
  | extension (extensionId : JsStr)

/-- `CompileMessageSource` -/
inductive MessageSource where
  | presetItem (itemId : JsStr) (itemName : Option JsStr) (slot : Option JsStr)
  | chatHistory
  | implicitHistory
  | historyOp (opId : JsStr) (origin : Origin)

def isTurnStartMessage (message : Message) : Bool :=
  match message.role with
  | .user | .bashExecution | .custom | .branchSummary | .compactionSummary => true
  | .system | .assistant | .toolResult => false

/-- The loop of `applyWindow` over the messages from the last one on: how many it keeps. -/
def keepTokens (estimateTokens : Message → Nat) (tokens : JsNumber) : Nat → List Message → Nat
  | _, [] => 0
  | total, message :: rest =>
    if tokens.below (total + estimateTokens message) || tokens = .int (total + estimateTokens message : Nat) then 1
    else keepTokens estimateTokens tokens (total + estimateTokens message) rest + 1

/-- `starts[Math.max(0, starts.length - traces)] ?? 0` -/
def traceStart (starts : List Nat) (traces : JsNumber) : Nat :=
  match traces with
  | .int traces => (starts[((starts.length : Int) - traces).toNat]?).getD 0
  | .negZero | .nan => 0
  | traces => if traces.below starts.length then 0 else starts.headD 0

def windowStart (estimateTokens : Message → Nat) (messages : List Message) (tokens traces : Option JsNumber) : Nat :=
  let isZero := fun value : JsNumber => value = .int 0 || value = .negZero
  match tokens with
  | some tokens =>
    if isZero tokens then messages.length
    else messages.length - keepTokens estimateTokens tokens 0 messages.reverse
  | none =>
    if traces.any isZero then messages.length
    else traceStart (messages.findIdxs isTurnStartMessage) (traces.getD (.int 0))

/-- The messages an insertion sees and is placed among. -/
def windowMessages (estimateTokens : Message → Nat) (baseMessages : List Message) (ops : List HistoryOp) :
    List Message :=
  let keep := ops.findSome? fun op => match op with
    | .keep tokens traces => some (tokens, traces)
    | _ => none
  let reduce := ops.findSome? fun op => match op with
    | .reduce hides => some hides
    | _ => none
  let start := keep.elim 0 fun keep => windowStart estimateTokens baseMessages keep.1 keep.2
  match reduce with
  | none => baseMessages
  | some true => baseMessages.drop start
  | some false => (baseMessages.take start).filter isSummaryMessage ++ baseMessages.drop start

/-- A rendered insertion. -/
structure Insertion where
  opId : JsStr
  origin : Origin
  order : Nat
  depth : Nat
  output : List Message

def textMessage (now : JsNumber) (text : JsStr) : Message :=
  .content .custom (.array [.text text none]) [(js "timestamp", .number now)]

/-- What an operation inserts; none for the other operations and where nothing is rendered. -/
def renderInsert (now : JsNumber) (snapshot : List Message) (origin : Origin) (order : Nat) :
    HistoryOp → Option Insertion
  | .insert id depth content isAsync usesHostData render =>
    if isAsync || usesHostData then none
    else
      let output := match render with
        | some render => (render snapshot).filter (List.all · fun message => (Message.blocks? message).isSome)
        | none => some (content.toList.map (textMessage now))
      output.map fun output => ⟨id, origin, order, depth, output⟩
  | .keep _ _ | .reduce _ => none

/-- The order of insertions at one place: those of extensions first. -/
def Insertion.before (first second : Insertion) : Bool :=
  match first.origin, second.origin with
  | .extension _, .preset _ _ => true
  | .preset _ _, .extension _ => false
  | _, _ => first.order ≤ second.order

/-- The snapshot with the insertions at their places. -/
def finishInserts (snapshot : List Message) (rendered : List Insertion) : List (Message × MessageSource) :=
  (List.range (snapshot.length + 1)).flatMap fun gap =>
    let bucket := rendered.filter fun insertion => snapshot.length - insertion.depth = gap
    ((bucket.mergeSort Insertion.before).flatMap fun insertion =>
      insertion.output.map fun message => (message, .historyOp insertion.opId insertion.origin)) ++
      (snapshot[gap]?).toList.map fun message => (message, .chatHistory)

/-- `executeHistoryOpsSync`, none when the run was aborted before an insertion. -/
def executeHistoryOpsSync (estimateTokens : Message → Nat) (now : JsNumber) (isAborted : Bool)
    (baseMessages : List Message) (item : Option HistoryItem) (historyOps : List RegisteredOp) :
    Option (List (Message × MessageSource)) :=
  let presetOps := item.elim [] HistoryItem.ops
  let ops := historyOps.map RegisteredOp.op ++ presetOps
  let snapshot := windowMessages estimateTokens baseMessages ops
  let isInsert := fun op : HistoryOp => match op with
    | .insert _ _ _ _ _ _ => true
    | _ => false
  if isAborted && ops.any isInsert then none
  else
    let registered := historyOps.filterMap fun entry =>
      renderInsert now snapshot (.extension entry.extensionId) entry.order entry.op
    let declared := presetOps.mapIdx fun index op =>
      renderInsert now snapshot (.preset (item.elim [] HistoryItem.id) index) index op
    some (finishInserts snapshot (registered ++ declared.reduceOption))

/-! ### The compilation -/

def enabledItems (preset : PromptPreset) : List Item := preset.items.filter Item.enabled

section Compile

variable {κ σ : Type*} [DecidableEq κ] (rendering : Rendering σ)

def isChatHistoryPosition (rest : σ) (item : Item) : Bool :=
  match item with
  | .text { body := .slot slot _, .. } => rendering.isChatHistorySlot slot rest
  | _ => false

/-- Where the chat history goes. -/
def chatHistoryIndex (rest : σ) (items : List Item) : Option Nat :=
  (items.findIdx? fun item => item.history?.isSome).or (items.findIdx? (isChatHistoryPosition rendering rest))

/-- The options of the chat history, if the preset has a place for it. -/
def chatHistoryOptions (rest : σ) (preset : PromptPreset) : Option HistoryOptions :=
  (chatHistoryIndex rendering rest (enabledItems preset)).map fun index =>
    ((enabledItems preset)[index]?.bind Item.options).getD {}

/-- The units of `\w`. -/
def isWordUnit (unit : UInt16) : Bool :=
  (0x30 ≤ unit && unit ≤ 0x39) || (0x41 ≤ unit && unit ≤ 0x5A) || unit = 0x5F || (0x61 ≤ unit && unit ≤ 0x7A)

/-- Whether a content refers to the macro of the latest user message. -/
def refersToLastUserMessage (content : JsStr) : Bool :=
  content.tails.any fun tail =>
    JsStr.startsWith tail [0x7B, 0x7B] &&
      let name := (tail.drop 2).dropWhile JsStr.isWhitespace
      JsStr.startsWith name (js "lastUserMessage") && !((name.drop 15).head?.any isWordUnit)

def usesLastUserMessageMacro (items : List Item) : Bool :=
  items.any fun item =>
    match item with
    | .text { body := .block content, .. } => refersToLastUserMessage content
    | _ => false

/-- `deriveLatestUserMessage` -/
def deriveLatestUserMessage (messages : List Message) : Option JsStr :=
  messages.reverse.findSome? fun msg =>
    if msg.role = .user ∧ JsStr.trim (contentToText msg) ≠ [] then some (contentToText msg) else none

/-- Renders the items in order; an empty text makes no message. -/
def renderItems (now : JsNumber) (messages : List Message) (latestUserMessage : Option JsStr) :
    σ → List TextItem → List (Message × MessageSource) × σ
  | rest, [] => ([], rest)
  | rest, item :: items =>
    let (text, rest) := rendering.renderItemTextSync item messages latestUserMessage rest
    let (rendered, rest) := renderItems now messages latestUserMessage rest items
    let slot := match item.body with
      | .slot slot _ => some slot
      | .block _ => none
    let message := Message.content (item.role.getD .system).speaker (.array [.text text none])
      [(js "timestamp", .number now)]
    (if text = [] then rendered else (message, .presetItem item.id item.name slot) :: rendered, rest)

/-- `addChatHistory` and the objects after it. -/
def addChatHistory (store : κ → Message) (preset : PromptPreset) (runtime : PromptRuntime κ σ) :
    (κ → Message) × List (Message × MessageSource) :=
  match chatHistoryOptions rendering runtime.rest preset with
  | some options =>
    let (store, limited) := selectHistory store options runtime.messages runtime.currentTraceStartIndex
    (store, (applyRegexRulesToMessages preset.historyRules (limited.map (Handle.read store))).map fun msg =>
      (msg, .chatHistory))
  | none =>
    if usesLastUserMessageMacro (enabledItems preset) then (store, [])
    else (store, runtime.messages.map fun msg => (store msg, .implicitHistory))

/-- `CompileMessagesResult` without its diagnostics. -/
structure CompileResult where
  messages : List Message
  sources : List MessageSource
  volatileFrom : Option Nat

/-- The objects and the variables after a compilation, and its result unless it was aborted. -/
structure Compiled (κ σ : Type*) where
  store : κ → Message
  rest : σ
  result : Option CompileResult

def compileMessagesSync (store : κ → Message) (preset : PromptPreset) (runtime : PromptRuntime κ σ) :
    Compiled κ σ :=
  let items := enabledItems preset
  let isTextItem := fun item => !isChatHistoryPosition rendering runtime.rest item
  let (beforeItems, afterItems) := match chatHistoryIndex rendering runtime.rest items with
    | none => (items, [])
    | some index => ((items.take index).filter isTextItem, (items.drop (index + 1)).filter isTextItem)
  let historyItem := items.findSome? Item.history?
  let latestUserMessage := runtime.latestUserMessage.or (deriveLatestUserMessage (runtime.messages.map store))
  let (before, rest) := renderItems rendering runtime.now (runtime.messages.map store) latestUserMessage runtime.rest
    (beforeItems.filterMap Item.text?)
  let (store, history) := addChatHistory rendering store preset runtime
  let history := if historyItem.isSome || !runtime.historyOps.isEmpty then
      executeHistoryOpsSync rendering.estimateTokens runtime.now runtime.isAborted (history.map Prod.fst) historyItem
        runtime.historyOps
    else some history
  match history with
  | none => ⟨store, rest, none⟩
  | some history =>
    let trackedFrom := (before ++ history).length
    let (after, rest) := renderItems rendering runtime.now (runtime.messages.map store) latestUserMessage rest
      (afterItems.filterMap Item.text?)
    let result := before ++ history ++ after
    let squashed := squashMessages (result.map Prod.fst)
      (if trackedFrom < result.length then some trackedFrom else none)
    ⟨store, rest, some ⟨applyRegexRulesToMessages preset.compiledRules squashed.1, result.map Prod.snd, squashed.2⟩⟩

theorem compileMessagesSync_store (store : κ → Message) (preset : PromptPreset) (runtime : PromptRuntime κ σ) :
    (compileMessagesSync rendering store preset runtime).store = (addChatHistory rendering store preset runtime).1 := by
  simp only [compileMessagesSync]
  split <;> rfl

theorem addChatHistory_store (store : κ → Message) (preset : PromptPreset) (runtime : PromptRuntime κ σ) :
    (addChatHistory rendering store preset runtime).1 = store ↔
      ∀ options, chatHistoryOptions rendering runtime.rest preset = some options →
        ¬ Spoils store options runtime.messages runtime.currentTraceStartIndex := by
  rw [addChatHistory]
  cases chatHistoryOptions rendering runtime.rest preset with
  | none =>
    dsimp only
    refine iff_of_true ?_ fun _ hnone => nomatch hnone
    split_ifs <;> rfl
  | some options =>
    simp only [Option.some.injEq, forall_eq']
    exact selectHistory_store store options runtime.messages runtime.currentTraceStartIndex

/-- **A compilation leaves the objects of the caller as they are**, and with them every later compilation as it
would be alone, exactly when the options of the chat history spoil no message. -/
theorem compile_frames_iff (store : κ → Message) (preset : PromptPreset) (runtime : PromptRuntime κ σ) :
    ((compileMessagesSync rendering store preset runtime).store = store ∧
      ∀ (second : PromptPreset) (later : PromptRuntime κ σ),
        compileMessagesSync rendering (compileMessagesSync rendering store preset runtime).store second later =
          compileMessagesSync rendering store second later) ↔
      ∀ options, chatHistoryOptions rendering runtime.rest preset = some options →
        ¬ Spoils store options runtime.messages runtime.currentTraceStartIndex := by
  have hstore := addChatHistory_store rendering store preset runtime
  rw [← compileMessagesSync_store] at hstore
  rw [← hstore]
  constructor
  · exact And.left
  · intro hsame
    refine ⟨hsame, fun second later => ?_⟩
    rw [hsame]

end Compile

section Samples

/-- No rendered texts; `chat-history` is the slot of the history. -/
def sampleRendering : Rendering Unit where
  isChatHistorySlot slot _ := slot = js "chat-history"
  renderItemTextSync _ _ _ rest := ([], rest)
  estimateTokens _ := 0

/-- A user message, an assistant message with a text and a call, and the result of the call. -/
def sampleStore : Nat → Message
  | 0 => .content .user (.string (js "list")) []
  | 1 => .content .assistant (.array [.text (js "Listing.") none, .toolCall (js "c1") (js "ls") []]) []
  | _ => .content (.toolResult (js "c1") (js "ls")) (.array [.text (js "src") none]) []

/-- A preset that keeps the messages of the user and the assistant. -/
def samplePreset : PromptPreset where
  id := js "talk"
  items := [.text ⟨js "history", none, true, none,
    .slot (js "chat-history") (some { roles := some [js "user", js "assistant"] }), []⟩]
  historyRules := []
  compiledRules := []

def sampleRuntime : PromptRuntime Nat Unit := ⟨[0, 1, 2], none, .int 0, none, [], false, ()⟩

/-- The call is removed from the message of the transcript. -/
theorem compile_spoils : let compiled := compileMessagesSync sampleRendering sampleStore samplePreset sampleRuntime
    ¬ (compiled.store = sampleStore ∧ ∀ (second : PromptPreset) (later : PromptRuntime Nat Unit),
      compileMessagesSync sampleRendering compiled.store second later =
        compileMessagesSync sampleRendering sampleStore second later) := by
  rintro compiled ⟨hsame, -⟩
  have hcount : blockCount (compiled.store 1) = 1 := by decide +kernel
  rw [hsame] at hcount
  exact nomatch hcount

end Samples

end PiRp.Preset
