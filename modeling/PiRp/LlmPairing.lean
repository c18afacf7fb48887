import PiRp.JsMap
import PiRp.LlmMessages
import PiRp.Stretches

/-! `transformMessages`: the messages as another model gets them. Ids of tool calls are rewritten, assistant messages
that failed are left out, and a call that has no result before the next turn gets a synthetic one. -/

namespace PiRp.Llm

open List Stretches

structure Model where
  provider : JsStr
  api : JsStr
  id : JsStr
  input : List JsStr

/-! ### Images -/

def nonVisionUserImagePlaceholder : JsStr := js "(image omitted: model does not support images)"

def nonVisionToolImagePlaceholder : JsStr := js "(tool image omitted: model does not support images)"

/-- The loop of `replaceImagesWithPlaceholder`. -/
def replaceImagesWithPlaceholder (placeholder : JsStr) (previousWasPlaceholder : Bool) : List Block → List Block
  | [] => []
  | .image _ _ :: rest =>
    (if previousWasPlaceholder then [] else [.text placeholder none]) ++
      replaceImagesWithPlaceholder placeholder true rest
  | .text text signature :: rest =>
    .text text signature :: replaceImagesWithPlaceholder placeholder (text = placeholder) rest
  | block :: rest => block :: replaceImagesWithPlaceholder placeholder false rest

/-- A missing content as an empty one. -/
def normalizeContent : Message → Message
  | .system content timestamp => .system (some (content.getD (.blocks []))) timestamp
  | .user content timestamp => .user (some (content.getD (.blocks []))) timestamp
  | .assistant message => .assistant { message with content := some (message.content.getD []) }
  | .toolResult message => .toolResult { message with content := some (message.content.getD []) }

/-- `downgradeUnsupportedImages` on one message. -/
def downgradeUnsupportedImages (model : Model) (msg : Message) : Message :=
  if model.input.contains (js "image") then msg
  else match msg with
    | .user (some (.blocks parts)) timestamp =>
      .user (some (.blocks (replaceImagesWithPlaceholder nonVisionUserImagePlaceholder false parts))) timestamp
    | .toolResult message =>
      .toolResult { message with
        content := message.content.map (replaceImagesWithPlaceholder nonVisionToolImagePlaceholder false) }
    | msg => msg

section Transform

variable (model : Model) (normalizeToolCallId : Option (JsStr → AssistantMessage → JsStr))

/-! ### The first pass -/

def isSameModel (message : AssistantMessage) : Bool :=
  message.provider = some model.provider && message.api = some model.api && message.model = some model.id

abbrev ToolCallIdMap := JsMap JsStr JsStr

/-- `Boolean(text)` of an optional text. -/
def isTruthy (text : Option JsStr) : Bool := text.any (· ≠ [])

def transformThinking (same : Bool) (thinking : JsStr) (thinkingSignature : Option JsStr) (redacted : Bool) :
    List Block :=
  let block := Block.thinking thinking thinkingSignature redacted
  if redacted then (if same then [block] else [])
  else if same && isTruthy thinkingSignature then [block]
  else if JsStr.trim thinking = [] then []
  else if same then [block]
  else [.text thinking none]

def transformToolCall (message : AssistantMessage) (toolCallIdMap : ToolCallIdMap) (toolCall : ToolCall) :
    ToolCallIdMap × ToolCall :=
  let same := isSameModel model message
  let normalizedToolCall :=
    if !same && isTruthy toolCall.thoughtSignature then { toolCall with thoughtSignature := none } else toolCall
  match normalizeToolCallId with
  | some normalize =>
    if same then (toolCallIdMap, normalizedToolCall)
    else
      let normalizedId := normalize toolCall.id message
      if normalizedId ≠ toolCall.id then
        (toolCallIdMap.set toolCall.id normalizedId, { normalizedToolCall with id := normalizedId })
      else (toolCallIdMap, normalizedToolCall)
  | none => (toolCallIdMap, normalizedToolCall)

/-- The content of an assistant message, block by block. -/
def transformContent (message : AssistantMessage) : ToolCallIdMap → List Block → ToolCallIdMap × List Block
  | toolCallIdMap, [] => (toolCallIdMap, [])
  | toolCallIdMap, block :: rest =>
    let (toolCallIdMap, transformed) := match block with
      | .thinking thinking thinkingSignature redacted =>
        (toolCallIdMap, transformThinking (isSameModel model message) thinking thinkingSignature redacted)
      | .text text textSignature =>
        (toolCallIdMap, [.text text (if isSameModel model message then textSignature else none)])
      | .toolCall toolCall =>
        let (toolCallIdMap, toolCall) := transformToolCall model normalizeToolCallId message toolCallIdMap toolCall
        (toolCallIdMap, [.toolCall toolCall])
      | block => (toolCallIdMap, [block])
    let (toolCallIdMap, others) := transformContent message toolCallIdMap rest
    (toolCallIdMap, transformed ++ others)

def transformMessage (toolCallIdMap : ToolCallIdMap) (msg : Message) : ToolCallIdMap × Message :=
  match msg with
  | .toolResult message =>
    match toolCallIdMap.get? message.toolCallId with
    | some normalizedId =>
      if normalizedId ≠ [] ∧ normalizedId ≠ message.toolCallId then
        (toolCallIdMap, .toolResult { message with toolCallId := normalizedId })
      else (toolCallIdMap, msg)
    | none => (toolCallIdMap, msg)
  | .assistant message =>
    let (toolCallIdMap, content) :=
      transformContent model normalizeToolCallId message toolCallIdMap (message.content.getD [])
    (toolCallIdMap, .assistant { message with content := some content })
  | msg => (toolCallIdMap, msg)

def firstPass (toolCallIdMap : ToolCallIdMap) : List Message → List Message
  | [] => []
  | msg :: rest =>
    let (toolCallIdMap, transformed) :=
      transformMessage model normalizeToolCallId toolCallIdMap (downgradeUnsupportedImages model (normalizeContent msg))
    transformed :: firstPass toolCallIdMap rest

/-- The messages after the first pass. -/
def transformed (messages : List Message) : List Message := firstPass model normalizeToolCallId JsMap.empty messages

/-! ### The second pass -/

def syntheticResult (now : Nat) (call : ToolCall) : Message :=
  .toolResult ⟨call.id, call.name, some [.text (js "No result provided") none], true, now⟩

/-- `insertSyntheticToolResults` -/
def syntheticResults (now : Nat) (pendingToolCalls : List ToolCall) (existingToolResultIds : List JsStr) :
    List (Message × Option Nat) :=
  (pendingToolCalls.filter fun call => !existingToolResultIds.contains call.id).map fun call =>
    (syntheticResult now call, none)

/-- The stop reasons of messages that are left out. -/
def failed (message : AssistantMessage) : Bool :=
  message.stopReason = some .error || message.stopReason = some .aborted

/-- The loop over the transformed messages and their positions; a synthetic result has none. -/
def secondPass (now : Nat) :
    List ToolCall → List JsStr → List (Message × Nat) → List (Message × Option Nat)
  | pending, existing, [] => syntheticResults now pending existing
  | pending, existing, (msg, i) :: rest =>
    let cleared := if pending = [] then existing else []
    match msg with
    | .assistant message =>
      let calls := toolCalls message.content
      syntheticResults now pending existing ++
        if failed message then secondPass now [] cleared rest
        else (msg, some i) :: secondPass now calls (if calls = [] then cleared else []) rest
    | .toolResult message => (msg, some i) :: secondPass now pending (message.toolCallId :: existing) rest
    | .user _ _ => syntheticResults now pending existing ++ (msg, some i) :: secondPass now [] cleared rest
    | .system _ _ => (msg, some i) :: secondPass now pending existing rest

/-- The messages and what is left in the array of source indices. -/
def transformMessages (now : Nat) (messages : List Message) (sourceIndices : List Int) : List Message × List Int :=
  let result := secondPass now [] [] (transformed model normalizeToolCallId messages).zipIdx
  (result.map Prod.fst, result.map fun entry => match entry.2 with
    | some i => (sourceIndices[i]?).getD 0
    | none => -1)

/-! ### Calls and results as they are sent -/

/-- The id of a call of an assistant message as the model gets it. -/
def renamedId (message : AssistantMessage) (id : JsStr) : JsStr :=
  match normalizeToolCallId with
  | some normalize => if isSameModel model message then id else normalize id message
  | none => id

/-- The ids of calls that get another one. -/
def callRenames (message : AssistantMessage) (calls : List ToolCall) : List (JsStr × JsStr) :=
  calls.filterMap fun call =>
    let renamed := renamedId model normalizeToolCallId message call.id
    if renamed ≠ call.id then some (call.id, renamed) else none

def renames : Message → List (JsStr × JsStr)
  | .assistant message => callRenames model normalizeToolCallId message (toolCalls message.content)
  | _ => []

/-- The last new id in a list of renamed calls. -/
def lastIn (pairs : List (JsStr × JsStr)) (id : JsStr) : Option JsStr :=
  (pairs.reverse.find? (·.1 = id)).map Prod.snd

/-- The id that the last call of an id in the messages got, if it is another one. -/
def lastRename (before : List Message) (id : JsStr) : Option JsStr :=
  lastIn (before.flatMap (renames model normalizeToolCallId)) id

/-- The call id of a tool result as the model gets it. -/
def sentResultId (before : List Message) (id : JsStr) : JsStr :=
  match lastRename model normalizeToolCallId before id with
  | some renamed => if renamed ≠ [] then renamed else id
  | none => id

/-- What a message calls or answers in what is sent; a failed assistant message calls nothing. -/
def sentKind (before : List Message) : Message → Kind JsStr
  | .assistant message => .turn (if failed message then [] else
      (toolCalls message.content).map fun call => renamedId model normalizeToolCallId message call.id)
  | .user _ _ => .turn []
  | .toolResult message => .answer (sentResultId model normalizeToolCallId before message.toolCallId)
  | .system _ _ => .other

def sentKinds (before : List Message) : List Message → List (Kind JsStr)
  | [] => []
  | msg :: rest => sentKind model normalizeToolCallId before msg :: sentKinds (before ++ [msg]) rest

end Transform

/-- What a message calls or answers. -/
def kindOf : Message → Kind JsStr
  | .assistant message => .turn ((toolCalls message.content).map ToolCall.id)
  | .user _ _ => .turn []
  | .toolResult message => .answer message.toolCallId
  | .system _ _ => .other

/-- Every call has exactly one answer. -/
def AnsweredOnce (calls given : List JsStr) : Prop := ∀ id ∈ calls, given.count id = 1

/-- No call has two answers, and calls of one id have one. -/
def Answerable (calls given : List JsStr) : Prop :=
  ∀ id ∈ calls, (id ∈ given → given.count id = 1) ∧ (id ∉ given → calls.count id = 1)

/-! ### The ids after the first pass -/

section FirstPass

variable {model : Model} {normalizeToolCallId : Option (JsStr → AssistantMessage → JsStr)}
  {toolCallIdMap : ToolCallIdMap} {before : List Message}

/-- What a message is before the second pass leaves failed ones out. -/
def keptKind : Message → Kind JsStr
  | .assistant message => if failed message then .turn [] else .turn ((toolCalls message.content).map ToolCall.id)
  | msg => kindOf msg

/-- The map has the last new id of every call so far. -/
def Tracks (model : Model) (normalizeToolCallId : Option (JsStr → AssistantMessage → JsStr))
    (toolCallIdMap : ToolCallIdMap) (before : List Message) : Prop :=
  ∀ id, toolCallIdMap.get? id = lastRename model normalizeToolCallId before id

theorem lastIn_append (first second : List (JsStr × JsStr)) (id : JsStr) :
    lastIn (first ++ second) id = (lastIn second id).or (lastIn first id) := by
  rw [lastIn, reverse_append, find?_append, lastIn, lastIn]
  cases second.reverse.find? (·.1 = id) <;> rfl

theorem lastIn_singleton (key value id : JsStr) :
    lastIn [(key, value)] id = if key = id then some value else none := by
  rw [lastIn, reverse_singleton, find?_singleton]
  by_cases heq : key = id
  · rw [if_pos heq, if_pos (decide_eq_true heq)]
    rfl
  · rw [if_neg heq, if_neg (by rwa [decide_eq_true_eq])]
    rfl

theorem transformToolCall_spec (message : AssistantMessage) (toolCallIdMap : ToolCallIdMap) (call : ToolCall) :
    (transformToolCall model normalizeToolCallId message toolCallIdMap call).2.id =
        renamedId model normalizeToolCallId message call.id ∧
      ∀ id, (transformToolCall model normalizeToolCallId message toolCallIdMap call).1.get? id =
        (lastIn (callRenames model normalizeToolCallId message [call]) id).or (toolCallIdMap.get? id) := by
  have hkept : (if !isSameModel model message && isTruthy call.thoughtSignature then
      { call with thoughtSignature := none } else call).id = call.id := by
    split_ifs <;> rfl
  have hsame : renamedId model normalizeToolCallId message call.id = call.id →
      callRenames model normalizeToolCallId message [call] = [] := by
    intro heq
    rw [callRenames, filterMap_cons]
    dsimp only
    rw [if_neg (not_not.mpr heq), filterMap_nil]
  have hunc : renamedId model normalizeToolCallId message call.id = call.id → ∀ id,
      toolCallIdMap.get? id =
        (lastIn (callRenames model normalizeToolCallId message [call]) id).or (toolCallIdMap.get? id) := by
    intro heq id
    rw [hsame heq]
    rfl
  cases normalizeToolCallId with
  | none => exact ⟨hkept, hunc rfl⟩
  | some normalize =>
    rw [transformToolCall]
    dsimp only
    cases hmodel : isSameModel model message with
    | true =>
      have heq : renamedId model (some normalize) message call.id = call.id := if_pos hmodel
      rw [if_pos rfl, heq]
      rw [hmodel] at hkept
      exact ⟨hkept, hunc heq⟩
    | false =>
      have heq : renamedId model (some normalize) message call.id = normalize call.id message :=
        if_neg (by rw [hmodel]; exact Bool.false_ne_true)
      rw [if_neg Bool.false_ne_true, heq]
      rw [hmodel] at hkept
      by_cases hren : normalize call.id message = call.id
      · rw [if_neg (not_not.mpr hren)]
        exact ⟨hkept.trans hren.symm, hunc (heq.trans hren)⟩
      · rw [if_pos hren]
        refine ⟨rfl, fun id => ?_⟩
        have hpair : callRenames model (some normalize) message [call] =
            [(call.id, normalize call.id message)] := by
          rw [callRenames, filterMap_cons, heq]
          dsimp only
          rw [if_pos hren, filterMap_nil]
        rw [hpair, lastIn_singleton, JsMap.get?_set]
        by_cases hid : call.id = id
        · rw [if_pos hid, if_pos hid.symm]
          rfl
        · rw [if_neg hid, if_neg (Ne.symm hid)]
          rfl

theorem transformContent_spec (message : AssistantMessage) (toolCallIdMap : ToolCallIdMap) (blocks : List Block) :
    ((transformContent model normalizeToolCallId message toolCallIdMap blocks).2.filterMap Block.toolCall?).map
        ToolCall.id = (blocks.filterMap Block.toolCall?).map
          (fun call => renamedId model normalizeToolCallId message call.id) ∧
      ∀ id, (transformContent model normalizeToolCallId message toolCallIdMap blocks).1.get? id =
        (lastIn (callRenames model normalizeToolCallId message (blocks.filterMap Block.toolCall?)) id).or
          (toolCallIdMap.get? id) := by
  induction blocks generalizing toolCallIdMap with
  | nil => exact ⟨rfl, fun _ => rfl⟩
  | cons block rest ih =>
    have hskip : ∀ transformed : List Block, transformed.filterMap Block.toolCall? = [] →
        ((transformed ++ (transformContent model normalizeToolCallId message toolCallIdMap rest).2).filterMap
          Block.toolCall?).map ToolCall.id = (rest.filterMap Block.toolCall?).map
            (fun call => renamedId model normalizeToolCallId message call.id) := by
      intro transformed hnone
      rw [filterMap_append, hnone, nil_append]
      exact (ih toolCallIdMap).1
    cases block with
    | toolCall call =>
      obtain ⟨hid, hmap⟩ := @transformToolCall_spec model normalizeToolCallId message toolCallIdMap call
      obtain ⟨hids, hrest⟩ := ih (transformToolCall model normalizeToolCallId message toolCallIdMap call).1
      have hcalls : (Block.toolCall call :: rest).filterMap Block.toolCall? =
          [call] ++ rest.filterMap Block.toolCall? := rfl
      refine ⟨?_, fun id => ?_⟩
      · calc _ = (transformToolCall model normalizeToolCallId message toolCallIdMap call).2.id ::
            ((transformContent model normalizeToolCallId message
              (transformToolCall model normalizeToolCallId message toolCallIdMap call).1 rest).2.filterMap
                Block.toolCall?).map ToolCall.id := rfl
          _ = _ := by rw [hid, hids]; rfl
      · rw [hcalls, callRenames, filterMap_append, ← callRenames, ← callRenames, lastIn_append,
          Option.or_assoc, ← hmap, ← hrest]
        rfl
    | text text signature => exact ⟨hskip _ rfl, (ih toolCallIdMap).2⟩
    | thinking thinking signature redacted =>
      refine ⟨hskip _ ?_, (ih toolCallIdMap).2⟩
      rw [transformThinking]
      split_ifs <;> rfl
    | image data mimeType => exact ⟨hskip _ rfl, (ih toolCallIdMap).2⟩

theorem lastRename_append (msg : Message) (id : JsStr) : lastRename model normalizeToolCallId (before ++ [msg]) id =
      (lastIn (renames model normalizeToolCallId msg) id).or (lastRename model normalizeToolCallId before id) := by
  rw [lastRename, flatMap_append, flatMap_singleton, lastIn_append]
  rfl

theorem Tracks.skip (htrac : Tracks model normalizeToolCallId toolCallIdMap before) {msg : Message}
    (hrenam : renames model normalizeToolCallId msg = []) :
    Tracks model normalizeToolCallId toolCallIdMap (before ++ [msg]) := by
  intro id
  rw [lastRename_append, hrenam, htrac id]
  rfl

theorem downgrade_other (content : Option Content) (timestamp : Nat) :
    (∃ changed, downgradeUnsupportedImages model (normalizeContent (.system content timestamp)) =
        .system changed timestamp) ∧
      ∃ changed, downgradeUnsupportedImages model (normalizeContent (.user content timestamp)) =
        .user changed timestamp := by
  unfold downgradeUnsupportedImages normalizeContent
  constructor
  · split_ifs <;> exact ⟨_, rfl⟩
  · split_ifs
    · exact ⟨_, rfl⟩
    · rcases content with _ | _ | _ <;> exact ⟨_, rfl⟩

theorem downgrade_assistant (message : AssistantMessage) :
    downgradeUnsupportedImages model (normalizeContent (.assistant message)) =
      .assistant { message with content := some (message.content.getD []) } := by
  unfold downgradeUnsupportedImages normalizeContent
  split_ifs <;> rfl

theorem downgrade_toolResult (message : ToolResultMessage) :
    ∃ content, downgradeUnsupportedImages model (normalizeContent (.toolResult message)) =
      .toolResult { message with content } := by
  unfold downgradeUnsupportedImages normalizeContent
  split_ifs <;> exact ⟨_, rfl⟩

section

variable (htrac : Tracks model normalizeToolCallId toolCallIdMap before)

include htrac

theorem transformMessage_toolResult (message : ToolResultMessage) :
    (transformMessage model normalizeToolCallId toolCallIdMap (.toolResult message)).1 = toolCallIdMap ∧
      kindOf (transformMessage model normalizeToolCallId toolCallIdMap (.toolResult message)).2 =
        .answer (sentResultId model normalizeToolCallId before message.toolCallId) := by
  rw [sentResultId, ← htrac, transformMessage]
  cases toolCallIdMap.get? message.toolCallId with
  | none => exact ⟨rfl, rfl⟩
  | some normalizedId =>
    dsimp only
    by_cases hempty : normalizedId = []
    · rw [if_neg (fun hboth => hboth.1 hempty), if_neg (not_not.mpr hempty)]
      exact ⟨rfl, rfl⟩
    · by_cases hid : normalizedId = message.toolCallId
      · rw [if_neg (fun hboth => hboth.2 hid), if_pos hempty, hid]
        exact ⟨rfl, rfl⟩
      · rw [if_pos ⟨hempty, hid⟩, if_pos hempty]
        exact ⟨rfl, rfl⟩

theorem transformMessage_spec (msg : Message) :
    Tracks model normalizeToolCallId (transformMessage model normalizeToolCallId toolCallIdMap
        (downgradeUnsupportedImages model (normalizeContent msg))).1 (before ++ [msg]) ∧
      keptKind (transformMessage model normalizeToolCallId toolCallIdMap
        (downgradeUnsupportedImages model (normalizeContent msg))).2 =
          sentKind model normalizeToolCallId before msg := by
  cases msg with
  | system content timestamp =>
    obtain ⟨⟨changed, hshape⟩, -⟩ := @downgrade_other model content timestamp
    rw [hshape]
    exact ⟨htrac.skip rfl, rfl⟩
  | user content timestamp =>
    obtain ⟨-, changed, hshape⟩ := @downgrade_other model content timestamp
    rw [hshape]
    exact ⟨htrac.skip rfl, rfl⟩
  | toolResult message =>
    obtain ⟨content, hshape⟩ := @downgrade_toolResult model message
    obtain ⟨hmap, hkind⟩ := transformMessage_toolResult htrac { message with content }
    have hkept : keptKind (transformMessage model normalizeToolCallId toolCallIdMap
        (.toolResult { message with content })).2 = kindOf (transformMessage model normalizeToolCallId
          toolCallIdMap (.toolResult { message with content })).2 := by
      rw [transformMessage]
      split
      · split_ifs <;> rfl
      · rfl
    rw [hshape, hmap, hkept, hkind]
    exact ⟨htrac.skip rfl, rfl⟩
  | assistant message =>
    rw [downgrade_assistant]
    obtain ⟨content, api, provider, name, stopReason, timestamp⟩ := message
    obtain ⟨hids, hmap⟩ := @transformContent_spec model normalizeToolCallId
      ⟨some (content.getD []), api, provider, name, stopReason, timestamp⟩ toolCallIdMap (content.getD [])
    have hrenam : callRenames model normalizeToolCallId
        ⟨some (content.getD []), api, provider, name, stopReason, timestamp⟩
          ((content.getD []).filterMap Block.toolCall?) =
        renames model normalizeToolCallId (.assistant ⟨content, api, provider, name, stopReason, timestamp⟩) := by
      cases content <;> rfl
    have hren : ((content.getD []).filterMap Block.toolCall?).map (fun call => renamedId model
        normalizeToolCallId ⟨some (content.getD []), api, provider, name, stopReason, timestamp⟩ call.id) =
        (toolCalls content).map fun call => renamedId model normalizeToolCallId
          ⟨content, api, provider, name, stopReason, timestamp⟩ call.id := by
      cases content <;> rfl
    refine ⟨fun id => ?_, ?_⟩
    · rw [lastRename_append, ← hrenam, ← htrac id, ← hmap id]
      rfl
    · rw [transformMessage, sentKind, keptKind, ← hren, ← hids]
      cases hfail : failed ⟨content, api, provider, name, stopReason, timestamp⟩ with
      | true => exact if_pos hfail
      | false => exact if_neg (by rw [failed] at hfail ⊢; rw [hfail]; exact Bool.false_ne_true)

theorem firstPass_kinds (messages : List Message) :
    (firstPass model normalizeToolCallId toolCallIdMap messages).map keptKind =
      sentKinds model normalizeToolCallId before messages := by
  induction messages generalizing toolCallIdMap before with
  | nil => rfl
  | cons msg rest ih =>
    obtain ⟨hnext, hkind⟩ := transformMessage_spec htrac msg
    rw [sentKinds, ← hkind, ← ih hnext]
    rfl

end

theorem transformed_kinds (messages : List Message) :
    (transformed model normalizeToolCallId messages).map keptKind = sentKinds model normalizeToolCallId [] messages :=
  firstPass_kinds (fun _ => rfl) messages

end FirstPass

/-! ### The results after the second pass -/

section SecondPass

variable {now : Nat} {pending : List ToolCall} {existing : List JsStr} {calls given : List JsStr}
  {entries : List (Message × Nat)}

/-- The ids that get a synthetic result. -/
def missing (pending : List ToolCall) (existing : List JsStr) : List JsStr :=
  (pending.map ToolCall.id).filter fun id => !existing.contains id

theorem syntheticResults_kinds : (syntheticResults now pending existing).map (fun entry => kindOf entry.1) =
    (missing pending existing).map Kind.answer := by
  rw [syntheticResults, map_map, missing, filter_map, map_map]
  rfl

theorem reads_answers {settles : List JsStr → List JsStr → Prop} (ids : List JsStr)
    (rest : List (Kind JsStr)) : Reads settles calls given (ids.map Kind.answer ++ rest) ↔
      (∀ id ∈ ids, id ∈ calls) ∧ Reads settles calls (given ++ ids) rest := by
  induction ids generalizing given with
  | nil => simp
  | cons id ids ih =>
    rw [map_cons, cons_append, Reads, ih, forall_mem_cons, and_assoc, append_assoc, singleton_append]

theorem count_append_missing (id : JsStr) : (given ++ calls.filter fun call => !given.contains call).count id =
      if id ∈ given then given.count id else calls.count id := by
  rw [count_append]
  split_ifs with hid
  · have hnone : (calls.filter fun call => !given.contains call).count id = 0 :=
      List.count_eq_zero.mpr (by simp [hid])
    rw [hnone, Nat.add_zero]
  · rw [List.count_eq_zero.mpr hid, Nat.zero_add, count_filter (by simpa using hid)]

theorem answeredOnce_missing :
    AnsweredOnce calls (given ++ calls.filter fun call => !given.contains call) ↔ Answerable calls given := by
  refine forall₂_congr fun id _ => ?_
  rw [count_append_missing]
  split_ifs with hid
  · simp [hid]
  · simp [hid]

/-- The tracked results are those given, as long as calls are pending. -/
def Keeps (pending : List ToolCall) (existing given : List JsStr) : Prop :=
  pending ≠ [] → ∀ id, id ∈ existing ↔ id ∈ given

theorem missing_eq (hkeeps : Keeps pending existing given) :
    missing pending existing = (pending.map ToolCall.id).filter fun id => !given.contains id := by
  rcases eq_or_ne pending [] with rfl | hne
  · rfl
  · refine filter_congr fun id _ => ?_
    simp only [contains_eq_mem, hkeeps hne id]

/-- The kinds of the messages after the second pass. -/
def kindsAfter (now : Nat) (pending : List ToolCall) (existing : List JsStr) (entries : List (Message × Nat)) :
    List (Kind JsStr) := (secondPass now pending existing entries).map fun entry => kindOf entry.1

theorem reads_missing (hcalls : calls = pending.map ToolCall.id) (hkeeps : Keeps pending existing given)
    (rest : List (Kind JsStr)) : Reads AnsweredOnce calls given ((missing pending existing).map Kind.answer ++ rest) ↔
      Reads AnsweredOnce calls (given ++ calls.filter fun call => !given.contains call) rest := by
  rw [reads_answers, missing_eq hkeeps, hcalls]
  exact and_iff_right fun id hid => (mem_filter.mp hid).1

section Kinds

variable {i : Nat}

theorem kindsAfter_toolResult (message : ToolResultMessage) :
    kindsAfter now pending existing ((.toolResult message, i) :: entries) =
      .answer message.toolCallId :: kindsAfter now pending (message.toolCallId :: existing) entries := rfl

theorem kindsAfter_user (content : Option Content) (timestamp : Nat) :
    kindsAfter now pending existing ((.user content timestamp, i) :: entries) =
      (missing pending existing).map Kind.answer ++
        .turn [] :: kindsAfter now [] (if pending = [] then existing else []) entries := by
  rw [← syntheticResults_kinds, kindsAfter, secondPass, map_append]
  rfl

theorem kindsAfter_failed {message : AssistantMessage} (hfail : failed message = true) :
    kindsAfter now pending existing ((.assistant message, i) :: entries) =
      (missing pending existing).map Kind.answer ++
        kindsAfter now [] (if pending = [] then existing else []) entries := by
  rw [← syntheticResults_kinds, kindsAfter, secondPass, if_pos hfail, map_append]
  rfl

theorem kindsAfter_kept {message : AssistantMessage} (hfail : failed message = false) :
    ∃ cleared, (toolCalls message.content ≠ [] → cleared = []) ∧
      kindsAfter now pending existing ((.assistant message, i) :: entries) =
        (missing pending existing).map Kind.answer ++ .turn ((toolCalls message.content).map ToolCall.id) ::
            kindsAfter now (toolCalls message.content) cleared entries := by
  refine ⟨if toolCalls message.content = [] then (if pending = [] then existing else []) else [],
    fun hcalls => if_neg hcalls, ?_⟩
  rw [← syntheticResults_kinds, kindsAfter, secondPass, if_neg (by rw [hfail]; exact Bool.false_ne_true), map_append]
  rfl

end Kinds

theorem reads_turn_nil {rest : List (Kind JsStr)} : Reads Answerable [] [] rest ↔
    Answerable [] [] ∧ Reads Answerable [] [] rest :=
  (and_iff_right fun _ hid => absurd hid not_mem_nil).symm

/-- The second pass makes all calls answered once exactly where they are answerable. Behind a message that is left
out, the stretch before it goes on, with all its calls answered. -/
theorem secondPass_reads (now : Nat) (entries : List (Message × Nat)) :
    (∀ (pending : List ToolCall) (existing given : List JsStr), Keeps pending existing given →
      (Reads AnsweredOnce (pending.map ToolCall.id) given (kindsAfter now pending existing entries) ↔
        Reads Answerable (pending.map ToolCall.id) given (entries.map fun entry => keptKind entry.1))) ∧
    ∀ (existing calls given : List JsStr), (∀ id ∈ calls, id ∈ given) →
      (Reads AnsweredOnce calls given (kindsAfter now [] existing entries) ↔
        AnsweredOnce calls given ∧ Reads Answerable [] [] (entries.map fun entry => keptKind entry.1)) := by
  induction entries with
  | nil =>
    refine ⟨fun pending existing given hkeeps => ?_, fun existing calls given _ => ?_⟩
    · rw [kindsAfter, secondPass, syntheticResults_kinds, map_nil, Reads, ← answeredOnce_missing,
        ← append_nil ((missing pending existing).map Kind.answer), reads_missing rfl hkeeps, Reads]
    · exact (and_iff_left fun id hid => absurd hid not_mem_nil).symm
  | cons entry rest ih =>
    obtain ⟨hpend, hclos⟩ := ih
    obtain ⟨msg, i⟩ := entry
    have hnone : ∀ existing, Keeps [] existing [] := fun _ hne => absurd rfl hne
    cases msg with
    | system content timestamp => exact ⟨hpend, hclos⟩
    | toolResult message =>
      have hkind : keptKind (.toolResult message) = .answer message.toolCallId := rfl
      refine ⟨fun pending existing given hkeeps => ?_, fun existing calls given hall => ?_⟩
      · rw [kindsAfter_toolResult, Reads, map_cons, hkind, Reads]
        refine and_congr_right fun _ => hpend _ _ _ fun hne id => ?_
        rw [mem_cons, mem_append, mem_singleton, hkeeps hne id, or_comm]
      · rw [kindsAfter_toolResult, Reads, map_cons, hkind, Reads]
        refine iff_of_false ?_ fun hboth => absurd hboth.2.1 not_mem_nil
        -- the call has an answer already
        rintro ⟨hcall, hreads⟩
        rw [hclos _ _ _ fun id hid => mem_append_left _ (hall id hid)] at hreads
        have honce := hreads.1 _ hcall
        have hbef := count_pos_iff.mpr (hall _ hcall)
        rw [count_append, count_singleton_self] at honce
        omega
    | user content timestamp =>
      refine ⟨fun pending existing given hkeeps => ?_, fun existing calls given hall => ?_⟩
      · rw [kindsAfter_user, reads_missing rfl hkeeps, Reads, answeredOnce_missing]
        exact and_congr_right fun _ => hpend [] _ [] (hnone _)
      · rw [kindsAfter_user, missing, map_nil, filter_nil, map_nil, nil_append, Reads]
        refine and_congr_right fun _ => (hpend [] _ [] (hnone _)).trans ?_
        exact reads_turn_nil
    | assistant message =>
      cases hfail : failed message with
      | true =>
        have hkind : keptKind (.assistant message) = .turn [] := if_pos hfail
        refine ⟨fun pending existing given hkeeps => ?_, fun existing calls given hall => ?_⟩
        · have hsett : ∀ id ∈ pending.map ToolCall.id, id ∈ given ++
              (pending.map ToolCall.id).filter fun call => !given.contains call := by
            intro id hid
            by_cases hgiven : id ∈ given
            · exact mem_append_left _ hgiven
            · exact mem_append_right _ (mem_filter.mpr ⟨hid, by simpa using hgiven⟩)
          rw [kindsAfter_failed hfail, reads_missing rfl hkeeps, hclos _ _ _ hsett, answeredOnce_missing,
            map_cons, hkind, Reads]
        · rw [kindsAfter_failed hfail, missing, map_nil, filter_nil, map_nil, nil_append,
            hclos _ _ _ hall, map_cons, hkind, Reads]
          exact and_congr_right fun _ => reads_turn_nil
      | false =>
        have hkind : keptKind (.assistant message) = .turn ((toolCalls message.content).map ToolCall.id) :=
          if_neg (by rw [hfail]; exact Bool.false_ne_true)
        refine ⟨fun pending existing given hkeeps => ?_, fun existing calls given hall => ?_⟩
        · obtain ⟨cleared, hclear, heq⟩ := @kindsAfter_kept now pending existing rest i message hfail
          rw [heq, reads_missing rfl hkeeps, Reads, answeredOnce_missing, map_cons, hkind, Reads]
          refine and_congr_right fun _ => hpend _ _ _ fun hne id => ?_
          rw [hclear fun hcalls => hne hcalls]
        · obtain ⟨cleared, hclear, heq⟩ := @kindsAfter_kept now [] existing rest i message hfail
          rw [heq, missing, map_nil, filter_nil, map_nil, nil_append, Reads, map_cons, hkind, Reads]
          refine and_congr_right fun _ => ?_
          rw [hpend _ _ [] fun hne id => by rw [hclear fun hcalls => hne hcalls]]
          exact (and_iff_right fun id hid => absurd hid not_mem_nil).symm

end SecondPass

/-! ### Paired histories -/

/-- Every call of an assistant message is answered once before the next turn, and nothing else is answered. -/
def Paired (messages : List Message) : Prop := Settled AnsweredOnce (messages.map kindOf)

section Paired

variable (model : Model) (normalizeToolCallId : Option (JsStr → AssistantMessage → JsStr))

/-- A message of the result and its index: -1 at a synthetic result, and otherwise the position of the message that
it is made from. -/
def Names (now : Nat) (messages : List Message) (msg : Message) (index : Int) : Prop :=
  (index = -1 ∧ ∃ call, msg = syntheticResult now call) ∨
    ∃ i : Nat, index = i ∧ (transformed model normalizeToolCallId messages)[i]? = some msg

theorem secondPass_entries (now : Nat) (pending : List ToolCall) (existing : List JsStr)
    (entries : List (Message × Nat)) : ∀ entry ∈ secondPass now pending existing entries,
      (entry.2 = none ∧ ∃ call, entry.1 = syntheticResult now call) ∨
        ∃ i, entry.2 = some i ∧ (entry.1, i) ∈ entries := by
  have hsyn : ∀ pending existing, ∀ entry ∈ syntheticResults now pending existing,
      entry.2 = none ∧ ∃ call, entry.1 = syntheticResult now call := by
    intro pending existing entry hentry
    obtain ⟨call, -, rfl⟩ := mem_map.mp hentry
    exact ⟨rfl, call, rfl⟩
  induction entries generalizing pending existing with
  | nil => exact fun entry hentry => Or.inl (hsyn _ _ entry hentry)
  | cons first rest ih =>
    obtain ⟨msg, i⟩ := first
    have hrest : ∀ pending existing, ∀ entry ∈ secondPass now pending existing rest,
        (entry.2 = none ∧ ∃ call, entry.1 = syntheticResult now call) ∨
          ∃ position, entry.2 = some position ∧ (entry.1, position) ∈ (msg, i) :: rest := by
      intro pending existing entry hentry
      refine (ih pending existing entry hentry).imp_right ?_
      rintro ⟨position, hpos, hmem⟩
      exact ⟨position, hpos, mem_cons_of_mem _ hmem⟩
    have hfirst : ∀ pending existing, ∀ entry ∈ (msg, some i) :: secondPass now pending existing rest,
        (entry.2 = none ∧ ∃ call, entry.1 = syntheticResult now call) ∨
          ∃ position, entry.2 = some position ∧ (entry.1, position) ∈ (msg, i) :: rest := by
      intro pending existing entry hentry
      rcases mem_cons.mp hentry with rfl | hentry
      · exact Or.inr ⟨i, rfl, mem_cons_self⟩
      · exact hrest _ _ entry hentry
    intro entry hentry
    cases msg with
    | system content timestamp => exact hfirst _ _ entry hentry
    | toolResult message => exact hfirst _ _ entry hentry
    | user content timestamp =>
      rcases mem_append.mp hentry with hentry | hentry
      · exact Or.inl (hsyn _ _ entry hentry)
      · exact hfirst _ _ entry hentry
    | assistant message =>
      rcases mem_append.mp hentry with hentry | hentry
      · exact Or.inl (hsyn _ _ entry hentry)
      · by_cases hfail : failed message = true
        · rw [if_pos hfail] at hentry
          exact hrest _ _ entry hentry
        · rw [if_neg hfail] at hentry
          exact hfirst _ _ entry hentry

theorem length_firstPass (toolCallIdMap : ToolCallIdMap) (messages : List Message) :
    (firstPass model normalizeToolCallId toolCallIdMap messages).length = messages.length := by
  induction messages generalizing toolCallIdMap with
  | nil => rfl
  | cons msg rest ih => exact congrArg (· + 1) (ih _)

/-- The positions of the messages. -/
def positions (messages : List Message) : List Int := (List.range messages.length).map Int.ofNat

theorem transformMessages_names (now : Nat) (messages : List Message) :
    List.Forall₂ (Names model normalizeToolCallId now messages)
      (transformMessages model normalizeToolCallId now messages (positions messages)).1
      (transformMessages model normalizeToolCallId now messages (positions messages)).2 := by
  rw [transformMessages, forall₂_map_left_iff, forall₂_map_right_iff, forall₂_same]
  intro entry hentry
  rcases secondPass_entries now _ _ _ entry hentry with ⟨hnone, hsyn⟩ | ⟨i, hsome, hmem⟩
  · rw [hnone]
    exact Or.inl ⟨rfl, hsyn⟩
  · rw [hsome]
    have hmsg := mem_zipIdx_iff_getElem?.mp hmem
    have hlen := (List.getElem?_eq_some_iff.mp hmsg).1
    rw [transformed, length_firstPass] at hlen
    have hpos : (positions messages)[i]? = some (Int.ofNat i) := by
      rw [positions, getElem?_map, getElem?_range hlen, Option.map_some]
    refine Or.inr ⟨i, ?_, hmsg⟩
    dsimp only
    rw [hpos]
    rfl

theorem transformMessages_kinds (now : Nat) (messages : List Message) (sourceIndices : List Int) :
    Paired (transformMessages model normalizeToolCallId now messages sourceIndices).1 ↔
      Settled Answerable (sentKinds model normalizeToolCallId [] messages) := by
  have hnone : Keeps [] [] [] := fun hne => absurd rfl hne
  have hreads := (secondPass_reads now (transformed model normalizeToolCallId messages).zipIdx).1 [] [] [] hnone
  rw [map_nil] at hreads
  have hkinds : (transformed model normalizeToolCallId messages).zipIdx.map (fun entry => keptKind entry.1) =
      sentKinds model normalizeToolCallId [] messages := by
    rw [← transformed_kinds]
    calc (transformed model normalizeToolCallId messages).zipIdx.map (fun entry => keptKind entry.1)
        = ((transformed model normalizeToolCallId messages).zipIdx.map Prod.fst).map keptKind := by
          rw [map_map]
          rfl
      _ = (transformed model normalizeToolCallId messages).map keptKind := by rw [zipIdx_map_fst]
  rw [Paired, settled_iff fun _ _ hid => absurd hid not_mem_nil,
    settled_iff fun _ _ hid => absurd hid not_mem_nil, ← hkinds, ← hreads, transformMessages, map_map]
  rfl

/-- **A history is well paired** for its provider exactly when every tool result stands in the stretch of an
assistant message that has its call and did not fail, no call has two results, and calls of one id have one. -/
theorem transformMessages_paired_iff (now : Nat) (messages : List Message) :
    (Paired (transformMessages model normalizeToolCallId now messages (positions messages)).1 ∧
      List.Forall₂ (Names model normalizeToolCallId now messages)
        (transformMessages model normalizeToolCallId now messages (positions messages)).1
        (transformMessages model normalizeToolCallId now messages (positions messages)).2) ↔
      Settled Answerable (sentKinds model normalizeToolCallId [] messages) := by
  rw [transformMessages_kinds]
  exact and_iff_left (transformMessages_names model normalizeToolCallId now messages)

end Paired

/-- Every tool result comes after an assistant message with its call. -/
def asked (messages : List Message) : Bool :=
  messages.zipIdx.all fun entry => match entry.1 with
    | .toolResult result => (messages.take entry.2).any fun msg => match msg with
      | .assistant message => (toolCalls message.content).any (·.id = result.toolCallId)
      | _ => false
    | _ => true

/-- A model and a failed message of it, the call of which was answered. -/
def claude : Model := ⟨js "anthropic", js "anthropic-messages", js "claude", [js "text"]⟩

def abandoned : List Message :=
  [.assistant ⟨some [.toolCall ⟨js "a", js "read", .null, none⟩], some claude.api, some claude.provider,
      some claude.id, some .aborted, 0⟩,
    .toolResult ⟨js "a", js "read", some [], false, 0⟩]

/-- The result of a message that is left out stays. -/
theorem abandoned_result : asked abandoned = true ∧
    ¬ Paired (transformMessages claude none 0 abandoned (positions abandoned)).1 := by
  refine ⟨by decide +kernel, ?_⟩
  have hkinds : (transformMessages claude none 0 abandoned (positions abandoned)).1.map kindOf =
      [.answer (js "a")] := by decide +kernel
  rw [Paired, hkinds, settled_iff fun _ _ hid => absurd hid not_mem_nil, Reads]
  exact fun hreads => absurd hreads.1 not_mem_nil

end PiRp.Llm
