import Mathlib.Logic.Function.Basic
import PiRp.Compaction
import PiRp.PresetMessages

/-! The chat history of a prompt preset: `addChatHistory` filters and shortens the messages of a session. The
message objects are the caller's; a filter either passes an object on or makes a copy of it. -/

namespace PiRp

namespace JsNumber

/-- `Math.trunc` of a finite number. -/
def trunc : JsNumber → Int
  | .int value => value
  | .fraction bits =>
    let magnitude := Float64.significand bits.1 / 2 ^ (1075 - Float64.scale bits.1)
    if 2 ^ 63 ≤ bits.1 then -(magnitude : Int) else magnitude
  | .negZero | .infinite _ | .nan => 0

/-- `count > value` -/
def below (value : JsNumber) (count : Nat) : Bool :=
  match value with
  | .int value => value < count
  | .negZero => 0 < count
  | .fraction bits => 2 ^ 63 ≤ bits.1 || trunc (.fraction bits) < count
  | .infinite negative => negative
  | .nan => false

/-- `items.slice(-value)` -/
def sliceLast {α : Type*} (value : JsNumber) (items : List α) : List α :=
  match value with
  | .infinite negative => if negative then [] else items
  | value => if 0 < value.trunc then items.drop (items.length - value.trunc.toNat) else items.drop (-value.trunc).toNat

end JsNumber

namespace Preset

/-! ### Options -/

/-- `stripAssistantThinking` -/
inductive Stripping where
  | all
  | previousTraces

/-- The options of the chat history. -/
structure HistoryOptions where
  roles : Option (List JsStr) := none
  includeSummaries : Option Bool := none
  stripAssistantThinking : Option Stripping := none
  dropTools : Bool := false
  dropToolNames : Option (List JsStr) := none
  maxMessages : Option JsNumber := none
  maxChars : Option JsNumber := none
  omitLatestUser : Bool := false

/-! ### Limits

They look at the role and the text of a message only. -/

section Limits

variable {α : Type*} (role : α → Role) (text : α → JsStr)

/-- The loop of `takeRecentMessagesWithinChars` over the messages from the last one on, with the characters
of the selected ones, if there are any. -/
def takeRecentFrom (maxChars : JsNumber) : Option Nat → List α → List α
  | _, [] => []
  | none, msg :: rest => msg :: takeRecentFrom maxChars (some (text msg).length) rest
  | some chars, msg :: rest =>
    if maxChars.below (chars + (text msg).length) then []
    else msg :: takeRecentFrom maxChars (some (chars + (text msg).length)) rest

def takeRecentMessagesWithinChars (messages : List α) (maxChars : JsNumber) : List α :=
  (takeRecentFrom text maxChars none messages.reverse).reverse

def findLastUserMessageIndex (messages : List α) : Option Nat :=
  (messages.reverse.findIdx? (role · = .user)).map fun index => messages.length - 1 - index

/-- `maxMessages`, and whether it cut anything off. -/
def limitMessages (options : HistoryOptions) (messages : List α) : List α × Bool :=
  match options.maxMessages with
  | none => (messages, false)
  | some maxMessages =>
    if maxMessages.isTruthy && maxMessages.below messages.length then (maxMessages.sliceLast messages, true)
    else (messages, false)

def limitChars (options : HistoryOptions) (messages : List α) : List α × Bool :=
  match options.maxChars with
  | none => (messages, false)
  | some maxChars =>
    if maxChars.isTruthy && !messages.isEmpty then (takeRecentMessagesWithinChars text messages maxChars, true)
    else (messages, false)

def omitUser (options : HistoryOptions) (messages : List α) : List α × Bool :=
  if options.omitLatestUser then
    match findLastUserMessageIndex role messages with
    | none => (messages, false)
    | some lastUserIdx => (messages.take lastUserIdx ++ messages.drop (lastUserIdx + 1), true)
  else (messages, false)

/-- The limits one after the other, and whether one of them applied. -/
def limitHistory (options : HistoryOptions) (messages : List α) : List α × Bool :=
  let recent := limitMessages options messages
  let short := limitChars text options recent.1
  let rest := omitUser role options short.1
  (rest.1, recent.2 || short.2 || rest.2)

end Limits

/-! ### The store -/

/-- A message in a list of the compiler: an object of the caller's, or a copy the compiler made. A copy is in
one list only, so it is kept by value. -/
inductive Handle (κ : Type*) where
  | shared (key : κ)
  | copy (message : Message)

variable {κ : Type*}

namespace Handle

def read (store : κ → Message) : Handle κ → Message
  | .shared key => store key
  | .copy message => message

/-- Assigns to a property of the object. -/
def write [DecidableEq κ] (store : κ → Message) (message : Message) : Handle κ → (κ → Message) × Handle κ
  | .shared key => (Function.update store key message, .shared key)
  | .copy _ => (store, .copy message)

end Handle

/-! ### Thinking -/

/-- The copy of a message without its thinking, if it has some. -/
def withoutThinking (message : Message) : Option Message :=
  if message.role ≠ .assistant then none
  else
    match message.blocks? with
    | none => none
    | some content =>
      let stripped := content.filter fun part => !part.isThinking
      if stripped.length = content.length then none else some (message.withBlocks stripped)

def stripThinkingFromMessage (store : κ → Message) (handle : Handle κ) : Handle κ :=
  match withoutThinking (handle.read store) with
  | none => handle
  | some copy => .copy copy

/-- Whether the message is one of the current trace; a copy is none of the caller's objects. -/
def inCurrentTrace [DecidableEq κ] (sourceMessages : List κ) (currentTraceStartIndex : Option Nat) :
    Handle κ → Bool
  | .shared key => currentTraceStartIndex.any fun start => (sourceMessages.drop start).contains key
  | .copy _ => false

def stripThinkingFromPreviousTraces [DecidableEq κ] (store : κ → Message) (messages : List (Handle κ))
    (sourceMessages : List κ) (currentTraceStartIndex : Option Nat) : List (Handle κ) :=
  messages.map fun msg =>
    if inCurrentTrace sourceMessages currentTraceStartIndex msg then msg else stripThinkingFromMessage store msg

def stripThinking [DecidableEq κ] (store : κ → Message) (options : HistoryOptions) (sourceMessages : List κ)
    (currentTraceStartIndex : Option Nat) (messages : List (Handle κ)) : List (Handle κ) :=
  match options.stripAssistantThinking with
  | none => messages
  | some .all => messages.map (stripThinkingFromMessage store)
  | some .previousTraces => stripThinkingFromPreviousTraces store messages sourceMessages currentTraceStartIndex

/-! ### Tools -/

/-- `stripToolCallParts`: none when nothing but calls was left. -/
def stripToolCallParts (store : κ → Message) (dropNames : Option (List JsStr)) (handle : Handle κ) :
    Option (Handle κ) :=
  let message := handle.read store
  if message.role ≠ .assistant then some handle
  else
    match message.blocks? with
    | none => some handle
    | some content =>
      let kept := content.filter fun part =>
        match part with
        | .toolCall _ name _ => dropNames.any fun names => !names.contains name
        | _ => true
      if kept.length = content.length then some handle
      else if kept = [] then none
      else some (.copy (message.withBlocks kept))

def dropToolHistory (store : κ → Message) (dropToolNames : Option (List JsStr)) (messages : List (Handle κ)) :
    List (Handle κ) :=
  let names := dropToolNames.filter (· ≠ [])
  messages.filterMap fun msg =>
    match msg.read store with
    | .content (.toolResult _ toolName) _ _ => if names.all (·.contains toolName) then none else some msg
    | _ => stripToolCallParts store names msg

/-- The ids a message's calls add to the set. -/
def callIds (message : Message) : List JsStr :=
  if message.role ≠ .assistant then []
  else (message.blocks?.getD []).filterMap fun part =>
    match part with
    | .toolCall id _ _ => if id ≠ [] then some id else none
    | _ => none

/-- The first loop of `repairToolPairs`: the ids of the calls without a result yet, and the messages it keeps. -/
def pairTools (store : κ → Message) : List JsStr → List (Handle κ) → List JsStr × List (Handle κ)
  | toolCallIds, [] => (toolCallIds, [])
  | toolCallIds, msg :: rest =>
    match msg.read store with
    | .content (.toolResult id _) _ _ =>
      if id ≠ [] ∧ id ∈ toolCallIds then
        let (left, result) := pairTools store (toolCallIds.filter (· ≠ id)) rest
        (left, msg :: result)
      else pairTools store toolCallIds rest
    | message =>
      let (left, result) := pairTools store (toolCallIds ++ callIds message) rest
      (left, msg :: result)

/-- The blocks of a message that are not a call of one of the ids. -/
def keptBlocks (toolCallIds : List JsStr) (content : List Block) : List Block :=
  content.filter fun part =>
    match part with
    | .toolCall id _ _ => !toolCallIds.contains id
    | _ => true

/-- The second loop: it assigns to `content` where a call is removed and something else is left. -/
def removeCalls [DecidableEq κ] (toolCallIds : List JsStr) :
    (κ → Message) → List (Handle κ) → (κ → Message) × List (Handle κ)
  | store, [] => (store, [])
  | store, msg :: rest =>
    let message := msg.read store
    let keep := fun (store : κ → Message) (msg : Handle κ) =>
      let (after, result) := removeCalls toolCallIds store rest
      (after, msg :: result)
    if message.role ≠ .assistant then keep store msg
    else
      match message.blocks? with
      | none => keep store msg
      | some content =>
        let kept := keptBlocks toolCallIds content
        if kept.length = content.length then keep store msg
        else if kept = [] then removeCalls toolCallIds store rest
        else
          let (written, msg) := msg.write store (message.withBlocks kept)
          keep written msg

def repairToolPairs [DecidableEq κ] (store : κ → Message) (messages : List (Handle κ)) :
    (κ → Message) × List (Handle κ) :=
  let (toolCallIds, result) := pairTools store [] messages
  if toolCallIds ≠ [] then removeCalls toolCallIds store result else (store, result)

/-! ### The history -/

/-- The messages the filters of roles and summaries leave. -/
def filterMessages (store : κ → Message) (options : HistoryOptions) (messages : List κ) : List κ :=
  let allowed := match options.roles with
    | some roles => if roles ≠ [] then messages.filter fun m => roles.contains (store m).role.name else messages
    | none => messages
  if options.includeSummaries = some false then allowed.filter fun m => !isSummaryMessage (store m) else allowed

/-- Whether the filter of roles applies. -/
def filtersRoles (options : HistoryOptions) : Bool := options.roles.any (· ≠ [])

/-- The part of `addChatHistory` that selects and repairs the messages. -/
def selectHistory [DecidableEq κ] (store : κ → Message) (options : HistoryOptions) (messages : List κ)
    (currentTraceStartIndex : Option Nat) : (κ → Message) × List (Handle κ) :=
  let filtered := (filterMessages store options messages).map Handle.shared
  let stripped := stripThinking store options messages currentTraceStartIndex filtered
  let dropped := if options.dropTools then dropToolHistory store options.dropToolNames stripped else stripped
  let (limited, limits) := limitHistory (fun msg => (msg.read store).role) (fun msg => contentToText (msg.read store))
    options dropped
  if (filtersRoles options || limits) && !options.dropTools then repairToolPairs store limited else (store, limited)

end Preset

end PiRp
