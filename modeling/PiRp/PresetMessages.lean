import PiRp.JsSplit
import PiRp.JsonValue

/-! The messages a prompt preset is compiled to, and the text of a message. -/

namespace PiRp.Preset

/-- The roles of messages. -/
inductive Role where
  | system
  | user
  | assistant
  | toolResult
  | custom
  | bashExecution
  | branchSummary
  | compactionSummary
  deriving DecidableEq

def Role.name : Role → JsStr
  | .system => js "system"
  | .user => js "user"
  | .assistant => js "assistant"
  | .toolResult => js "toolResult"
  | .custom => js "custom"
  | .bashExecution => js "bashExecution"
  | .branchSummary => js "branchSummary"
  | .compactionSummary => js "compactionSummary"

/-- A part of a content. -/
inductive Block where
  | text (text : JsStr) (textSignature : Option JsStr)
  | thinking (thinking : JsStr) (rest : Props Json)
  | image (data mimeType : JsStr)
  | toolCall (id name : JsStr) (rest : Props Json)

namespace Block

def text? : Block → Option JsStr
  | .text value _ => some value
  | _ => none

def isText (block : Block) : Bool := block.text?.isSome

def isThinking : Block → Bool
  | .thinking _ _ => true
  | _ => false

end Block

inductive Content where
  | string (text : JsStr)
  | array (blocks : List Block)

/-- Who a message with a content is from. -/
inductive Speaker where
  | system
  | user
  | assistant
  | custom
  | toolResult (toolCallId toolName : JsStr)

def Speaker.role : Speaker → Role
  | .system => .system
  | .user => .user
  | .assistant => .assistant
  | .custom => .custom
  | .toolResult _ _ => .toolResult

inductive SummaryKind where
  | branch
  | compaction

def SummaryKind.role : SummaryKind → Role
  | .branch => .branchSummary
  | .compaction => .compactionSummary

/-- `AgentMessage`; `fields` are the properties the compiler passes on unread. -/
inductive Message where
  | content (speaker : Speaker) (content : Content) (fields : Props Json)
  | bashExecution (output : JsStr) (fields : Props Json)
  | summary (kind : SummaryKind) (summary : JsStr) (fields : Props Json)

namespace Message

def role : Message → Role
  | .content speaker _ _ => speaker.role
  | .bashExecution _ _ => .bashExecution
  | .summary kind _ _ => kind.role

/-- The blocks of a message whose `content` is an array. -/
def blocks? : Message → Option (List Block)
  | .content _ (.array blocks) _ => some blocks
  | _ => none

/-- A copy with another array as its content. -/
def withBlocks (message : Message) (blocks : List Block) : Message :=
  match message with
  | .content speaker _ fields => .content speaker (.array blocks) fields
  | other => other

end Message

/-- The texts of the text blocks, a line each. -/
def blocksText (blocks : List Block) : JsStr := JsStr.join (js "\n") (blocks.filterMap Block.text?)

def contentToText : Message → JsStr
  | .bashExecution output _ => output
  | .content _ (.string text) _ => text
  | .content _ (.array blocks) _ => blocksText blocks
  | .summary _ _ _ => []

def isSummaryMessage : Message → Bool
  | .summary _ _ _ => true
  | _ => false

def isToolResultMessage (message : Message) : Bool := message.role = .toolResult

end PiRp.Preset
