import PiRp.JsSplit
import PiRp.JsonValue

/-! The messages that go to a provider, and the messages of an agent that they are made from. -/

namespace PiRp.Llm

structure ToolCall where
  id : JsStr
  name : JsStr
  arguments : Json
  thoughtSignature : Option JsStr

inductive Block where
  | text (text : JsStr) (textSignature : Option JsStr)
  | thinking (thinking : JsStr) (thinkingSignature : Option JsStr) (redacted : Bool)
  | image (data mimeType : JsStr)
  | toolCall (call : ToolCall)

def Block.toolCall? : Block → Option ToolCall
  | .toolCall call => some call
  | _ => none

inductive Content where
  | string (text : JsStr)
  | blocks (parts : List Block)

/-- The content as an array. -/
def Content.toBlocks : Content → List Block
  | .string text => [.text text none]
  | .blocks parts => parts

inductive StopReason where
  | pending
  | stop
  | length
  | toolUse
  | error
  | aborted
  | deferred
  deriving DecidableEq

/-- `AssistantMessage`; one made from a custom message has only a content. -/
structure AssistantMessage where
  content : Option (List Block)
  api : Option JsStr
  provider : Option JsStr
  model : Option JsStr
  stopReason : Option StopReason
  timestamp : Nat

structure ToolResultMessage where
  toolCallId : JsStr
  toolName : JsStr
  content : Option (List Block)
  isError : Bool
  timestamp : Nat

/-- `Message`; a content can be missing in what untyped callers pass. -/
inductive Message where
  | system (content : Option Content) (timestamp : Nat)
  | user (content : Option Content) (timestamp : Nat)
  | assistant (message : AssistantMessage)
  | toolResult (message : ToolResultMessage)

/-- The tool calls of a content. -/
def toolCalls (content : Option (List Block)) : List ToolCall := (content.getD []).filterMap Block.toolCall?

/-! ### Messages of the agent -/

structure BashExecutionMessage where
  command : JsStr
  output : JsStr
  exitCode : Option Int
  cancelled : Bool
  truncated : Bool
  fullOutputPath : Option JsStr
  timestamp : Nat
  excludeFromContext : Bool

structure CustomMessage where
  customType : JsStr
  content : Content
  display : Bool
  details : Option Json
  timestamp : Nat

inductive SummaryKind where
  | branch
  | compaction

/-- `AgentMessage`; the role of another message is none of those the conversion knows. -/
inductive AgentMessage where
  | llm (message : Message)
  | bashExecution (message : BashExecutionMessage)
  | custom (message : CustomMessage)
  | summary (kind : SummaryKind) (summary : JsStr) (timestamp : Nat)
  | other

end PiRp.Llm
