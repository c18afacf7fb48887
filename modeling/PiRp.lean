import PiRp.AgentLoopCalls
import PiRp.AgentLoopEvents
import PiRp.AgentQueues
import PiRp.AuthStorage
import PiRp.BundleRoundTrip
import PiRp.CborDecoding
import PiRp.ClientAccounting
import PiRp.CompactionCut
import PiRp.EditDiffFuzzy
import PiRp.EditorJump
import PiRp.EventStream
import PiRp.ExecutorAccounting
import PiRp.FileMutationQueue
import PiRp.JsonRepair
import PiRp.JsonlRecovery
import PiRp.LaneReducerMaterialize
import PiRp.LaneReducerOrder
import PiRp.LlmConversion
import PiRp.LlmPairing
import PiRp.MacroComments
import PiRp.McpChunking
import PiRp.McpLifecycle
import PiRp.McpReconnection
import PiRp.MemoryRecovery
import PiRp.ObjectGc
import PiRp.PresetCompile
import PiRp.PresetPairing
import PiRp.ProtocolCodec
import PiRp.RecallOrder
import PiRp.RegexAgreement
import PiRp.RequestGating
import PiRp.ServerConvergence
import PiRp.SessionForkReplay
import PiRp.SessionInfoDifferences
import PiRp.SessionManagerFailure
import PiRp.SessionManagerMigration
import PiRp.SessionManagerWalks
import PiRp.SettingsReload
import PiRp.ShellOutput
import PiRp.StackLayout
import PiRp.StateIsolation
import PiRp.StateLocality
import PiRp.StateStoreInterleaving
import PiRp.StdinBufferChunks
import PiRp.SummaryPrompt
import PiRp.ToolSearchRecovery
import PiRp.TuiOverlayColumns
import PiRp.XmlTags
