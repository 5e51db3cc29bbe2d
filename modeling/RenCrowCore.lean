import RenCrowCore.Core.Emergency
import RenCrowCore.Core.Residency
import RenCrowCore.ExecPolicy.ApprovalSegments
import RenCrowCore.Session.CommitBarrier
import RenCrowCore.History.RetentionCompleteness
import RenCrowCore.History.RetentionReplay
import RenCrowCore.History.ReconciledContext
import RenCrowCore.ApplyPatch.RoundTrip
import RenCrowCore.ApplyPatch.Approved
import RenCrowCore.ApplyPatch.Delta
import RenCrowCore.Protocol.Projection
import RenCrowCore.Core.ReadOnlyRole
import RenCrowCore.ExecServer.NoiseRelay
import RenCrowCore.Utils.AssistantText
import RenCrowCore.Utils.Utf8Stream
import RenCrowCore.ThreadStore.ForkHistory
import RenCrowCore.ThreadStore.ForkPrefix
import RenCrowCore.Transport.ClientTracker
import RenCrowCore.UnifiedExec.HeadTailBuffer
import RenCrowCore.Rollout.ReverseScanner
import RenCrowCore.Core.AgentRegistry
import RenCrowCore.Core.NativeRemoval
import RenCrowCore.State.ThreadSectionOrder
import RenCrowCore.Utils.HiddenTagChunks
