import CodexBridge.Automations.Admission
import CodexBridge.Runtime.Cancel
import CodexBridge.Quota.Charging
import CodexBridge.Journal.Dedupe
import CodexBridge.Automations.DispatchSafety
import CodexBridge.Automations.Linking
import CodexBridge.AppServer.Correlation
import CodexBridge.AppServer.Mask
import CodexBridge.Discord.Fencing
import CodexBridge.Journal.Copies
import CodexBridge.Panel.LastWriter
import CodexBridge.Host.Revocation
import CodexBridge.Browser.Isolation
import CodexBridge.Accounts.SignIns
import CodexBridge.Goals.Fence
import CodexBridge.HaMcp.Lifecycle
import CodexBridge.Notices.Eviction
import CodexBridge.Assist.OneTask
import CodexBridge.Terminal.GivesBack
import CodexBridge.Runtime.Checkpoint
import CodexBridge.Runtime.Chunks
import CodexBridge.AppServer.Bounded
import CodexBridge.AppServer.Coalescing
import CodexBridge.Stream.Fanout
import CodexBridge.Prompts.Excerpts
import CodexBridge.Questions.Answers
import CodexBridge.Questions.Reload
import CodexBridge.Accounts.Removal
import CodexBridge.Stream.Consumed
import CodexBridge.Panel.Digest
import CodexBridge.Mcp.Framing
import CodexBridge.Mcp.Survival
import CodexBridge.Panel.EventCursor
import CodexBridge.Review.Counting
import CodexBridge.Automations.Pruning
import CodexBridge.Automations.FailedSave
import CodexBridge.Review.Separation
import CodexBridge.Runtime.Patches
import CodexBridge.Usage.Telescope
import CodexBridge.Archives.Manifest
