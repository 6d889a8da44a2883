import CredSync.Core.Crash
import CredSync.Core.Cutting
import CredSync.Core.Dispatch
import CredSync.Core.Drafts
import CredSync.Core.Escalation
import CredSync.Core.Migration
import CredSync.Core.OutboxLedger
import CredSync.Core.Pushing
import CredSync.Core.Quarantine
import CredSync.Core.Refusal
import CredSync.Core.Separation
import CredSync.Core.StoredDigest
import CredSync.Protocol.CommandText
import CredSync.Protocol.RoundTrip
import CredSync.Server.Appending
import CredSync.Server.Compaction
import CredSync.Server.Daemon
import CredSync.Server.ForwardRace
import CredSync.Server.Paging
import CredSync.Server.PullWalk
import CredSync.Server.SharedSession
import CredSync.Server.Yielding
import CredSync.Sim.Batch
import CredSync.Sim.Clients
import CredSync.Sim.Convergence
import CredSync.Sim.Dedupe
import CredSync.Sim.Queries
import CredSync.Sim.Rng
import CredSync.Sync.Exchange
import CredSync.Sync.Harmless
import CredSync.Sync.Healing
import CredSync.Sync.Joining
import CredSync.Sync.Rebuild
import CredSync.Sync.Rollout
