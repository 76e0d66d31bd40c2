import FlowLogix.Crdt.LwwElementSet
import FlowLogix.Mobile.BackoffTimers
import FlowLogix.Mobile.Delivery
import FlowLogix.Mobile.InterruptedPull
import FlowLogix.Mobile.LocalClock
import FlowLogix.Mobile.PendingBatch
import FlowLogix.Mobile.PendingFlag
import FlowLogix.Mobile.Replicas
import FlowLogix.Mobile.ResponseParser
import FlowLogix.Mobile.StoreCalls
import FlowLogix.Mobile.UploadRestart
import FlowLogix.Mobile.UploadRetries
import FlowLogix.Ordering.CollisionOrder
import FlowLogix.Ordering.KeyGrowth
import FlowLogix.Ordering.RebalancedKeys
import FlowLogix.Realtime.AppliedNumbers
import FlowLogix.Realtime.DeltaSync
import FlowLogix.Realtime.GatewaySockets
import FlowLogix.Realtime.LiveFrames
import FlowLogix.Realtime.Outbox
import FlowLogix.Realtime.SharedTabs
import FlowLogix.Server.AnnouncedWrites
import FlowLogix.Server.BadChange
import FlowLogix.Server.ChangeFlags
import FlowLogix.Server.ConcurrentSyncs
import FlowLogix.Server.ConcurrentUpdate
import FlowLogix.Server.DeleteFrames
import FlowLogix.Server.Deletion
import FlowLogix.Server.DeltaPage
import FlowLogix.Server.InsertedPairs
import FlowLogix.Server.KeyRoom
import FlowLogix.Server.LeftOut
import FlowLogix.Server.MovedFrames
import FlowLogix.Server.NeighborMoves
import FlowLogix.Server.NeighborPlacement
import FlowLogix.Server.OmittedFields
import FlowLogix.Server.PositionMigration
import FlowLogix.Server.StoredClocks
import FlowLogix.Server.TenantContext
import FlowLogix.Server.TenantIsolation
import FlowLogix.Server.WebEdits
import FlowLogix.Server.WebTenancy
import FlowLogix.Web.Drop
import FlowLogix.Web.MoveRollback
import FlowLogix.Web.MoveTokens
import FlowLogix.Web.OwnActions
import FlowLogix.Web.Reload
import FlowLogix.Web.ReloadOrder
import FlowLogix.Web.SignedIn
import FlowLogix.Web.WellFormedBoard
