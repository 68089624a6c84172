import WebGis.Workflow.Break
import WebGis.Workflow.FalseHit
import WebGis.Jobs.Fencing
import WebGis.Jobs.Spared
import WebGis.Cluster.Conservation
import WebGis.Cluster.Yield
import WebGis.Cluster.Limits
import WebGis.Cluster.Dispatch
import WebGis.Cluster.Leadership
import WebGis.Workflow.Drain
import WebGis.Workbench.Restored
import WebGis.Workbench.Agreed
import WebGis.Mapspec.Untouched
import WebGis.Collab.Runs
import WebGis.Tiles.RoundTrip
import WebGis.Tiles.Indexed
import WebGis.Tiles.Rings
import WebGis.Tiles.Fresh
import WebGis.Edit.Undone
import WebGis.Network.Assigned
import WebGis.Compute.Accounts
import WebGis.Compute.Reuse
import WebGis.Compute.Settled
import WebGis.Compute.Gauge
import WebGis.Governor.Slots
import WebGis.Governor.LiveBudgets
import WebGis.Governor.Gates
import WebGis.Governor.Stopped
import WebGis.Locks.Exclusion
import WebGis.Locks.Loss
import WebGis.Events.Watermark
import WebGis.Events.Outcomes
import WebGis.Events.Redelivery
import WebGis.Mapspec.AllOrNothing
import WebGis.Workflow.Owners
import WebGis.Workflow.Waves
import WebGis.Cluster.Shares
import WebGis.Mapspec.Reorder
import WebGis.Federation.Local
import WebGis.Federation.Pushdown
import WebGis.Workbench.Undo
import WebGis.Compute.Partitions
import WebGis.Events.Think
import WebGis.Query.Split
import WebGis.Workbench.RefCache
import WebGis.Governor.Aging
import WebGis.Network.TwoOpt
import WebGis.Federation.Breaker
import WebGis.Layout.Accounts
