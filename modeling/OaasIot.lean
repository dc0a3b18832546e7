import OaasIot.Odgm.MstConvergence
import OaasIot.Odgm.MstResurrection
import OaasIot.Odgm.Versions
import OaasIot.Crm.Routes
import OaasIot.Crm.StatusMerge
import OaasIot.Crm.Enforcer
import OaasIot.Crm.Deploy
import OaasIot.Odgm.Invocation
import OaasIot.Pm.RuntimeRecords
import OaasIot.Pm.RuntimeListing
import OaasIot.Pm.StrongReplicas
import OaasIot.Odgm.BatchVersions
import OaasIot.Odgm.Cursor
import OaasIot.Odgm.Views
import OaasIot.CpStorage.Equivalence
import OaasIot.Pm.ScriptDeployment
import OaasIot.Odgm.LastWriterWins
import OaasIot.Odgm.BatchOrder
import OaasIot.Odgm.ZenohObjects
import OaasIot.Odgm.DeleteTriggers
import OaasIot.Odgm.EventOrder
import OaasIot.Odgm.TreeIndex
import OaasIot.Odgm.LogRange
import OaasIot.Odgm.MergeRaces
import OaasIot.Odgm.SnapshotFailure
import OaasIot.Odgm.SnapshotParser
import OaasIot.Storage.Atomics
import OaasIot.Storage.PrefixScan
import OaasIot.Storage.Statistics
import OaasIot.Storage.TransactionScan
import OaasIot.Odgm.CollectionFailures
import OaasIot.Odgm.GrpcMerge
import OaasIot.Odgm.ObjectCursor
import OaasIot.Wasm.Reentrancy
import OaasIot.Pm.ShardPlan
import OaasIot.Pm.QuorumSizing
import OaasIot.Pm.DeploymentNames
import OaasIot.Crm.RouteUrls
import OaasIot.Crm.Cleanup
import OaasIot.Crm.SelfHealing
import OaasIot.Crm.Orphans
import OaasIot.Odgm.Endpoints
import OaasIot.Odgm.PartitionRouting
import OaasIot.Crm.MergedRoutes
import OaasIot.Pm.SourcePaths
import OaasIot.Storage.Pages
import OaasIot.Canvas.GolStep
