import LunaEdge.AcmeDns01
import LunaEdge.BindingCache
import LunaEdge.BridgeHistory
import LunaEdge.BridgeOwnership
import LunaEdge.BridgePublish
import LunaEdge.BridgeRemoval
import LunaEdge.BundleWrite
import LunaEdge.CertCleanup
import LunaEdge.CertRevisions
import LunaEdge.CursorSafety
import LunaEdge.DnsAdd
import LunaEdge.DnsChannel
import LunaEdge.DnsMerge
import LunaEdge.DnsReplica
import LunaEdge.DnsServe
import LunaEdge.GatewayAgreement
import LunaEdge.GatewayListeners
import LunaEdge.HelloSteps
import LunaEdge.HostRouting
import LunaEdge.HubRuns
import LunaEdge.IngressAgreement
import LunaEdge.IngressPaths
import LunaEdge.Interleaving
import LunaEdge.ListenerHosts
import LunaEdge.ManageCapture
import LunaEdge.OrderIndependence
import LunaEdge.PathRewrite
import LunaEdge.PeekConn
import LunaEdge.PlanAtomicity
import LunaEdge.PlanFrame
import LunaEdge.PlanIdempotent
import LunaEdge.PlanPatches
import LunaEdge.Quiescence
import LunaEdge.ReplicationSafety
import LunaEdge.TlsCertResolver
