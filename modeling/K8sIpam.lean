import K8sIpam.Vlan.Concurrent
import K8sIpam.Vlan.Reported
import K8sIpam.Backend.Restart
import K8sIpam.Ipam.Concurrent
import K8sIpam.Ipam.Hint
import K8sIpam.Ipam.Expansion
import K8sIpam.Ipam.Reclaim
import K8sIpam.Ipam.Storage
import K8sIpam.Vlan.Ranges
import K8sIpam.Backend.Failure
import K8sIpam.Controllers.Reconciler
import K8sIpam.Ipam.Delete
import K8sIpam.Controllers.Cluster
import K8sIpam.Controllers.Release
import K8sIpam.Ipam.Single
import K8sIpam.Controllers.NetworkInstance
import K8sIpam.Controllers.Convergence
import K8sIpam.Ipam.Getter
import K8sIpam.Ipam.Gateway
import K8sIpam.Vlan.Reserved
import K8sIpam.Db.Locks
import K8sIpam.Lease.Lease
import K8sIpam.Hash.Hash
import K8sIpam.Controllers.RawTopology
import K8sIpam.Ipam.Fresh
import K8sIpam.Ipam.Search
import K8sIpam.Ipam.Accepted
import K8sIpam.Vlan.Restart
import K8sIpam.Backend.Index
import K8sIpam.Ipam.Watcher
import K8sIpam.Proxy.ProxyState
import K8sIpam.Lib.Nest
import K8sIpam.Ipam.Nesting
import K8sIpam.Ipam.NestingRequests
import K8sIpam.Db.Searches
import K8sIpam.Db.Vxlan
import K8sIpam.Vlan.RangeText
import K8sIpam.Vlan.LifeCycle
import K8sIpam.Ipam.Descendants
import K8sIpam.Ipam.Again
import K8sIpam.Ipam.AddressFamily
import K8sIpam.Controllers.LinkNames
import K8sIpam.Ipam.Notify
import K8sIpam.Controllers.Selector
import K8sIpam.Resources.AnyOrder
import K8sIpam.Controllers.Selection
import K8sIpam.Controllers.Diversity
import K8sIpam.Controllers.EndpointClaims
import K8sIpam.Controllers.Reselect
import K8sIpam.Api.Gvk
import K8sIpam.Proxy.Refresh
import K8sIpam.Api.ConditionedStatus
import K8sIpam.Api.Finalizer
import K8sIpam.Net.Netip
import K8sIpam.Ipam.ClaimNames
import K8sIpam.Backend.Isolation
import K8sIpam.Controllers.EndpointRace
import K8sIpam.Lib.Simulate
import K8sIpam.Proxy.Rpc
import K8sIpam.Controllers.VlanVlan
import K8sIpam.Controllers.EndpointAlone
