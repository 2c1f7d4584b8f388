import MapRelay.ForStd.Heap
import MapRelay.ForStd.Run
import MapRelay.ForStd.Links
import MapRelay.ForStd.Codec
import MapRelay.ForStd.SoftState
import MapRelay.ForStd.Traffic
import MapRelay.ForStd.Bfs
import MapRelay.ForStd.Subdivision
import MapRelay.Native.NodeList
import MapRelay.Native.Graph
import MapRelay.Native.Geohash
import MapRelay.Native.Division
import MapRelay.Native.KernelGraph
import MapRelay.Native.SharedMem
import MapRelay.Native.Mac48Address
import MapRelay.Native.RelayZone
import MapRelay.Native.Buffer
import MapRelay.Native.MbrHeader
import MapRelay.Native.Neighbors
import MapRelay.Native.WifiMacHeader
import MapRelay.Native.OcbWifiMac
import MapRelay.Native.CrossVertex
import MapRelay.Native.SumoMap
import MapRelay.Native.MbrRoute
import MapRelay.Spec.GraphOps
import MapRelay.Spec.EdgeDivision
import MapRelay.Spec.GraphInvariant
import MapRelay.Spec.KernelGraph
import MapRelay.Spec.SharedMem
import MapRelay.Spec.MbrHeader
import MapRelay.Spec.Neighbors
import MapRelay.Spec.MbrTable
import MapRelay.Spec.RelayMac
import MapRelay.Spec.CrossVertex
import MapRelay.Spec.SumoMap
import MapRelay.Spec.GraphDivision
import MapRelay.ForStd.Choice
import MapRelay.Spec.RelayZone
import MapRelay.Spec.KernelForward
import MapRelay.Native.Forward
import MapRelay.Spec.Forward
import MapRelay.Native.AodvNeighbors
import MapRelay.Spec.NbAsserts
import MapRelay.Spec.WifiMacHeader
import MapRelay.Native.Ipv4Interface
import MapRelay.Spec.RelayTag
import MapRelay.ForStd.Window
import MapRelay.Native.PktOutput
import MapRelay.Spec.TwoHop
import MapRelay.ForStd.Greedy
import MapRelay.Native.Gpsr
import MapRelay.Spec.Gpsr
import MapRelay.ForStd.Region
import MapRelay.Native.Netlink
import MapRelay.Spec.Netlink
import MapRelay.ForStd.AdjacencyList
import MapRelay.ForStd.Bimap
import MapRelay.Native.Importer
import MapRelay.Spec.Importer
import MapRelay.Spec.TileRemoval
import MapRelay.ForStd.Blocks
import MapRelay.Native.GeoSvrPacket
import MapRelay.Spec.GeoSvrPacket
import MapRelay.ForStd.Memory
import MapRelay.ForStd.StructLayout
import MapRelay.Native.SharedNeighbors
import MapRelay.Spec.SharedNeighbors
import MapRelay.ForStd.Memo
import MapRelay.Native.ObstacleLoss
import MapRelay.ForStd.Frame
import MapRelay.Spec.ObstacleWall
import MapRelay.Spec.ObstacleLoss
import MapRelay.ForStd.Intern
import MapRelay.Native.SumoRoads
import MapRelay.Spec.SumoRoads
import MapRelay.ForStd.Morton
import MapRelay.ForStd.OrLinear
import MapRelay.Spec.GeohashCells
import MapRelay.Spec.ZoneGeometry
import MapRelay.Spec.PositionHash
import MapRelay.Spec.RelayChoice
import MapRelay.ForStd.BfsTree
import MapRelay.Spec.KernelCrossVertex
import MapRelay.ForStd.Selection
import MapRelay.Spec.VehicleVertex
import MapRelay.Spec.MatchedVertices
import MapRelay.Spec.WayIds
import MapRelay.ForStd.PairSum
import MapRelay.Spec.DivisionIds
import MapRelay.ForStd.Ends
import MapRelay.Native.SumoLoad
import MapRelay.Spec.SumoLoad
import MapRelay.ForStd.Drift
import MapRelay.Native.GraphLists
import MapRelay.ForStd.Survivors
import MapRelay.Native.GpsrRecovery
import MapRelay.Spec.RngPlanarize
import MapRelay.Spec.BestAngle
import MapRelay.Spec.RecoveryEntry
import MapRelay.Spec.GraphLists
import MapRelay.Native.MsvrMap
import MapRelay.ForStd.LastWrite
import MapRelay.Spec.PathSearch
import MapRelay.Spec.PathRestore
import MapRelay.Spec.PathChoice
import MapRelay.Spec.RoadSearch
import MapRelay.Spec.PathRounds
import MapRelay.Spec.PathRoute
import MapRelay.Spec.HeaderEquality
import MapRelay.Spec.CrossParents
import MapRelay.Spec.RelayedDst
import MapRelay.ForStd.EraseScan
import MapRelay.Native.Filter
import MapRelay.Spec.Filter
import MapRelay.ForStd.Repeats
import MapRelay.Spec.ImporterRoads
import MapRelay.ForStd.Leader
import MapRelay.Native.GeoSvrNeighbors
import MapRelay.Spec.NeighborModes
import MapRelay.Native.GeoSvrQueue
import MapRelay.Spec.GeoSvrQueue
import MapRelay.ForStd.RelativeNeighborhood
import MapRelay.Spec.PlanarNetwork
import MapRelay.ForStd.Detour
import MapRelay.Native.GpsrRoute
import MapRelay.Spec.GpsrRoute
import MapRelay.ForStd.Ledger
import MapRelay.ForStd.Deferral
import MapRelay.Native.RequestQueue
import MapRelay.Spec.RequestQueue
import MapRelay.Native.GpsrPacket
import MapRelay.Spec.GpsrPacket
import MapRelay.Spec.DeferredPackets
import MapRelay.Spec.GpsrQueue
import MapRelay.Native.GpsrNetwork
import MapRelay.Spec.GpsrNetwork
import MapRelay.Native.GeoSvrRoute
import MapRelay.Spec.GeoSvrRoute
import MapRelay.Native.GeoSvrNetwork
import MapRelay.Spec.GeoSvrDeferred
import MapRelay.Spec.DeferredOrder
import MapRelay.Spec.GeoSvrNetwork
import MapRelay.ForStd.Periodic
import MapRelay.Native.MbrNeighborApp
import MapRelay.Spec.Beaconing
import MapRelay.Native.RelayNetwork
import MapRelay.Spec.RelayNetwork
import MapRelay.ForStd.Bisection
import MapRelay.Spec.GeohashPlain
import MapRelay.ForStd.Incidence
import MapRelay.Spec.RoadMap
import MapRelay.Native.NetlinkUser
import MapRelay.Spec.NetlinkUser
import MapRelay.ForStd.Announce
import MapRelay.Native.GpsrHello
import MapRelay.Spec.GpsrHello
import MapRelay.Native.GeoSvrHello
import MapRelay.Spec.GeoSvrHello
