import Zestors.Actor.Handler
import Zestors.Actor.Scheduler
import Zestors.Actor.Suspensions
import Zestors.Api.Processes
import Zestors.Channel.ActorEnd
import Zestors.Channel.Child
import Zestors.Channel.History
import Zestors.Channel.Incarnations
import Zestors.Channel.Pause
import Zestors.Channel.Receive
import Zestors.Channel.Registry
import Zestors.Channel.Snapshot
import Zestors.Channel.Spawns
import Zestors.Channel.StatusWatch
import Zestors.Channel.Wakeups
import Zestors.Cluster.Departures
import Zestors.Cluster.Driver
import Zestors.Cluster.Fabric
import Zestors.Cluster.Generation
import Zestors.Cluster.GracePeriods
import Zestors.Cluster.Replay
import Zestors.Cluster.WaitUntil
import Zestors.Inspector.Listing
import Zestors.Link.BackOff
import Zestors.Link.Connections
import Zestors.Link.Disconnects
import Zestors.Link.Frames
import Zestors.Link.IdleEnd
import Zestors.Link.Lane
import Zestors.Link.Protocols
import Zestors.Link.Throughput
import Zestors.Messaging.Answers
import Zestors.Messaging.Conversation
import Zestors.Messaging.Decoding
import Zestors.Messaging.Dispatch
import Zestors.Messaging.Exports
import Zestors.Messaging.Frame
import Zestors.Messaging.LateReports
import Zestors.Messaging.Losses
import Zestors.Messaging.MonitorEntries
import Zestors.Messaging.MonitorRequests
import Zestors.Messaging.Monitors
import Zestors.Messaging.QueueAccounting
import Zestors.Messaging.Router
import Zestors.Messaging.Table
import Zestors.RestartWindow
import Zestors.Supervisor.CustodyEnds
import Zestors.Supervisor.GroupRestart
import Zestors.Supervisor.Initialized
import Zestors.Supervisor.Leftovers
import Zestors.Supervisor.Lifecycle
import Zestors.Supervisor.NoLostChild
import Zestors.Supervisor.NoResurrection
import Zestors.Supervisor.Node
import Zestors.Supervisor.Registration
import Zestors.Supervisor.RestForOneShutdown
import Zestors.Supervisor.RestartBudget
import Zestors.Supervisor.RestartOrder
import Zestors.Supervisor.ShutdownProgress
import Zestors.Supervisor.Source
import Zestors.Supervisor.StopOrder
import Zestors.Supervisor.StreamMap
import Zestors.Supervisor.Tree
