import GossipPlans.Basic
import GossipPlans.Maps
import GossipPlans.Cuts
import GossipPlans.DegreeCap
import GossipPlans.Topology
import GossipPlans.TopologySound
import GossipPlans.GenerateSound
import GossipPlans.GenerateDraws
import GossipPlans.EdgeLoop
import GossipPlans.Saturation
import GossipPlans.Unsaturated
import GossipPlans.PeerRange
import GossipPlans.PeerRangeDraws
import GossipPlans.EthNetwork
import GossipPlans.EthNetworkSound
import GossipPlans.Validators
import GossipPlans.WellFormed
import GossipPlans.TopologyFiles
import GossipPlans.NextFit
import GossipPlans.Fragment
import GossipPlans.FragmentSound
import GossipPlans.FragmentLimit
import GossipPlans.FragmentBounds
import GossipPlans.BeaconNode
import GossipPlans.Metrics
import GossipPlans.MetricsSound
import GossipPlans.CounterJoin
import GossipPlans.CounterNet
import GossipPlans.LogNet
import GossipPlans.SyncService
import GossipPlans.PublishAndCollect
import GossipPlans.EthPhases
import GossipPlans.EthRun
import GossipPlans.EthRefusedDials
import GossipPlans.Censoring
import GossipPlans.CensoringPhases
import GossipPlans.CensoringRun
import GossipPlans.CensoringRefines
import GossipPlans.CensoringRunSound
import GossipPlans.PublishRate
import GossipPlans.ScoringPhases
import GossipPlans.MessageAccounting
import GossipPlans.ReceivedRecords
import GossipPlans.ScoringMetrics
import GossipPlans.CensorTarget
import GossipPlans.Malicious
import GossipPlans.MaliciousSound
import GossipPlans.SendMessage
import GossipPlans.Backoff
import GossipPlans.Smoke
import GossipPlans.SmokeEvents
import GossipPlans.SmokeRun
import GossipPlans.SmokeStages
import GossipPlans.SmokeDiscipline
import GossipPlans.SmokeSuccess
import GossipPlans.DelayQueue
import GossipPlans.EthSim
import GossipPlans.PrefixCode
import GossipPlans.EthTopics
import GossipPlans.MessageIds
import GossipPlans.FirstError
import GossipPlans.ScoringParams
import GossipPlans.ScoringRun
import GossipPlans.ScoringRejected
import GossipPlans.ScoringRunSound
import GossipPlans.ScoringScores
