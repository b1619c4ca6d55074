import TrtLlm.Machine.CommandLoop
import TrtLlm.Machine.Horizon
import TrtLlm.Machine.OneMachine
import TrtLlm.Machine.Path
import TrtLlm.Machine.SlotPool
import TrtLlm.Model.Core.Capacity
import TrtLlm.Model.Core.Config
import TrtLlm.Model.Core.IterOrder
import TrtLlm.Model.Core.Request
import TrtLlm.Model.Core.Stats
import TrtLlm.Model.Core.Types
import TrtLlm.Model.Engine.Cost
import TrtLlm.Model.Engine.Interface
import TrtLlm.Model.Engine.Mock
import TrtLlm.Model.Frontend.Server
import TrtLlm.Model.KvCache.Pool
import TrtLlm.Model.KvCache.PrefixCache
import TrtLlm.Model.KvCache.Radix
import TrtLlm.Model.Launch.EngineYaml
import TrtLlm.Model.Launch.Environment
import TrtLlm.Model.PyExt.Bridge
import TrtLlm.Model.PyExt.Decide
import TrtLlm.Model.PyExt.Patch
import TrtLlm.Model.PyExt.RawDecision
import TrtLlm.Model.PyExt.RustScheduler
import TrtLlm.Model.PyExt.Shadow
import TrtLlm.Model.Pyhost.Host
import TrtLlm.Model.Raw.Capacity
import TrtLlm.Model.Raw.Config
import TrtLlm.Model.Raw.Number
import TrtLlm.Model.Raw.Search
import TrtLlm.Model.Raw.Simulator
import TrtLlm.Model.Router.Policy
import TrtLlm.Model.Router.Registry
import TrtLlm.Model.Sched.Decode
import TrtLlm.Model.Sched.Iteration
import TrtLlm.Model.Sched.ItlController
import TrtLlm.Model.Sched.Policy
import TrtLlm.Model.Sched.Prefill
import TrtLlm.Model.Sim.Events
import TrtLlm.Model.Sim.Report
import TrtLlm.Model.Sim.Simulator
import TrtLlm.Model.Transfer.Reshard
import TrtLlm.Model.Tuner.Aic
import TrtLlm.Model.Tuner.Csv
import TrtLlm.Model.Tuner.Plan
import TrtLlm.Model.Wire.DynamoEngine
import TrtLlm.Model.Wire.Events
import TrtLlm.Model.Wire.HttpTransport
import TrtLlm.Model.Wire.HttpWorker
import TrtLlm.Model.Wire.RequestStream
import TrtLlm.Model.Wire.TransportRequest
import TrtLlm.Model.Wire.WorkerLifecycle
import TrtLlm.Model.Wire.WorkerRequest
import TrtLlm.Model.Worker.DecodeWorker
import TrtLlm.Model.Worker.Deployment
import TrtLlm.Model.Worker.MockDeployment
import TrtLlm.Model.Worker.PrefillWorker
import TrtLlm.Model.Worker.RoutedDeployment
import TrtLlm.Model.Worker.Serving
import TrtLlm.Model.Worker.Tokenizer
import TrtLlm.Soundness.AdmissionClock
import TrtLlm.Soundness.AdmissionRoom
import TrtLlm.Soundness.AicColumns
import TrtLlm.Soundness.BridgeDecision
import TrtLlm.Soundness.Carriers
import TrtLlm.Soundness.ClientPumps
import TrtLlm.Soundness.ClientRuns
import TrtLlm.Soundness.ClientStreams
import TrtLlm.Soundness.ControllerCap
import TrtLlm.Soundness.ControllerProbe
import TrtLlm.Soundness.ControllerRuns
import TrtLlm.Soundness.CsvRoundTrip
import TrtLlm.Soundness.DecidePermutation
import TrtLlm.Soundness.DecideSpec
import TrtLlm.Soundness.DecodeBooks
import TrtLlm.Soundness.DecodeLedger
import TrtLlm.Soundness.DecodeMemory
import TrtLlm.Soundness.DecodeRound
import TrtLlm.Soundness.DecodeSizing
import TrtLlm.Soundness.DeploymentOwnership
import TrtLlm.Soundness.EngineBooks
import TrtLlm.Soundness.EngineOptions
import TrtLlm.Soundness.FrontendAnswers
import TrtLlm.Soundness.HashDivergence
import TrtLlm.Soundness.HitRate
import TrtLlm.Soundness.HostCalls
import TrtLlm.Soundness.ItlTolerance
import TrtLlm.Soundness.LauncherLayers
import TrtLlm.Soundness.LayoutGroups
import TrtLlm.Soundness.LayoutScan
import TrtLlm.Soundness.LayoutSpelling
import TrtLlm.Soundness.MockEngineStep
import TrtLlm.Soundness.MooreHodgson
import TrtLlm.Soundness.OnTimeOptimal
import TrtLlm.Soundness.OrderFree
import TrtLlm.Soundness.PageLedger
import TrtLlm.Soundness.PatchLayers
import TrtLlm.Soundness.PlanBudget
import TrtLlm.Soundness.PoolOwnership
import TrtLlm.Soundness.PrefillCredit
import TrtLlm.Soundness.PrefillPlan
import TrtLlm.Soundness.PrefillProgress
import TrtLlm.Soundness.PrefillRound
import TrtLlm.Soundness.PrefillTiling
import TrtLlm.Soundness.PrefillWedge
import TrtLlm.Soundness.PrefixIndex
import TrtLlm.Soundness.PrefixPages
import TrtLlm.Soundness.PresenceLedger
import TrtLlm.Soundness.RadixPrune
import TrtLlm.Soundness.RadixRoom
import TrtLlm.Soundness.RadixSurvivors
import TrtLlm.Soundness.RadixTree
import TrtLlm.Soundness.RankAgreement
import TrtLlm.Soundness.RequestContract
import TrtLlm.Soundness.RequestShape
import TrtLlm.Soundness.ReshardPlan
import TrtLlm.Soundness.RouteChoice
import TrtLlm.Soundness.RoutedRuns
import TrtLlm.Soundness.ServedRequest
import TrtLlm.Soundness.ServingLoad
import TrtLlm.Soundness.ShadowLive
import TrtLlm.Soundness.SimClock
import TrtLlm.Soundness.SimConservation
import TrtLlm.Soundness.SimOrder
import TrtLlm.Soundness.SimRouting
import TrtLlm.Soundness.SimSteps
import TrtLlm.Soundness.SplitSearch
import TrtLlm.Soundness.SseFrames
import TrtLlm.Soundness.SseRoundTrip
import TrtLlm.Soundness.SseScan
import TrtLlm.Soundness.SseVerdict
import TrtLlm.Soundness.SteeringRank
import TrtLlm.Soundness.StreamCleanup
import TrtLlm.Soundness.StreamedText
import TrtLlm.Soundness.SyntheticFinish
import TrtLlm.Soundness.TransferBuffers
import TrtLlm.Soundness.TunedTopology
import TrtLlm.Soundness.ValidConfig
import TrtLlm.Soundness.WorkerCleanup
import TrtLlm.Soundness.WorkerStream
import TrtLlm.ToMathlib.AListInverse
import TrtLlm.ToMathlib.AListLookup
import TrtLlm.ToMathlib.AListRetain
import TrtLlm.ToMathlib.AListSum
import TrtLlm.ToMathlib.DedupAdjacent
import TrtLlm.ToMathlib.FirstFault
import TrtLlm.ToMathlib.FirstFit
import TrtLlm.ToMathlib.FloatClasses
import TrtLlm.ToMathlib.FloatRounding
import TrtLlm.ToMathlib.InjectiveFold
import TrtLlm.ToMathlib.ListCount
import TrtLlm.ToMathlib.ListEraseDups
import TrtLlm.ToMathlib.ListIndex
import TrtLlm.ToMathlib.ListLast
import TrtLlm.ToMathlib.ListSort
import TrtLlm.ToMathlib.NearestRank
import TrtLlm.ToMathlib.OptionMapM
import TrtLlm.ToMathlib.PermFold
import TrtLlm.ToMathlib.Rearrange
import TrtLlm.ToMathlib.ScanMin
