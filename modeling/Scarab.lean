import Scarab.Lib.History
import Scarab.Prefetcher.Spp.Lookahead
import Scarab.Prefetcher.Spp.Hops
import Scarab.Prefetcher.Spp.FilterCorrectness
import Scarab.Prefetcher.Spp.Accounting
import Scarab.Prefetcher.Spp.PatternTable
import Scarab.Prefetcher.Common.QueueCorrectness
import Scarab.Prefetcher.Common.Dl0Correctness
import Scarab.Prefetcher.Common.RingConservation
import Scarab.Prefetcher.Spp.GlobalHistory
import Scarab.Prefetcher.Spp.RequestQueue
import Scarab.Prefetcher.Request
import Scarab.Prefetcher.Stride
import Scarab.Prefetcher.StrideRuns
import Scarab.Prefetcher.StrideMulti
import Scarab.Prefetcher.StrideSingle
import Scarab.Prefetcher.Cores
import Scarab.Core.Map.Bytes
import Scarab.Lib.DualPath
import Scarab.Core.Map.State
import Scarab.Core.Map.Thread
import Scarab.Core.Map.Cells
import Scarab.Core.Map.Invariant
import Scarab.Core.Map.Tracking
import Scarab.Core.Map.Sources
import Scarab.Core.Map.Transparency
import Scarab.Core.Map.StoreDeps
import Scarab.Core.WakeUp.State
import Scarab.Core.WakeUp.Firing
import Scarab.Core.WakeUp.Linking
import Scarab.Core.WakeUp.Law
import Scarab.Lib.Linked
import Scarab.Core.Node.State
import Scarab.Core.Node.Invariant
import Scarab.Core.Node.Moves
import Scarab.Core.Node.Window
import Scarab.Core.Node.Removal
import Scarab.Core.Node.Runs
import Scarab.Core.Node.Selection
import Scarab.Lib.Chain
import Scarab.Lib.Shares
import Scarab.Lib.Loop
import Scarab.Lib.Displacement
import Scarab.Core.Fetch.State
import Scarab.Core.Fetch.Law
import Scarab.Core.Fetch.Runs
import Scarab.Memory.Cache
import Scarab.Memory.State
import Scarab.Memory.Requests
import Scarab.Memory.Process
import Scarab.Memory.Machine
import Scarab.Memory.Lines
import Scarab.Memory.Matching
import Scarab.Memory.Moves
import Scarab.Memory.Joining
import Scarab.Memory.Following
import Scarab.Memory.Filling
import Scarab.Memory.Displacing
import Scarab.Memory.Derivation
import Scarab.Memory.Steps
import Scarab.Memory.Training
import Scarab.Memory.Loads
import Scarab.Lib.Places
import Scarab.Memory.Placement
import Scarab.Memory.Conservation
import Scarab.Memory.Removal
import Scarab.Memory.Pool
import Scarab.Libs.Hash.State
import Scarab.Libs.Hash.Law
import Scarab.Libs.Cache.Partition
import Scarab.Memory.CachePart.Search
import Scarab.Memory.CachePart.SearchCorrectness
import Scarab.Memory.CachePart.Curves
import Scarab.Libs.Cache.State
import Scarab.Libs.Cache.Residency
import Scarab.Libs.Cache.Lru
import Scarab.Libs.Cache.Shadow
import Scarab.Lib.Paging
import Scarab.Libs.Cache.Ideal
import Scarab.Freq
import Scarab.Lib.Window
import Scarab.Bp.Crs.State
import Scarab.Bp.Crs.Bounded
import Scarab.Bp.Crs.Linked
import Scarab.Bp.Targets
import Scarab.Prefetcher.TwoDcKeys
import Scarab.Prefetcher.GhbChain
import Scarab.Libs.List.State
import Scarab.Lib.Segment
import Scarab.Libs.List.Entries
import Scarab.Libs.List.Operations
import Scarab.Libs.List.Accounting
import Scarab.Bp.Tagescl.State
import Scarab.Bp.Tagescl.Folding
import Scarab.Bp.Tagescl.Histories
import Scarab.Bp.Tagescl.InFlight
import Scarab.Bp.Tagescl.Runs
import Scarab.Bp.Tagescl.Capacity
import Scarab.Prefetcher.Spp.Confidence
import Scarab.Prefetcher.Spp.SamePage
import Scarab.Prefetcher.Spp.Comparison
import Scarab.Lib.ShiftRegister
import Scarab.Prefetcher.Spp.SignatureMemory
import Scarab.Pin.Socket
import Scarab.Pin.Framing
import Scarab.Pin.PartialSends
import Scarab.Pin.ClientIds
import Scarab.Pin.Message
import Scarab.Prefetcher.PhaseReplay
import Scarab.Libs.Cache.Counters
import Scarab.Libs.Cache.Positions
import Scarab.Libs.Cache.LowPref
import Scarab.Memory.CachePart.Enumeration
import Scarab.Core.Map.Traversal
import Scarab.Core.WakeUp.Pool
import Scarab.Core.WakeUp.Entries
import Scarab.Core.WakeUp.Refinement
import Scarab.Libs.Cache.IdealData
import Scarab.Prefetcher.Spp.Repeated
import Scarab.Prefetcher.Victims
import Scarab.Freq.Future
import Scarab.Bp.Crs.Recovery
import Scarab.Core.ExecPorts
import Scarab.Libs.List.Traversal
import Scarab.Bp.PathHistory
import Scarab.Libs.Cache.StackPosition
import Scarab.Prefetcher.GhbTouches
import Scarab.Prefetcher.GhbWindow
import Scarab.Libs.Ports
import Scarab.Memory.OldestOp
import Scarab.Memory.Umon
import Scarab.Memory.AddrTrans
import Scarab.Memory.AddrCollisions
import Scarab.Memory.LineMatch
import Scarab.Memory.WriteThrough
import Scarab.Memory.FillPass
import Scarab.Memory.Occupancy
import Scarab.Prefetcher.Common.Feedback
import Scarab.Prefetcher.Common.Pollution
import Scarab.Bp.Tagescl.DirectFolding
import Scarab.Prefetcher.PhaseBounds
import Scarab.Lib.Frequency
import Scarab.Prefetcher.Markov
import Scarab.Prefetcher.MarkovRows
import Scarab.Bp.LoopPredictor
import Scarab.Bp.LoopTraining
import Scarab.Bp.LoopSoundness
import Scarab.Prefetcher.Stream
import Scarab.Prefetcher.StreamWindow
import Scarab.Prefetcher.StreamRuns
import Scarab.Core.WakeUp.MissDeps
import Scarab.Core.WakeUp.MissTraversals
import Scarab.Core.WakeUp.MissLaw
import Scarab.Core.WakeUp.MissRuns
import Scarab.Lib.FreeList
import Scarab.Core.OpPool
import Scarab.Lib.Bubble
import Scarab.Core.FrontEnd.State
import Scarab.Core.FrontEnd.Stages
import Scarab.Core.FrontEnd.Recovery
import Scarab.Core.FrontEnd.Line
import Scarab.Core.FrontEnd.Law
import Scarab.Core.FrontEnd.Steps
import Scarab.Core.FrontEnd.Runs
