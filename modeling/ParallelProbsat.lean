import ParallelProbsat.Lib.Positions
import ParallelProbsat.Lib.Buckets
import ParallelProbsat.Lib.Loops
import ParallelProbsat.Util.Bitfield
import ParallelProbsat.Sat.CnfFormula
import ParallelProbsat.Sat.Instance
import ParallelProbsat.Sat.OccurrenceIndex
import ParallelProbsat.Sat.UnsatList
import ParallelProbsat.Sat.BreakCache
import ParallelProbsat.Sat.Builds
import ParallelProbsat.Sat.Input
import ParallelProbsat.Sat.ReadCounts
import ParallelProbsat.Sat.Verdict
import ParallelProbsat.Probsat
import ParallelProbsat.Communication.Messages
import ParallelProbsat.Communication.Server
import ParallelProbsat.Lib.Runs
import ParallelProbsat.Communication.Scheduling
import ParallelProbsat.Communication.Files
import ParallelProbsat.Communication.Activation
import ParallelProbsat.Communication.Worker
import ParallelProbsat.Communication.Exchange
import ParallelProbsat.Communication.Cluster
import ParallelProbsat.Communication.Shutdown
import ParallelProbsat.Sat.Layouts
import ParallelProbsat.Sat.UncleanCache
import ParallelProbsat.Sat.ClauseLine
import ParallelProbsat.Sat.ConfigurationLine
import ParallelProbsat.Sat.DeclaredClauses
import ParallelProbsat.Sat.WrittenFormula
import ParallelProbsat.Sat.Initialize
import ParallelProbsat.Communication.Slots
import ParallelProbsat.Communication.Buffers
import ParallelProbsat.Communication.Reports
import ParallelProbsat.Lib.While
import ParallelProbsat.Sat.Streams
import ParallelProbsat.Sat.Reload
import ParallelProbsat.Lib.PrefixSums
import ParallelProbsat.Sat.Sampling
import ParallelProbsat.Sat.CounterRanges
import ParallelProbsat.Sat.SharedCache
import ParallelProbsat.Communication.Replies
import ParallelProbsat.Communication.Statistics
import ParallelProbsat.Communication.Termination
import ParallelProbsat.Communication.Sizes
import ParallelProbsat.Communication.Handed
import ParallelProbsat.Communication.Execution
import ParallelProbsat.Communication.Averages
import ParallelProbsat.Lib.Simulation
import ParallelProbsat.Util.BitArray
import ParallelProbsat.Util.BitMoves
import ParallelProbsat.Sat.WideClauses
import ParallelProbsat.Iterations
import ParallelProbsat.Sat.Subscripts
import ParallelProbsat.Lib.Distance
import ParallelProbsat.Lib.Draws
import ParallelProbsat.Sat.Completeness
import ParallelProbsat.Lib.Congruential
import ParallelProbsat.Generator
import ParallelProbsat.Answers
import ParallelProbsat.Communication.Attribution
import ParallelProbsat.Communication.Totals
import ParallelProbsat.Lib.Channels
import ParallelProbsat.Communication.Solutions
import ParallelProbsat.Communication.Reproduction
import ParallelProbsat.Communication.Exhaustion
import ParallelProbsat.Communication.Script
import ParallelProbsat.Communication.ScriptRuns
import ParallelProbsat.Communication.ScriptProgress
import ParallelProbsat.Communication.ScriptText
import ParallelProbsat.Communication.ScriptCluster
