/-
The messages between the manager, the server and the workers (`cmd/*.hpp`), with the data they
carry. Left out are `flips_per_second` and its average, which are floating point and decide
nothing, and the `REQ_MAX_CMD_LENGTH` messages. These enlarge a receive buffer (`Buffers`), except
those of the server to the manager, which has no case for them (`Reports`).
-/
import Mathlib.Tactic

namespace ParallelProbsat.Communication

/-! ## The data of the messages -/

structure ProblemInstanceMetadata where
  /-- The number of initial assignments to try; 0 for any number. -/
  anzahlStartbelegungen : UInt32 := 0
  /-- Flips per initial assignment; 0 for the setting of the worker. -/
  anzahlFlips : UInt32 := 0
  filename : String := ""
  deriving DecidableEq, Repr

structure DoneProcessingInfo where
  taskId : UInt32 := 0
  instancesProcessed : UInt32 := 0
  numFlipsDone : UInt64 := 0
  initDuration : UInt64 := 0
  solveDuration : UInt64 := 0
  overallDuration : UInt64 := 0
  seed : UInt64 := 0
  numVars : UInt64 := 0
  numClauses : UInt64 := 0
  solved : Bool := false
  deriving DecidableEq, Repr

structure ProblemInstanceStatistics where
  numInstancesStarted : UInt64 := 0
  totalNumFlips : UInt64 := 0
  totalInitDuration : UInt64 := 0
  totalSolveDuration : UInt64 := 0
  totalOverallDuration : UInt64 := 0
  numVars : UInt64 := 0
  numClauses : UInt64 := 0
  timesSolved : UInt64 := 0
  minFlipsToSolve : UInt64 := UInt64.ofNat (2 ^ 64 - 1)
  deriving DecidableEq, Repr

structure Job where
  metadata : ProblemInstanceMetadata
  numInstancesToStart : UInt32
  taskId : UInt32
  deriving DecidableEq, Repr

structure SolutionInfo where
  seed : UInt64 := 0
  numFlipsDone : UInt64 := 0
  solveDuration : UInt64 := 0
  numVars : UInt64 := 0
  numClauses : UInt64 := 0
  filename : String := ""
  deriving DecidableEq, Repr

/-! ## The commands of each direction -/

/-- Manager to server. -/
inductive M2S where
  | addWorkers (numWorkers : Int)
  | addFile (data : ProblemInstanceMetadata)
  | terminate
  deriving DecidableEq, Repr

/-- Server to manager. -/
inductive S2M where
  | foundSolution (info : SolutionInfo)
  | sendStatistics (metadata : ProblemInstanceMetadata) (statistics : ProblemInstanceStatistics)
  | disconnect
  deriving DecidableEq, Repr

/-- Server to worker. -/
inductive S2W where
  | activateWorker
  | sendInstances (jobs : List Job)
  | terminate
  deriving DecidableEq, Repr

/-- Worker to server. -/
inductive W2S where
  | foundSolution (info : SolutionInfo)
  | doneProcessing (info : DoneProcessingInfo)
  | getInstances (numInstancesRequested : UInt32)
  | disconnect
  deriving DecidableEq, Repr

/-! ## The instances a message stands for -/

/-- The task number of every instance of a job. -/
def Job.instances (j : Job) : List Nat := List.replicate j.numInstancesToStart.toNat j.taskId.toNat

/-- The instances a message of the server hands out. -/
def S2W.instances : S2W → List Nat
  | .sendInstances jobs => jobs.flatMap Job.instances
  | _ => []

/-- The instances a message of a worker reports. -/
def W2S.instances : W2S → List Nat
  | .doneProcessing info => [info.taskId.toNat]
  | _ => []

end ParallelProbsat.Communication
