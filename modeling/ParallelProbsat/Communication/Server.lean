/-
The server (`communication/server.hpp`, `server.cpp`): its state, one function for each command of
the manager and of a worker, and the event loop, which takes at most one command of a worker and
then at most one of the manager in every round. What the server sends is logged in its state. A
handler that throws or fails an assertion returns an exception, which ends the loop.
-/
import ParallelProbsat.Communication.Messages
import ParallelProbsat.Lib.Loops
import ParallelProbsat.Util.Exn

namespace ParallelProbsat.Communication

open ParallelProbsat.Util

/-! ## The state -/

/-- The communicator of one worker. `MPI_Comm_accept` gives every worker a communicator of its own
with that worker alone on the other side, so the rank to send to is always 0. -/
abbrev Comm := Nat

/-- `false`: tasks with `anzahl_startbelegungen` = 0 would be probed for ever. -/
def tryOnce : Bool := true

def waitForMoreFiles : Bool := false

def terminateAfterSolutionWasFound : Bool := true

def shortStatistic : Bool := true

structure TaskInfo where
  metadata : ProblemInstanceMetadata
  statistics : ProblemInstanceStatistics := {}
  numCurrentlyProcessing : UInt32 := 0
  isScheduled : Bool := true
  deriving DecidableEq, Repr

namespace TaskInfo

def new (data : ProblemInstanceMetadata) : TaskInfo := { metadata := data }

/-- `instances_available` for a request: what the quota leaves, or all that is requested. -/
def available (t : TaskInfo) (requested : UInt32) : UInt32 :=
  let numInstancesRequired := t.metadata.anzahlStartbelegungen
  let numProcessed : UInt32 := if tryOnce then t.statistics.numInstancesStarted.toUInt32 else 0
  if numInstancesRequired = 0 then requested else numInstancesRequired - t.numCurrentlyProcessing - numProcessed

/-- `k` instances go to a worker; when they are the last ones available, the task leaves the queue. -/
def assign (t : TaskInfo) (k : UInt32) (last : Bool) : TaskInfo :=
  { t with numCurrentlyProcessing := t.numCurrentlyProcessing + k, isScheduled := t.isScheduled && !last }

/-- `n` instances come back from a worker. -/
def returned (t : TaskInfo) (statistics : ProblemInstanceStatistics) (n : UInt32) : TaskInfo :=
  { t with statistics := statistics, numCurrentlyProcessing := t.numCurrentlyProcessing - n }

end TaskInfo

structure Server where
  availableTasks : List TaskInfo := []
  /-- The deque of task ids, its front first. -/
  taskOrder : List UInt32 := []
  workUnits : List Comm := []
  workUnitsDisconnected : Nat := 0
  running : Bool := true
  solutionFound : Bool := false
  terminatedWorkers : Bool := false
  statisticSend : Bool := false
  /-- How many instances are currently at workers. -/
  numInstancesInProcessing : UInt64 := 0
  /-- The workers accepted so far; the next one gets this number as its communicator. -/
  accepted : Nat := 0
  /-- Everything sent to workers, oldest first. -/
  toWorkers : List (Comm × S2W) := []
  /-- Everything sent to the manager, oldest first. -/
  toManager : List S2M := []
  deriving DecidableEq, Repr

namespace Server

def send (s : Server) (messages : List (Comm × S2W)) : Server := { s with toWorkers := s.toWorkers ++ messages }

def report (s : Server) (messages : List S2M) : Server := { s with toManager := s.toManager ++ messages }

/-- `available_tasks[task_id]` is changed. -/
def modifyTask (s : Server) (taskId : UInt32) (f : TaskInfo → TaskInfo) : Server :=
  { s with availableTasks := s.availableTasks.modify taskId.toNat f }

/-! ## Commands of the manager -/

def processM2sAddFile (data : ProblemInstanceMetadata) (s : Server) : Server :=
  let isFirstFile := s.availableTasks.isEmpty
  let tasks := s.availableTasks ++ [TaskInfo.new data]
  let s := { s with availableTasks := tasks, taskOrder := UInt32.ofNat (tasks.length - 1) :: s.taskOrder }
  if !s.workUnits.isEmpty && isFirstFile then s.send (s.workUnits.map fun comm => (comm, .activateWorker)) else s

def processM2sAddWorkers (numWorkers : Int) (s : Server) : Except Exn Server :=
  if 0 ≥ numWorkers then
    .error (.runtimeError ("server: invalid ADD_WORKER command: must add at least one worker (requested were " ++
      toString numWorkers ++ ")"))
  else
    let workers := List.range' s.accepted numWorkers.toNat
    let s := { s with workUnits := s.workUnits ++ workers, accepted := s.accepted + numWorkers.toNat }
    .ok (if s.availableTasks.isEmpty then s else s.send (workers.map fun comm => (comm, .activateWorker)))

/-- The loop of `send_termination_to_workers` after it has sent to `curr`: entries equal to `curr`
are skipped. The comparison after the last entry reads past the end; nothing is sent any more. -/
def terminateAfter (curr : Comm) : List Comm → List (Comm × S2W)
  | [] => []
  | comm :: rest => if curr = comm then terminateAfter curr rest else (comm, .terminate) :: terminateAfter comm rest

def sendTerminationToWorkers (s : Server) : Except Exn Server :=
  if s.terminatedWorkers then .ok s
  else match s.workUnits with
    | [] => .error (.assertion "0 < work_units.size()")
    | comm :: rest =>
      .ok ({ s with terminatedWorkers := true }.send ((comm, .terminate) :: terminateAfter comm rest))

def processManagerCmd : M2S → Server → Except Exn Server
  | .addWorkers numWorkers, s => s.processM2sAddWorkers numWorkers
  | .addFile data, s => .ok (s.processM2sAddFile data)
  | .terminate, s => s.sendTerminationToWorkers

/-! ## Commands of a worker -/

def processW2sFoundSolution (info : SolutionInfo) (s : Server) : Except Exn Server := do
  let s := { s with solutionFound := true }
  let s ← if terminateAfterSolutionWasFound then s.sendTerminationToWorkers else pure s
  pure (s.report [.foundSolution info])

def sendStatisticToManager (s : Server) : Server :=
  if s.statisticSend then s
  else { s with statisticSend := true }.report
    ((s.availableTasks.filter fun t : TaskInfo => decide (0 < t.statistics.numInstancesStarted) || !shortStatistic).map
      fun t : TaskInfo =>
      .sendStatistics t.metadata t.statistics)

/-- The size of the formula is noted with the first flips and must stay the same. -/
def checkFormula (msg : DoneProcessingInfo) (s : ProblemInstanceStatistics) : Except Exn ProblemInstanceStatistics :=
  if 0 < msg.numFlipsDone then
    if 0 < s.totalNumFlips then
      if s.numVars ≠ msg.numVars then .error (.assertion "s.num_vars == msg.num_vars")
      else if s.numClauses ≠ msg.numClauses then .error (.assertion "s.num_clauses == msg.num_clauses")
      else .ok s
    else .ok { s with numVars := msg.numVars, numClauses := msg.numClauses }
  else .ok s

/-- What a report adds to the statistics of its task. -/
def account (msg : DoneProcessingInfo) (s : ProblemInstanceStatistics) : Except Exn ProblemInstanceStatistics := do
  let s ← checkFormula msg s
  let s := { s with
    totalNumFlips := s.totalNumFlips + msg.numFlipsDone
    numInstancesStarted := s.numInstancesStarted + msg.instancesProcessed.toUInt64
    totalInitDuration := s.totalInitDuration + msg.initDuration
    totalSolveDuration := s.totalSolveDuration + msg.solveDuration
    totalOverallDuration := s.totalOverallDuration + msg.overallDuration }
  pure (if msg.solved then
    { s with timesSolved := s.timesSolved + 1, minFlipsToSolve := min s.minFlipsToSolve msg.numFlipsDone } else s)

/-- A task nobody waits for any more is scheduled again when instances are left to start. -/
def reschedule (taskId : UInt32) (t : TaskInfo) (s : Server) : Server :=
  let n := t.metadata.anzahlStartbelegungen
  let cp := t.numCurrentlyProcessing
  if t.isScheduled = false ∧
      ((tryOnce = false ∧ n = 0) ∨ n.toUInt64 > t.statistics.numInstancesStarted + cp.toUInt64) then
    { s.modifyTask taskId fun t => { t with isScheduled := true } with taskOrder := s.taskOrder ++ [taskId] }
  else s

/-- When all requests were returned, the statistics are sent and the workers terminated. -/
def finish (s : Server) : Except Exn Server :=
  if (s.taskOrder.isEmpty ∨ (s.solutionFound ∧ terminateAfterSolutionWasFound)) ∧ s.numInstancesInProcessing = 0 then
    if waitForMoreFiles then .ok s else s.sendStatisticToManager.sendTerminationToWorkers
  else .ok s

def processW2sDoneProcessing (msg : DoneProcessingInfo) (s : Server) : Except Exn Server := do
  match s.availableTasks[msg.taskId.toNat]? with
  | none => .error (.outOfRange "available_tasks[msg.task_id]")
  | some t =>
    let statistics ← account msg t.statistics
    if s.numInstancesInProcessing ≥ msg.instancesProcessed.toUInt64 then
      let t := t.returned statistics msg.instancesProcessed
      let s := { s.modifyTask msg.taskId fun _ => t with
        numInstancesInProcessing := s.numInstancesInProcessing - msg.instancesProcessed.toUInt64 }
      (s.reschedule msg.taskId t).finish
    else .error (.assertion "num_instances_in_processing >= msg.instances_processed")

def processW2sDisconnect (index : Nat) (s : Server) : Server :=
  let s := { s with
    workUnits := s.workUnits.eraseIdx index
    workUnitsDisconnected := s.workUnitsDisconnected + 1 }
  if (s.taskOrder.isEmpty ∨ s.solutionFound) ∧ s.workUnits.isEmpty ∧ s.statisticSend then
    { s.sendStatisticToManager with running := false }
  else s

/-- One round of the loop of `GET_INSTANCES`, for the task at the front of the queue: the state, what
is still requested and the job to reply with. -/
def assignFront (requested taskId : UInt32) (t : TaskInfo) (s : Server) : Except Exn (Server × UInt32 × Job) :=
  let instancesAvailable := t.available requested
  let instancesToStart := min requested instancesAvailable
  if instancesToStart = 0 then .error (.assertion "0 < instances_to_start")
  else
    let last : Bool := instancesAvailable ≤ instancesToStart
    let s := { s.modifyTask taskId fun t => t.assign instancesToStart last with
      taskOrder := if last then s.taskOrder.tail else s.taskOrder
      numInstancesInProcessing := s.numInstancesInProcessing + instancesToStart.toUInt64 }
    if requested ≥ instancesToStart then .ok (s, requested - instancesToStart, ⟨t.metadata, instancesToStart, taskId⟩)
    else .error (.assertion "request.num_instances_requested >= instances_to_start")

/-- The loop of `GET_INSTANCES`. Every round takes at least one of the requested instances, so as many
rounds as instances are requested are enough (`Assigning.whileLoop_eq`). -/
def assignLoop : Nat → UInt32 → List Job → Server → Except Exn (Server × List Job)
  | 0, _, reply, s => .ok (s, reply)
  | rounds + 1, requested, reply, s =>
    if requested = 0 then .ok (s, reply)
    else match s.taskOrder with
      | [] => .ok (s, reply)
      | taskId :: _ =>
        match s.availableTasks[taskId.toNat]? with
        | none => .error (.outOfRange "available_tasks[task_id]")
        | some t => do
          let (s, requested, j) ← s.assignFront requested taskId t
          assignLoop rounds requested (reply ++ [j]) s

/-- The jobs for a request; none once a solution is found. -/
def assignInstances (requested : UInt32) (s : Server) : Except Exn (Server × List Job) :=
  if s.solutionFound = false then assignLoop requested.toNat requested [] s else .ok (s, [])

def processW2sGetInstances (comm : Comm) (requested : UInt32) (s : Server) : Except Exn Server := do
  let (s, reply) ← s.assignInstances requested
  pure (s.send [(comm, .sendInstances reply)])

/-- `index` is the position of the worker in `work_units`. -/
def processWorkerCmd (index : Nat) (msg : W2S) (s : Server) : Except Exn Server :=
  match s.workUnits[index]? with
  | none => .error (.runtimeError ("fatal error: MPI_Testany returned invalid index " ++ toString index ++ "!"))
  | some comm => match msg with
    | .foundSolution info => s.processW2sFoundSolution info
    | .doneProcessing info => s.processW2sDoneProcessing info
    | .getInstances requested => s.processW2sGetInstances comm requested
    | .disconnect => .ok (s.processW2sDisconnect index)

/-! ## What the handlers do -/

/-- TERMINATE once to every communicator of a row of equal ones. -/
def terminateMessages : List Comm → List (Comm × S2W)
  | [] => []
  | comm :: rest => (comm, .terminate) :: terminateAfter comm rest

theorem mem_terminateAfter : ∀ {comms : List Comm} {curr : Comm} {m : Comm × S2W},
    m ∈ terminateAfter curr comms → m.2 = .terminate
  | [], _, _, h => by cases h
  | comm :: rest, curr, m, h => by
    unfold terminateAfter at h
    split at h
    · exact mem_terminateAfter h
    · rcases List.mem_cons.1 h with rfl | h
      · rfl
      · exact mem_terminateAfter h

theorem mem_terminateMessages {comms : List Comm} {m : Comm × S2W} (h : m ∈ terminateMessages comms) :
    m.2 = .terminate := by
  cases comms with
  | nil => cases h
  | cons comm rest =>
    rcases List.mem_cons.1 h with rfl | h
    · rfl
    · exact mem_terminateAfter h

theorem sendTerminationToWorkers_ok {s s' : Server} (h : s.sendTerminationToWorkers = .ok s') :
    (s.terminatedWorkers = true ∧ s' = s) ∨ (s.terminatedWorkers = false ∧ s.workUnits ≠ [] ∧
      s' = { s with terminatedWorkers := true }.send (terminateMessages s.workUnits)) := by
  unfold sendTerminationToWorkers at h
  split at h
  · rename_i ht
    cases h
    exact .inl ⟨ht, rfl⟩
  · rename_i ht
    split at h
    · cases h
    · rename_i hw
      cases h
      exact .inr ⟨by simpa using ht, by rw [hw]; exact List.cons_ne_nil _ _, by rw [hw]; rfl⟩

theorem sendTerminationToWorkers_error_iff {s : Server} {e : Exn} : s.sendTerminationToWorkers = .error e ↔
    s.terminatedWorkers = false ∧ s.workUnits = [] ∧ e = .assertion "0 < work_units.size()" := by
  unfold sendTerminationToWorkers
  split
  · rename_i ht
    simp [ht]
  · rename_i ht
    split
    · rename_i hw
      simp [ht, hw, eq_comm]
    · rename_i hw
      simp [hw]

theorem processM2sAddWorkers_ok {n : Int} {s s' : Server} (h : s.processM2sAddWorkers n = .ok s') :
    ∃ workers, workers = List.range' s.accepted n.toNat ∧
      s' = { s with workUnits := s.workUnits ++ workers, accepted := s.accepted + n.toNat }.send
        (if s.availableTasks ≠ [] then workers.map fun comm => (comm, .activateWorker) else []) := by
  unfold processM2sAddWorkers at h
  split at h
  · cases h
  · cases h
    refine ⟨_, rfl, ?_⟩
    by_cases h0 : s.availableTasks = []
    · simp [h0, send]
    · simp [h0]

theorem processM2sAddFile_eq (data : ProblemInstanceMetadata) (s : Server) : s.processM2sAddFile data =
    { s with
      availableTasks := s.availableTasks ++ [TaskInfo.new data]
      taskOrder := UInt32.ofNat s.availableTasks.length :: s.taskOrder }.send
        (if s.availableTasks = [] then s.workUnits.map fun comm => (comm, .activateWorker) else []) := by
  unfold processM2sAddFile
  by_cases h0 : s.availableTasks = []
  · by_cases hw : s.workUnits = []
    · simp [h0, hw, send]
    · simp [h0, hw]
  · simp [h0, send]

theorem processW2sFoundSolution_ok {info : SolutionInfo} {s s' : Server} (h : s.processW2sFoundSolution info = .ok s') :
    ∃ s₁, sendTerminationToWorkers { s with solutionFound := true } = .ok s₁ ∧
      s' = s₁.report [.foundSolution info] := by
  obtain ⟨s₁, h1, h⟩ := Lib.bind_ok h
  cases h
  exact ⟨s₁, h1, rfl⟩

theorem account_ok {msg : DoneProcessingInfo} {st st' : ProblemInstanceStatistics} (h : account msg st = .ok st') :
    st'.numInstancesStarted = st.numInstancesStarted + msg.instancesProcessed.toUInt64 := by
  obtain ⟨st₁, h1, h⟩ := Lib.bind_ok h
  have hst : st₁.numInstancesStarted = st.numInstancesStarted := by
    unfold checkFormula at h1
    split_ifs at h1 <;> cases h1 <;> rfl
  cases h
  split_ifs <;> exact congrArg (· + _) hst

/-- Nothing is left to do: the queue is empty or a solution is found, and no instance is at a worker. -/
def Idle (s : Server) : Prop := (s.taskOrder = [] ∨ s.solutionFound = true) ∧ s.numInstancesInProcessing = 0

theorem finish_ok {s s' : Server} (h : s.finish = .ok s') :
    (s.Idle ∧ s.sendStatisticToManager.sendTerminationToWorkers = .ok s') ∨ (¬ s.Idle ∧ s' = s) := by
  unfold finish at h
  split at h
  · rename_i hi
    exact .inl ⟨by simpa [Idle, terminateAfterSolutionWasFound] using hi, h⟩
  · rename_i hi
    cases h
    exact .inr ⟨by simpa [Idle, terminateAfterSolutionWasFound] using hi, rfl⟩

/-- The state in which a report is booked, before it is decided what follows. -/
def booked (s : Server) (msg : DoneProcessingInfo) (t : TaskInfo) : Server :=
  { s.modifyTask msg.taskId fun _ => t with
    numInstancesInProcessing := s.numInstancesInProcessing - msg.instancesProcessed.toUInt64 }

theorem processW2sDoneProcessing_ok {msg : DoneProcessingInfo} {s s' : Server}
    (h : s.processW2sDoneProcessing msg = .ok s') :
    ∃ t statistics, s.availableTasks[msg.taskId.toNat]? = some t ∧ account msg t.statistics = .ok statistics ∧
      msg.instancesProcessed.toUInt64 ≤ s.numInstancesInProcessing ∧
      ((s.booked msg (t.returned statistics msg.instancesProcessed)).reschedule msg.taskId
        (t.returned statistics msg.instancesProcessed)).finish = .ok s' := by
  unfold processW2sDoneProcessing at h
  split at h
  · cases h
  · rename_i t ht
    obtain ⟨statistics, h1, h⟩ := Lib.bind_ok h
    split at h
    · rename_i hle
      exact ⟨t, statistics, ht, h1, hle, h⟩
    · cases h

theorem reschedule_frame (taskId : UInt32) (t : TaskInfo) (s : Server) : s.reschedule taskId t =
    { s with
      availableTasks := (s.reschedule taskId t).availableTasks
      taskOrder := (s.reschedule taskId t).taskOrder } := by
  unfold reschedule
  simp only
  split <;> rfl

/-- How a report can fail: its task does not exist, one of the assertions about the formula and the
workers fails, or more instances come back than are at workers. -/
theorem processW2sDoneProcessing_error {msg : DoneProcessingInfo} {s : Server} {e : Exn}
    (h : s.processW2sDoneProcessing msg = .error e) :
    e = .outOfRange "available_tasks[msg.task_id]" ∨ e = .assertion "s.num_vars == msg.num_vars" ∨
      e = .assertion "s.num_clauses == msg.num_clauses" ∨ e = .assertion "0 < work_units.size()" ∨
      (e = .assertion "num_instances_in_processing >= msg.instances_processed" ∧
        ¬ msg.instancesProcessed.toUInt64 ≤ s.numInstancesInProcessing) := by
  unfold processW2sDoneProcessing at h
  split at h
  · cases h
    exact .inl rfl
  · rename_i t _
    cases ha : account msg t.statistics with
    | error e' =>
      rw [ha] at h
      cases h
      cases hc : checkFormula msg t.statistics with
      | error e'' =>
        have : e'' = e := by
          unfold account at ha
          rw [hc] at ha
          exact Except.error.inj ha
        subst this
        unfold checkFormula at hc
        split_ifs at hc <;> cases hc <;> simp
      | ok st =>
        unfold account at ha
        rw [hc] at ha
        cases ha
    | ok statistics =>
      rw [ha] at h
      change (if _ then _ else _ : Except Exn Server) = _ at h
      split at h
      · unfold finish at h
        split at h
        · exact .inr (.inr (.inr (.inl (sendTerminationToWorkers_error_iff.1 h).2.2)))
        · cases h
      · rename_i hle
        cases h
        exact .inr (.inr (.inr (.inr ⟨rfl, hle⟩)))

theorem sendStatisticToManager_eq (s : Server) :
    ∃ messages, s.sendStatisticToManager = { s with statisticSend := true }.report messages := by
  unfold sendStatisticToManager
  split
  · rename_i hs
    exact ⟨[], by cases s; cases hs; simp [report]⟩
  · exact ⟨_, rfl⟩

theorem processW2sDisconnect_eq (index : Nat) (s : Server) : s.processW2sDisconnect index =
    { s with
      workUnits := s.workUnits.eraseIdx index
      workUnitsDisconnected := s.workUnitsDisconnected + 1
      running := if (s.taskOrder = [] ∨ s.solutionFound = true) ∧ s.workUnits.eraseIdx index = [] ∧
        s.statisticSend = true
        then false else s.running } := by
  unfold processW2sDisconnect
  simp only [List.isEmpty_iff]
  split
  · rename_i h
    simp only [sendStatisticToManager, h.2.2, if_true]
  · rfl

theorem sendTerminationToWorkers_frame {s s' : Server} (h : s.sendTerminationToWorkers = .ok s') :
    s' = { s with terminatedWorkers := true, toWorkers := s'.toWorkers } := by
  rcases sendTerminationToWorkers_ok h with ⟨ht, rfl⟩ | ⟨-, -, rfl⟩
  · cases s'; cases ht; rfl
  · rfl

/-- The end of a report changes the flags and what was sent; `terminated_workers` is set when nothing is
left to do. -/
theorem finish_frame {s s' : Server} (h : s.finish = .ok s') :
    s' = { s with
      terminatedWorkers := s'.terminatedWorkers
      statisticSend := s'.statisticSend
      toWorkers := s'.toWorkers
      toManager := s'.toManager } := by
  rcases finish_ok h with ⟨-, h⟩ | ⟨-, rfl⟩
  · obtain ⟨messages, hm⟩ := s.sendStatisticToManager_eq
    rw [hm] at h
    rw [sendTerminationToWorkers_frame h]
    rfl
  · rfl

/-- What one assignment does. -/
theorem assignFront_ok {requested taskId requested' : UInt32} {t : TaskInfo} {j : Job} {s s' : Server}
    (h : s.assignFront requested taskId t = .ok (s', requested', j)) :
    ∃ k, k = min requested (t.available requested) ∧ k ≠ 0 ∧ requested'.toNat + k.toNat = requested.toNat ∧
      j = ⟨t.metadata, k, taskId⟩ ∧
      s' = { s.modifyTask taskId fun t' => t'.assign k (t.available requested ≤ k) with
        taskOrder := if t.available requested ≤ k then s.taskOrder.tail else s.taskOrder
        numInstancesInProcessing := s.numInstancesInProcessing + k.toUInt64 } := by
  unfold assignFront at h
  simp only at h
  split at h
  · cases h
  · rename_i hk
    split at h
    · rename_i hle
      cases h
      refine ⟨_, rfl, hk, ?_, rfl, by simp⟩
      have := UInt32.le_iff_toNat_le.1 hle
      rw [UInt32.toNat_sub_of_le _ _ hle]
      omega
    · cases h

/-- The rule of the loop: what every round keeps, the loop keeps. -/
theorem assignLoop_rule {P : Server → List Job → Prop}
    (hround : ∀ s reply requested taskId rest t s' requested' j, P s reply → s.taskOrder = taskId :: rest →
      s.availableTasks[taskId.toNat]? = some t → s.assignFront requested taskId t = .ok (s', requested', j) →
      P s' (reply ++ [j])) :
    ∀ {rounds : Nat} {requested : UInt32} {reply reply' : List Job} {s s' : Server},
      assignLoop rounds requested reply s = .ok (s', reply') → P s reply → P s' reply'
  | 0, _, _, _, _, _, h, hp => by cases h; exact hp
  | rounds + 1, requested, reply, reply', s, s', h, hp => by
    unfold assignLoop at h
    split at h
    · cases h; exact hp
    · split at h
      · cases h; exact hp
      · rename_i taskId rest ho
        split at h
        · cases h
        · rename_i t ht
          obtain ⟨⟨s₁, requested₁, j⟩, ha, h⟩ := Lib.bind_ok h
          exact assignLoop_rule hround h (hround s reply requested taskId rest t s₁ requested₁ j hp ho ht ha)

/-- The loop of `GET_INSTANCES` changes the tasks, the queue and the number of instances at workers. -/
theorem assignLoop_frame {rounds : Nat} {requested : UInt32} {reply : List Job} {s s' : Server}
    (h : assignLoop rounds requested [] s = .ok (s', reply)) :
    s' = { s with
      availableTasks := s'.availableTasks
      taskOrder := s'.taskOrder
      numInstancesInProcessing := s'.numInstancesInProcessing } ∧
        s'.availableTasks.length = s.availableTasks.length := by
  refine assignLoop_rule (P := fun s' _ => s' = { s with
      availableTasks := s'.availableTasks
      taskOrder := s'.taskOrder
      numInstancesInProcessing := s'.numInstancesInProcessing } ∧
    s'.availableTasks.length = s.availableTasks.length) ?_ h ⟨rfl, rfl⟩
  intro s₁ _ _ _ _ _ s₂ _ _ ⟨h1, h2⟩ _ _ ha
  obtain ⟨k, -, -, -, -, rfl⟩ := assignFront_ok ha
  exact ⟨by rw [h1]; rfl, (List.length_modify ..).trans h2⟩

theorem processW2sGetInstances_ok {comm : Comm} {requested : UInt32} {s s' : Server}
    (h : s.processW2sGetInstances comm requested = .ok s') :
    ∃ s₁ reply, s' = s₁.send [(comm, .sendInstances reply)] ∧
      ((s.solutionFound = false ∧ assignLoop requested.toNat requested [] s = .ok (s₁, reply)) ∨
        (s.solutionFound = true ∧ s₁ = s ∧ reply = [])) := by
  obtain ⟨⟨s₁, reply⟩, h1, h⟩ := Lib.bind_ok h
  cases h
  refine ⟨s₁, reply, rfl, ?_⟩
  unfold assignInstances at h1
  split at h1
  · rename_i hs
    exact .inl ⟨hs, h1⟩
  · rename_i hs
    cases h1
    exact .inr ⟨by simpa using hs, rfl, rfl⟩

end Server

/-! ## The event loop -/

/-- The server between two polls; `polled`: the workers were polled in this round, the manager not yet. -/
structure EventLoop where
  server : Server := {}
  polled : Bool := false
  deriving DecidableEq, Repr

/-- What a poll finds: nothing, or a command (of the worker at a position of `work_units`). -/
inductive Event where
  | pollWorkers (received : Option (Nat × W2S))
  | pollManager (received : Option M2S)
  deriving DecidableEq, Repr

/-- One poll of `while (running)`. -/
def EventLoop.step (l : EventLoop) : Event → Option EventLoop
  | .pollWorkers received =>
    if l.server.running = true ∧ l.polled = false then match received with
      | none => some { l with polled := true }
      | some (index, msg) => (l.server.processWorkerCmd index msg).toOption.map fun s => ⟨s, true⟩
    else none
  | .pollManager received =>
    if l.polled = true then match received with
      | none => some { l with polled := false }
      | some cmd => (l.server.processManagerCmd cmd).toOption.map fun s => ⟨s, false⟩
    else none

/-- What handling a poll does to the server, one case for each command. -/
inductive Server.Handles (s : Server) : Event → Server → Prop
  | noWorker : Handles s (.pollWorkers none) s
  | noManager : Handles s (.pollManager none) s
  | addFile (data : ProblemInstanceMetadata) :
      Handles s (.pollManager (some (.addFile data))) (s.processM2sAddFile data)
  | addWorkers {n : Int} {s' : Server} (h : s.processM2sAddWorkers n = .ok s') :
      Handles s (.pollManager (some (.addWorkers n))) s'
  | terminate {s' : Server} (h : s.sendTerminationToWorkers = .ok s') : Handles s (.pollManager (some .terminate)) s'
  | foundSolution {index : Nat} {info : SolutionInfo} {s' : Server} (hi : index < s.workUnits.length)
      (h : s.processW2sFoundSolution info = .ok s') : Handles s (.pollWorkers (some (index, .foundSolution info))) s'
  | doneProcessing {index : Nat} {info : DoneProcessingInfo} {s' : Server} (hi : index < s.workUnits.length)
      (h : s.processW2sDoneProcessing info = .ok s') : Handles s (.pollWorkers (some (index, .doneProcessing info))) s'
  | getInstances {index : Nat} {requested : UInt32} {comm : Comm} {s' : Server} (hi : s.workUnits[index]? = some comm)
      (h : s.processW2sGetInstances comm requested = .ok s') :
      Handles s (.pollWorkers (some (index, .getInstances requested))) s'
  | disconnect {index : Nat} (hi : index < s.workUnits.length) :
      Handles s (.pollWorkers (some (index, .disconnect))) (s.processW2sDisconnect index)

theorem toOption_eq_some {x : Except Exn Server} {s : Server} (h : x.toOption = some s) : x = .ok s := by
  cases x with
  | error e => cases h
  | ok a => cases h; rfl

theorem EventLoop.step_handles {l l' : EventLoop} {e : Event} (h : l.step e = some l') :
    l.server.Handles e l'.server := by
  cases e with
  | pollWorkers received =>
    simp only [EventLoop.step] at h
    split at h
    · rcases received with - | ⟨index, msg⟩
      · cases h
        exact .noWorker
      · obtain ⟨s', hs', rfl⟩ := Option.map_eq_some_iff.1 h
        have hs' := toOption_eq_some hs'
        unfold Server.processWorkerCmd at hs'
        split at hs'
        · cases hs'
        · rename_i comm hi
          have hlt := (List.getElem?_eq_some_iff.1 hi).1
          cases msg with
          | foundSolution info => exact .foundSolution hlt hs'
          | doneProcessing info => exact .doneProcessing hlt hs'
          | getInstances requested => exact .getInstances hi hs'
          | disconnect => cases hs'; exact .disconnect hlt
    · cases h
  | pollManager received =>
    simp only [EventLoop.step] at h
    split at h
    · rcases received with - | cmd
      · cases h
        exact .noManager
      · obtain ⟨s', hs', rfl⟩ := Option.map_eq_some_iff.1 h
        have hs' := toOption_eq_some hs'
        cases cmd with
        | addWorkers n => exact .addWorkers hs'
        | addFile data => cases hs'; exact .addFile data
        | terminate => exact .terminate hs'
    · cases h

end ParallelProbsat.Communication
