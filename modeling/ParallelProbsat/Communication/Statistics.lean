/-
The statistics of a task with the average of the flips per second, which is computed exactly here. A
report is booked the same way in every order: the server of two reports that change places is the same
(`process_comm`), since the average is weighted by the count before the report and the size of the formula
is noted with the first flips. From a fresh task, the statistics are those of the collection of reports.
-/
import ParallelProbsat.Lib.Tables
import ParallelProbsat.Communication.Server

namespace ParallelProbsat.Communication

open ParallelProbsat.Lib ParallelProbsat.Util

/-! ## The model -/

/-- `done_processing_info` with `flips_per_second`. -/
structure SpeedInfo extends DoneProcessingInfo where
  flipsPerSecond : ℚ := 0

/-- `problem_instance_statistics` with `avg_flips_per_second`. -/
structure SpeedStatistics extends ProblemInstanceStatistics where
  avgFlipsPerSecond : ℚ := 0
  deriving DecidableEq

/-- The new average, computed before `num_instances_started` is. -/
def SpeedStatistics.averageAfter (s : SpeedStatistics) (msg : SpeedInfo) : ℚ :=
  (s.avgFlipsPerSecond * s.numInstancesStarted.toNat + msg.flipsPerSecond * msg.instancesProcessed.toNat) /
    (s.numInstancesStarted + msg.instancesProcessed.toUInt64).toNat

/-- The server with the average of each of its tasks. -/
structure SpeedServer where
  server : Server
  averages : List ℚ
  deriving DecidableEq

namespace SpeedServer

def statistics (s : SpeedServer) (taskId : UInt32) : Option SpeedStatistics :=
  match s.server.availableTasks[taskId.toNat]?, s.averages[taskId.toNat]? with
  | some t, some average => some ⟨t.statistics, average⟩
  | _, _ => none

def processW2sDoneProcessing (s : SpeedServer) (msg : SpeedInfo) : Except Exn SpeedServer :=
  match s.statistics msg.taskId with
  | none => .error (.outOfRange "available_tasks[msg.task_id]")
  | some statistics => do
    let server ← s.server.processW2sDoneProcessing msg.toDoneProcessingInfo
    pure ⟨server, s.averages.set msg.taskId.toNat (statistics.averageAfter msg)⟩

/-- The reports `ms`, one after the other. -/
def processAll (s : SpeedServer) (ms : List SpeedInfo) : Except Exn SpeedServer :=
  ms.foldlM processW2sDoneProcessing s

end SpeedServer

/-! ## Booking one report -/

/-- The reports come from one formula, and each of them from one instance of the task. -/
structure SpeedInfo.Of (m : SpeedInfo) (taskId : UInt32) (numVars numClauses : UInt64) : Prop where
  task : m.taskId = taskId
  one : m.instancesProcessed = 1
  vars : m.numVars = numVars
  clauses : m.numClauses = numClauses

/-- The statistics after a report whose formula is the one noted. -/
def ProblemInstanceStatistics.plus (s : ProblemInstanceStatistics) (msg : DoneProcessingInfo) :
    ProblemInstanceStatistics where
  numInstancesStarted := s.numInstancesStarted + msg.instancesProcessed.toUInt64
  totalNumFlips := s.totalNumFlips + msg.numFlipsDone
  totalInitDuration := s.totalInitDuration + msg.initDuration
  totalSolveDuration := s.totalSolveDuration + msg.solveDuration
  totalOverallDuration := s.totalOverallDuration + msg.overallDuration
  numVars := if 0 < msg.numFlipsDone then msg.numVars else s.numVars
  numClauses := if 0 < msg.numFlipsDone then msg.numClauses else s.numClauses
  timesSolved := if msg.solved then s.timesSolved + 1 else s.timesSolved
  minFlipsToSolve := if msg.solved then min s.minFlipsToSolve msg.numFlipsDone else s.minFlipsToSolve

/-- Once flips were reported the size of the formula is noted. -/
def ProblemInstanceStatistics.Notes (s : ProblemInstanceStatistics) (numVars numClauses : UInt64) : Prop :=
  0 < s.totalNumFlips → s.numVars = numVars ∧ s.numClauses = numClauses

theorem account_eq {s : ProblemInstanceStatistics} {msg : SpeedInfo} {taskId : UInt32} {numVars numClauses : UInt64}
    (hs : s.Notes numVars numClauses) (hm : msg.Of taskId numVars numClauses) :
    Server.account msg.toDoneProcessingInfo s = .ok (s.plus msg.toDoneProcessingInfo) := by
  have hcheck : Server.checkFormula msg.toDoneProcessingInfo s = .ok { s with
      numVars := if 0 < msg.numFlipsDone then msg.numVars else s.numVars
      numClauses := if 0 < msg.numFlipsDone then msg.numClauses else s.numClauses } := by
    unfold Server.checkFormula
    by_cases hf : 0 < msg.numFlipsDone
    · by_cases ht : 0 < s.totalNumFlips
      · obtain ⟨hv, hc⟩ := hs ht
        rw [if_pos hf, if_pos ht, if_neg (by simp [hv, hm.vars]), if_neg (by simp [hc, hm.clauses])]
        simp [hf, hm.vars, hm.clauses, ← hv, ← hc]
      · rw [if_pos hf, if_neg ht]
        simp [hf]
    · rw [if_neg hf]
      simp [hf]
  unfold Server.account
  rw [hcheck]
  cases hsolved : msg.solved <;> simp [ProblemInstanceStatistics.plus, hsolved, bind, Except.bind, pure, Except.pure]

theorem ProblemInstanceStatistics.Notes.plus {s : ProblemInstanceStatistics} {msg : SpeedInfo} {taskId : UInt32}
    {numVars numClauses : UInt64} (hs : s.Notes numVars numClauses) (hm : msg.Of taskId numVars numClauses) :
    (s.plus msg.toDoneProcessingInfo).Notes numVars numClauses := by
  intro ht
  by_cases hf : 0 < msg.numFlipsDone
  · simp [ProblemInstanceStatistics.plus, hf, hm.vars, hm.clauses]
  · -- without flips the total and the size stay what they were
    have h0 : msg.numFlipsDone = 0 := by
      rw [UInt64.lt_iff_toNat_lt] at hf
      exact UInt64.toNat_inj.1 (Nat.eq_zero_of_not_pos hf)
    have ht' : 0 < s.totalNumFlips := by simpa [ProblemInstanceStatistics.plus, h0] using ht
    simpa [ProblemInstanceStatistics.plus, hf] using hs ht'

theorem uint64_min_right_comm (a b c : UInt64) : min (min a b) c = min (min a c) b := by
  apply UInt64.toNat_inj.1
  simp only [UInt64.toNat_min]
  omega

/-- Two reports change places. -/
theorem ProblemInstanceStatistics.plus_comm (s : ProblemInstanceStatistics) {m m' : SpeedInfo} {taskId : UInt32}
    {numVars numClauses : UInt64} (hm : m.Of taskId numVars numClauses) (hm' : m'.Of taskId numVars numClauses) :
    (s.plus m.toDoneProcessingInfo).plus m'.toDoneProcessingInfo =
      (s.plus m'.toDoneProcessingInfo).plus m.toDoneProcessingInfo := by
  unfold ProblemInstanceStatistics.plus
  simp only [ProblemInstanceStatistics.mk.injEq]
  refine ⟨by ac_rfl, by ac_rfl, by ac_rfl, by ac_rfl, by ac_rfl, ?_, ?_, ?_, ?_⟩
  · rw [hm.vars, hm'.vars]
    split <;> split <;> rfl
  · rw [hm.clauses, hm'.clauses]
    split <;> split <;> rfl
  · split <;> split <;> rfl
  · split <;> split <;> first | rfl | exact uint64_min_right_comm ..

/-! ## Collecting one report -/

namespace TaskInfo

/-- The task is put back into the queue. -/
def waits (t : TaskInfo) : Prop := t.isScheduled = false ∧
  ((tryOnce = false ∧ t.metadata.anzahlStartbelegungen = 0) ∨
    t.metadata.anzahlStartbelegungen.toUInt64 > t.statistics.numInstancesStarted + t.numCurrentlyProcessing.toUInt64)

instance (t : TaskInfo) : Decidable t.waits := inferInstanceAs (Decidable (_ ∧ _))

/-- The task with one more report in its statistics. -/
def booked (t : TaskInfo) (msg : DoneProcessingInfo) : TaskInfo :=
  t.returned (t.statistics.plus msg) msg.instancesProcessed

/-- The task after a report, put back into the queue if it must be. -/
def collect (t : TaskInfo) (msg : DoneProcessingInfo) : TaskInfo :=
  { t.booked msg with isScheduled := t.isScheduled || decide (t.booked msg).waits }

theorem collect_eq (t : TaskInfo) (msg : DoneProcessingInfo) : t.collect msg =
    { t.booked msg with isScheduled := t.isScheduled || decide (t.booked msg).waits } := rfl

end TaskInfo

namespace Server

/-- The server after a report for the task `t`, before it is decided what follows. -/
def collect (s : Server) (t : TaskInfo) (msg : DoneProcessingInfo) : Server :=
  { s with
    availableTasks := s.availableTasks.set msg.taskId.toNat (t.collect msg)
    taskOrder := s.taskOrder ++ if (t.booked msg).waits then [msg.taskId] else []
    numInstancesInProcessing := s.numInstancesInProcessing - msg.instancesProcessed.toUInt64 }

theorem reschedule_eq_ite (s : Server) (taskId : UInt32) (t : TaskInfo) : s.reschedule taskId t = if t.waits then
    { s.modifyTask taskId fun t => { t with isScheduled := true } with taskOrder := s.taskOrder ++ [taskId] } else s :=
  rfl

theorem reschedule_booked (s : Server) (t : TaskInfo) (msg : DoneProcessingInfo) :
    (s.booked msg (t.booked msg)).reschedule msg.taskId (t.booked msg) = s.collect t msg := by
  have hbook : (s.booked msg (t.booked msg)).availableTasks = s.availableTasks.set msg.taskId.toNat (t.booked msg) :=
    modify_const ..
  rw [reschedule_eq_ite]
  by_cases hw : (t.booked msg).waits
  · have hc : t.collect msg = { t.booked msg with isScheduled := true } := by simp [TaskInfo.collect, hw]
    simp only [if_pos hw, modifyTask, hbook, modify_set, collect, hc]
    rfl
  · have hc : t.collect msg = t.booked msg := by
      unfold TaskInfo.collect
      rw [decide_eq_false hw, Bool.or_false]
      rfl
    simp only [if_neg hw, collect, hc, List.append_nil, ← hbook]
    rfl

theorem processW2sDoneProcessing_eq {s : Server} {t : TaskInfo} {msg : DoneProcessingInfo}
    (ht : s.availableTasks[msg.taskId.toNat]? = some t) (ha : account msg t.statistics = .ok (t.statistics.plus msg)) :
    s.processW2sDoneProcessing msg = if s.numInstancesInProcessing ≥ msg.instancesProcessed.toUInt64
      then (s.collect t msg).finish
      else .error (.assertion "num_instances_in_processing >= msg.instances_processed") := by
  unfold processW2sDoneProcessing
  simp only [ht, ha]
  rw [← reschedule_booked]
  rfl

/-- As long as instances are at workers nothing follows. -/
theorem finish_of_processing {s : Server} (h : s.numInstancesInProcessing ≠ 0) : s.finish = .ok s := by
  unfold finish
  rw [if_neg fun hi => h hi.2]

/-- The end of the reports fails without a connection to a worker. -/
theorem finish_error_iff {s : Server} {e : Exn} : s.finish = .error e ↔
    s.Idle ∧ s.terminatedWorkers = false ∧ s.workUnits = [] ∧ e = .assertion "0 < work_units.size()" := by
  have hidle : s.Idle ↔
    (s.taskOrder.isEmpty = true ∨ (s.solutionFound = true ∧ terminateAfterSolutionWasFound = true)) ∧
      s.numInstancesInProcessing = 0 := by simp [Idle, terminateAfterSolutionWasFound]
  obtain ⟨messages, hsend⟩ := s.sendStatisticToManager_eq
  unfold finish
  rw [hidle]
  split
  · rename_i hi
    show s.sendStatisticToManager.sendTerminationToWorkers = _ ↔ _
    rw [sendTerminationToWorkers_error_iff, hsend]
    exact ⟨fun h => ⟨hi, h⟩, fun h => h.2⟩
  · rename_i hi
    constructor
    · intro h
      cases h
    · intro h
      exact absurd h.1 hi

end Server

/-! ## Reports change places -/

section Comm

variable {taskId : UInt32} {numVars numClauses : UInt64} {m m' : SpeedInfo}
  (hm : m.Of taskId numVars numClauses) (hm' : m'.Of taskId numVars numClauses)
include hm hm'

theorem TaskInfo.booked_waits_congr (t : TaskInfo) :
    (t.booked m.toDoneProcessingInfo).waits ↔ (t.booked m'.toDoneProcessingInfo).waits := by
  unfold waits booked returned
  simp only [ProblemInstanceStatistics.plus, hm.one, hm'.one]

theorem TaskInfo.collect_isScheduled_congr (t : TaskInfo) :
    (t.collect m.toDoneProcessingInfo).isScheduled = (t.collect m'.toDoneProcessingInfo).isScheduled := by
  unfold collect
  simp only [booked_waits_congr hm hm' t]

theorem TaskInfo.collect_booked_comm (t : TaskInfo) :
    (t.collect m.toDoneProcessingInfo).booked m'.toDoneProcessingInfo =
      (t.collect m'.toDoneProcessingInfo).booked m.toDoneProcessingInfo := by
  unfold booked returned
  rw [collect_isScheduled_congr hm hm' t]
  simp only [collect, booked, returned, hm.one, hm'.one, t.statistics.plus_comm hm hm']

theorem TaskInfo.collect_comm (t : TaskInfo) :
    (t.collect m.toDoneProcessingInfo).collect m'.toDoneProcessingInfo =
      (t.collect m'.toDoneProcessingInfo).collect m.toDoneProcessingInfo := by
  rw [collect_eq (t.collect m.toDoneProcessingInfo), collect_eq (t.collect m'.toDoneProcessingInfo),
    collect_booked_comm hm hm' t, collect_isScheduled_congr hm hm' t]

theorem Server.collect_comm (s : Server) (t : TaskInfo) :
    (s.collect t m.toDoneProcessingInfo).collect (t.collect m.toDoneProcessingInfo) m'.toDoneProcessingInfo =
      (s.collect t m'.toDoneProcessingInfo).collect (t.collect m'.toDoneProcessingInfo) m.toDoneProcessingInfo := by
  unfold collect
  simp only [hm.task, hm'.task, hm.one, hm'.one, List.set_set, t.collect_comm hm hm', t.booked_waits_congr hm hm',
    t.collect_booked_comm hm hm']

theorem Server.collect_idle_congr (s : Server) (t : TaskInfo) :
    (s.collect t m.toDoneProcessingInfo).Idle ↔ (s.collect t m'.toDoneProcessingInfo).Idle := by
  unfold Idle collect
  simp only [hm.task, hm'.task, hm.one, hm'.one, t.booked_waits_congr hm hm']

theorem Server.collect_finish_error_congr (s : Server) (t : TaskInfo) (e : Exn) :
    (s.collect t m.toDoneProcessingInfo).finish = .error e ↔
    (s.collect t m'.toDoneProcessingInfo).finish = .error e := by
  rw [finish_error_iff, finish_error_iff, collect_idle_congr hm hm' s t]
  rfl

end Comm

/-- The average of one more value. -/
theorem SpeedStatistics.averageAfter_eq {s : SpeedStatistics} {m : SpeedInfo} (h1 : m.instancesProcessed = 1)
    (hroom : s.numInstancesStarted.toNat + 1 < 2 ^ 64) : s.averageAfter m =
      (s.avgFlipsPerSecond * s.numInstancesStarted.toNat + m.flipsPerSecond) / (s.numInstancesStarted.toNat + 1) := by
  have hn : (s.numInstancesStarted + m.instancesProcessed.toUInt64).toNat = s.numInstancesStarted.toNat + 1 := by
    rw [h1, UInt64.toNat_add]
    exact Nat.mod_eq_of_lt hroom
  unfold averageAfter
  rw [hn, h1, Nat.cast_add, Nat.cast_one]
  show (_ + m.flipsPerSecond * ((1 : ℕ) : ℚ)) / _ = _
  rw [Nat.cast_one, mul_one]

namespace SpeedServer

variable {taskId : UInt32} {numVars numClauses : UInt64} {s s' : SpeedServer} {t : TaskInfo} {average : ℚ}
  {m m' : SpeedInfo}

/-- The task `t` of the server can book reports of one formula without its counter running over. -/
structure Books (taskId : UInt32) (numVars numClauses : UInt64) (s : SpeedServer) (t : TaskInfo)
    (average : ℚ) : Prop where
  task : s.server.availableTasks[taskId.toNat]? = some t
  average : s.averages[taskId.toNat]? = some average
  notes : t.statistics.Notes numVars numClauses
  room : t.statistics.numInstancesStarted.toNat + s.server.numInstancesInProcessing.toNat < 2 ^ 64

/-- The server after a report, before it is decided what follows. -/
def next (s : SpeedServer) (t : TaskInfo) (average : ℚ) (m : SpeedInfo) : SpeedServer :=
  ⟨s.server.collect t m.toDoneProcessingInfo,
    s.averages.set m.taskId.toNat (SpeedStatistics.averageAfter ⟨t.statistics, average⟩ m)⟩

theorem Books.statistics (h : s.Books taskId numVars numClauses t average) :
    s.statistics taskId = some ⟨t.statistics, average⟩ := by
  unfold SpeedServer.statistics
  rw [h.task, h.average]

theorem Books.process_eq (h : s.Books taskId numVars numClauses t average) (hm : m.Of taskId numVars numClauses) :
    s.processW2sDoneProcessing m = if s.server.numInstancesInProcessing = 0
      then .error (.assertion "num_instances_in_processing >= msg.instances_processed")
      else (s.next t average m).server.finish.map fun server => ⟨server, (s.next t average m).averages⟩ := by
  have hone : s.server.numInstancesInProcessing ≥ m.instancesProcessed.toUInt64 ↔
      s.server.numInstancesInProcessing ≠ 0 := by
    rw [hm.one, ge_iff_le, UInt64.le_iff_toNat_le, ne_eq, ← UInt64.toNat_inj]
    show 1 ≤ _ ↔ ¬ _ = 0
    omega
  unfold processW2sDoneProcessing
  rw [hm.task, h.statistics]
  simp only
  rw [Server.processW2sDoneProcessing_eq (hm.task ▸ h.task) (account_eq h.notes hm)]
  simp only [hone, ne_eq, ite_not]
  split
  · rfl
  · unfold next
    rw [hm.task]
    cases (s.server.collect t m.toDoneProcessingInfo).finish <;> rfl

/-- One instance less is at workers, and one more is started. -/
theorem Books.next (h : s.Books taskId numVars numClauses t average) (hm : m.Of taskId numVars numClauses)
    (h0 : s.server.numInstancesInProcessing ≠ 0) :
    (s.next t average m).server.numInstancesInProcessing.toNat + 1 = s.server.numInstancesInProcessing.toNat ∧
    (s.next t average m).Books taskId numVars numClauses (t.collect m.toDoneProcessingInfo)
      (SpeedStatistics.averageAfter ⟨t.statistics, average⟩ m) := by
  have hroom := h.room
  have hpos : s.server.numInstancesInProcessing.toNat ≠ 0 := fun hz => h0 (UInt64.toNat_inj.1 hz)
  have hsub : (s.next t average m).server.numInstancesInProcessing.toNat + 1 =
      s.server.numInstancesInProcessing.toNat := by
    show (s.server.numInstancesInProcessing - m.instancesProcessed.toUInt64).toNat + 1 = _
    rw [hm.one, UInt64.toNat_sub_of_le _ _ (UInt64.le_iff_toNat_le.2 (by show 1 ≤ _; omega))]
    show _ - 1 + 1 = _
    omega
  refine ⟨hsub, ?_, ?_, h.notes.plus hm, ?_⟩
  · show (s.server.availableTasks.set m.taskId.toNat _)[taskId.toNat]? = _
    rw [hm.task, List.getElem?_set_self (List.getElem?_eq_some_iff.1 h.task).1]
  · show (s.averages.set m.taskId.toNat _)[taskId.toNat]? = _
    rw [hm.task, List.getElem?_set_self (List.getElem?_eq_some_iff.1 h.average).1]
  · show (t.statistics.numInstancesStarted + m.instancesProcessed.toUInt64).toNat + _ < _
    rw [hm.one, UInt64.toNat_add]
    show (_ + 1) % _ + _ < _
    omega

/-- What follows a report changes nothing that the next one needs. -/
theorem Books.finish (h : s.Books taskId numVars numClauses t average) {server : Server}
    (hf : s.server.finish = .ok server) :
    Books taskId numVars numClauses ⟨server, s.averages⟩ t average ∧
      server.numInstancesInProcessing = s.server.numInstancesInProcessing ∧ server.workUnits = s.server.workUnits := by
  rw [Server.finish_frame hf]
  exact ⟨⟨h.task, h.average, h.notes, h.room⟩, rfl, rfl⟩

theorem Books.step (h : s.Books taskId numVars numClauses t average) (hm : m.Of taskId numVars numClauses)
    (hs : s.processW2sDoneProcessing m = .ok s') : t.statistics.numInstancesStarted.toNat + 1 < 2 ^ 64 ∧
      s'.Books taskId numVars numClauses (t.collect m.toDoneProcessingInfo)
        (SpeedStatistics.averageAfter ⟨t.statistics, average⟩ m) := by
  rw [h.process_eq hm] at hs
  split at hs
  · cases hs
  · rename_i h0
    obtain ⟨hlt, hb⟩ := h.next hm h0
    have := h.room
    cases hf : (s.next t average m).server.finish with
    | error e => rw [hf] at hs; cases hs
    | ok server =>
      rw [hf] at hs
      cases hs
      exact ⟨by omega, (hb.finish hf).1⟩

/-- With one instance at a worker the second report fails, if the first does not. -/
theorem Books.second_fails (h : s.Books taskId numVars numClauses t average) (hm : m.Of taskId numVars numClauses)
    (hm' : m'.Of taskId numVars numClauses) (h1 : s.server.numInstancesInProcessing.toNat = 1) :
    (s.processW2sDoneProcessing m >>= fun s => s.processW2sDoneProcessing m') =
      match (s.server.collect t m.toDoneProcessingInfo).finish with
      | .error e => .error e
      | .ok _ => .error (.assertion "num_instances_in_processing >= msg.instances_processed") := by
  have h0 : s.server.numInstancesInProcessing ≠ 0 := by
    intro hz
    rw [hz] at h1
    cases h1
  obtain ⟨hlt, hb⟩ := h.next hm h0
  rw [h.process_eq hm, if_neg h0]
  cases hf : (s.next t average m).server.finish with
  | error e =>
    rw [show (s.server.collect t m.toDoneProcessingInfo).finish = .error e from hf]
    rfl
  | ok server =>
    rw [show (s.server.collect t m.toDoneProcessingInfo).finish = .ok server from hf]
    obtain ⟨hb', hz, -⟩ := hb.finish hf
    have hz' : server.numInstancesInProcessing = 0 := by
      rw [hz]
      exact UInt64.toNat_inj.1 (by show _ = 0; omega)
    show SpeedServer.processW2sDoneProcessing ⟨server, _⟩ m' = _
    rw [hb'.process_eq hm', if_pos hz']

/-- The average of two more values does not depend on their order. -/
theorem averageAfter_comm {statistics : ProblemInstanceStatistics} (hm : m.Of taskId numVars numClauses)
    (hm' : m'.Of taskId numVars numClauses) (hroom : statistics.numInstancesStarted.toNat + 2 < 2 ^ 64) :
    SpeedStatistics.averageAfter
      ⟨statistics.plus m.toDoneProcessingInfo, SpeedStatistics.averageAfter ⟨statistics, average⟩ m⟩ m' =
      SpeedStatistics.averageAfter
        ⟨statistics.plus m'.toDoneProcessingInfo, SpeedStatistics.averageAfter ⟨statistics, average⟩ m'⟩ m := by
  have hplus : ∀ m : SpeedInfo, m.instancesProcessed = 1 →
      (statistics.plus m.toDoneProcessingInfo).numInstancesStarted.toNat =
        statistics.numInstancesStarted.toNat + 1 := by
    intro m h1
    show (statistics.numInstancesStarted + m.instancesProcessed.toUInt64).toNat = _
    rw [h1, UInt64.toNat_add]
    show (_ + 1) % _ = _
    omega
  have hfirst : ∀ m : SpeedInfo, m.instancesProcessed = 1 → SpeedStatistics.averageAfter ⟨statistics, average⟩ m =
      (average * statistics.numInstancesStarted.toNat + m.flipsPerSecond) /
        (statistics.numInstancesStarted.toNat + 1) :=
    fun m h1 => SpeedStatistics.averageAfter_eq h1 (show statistics.numInstancesStarted.toNat + 1 < _ by omega)
  have hsecond : ∀ (m m' : SpeedInfo) (a : ℚ), m.instancesProcessed = 1 → m'.instancesProcessed = 1 →
      SpeedStatistics.averageAfter ⟨statistics.plus m.toDoneProcessingInfo, a⟩ m' =
        (a * (statistics.numInstancesStarted.toNat + 1) + m'.flipsPerSecond) /
          (statistics.numInstancesStarted.toNat + 1 + 1) := by
    intro m m' a h1 h1'
    rw [SpeedStatistics.averageAfter_eq h1'
      (show (statistics.plus m.toDoneProcessingInfo).numInstancesStarted.toNat + 1 < _ by
      rw [hplus m h1]; omega)]
    simp only [hplus m h1, Nat.cast_add, Nat.cast_one]
  have hn : ((statistics.numInstancesStarted.toNat : ℚ) + 1) ≠ 0 := by positivity
  rw [hsecond m m' _ hm.one hm'.one, hsecond m' m _ hm'.one hm.one, hfirst m hm.one, hfirst m' hm'.one,
    div_mul_cancel₀ _ hn, div_mul_cancel₀ _ hn, add_right_comm]

theorem Books.next_comm (h : s.Books taskId numVars numClauses t average) (hm : m.Of taskId numVars numClauses)
    (hm' : m'.Of taskId numVars numClauses) (h2 : 2 ≤ s.server.numInstancesInProcessing.toNat) :
    (s.next t average m).next (t.collect m.toDoneProcessingInfo)
    (SpeedStatistics.averageAfter ⟨t.statistics, average⟩ m) m' =
      (s.next t average m').next (t.collect m'.toDoneProcessingInfo)
        (SpeedStatistics.averageAfter ⟨t.statistics, average⟩ m') m := by
  have hroom := h.room
  unfold SpeedServer.next
  rw [Server.collect_comm hm hm']
  simp only [hm.task, hm'.task, List.set_set]
  congr 2
  exact averageAfter_comm hm hm' (by omega)

/-- Two reports change places. -/
theorem Books.process_comm (h : s.Books taskId numVars numClauses t average) (hm : m.Of taskId numVars numClauses)
    (hm' : m'.Of taskId numVars numClauses) :
    (s.processW2sDoneProcessing m >>= fun s => s.processW2sDoneProcessing m') =
      (s.processW2sDoneProcessing m' >>= fun s => s.processW2sDoneProcessing m) := by
  obtain h0 | h1 | h2 : s.server.numInstancesInProcessing.toNat = 0 ∨ s.server.numInstancesInProcessing.toNat = 1 ∨
      2 ≤ s.server.numInstancesInProcessing.toNat := by omega
  · have hz : s.server.numInstancesInProcessing = 0 := UInt64.toNat_inj.1 h0
    rw [h.process_eq hm, h.process_eq hm', if_pos hz, if_pos hz]
    rfl
  · rw [h.second_fails hm hm' h1, h.second_fails hm' hm h1]
    have herr := Server.collect_finish_error_congr hm hm' s.server t
    cases hf : (s.server.collect t m.toDoneProcessingInfo).finish with
    | error e => rw [(herr e).1 hf]
    | ok server =>
      cases hf' : (s.server.collect t m'.toDoneProcessingInfo).finish with
      | error e =>
        rw [(herr e).2 hf'] at hf
        cases hf
      | ok server' => rfl
  · -- nothing follows the first of the two reports
    have hfirst : ∀ {m m' : SpeedInfo}, m.Of taskId numVars numClauses → m'.Of taskId numVars numClauses →
        (s.processW2sDoneProcessing m >>= fun s => s.processW2sDoneProcessing m') =
          (((s.next t average m).next (t.collect m.toDoneProcessingInfo)
            (SpeedStatistics.averageAfter ⟨t.statistics, average⟩ m) m').server.finish.map fun server =>
            ⟨server, ((s.next t average m).next (t.collect m.toDoneProcessingInfo)
              (SpeedStatistics.averageAfter ⟨t.statistics, average⟩ m) m').averages⟩) := by
      intro m m' hm hm'
      have h0 : s.server.numInstancesInProcessing ≠ 0 := by
        intro hz
        rw [hz] at h2
        exact absurd h2 (by decide)
      obtain ⟨hlt, hb⟩ := h.next hm h0
      have h0' : (s.next t average m).server.numInstancesInProcessing ≠ 0 := by
        intro hz
        rw [hz] at hlt
        have : (0 : UInt64).toNat = 0 := rfl
        omega
      rw [h.process_eq hm, if_neg h0, Server.finish_of_processing h0']
      show SpeedServer.processW2sDoneProcessing (s.next t average m) m' = _
      rw [hb.process_eq hm', if_neg h0']
    rw [hfirst hm hm', hfirst hm' hm, h.next_comm hm hm' h2]

/-! ## Any number of reports -/

theorem Books.processAll_perm (h : s.Books taskId numVars numClauses t average) {ms ms' : List SpeedInfo}
    (hms : ∀ m ∈ ms, m.Of taskId numVars numClauses) (hperm : ms.Perm ms') : s.processAll ms = s.processAll ms' := by
  refine foldlM_perm (P := fun s => ∃ t average, s.Books taskId numVars numClauses t average)
    (Q := fun m => m.Of taskId numVars numClauses) ?_ ?_ hperm s ⟨t, average, h⟩ hms
  · rintro s m s' ⟨t, average, h⟩ hm hs
    exact ⟨_, _, (h.step hm hs).2⟩
  · rintro s m m' ⟨t, average, h⟩ hm hm'
    exact h.process_comm hm hm'

/-- While instances are at workers, and a worker is connected, reports are booked. -/
theorem Books.processAll_ok : ∀ {ms : List SpeedInfo} {s : SpeedServer} {t : TaskInfo} {average : ℚ},
    s.Books taskId numVars numClauses t average → (∀ m ∈ ms, m.Of taskId numVars numClauses) →
      ms.length ≤ s.server.numInstancesInProcessing.toNat → s.server.workUnits ≠ [] → ∃ s', s.processAll ms = .ok s'
  | [], s, _, _, _, _, _, _ => ⟨s, rfl⟩
  | m :: ms, s, t, average, h, hms, hlen, hw => by
    have hm := hms m List.mem_cons_self
    rw [List.length_cons] at hlen
    have h0 : s.server.numInstancesInProcessing ≠ 0 := by
      intro hz
      rw [hz] at hlen
      exact absurd hlen (by show ¬ _ ≤ 0; omega)
    obtain ⟨hlt, hb⟩ := h.next hm h0
    have hproc := h.process_eq hm
    rw [if_neg h0] at hproc
    cases hf : (s.next t average m).server.finish with
    | error e => exact absurd (Server.finish_error_iff.1 hf).2.2.1 hw
    | ok server =>
      rw [hf] at hproc
      obtain ⟨hb', hz, hw'⟩ := hb.finish hf
      obtain ⟨s', hs'⟩ := Books.processAll_ok hb' (fun m' hm' => hms m' (List.mem_cons_of_mem _ hm'))
        (by show ms.length ≤ server.numInstancesInProcessing.toNat; rw [hz]; omega)
          (by show server.workUnits ≠ []; rw [hw']; exact hw)
      refine ⟨s', ?_⟩
      unfold processAll
      rw [List.foldlM_cons, hproc]
      exact hs'

end SpeedServer

/-! ## The statistics of a collection of reports -/

/-- The statistics are those of the reports `ms`; totals are counted in 64 bits. -/
structure SpeedStatistics.Summary (st : SpeedStatistics) (ms : List SpeedInfo) : Prop where
  started : st.numInstancesStarted.toNat = ms.length
  flips : st.totalNumFlips = UInt64.ofNat (ms.map fun m => m.numFlipsDone.toNat).sum
  initDuration : st.totalInitDuration = UInt64.ofNat (ms.map fun m => m.initDuration.toNat).sum
  solveDuration : st.totalSolveDuration = UInt64.ofNat (ms.map fun m => m.solveDuration.toNat).sum
  overallDuration : st.totalOverallDuration = UInt64.ofNat (ms.map fun m => m.overallDuration.toNat).sum
  average : st.avgFlipsPerSecond = (ms.map fun m => m.flipsPerSecond).sum / ms.length
  solved : st.timesSolved.toNat = ms.countP fun m => m.solved
  fewest : ∀ m ∈ ms, m.solved = true → st.minFlipsToSolve ≤ m.numFlipsDone
  attained : (∃ m ∈ ms, m.solved = true ∧ m.numFlipsDone = st.minFlipsToSolve) ∨
    ((∀ m ∈ ms, m.solved = false) ∧ st.minFlipsToSolve = UInt64.ofNat (2 ^ 64 - 1))
  formula : (∃ m ∈ ms, 0 < m.numFlipsDone) → ∀ m ∈ ms, st.numVars = m.numVars ∧ st.numClauses = m.numClauses
  unknown : (∀ m ∈ ms, m.numFlipsDone = 0) → st.numVars = 0 ∧ st.numClauses = 0

namespace SpeedStatistics

variable {st : SpeedStatistics} {ms : List SpeedInfo} {m : SpeedInfo} {taskId : UInt32} {numVars numClauses : UInt64}

theorem Summary.start : Summary {} [] where
  started := rfl
  flips := rfl
  initDuration := rfl
  solveDuration := rfl
  overallDuration := rfl
  average := by simp
  solved := rfl
  fewest m hm := absurd hm List.not_mem_nil
  attained := .inr ⟨fun m hm => absurd hm List.not_mem_nil, rfl⟩
  formula h := by
    obtain ⟨m, hm, -⟩ := h
    exact absurd hm List.not_mem_nil
  unknown _ := ⟨rfl, rfl⟩

/-- A 64 bit total of one more value. -/
theorem total_snoc {total x : UInt64} {f : SpeedInfo → UInt64}
    (h : total = UInt64.ofNat (ms.map fun m => (f m).toNat).sum)
    (hx : x = f m) : total + x = UInt64.ofNat ((ms ++ [m]).map fun m => (f m).toNat).sum := by
  rw [List.map_append, List.sum_append, UInt64.ofNat_add, ← h, hx]
  simp

theorem Summary.average_snoc (h : st.Summary ms) (h1 : m.instancesProcessed = 1) (hroom : ms.length + 1 < 2 ^ 64) :
    st.averageAfter m = ((ms ++ [m]).map fun m => m.flipsPerSecond).sum / (ms ++ [m]).length := by
  have hst := h.started
  rw [averageAfter_eq h1 (by omega), hst, h.average, List.map_append, List.sum_append, List.length_append]
  have hcancel : (ms.map fun m => m.flipsPerSecond).sum / (ms.length : ℚ) * (ms.length : ℚ) =
      (ms.map fun m => m.flipsPerSecond).sum := by
    cases ms with
    | nil => simp
    | cons a l => exact div_mul_cancel₀ _ (by rw [List.length_cons]; positivity)
  rw [hcancel]
  simp

/-- Nobody solves more often than there are reports. -/
theorem Summary.solved_snoc (h : st.Summary ms) (hroom : ms.length + 1 < 2 ^ 64) :
    (if m.solved = true then st.timesSolved + 1 else st.timesSolved).toNat = (ms ++ [m]).countP fun m => m.solved := by
  have hle : ms.countP (fun m => m.solved) ≤ ms.length := List.countP_le_length
  rw [List.countP_append, ← h.solved]
  cases hs : m.solved with
  | false => simp [hs]
  | true =>
    have := h.solved
    rw [if_pos rfl, UInt64.toNat_add]
    show (_ + 1) % _ = _
    rw [Nat.mod_eq_of_lt (by omega)]
    simp [hs]

theorem Summary.fewest_snoc (h : st.Summary ms) : ∀ m' ∈ ms ++ [m], m'.solved = true →
    (if m.solved = true then min st.minFlipsToSolve m.numFlipsDone else st.minFlipsToSolve) ≤ m'.numFlipsDone := by
  intro m' hm' hs'
  rcases List.mem_append.1 hm' with hm' | hm'
  · have := UInt64.le_iff_toNat_le.1 (h.fewest m' hm' hs')
    rw [UInt64.le_iff_toNat_le]
    split
    · rw [UInt64.toNat_min]
      omega
    · exact this
  · obtain rfl := List.mem_singleton.1 hm'
    rw [if_pos hs', UInt64.le_iff_toNat_le, UInt64.toNat_min]
    exact Nat.min_le_right _ _

theorem Summary.attained_snoc (h : st.Summary ms) :
    (∃ m' ∈ ms ++ [m], m'.solved = true ∧ m'.numFlipsDone =
      if m.solved = true then min st.minFlipsToSolve m.numFlipsDone else st.minFlipsToSolve) ∨
    ((∀ m' ∈ ms ++ [m], m'.solved = false) ∧
      (if m.solved = true then min st.minFlipsToSolve m.numFlipsDone else st.minFlipsToSolve) =
        UInt64.ofNat (2 ^ 64 - 1)) := by
  cases hs : m.solved with
  | false =>
    rcases h.attained with ⟨m', hm', h'⟩ | ⟨hall, hmax⟩
    · exact .inl ⟨m', List.mem_append_left _ hm', by simpa using h'⟩
    · refine .inr ⟨?_, by simpa using hmax⟩
      intro m' hm'
      rcases List.mem_append.1 hm' with hm' | hm'
      · exact hall m' hm'
      · rw [List.mem_singleton.1 hm', hs]
  | true =>
    refine .inl ?_
    rw [if_pos rfl]
    by_cases hle : st.minFlipsToSolve.toNat ≤ m.numFlipsDone.toNat
    · have hmin : min st.minFlipsToSolve m.numFlipsDone = st.minFlipsToSolve :=
        UInt64.toNat_inj.1 (by rw [UInt64.toNat_min]; omega)
      rw [hmin]
      rcases h.attained with ⟨m', hm', h'⟩ | ⟨-, hmax⟩
      · exact ⟨m', List.mem_append_left _ hm', h'⟩
      · -- the first solution may need the largest number of flips there is
        refine ⟨m, by simp, hs, ?_⟩
        have := m.numFlipsDone.toNat_lt
        rw [hmax] at hle ⊢
        apply UInt64.toNat_inj.1
        have hmaxn : (UInt64.ofNat (2 ^ 64 - 1)).toNat = 2 ^ 64 - 1 := rfl
        omega
    · have hmin : min st.minFlipsToSolve m.numFlipsDone = m.numFlipsDone :=
        UInt64.toNat_inj.1 (by rw [UInt64.toNat_min]; omega)
      exact ⟨m, by simp, hs, hmin.symm⟩

/-- The size of the formula, of which one half suffices: the variables or the clauses. -/
theorem size_snoc {noted size : UInt64} {f : SpeedInfo → UInt64} (hf : ∀ m' ∈ ms ++ [m], f m' = size)
    (h : (∃ m ∈ ms, 0 < m.numFlipsDone) → ∀ m ∈ ms, noted = f m) (hex : ∃ m' ∈ ms ++ [m], 0 < m'.numFlipsDone) :
    ∀ m' ∈ ms ++ [m], (if 0 < m.numFlipsDone then f m else noted) = f m' := by
  intro m' hm'
  rw [hf m' hm']
  split
  · exact hf m (by simp)
  · rename_i h0
    obtain ⟨m₀, hm₀, hpos⟩ := hex
    rcases List.mem_append.1 hm₀ with hm₀ | hm₀
    · rw [h ⟨m₀, hm₀, hpos⟩ m₀ hm₀]
      exact hf m₀ (List.mem_append_left _ hm₀)
    · rw [List.mem_singleton.1 hm₀] at hpos
      exact absurd hpos h0

theorem Summary.snoc (h : st.Summary ms) (hroom : ms.length + 1 < 2 ^ 64)
    (hms : ∀ m' ∈ ms ++ [m], m'.Of taskId numVars numClauses) :
    Summary ⟨st.plus m.toDoneProcessingInfo, st.averageAfter m⟩ (ms ++ [m]) := by
  have hm := hms m (by simp)
  constructor
  · show (st.numInstancesStarted + m.instancesProcessed.toUInt64).toNat = _
    rw [hm.one, UInt64.toNat_add, h.started, List.length_append]
    exact Nat.mod_eq_of_lt hroom
  · exact total_snoc h.flips rfl
  · exact total_snoc h.initDuration rfl
  · exact total_snoc h.solveDuration rfl
  · exact total_snoc h.overallDuration rfl
  · exact h.average_snoc hm.one hroom
  · exact h.solved_snoc hroom
  · exact h.fewest_snoc
  · exact h.attained_snoc
  · intro hex m' hm'
    exact ⟨size_snoc (fun m' hm' => (hms m' hm').vars) (fun he m hm => (h.formula he m hm).1) hex m' hm',
      size_snoc (fun m' hm' => (hms m' hm').clauses) (fun he m hm => (h.formula he m hm).2) hex m' hm'⟩
  · intro h0
    have hlast : m.numFlipsDone = 0 := h0 m (by simp)
    have hu := h.unknown fun m' hm' => h0 m' (List.mem_append_left _ hm')
    show (if 0 < m.numFlipsDone then _ else _) = 0 ∧ (if 0 < m.numFlipsDone then _ else _) = 0
    rw [hlast]
    exact hu

end SpeedStatistics

namespace SpeedServer

variable {taskId : UInt32} {numVars numClauses : UInt64}

theorem Books.processAll_summary : ∀ {ms done : List SpeedInfo} {s s' : SpeedServer} {t : TaskInfo} {average : ℚ},
    s.Books taskId numVars numClauses t average → SpeedStatistics.Summary ⟨t.statistics, average⟩ done →
      (∀ m ∈ done ++ ms, m.Of taskId numVars numClauses) → s.processAll ms = .ok s' →
        ∃ st, s'.statistics taskId = some st ∧ st.Summary (done ++ ms)
  | [], done, s, s', t, average, h, hsum, _, hs => by
    cases hs
    exact ⟨_, h.statistics, by rwa [List.append_nil]⟩
  | m :: ms, done, s, s', t, average, h, hsum, hms, hs => by
    unfold processAll at hs
    rw [List.foldlM_cons] at hs
    obtain ⟨s₁, h1, hs⟩ := bind_ok hs
    have hm := hms m (by simp)
    obtain ⟨hroom, hb⟩ := h.step hm h1
    rw [List.append_cons] at hms ⊢
    have hlen : done.length + 1 < 2 ^ 64 := by
      rw [← hsum.started]
      exact hroom
    exact Books.processAll_summary hb (hsum.snoc hlen fun m' hm' => hms m' (List.mem_append_left _ hm')) hms hs

end SpeedServer

/-- Reports of one instance each for a fresh task, which agree on the formula: in every order the server
gets into the same state, or fails with the same exception; the statistics are those of the collection;
and the reports are booked to the end when so many instances are at workers and a worker is connected. -/
theorem statistics_in_every_order (s : SpeedServer) (taskId : UInt32) (ms ms' : List SpeedInfo)
    (hfresh : s.statistics taskId = some {}) (htask : ∀ m ∈ ms, m.taskId = taskId)
    (hone : ∀ m ∈ ms, m.instancesProcessed = 1)
    (hsame : ∀ m ∈ ms, ∀ m' ∈ ms, m.numVars = m'.numVars ∧ m.numClauses = m'.numClauses) (hperm : ms.Perm ms') :
    s.processAll ms' = s.processAll ms ∧
    (∀ s', s.processAll ms = .ok s' → ∃ st, s'.statistics taskId = some st ∧ st.Summary ms) ∧
    (ms.length ≤ s.server.numInstancesInProcessing.toNat → s.server.workUnits ≠ [] →
      ∃ s', s.processAll ms = .ok s') := by
  obtain ⟨numVars, numClauses, hof⟩ : ∃ numVars numClauses, ∀ m ∈ ms, m.Of taskId numVars numClauses := by
    cases ms with
    | nil => exact ⟨0, 0, fun m hm => absurd hm List.not_mem_nil⟩
    | cons m ms =>
      refine ⟨m.numVars, m.numClauses, fun m' hm' => ⟨htask m' hm', hone m' hm', ?_, ?_⟩⟩
      · exact (hsame m' hm' m List.mem_cons_self).1
      · exact (hsame m' hm' m List.mem_cons_self).2
  obtain ⟨t, average, h, hst⟩ : ∃ t average, s.Books taskId numVars numClauses t average ∧
      SpeedStatistics.mk t.statistics average = {} := by
    unfold SpeedServer.statistics at hfresh
    split at hfresh
    · rename_i t average ht ha
      have hst := Option.some.inj hfresh
      have hst' : t.statistics = {} := congrArg SpeedStatistics.toProblemInstanceStatistics hst
      refine ⟨t, average, ⟨ht, ha, ?_, ?_⟩, hst⟩
      · intro hpos
        rw [hst'] at hpos
        exact absurd hpos (by decide)
      · rw [hst']
        show 0 + _ < _
        rw [Nat.zero_add]
        exact s.server.numInstancesInProcessing.toNat_lt
    · cases hfresh
  refine ⟨(h.processAll_perm hof hperm).symm, ?_, ?_⟩
  · intro s' hs
    exact h.processAll_summary (hst ▸ SpeedStatistics.Summary.start) hof hs
  · exact h.processAll_ok hof

/-- A task of which two instances are at a worker. -/
def twoReportsServer : SpeedServer where
  server := { availableTasks := [{ metadata := ⟨2, 0, "a.cnf"⟩, numCurrentlyProcessing := 2, isScheduled := false }],
              workUnits := [0], numInstancesInProcessing := 2 }
  averages := [0]

/-- One instance found a solution, the other one did not; their average is 3 flips per second. -/
def twoReports : List SpeedInfo :=
  [{ instancesProcessed := 1, numFlipsDone := 10, numVars := 3, numClauses := 7, solved := true, flipsPerSecond := 2 },
    { instancesProcessed := 1, numFlipsDone := 20, numVars := 3, numClauses := 7, flipsPerSecond := 4 }]

theorem statistics_in_every_order_twoReports : ∃ s' st, twoReportsServer.processAll twoReports.reverse = .ok s' ∧
    s'.statistics 0 = some st ∧ st.Summary twoReports ∧ st.avgFlipsPerSecond = 3 ∧ st.minFlipsToSolve = 10 := by
  obtain ⟨horder, hsummary, hok⟩ := statistics_in_every_order twoReportsServer 0 twoReports twoReports.reverse rfl
    (by decide) (by decide) (by decide) (List.reverse_perm _).symm
  obtain ⟨s', hs⟩ := hok (by decide) (by decide)
  obtain ⟨st, hst, h⟩ := hsummary s' hs
  refine ⟨s', st, horder.trans hs, hst, h, ?_, ?_⟩
  · rw [h.average]
    norm_num [twoReports]
  · rcases h.attained with ⟨m, hm, hsolved, hmin⟩ | ⟨hnone, -⟩
    · fin_cases hm
      · exact hmin.symm
      · cases hsolved
    · exact absurd (hnone _ List.mem_cons_self) (by decide)

end ParallelProbsat.Communication
