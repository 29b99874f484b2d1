/-
The averages of the manager (`complete_statistic`, `process_s2m_SEND_STATISTICS`) in runs of the whole system, in which
every execution of a task measures what the solver does on the task's file.

The size of a formula is noted with the first flips that are reported for it. So the averages of a report divide by 0
exactly when no instance of its task has reported a flip before the statistics are sent.
-/
import ParallelProbsat.Communication.Execution
import ParallelProbsat.Communication.Handed
import ParallelProbsat.Sat.Verdict

namespace ParallelProbsat.Communication

open ParallelProbsat.Lib ParallelProbsat.Util ParallelProbsat.Sat

/-! ## The statistic of the manager -/

/-- A division of `double`s, which are computed exactly here: `none` when the divisor is 0, and whenever such a value
goes into it. -/
def divide (x : Option ℚ) (n : UInt64) : Option ℚ := if n = 0 then none else x.map (· / n.toNat)

/-- `complete_statistic`, without `avg_flips_per_second`, which has the weights and the divisor of the other averages.
The `double`s, averages and durations, are computed exactly here. -/
structure CompleteStatistic where
  numInstancesStarted : UInt64 := 0
  totalNumFlips : UInt64 := 0
  avgFlipsPerVar : Option ℚ := some 0
  avgFlipsPerClause : Option ℚ := some 0
  -- durations in ms
  totalInitDuration : ℚ := 0
  totalSolveDuration : ℚ := 0
  totalOverallDuration : ℚ := 0
  numInstancesSolved : UInt64 := 0
  minFlipsToSolve : UInt64 := UInt64.ofNat (2 ^ 64 - 1)
  deriving DecidableEq

namespace CompleteStatistic

def processS2mSendStatistics (stat : ProblemInstanceStatistics) (statistic : CompleteStatistic) : CompleteStatistic :=
  let avgFlipsPerVar := divide (some (stat.totalNumFlips.toNat : ℚ)) stat.numVars
  let avgFlipsPerClause := divide (some (stat.totalNumFlips.toNat : ℚ)) stat.numClauses
  let instStarted := statistic.numInstancesStarted + stat.numInstancesStarted
  -- the average so far and that of the report, weighted with their instances
  let weighted (old new : Option ℚ) : Option ℚ :=
    old.bind fun old => new.map fun new =>
      old * statistic.numInstancesStarted.toNat + new * stat.numInstancesStarted.toNat
  { statistic with
    avgFlipsPerVar := divide (weighted statistic.avgFlipsPerVar avgFlipsPerVar) instStarted
    avgFlipsPerClause := divide (weighted statistic.avgFlipsPerClause avgFlipsPerClause) instStarted
    numInstancesStarted := instStarted
    totalNumFlips := statistic.totalNumFlips + stat.totalNumFlips
    totalInitDuration := statistic.totalInitDuration + stat.totalInitDuration.toNat / 1000
    totalSolveDuration := statistic.totalSolveDuration + stat.totalSolveDuration.toNat / 1000
    totalOverallDuration := statistic.totalOverallDuration + stat.totalOverallDuration.toNat / 1000
    numInstancesSolved := statistic.numInstancesSolved + stat.timesSolved }

def processServerCmd : S2M → CompleteStatistic → CompleteStatistic
  | .foundSolution info, statistic =>
    { statistic with minFlipsToSolve := min statistic.minFlipsToSolve info.numFlipsDone }
  | .sendStatistics _ stat, statistic => statistic.processS2mSendStatistics stat
  | .disconnect, statistic => statistic

/-- None of the divisors of `process_s2m_SEND_STATISTICS` is 0. -/
structure Divides (statistic : CompleteStatistic) (stat : ProblemInstanceStatistics) : Prop where
  numVars : 0 < stat.numVars
  numClauses : 0 < stat.numClauses
  instStarted : 0 < statistic.numInstancesStarted + stat.numInstancesStarted

/-- Then the averages stay numbers. -/
theorem Divides.averages {statistic : CompleteStatistic} {stat : ProblemInstanceStatistics} (h : statistic.Divides stat)
    (hv : statistic.avgFlipsPerVar ≠ none) (hc : statistic.avgFlipsPerClause ≠ none) :
    (statistic.processS2mSendStatistics stat).avgFlipsPerVar ≠ none ∧
      (statistic.processS2mSendStatistics stat).avgFlipsPerClause ≠ none := by
  obtain ⟨v, hv⟩ := Option.ne_none_iff_exists'.1 hv
  obtain ⟨c, hc⟩ := Option.ne_none_iff_exists'.1 hc
  have hne : ∀ {x : UInt64}, 0 < x → x ≠ 0 := fun hx h0 => by rw [h0] at hx; exact absurd hx (by decide)
  unfold processS2mSendStatistics divide
  simp only [hv, hc, hne h.numVars, hne h.numClauses, hne h.instStarted]
  constructor <;> simp

end CompleteStatistic

/-! ## The system with the statistic -/

/-- The statistics among messages to the manager. -/
def sentStatistics (messages : List S2M) : List ProblemInstanceStatistics :=
  messages.filterMap fun
    | .sendStatistics _ stat => some stat
    | _ => none

/-- The reports of instances among the messages the server receives. -/
def W2S.reports : W2S → List DoneProcessingInfo
  | .doneProcessing info => [info]
  | _ => []

structure Averaging where
  cluster : Cluster := {}
  statistic : CompleteStatistic := {}
  /-- The statistics the manager has processed, each with what `statistic` was before. -/
  processed : List (CompleteStatistic × ProblemInstanceStatistics) := []
  /-- The reports of instances the server has received until it sent its statistics. -/
  collected : List DoneProcessingInfo := []

namespace Averaging

/-- The manager processes a message of the server. -/
def process (s : Averaging) (msg : S2M) : Averaging :=
  { s with
    statistic := s.statistic.processServerCmd msg
    processed := s.processed ++ (sentStatistics [msg]).map fun stat => (s.statistic, stat) }

/-- What the manager has received when its inbox was first `inbox` and is then `rest`. -/
def received (inbox rest : List S2M) : List S2M := inbox.take (inbox.length - rest.length)

def step (numWorkers : Comm → UInt32) (s : Averaging) (a : Action) : Option Averaging :=
  (s.cluster.step numWorkers a).map fun c =>
    (received s.cluster.toManager c.toManager).foldl process { s with
      cluster := c
      collected := s.collected ++
        if s.cluster.server.server.statisticSend then [] else ((s.cluster.polled a).map W2S.reports).getD [] }

section Possible

variable {K : Type} [Zero K] [Add K] [LT K] [DecidableLT K]

/-- A thread that executes a task ends the execution as the solver does on the file of the task, or runs out of
memory. -/
def Possible (calcF : Int → K) (files : String → Text) (_ : List Action) (s : Averaging) : Action → Prop
  | .workerThread comm i outcome => ∀ w t, s.cluster.workers[comm]? = some w → w.threads[i]? = some (.executing t) →
      outcome = .failed ∨ ∃ x calls, t.outcome calcF x (files t.name) calls = some outcome
  | _ => True

/-- The runs of the system on these files. -/
abbrev FileRun (numWorkers : Comm → UInt32) (calcF : Int → K) (files : String → Text) (as : List Action)
    (s : Averaging) : Prop :=
  Traced (Averaging.step numWorkers) (Possible calcF files) [] {} as s

/-- Whatever an execution meets, it ends, and the run goes on with what it has measured. -/
theorem FileRun.executes {numWorkers : Comm → UInt32} {calcF : Int → K} {files : String → Text} {as : List Action}
    {s : Averaging} (h : FileRun numWorkers calcF files as s) {comm : Comm} {i : Nat} {w : Worker} {t : Task}
    (hw : s.cluster.workers[comm]? = some w) (hp : w.point ≠ .aborted) (ht : w.threads[i]? = some (.executing t))
    (x : Circumstances K) (calls : Nat) :
    ∃ outcome s', t.outcome calcF x (files t.name) calls = some outcome ∧
      FileRun numWorkers calcF files (as ++ [.workerThread comm i outcome]) s' := by
  obtain ⟨outcome, ho⟩ := t.outcome_returns calcF x (files t.name) calls
  have hok : Possible calcF files as s (.workerThread comm i outcome) := by
    intro w' t' hw' ht'
    obtain rfl : w = w' := Option.some.inj (hw.symm.trans hw')
    cases ht.symm.trans ht'
    exact .inr ⟨x, calls, ho⟩
  obtain ⟨s', hs'⟩ : ∃ s', s.step numWorkers (.workerThread comm i outcome) = some s' := by
    unfold Averaging.step Cluster.step Worker.threadStep
    simp only [hw, ht, if_neg hp]
    cases outcome <;> exact ⟨_, rfl⟩
  exact ⟨outcome, s', ho, h.snoc hok hs'⟩

end Possible

/-- Of every task reported, an instance has reported a flip. -/
def EachFlips (infos : List DoneProcessingInfo) : Prop :=
  ∀ info ∈ infos, ∃ info' ∈ infos, info'.taskId = info.taskId ∧ 0 < info'.numFlipsDone

end Averaging

/-! ## What the server does to the statistics of its tasks -/

namespace Server

/-- The statistics of all tasks. -/
def statistics (s : Server) : List ProblemInstanceStatistics := s.availableTasks.map fun t => t.statistics

/-- With the first flips the size of the formula is noted. -/
theorem account_size {msg : DoneProcessingInfo} {st st' : ProblemInstanceStatistics} (h : account msg st = .ok st') :
    st'.numVars = (if 0 < msg.numFlipsDone then msg.numVars else st.numVars) ∧
      st'.numClauses = (if 0 < msg.numFlipsDone then msg.numClauses else st.numClauses) := by
  obtain ⟨st₁, h1, h⟩ := bind_ok h
  have hsize : st'.numVars = st₁.numVars ∧ st'.numClauses = st₁.numClauses := by
    cases h
    split <;> exact ⟨rfl, rfl⟩
  rw [hsize.1, hsize.2]
  unfold checkFormula at h1
  by_cases hf : 0 < msg.numFlipsDone
  · rw [if_pos hf] at h1
    rw [if_pos hf, if_pos hf]
    split at h1
    · split at h1
      · cases h1
      · rename_i hv
        split at h1
        · cases h1
        · rename_i hc
          cases h1
          exact ⟨not_not.1 hv, not_not.1 hc⟩
    · cases h1
      exact ⟨rfl, rfl⟩
  · rw [if_neg hf] at h1
    rw [if_neg hf, if_neg hf]
    cases h1
    exact ⟨rfl, rfl⟩

theorem statistics_modifyTask (s : Server) (taskId : UInt32) {f : TaskInfo → TaskInfo}
    (hf : ∀ t, (f t).statistics = t.statistics) :
    (s.modifyTask taskId f).statistics = s.statistics := map_modify_of_eq hf _ _

theorem statistics_reschedule (taskId : UInt32) (t : TaskInfo) (s : Server) :
    (s.reschedule taskId t).statistics = s.statistics := by
  unfold reschedule
  simp only
  split
  · refine statistics_modifyTask s taskId ?_
    intro t
    rfl
  · rfl

theorem statistics_booked (s : Server) (msg : DoneProcessingInfo) (t : TaskInfo) :
    (s.booked msg t).statistics = s.statistics.set msg.taskId.toNat t.statistics := by
  unfold booked statistics modifyTask
  simp only
  rw [modify_const, List.map_set]

/-- The loop of `GET_INSTANCES` touches no statistics. -/
theorem statistics_assignLoop {rounds : Nat} {requested : UInt32} {reply : List Job} {s s' : Server}
    (h : assignLoop rounds requested [] s = .ok (s', reply)) : s'.statistics = s.statistics := by
  refine assignLoop_rule (P := fun s' _ => s'.statistics = s.statistics) ?_ h rfl
  intro s₁ _ _ taskId _ t s₂ _ _ h1 _ _ ha
  obtain ⟨k, -, -, -, -, rfl⟩ := assignFront_ok ha
  rw [← h1]
  refine statistics_modifyTask s₁ taskId ?_
  intro t
  rfl

/-- Tasks are added to the table, and nothing about the statistics is sent. -/
structure AddsTasks (s s' : Server) : Prop where
  statistics : ∃ n, s'.statistics = s.statistics ++ List.replicate n ({} : ProblemInstanceStatistics)
  sent : s'.statisticSend = s.statisticSend
  log : ∃ messages, s'.toManager = s.toManager ++ messages ∧ sentStatistics messages = []

/-- A report is booked; then the statistics may be sent. -/
structure Books (info : DoneProcessingInfo) (s s' : Server) : Prop where
  statistics : ∃ st st', s.statistics[info.taskId.toNat]? = some st ∧ account info st = .ok st' ∧
    s'.statistics = s.statistics.set info.taskId.toNat st'
  log : ∃ messages, s'.toManager = s.toManager ++ messages ∧
    ((s'.statisticSend = s.statisticSend ∧ sentStatistics messages = []) ∨
      (s.statisticSend = false ∧ s'.statisticSend = true ∧
        sentStatistics messages = s'.statistics.filter fun st => decide (0 < st.numInstancesStarted)))

theorem AddsTasks.of_eq {s s' : Server} (hs : s'.availableTasks = s.availableTasks)
    (hsent : s'.statisticSend = s.statisticSend) (hlog : s'.toManager = s.toManager) : AddsTasks s s' where
  statistics := ⟨0, by unfold Server.statistics; rw [hs, List.replicate_zero, List.append_nil]⟩
  sent := hsent
  log := ⟨[], by rw [hlog, List.append_nil], rfl⟩

theorem AddsTasks.terminate {s s' : Server} (h : s.sendTerminationToWorkers = .ok s') : AddsTasks s s' := by
  rw [sendTerminationToWorkers_frame h]
  exact .of_eq rfl rfl rfl

theorem sentStatistics_all (s : Server) : sentStatistics ((s.availableTasks.filter fun t : TaskInfo =>
    decide (0 < t.statistics.numInstancesStarted) || !shortStatistic).map fun t : TaskInfo =>
      .sendStatistics t.metadata t.statistics) = s.statistics.filter fun st => decide (0 < st.numInstancesStarted) := by
  unfold sentStatistics statistics
  rw [List.filterMap_map, List.filter_map]
  show List.filterMap (some ∘ fun t : TaskInfo => t.statistics) _ = _
  rw [List.filterMap_eq_map]
  simp [shortStatistic, Function.comp_def]

/-- What `send_statistic_to_manager` adds to the messages. -/
theorem sendStatisticToManager_sends (s : Server) : s.sendStatisticToManager.statisticSend = true ∧
    s.sendStatisticToManager.availableTasks = s.availableTasks ∧
    ∃ messages, s.sendStatisticToManager.toManager = s.toManager ++ messages ∧
      ((s.statisticSend = true ∧ sentStatistics messages = []) ∨
        (s.statisticSend = false ∧
          sentStatistics messages = s.statistics.filter fun st => decide (0 < st.numInstancesStarted))) := by
  unfold sendStatisticToManager
  split
  · rename_i hs
    exact ⟨hs, rfl, [], (List.append_nil _).symm, .inl ⟨hs, rfl⟩⟩
  · rename_i hs
    exact ⟨rfl, rfl, _, rfl, .inr ⟨by simpa using hs, sentStatistics_all s⟩⟩

theorem Books.doneProcessing {info : DoneProcessingInfo} {s s' : Server}
    (h : s.processW2sDoneProcessing info = .ok s') :
    Books info s s' := by
  obtain ⟨t, st', ht, hacc, -, hf⟩ := processW2sDoneProcessing_ok h
  have hst : s.statistics[info.taskId.toNat]? = some t.statistics := by
    unfold Server.statistics
    rw [List.getElem?_map, ht]
    rfl
  -- the state in which it is decided what follows
  obtain ⟨s₁, hs₁⟩ : ∃ s₁, s₁ = (s.booked info (t.returned st' info.instancesProcessed)).reschedule info.taskId
    (t.returned st' info.instancesProcessed) := ⟨_, rfl⟩
  have htable : s₁.statistics = s.statistics.set info.taskId.toNat st' := by
    rw [hs₁]
    exact (statistics_reschedule _ _ _).trans (statistics_booked _ _ _)
  have hlog : s₁.toManager = s.toManager ∧ s₁.statisticSend = s.statisticSend := by
    rw [hs₁, reschedule_frame]
    exact ⟨rfl, rfl⟩
  rw [← hs₁] at hf
  rcases finish_ok hf with ⟨-, hf⟩ | ⟨-, rfl⟩
  · obtain ⟨hsent, htasks, messages, hmessages, hnew⟩ := s₁.sendStatisticToManager_sends
    rw [sendTerminationToWorkers_frame hf]
    have hsame : s₁.sendStatisticToManager.statistics = s₁.statistics := by
      unfold Server.statistics
      rw [htasks]
    refine ⟨⟨_, st', hst, hacc, hsame.trans htable⟩, messages, hmessages.trans (by rw [hlog.1]), ?_⟩
    rcases hnew with ⟨h1, h2⟩ | ⟨h1, h2⟩
    · exact .inl ⟨by rw [← hlog.2, h1]; exact hsent, h2⟩
    · exact .inr ⟨hlog.2.symm.trans h1, hsent, h2.trans (by rw [← hsame]; rfl)⟩
  · exact ⟨⟨_, st', hst, hacc, htable⟩, [], by rw [hlog.1, List.append_nil], .inl ⟨hlog.2, rfl⟩⟩

/-- A poll books a report, or leaves the statistics of the tasks there are as they are. -/
theorem Handles.statistics {s s' : Server} {e : Event} (h : s.Handles e s') :
    (∃ index info, e = .pollWorkers (some (index, .doneProcessing info)) ∧ Books info s s') ∨
      ((∀ index info, e ≠ .pollWorkers (some (index, .doneProcessing info))) ∧ AddsTasks s s') := by
  cases h with
  | noWorker => exact .inr ⟨nofun, .of_eq rfl rfl rfl⟩
  | noManager => exact .inr ⟨nofun, .of_eq rfl rfl rfl⟩
  | addFile data =>
    refine .inr ⟨nofun, ?_⟩
    rw [processM2sAddFile_eq]
    refine ⟨⟨1, ?_⟩, rfl, [], (List.append_nil _).symm, rfl⟩
    exact List.map_append
  | addWorkers hs =>
    obtain ⟨workers, -, rfl⟩ := processM2sAddWorkers_ok hs
    exact .inr ⟨nofun, .of_eq rfl rfl rfl⟩
  | terminate hs => exact .inr ⟨nofun, .terminate hs⟩
  | foundSolution _ hs =>
    obtain ⟨s₁, h1, rfl⟩ := processW2sFoundSolution_ok hs
    refine .inr ⟨nofun, ?_⟩
    rw [sendTerminationToWorkers_frame h1]
    exact ⟨⟨0, by rw [List.replicate_zero, List.append_nil]; rfl⟩, rfl, _, rfl, rfl⟩
  | doneProcessing _ hs => exact .inl ⟨_, _, rfl, .doneProcessing hs⟩
  | getInstances _ hs =>
    obtain ⟨s₁, reply, rfl, ⟨-, h1⟩ | ⟨-, rfl, -⟩⟩ := processW2sGetInstances_ok hs
    · refine .inr ⟨nofun, ⟨0, ?_⟩, ?_, [], ?_, rfl⟩
      · rw [List.replicate_zero, List.append_nil, ← statistics_assignLoop h1]
        rfl
      · rw [(assignLoop_frame h1).1]
        rfl
      · rw [(assignLoop_frame h1).1, List.append_nil]
        rfl
    · exact .inr ⟨nofun, .of_eq rfl rfl rfl⟩
  | disconnect =>
    rw [processW2sDisconnect_eq]
    exact .inr ⟨nofun, .of_eq rfl rfl rfl⟩

end Server

/-! ## What the table says of the reports -/

/-- The table of the statistics after some reports: the instances reported of every task, and the size of its formula
once a flip was reported. -/
structure Booked (infos : List DoneProcessingInfo) (table : List ProblemInstanceStatistics) : Prop where
  known : ∀ info ∈ infos, info.taskId.toNat < table.length
  started : ∀ p (st : ProblemInstanceStatistics), table[p]? = some st →
    st.numInstancesStarted = UInt64.ofNat ((infos.map fun info => info.taskId.toNat).count p)
  noted : ∀ p st, table[p]? = some st → (∃ info ∈ infos, info.taskId.toNat = p ∧ 0 < info.numFlipsDone) →
    0 < st.numVars ∧ 0 < st.numClauses
  unknown : ∀ p st, table[p]? = some st → (∀ info ∈ infos, info.taskId.toNat = p → ¬ 0 < info.numFlipsDone) →
    st.numVars = 0 ∧ st.numClauses = 0

namespace Booked

variable {infos : List DoneProcessingInfo} {table : List ProblemInstanceStatistics}

theorem start : Booked [] [] where
  known info h := by cases h
  started p st h := by cases h
  noted p st h := by cases h
  unknown p st h := by cases h

theorem addTasks (h : Booked infos table) (n : Nat) :
    Booked infos (table ++ List.replicate n ({} : ProblemInstanceStatistics)) := by
  have hentry : ∀ {p : Nat} {st : ProblemInstanceStatistics},
      (table ++ List.replicate n ({} : ProblemInstanceStatistics))[p]? = some st →
      table[p]? = some st ∨ (∀ info ∈ infos, info.taskId.toNat ≠ p) ∧ st = ({} : ProblemInstanceStatistics) := by
    intro p st hp
    by_cases hlt : p < table.length
    · rw [List.getElem?_append_left hlt] at hp
      exact .inl hp
    · rw [List.getElem?_append_right (not_lt.1 hlt)] at hp
      refine .inr ⟨?_, (List.mem_replicate.1 (List.mem_of_getElem? hp)).2⟩
      rintro info hinfo rfl
      exact hlt (h.known info hinfo)
  constructor
  · intro info hinfo
    rw [List.length_append]
    exact Nat.lt_add_right _ (h.known info hinfo)
  · intro p st hp
    rcases hentry hp with hp | ⟨hnew, rfl⟩
    · exact h.started p st hp
    · rw [List.count_eq_zero.2 (by simpa using hnew)]
      rfl
  · rintro p st hp ⟨info, hinfo, hid, hflips⟩
    rcases hentry hp with hp | ⟨hnew, -⟩
    · exact h.noted _ st hp ⟨info, hinfo, hid, hflips⟩
    · exact absurd hid (hnew info hinfo)
  · intro p st hp hnone
    rcases hentry hp with hp | ⟨-, rfl⟩
    · exact h.unknown p st hp hnone
    · exact ⟨rfl, rfl⟩

/-- A report counts an instance, and with flips it brings the size along. -/
theorem book {info : DoneProcessingInfo} {st st' : ProblemInstanceStatistics} (h : Booked infos table) (hm : info.Sized)
    (hone : info.instancesProcessed = 1) (hst : table[info.taskId.toNat]? = some st)
    (hacc : Server.account info st = .ok st') : Booked (infos ++ [info]) (table.set info.taskId.toNat st') := by
  obtain ⟨hvars, hclauses⟩ := Server.account_size hacc
  have hentry : ∀ {p : Nat} {st₁ : ProblemInstanceStatistics}, (table.set info.taskId.toNat st')[p]? = some st₁ →
      (info.taskId.toNat = p ∧ st₁ = st') ∨ (info.taskId.toNat ≠ p ∧ table[p]? = some st₁) := by
    intro p st₁ hp
    rw [← modify_const] at hp
    obtain ⟨a, ha, ⟨he, rfl⟩ | ⟨hne, rfl⟩⟩ := getElem?_modify_some hp
    · exact .inl ⟨he, rfl⟩
    · exact .inr ⟨hne, ha⟩
  constructor
  · intro info' hinfo
    rw [List.length_set]
    rcases List.mem_append.1 hinfo with hinfo | hinfo
    · exact h.known info' hinfo
    · rw [List.mem_singleton.1 hinfo]
      exact (List.getElem?_eq_some_iff.1 hst).1
  · intro p st₁ hp
    rw [List.map_append, List.count_append, List.map_singleton, List.count_singleton]
    rcases hentry hp with ⟨rfl, rfl⟩ | ⟨hne, hp⟩
    · rw [Server.account_ok hacc, h.started _ st hst, hone, beq_self_eq_true, if_pos rfl, UInt64.ofNat_add]
      rfl
    · rw [beq_false_of_ne hne]
      exact h.started p st₁ hp
  · rintro p st₁ hp ⟨info', hinfo, hid, hflips⟩
    rcases hentry hp with ⟨rfl, rfl⟩ | ⟨hne, hp⟩
    · rw [hvars, hclauses]
      split
      · rename_i hf
        exact hm hf
      · rename_i hf
        rcases List.mem_append.1 hinfo with hinfo | hinfo
        · exact h.noted _ st hst ⟨info', hinfo, hid, hflips⟩
        · rw [List.mem_singleton.1 hinfo] at hflips
          exact absurd hflips hf
    · rcases List.mem_append.1 hinfo with hinfo | hinfo
      · exact h.noted p st₁ hp ⟨info', hinfo, hid, hflips⟩
      · rw [List.mem_singleton.1 hinfo] at hid
        exact absurd hid hne
  · intro p st₁ hp hnone
    have hbefore : ∀ info' ∈ infos, info'.taskId.toNat = p → ¬ 0 < info'.numFlipsDone := fun info' hinfo =>
      hnone info' (List.mem_append_left _ hinfo)
    rcases hentry hp with ⟨rfl, rfl⟩ | ⟨-, hp⟩
    · have hf := hnone info (by simp) rfl
      rw [hvars, hclauses, if_neg hf, if_neg hf]
      exact h.unknown _ st hst hbefore
    · exact h.unknown p st₁ hp hbefore

section Room

variable (h : Booked infos table) (hroom : infos.length < 2 ^ 64)
include h hroom

/-- Fewer reports than a 64 bit counter can count. -/
theorem started_toNat {p : Nat} {st : ProblemInstanceStatistics} (hp : table[p]? = some st) :
    st.numInstancesStarted.toNat = (infos.map fun info => info.taskId.toNat).count p := by
  have hle : (infos.map fun info => info.taskId.toNat).count p ≤ infos.length := by
    simpa using List.count_le_length (a := p) (l := infos.map fun info => info.taskId.toNat)
  rw [h.started p st hp, UInt64.toNat_ofNat']
  exact Nat.mod_eq_of_lt (hle.trans_lt hroom)

theorem started_pos {p : Nat} {st : ProblemInstanceStatistics} (hp : table[p]? = some st) :
    0 < st.numInstancesStarted ↔ ∃ info ∈ infos, info.taskId.toNat = p := by
  rw [UInt64.lt_iff_toNat_lt, h.started_toNat hroom hp]
  show 0 < _ ↔ _
  rw [List.count_pos_iff, List.mem_map]

theorem total : (table.map fun st => st.numInstancesStarted.toNat).sum = infos.length := by
  have hsum : (table.map fun st => st.numInstancesStarted.toNat).sum + ([] : List Nat).length =
      (infos.map fun info => info.taskId.toNat).length := by
    refine Server.sum_add_length ?_ nofun fun p st hp => ?_
    · intro p hp
      obtain ⟨info, hinfo, rfl⟩ := List.mem_map.1 hp
      exact h.known info hinfo
    · rw [List.count_nil, add_zero]
      exact h.started_toNat hroom hp
  rwa [List.length_nil, add_zero, List.length_map] at hsum

end Room

end Booked

/-- Statistics of which the manager can add up the instances: there is one for every task, and the total does not run
over. -/
structure Countable (total : List ProblemInstanceStatistics) : Prop where
  started : ∀ st ∈ total, 0 < st.numInstancesStarted
  sum : (total.map fun st => st.numInstancesStarted.toNat).sum < 2 ^ 64

variable {infos : List DoneProcessingInfo} {table : List ProblemInstanceStatistics}

theorem Booked.countable (h : Booked infos table) (hroom : infos.length < 2 ^ 64) :
    Countable (table.filter fun st => decide (0 < st.numInstancesStarted)) where
  started st hst := by simpa using (List.mem_filter.1 hst).2
  sum := by
    have hsub := List.filter_sublist (p := fun st : ProblemInstanceStatistics => decide (0 < st.numInstancesStarted))
      (l := table)
    have hle := (hsub.map fun st => st.numInstancesStarted.toNat).sum_le_sum fun _ _ => Nat.zero_le _
    exact (hle.trans_eq (h.total hroom)).trans_lt hroom

theorem sentStatistics_append (messages messages' : List S2M) :
    sentStatistics (messages ++ messages') = sentStatistics messages ++ sentStatistics messages' :=
      List.filterMap_append

/-- What the server has noted of the reports `infos`, and what it has sent of that: nothing, or the statistics of the
tasks that were started. -/
structure Server.Sends (infos : List DoneProcessingInfo) (s : Server) : Prop where
  unsent : s.statisticSend = false → Booked infos s.statistics ∧ sentStatistics s.toManager = []
  sent : s.statisticSend = true → ∃ table, Booked infos table ∧
    sentStatistics s.toManager = table.filter fun st => decide (0 < st.numInstancesStarted)

namespace Server.Sends

variable {s s' : Server}

theorem addTasks (h : s.Sends infos) (hs : AddsTasks s s') : s'.Sends infos := by
  obtain ⟨n, htable⟩ := hs.statistics
  obtain ⟨messages, hlog, hnone⟩ := hs.log
  have hsame : sentStatistics s'.toManager = sentStatistics s.toManager := by
    rw [hlog, sentStatistics_append, hnone, List.append_nil]
  constructor
  · intro hsend
    obtain ⟨hbooked, hempty⟩ := h.unsent (hs.sent.symm.trans hsend)
    rw [htable, hsame]
    exact ⟨hbooked.addTasks n, hempty⟩
  · intro hsend
    rw [hsame]
    exact h.sent (hs.sent.symm.trans hsend)

/-- Until the statistics are sent, every report counts. -/
theorem book {info : DoneProcessingInfo} (h : s.Sends infos) (hm : info.Sized) (hone : info.instancesProcessed = 1)
    (hs : Books info s s') : s'.Sends (infos ++ if s.statisticSend then [] else [info]) := by
  obtain ⟨st, st', hst, hacc, htable⟩ := hs.statistics
  obtain ⟨messages, hlog, hnew⟩ := hs.log
  cases hsend : s.statisticSend with
  | true =>
    obtain ⟨hsame, hnone⟩ | ⟨hunsent, -⟩ := hnew
    · rw [if_pos rfl, List.append_nil]
      rw [hsend] at hsame
      refine ⟨fun h0 => absurd (hsame.symm.trans h0) (by decide), fun _ => ?_⟩
      rw [hlog, sentStatistics_append, hnone, List.append_nil]
      exact h.sent hsend
    · exact absurd (hsend.symm.trans hunsent) (by decide)
  | false =>
    obtain ⟨hbooked, hempty⟩ := h.unsent hsend
    have hbooked' : Booked (infos ++ [info]) s'.statistics := by
      rw [htable]
      exact hbooked.book hm hone hst hacc
    have hsent : sentStatistics s'.toManager = sentStatistics messages := by
      rw [hlog, sentStatistics_append, hempty, List.nil_append]
    rw [← hsent] at hnew
    rw [if_neg (by decide)]
    obtain ⟨hsame, hnone⟩ | ⟨-, hsent', hfilter⟩ := hnew
    · rw [hsend] at hsame
      exact ⟨fun _ => ⟨hbooked', hnone⟩, fun h1 => absurd (hsame.symm.trans h1) (by decide)⟩
    · exact ⟨fun h0 => absurd (hsent'.symm.trans h0) (by decide), fun _ => ⟨_, hbooked', hfilter⟩⟩

theorem countable (h : s.Sends infos) (hroom : infos.length < 2 ^ 64) : Countable (sentStatistics s.toManager) := by
  cases hsend : s.statisticSend with
  | true =>
    obtain ⟨table, hbooked, hsent⟩ := h.sent hsend
    rw [hsent]
    exact hbooked.countable hroom
  | false =>
    rw [(h.unsent hsend).2]
    exact ⟨nofun, by decide⟩

end Server.Sends

/-! ## What the manager has processed -/

namespace Averaging

variable {total pending : List ProblemInstanceStatistics} {s s' : Averaging}

/-- Of the statistics in `total`, the manager has processed those in front of `pending`. -/
structure Processed (total pending : List ProblemInstanceStatistics) (s : Averaging) : Prop where
  channel : (s.processed.map fun r => r.2) ++ pending = total
  counted : s.statistic.numInstancesStarted.toNat = (s.processed.map fun r => r.2.numInstancesStarted.toNat).sum
  started : ∀ r ∈ s.processed, 0 < r.1.numInstancesStarted + r.2.numInstancesStarted
  averages : (∀ r ∈ s.processed, r.1.Divides r.2) → s.statistic.avgFlipsPerVar ≠ none ∧
    s.statistic.avgFlipsPerClause ≠ none

theorem Processed.of_eq (h : s.Processed total pending) (hp : s'.processed = s.processed)
    (hn : s'.statistic.numInstancesStarted = s.statistic.numInstancesStarted)
    (hv : s'.statistic.avgFlipsPerVar = s.statistic.avgFlipsPerVar)
    (hc : s'.statistic.avgFlipsPerClause = s.statistic.avgFlipsPerClause) : s'.Processed total pending where
  channel := by rw [hp]; exact h.channel
  counted := by rw [hp, hn]; exact h.counted
  started := by rw [hp]; exact h.started
  averages := by rw [hp, hv, hc]; exact h.averages

/-- The server sends more statistics. -/
theorem Processed.sends (h : s.Processed total pending) (new : List ProblemInstanceStatistics) :
    s.Processed (total ++ new) (pending ++ new) where
  channel := by rw [← List.append_assoc, h.channel]
  counted := h.counted
  started := h.started
  averages := h.averages

theorem Processed.process {msg : S2M} {rest : List S2M} {new : List ProblemInstanceStatistics} (ht : Countable total)
    (h : s.Processed total (sentStatistics (msg :: rest) ++ new)) :
    (s.process msg).Processed total (sentStatistics rest ++ new) := by
  cases msg with
  | foundSolution info => exact h.of_eq (List.append_nil _) rfl rfl rfl
  | disconnect => exact h.of_eq (List.append_nil _) rfl rfl rfl
  | sendStatistics metadata stat =>
    have hchannel : (s.processed.map fun r => r.2) ++ stat :: (sentStatistics rest ++ new) = total := h.channel
    have hpos : 0 < stat.numInstancesStarted := ht.started stat (by rw [← hchannel]; simp)
    -- the weights so far and that of the report are part of the total
    have hsum : (s.statistic.numInstancesStarted + stat.numInstancesStarted).toNat =
        (s.processed.map fun r => r.2.numInstancesStarted.toNat).sum + stat.numInstancesStarted.toNat := by
      have hlt := ht.sum
      rw [← hchannel, List.map_append, List.sum_append, List.map_cons, List.sum_cons, List.map_map] at hlt
      change (s.processed.map fun r => r.2.numInstancesStarted.toNat).sum + _ < _ at hlt
      rw [UInt64.toNat_add, h.counted]
      exact Nat.mod_eq_of_lt (by omega)
    have hstarted : 0 < s.statistic.numInstancesStarted + stat.numInstancesStarted := by
      rw [UInt64.lt_iff_toNat_lt] at hpos ⊢
      rw [hsum]
      exact Nat.lt_add_left _ hpos
    have hlog : (s.process (.sendStatistics metadata stat)).processed = s.processed ++ [(s.statistic, stat)] := rfl
    constructor
    · rw [hlog, List.map_append, List.append_assoc]
      exact hchannel
    · rw [hlog, List.map_append, List.sum_append]
      refine hsum.trans ?_
      simp
    · intro r hr
      rw [hlog] at hr
      rcases List.mem_append.1 hr with hr | hr
      · exact h.started r hr
      · rw [List.mem_singleton.1 hr]
        exact hstarted
    · intro hall
      rw [hlog] at hall
      obtain ⟨hv, hc⟩ := h.averages fun r hr => hall r (List.mem_append_left _ hr)
      exact (hall (s.statistic, stat) (by simp)).averages hv hc

theorem received_append (got rest : List S2M) : received (got ++ rest) rest = got := by
  unfold received
  rw [List.length_append, Nat.add_sub_cancel, List.take_left]

theorem received_sent (inbox new : List S2M) : received inbox (inbox ++ new) = [] := by
  unfold received
  rw [List.length_append, Nat.sub_eq_zero_of_le (Nat.le_add_right ..), List.take_zero]

theorem foldl_process_frame : ∀ (msgs : List S2M) (s : Averaging),
    (msgs.foldl Averaging.process s).cluster = s.cluster ∧ (msgs.foldl Averaging.process s).collected = s.collected
  | [], _ => ⟨rfl, rfl⟩
  | msg :: rest, s => foldl_process_frame rest (s.process msg)

theorem Processed.processAll (ht : Countable total) : ∀ (msgs : List S2M) {s : Averaging},
    s.Processed total (sentStatistics msgs ++ pending) → (msgs.foldl Averaging.process s).Processed total pending
  | [], _, h => h
  | _ :: rest, _, h => Processed.processAll ht rest (h.process ht)

end Averaging

/-! ## A step of the system -/

/-- The manager receives the oldest messages first. -/
theorem Manager.step_inbox {m m' : Manager} {line : Command} {seen : Bool} {toServer sent : List M2S}
    {inbox rest : List S2M} (h : m.step line seen toServer inbox = some (m', sent, rest)) :
    ∃ got, inbox = got ++ rest := by
  unfold Manager.step at h
  split at h
  · simp only [Option.some.injEq, Prod.mk.injEq] at h
    exact ⟨[], h.2.2⟩
  · split at h
    · simp only [Option.some.injEq, Prod.mk.injEq] at h
      exact ⟨[], h.2.2⟩
    · cases h
  · split at h
    · cases h
    · rename_i msg rest'
      simp only at h
      split at h <;> simp only [Option.some.injEq, Prod.mk.injEq] at h <;> exact ⟨[msg], by rw [← h.2.2]; rfl⟩
  · simp only at h
    split at h
    · rename_i msg rest'
      simp only [Option.some.injEq, Prod.mk.injEq] at h
      exact ⟨[msg], by rw [← h.2.2]; rfl⟩
    · simp only [Option.some.injEq, Prod.mk.injEq] at h
      exact ⟨[], h.2.2⟩
  · cases h

namespace Cluster

variable {numWorkers : Comm → UInt32} {c c' : Cluster} {a : Action}

/-- A step books the report that is received, or leaves the statistics of the tasks there are as they are. -/
theorem step_statistics (hs : c.step numWorkers a = some c') :
    (∃ info, c.polled a = some (.doneProcessing info) ∧ (∃ w ∈ c.workers, .doneProcessing info ∈ w.outbox) ∧
        Server.Books info c.server.server c'.server.server) ∨
      (((c.polled a).map W2S.reports).getD [] = [] ∧ Server.AddsTasks c.server.server c'.server.server) := by
  by_cases ha : ∃ index, a = .serverPollsWorkers (some index)
  · obtain ⟨index, rfl⟩ := ha
    obtain ⟨comm, w, msg, rest, hnext, hw, ho, he⟩ := step_receives hs
    rcases (serve_some he).1.statistics with ⟨index', info, hmsg, hbooks⟩ | ⟨hno, hadds⟩
    · obtain ⟨-, rfl⟩ : index = index' ∧ msg = .doneProcessing info := by simpa using hmsg
      exact .inl ⟨info, hnext, ⟨w, List.mem_of_getElem? hw, by rw [ho]; exact List.mem_cons_self⟩, hbooks⟩
    · refine .inr ⟨?_, hadds⟩
      rw [hnext]
      cases msg with
      | doneProcessing info => exact absurd rfl (hno index info)
      | foundSolution _ | getInstances _ | disconnect => rfl
  · right
    rw [polled_eq_none fun index he => ha ⟨index, he⟩]
    refine ⟨rfl, ?_⟩
    cases step_advances hs with
    | quiet hserver => rw [hserver]; exact .of_eq rfl rfl rfl
    | receives => exact absurd ⟨_, rfl⟩ ha
    | serves hserver _ hm he =>
      rw [← hserver]
      rcases (serve_some he).1.statistics with ⟨index, info, rfl, -⟩ | ⟨-, hadds⟩
      · rcases hm with hm | ⟨_, hm⟩ <;> cases hm
      · exact hadds
    | mains hw => rw [hw.server]; exact .of_eq rfl rfl rfl
    | threads hw => rw [hw.server]; exact .of_eq rfl rfl rfl

theorem serve_channel {e : Event} (h : c.serve numWorkers e = some c') : ∃ sent, c'.toManager = c.toManager ++ sent ∧
    c'.server.server.toManager = c.server.server.toManager ++ sent := by
  obtain ⟨messages, hlog⟩ : ∃ messages, c'.server.server.toManager = c.server.server.toManager ++ messages := by
    rcases (serve_some h).1.statistics with ⟨_, _, -, hbooks⟩ | ⟨-, hadds⟩
    · obtain ⟨messages, hlog, -⟩ := hbooks.log
      exact ⟨messages, hlog⟩
    · obtain ⟨messages, hlog, -⟩ := hadds.log
      exact ⟨messages, hlog⟩
  obtain ⟨l, -, rfl⟩ := Option.map_eq_some_iff.1 h
  refine ⟨messages, ?_, hlog⟩
  replace hlog : l.server.toManager = c.server.server.toManager ++ messages := hlog
  show c.toManager ++ l.server.toManager.drop c.server.server.toManager.length = _
  rw [hlog, List.drop_left]

/-- From `c` to `c'` the manager has received what was in front of the channel, and what the server has sent is at its
end. -/
def Forwards (c c' : Cluster) : Prop := ∃ sent,
  c.toManager ++ sent = Averaging.received c.toManager c'.toManager ++ c'.toManager ∧
    sentStatistics c'.server.server.toManager = sentStatistics c.server.server.toManager ++ sentStatistics sent

theorem Forwards.serve {c₁ : Cluster} {e : Event} (hto : c₁.toManager = c.toManager) (hserver : c₁.server = c.server)
    (he : c₁.serve numWorkers e = some c') : c.Forwards c' := by
  obtain ⟨sent, hchannel, hlog⟩ := serve_channel he
  rw [hto] at hchannel
  rw [hserver] at hlog
  refine ⟨sent, ?_, ?_⟩
  · rw [hchannel, Averaging.received_sent, List.nil_append]
  · rw [hlog, sentStatistics_append]

theorem Forwards.of_eq (hto : c'.toManager = c.toManager) (hserver : c'.server = c.server) : c.Forwards c' := by
  have hnone := Averaging.received_sent c.toManager []
  rw [List.append_nil] at hnone
  refine ⟨[], ?_, ?_⟩
  · rw [hto, hnone, List.append_nil, List.nil_append]
  · rw [hserver]
    exact (List.append_nil _).symm

theorem step_forwards (hs : c.step numWorkers a = some c') : c.Forwards c' := by
  cases a with
  | manager line seen =>
    obtain ⟨⟨m, sent, rest⟩, hm, rfl⟩ := Option.map_eq_some_iff.1 hs
    obtain ⟨got, hgot⟩ := Manager.step_inbox hm
    refine ⟨[], ?_, (List.append_nil _).symm⟩
    show c.toManager ++ [] = Averaging.received c.toManager rest ++ rest
    rw [hgot, Averaging.received_append, List.append_nil]
  | serverPollsWorkers index =>
    cases index with
    | none => exact .serve rfl rfl hs
    | some index =>
      obtain ⟨comm, w, msg, rest, -, -, -, he⟩ := step_receives hs
      refine .serve ?_ ?_ he <;> rfl
  | serverPollsManager seen =>
    cases seen with
    | false => exact .serve rfl rfl hs
    | true =>
      obtain ⟨cmd, rest, he⟩ := step_pollsManager hs
      refine .serve ?_ ?_ he <;> rfl
  | serverLeaves =>
    simp only [step] at hs
    split at hs <;> cases hs
    refine ⟨[.disconnect], ?_, (List.append_nil _).symm⟩
    show _ = Averaging.received c.toManager (c.toManager ++ [.disconnect]) ++ _
    rw [Averaging.received_sent, List.nil_append]
  | workerMain comm ok n =>
    obtain ⟨w, w', -, -, rfl⟩ := step_workerMain hs
    exact .of_eq rfl rfl
  | workerThread comm i outcome =>
    obtain ⟨w, w', -, -, rfl⟩ := step_workerThread hs
    exact .of_eq rfl rfl

end Cluster

namespace Averaging

variable {numWorkers : Comm → UInt32} {s s' : Averaging} {as : List Action} {a : Action}

/-- Of a task that was executed or is still to be: what it measures is sized, and it counts once when it is reported. -/
def Measured (info : DoneProcessingInfo) : Prop :=
  info.Sized ∧ (info.instancesProcessed = 0 ∨ info.instancesProcessed = 1)

/-- What holds in every run: the tables and the messages tell of the reports, and the manager has processed what is not
in the channel any more. -/
structure Inv (s : Averaging) : Prop where
  carries : ∀ w ∈ s.cluster.workers, w.Carries Measured
  sends : s.cluster.server.server.Sends s.collected
  processed : s.Processed (sentStatistics s.cluster.server.server.toManager) (sentStatistics s.cluster.toManager)

theorem Inv.start : Inv {} where
  carries w hw := absurd hw List.not_mem_nil
  sends := by
    constructor
    · exact fun _ => ⟨.start, rfl⟩
    · exact fun h => absurd h Bool.false_ne_true
  processed := by
    constructor
    · rfl
    · rfl
    · exact fun r hr => absurd hr List.not_mem_nil
    · exact fun _ => ⟨Option.some_ne_none 0, Option.some_ne_none 0⟩

/-- What the server then has noted and sent. -/
theorem Inv.sends_step {c : Cluster} (h : s.Inv) (hs : s.cluster.step numWorkers a = some c) :
    c.server.server.Sends (s.collected ++
      if s.cluster.server.server.statisticSend then [] else ((s.cluster.polled a).map W2S.reports).getD []) := by
  rcases Cluster.step_statistics hs with ⟨info, hpolled, ⟨w, hw, hinfo⟩, hbooks⟩ | ⟨hnone, hadds⟩
  · rw [hpolled]
    obtain ⟨⟨hsized, hone⟩, hne⟩ := (h.carries w hw).outbox info hinfo
    exact h.sends.book hsized (hone.resolve_left hne) hbooks
  · rw [hnone, ite_self, List.append_nil]
    exact h.sends.addTasks hadds

theorem Inv.step (h : s.Inv) (hok : s.cluster.Supplies Measured a) (hs : s.step numWorkers a = some s')
    (hroom : s'.collected.length < 2 ^ 64) : s'.Inv := by
  obtain ⟨c, hc, rfl⟩ := Option.map_eq_some_iff.1 hs
  obtain ⟨hcluster, hcollected⟩ := foldl_process_frame (received s.cluster.toManager c.toManager) { s with
    cluster := c
    collected := s.collected ++
      if s.cluster.server.server.statisticSend then [] else ((s.cluster.polled a).map W2S.reports).getD [] }
  rw [hcollected] at hroom
  have hsends := h.sends_step hc
  obtain ⟨sent, hchannel, hlog⟩ := Cluster.step_forwards hc
  refine ⟨?_, ?_, ?_⟩
  · rw [hcluster]
    exact Cluster.carries_step h.carries hok hc
  · rw [hcluster, hcollected]
    exact hsends
  · rw [hcluster, hlog]
    refine Processed.processAll ?_ _ ?_
    · rw [← hlog]
      exact hsends.countable hroom
    · have hsent := h.processed.sends (sentStatistics sent)
      rw [← sentStatistics_append s.cluster.toManager, hchannel, sentStatistics_append] at hsent
      exact hsent.of_eq rfl rfl rfl rfl

/-- The reports the server has collected are never forgotten. -/
theorem step_collected (hs : s.step numWorkers a = some s') : s.collected.length ≤ s'.collected.length := by
  obtain ⟨c, -, rfl⟩ := Option.map_eq_some_iff.1 hs
  rw [(foldl_process_frame _ _).2, List.length_append]
  exact Nat.le_add_right _ _

theorem W2S.length_reports (msg : W2S) : msg.reports.length = msg.instances.length := by cases msg <;> rfl

/-- With at most 2^32 files, the server never collects more reports than a 64 bit counter can count. -/
theorem collected_lt {ok : List Action → Averaging → Action → Prop}
    (h : Traced (Averaging.step numWorkers) ok [] {} as s)
    (ha : s.cluster.server.server.Addressable) : s.collected.length < 2 ^ 64 := by
  obtain ⟨es, hes, hle⟩ : ∃ es, s.cluster.Handed es ∧ s.collected.length ≤ (reportedBy es).length := by
    refine h.invariant (P := fun _ s => ∃ es, s.cluster.Handed es ∧ s.collected.length ≤ (reportedBy es).length)
      ⟨[], .start, le_rfl⟩ ?_
    rintro _ s a s' _ ⟨es, hes, hle⟩ _ hs
    obtain ⟨c, hc, rfl⟩ := Option.map_eq_some_iff.1 hs
    obtain ⟨new, hnew, hreported⟩ := hes.step hc
    refine ⟨es ++ new, ?_, ?_⟩
    · rw [(foldl_process_frame _ _).1]
      exact hnew
    · have hsame : (((s.cluster.polled a).map W2S.reports).getD []).length = (reportedBy new).length := by
        rw [hreported]
        cases s.cluster.polled a with
        | none => rfl
        | some msg => exact W2S.length_reports msg
      rw [(foldl_process_frame _ _).2, List.length_append, reportedBy, List.flatMap_append, List.length_append]
      refine Nat.add_le_add hle ?_
      split
      · exact Nat.zero_le _
      · exact hsame.le
  have hscheduling := hes.served.scheduling
  have hcard : (reportedBy es).length ≤ s.cluster.server.server.handedOut.length := by
    simpa using Multiset.card_le_card hscheduling.reported_le
  exact (hle.trans hcard).trans_lt (hscheduling.length_handed_lt ha)

section FileRun

variable {K : Type} [Zero K] [Add K] [LT K] [DecidableLT K] {calcF : Int → K} {files : String → Text}

/-- The executions measure what belongs to a file that `read` accepts. -/
theorem Possible.supplies (hfiles : ∀ name, ∃ r, read (files name) = .ok r) (hok : Possible calcF files as s a) :
    s.cluster.Supplies Measured a where
  fresh pim taskId := by
    constructor
    · intro h
      exact absurd (show (0 : UInt64) < 0 from h) (by decide)
    · exact .inl rfl
  executed := by
    rintro comm i measured w t rfl hw ht
    obtain ⟨x, calls, hx⟩ := (hok w t hw ht).resolve_left nofun
    obtain ⟨r, hr⟩ := hfiles t.name
    have hsized : measured.Sized := Task.outcome_sized hr hx
    exact ⟨hsized, .inr rfl⟩

theorem FileRun.inv (hfiles : ∀ name, ∃ r, read (files name) = .ok r) (h : FileRun numWorkers calcF files as s)
    (hroom : s.collected.length < 2 ^ 64) : s.Inv := by
  refine h.invariant (P := fun _ s => s.collected.length < 2 ^ 64 → s.Inv) (fun _ => .start) ?_ hroom
  intro _ s _ s' _ ih hok hs hroom
  exact (ih ((step_collected hs).trans_lt hroom)).step (hok.supplies hfiles) hs hroom

/-- Whenever of every task reported an instance has reported a flip, the manager has divided by no 0 and its averages
are numbers. And it has divided by 0 otherwise, once it has received all statistics. -/
theorem averages_divide (numWorkers : Comm → UInt32) (calcF : Int → K) (files : String → Text)
    (hfiles : ∀ name, ∃ r, read (files name) = .ok r) (as : List Action) (s : Averaging)
    (h : FileRun numWorkers calcF files as s) (hroom : s.collected.length < 2 ^ 64) :
    (EachFlips s.collected → (∀ r ∈ s.processed, r.1.Divides r.2) ∧
        s.statistic.avgFlipsPerVar ≠ none ∧ s.statistic.avgFlipsPerClause ≠ none) ∧
      (s.cluster.server.server.statisticSend = true → sentStatistics s.cluster.toManager = [] →
        (∀ r ∈ s.processed, r.1.Divides r.2) → EachFlips s.collected) := by
  have hinv := h.inv hfiles hroom
  constructor
  · intro hflips
    have hall : ∀ r ∈ s.processed, r.1.Divides r.2 := by
      intro r hr
      have hin : r.2 ∈ sentStatistics s.cluster.server.server.toManager := by
        rw [← hinv.processed.channel]
        exact List.mem_append_left _ (List.mem_map_of_mem hr)
      cases hsend : s.cluster.server.server.statisticSend with
      | false =>
        rw [(hinv.sends.unsent hsend).2] at hin
        cases hin
      | true =>
        obtain ⟨table, hbooked, hsent⟩ := hinv.sends.sent hsend
        rw [hsent] at hin
        obtain ⟨hst, hpos⟩ := List.mem_filter.1 hin
        obtain ⟨p, hp⟩ := List.mem_iff_getElem?.1 hst
        obtain ⟨info, hinfo, rfl⟩ := (hbooked.started_pos hroom hp).1 (by simpa using hpos)
        obtain ⟨info', hinfo', hid, hf⟩ := hflips info hinfo
        obtain ⟨hv, hc⟩ := hbooked.noted _ r.2 hp ⟨info', hinfo', by rw [hid], hf⟩
        exact ⟨hv, hc, hinv.processed.started r hr⟩
    exact ⟨hall, hinv.processed.averages hall⟩
  · intro hsend hempty hall info hinfo
    obtain ⟨table, hbooked, hsent⟩ := hinv.sends.sent hsend
    obtain ⟨st, hp⟩ : ∃ st, table[info.taskId.toNat]? = some st :=
      ⟨_, List.getElem?_eq_getElem (hbooked.known info hinfo)⟩
    -- the report about the task of `info` was processed
    obtain ⟨r, hr, rfl⟩ : ∃ r ∈ s.processed, r.2 = st := by
      have hchannel := hinv.processed.channel
      rw [hempty, List.append_nil, hsent] at hchannel
      refine List.mem_map.1 ?_
      rw [hchannel, List.mem_filter]
      refine ⟨List.mem_of_getElem? hp, ?_⟩
      simpa using (hbooked.started_pos hroom hp).2 ⟨info, hinfo, rfl⟩
    by_contra hnone
    have hzero := hbooked.unknown _ r.2 hp fun info' hinfo' hid hf =>
      hnone ⟨info', hinfo', UInt32.toNat_inj.1 hid, hf⟩
    have hv := (hall r hr).numVars
    rw [hzero.1] at hv
    exact absurd hv (by decide)

/-- Every execution is one of these tasks and ends as it is said here. -/
def expects (outcomes : List (Task × Execution)) (_ : List Action) (s : Averaging) : Action → Bool
  | .workerThread comm i outcome =>
    match s.cluster.workers[comm]?.bind fun w => w.threads[i]? with
    | some (.executing t) => decide ((t, outcome) ∈ outcomes)
    | _ => true
  | _ => true

theorem mem_of_expects {outcomes : List (Task × Execution)} {comm : Comm} {i : Nat} {outcome : Execution} {w : Worker}
    {t : Task} (h : expects outcomes as s (.workerThread comm i outcome) = true)
    (hw : s.cluster.workers[comm]? = some w) (ht : w.threads[i]? = some (.executing t)) : (t, outcome) ∈ outcomes := by
  unfold expects at h
  simp only [hw, Option.bind_some, ht] at h
  exact of_decide_eq_true h

theorem FileRun.of_replay {outcomes : List (Task × Execution)}
    (ho : ∀ p ∈ outcomes, ∃ x calls, p.1.outcome calcF x (files p.1.name) calls = some p.2)
    (h : replay (Averaging.step numWorkers) (fun as s a => expects outcomes as s a = true) [] {} as = some s) :
    FileRun numWorkers calcF files as s := by
  refine (Traced.of_replay h).imp fun as s a hexp => ?_
  cases a with
  | workerThread comm i outcome =>
    intro w t hw ht
    obtain ⟨x, calls, hx⟩ := ho _ (mem_of_expects hexp hw ht)
    exact .inr ⟨x, calls, hx⟩
  | manager | serverPollsWorkers | serverPollsManager | serverLeaves | workerMain => trivial

end FileRun

/-! ## Two files for two workers -/

def clashText : Text := "p cnf 1 2\n1 0\n-1 0".toList

def pairText : Text := "p cnf 2 2\n1 2 0\n-1 2 0".toList

def teamFiles (name : String) : Text := if name = "clash.cnf" then clashText else pairText

theorem read_teamFiles (name : String) : ∃ r, read (teamFiles name) = .ok r := by
  have hclash : (read clashText).toOption.isSome = true := by decide +kernel
  have hpair : (read pairText).toOption.isSome = true := by decide +kernel
  unfold teamFiles
  split
  · exact ok_of_isSome_toOption hclash
  · exact ok_of_isSome_toOption hpair

/-- Two instances of two flips each. -/
def clashFile : ProblemInstanceMetadata := ⟨2, 2, "clash.cnf"⟩

/-- One instance of so many flips. -/
def pairFile (anzahlFlips : UInt32) : ProblemInstanceMetadata := ⟨1, anzahlFlips, "pair.cnf"⟩

/-- All flips are made in vain. -/
def clashMeasured : DoneProcessingInfo := { seed := 7, numFlipsDone := 2, numVars := 1, numClauses := 2 }

def pairMeasured (numFlipsDone : UInt64) (solved : Bool) : DoneProcessingInfo :=
  { taskId := 1, seed := 20014, numFlipsDone := numFlipsDone, numVars := 2, numClauses := 2, solved := solved }

/-- All variables are false at the start, the first flip picks the first literal of its clause, the next ones later
literals. -/
def teamStart (seed : UInt64) (numVars : Int) : Circumstances ℚ where
  seed := seed
  belegung := ⟨numVars, numVars.toNat, false, 0⟩
  getRandomValue := fun k l => k / 2 * l
  memory := ⟨0, 0, 0, 0⟩
  running := fun _ => true
  initDuration := 0
  solveDuration := 0
  overallDuration := 0

/-- How the executions of the two files end. -/
def teamOutcomes (anzahlFlips : UInt32) (measured : DoneProcessingInfo) : List (Task × Execution) :=
  [(.new clashFile 0, .done clashMeasured), (.new (pairFile anzahlFlips) 1, .done measured)]

theorem forall_teamOutcomes {P : Task × Execution → Prop} {anzahlFlips : UInt32} {measured : DoneProcessingInfo}
    (hclash : P (.new clashFile 0, .done clashMeasured)) (hpair : P (.new (pairFile anzahlFlips) 1, .done measured)) :
    ∀ p ∈ teamOutcomes anzahlFlips measured, P p := by
  unfold teamOutcomes
  rw [List.forall_mem_cons, List.forall_mem_singleton]
  exact ⟨hclash, hpair⟩

theorem clashFile_outcome : (Task.new clashFile 0).outcome (fun _ => (1 : ℚ)) (teamStart 7 1) clashText 1 =
    some (.done clashMeasured) := by
  decide +kernel

theorem teamOutcomes_possible : ∀ p ∈ teamOutcomes 5 (pairMeasured 2 true), ∃ x calls,
    p.1.outcome (fun _ => (1 : ℚ)) x (teamFiles p.1.name) calls = some p.2 := by
  have hpair : (Task.new (pairFile 5) 1).outcome (fun _ => (1 : ℚ)) (teamStart 20014 2) pairText 1 =
      some (.done (pairMeasured 2 true)) := by
    decide +kernel
  exact forall_teamOutcomes ⟨_, _, clashFile_outcome⟩ ⟨_, _, hpair⟩

/-- The server takes a command of the manager, which goes on. -/
def serverHearsManager : List Action := [.serverPollsWorkers none, .serverPollsManager true, .manager .other false]

/-- The server takes a command of the worker at this position. -/
def serverHearsWorker (index : Nat) : List Action := [.serverPollsWorkers (some index), .serverPollsManager false]

/-- A worker is activated, asks for instances, and queues the job it is given. -/
def workerQueues (comm : Comm) (requested : UInt32) : List Action :=
  [.workerMain comm true 0, .workerMain comm false 0, .workerMain comm false 0, .workerMain comm true requested] ++
    serverHearsWorker comm ++ [.workerMain comm true 0, .workerMain comm true 0, .workerMain comm true 0]

/-- A thread takes a task, executes it and puts it among those that are done. -/
def threadWorks (comm : Comm) (i : Nat) (measured : DoneProcessingInfo) : List Action :=
  [.workerThread comm i .failed, .workerThread comm i .failed, .workerThread comm i .failed,
    .workerThread comm i (.done measured), .workerThread comm i .failed]

/-- Two workers join and share the instances of two files; the reports about the first file have arrived, that about the
second one is on its way. -/
def teamWork (anzahlFlips : UInt32) (measured : DoneProcessingInfo) : List Action :=
  [.manager (.addWorkers 2) false] ++ serverHearsManager ++ serverHearsManager ++ [.manager .other false] ++
    [.manager (.addFile clashFile) false] ++ serverHearsManager ++ [.manager (.addFile (pairFile anzahlFlips)) false] ++
    serverHearsManager ++ workerQueues 0 1 ++ workerQueues 1 2 ++ threadWorks 1 1 clashMeasured ++
    threadWorks 0 1 measured ++ threadWorks 1 0 clashMeasured ++
    [.workerMain 1 true 0, .workerMain 1 true 0, .workerMain 0 true 0] ++ serverHearsWorker 1 ++ serverHearsWorker 1

/-- The second file is solved, and the manager receives the solution and the statistics. -/
def teamRun : List Action :=
  teamWork 5 (pairMeasured 2 true) ++ serverHearsWorker 0 ++ serverHearsWorker 0 ++
    [.manager .other false, .manager .other true, .manager .other true, .manager .other true, .manager .other true]

/-- What the server has collected then. -/
def teamCollected : List DoneProcessingInfo :=
  [{ clashMeasured with instancesProcessed := 1 }, { clashMeasured with instancesProcessed := 1 },
    { pairMeasured 2 true with instancesProcessed := 1 }]

theorem pairMeasured_mem_teamCollected : { pairMeasured 2 true with instancesProcessed := 1 } ∈ teamCollected :=
  List.mem_of_getElem? (i := 2) rfl

/-- The solution that is announced. -/
def teamSolution : SolutionInfo :=
  { seed := 20014, numFlipsDone := 2, numVars := 2, numClauses := 2, filename := "pair.cnf" }

theorem teamRun_replay : ∃ s, replay (Averaging.step fun _ => 2)
      (fun as s a => expects (teamOutcomes 5 (pairMeasured 2 true)) as s a = true) [] {} teamRun = some s ∧
    s.cluster.manager.solutionFound = true ∧ s.collected = teamCollected ∧
    s.cluster.server.server.availableTasks.map (fun t => t.metadata) = [clashFile, pairFile 5] ∧
    s.cluster.server.server.statisticSend = true ∧ sentStatistics s.cluster.toManager = [] ∧ s.processed.length = 2 ∧
    .foundSolution teamSolution ∈ s.cluster.server.server.toManager := by
  have hrun : (replay (Averaging.step fun _ => 2)
      (fun as s a => expects (teamOutcomes 5 (pairMeasured 2 true)) as s a = true) [] {} teamRun).any
        (fun s : Averaging =>
        decide (s.cluster.manager.solutionFound = true ∧ s.collected = teamCollected ∧
          s.cluster.server.server.availableTasks.map (fun t => t.metadata) = [clashFile, pairFile 5] ∧
          s.cluster.server.server.statisticSend = true ∧ sentStatistics s.cluster.toManager = [] ∧
          s.processed.length = 2 ∧ .foundSolution teamSolution ∈ s.cluster.server.server.toManager)) = true := by
    decide +kernel
  obtain ⟨s, hs, he⟩ := (Option.any_eq_true _ _).1 hrun
  exact ⟨s, hs, of_decide_eq_true he⟩

theorem exists_teamRun : ∃ s, FileRun (fun _ => 2) (fun _ => (1 : ℚ)) teamFiles teamRun s ∧
    s.cluster.manager.solutionFound = true ∧ s.collected = teamCollected ∧
    s.cluster.server.server.availableTasks.map (fun t => t.metadata) = [clashFile, pairFile 5] ∧
    s.cluster.server.server.statisticSend = true ∧ sentStatistics s.cluster.toManager = [] ∧ s.processed.length = 2 ∧
    .foundSolution teamSolution ∈ s.cluster.server.server.toManager := by
  obtain ⟨s, hs, he⟩ := teamRun_replay
  exact ⟨s, .of_replay teamOutcomes_possible hs, he⟩

theorem teamCollected_eachFlips : EachFlips teamCollected := by
  intro info hinfo
  refine ⟨info, hinfo, rfl, ?_⟩
  revert info
  decide

theorem averages_divide_teamRun : ∃ s, FileRun (fun _ => 2) (fun _ => (1 : ℚ)) teamFiles teamRun s ∧
    s.processed.length = 2 ∧ (∀ r ∈ s.processed, r.1.Divides r.2) ∧ s.statistic.avgFlipsPerVar ≠ none ∧
      s.statistic.avgFlipsPerClause ≠ none := by
  obtain ⟨s, h, -, hcollected, -, -, -, hlen, -⟩ := exists_teamRun
  have hroom : s.collected.length < 2 ^ 64 := by
    rw [hcollected]
    decide
  have hflips : EachFlips s.collected := by
    rw [hcollected]
    exact teamCollected_eachFlips
  obtain ⟨hall, hv, hc⟩ :=
    (averages_divide (fun _ => 2) (fun _ => (1 : ℚ)) teamFiles read_teamFiles teamRun s h hroom).1
    hflips
  exact ⟨s, h, hlen, hall, hv, hc⟩

/-! ## An instance without a flip -/

/-- The task has one instance, which may make one flip. -/
def unitTask : Task := .new ⟨1, 1, ""⟩ 0

/-- The only variable is true at the start. -/
def unitStart : Circumstances ℚ := { teamStart 0 1 with belegung := ⟨1, 1, false, 1⟩ }

/-- The instance is solved before the first flip. -/
def unitMeasured : DoneProcessingInfo := { numVars := 1, numClauses := 1, solved := true }

/-- The worker announces the solution and reports the instance, and the manager waits for the statistics. -/
def unitRun : List Action :=
  Cluster.startUp 1 ⟨1, 1, ""⟩ ++ Cluster.oneTask unitMeasured ++ [.serverPollsWorkers (some 0),
    .serverPollsManager false, .serverPollsWorkers (some 0), .serverPollsManager false, .manager .other true,
    .manager .other false, .manager .other false]

/-- The start assignment of the only instance is a solution: its size is not noted, and the manager divides 0 by 0. -/
theorem averages_divide_by_zero : (∃ r, read SerialInstance.unitText = .ok r) ∧
    ∃ s, FileRun (fun _ => 1) (fun _ => (1 : ℚ)) (fun _ => SerialInstance.unitText) unitRun s ∧
      (s.processed.map fun r => (r.2.numVars, r.2.numClauses, r.2.totalNumFlips)) = [(0, 0, 0)] ∧
      (¬ ∀ r ∈ s.processed, r.1.Divides r.2) ∧
      s.statistic.avgFlipsPerVar = none ∧ s.statistic.avgFlipsPerClause = none := by
  have hok : (read SerialInstance.unitText).toOption.isSome = true := by decide +kernel
  have ho : unitTask.outcome (fun _ => (1 : ℚ)) unitStart SerialInstance.unitText 1 = some (.done unitMeasured) := by
    decide +kernel
  have hrun : (replay (Averaging.step fun _ => 1)
      (fun as s a => expects [(unitTask, .done unitMeasured)] as s a = true) [] {} unitRun).map (fun s : Averaging =>
        ((s.processed.map fun r => (r.2.numVars, r.2.numClauses, r.2.totalNumFlips)), s.statistic.avgFlipsPerVar,
          s.statistic.avgFlipsPerClause)) = some ([(0, 0, 0)], none, none) := by
    decide +kernel
  obtain ⟨s, hs, he⟩ := Option.map_eq_some_iff.1 hrun
  obtain ⟨hprocessed, he⟩ := Prod.mk.inj he
  obtain ⟨hv, hc⟩ := Prod.mk.inj he
  refine ⟨ok_of_isSome_toOption hok, s, .of_replay ?_ hs, hprocessed, fun hall => ?_, hv, hc⟩
  · intro p hp
    rw [List.mem_singleton.1 hp]
    exact ⟨_, _, ho⟩
  · obtain ⟨r, hr, hzero⟩ := List.mem_map.1 (hprocessed.symm ▸ List.mem_singleton_self _)
    have hpos := (hall r hr).numVars
    rw [(Prod.mk.inj hzero).1] at hpos
    exact absurd hpos (by decide)

end Averaging

end ParallelProbsat.Communication
