/-
The totals and the averages of the manager's statistic, from the reports of the workers to what is printed at the end:
nothing reported before the statistics are sent is lost or counted twice on the way over the statistics of the tasks.
-/
import ParallelProbsat.Communication.Attribution

namespace ParallelProbsat.Communication

open ParallelProbsat.Lib ParallelProbsat.Util ParallelProbsat.Sat

/-! ## What the server adds up -/

/-- A quantity of a report, and the counter of a statistic that adds it up. -/
structure Adds (reported : DoneProcessingInfo → Nat) (noted : ProblemInstanceStatistics → UInt64) : Prop where
  start : noted {} = 0
  account : ∀ info st st', Server.account info st = .ok st' → noted st' = noted st + UInt64.ofNat (reported info)

/-- What `account` does to the counters; the check of the sizes touches none of them. -/
theorem Server.account_counters {msg : DoneProcessingInfo} {st st' : ProblemInstanceStatistics}
    (h : account msg st = .ok st') :
    st'.numInstancesStarted = st.numInstancesStarted + msg.instancesProcessed.toUInt64 ∧
      st'.totalNumFlips = st.totalNumFlips + msg.numFlipsDone ∧
      st'.timesSolved = st.timesSolved + (if msg.solved then 1 else 0) ∧
      st'.totalInitDuration = st.totalInitDuration + msg.initDuration ∧
      st'.totalSolveDuration = st.totalSolveDuration + msg.solveDuration ∧
      st'.totalOverallDuration = st.totalOverallDuration + msg.overallDuration := by
  obtain ⟨st₁, h1, h⟩ := bind_ok h
  have hst : st₁ = { st with numVars := st₁.numVars, numClauses := st₁.numClauses } := by
    unfold checkFormula at h1
    split_ifs at h1 <;> cases h1 <;> rfl
  cases h
  rw [hst]
  split
  · exact ⟨rfl, rfl, rfl, rfl, rfl, rfl⟩
  · exact ⟨rfl, rfl, (UInt64.add_zero _).symm, rfl, rfl, rfl⟩

theorem adds_started : Adds (fun info => info.instancesProcessed.toNat) fun st => st.numInstancesStarted where
  start := rfl
  account info st st' h := by
    rw [(Server.account_counters h).1, UInt64.ofNat_uInt32ToNat]

theorem adds_flips : Adds (fun info => info.numFlipsDone.toNat) fun st => st.totalNumFlips where
  start := rfl
  account info st st' h := by rw [(Server.account_counters h).2.1, UInt64.ofNat_toNat]

/-- The reports of the task with this number. -/
def ofTask (infos : List DoneProcessingInfo) (p : Nat) : List DoneProcessingInfo :=
  infos.filter fun info => decide (info.taskId.toNat = p)

/-- Every report counts one instance. -/
theorem sum_instancesProcessed {infos : List DoneProcessingInfo} (hone : ∀ info ∈ infos, info.instancesProcessed = 1) :
    (infos.map fun info => info.instancesProcessed.toNat).sum = infos.length := by
  have hmap : (infos.map fun info => info.instancesProcessed.toNat) = infos.map fun _ => 1 :=
    List.map_congr_left fun info hinfo => congrArg UInt32.toNat (hone info hinfo)
  rw [hmap, List.map_const', List.sum_replicate, smul_eq_mul, Nat.mul_one]

/-- Every row of the table has added up the reports of its task, and has the size of the formula from one of them. -/
structure AddedUp (infos : List DoneProcessingInfo) (table : List ProblemInstanceStatistics) : Prop where
  known : ∀ info ∈ infos, info.taskId.toNat < table.length
  noted : ∀ reported noted, Adds reported noted → ∀ p st, table[p]? = some st →
    noted st = UInt64.ofNat (((ofTask infos p).map reported).sum)
  sized : ∀ p st, table[p]? = some st → (∃ info ∈ infos, info.taskId.toNat = p ∧ 0 < info.numFlipsDone) →
    ∃ info ∈ infos, info.taskId.toNat = p ∧ 0 < info.numFlipsDone ∧ st.numVars = info.numVars ∧
      st.numClauses = info.numClauses

namespace AddedUp

variable {infos : List DoneProcessingInfo} {table : List ProblemInstanceStatistics}

theorem start : AddedUp [] [] where
  known info h := by cases h
  noted reported noted _ p st h := by cases h
  sized p st h := by cases h

theorem ofTask_eq_nil (h : AddedUp infos table) {p : Nat} (hp : table.length ≤ p) : ofTask infos p = [] := by
  apply List.filter_eq_nil_iff.2
  intro info hinfo
  have hlt := h.known info hinfo
  simp only [decide_eq_true_eq]
  omega

theorem addTasks (h : AddedUp infos table) (n : Nat) :
    AddedUp infos (table ++ List.replicate n ({} : ProblemInstanceStatistics)) where
  known info hinfo := by
    rw [List.length_append]
    exact Nat.lt_add_right _ (h.known info hinfo)
  noted reported noted hadds p st hp := by
    by_cases hlt : p < table.length
    · rw [List.getElem?_append_left hlt] at hp
      exact h.noted reported noted hadds p st hp
    · rw [List.getElem?_append_right (not_lt.1 hlt)] at hp
      rw [(List.mem_replicate.1 (List.mem_of_getElem? hp)).2, hadds.start, h.ofTask_eq_nil (not_lt.1 hlt)]
      rfl
  sized p st hp := by
    rintro ⟨info, hinfo, rfl, hflips⟩
    rw [List.getElem?_append_left (h.known info hinfo)] at hp
    exact h.sized _ st hp ⟨info, hinfo, rfl, hflips⟩

/-- A report is added to the row of its task. -/
theorem book {info : DoneProcessingInfo} {st st' : ProblemInstanceStatistics} (h : AddedUp infos table)
    (hst : table[info.taskId.toNat]? = some st) (hacc : Server.account info st = .ok st') :
    AddedUp (infos ++ [info]) (table.set info.taskId.toNat st') where
  known info' hinfo := by
    rw [List.length_set]
    rcases List.mem_append.1 hinfo with hinfo | hinfo
    · exact h.known info' hinfo
    · rw [List.mem_singleton.1 hinfo]
      exact (List.getElem?_eq_some_iff.1 hst).1
  noted reported noted hadds p st₁ hp := by
    rw [← modify_const] at hp
    obtain ⟨a, ha, ⟨rfl, rfl⟩ | ⟨hne, rfl⟩⟩ := getElem?_modify_some hp
    · have hlast : ofTask (infos ++ [info]) info.taskId.toNat = ofTask infos info.taskId.toNat ++ [info] := by
        unfold ofTask
        rw [List.filter_append, List.filter_singleton, decide_eq_true rfl]
        rfl
      rw [hadds.account info st _ hacc, h.noted reported noted hadds _ st hst, hlast, List.map_append, List.sum_append,
        UInt64.ofNat_add]
      simp
    · have hsame : ofTask (infos ++ [info]) p = ofTask infos p := by
        unfold ofTask
        rw [List.filter_append, List.filter_singleton, decide_eq_false hne]
        exact List.append_nil _
      rw [hsame]
      exact h.noted reported noted hadds p st₁ ha
  sized p st₁ hp := by
    rintro ⟨info', hinfo', hid, hflips⟩
    rw [← modify_const] at hp
    obtain ⟨a, ha, ⟨rfl, rfl⟩ | ⟨hne, rfl⟩⟩ := getElem?_modify_some hp
    · obtain ⟨hvars, hclauses⟩ := Server.account_size hacc
      rw [hvars, hclauses]
      by_cases hf : 0 < info.numFlipsDone
      · refine ⟨info, by simp, rfl, hf, ?_, ?_⟩
        · exact if_pos hf
        · exact if_pos hf
      · -- then the flips are those of an earlier report
        have hold : info' ∈ infos := by
          rcases List.mem_append.1 hinfo' with hin | hin
          · exact hin
          · rw [List.mem_singleton.1 hin] at hflips
            exact absurd hflips hf
        obtain ⟨info₁, h₁, hid₁, hf₁, hv, hc⟩ := h.sized _ st hst ⟨info', hold, hid, hflips⟩
        refine ⟨info₁, List.mem_append_left _ h₁, hid₁, hf₁, ?_, ?_⟩
        · rw [if_neg hf, hv]
        · rw [if_neg hf, hc]
    · have hold : info' ∈ infos := by
        rcases List.mem_append.1 hinfo' with hin | hin
        · exact hin
        · rw [List.mem_singleton.1 hin] at hid
          exact absurd hid hne
      obtain ⟨info₁, h₁, hrest⟩ := h.sized p st₁ ha ⟨info', hold, hid, hflips⟩
      exact ⟨info₁, List.mem_append_left _ h₁, hrest⟩

/-- As long as nothing runs over, the counter of a row is the total of its task. -/
theorem row (h : AddedUp infos table) {reported : DoneProcessingInfo → Nat} {noted : ProblemInstanceStatistics → UInt64}
    (hadds : Adds reported noted) (hroom : (infos.map reported).sum < 2 ^ 64) {p : Nat} {st : ProblemInstanceStatistics}
    (hp : table[p]? = some st) : (noted st).toNat = ((ofTask infos p).map reported).sum := by
  have hle : ((ofTask infos p).map reported).sum ≤ (infos.map reported).sum :=
    ((List.filter_sublist (l := infos)).map reported).sum_le_sum fun _ _ => Nat.zero_le _
  rw [h.noted reported noted hadds p st hp, UInt64.toNat_ofNat', Nat.mod_eq_of_lt (hle.trans_lt hroom)]

section Room

variable (h : AddedUp infos table) (hone : ∀ info ∈ infos, info.instancesProcessed = 1) (hroom : infos.length < 2 ^ 64)
include h hone hroom

theorem row_started {p : Nat} {st : ProblemInstanceStatistics} (hp : table[p]? = some st) :
    st.numInstancesStarted.toNat = (ofTask infos p).length := by
  have hrow := h.row adds_started (by rw [sum_instancesProcessed hone]; exact hroom) hp
  rw [hrow]
  exact sum_instancesProcessed fun info hinfo => hone info (List.mem_of_mem_filter hinfo)

/-- Nothing was reported of a task that is not started. -/
theorem ofTask_of_unstarted {p : Nat} {st : ProblemInstanceStatistics} (hp : table[p]? = some st)
    (h0 : decide (0 < st.numInstancesStarted) = false) : ofTask infos p = [] := by
  have hstarted := h.row_started hone hroom hp
  rw [decide_eq_false_iff_not, UInt64.lt_iff_toNat_lt, hstarted] at h0
  exact List.eq_nil_of_length_eq_zero (Nat.eq_zero_of_not_pos h0)

/-- A task of which something was reported is started. -/
theorem started_ne_nil {info : DoneProcessingInfo} (hinfo : info ∈ infos) :
    (table.filter fun st => decide (0 < st.numInstancesStarted)) ≠ [] := by
  obtain ⟨st, hp⟩ : ∃ st, table[info.taskId.toNat]? = some st := ⟨_, List.getElem?_eq_getElem (h.known info hinfo)⟩
  have hstarted := h.row_started hone hroom hp
  have hmem : info ∈ ofTask infos info.taskId.toNat := List.mem_filter.2 ⟨hinfo, decide_eq_true rfl⟩
  have hpos : 0 < st.numInstancesStarted := by
    rw [UInt64.lt_iff_toNat_lt, hstarted]
    exact List.length_pos_of_mem hmem
  apply List.ne_nil_of_mem
  exact List.mem_filter.2 ⟨List.mem_of_getElem? hp, decide_eq_true hpos⟩

/-- The rows of started tasks add up to the total of the reports. -/
theorem total {reported : DoneProcessingInfo → Nat} {noted : ProblemInstanceStatistics → UInt64}
    (hadds : Adds reported noted) (hfits : (infos.map reported).sum < 2 ^ 64) :
    ((table.filter fun st => decide (0 < st.numInstancesStarted)).map fun st => (noted st).toNat).sum =
    (infos.map reported).sum := by
  rw [sum_map_filter_of_zero]
  · exact sum_map_groups h.known fun p st hp => h.row hadds hfits hp
  · intro st hst h0
    obtain ⟨p, hp⟩ := List.mem_iff_getElem?.1 hst
    rw [h.row hadds hfits hp, h.ofTask_of_unstarted hone hroom hp h0]
    rfl

theorem total_started :
    ((table.filter fun st => decide (0 < st.numInstancesStarted)).map fun st => st.numInstancesStarted.toNat).sum =
      infos.length := by
  rw [h.total hone hroom adds_started (by rw [sum_instancesProcessed hone]; exact hroom), sum_instancesProcessed hone]

end Room

end AddedUp

/-! ## What the server sends of it -/

/-- What the server has noted of the reports `infos`; the statistics it has sent are the rows of started tasks. -/
structure Server.AddsUp (infos : List DoneProcessingInfo) (s : Server) : Prop where
  unsent : s.statisticSend = false → AddedUp infos s.statistics ∧ sentStatistics s.toManager = []
  sent : s.statisticSend = true → ∃ table, AddedUp infos table ∧
    sentStatistics s.toManager = table.filter fun st => decide (0 < st.numInstancesStarted)

namespace Server.AddsUp

variable {infos : List DoneProcessingInfo} {s s' : Server}

theorem addTasks (h : s.AddsUp infos) (hs : AddsTasks s s') : s'.AddsUp infos := by
  obtain ⟨n, htable⟩ := hs.statistics
  obtain ⟨messages, hlog, hnone⟩ := hs.log
  have hsame : sentStatistics s'.toManager = sentStatistics s.toManager := by
    rw [hlog, sentStatistics_append, hnone, List.append_nil]
  constructor
  · intro hsend
    obtain ⟨hrows, hempty⟩ := h.unsent (hs.sent.symm.trans hsend)
    rw [htable, hsame]
    exact ⟨hrows.addTasks n, hempty⟩
  · intro hsend
    rw [hsame]
    exact h.sent (hs.sent.symm.trans hsend)

/-- Until the statistics are sent, the table has the report too. -/
theorem booked {info : DoneProcessingInfo} (h : s.AddsUp infos) (hs : Books info s s')
    (hsend : s.statisticSend = false) :
    AddedUp (infos ++ [info]) s'.statistics := by
  obtain ⟨st, st', hst, hacc, htable⟩ := hs.statistics
  rw [htable]
  exact (h.unsent hsend).1.book hst hacc

/-- Until the statistics are sent, every report counts. -/
theorem book {info : DoneProcessingInfo} (h : s.AddsUp infos) (hs : Books info s s') :
    s'.AddsUp (infos ++ if s.statisticSend then [] else [info]) := by
  obtain ⟨messages, hlog, hnew⟩ := hs.log
  cases hsend : s.statisticSend with
  | true =>
    rcases hnew with ⟨hsame, hnone⟩ | ⟨hunsent, -⟩
    · rw [if_pos rfl, List.append_nil]
      constructor
      · intro h0
        rw [hsame, hsend] at h0
        cases h0
      · intro _
        rw [hlog, sentStatistics_append, hnone, List.append_nil]
        exact h.sent hsend
    · rw [hsend] at hunsent
      cases hunsent
  | false =>
    have hbooked := h.booked hs hsend
    have hsent : sentStatistics s'.toManager = sentStatistics messages := by
      rw [hlog, sentStatistics_append, (h.unsent hsend).2, List.nil_append]
    rw [← hsent] at hnew
    rw [if_neg (by simp)]
    rcases hnew with ⟨hsame, hnone⟩ | ⟨-, hsent', hfilter⟩
    · constructor
      · exact fun _ => ⟨hbooked, hnone⟩
      · intro h1
        rw [hsame, hsend] at h1
        cases h1
    · constructor
      · intro h0
        rw [hsent'] at h0
        cases h0
      · exact fun _ => ⟨_, hbooked, hfilter⟩

end Server.AddsUp

/-! ## What the manager adds up -/

namespace CompleteStatistic

/-- The statistic after these reports of tasks. -/
def ofAll (stats : List ProblemInstanceStatistics) : CompleteStatistic :=
  stats.foldl (fun statistic stat => statistic.processS2mSendStatistics stat) {}

theorem ofAll_snoc (stats : List ProblemInstanceStatistics) (stat : ProblemInstanceStatistics) :
    ofAll (stats ++ [stat]) = (ofAll stats).processS2mSendStatistics stat := by
  unfold ofAll
  rw [List.foldl_append]
  rfl

/-- A counter adds up as long as it does not run over. -/
theorem ofAll_counter (field : CompleteStatistic → UInt64) (noted : ProblemInstanceStatistics → UInt64)
    (h0 : field {} = 0)
    (hfield : ∀ stat statistic, field (processS2mSendStatistics stat statistic) = field statistic + noted stat)
    (stats : List ProblemInstanceStatistics) : (stats.map fun stat => (noted stat).toNat).sum < 2 ^ 64 →
      (field (ofAll stats)).toNat = (stats.map fun stat => (noted stat).toNat).sum := by
  induction stats using List.reverseRecOn with
  | nil =>
    intro _
    exact congrArg UInt64.toNat h0
  | append_singleton stats stat ih =>
    intro hroom
    rw [List.map_append, List.sum_append, List.map_singleton, List.sum_singleton] at hroom ⊢
    rw [ofAll_snoc, hfield, UInt64.toNat_add, ih (by omega)]
    exact Nat.mod_eq_of_lt hroom

/-- An average of ratios, weighted with the instances. -/
def weightedMean (ratio : ProblemInstanceStatistics → ℚ) (stats : List ProblemInstanceStatistics) : ℚ :=
  (stats.map fun stat => ratio stat * stat.numInstancesStarted.toNat).sum /
    (stats.map fun stat => stat.numInstancesStarted.toNat).sum

theorem weightedMean_mul (ratio : ProblemInstanceStatistics → ℚ) (stats : List ProblemInstanceStatistics) :
    weightedMean ratio stats * ((stats.map fun stat => stat.numInstancesStarted.toNat).sum : ℕ) =
      (stats.map fun stat => ratio stat * stat.numInstancesStarted.toNat).sum := by
  by_cases h0 : (stats.map fun stat => stat.numInstancesStarted.toNat).sum = 0
  · -- without instances there is nothing to add up
    rw [h0, Nat.cast_zero, mul_zero, eq_comm]
    apply List.sum_eq_zero
    intro x hx
    obtain ⟨stat, hstat, rfl⟩ := List.mem_map.1 hx
    have hzero : stat.numInstancesStarted.toNat = 0 :=
      List.sum_eq_zero_iff.1 h0 _
        (List.mem_map_of_mem (f := fun stat : ProblemInstanceStatistics => stat.numInstancesStarted.toNat) hstat)
    rw [hzero, Nat.cast_zero, mul_zero]
  · exact div_mul_cancel₀ _ (by exact_mod_cast h0)

/-- Without overflow and without a 0 among the divisors, an average of the manager is the mean of those of the tasks. -/
theorem ofAll_average (field : CompleteStatistic → Option ℚ) (size : ProblemInstanceStatistics → UInt64)
    (h0 : field {} = some 0) (hfield : ∀ stat statistic, field (processS2mSendStatistics stat statistic) =
      divide ((field statistic).bind fun old =>
        (divide (some (stat.totalNumFlips.toNat : ℚ)) (size stat)).map fun new =>
        old * statistic.numInstancesStarted.toNat + new * stat.numInstancesStarted.toNat)
        (statistic.numInstancesStarted + stat.numInstancesStarted))
    (stats : List ProblemInstanceStatistics) : (stats.map fun stat => stat.numInstancesStarted.toNat).sum < 2 ^ 64 →
      (∀ stat ∈ stats, size stat ≠ 0 ∧ stat.numInstancesStarted ≠ 0) →
      field (ofAll stats) = some (weightedMean (fun stat => stat.totalNumFlips.toNat / (size stat).toNat) stats) := by
  induction stats using List.reverseRecOn with
  | nil =>
    intro _ _
    exact h0.trans (by simp [weightedMean])
  | append_singleton stats stat ih =>
    intro hroom hall
    obtain ⟨hsize, hstarted⟩ := hall stat (by simp)
    have hbefore : (stats.map fun stat => stat.numInstancesStarted.toNat).sum < 2 ^ 64 := by
      rw [List.map_append, List.sum_append] at hroom
      omega
    have hcount := ofAll_counter (fun s => s.numInstancesStarted) (fun st => st.numInstancesStarted) rfl
      (fun _ _ => rfl) (stats ++ [stat]) hroom
    have hold := ofAll_counter (fun s => s.numInstancesStarted) (fun st => st.numInstancesStarted) rfl
      (fun _ _ => rfl) stats hbefore
    rw [ofAll_snoc] at hcount ⊢
    have hnew : ((ofAll stats).numInstancesStarted + stat.numInstancesStarted).toNat =
        ((stats ++ [stat]).map fun stat => stat.numInstancesStarted.toNat).sum := hcount
    have hne : (ofAll stats).numInstancesStarted + stat.numInstancesStarted ≠ 0 := by
      intro h
      rw [h, List.map_append, List.sum_append, List.map_singleton, List.sum_singleton] at hnew
      apply hstarted
      apply UInt64.toNat_inj.1
      show stat.numInstancesStarted.toNat = 0
      have hzero : (0 : UInt64).toNat = 0 := rfl
      omega
    have hratio : divide (some (stat.totalNumFlips.toNat : ℚ)) (size stat) =
        some (stat.totalNumFlips.toNat / (size stat).toNat : ℚ) := by
      unfold divide
      rw [if_neg hsize, Option.map_some]
    rw [hfield, ih hbefore fun stat' hstat => hall stat' (List.mem_append_left _ hstat), hratio, Option.bind_some,
      Option.map_some]
    unfold divide
    rw [if_neg hne, Option.map_some, hold, hnew, weightedMean_mul]
    unfold weightedMean
    simp only [List.map_append, List.sum_append, List.map_singleton, List.sum_singleton]

end CompleteStatistic

/-! ## Runs -/

namespace Averaging

variable {numWorkers : Comm → UInt32} {s s' : Averaging} {as : List Action} {a : Action}

/-- The manager processes messages. -/
theorem processed_foldl : ∀ (msgs : List S2M) (s : Averaging),
    ((msgs.foldl Averaging.process s).processed.map fun r => r.2) =
    (s.processed.map fun r => r.2) ++ sentStatistics msgs
  | [], s => (List.append_nil _).symm
  | msg :: rest, s => by
    have hfirst : ((s.process msg).processed.map fun r => r.2) =
        (s.processed.map fun r => r.2) ++ sentStatistics [msg] := by
      unfold Averaging.process
      simp [Function.comp_def]
    show ((rest.foldl Averaging.process (s.process msg)).processed.map fun r => r.2) = _
    rw [processed_foldl rest (s.process msg), hfirst, List.append_assoc, ← sentStatistics_append]
    rfl

/-- The statistic is that of the statistics processed, and the fewest flips of the solutions. -/
def Combined (s : Averaging) : Prop :=
  s.statistic = { CompleteStatistic.ofAll (s.processed.map fun r => r.2) with
    minFlipsToSolve := s.statistic.minFlipsToSolve }

theorem Combined.process (h : s.Combined) (msg : S2M) : (s.process msg).Combined := by
  unfold Combined at h ⊢
  cases msg with
  | foundSolution info =>
    have hp : (s.process (.foundSolution info)).processed = s.processed := List.append_nil _
    rw [hp]
    have hstat : (s.process (.foundSolution info)).statistic =
        { s.statistic with minFlipsToSolve := min s.statistic.minFlipsToSolve info.numFlipsDone } := rfl
    rw [hstat, h]
  | disconnect =>
    have hp : (s.process .disconnect).processed = s.processed := List.append_nil _
    rw [hp]
    exact h
  | sendStatistics metadata stat =>
    have hp : (s.process (.sendStatistics metadata stat)).processed = s.processed ++ [(s.statistic, stat)] := rfl
    rw [hp, List.map_append, List.map_singleton, CompleteStatistic.ofAll_snoc]
    show s.statistic.processS2mSendStatistics stat = _
    rw [h]
    rfl

theorem Combined.foldl (h : s.Combined) (msgs : List S2M) : (msgs.foldl Averaging.process s).Combined := by
  induction msgs generalizing s with
  | nil => exact h
  | cons msg rest ih => exact ih (h.process msg)

/-- What was reported is in the table of the server or in the statistics it has sent, and these are with the manager or
on their way to it. -/
structure Totalled (s : Averaging) : Prop where
  addsUp : s.cluster.server.server.AddsUp s.collected
  channel : (s.processed.map fun r => r.2) ++ sentStatistics s.cluster.toManager =
    sentStatistics s.cluster.server.server.toManager
  combined : s.Combined

theorem Totalled.start : Totalled {} where
  addsUp := ⟨fun _ => ⟨.start, rfl⟩, fun h => by cases h⟩
  channel := rfl
  combined := rfl

theorem Totalled.step (h : s.Totalled) (hs : s.step numWorkers a = some s') : s'.Totalled := by
  obtain ⟨c, hc, rfl⟩ := Option.map_eq_some_iff.1 hs
  obtain ⟨hcluster, hcollected⟩ := foldl_process_frame (received s.cluster.toManager c.toManager) { s with
    cluster := c
    collected := s.collected ++
      if s.cluster.server.server.statisticSend then [] else ((s.cluster.polled a).map W2S.reports).getD [] }
  obtain ⟨sent, hchannel, hlog⟩ := Cluster.step_forwards hc
  have hcombined : Combined { s with
      cluster := c
      collected := s.collected ++
        if s.cluster.server.server.statisticSend then [] else ((s.cluster.polled a).map W2S.reports).getD [] } :=
          h.combined
  refine ⟨?_, ?_, hcombined.foldl _⟩
  · rw [hcluster, hcollected]
    rcases Cluster.step_statistics hc with ⟨info, hpolled, -, hbooks⟩ | ⟨hnone, hadds⟩
    · rw [hpolled]
      exact h.addsUp.book hbooks
    · rw [hnone, ite_self, List.append_nil]
      exact h.addsUp.addTasks hadds
  · rw [hcluster, processed_foldl, hlog, ← h.channel, List.append_assoc, ← sentStatistics_append, ← hchannel,
      sentStatistics_append, List.append_assoc]

/-- In every run the reports are added up, and each of them is about one instance. -/
theorem totalled {ok : List Action → Averaging → Action → Prop} (h : Traced (Averaging.step numWorkers) ok [] {} as s) :
    s.Totalled ∧ ∀ info ∈ s.collected, info.instancesProcessed = 1 := by
  have hboth : s.Totalled ∧ s.Attributed fun _ _ => True := by
    refine h.invariant (P := fun _ s => s.Totalled ∧ s.Attributed fun _ _ => True) ⟨.start, .start⟩ ?_
    rintro _ s a s' _ ⟨ht, hat⟩ _ hs
    exact ⟨ht.step hs, hat.step (fun _ _ _ _ _ _ _ _ => trivial) hs⟩
  refine ⟨hboth.1, ?_⟩
  intro info hinfo
  obtain ⟨t, ⟨pim, taskId, measured, -, -, rfl⟩, rfl⟩ := hboth.2.collected info hinfo
  rfl

/-- The total of a quantity of the collected reports. -/
def total (s : Averaging) (reported : DoneProcessingInfo → Nat) : Nat := (s.collected.map reported).sum

/-- The server has sent the statistics, and the manager has received them. -/
structure Received (s : Averaging) : Prop where
  sent : s.cluster.server.server.statisticSend = true
  all : sentStatistics s.cluster.toManager = []

/-- Then the statistic is that of the rows of started tasks. -/
theorem Totalled.rows (h : s.Totalled) (hall : s.Received) : ∃ table, AddedUp s.collected table ∧
    s.statistic = { CompleteStatistic.ofAll (table.filter fun st => decide (0 < st.numInstancesStarted)) with
      minFlipsToSolve := s.statistic.minFlipsToSolve } := by
  obtain ⟨table, hrows, hsent⟩ := h.addsUp.sent hall.sent
  have hchannel := h.channel
  rw [hall.all, List.append_nil, hsent] at hchannel
  refine ⟨table, hrows, ?_⟩
  rw [← hchannel]
  exact h.combined

/-- The flips of all instances of the task together. -/
def taskFlips (s : Averaging) (taskId : UInt32) : Nat :=
  ((ofTask s.collected taskId.toNat).map fun info => info.numFlipsDone.toNat).sum

/-- What `read` makes of the file with this number. -/
def inputOf (files : String → Text) (s : Averaging) (taskId : UInt32) : Option Input :=
  s.cluster.server.server.files[taskId.toNat]?.bind fun pim => (read (files pim.filename)).toOption

/-- Its variables, and its clauses as a `num_t` counts them. -/
def variablesOf (files : String → Text) (s : Averaging) (taskId : UInt32) : Nat :=
  ((inputOf files s taskId).map fun r => r.numVars.toNat).getD 0

def clausesOf (files : String → Text) (s : Averaging) (taskId : UInt32) : Nat :=
  ((inputOf files s taskId).map fun r => (numT r.clauses.length).toNat).getD 0

/-- The mean, over the instances reported, of the flips of all instances of the same task for each unit of its size. -/
def meanFlips (size : UInt32 → Nat) (s : Averaging) : ℚ :=
  (s.collected.map fun info => (s.taskFlips info.taskId : ℚ) / size info.taskId).sum / s.collected.length

end Averaging

section Sizes

variable {K : Type} [Zero K] [Add K] [LT K] [DecidableLT K] {calcF : Int → K} {files : String → Text}

/-- An execution measures the size of the file's formula. -/
theorem Measures.size {t : Task} {measured : DoneProcessingInfo} (h : Measures calcF files t measured) {r : Input}
    (hr : read (files t.name) = .ok r) :
    measured.numVars = .ofInt r.numVars ∧ measured.numClauses = .ofInt (numT r.clauses.length) ∧
      0 ≤ numT r.clauses.length := by
  obtain ⟨x, calls, h⟩ := h
  obtain ⟨obj, solver, hcall, hnonneg, -, -, rfl⟩ := Task.outcome_done h
  have hobj := FormulaObject.after_read hr calls
  rw [FormulaObject.after, hcall] at hobj
  have hclauses : obj.toFormula.numClauses = r.clauses.length :=
    congrArg (fun l : List Clause => (l.length : Int)) hobj.1
  have hvars : obj.toFormula.numVars = r.numVars := hobj.2
  rw [← hvars, ← hclauses]
  exact ⟨rfl, rfl, hnonneg⟩

theorem toNat_ofInt {x : Int} (h0 : 0 ≤ x) (h : x < 2 ^ 64) : (UInt64.ofInt x).toNat = x.toNat := by
  unfold UInt64.ofInt
  rw [UInt64.toNat_ofNat', Int.emod_eq_of_lt h0 h]
  exact Nat.mod_eq_of_lt (by omega)

namespace Averaging

variable {numWorkers : Comm → UInt32} {s : Averaging} {as : List Action}

theorem FileRun.sizes (hfiles : ∀ name, ∃ r, read (files name) = .ok r) (h : FileRun numWorkers calcF files as s)
    {info : DoneProcessingInfo} (hinfo : info ∈ s.collected) (hf : 0 < info.numFlipsDone) :
    0 < info.numVars ∧ 0 < info.numClauses ∧ info.numVars.toNat = s.variablesOf files info.taskId ∧
      info.numClauses.toNat = s.clausesOf files info.taskId := by
  obtain ⟨t, ⟨pim, taskId, measured, ha, hm, rfl⟩, rfl⟩ := h.attributed.collected info hinfo
  obtain ⟨r, hr⟩ := hfiles pim.filename
  obtain ⟨x, calls, hx⟩ := id hm
  obtain ⟨hv, hc⟩ := Task.outcome_sized (t := .new pim taskId) hr hx hf
  obtain ⟨hvars, hclauses, hnonneg⟩ := hm.size hr
  have hinput : s.inputOf files taskId = some r := by
    unfold inputOf
    rw [ha, Option.bind_some, hr]
    rfl
  have hread := read_ok hr
  have hsize := hread.size
  have hmax := hread.vars
  unfold numMax at hmax
  have hlt := numT_lt r.clauses.length
  refine ⟨hv, hc, ?_, ?_⟩
  · show measured.numVars.toNat = s.variablesOf files taskId
    unfold variablesOf
    rw [hinput, hvars, toNat_ofInt (by omega) (by omega), Option.map_some, Option.getD_some]
  · show measured.numClauses.toNat = s.clausesOf files taskId
    unfold clausesOf
    rw [hinput, hclauses, toNat_ofInt hnonneg (by omega), Option.map_some, Option.getD_some]

/-- The mean of the averages of the tasks, weighted with their instances, is the mean over the instances. -/
theorem weightedMean_rows {table : List ProblemInstanceStatistics} (hrows : AddedUp s.collected table)
    (hone : ∀ info ∈ s.collected, info.instancesProcessed = 1) (hroom : s.collected.length < 2 ^ 64)
    (hfits : s.total (fun info => info.numFlipsDone.toNat) < 2 ^ 64) {size : ProblemInstanceStatistics → UInt64}
    {sizeOf : UInt32 → Nat}
    (hsize : ∀ p st info, table[p]? = some st → info ∈ ofTask s.collected p → (size st).toNat = sizeOf info.taskId) :
    CompleteStatistic.weightedMean (fun st => st.totalNumFlips.toNat / (size st).toNat)
      (table.filter fun st => decide (0 < st.numInstancesStarted)) = s.meanFlips sizeOf := by
  unfold CompleteStatistic.weightedMean meanFlips
  rw [hrows.total_started hone hroom, sum_map_filter_of_zero, sum_map_groups hrows.known]
  · intro p st hp
    -- all reports of the task have the same share
    have hshare : ∀ info ∈ ofTask s.collected p, (s.taskFlips info.taskId : ℚ) / sizeOf info.taskId =
        st.totalNumFlips.toNat / (size st).toNat := by
      intro info hinfo
      have hid : info.taskId.toNat = p := by simpa using (List.mem_filter.1 hinfo).2
      have hrow := hrows.row adds_flips hfits hp
      unfold taskFlips
      rw [hid, hrow, hsize p st info hp hinfo]
    have hstarted := hrows.row_started hone hroom hp
    change _ = ((ofTask s.collected p).map fun info => (s.taskFlips info.taskId : ℚ) / sizeOf info.taskId).sum
    rw [hstarted, List.map_congr_left hshare, List.map_const', List.sum_replicate, nsmul_eq_mul, mul_comm]
  · intro st hst h0
    obtain ⟨p, hp⟩ := List.mem_iff_getElem?.1 hst
    rw [hrows.row_started hone hroom hp, hrows.ofTask_of_unstarted hone hroom hp h0]
    exact mul_zero _

/-- Without a 0 among the divisors, the averages of the manager in the end are means over the instances, when they are
computed exactly. A 64 bit counter has to have room for the reports, as it has for those about at most 2^32 files
(`collected_lt`). -/
theorem averages_weighted (numWorkers : Comm → UInt32) (calcF : Int → K) (files : String → Text)
    (hfiles : ∀ name, ∃ r, read (files name) = .ok r) (as : List Action) (s : Averaging)
    (h : FileRun numWorkers calcF files as s) (hroom : s.collected.length < 2 ^ 64) (hall : s.Received)
    (hflips : EachFlips s.collected) (hfits : s.total (fun info => info.numFlipsDone.toNat) < 2 ^ 64) :
    s.statistic.avgFlipsPerVar = some (s.meanFlips (s.variablesOf files)) ∧
      s.statistic.avgFlipsPerClause = some (s.meanFlips (s.clausesOf files)) := by
  obtain ⟨htotalled, hone⟩ := totalled h
  obtain ⟨table, hrows, hstat⟩ := htotalled.rows hall
  have hsum : ((table.filter fun st => decide (0 < st.numInstancesStarted)).map fun st =>
      st.numInstancesStarted.toNat).sum < 2 ^ 64 := by
    rw [hrows.total_started hone hroom]
    exact hroom
  -- a row has the size of the file, since an instance has reported a flip
  have hnoted : ∀ p st info, table[p]? = some st → info ∈ ofTask s.collected p → 0 < st.numVars ∧ 0 < st.numClauses ∧
      st.numVars.toNat = s.variablesOf files info.taskId ∧ st.numClauses.toNat = s.clausesOf files info.taskId := by
    intro p st info hp hinfo
    obtain ⟨hin, hid⟩ := List.mem_filter.1 hinfo
    replace hid : info.taskId.toNat = p := by simpa using hid
    obtain ⟨info', hin', hid', hf'⟩ := hflips info hin
    obtain ⟨info₁, hin₁, hid₁, hf₁, hv, hc⟩ := hrows.sized p st hp ⟨info', hin', by rw [hid', hid], hf'⟩
    have hsame : info₁.taskId = info.taskId := UInt32.toNat_inj.1 (hid₁.trans hid.symm)
    rw [hv, hc, ← hsame]
    exact h.sizes hfiles hin₁ hf₁
  have hstarted : ∀ st ∈ table.filter fun st => decide (0 < st.numInstancesStarted),
      st.numVars ≠ 0 ∧ st.numClauses ≠ 0 ∧ st.numInstancesStarted ≠ 0 := by
    intro st hst
    obtain ⟨hin, hpos⟩ := List.mem_filter.1 hst
    obtain ⟨p, hp⟩ := List.mem_iff_getElem?.1 hin
    have hne : ofTask s.collected p ≠ [] := by
      intro hnil
      have hstarted := hrows.row_started hone hroom hp
      rw [decide_eq_true_eq, UInt64.lt_iff_toNat_lt, hstarted, hnil] at hpos
      exact absurd hpos (by decide)
    obtain ⟨info, hinfo⟩ := List.exists_mem_of_ne_nil _ hne
    obtain ⟨hv, hc, -⟩ := hnoted p st info hp hinfo
    exact ⟨UInt64.pos_iff_ne_zero.1 hv, UInt64.pos_iff_ne_zero.1 hc, UInt64.pos_iff_ne_zero.1 (of_decide_eq_true hpos)⟩
  rw [hstat]
  constructor
  · rw [← weightedMean_rows hrows hone hroom hfits fun p st info hp hinfo => (hnoted p st info hp hinfo).2.2.1]
    exact CompleteStatistic.ofAll_average (fun x => x.avgFlipsPerVar) (fun st => st.numVars) rfl
      (fun _ _ => rfl) _ hsum fun st hst =>
      ⟨(hstarted st hst).1, (hstarted st hst).2.2⟩
  · rw [← weightedMean_rows hrows hone hroom hfits fun p st info hp hinfo => (hnoted p st info hp hinfo).2.2.2]
    exact CompleteStatistic.ofAll_average (fun x => x.avgFlipsPerClause) (fun st => st.numClauses) rfl
      (fun _ _ => rfl) _ hsum fun st hst =>
      ⟨(hstarted st hst).2.1, (hstarted st hst).2.2⟩

theorem averages_weighted_teamRun : ∃ s, FileRun (fun _ => 2) (fun _ => (1 : ℚ)) teamFiles teamRun s ∧
    s.Received ∧ s.statistic.avgFlipsPerVar = some (s.meanFlips (s.variablesOf teamFiles)) := by
  obtain ⟨s, h, -, hcollected, -, hsend, hempty, -⟩ := exists_teamRun
  have hroom : s.collected.length < 2 ^ 64 := by
    rw [hcollected]
    decide
  have hflips : EachFlips s.collected := by
    rw [hcollected]
    exact teamCollected_eachFlips
  have hfits : s.total (fun info => info.numFlipsDone.toNat) < 2 ^ 64 := by
    unfold total
    rw [hcollected]
    decide
  exact ⟨s, h, ⟨hsend, hempty⟩, (averages_weighted (fun _ => 2) (fun _ => (1 : ℚ)) teamFiles read_teamFiles teamRun s h
    hroom ⟨hsend, hempty⟩ hflips hfits).1⟩

end Averaging

end Sizes

end ParallelProbsat.Communication
