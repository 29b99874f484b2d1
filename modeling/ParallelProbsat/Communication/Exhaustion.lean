/-
What it means that the server sends the statistics without a solution: of every file that limits its start assignments
as many were tried as it asks for, and each of them made all its flips.

A worker stops only when it is told to, and it is told only when the server terminates its workers. So until then every
execution reads `running` as true.
-/
import ParallelProbsat.Communication.Files
import ParallelProbsat.Communication.Solutions

namespace ParallelProbsat.Communication

open ParallelProbsat.Lib ParallelProbsat.Util ParallelProbsat.Sat

/-! ## Workers that go on -/

/-- The worker was not told to stop, and is not going to be. -/
structure Worker.GoesOn (w : Worker) : Prop where
  running : w.running = true
  inbox : .terminate ∉ w.inbox

namespace Worker

variable {w w' : Worker}

theorem GoesOn.of_eq (h : w.GoesOn) (hr : w'.running = w.running) (hin : w'.inbox = w.inbox) : w'.GoesOn where
  running := hr.trans h.running
  inbox := by
    rw [hin]
    exact h.inbox

theorem GoesOn.returnTask {t : Task} {rest : List Task} {thrown : Worker → Worker} (h : w.GoesOn)
    (hthrown : ∀ w₁ : Worker, (thrown w₁).running = w₁.running ∧ (thrown w₁).inbox = w₁.inbox) :
    (w.returnTask t rest thrown).GoesOn := by
  have hann : (announce t { w with tasksDone := rest }).GoesOn := by
    unfold announce
    split <;> exact h.of_eq rfl rfl
  unfold Worker.returnTask
  simp only
  split
  · obtain ⟨hr, hin⟩ := hthrown { announce t { w with tasksDone := rest } with
      dropped := (announce t { w with tasksDone := rest }).dropped ++ [t.number] }
    exact hann.of_eq hr hin
  · exact hann.of_eq rfl rfl

theorem GoesOn.receive (h : w.GoesOn) (hs : w.receive = some w') : w'.GoesOn := by
  have hr := h.running
  have hin := h.inbox
  unfold Worker.receive at hs
  split at hs
  · cases hs
  · rename_i msg rest hbox
    rw [hbox, List.mem_cons, not_or] at hin
    obtain ⟨hmsg, hrest⟩ := hin
    simp only at hs
    cases msg with
    | activateWorker =>
      simp only at hs
      split at hs <;> cases hs <;> exact ⟨hr, hrest⟩
    | terminate => exact absurd rfl hmsg
    | sendInstances jobs =>
      simp only at hs
      split at hs <;> cases hs <;> exact ⟨hr, hrest⟩

theorem GoesOn.mainStep {ok : Bool} {instancesToGet : UInt32} (h : w.GoesOn)
    (hs : w.mainStep ok instancesToGet = some w') : w'.GoesOn := by
  unfold Worker.mainStep at hs
  split at hs
  · exact h.receive hs
  · split at hs
    · split at hs <;> cases hs
      · exact h.of_eq rfl rfl
      · exact h.returnTask fun _ => ⟨rfl, rfl⟩
    · cases hs
      exact h.of_eq rfl rfl
  · -- a probe cannot show what is not there
    split at hs <;> cases hs
    · rename_i hbox
      exact absurd (by rw [hbox]; exact List.mem_cons_self) h.inbox
    · exact h.of_eq rfl rfl
    · exact h.of_eq rfl rfl
  · split at hs <;> cases hs <;> exact h.of_eq rfl rfl
  · exact h.receive hs
  · cases hs
    exact h.of_eq rfl rfl
  · cases hs
    unfold createTasks
    split <;> exact h.of_eq rfl rfl
  · split at hs <;> cases hs
    exact h.of_eq rfl rfl
  · split at hs <;> cases hs
    · exact h.of_eq rfl rfl
    · exact h.returnTask fun _ => ⟨rfl, rfl⟩
  · cases hs
  · cases hs

theorem GoesOn.works {i : Nat} (h : w.GoesOn) (hs : w.Works i w') : w'.GoesOn := by
  cases hs <;> exact h.of_eq rfl rfl

end Worker

namespace Server

variable {s s' : Server} {e : Event}

/-- The workers are told to stop only by a server that notes it. -/
theorem Handles.goesOn (h : s.Handles e s') (hterm : s'.terminatedWorkers = false) : s.terminatedWorkers = false ∧
    ∃ messages, s'.toWorkers = s.toWorkers ++ messages ∧ ∀ m ∈ messages, m.2 ≠ .terminate := by
  have hset : ∀ {s₁ s₂ : Server}, s₁.sendTerminationToWorkers = .ok s₂ → s₂.terminatedWorkers = true := by
    intro s₁ s₂ hs
    rw [sendTerminationToWorkers_frame hs]
  cases h with
  | noWorker | noManager => exact ⟨hterm, [], (List.append_nil _).symm, nofun⟩
  | addFile data =>
    rw [processM2sAddFile_eq] at hterm ⊢
    refine ⟨hterm, _, rfl, ?_⟩
    intro m hm
    split at hm
    · obtain ⟨comm, -, rfl⟩ := List.mem_map.1 hm
      simp
    · cases hm
  | addWorkers hs =>
    obtain ⟨workers, -, rfl⟩ := processM2sAddWorkers_ok hs
    refine ⟨hterm, _, rfl, ?_⟩
    intro m hm
    split at hm
    · obtain ⟨comm, -, rfl⟩ := List.mem_map.1 hm
      simp
    · cases hm
  | terminate hs =>
    rw [hset hs] at hterm
    cases hterm
  | foundSolution _ hs =>
    obtain ⟨s₁, h1, rfl⟩ := processW2sFoundSolution_ok hs
    rw [show (s₁.report _).terminatedWorkers = s₁.terminatedWorkers from rfl, hset h1] at hterm
    cases hterm
  | doneProcessing _ hs =>
    obtain ⟨s₁, hframe, -, -, ⟨reports, hf⟩ | ⟨-, rfl⟩⟩ := processW2sDoneProcessing_settles hs
    · rw [hset hf] at hterm
      cases hterm
    · rw [hframe] at hterm ⊢
      exact ⟨hterm, [], (List.append_nil _).symm, nofun⟩
  | getInstances _ hs =>
    obtain ⟨s₁, reply, rfl, ⟨-, h1⟩ | ⟨-, rfl, rfl⟩⟩ := processW2sGetInstances_ok hs
    · rw [(assignLoop_frame h1).1] at hterm ⊢
      refine ⟨hterm, _, rfl, ?_⟩
      simp
    · refine ⟨hterm, _, rfl, ?_⟩
      simp
  | disconnect =>
    rw [processW2sDisconnect_eq] at hterm ⊢
    exact ⟨hterm, [], (List.append_nil _).symm, nofun⟩

end Server

namespace Cluster

variable {numWorkers : Comm → UInt32} {c c' : Cluster} {a : Action}

/-- Until the server terminates its workers, all of them go on. -/
def GoesOn (c : Cluster) : Prop := c.server.server.terminatedWorkers = false → ∀ w ∈ c.workers, w.GoesOn

theorem GoesOn.serve {c₁ : Cluster} {e : Event} (hc : c₁.GoesOn) (he : c₁.serve numWorkers e = some c') :
    c'.GoesOn := by
  obtain ⟨hh, hw⟩ := serve_some he
  intro hterm
  obtain ⟨hterm₁, messages, hsent, hnone⟩ := hh.goesOn hterm
  rw [hsent, List.drop_left] at hw
  intro w' hw'
  rw [hw] at hw'
  obtain ⟨w, hin, ms, hms, rfl⟩ := mem_deliver_sent (P := fun msg => msg ≠ .terminate) hnone hw'
  have hgo : w.GoesOn := by
    rcases List.mem_append.1 hin with hin | hin
    · exact hc hterm₁ w hin
    · obtain ⟨comm, -, rfl⟩ := List.mem_map.1 hin
      exact ⟨rfl, List.not_mem_nil⟩
  constructor
  · exact hgo.running
  · intro hmem
    rcases List.mem_append.1 hmem with hmem | hmem
    · exact hgo.inbox hmem
    · exact hms _ hmem rfl

theorem GoesOn.step (h : c.GoesOn) (hs : c.step numWorkers a = some c') : c'.GoesOn := by
  cases step_advances hs with
  | quiet hserver hw =>
    unfold GoesOn
    rw [hserver, hw]
    exact h
  | @serves _ e c₁ _ hserver hw _ he =>
    have h₁ : c₁.GoesOn := by
      unfold GoesOn
      rw [hserver, hw]
      exact h
    exact h₁.serve he
  | @receives index comm w msg rest _ _ hw ho he =>
    have h₁ : (c.received comm rest).GoesOn := by
      intro hterm w₁ hw₁
      obtain ⟨p, hp⟩ := List.mem_iff_getElem?.1 hw₁
      rcases mem_received hw hp with ⟨-, rfl⟩ | ⟨-, hp⟩
      · exact (h hterm w (List.mem_of_getElem? hw)).of_eq rfl rfl
      · exact h hterm w₁ (List.mem_of_getElem? hp)
    exact h₁.serve he
  | mains hw hm =>
    intro hterm
    rw [hw.server] at hterm
    exact hw.mem (h hterm) ((h hterm _ (List.mem_of_getElem? hw.found)).mainStep hm)
  | threads hw ht =>
    intro hterm
    rw [hw.server] at hterm
    exact hw.mem (h hterm) ((h hterm _ (List.mem_of_getElem? hw.found)).works (Worker.threadStep_works ht).2)

theorem step_terminated (hs : c.step numWorkers a = some c') (hterm : c'.server.server.terminatedWorkers = false) :
    c.server.server.terminatedWorkers = false := by
  cases step_advances hs with
  | quiet hserver => rwa [hserver] at hterm
  | serves hserver _ _ he =>
    rw [← hserver]
    exact ((serve_some he).1.goesOn hterm).1
  | receives _ _ _ he => exact ((serve_some he).1.goesOn hterm).1
  | mains hw => rwa [hw.server] at hterm
  | threads hw => rwa [hw.server] at hterm

/-- The server sends the statistics when it has received a report of an instance that was handed out. -/
theorem Handed.finishes {es : List Event} (h : c.Handed es) (hs : c.step numWorkers a = some c')
    (hunsent : c.server.server.statisticSend = false) (hsent : c'.server.server.statisticSend = true) :
    ∃ index info, ReportsHanded es c.server (.pollWorkers (some (index, .doneProcessing info))) ∧
      c.server.server.processW2sDoneProcessing info = .ok c'.server.server ∧
        c.polled a = some (.doneProcessing info) := by
  have hadds : ¬ Server.AddsTasks c.server.server c'.server.server := by
    intro hadds
    rw [hadds.sent, hunsent] at hsent
    cases hsent
  rcases step_statistics hs with ⟨info, hpolled, -⟩ | ⟨-, hno⟩
  · by_cases ha : ∃ index, a = .serverPollsWorkers (some index)
    · obtain ⟨index, rfl⟩ := ha
      obtain ⟨comm, w, msg, rest, hnext, hw, ho, he⟩ := step_receives hs
      obtain rfl : msg = .doneProcessing info := Option.some.inj (hnext.symm.trans hpolled)
      have hreports : ReportsHanded es c.server (.pollWorkers (some (index, .doneProcessing info))) := h.reports hw ho
      cases (serve_some he).1 with
      | doneProcessing _ hp => exact ⟨index, info, hreports, hp, hpolled⟩
    · rw [polled_eq_none fun index he => ha ⟨index, he⟩] at hpolled
      cases hpolled
  · exact absurd hno hadds

/-- The server knows of the solutions it has told. -/
def Knows (c : Cluster) : Prop := ∀ sol, c.Told sol → c.server.server.solutionFound = true

theorem Knows.step (h : c.Knows) (hs : c.step numWorkers a = some c') : c'.Knows := by
  have hserve : ∀ {c₁ : Cluster} {e : Event}, c₁.server = c.server → c₁.serve numWorkers e = some c' → c'.Knows := by
    intro c₁ e hserver he sol hsol
    have hh := (serve_some he).1
    rw [hserver] at hh
    rcases hh.tells hsol with hold | ⟨index, rfl⟩
    · exact hh.solutionFound (h sol hold)
    · cases hh with
      | foundSolution _ hf =>
        obtain ⟨s₁, h1, hs₁⟩ := Server.processW2sFoundSolution_ok hf
        rw [hs₁, Server.sendTerminationToWorkers_frame h1]
        rfl
  have hsame : c'.server = c.server → c'.Knows := by
    intro hserver
    unfold Knows Told
    rw [hserver]
    exact h
  cases step_advances hs with
  | quiet hserver => exact hsame hserver
  | serves hserver _ _ he => exact hserve hserver he
  | @receives _ comm _ _ rest _ _ _ _ he =>
    have hserver : (c.received comm rest).server = c.server := rfl
    exact hserve hserver he
  | mains hw => exact hsame hw.server
  | threads hw => exact hsame hw.server

end Cluster

/-! ## Executions that are not cut short -/

section Executions

variable {K : Type} [Zero K] [Add K] [LT K] [DecidableLT K] {calcF : Int → K} {files : String → Text}

/-- The solving loop that is never told to stop ends with a solution or at the limit. -/
theorem solve_whole (F : CnfFormula) (calcF : Int → K) {x : Circumstances K} (hx : ∀ k, x.running k = true)
    (maxFlips : Nat) :
    ∀ (fuel : Nat) {s solver : SerialInstance}, solve F calcF x maxFlips fuel s = some solver →
      solver.foundSolution = false → maxFlips ≤ solver.getNumFlips := by
  intro fuel
  induction fuel with
  | zero =>
    intro s solver h
    cases h
  | succ fuel ih =>
    intro s solver h hno
    unfold solve at h
    split at h
    · rename_i hfound
      cases h
      rw [hno] at hfound
      cases hfound
    · simp only [hx, Bool.true_eq_false, if_false] at h
      split at h
      · rename_i hle
        cases h
        exact hle
      · exact ih h hno

/-- An execution that reads `running` as true all the time can measure this. -/
def MeasuresWhole (calcF : Int → K) (files : String → Text) (t : Task) (measured : DoneProcessingInfo) : Prop :=
  ∃ x calls, (∀ k, x.running k = true) ∧ t.outcome calcF x (files t.name) calls = some (.done measured)

theorem Task.new_maxFlips_pos (pim : ProblemInstanceMetadata) (taskId : UInt32) :
    0 < (Task.new pim taskId).maxFlips.toNat := by
  unfold Task.new
  simp only
  split
  · rename_i hne
    rw [UInt32.toNat_toUInt64, Nat.pos_iff_ne_zero]
    intro h0
    exact hne (UInt32.toNat_inj.1 h0)
  · decide

/-- Without a solution it makes all its flips. -/
theorem MeasuresWhole.flips {t : Task} {measured : DoneProcessingInfo} (h : MeasuresWhole calcF files t measured)
    (ht : 0 < t.maxFlips.toNat) (hno : measured.solved = false) : measured.numFlipsDone = t.maxFlips := by
  obtain ⟨x, calls, hx, ho⟩ := h
  obtain ⟨obj, solver, -, -, hsolve, -, rfl⟩ := Task.outcome_done ho
  have hfound : solver.foundSolution = false := (Bool.or_eq_false_iff.1 hno).2
  have hle := solve_whole _ calcF hx _ _ hsolve hfound
  obtain ⟨-, -, hmax⟩ := solve_flips _ _ _ _ _ hsolve
  rw [SerialInstance.new_numFlips, zero_add] at hmax
  have heq : solver.getNumFlips = t.maxFlips.toNat := by omega
  show UInt64.ofNat solver.getNumFlips = t.maxFlips
  rw [heq, UInt64.ofNat_toNat]

namespace Averaging

variable {numWorkers : Comm → UInt32} {s s' : Averaging} {as : List Action} {a : Action}

/-- A thread that executes a task ends the execution as the solver does on the file of the task, or runs out of memory.
What it reads of `running` is what its worker has: as long as the worker goes on, it was true all the time. -/
def Watched (calcF : Int → K) (files : String → Text) (_ : List Action) (s : Averaging) : Action → Prop
  | .workerThread comm i outcome => ∀ w t, s.cluster.workers[comm]? = some w → w.threads[i]? = some (.executing t) →
      outcome = .failed ∨ ∃ x calls, (w.running = true → ∀ k, x.running k = true) ∧
        t.outcome calcF x (files t.name) calls = some outcome
  | _ => True

/-- The runs of the system on these files, in which `running` is read. -/
abbrev WatchedRun (numWorkers : Comm → UInt32) (calcF : Int → K) (files : String → Text) (as : List Action)
    (s : Averaging) :
    Prop :=
  Traced (Averaging.step numWorkers) (Watched calcF files) [] {} as s

/-- Until the workers are terminated, all reports come from executions that were not cut short. -/
structure Whole (calcF : Int → K) (files : String → Text) (s : Averaging) : Prop where
  goesOn : s.cluster.GoesOn
  attributed : s.cluster.server.server.terminatedWorkers = false → s.Attributed (MeasuresWhole calcF files)

theorem Whole.start : Whole calcF files {} where
  goesOn _ w h := by cases h
  attributed _ := .start

theorem Whole.step (h : s.Whole calcF files) (hok : Watched calcF files as s a) (hs : s.step numWorkers a = some s') :
    s'.Whole calcF files := by
  obtain ⟨c, hc, hs'⟩ := Option.map_eq_some_iff.1 hs
  have hcluster : s'.cluster = c := by
    rw [← hs']
    exact (foldl_process_frame _ _).1
  constructor
  · rw [hcluster]
    exact h.goesOn.step hc
  · intro hterm
    rw [hcluster] at hterm
    have hterm₁ := Cluster.step_terminated hc hterm
    refine (h.attributed hterm₁).step ?_ hs
    rintro comm i measured w t rfl hw ht
    obtain ⟨x, calls, hx, ho⟩ := (hok w t hw ht).resolve_left (by simp)
    exact ⟨x, calls, hx (h.goesOn hterm₁ w (List.mem_of_getElem? hw)).running, ho⟩

theorem WatchedRun.whole (h : WatchedRun numWorkers calcF files as s) : s.Whole calcF files := by
  refine h.invariant (P := fun _ s => s.Whole calcF files) .start ?_
  intro _ _ _ _ _ ih hok hs
  exact ih.step hok hs

theorem handed_of_runs {ok : List Action → Averaging → Action → Prop}
    (h : Traced (Averaging.step numWorkers) ok [] {} as s) :
    ∃ es, s.cluster.Handed es := by
  refine h.invariant (P := fun _ s => ∃ es, s.cluster.Handed es) ⟨[], .start⟩ ?_
  rintro _ s a s' _ ⟨es, hes⟩ _ hs
  obtain ⟨c, hc, rfl⟩ := Option.map_eq_some_iff.1 hs
  obtain ⟨new, hnew, -⟩ := hes.step hc
  refine ⟨es ++ new, ?_⟩
  rw [(foldl_process_frame _ _).1]
  exact hnew

theorem knows_of_runs {ok : List Action → Averaging → Action → Prop}
    (h : Traced (Averaging.step numWorkers) ok [] {} as s) :
    s.cluster.Knows := by
  refine h.invariant (P := fun _ s => s.cluster.Knows) ?_ ?_
  · intro sol hsol
    cases hsol
  · intro _ s a s' _ ih _ hs
    obtain ⟨c, hc, rfl⟩ := Option.map_eq_some_iff.1 hs
    rw [(foldl_process_frame _ _).1]
    exact ih.step hc

/-- In every run with at most 2^32 files, when the server sends the statistics without a solution, then for every file
that limits its start assignments as many reports are collected as it asks for, and none of them is about a solved
instance. Unless the manager has terminated the workers before, each of them comes from an execution of the solver that
made all the flips of the file. -/
theorem search_exhaustive (numWorkers : Comm → UInt32) (calcF : Int → K) (files : String → Text) (as : List Action)
    (s s' : Averaging) (a : Action) (h : WatchedRun numWorkers calcF files as s) (hok : Watched calcF files as s a)
    (hs : s.step numWorkers a = some s') (ha : s'.cluster.server.server.Addressable)
    (hunsent : s.cluster.server.server.statisticSend = false) (hsent : s'.cluster.server.server.statisticSend = true)
    (hnone : s'.cluster.server.server.solutionFound = false) (p : Nat) (t : TaskInfo)
    (ht : s'.cluster.server.server.availableTasks[p]? = some t) (hlimited : t.metadata.anzahlStartbelegungen ≠ 0) :
    (ofTask s'.collected p).length = t.metadata.anzahlStartbelegungen.toNat ∧
      ∀ info ∈ ofTask s'.collected p, info.solved = false ∧
        (s.cluster.server.server.terminatedWorkers = false →
          info.numFlipsDone = (Task.new t.metadata info.taskId).maxFlips ∧
            ∃ measured, MeasuresWhole calcF files (.new t.metadata info.taskId) measured ∧
              info = { measured with taskId := info.taskId, instancesProcessed := 1 }) := by
  have hrun : WatchedRun numWorkers calcF files (as ++ [a]) s' := h.snoc hok hs
  have hroom := collected_lt hrun ha
  have hone := (totalled hrun).2
  have hsolved : ∀ info ∈ s'.collected, info.solved = false := by
    intro info hinfo
    rw [Bool.eq_false_iff]
    intro hsol
    obtain ⟨sol, -, htold, -⟩ := (tells_of_runs hrun hroom).collected info hinfo hsol
    have hfound := knows_of_runs hrun sol htold
    rw [hnone] at hfound
    cases hfound
  obtain ⟨c, hc, hs'⟩ := Option.map_eq_some_iff.1 hs
  obtain ⟨hcluster, hcollected⟩ := foldl_process_frame (received s.cluster.toManager c.toManager) { s with
    cluster := c
    collected := s.collected ++
      if s.cluster.server.server.statisticSend then [] else ((s.cluster.polled a).map W2S.reports).getD [] }
  rw [hs'] at hcluster hcollected
  replace hcluster : s'.cluster = c := hcluster
  rw [hcluster] at ha hsent hnone ht
  obtain ⟨es, hes⟩ := handed_of_runs h
  obtain ⟨index, info, hreports, hdone, hpolled⟩ := hes.finishes hc hunsent hsent
  rw [hunsent, hpolled] at hcollected
  replace hcollected : s'.collected = s.collected ++ [info] := hcollected
  constructor
  · have haddressable : s.cluster.server.server.Addressable := by
      have hle := (Cluster.step_files hc).length_le
      unfold Server.files at hle
      rw [List.length_map, List.length_map] at hle
      exact hle.trans ha
    obtain ⟨hstarted, -⟩ := hes.served.scheduling.report_statistics haddressable hreports hdone hunsent hsent hnone t
      (List.mem_of_getElem? ht) hlimited
    have hrows := (totalled h).1.addsUp.booked (.doneProcessing hdone) hunsent
    rw [← hcollected] at hrows
    have hrow : c.server.server.statistics[p]? = some t.statistics := by
      unfold Server.statistics
      rw [List.getElem?_map, ht]
      rfl
    rw [← hrows.row_started hone hroom hrow, hstarted]
  · intro info' hinfo'
    obtain ⟨hin, hid⟩ := List.mem_filter.1 hinfo'
    refine ⟨hsolved info' hin, ?_⟩
    intro hterm
    have hattributed : s'.Attributed (MeasuresWhole calcF files) := by
      refine (h.whole.attributed hterm).step ?_ hs
      rintro comm i measured w t' rfl - -
      cases hpolled
    obtain ⟨t', ⟨pim, taskId, measured, hassigned, hm, rfl⟩, rfl⟩ := hattributed.collected info' hin
    -- the file of the report is the one of the row
    have hpim : pim = t.metadata := by
      have hp : taskId.toNat = p := of_decide_eq_true hid
      unfold Server.Assigned Server.files at hassigned
      rw [hcluster, List.getElem?_map, hp, ht] at hassigned
      exact (Option.some.inj hassigned).symm
    subst hpim
    have hunsolved : ((Task.new t.metadata taskId).execute measured).dpi.solved = false := hsolved _ hin
    exact ⟨hm.flips (Task.new_maxFlips_pos _ _) hunsolved, measured, hm, rfl⟩

end Averaging

end Executions

/-! ## Two files, all flips in vain -/

namespace Averaging

/-- The only instance of the second file makes one flip in vain, and its report is on its way. -/
def vainRun : List Action := teamWork 1 (pairMeasured 1 false)

theorem vainOutcomes_watched : ∀ p ∈ teamOutcomes 1 (pairMeasured 1 false), ∃ x calls,
    (∀ k, x.running k = true) ∧ p.1.outcome (fun _ => (1 : ℚ)) x (teamFiles p.1.name) calls = some p.2 := by
  have hpair : (Task.new (pairFile 1) 1).outcome (fun _ => (1 : ℚ)) (teamStart 20014 2) pairText 1 =
      some (.done (pairMeasured 1 false)) := by
    decide +kernel
  exact forall_teamOutcomes ⟨_, _, fun _ => rfl, clashFile_outcome⟩ ⟨_, _, fun _ => rfl, hpair⟩

theorem exists_vainRun : ∃ s s', WatchedRun (fun _ => 2) (fun _ => (1 : ℚ)) teamFiles vainRun s ∧
    s.step (fun _ => 2) (.serverPollsWorkers (some 0)) = some s' ∧
    s.cluster.server.server.statisticSend = false ∧ s.cluster.server.server.terminatedWorkers = false ∧
    s'.cluster.server.server.statisticSend = true ∧ s'.cluster.server.server.solutionFound = false ∧
    s'.cluster.server.server.availableTasks.map (fun t => t.metadata) = [clashFile, pairFile 1] := by
  have hrun : ((replay (Averaging.step fun _ => 2)
      (fun as s a => expects (teamOutcomes 1 (pairMeasured 1 false)) as s a = true) []
        {} vainRun).any fun s : Averaging =>
        (s.step (fun _ => 2) (.serverPollsWorkers (some 0))).any fun s' =>
          decide (s.cluster.server.server.statisticSend = false ∧ s.cluster.server.server.terminatedWorkers = false ∧
            s'.cluster.server.server.statisticSend = true ∧ s'.cluster.server.server.solutionFound = false ∧
            s'.cluster.server.server.availableTasks.map (fun t => t.metadata) = [clashFile, pairFile 1])) = true := by
    decide +kernel
  obtain ⟨s, hs, hnext⟩ := (Option.any_eq_true _ _).1 hrun
  obtain ⟨s', hs', he⟩ := (Option.any_eq_true _ _).1 hnext
  refine ⟨s, s', (Traced.of_replay hs).imp ?_, hs', of_decide_eq_true he⟩
  intro as s a hexp
  cases a with
  | workerThread comm i outcome =>
    intro w t hw ht
    obtain ⟨x, calls, hrunning, hx⟩ := vainOutcomes_watched _ (mem_of_expects hexp hw ht)
    exact .inr ⟨x, calls, fun _ => hrunning, hx⟩
  | manager | serverPollsWorkers | serverPollsManager | serverLeaves | workerMain => trivial

/-- Both instances of the first file were tried, with all their flips. -/
theorem search_exhaustive_vainRun :
    ∃ s, WatchedRun (fun _ => 2) (fun _ => (1 : ℚ)) teamFiles (vainRun ++ [.serverPollsWorkers (some 0)]) s ∧
      (ofTask s.collected 0).length = 2 ∧ ∀ info ∈ ofTask s.collected 0, info.solved = false ∧
        info.numFlipsDone = 2 := by
  obtain ⟨s, s', h, hs, hunsent, hterm, hsent, hnone, hfiles⟩ := exists_vainRun
  have ha : s'.cluster.server.server.Addressable := by
    have hlen := congrArg List.length hfiles
    rw [List.length_map] at hlen
    unfold Server.Addressable
    rw [hlen]
    decide
  obtain ⟨t, ht, hmeta⟩ : ∃ t, s'.cluster.server.server.availableTasks[0]? = some t ∧ t.metadata = clashFile := by
    have hfirst := congrArg (fun files => files[0]?) hfiles
    simp only [List.getElem?_map, List.getElem?_cons_zero] at hfirst
    exact Option.map_eq_some_iff.1 hfirst
  obtain ⟨hcount, hall⟩ := search_exhaustive (fun _ => 2) (fun _ => (1 : ℚ)) teamFiles vainRun s s'
    (.serverPollsWorkers (some 0)) h trivial hs ha hunsent hsent hnone 0 t ht (by rw [hmeta]; decide)
  rw [hmeta] at hcount hall
  refine ⟨s', h.snoc trivial hs, hcount, ?_⟩
  intro info hinfo
  obtain ⟨hsolved, hwhole⟩ := hall info hinfo
  exact ⟨hsolved, (hwhole hterm).1⟩

end Averaging

end ParallelProbsat.Communication
