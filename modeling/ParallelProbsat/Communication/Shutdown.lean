/-
The end of a run. The server leaves its main loop with the DISCONNECT of the last worker, provided
the queue is empty or a solution was found, and the statistics were sent. They are sent with a
report after which no instance is at a worker; so they never are when a worker gives up an instance
that it was handed and disconnects. `Complete` rules out these two cases, and nothing else.
-/
import ParallelProbsat.Communication.Cluster
import ParallelProbsat.Lib.Runs

namespace ParallelProbsat.Communication

open ParallelProbsat.Lib

/-! ## The server's side -/

namespace Server

variable {s s' : Server} {e : Event} {n : Nat}

/-- The server's count of the instances at workers, and what is still to come when the statistics were not
sent: an instance at a worker, a file in the queue, or the first file. -/
structure Tallied (s : Server) (n : Nat) : Prop where
  processing : s.numInstancesInProcessing = UInt64.ofNat n
  pending : s.statisticSend = true ∨ 0 < n ∨ s.solutionFound = false ∧ (s.taskOrder ≠ [] ∨ s.availableTasks = [])

/-- Every worker is in `work_units` or was counted when it disconnected. -/
structure Members (s : Server) : Prop where
  joined : ∀ comm ∈ s.workUnits, comm < s.accepted
  counted : s.workUnits.length + s.workUnitsDisconnected = s.accepted
  terminated : s.terminatedWorkers = true → 0 < s.accepted

theorem Tallied.of_eq (h : s.Tallied n) (hp : s'.numInstancesInProcessing = s.numInstancesInProcessing)
    (hst : s'.statisticSend = s.statisticSend) (hsol : s'.solutionFound = s.solutionFound)
    (ho : s'.taskOrder = s.taskOrder) (ht : s'.availableTasks = s.availableTasks) : s'.Tallied n where
  processing := hp.trans h.processing
  pending := by rw [hst, hsol, ho, ht]; exact h.pending

theorem Tallied.addFile (h : s.Tallied n) (data : ProblemInstanceMetadata) : (s.processM2sAddFile data).Tallied n := by
  rw [processM2sAddFile_eq]
  refine ⟨h.processing, ?_⟩
  rcases h.pending with hp | hp | ⟨hsol, -⟩
  · exact .inl hp
  · exact .inr (.inl hp)
  · exact .inr (.inr ⟨hsol, .inl (List.cons_ne_nil _ _)⟩)

theorem Tallied.terminate (h : s.Tallied n) (hs : s.sendTerminationToWorkers = .ok s') : s'.Tallied n := by
  rw [sendTerminationToWorkers_frame hs]
  exact h.of_eq rfl rfl rfl rfl rfl

/-- With an instance at a worker, a solution leaves the statistics to the report of that instance. -/
theorem Tallied.foundSolution {info : SolutionInfo} (h : s.Tallied n) (hn : 0 < n)
    (hs : s.processW2sFoundSolution info = .ok s') : s'.Tallied n := by
  obtain ⟨s₁, h1, rfl⟩ := processW2sFoundSolution_ok hs
  rw [sendTerminationToWorkers_frame h1]
  exact ⟨h.processing, .inr (.inl hn)⟩

/-- A report changes the tasks, the queue and the count; then, when nothing is left to do, the statistics are
sent and the workers terminated. -/
theorem processW2sDoneProcessing_settles {info : DoneProcessingInfo} (h : s.processW2sDoneProcessing info = .ok s') :
    ∃ s₁ : Server, s₁ = { s with
        availableTasks := s₁.availableTasks
        taskOrder := s₁.taskOrder
        numInstancesInProcessing := s.numInstancesInProcessing - info.instancesProcessed.toUInt64 } ∧
      s.availableTasks ≠ [] ∧ s₁.availableTasks ≠ [] ∧
      ((∃ reports, sendTerminationToWorkers (report { s₁ with statisticSend := true } reports) = .ok s') ∨
        (¬ s₁.Idle ∧ s' = s₁)) := by
  obtain ⟨t, statistics, ht, -, -, hf⟩ := processW2sDoneProcessing_ok h
  have hne : s.availableTasks ≠ [] := fun h0 => by rw [h0] at ht; cases ht
  have hframe := reschedule_frame info.taskId (t.returned statistics info.instancesProcessed)
    (s.booked info (t.returned statistics info.instancesProcessed))
  refine ⟨_, hframe, hne, fun h0 => hne ?_, ?_⟩
  · have hlen := congrArg List.length h0
    unfold reschedule at hlen
    simp only at hlen
    refine List.length_eq_zero_iff.1 ?_
    split at hlen <;> simpa [booked, modifyTask] using hlen
  · rcases finish_ok hf with ⟨-, hf⟩ | hf
    · obtain ⟨reports, hr⟩ :=
        sendStatisticToManager_eq ((s.booked info (t.returned statistics info.instancesProcessed)).reschedule
        info.taskId (t.returned statistics info.instancesProcessed))
      exact .inl ⟨reports, hr ▸ hf⟩
    · exact .inr hf

/-- The report of the last instance at a worker sends the statistics when no file is in the queue. -/
theorem Tallied.doneProcessing {info : DoneProcessingInfo} (h : s.Tallied (n + 1)) (hone : info.instancesProcessed = 1)
    (hs : s.processW2sDoneProcessing info = .ok s') : s'.Tallied n := by
  obtain ⟨s₁, hframe, -, -, hf⟩ := processW2sDoneProcessing_settles hs
  have hproc : s₁.numInstancesInProcessing = UInt64.ofNat n := by
    rw [hframe]
    show s.numInstancesInProcessing - info.instancesProcessed.toUInt64 = _
    rw [h.processing, hone, UInt64.ofNat_add]
    exact UInt64.add_sub_cancel ..
  rcases hf with ⟨reports, hf⟩ | ⟨hidle, rfl⟩
  · rw [sendTerminationToWorkers_frame hf]
    exact ⟨hproc, .inl rfl⟩
  · refine ⟨hproc, ?_⟩
    rcases Nat.eq_zero_or_pos n with rfl | hpos
    · have hno : ¬ (s'.taskOrder = [] ∨ s'.solutionFound = true) := fun ho => hidle ⟨ho, hproc⟩
      obtain ⟨ho, hsol⟩ := not_or.1 hno
      exact .inr (.inr ⟨by simpa using hsol, .inl ho⟩)
    · exact .inr (.inl hpos)

/-- What is handed out is counted; when nothing is, nothing changes. -/
theorem assignLoop_processing {rounds : Nat} {requested : UInt32} {reply : List Job}
    (h : assignLoop rounds requested [] s = .ok (s', reply)) :
    s'.numInstancesInProcessing = s.numInstancesInProcessing + UInt64.ofNat (reply.flatMap Job.instances).length ∧
      (reply.flatMap Job.instances = [] → s' = s) := by
  refine assignLoop_rule (P := fun s' reply =>
    s'.numInstancesInProcessing = s.numInstancesInProcessing + UInt64.ofNat (reply.flatMap Job.instances).length ∧
      (reply.flatMap Job.instances = [] → s' = s)) ?_ h ⟨by simp, fun _ => rfl⟩
  rintro s₁ reply requested taskId rest t s₂ requested' j ⟨hp, -⟩ - - ha
  obtain ⟨k, -, hk, -, rfl, rfl⟩ := assignFront_ok ha
  have hlen : (Job.instances ⟨t.metadata, k, taskId⟩).length = k.toNat := List.length_replicate
  refine ⟨?_, fun hnil => ?_⟩
  · rw [List.flatMap_append, List.length_append, List.flatMap_singleton, hlen, UInt64.ofNat_add,
      ← UInt64.add_assoc, ← hp]
    show _ + k.toUInt64 = _ + UInt64.ofNat k.toNat
    rw [UInt64.ofNat_uInt32ToNat]
  · rw [List.flatMap_append, List.flatMap_singleton] at hnil
    have := congrArg List.length (List.append_eq_nil_iff.1 hnil).2
    rw [hlen] at this
    exact absurd (UInt32.toNat_inj.1 this) hk

/-- A request is answered, and the instances of the answer are counted. -/
theorem Tallied.getInstances {comm : Comm} {requested : UInt32} (h : s.Tallied n)
    (hs : s.processW2sGetInstances comm requested = .ok s') :
    ∃ reply, s'.toWorkers = s.toWorkers ++ [(comm, .sendInstances reply)] ∧
      s'.Tallied (n + (reply.flatMap Job.instances).length) := by
  obtain ⟨s₁, reply, rfl, ⟨hsol, h1⟩ | ⟨-, rfl, rfl⟩⟩ := processW2sGetInstances_ok hs
  · obtain ⟨hp, hnil⟩ := assignLoop_processing h1
    have hframe := (assignLoop_frame h1).1
    refine ⟨reply, ?_, ?_, ?_⟩
    · show s₁.toWorkers ++ _ = _
      rw [hframe]
    · show s₁.numInstancesInProcessing = _
      rw [hp, h.processing, UInt64.ofNat_add]
    · show s₁.statisticSend = true ∨ _ ∨ s₁.solutionFound = false ∧ (s₁.taskOrder ≠ [] ∨ s₁.availableTasks = [])
      by_cases h0 : reply.flatMap Job.instances = []
      · rw [hnil h0, h0]
        exact h.pending
      · exact .inr (.inl (Nat.add_pos_right _ (List.length_pos_iff.2 h0)))
  · exact ⟨[], rfl, h.processing, h.pending⟩

/-! ## What every poll keeps -/

/-- Nothing is sent but TERMINATE and, once there is a file, ACTIVATE_WORKER. -/
structure Plain (s s' : Server) : Prop where
  sent : ∃ messages : List (Comm × S2W), s'.toWorkers = s.toWorkers ++ messages ∧
    ∀ m ∈ messages, m.2 = .terminate ∨ m.2 = .activateWorker ∧ s'.availableTasks ≠ []

theorem Plain.of_eq (h : s'.toWorkers = s.toWorkers) : Plain s s' := ⟨[], by rw [h, List.append_nil], nofun⟩

theorem Plain.terminate (hs : s.sendTerminationToWorkers = .ok s') : Plain s s' := by
  rcases sendTerminationToWorkers_ok hs with ⟨-, rfl⟩ | ⟨-, -, rfl⟩
  · exact .of_eq rfl
  · exact ⟨_, rfl, fun m hm => .inl (mem_terminateMessages hm)⟩

theorem Handles.plain (h : s.Handles e s')
    (hget : ∀ index requested, e ≠ .pollWorkers (some (index, .getInstances requested))) :
    Plain s s' := by
  cases h with
  | noWorker | noManager => exact .of_eq rfl
  | addFile data =>
    rw [processM2sAddFile_eq]
    refine ⟨_, rfl, fun m hm => ?_⟩
    split at hm
    · obtain ⟨comm, -, rfl⟩ := List.mem_map.1 hm
      exact .inr ⟨rfl, by simp [send]⟩
    · cases hm
  | addWorkers hs =>
    obtain ⟨workers, -, rfl⟩ := processM2sAddWorkers_ok hs
    refine ⟨_, rfl, fun m hm => ?_⟩
    split at hm
    · rename_i hfile
      obtain ⟨comm, -, rfl⟩ := List.mem_map.1 hm
      exact .inr ⟨rfl, hfile⟩
    · cases hm
  | terminate hs => exact .terminate hs
  | foundSolution _ hs =>
    obtain ⟨s₁, h1, rfl⟩ := processW2sFoundSolution_ok hs
    have := Plain.terminate h1
    exact ⟨this.sent⟩
  | doneProcessing _ hs =>
    obtain ⟨s₁, hframe, -, -, ⟨reports, hf⟩ | ⟨-, rfl⟩⟩ := processW2sDoneProcessing_settles hs
    · obtain ⟨ms, hsent, hms⟩ := (Plain.terminate hf).sent
      refine ⟨ms, hsent.trans ?_, hms⟩
      rw [hframe]
      rfl
    · rw [hframe]
      exact .of_eq rfl
  | getInstances _ _ => exact absurd rfl (hget _ _)
  | disconnect => rw [processW2sDisconnect_eq]; exact .of_eq rfl

/-- What is not undone: statistics stay sent, and files stay. -/
structure Grows (s s' : Server) : Prop where
  statisticSend : s.statisticSend = true → s'.statisticSend = true
  files : s'.availableTasks = [] → s.availableTasks = []

theorem Handles.grows (h : s.Handles e s') : Grows s s' := by
  cases h with
  | noWorker | noManager => exact ⟨id, id⟩
  | addFile data =>
    rw [processM2sAddFile_eq]
    exact ⟨id, fun h0 => absurd h0 (by simp [send])⟩
  | addWorkers hs =>
    obtain ⟨workers, -, rfl⟩ := processM2sAddWorkers_ok hs
    exact ⟨id, id⟩
  | terminate hs => rw [sendTerminationToWorkers_frame hs]; exact ⟨id, id⟩
  | foundSolution _ hs =>
    obtain ⟨s₁, h1, rfl⟩ := processW2sFoundSolution_ok hs
    rw [sendTerminationToWorkers_frame h1]
    exact ⟨id, id⟩
  | doneProcessing _ hs =>
    obtain ⟨s₁, hframe, -, hne, ⟨reports, hf⟩ | ⟨-, rfl⟩⟩ := processW2sDoneProcessing_settles hs
    · rw [sendTerminationToWorkers_frame hf]
      exact ⟨fun _ => rfl, fun h0 => absurd h0 hne⟩
    · refine ⟨fun hst => ?_, fun h0 => absurd h0 hne⟩
      rw [hframe]
      exact hst
  | getInstances _ hs =>
    obtain ⟨s₁, reply, rfl, ⟨-, h1⟩ | ⟨-, rfl, -⟩⟩ := processW2sGetInstances_ok hs
    · obtain ⟨hframe, hlen⟩ := assignLoop_frame h1
      refine ⟨fun hst => ?_, fun h0 => ?_⟩
      · rw [hframe]; exact hst
      · have h0 : s₁.availableTasks = [] := h0
        rw [h0] at hlen
        exact List.length_eq_zero_iff.1 hlen.symm
    · exact ⟨id, id⟩
  | disconnect => rw [processW2sDisconnect_eq]; exact ⟨id, id⟩

/-- Nobody joins or leaves, and the main loop goes on as before. -/
structure Stays (s s' : Server) : Prop where
  workUnits : s'.workUnits = s.workUnits
  disconnected : s'.workUnitsDisconnected = s.workUnitsDisconnected
  accepted : s'.accepted = s.accepted
  running : s'.running = s.running

theorem Members.stays (h : s.Members) (hs : Stays s s') (ht : s'.terminatedWorkers = true → 0 < s.accepted) :
    s'.Members where
  joined := by rw [hs.workUnits, hs.accepted]; exact h.joined
  counted := by rw [hs.workUnits, hs.disconnected, hs.accepted]; exact h.counted
  terminated := by rw [hs.accepted]; exact ht

/-- TERMINATE is only sent when there is a worker. -/
theorem Members.terminate (h : s.Members) (hs : s.sendTerminationToWorkers = .ok s') : 0 < s.accepted := by
  rcases sendTerminationToWorkers_ok hs with ⟨ht, rfl⟩ | ⟨-, hne, -⟩
  · exact h.terminated ht
  · have := List.length_pos_iff.2 hne
    have := h.counted
    omega

theorem Handles.stays (h : s.Handles e s') (hadd : ∀ n, e ≠ .pollManager (some (.addWorkers n)))
    (hdis : ∀ index, e ≠ .pollWorkers (some (index, .disconnect))) : Stays s s' := by
  cases h with
  | noWorker | noManager => exact ⟨rfl, rfl, rfl, rfl⟩
  | addFile data => rw [processM2sAddFile_eq]; exact ⟨rfl, rfl, rfl, rfl⟩
  | addWorkers hs => exact absurd rfl (hadd _)
  | terminate hs => rw [sendTerminationToWorkers_frame hs]; exact ⟨rfl, rfl, rfl, rfl⟩
  | foundSolution _ hs =>
    obtain ⟨s₁, h1, rfl⟩ := processW2sFoundSolution_ok hs
    rw [sendTerminationToWorkers_frame h1]
    exact ⟨rfl, rfl, rfl, rfl⟩
  | doneProcessing _ hs =>
    obtain ⟨s₁, hframe, -, -, ⟨reports, hf⟩ | ⟨-, rfl⟩⟩ := processW2sDoneProcessing_settles hs
    · rw [sendTerminationToWorkers_frame hf, hframe]
      exact ⟨rfl, rfl, rfl, rfl⟩
    · rw [hframe]
      exact ⟨rfl, rfl, rfl, rfl⟩
  | getInstances _ hs =>
    obtain ⟨s₁, reply, rfl, ⟨-, h1⟩ | ⟨-, rfl, -⟩⟩ := processW2sGetInstances_ok hs
    · rw [(assignLoop_frame h1).1]
      exact ⟨rfl, rfl, rfl, rfl⟩
    · exact ⟨rfl, rfl, rfl, rfl⟩
  | disconnect => exact absurd rfl (hdis _)

theorem Handles.disconnect_eq {index : Nat} (h : s.Handles (.pollWorkers (some (index, .disconnect))) s') :
    s' = s.processW2sDisconnect index := by
  cases h
  rfl

/-- Who is accepted joins `work_units`. -/
theorem Handles.joins (h : s.Handles e s') : s.accepted ≤ s'.accepted ∧
    ∀ comm, s.accepted ≤ comm → comm < s'.accepted → comm ∈ s'.workUnits := by
  have hsame : s'.accepted = s.accepted → s.accepted ≤ s'.accepted ∧
      ∀ comm, s.accepted ≤ comm → comm < s'.accepted → comm ∈ s'.workUnits := by
    intro ha
    rw [ha]
    exact ⟨le_rfl, fun comm h1 h2 => absurd h1 (Nat.not_le.2 h2)⟩
  by_cases hadd : ∃ n, e = .pollManager (some (.addWorkers n))
  · obtain ⟨n, rfl⟩ := hadd
    cases h with
    | addWorkers hs =>
      obtain ⟨workers, hworkers, rfl⟩ := processM2sAddWorkers_ok hs
      refine ⟨Nat.le_add_right .., fun comm h1 h2 => List.mem_append_right _ ?_⟩
      rw [hworkers, List.mem_range'_1]
      exact ⟨h1, h2⟩
  · by_cases hdis : ∃ index, e = .pollWorkers (some (index, .disconnect))
    · obtain ⟨index, rfl⟩ := hdis
      cases h with
      | disconnect => exact hsame (by rw [processW2sDisconnect_eq])
    · exact hsame (h.stays (fun n hn => hadd ⟨n, hn⟩) fun i hi => hdis ⟨i, hi⟩).accepted

/-- A poll that finds no message of a worker. -/
theorem Handles.quietly (h : s.Handles e s') (he : e = .pollWorkers none ∨ ∃ received, e = .pollManager received) :
    (s.Tallied n → s'.Tallied n) ∧ (∀ comm ∈ s.workUnits, comm ∈ s'.workUnits) ∧
      (s'.workUnits = [] → s.workUnits = [] ∧ s'.accepted = s.accepted ∧ s'.running = s.running) := by
  cases h with
  | noWorker | noManager => exact ⟨id, fun _ => id, fun h0 => ⟨h0, rfl, rfl⟩⟩
  | addFile data => exact
    ⟨fun h => h.addFile data, by rw [processM2sAddFile_eq]; exact ⟨fun _ => id, fun h0 => ⟨h0, rfl, rfl⟩⟩⟩
  | addWorkers hs =>
    obtain ⟨workers, hworkers, rfl⟩ := processM2sAddWorkers_ok hs
    refine ⟨fun h => h.of_eq rfl rfl rfl rfl rfl, fun comm hc => List.mem_append_left _ hc, fun h0 => ?_⟩
    obtain ⟨h1, h2⟩ := List.append_eq_nil_iff.1 h0
    have := congrArg List.length h2
    rw [hworkers, List.length_range'] at this
    exact ⟨h1, congrArg (s.accepted + ·) this, rfl⟩
  | terminate hs =>
    exact ⟨fun h => h.terminate hs,
      by rw [sendTerminationToWorkers_frame hs]; exact ⟨fun _ => id, fun h0 => ⟨h0, rfl, rfl⟩⟩⟩
  | foundSolution | doneProcessing | getInstances | disconnect => rcases he with he | ⟨_, he⟩ <;> cases he

theorem Members.handles (h : s.Members) (hs : s.Handles e s') : s'.Members := by
  have hs' := hs
  cases hs with
  | noWorker | noManager => exact h
  | addFile data => exact h.stays (hs'.stays (by simp) (by simp)) (by rw [processM2sAddFile_eq]; exact h.terminated)
  | addWorkers hs =>
    obtain ⟨workers, hworkers, rfl⟩ := processM2sAddWorkers_ok hs
    refine ⟨fun comm hc => ?_, ?_, fun ht => Nat.add_pos_left (h.terminated ht) _⟩
    · rcases List.mem_append.1 hc with hc | hc
      · exact Nat.lt_add_right _ (h.joined comm hc)
      · rw [hworkers, List.mem_range'_1] at hc
        exact hc.2
    · have := h.counted
      simp only [send, List.length_append, hworkers, List.length_range']
      omega
  | terminate hs => exact h.stays (hs'.stays (by simp) (by simp)) fun _ => h.terminate hs
  | foundSolution _ hs =>
    obtain ⟨s₁, h1, rfl⟩ := processW2sFoundSolution_ok hs
    have hset : Server.Members { s with solutionFound := true } := ⟨h.joined, h.counted, h.terminated⟩
    exact h.stays (hs'.stays (by simp) (by simp)) fun _ => hset.terminate h1
  | doneProcessing _ hs =>
    refine h.stays (hs'.stays (by simp) (by simp)) fun ht => ?_
    obtain ⟨s₁, hframe, -, -, ⟨reports, hf⟩ | ⟨-, rfl⟩⟩ := processW2sDoneProcessing_settles hs
    · have hbook : Server.Members (report { s₁ with statisticSend := true } reports) := by
        rw [hframe]
        exact ⟨h.joined, h.counted, h.terminated⟩
      have := hbook.terminate hf
      rw [hframe] at this
      exact this
    · rw [hframe] at ht
      exact h.terminated ht
  | getInstances _ hs =>
    refine h.stays (hs'.stays (by simp) (by simp)) ?_
    obtain ⟨s₁, reply, rfl, ⟨-, h1⟩ | ⟨-, rfl, -⟩⟩ := processW2sGetInstances_ok hs
    · rw [(assignLoop_frame h1).1]
      exact h.terminated
    · exact h.terminated
  | disconnect hi =>
    rename_i index
    rw [processW2sDisconnect_eq]
    refine ⟨fun comm hc => h.joined comm (List.mem_of_mem_eraseIdx hc), ?_, h.terminated⟩
    have := h.counted
    simp only [List.length_eraseIdx, hi, if_true]
    omega

end Server

/-! ## The workers' side -/

/-- TERMINATE may arrive, and once there is a file ACTIVATE_WORKER. -/
def Worker.Pushed (files : Prop) (w w' : Worker) : Prop :=
  ∃ messages : List S2W, (∀ m ∈ messages, m = .terminate ∨ m = .activateWorker ∧ files) ∧
    w' = { w with inbox := w.inbox ++ messages }

namespace Worker

variable {files : Prop} {w w' : Worker}

theorem Pushed.sound (h : w.Pushed files w') (hs : w.Sound) : w'.Sound := by
  obtain ⟨ms, hms, rfl⟩ := h
  refine ⟨fun hp => ?_, hs.stopped, hs.left, hs.fresh, hs.threads, hs.results, hs.flow, hs.parting⟩
  have hzero : ms.countP S2W.isReply = 0 := List.countP_eq_zero.2 fun m hm => by
    rcases hms m hm with rfl | ⟨rfl, -⟩ <;> simp [S2W.isReply]
  have := hs.requests hp
  unfold openRequests at this ⊢
  rw [List.countP_append, hzero, add_zero]
  exact this

theorem Pushed.asleep (h : w.Pushed files w') (hf : ¬ files) (hs : w.Asleep) : w'.Asleep := by
  obtain ⟨ms, hms, rfl⟩ := h
  refine ⟨hs.point, hs.threads, fun m hm => ?_, hs.outbox⟩
  rcases List.mem_append.1 hm with hm | hm
  · exact hs.inbox m hm
  · exact (hms m hm).resolve_right fun h => hf h.2

theorem Pushed.refl (w : Worker) : w.Pushed files w := ⟨[], nofun, by rw [List.append_nil]⟩

theorem owed_push (w : Worker) (msg : S2W) : (w.push msg).owed = w.owed + msg.instances := by
  unfold push owed
  simp only [List.flatMap_append, List.flatMap_singleton, ← Multiset.coe_add]
  abel

/-- A message of the worker is received by the server. -/
theorem owed_pop {msg : W2S} {rest : List W2S} (ho : w.outbox = msg :: rest) :
    owed { w with outbox := rest } + msg.instances = w.owed := by
  unfold owed
  rw [ho, List.flatMap_cons, ← Multiset.coe_add]
  abel

theorem Sound.pop {msg : W2S} {rest : List W2S} (h : w.Sound) (ho : w.outbox = msg :: rest)
    (hm : msg.isRequest = false) :
    Sound { w with outbox := rest } := by
  refine ⟨fun hp => ?_, h.stopped, h.left, h.fresh, h.threads, h.results, (ho ▸ h.flow).tail, fun hd =>
    h.parting (by rw [ho]; exact .tail _ hd)⟩
  have := h.requests hp
  unfold openRequests at this ⊢
  rw [ho, List.countP_cons, hm] at this
  exact this

/-- A request is received and answered. -/
theorem Sound.answer {requested : UInt32} {jobs : List Job} {rest : List W2S} (h : w.Sound)
    (ho : w.outbox = .getInstances requested :: rest) :
    Sound (push (.sendInstances jobs) { w with outbox := rest }) := by
  refine ⟨fun hp => ?_, h.stopped, h.left, h.fresh, h.threads, h.results, (ho ▸ h.flow).tail, fun hd =>
    h.parting (by rw [ho]; exact .tail _ hd)⟩
  have := h.requests hp
  unfold openRequests at this
  rw [ho, List.countP_cons_of_pos rfl, ← add_assoc, add_right_comm] at this
  unfold openRequests push
  rw [List.countP_append]
  exact this

end Worker

/-- What is delivered to a worker that is sent no instances. -/
theorem deliver_pushed {files : Prop} : ∀ {messages : List (Comm × S2W)} {workers : List Worker} {comm : Comm}
    {w' : Worker},
    (∀ m ∈ messages, m.2 = .terminate ∨ m.2 = .activateWorker ∧ files) → (deliver messages workers)[comm]? = some w' →
    ∃ w, workers[comm]? = some w ∧ w.Pushed files w' := by
  intro messages
  induction messages with
  | nil => exact fun _ h => ⟨_, h, .refl _⟩
  | cons m rest ih =>
    intro workers comm w' hms h
    obtain ⟨w₁, h₁, ms, hall, rfl⟩ := ih (fun m hm => hms m (.tail _ hm)) h
    obtain ⟨w, hw, ⟨-, rfl⟩ | ⟨-, rfl⟩⟩ := getElem?_modify_some h₁
    · refine ⟨w, hw, m.2 :: ms, fun x hx => ?_, by simp [Worker.push]⟩
      rcases List.mem_cons.1 hx with rfl | hx
      · exact hms m (.head _)
      · exact hall x hx
    · exact ⟨_, hw, ms, hall, rfl⟩

theorem length_deliver (messages : List (Comm × S2W)) (workers : List Worker) :
    (deliver messages workers).length = workers.length := by
  induction messages generalizing workers with
  | nil => rfl
  | cons m rest ih => exact (ih _).trans (List.length_modify ..)

theorem owed_deliver {files : Prop} : ∀ {messages : List (Comm × S2W)} (workers : List Worker),
    (∀ m ∈ messages, m.2 = .terminate ∨ m.2 = .activateWorker ∧ files) →
    (deliver messages workers).map Worker.owed = workers.map Worker.owed := by
  intro messages
  induction messages with
  | nil => exact fun _ _ => rfl
  | cons m rest ih =>
    intro workers hms
    refine (ih _ fun m hm => hms m (.tail _ hm)).trans (map_modify_of_eq (fun w => ?_) ..)
    rw [Worker.owed_push]
    rcases hms m (.head _) with h | ⟨h, -⟩ <;> rw [h] <;> exact add_zero _

/-! ## The system -/

namespace Cluster

variable {numWorkers : Comm → UInt32} {c c' : Cluster}

/-- The instances handed out whose report the server has not received. -/
def outstanding (c : Cluster) : Multiset Nat := (c.workers.map Worker.owed).sum

/-- What holds in every run of the system. -/
structure Accounted (c : Cluster) : Prop where
  tallied : c.server.server.Tallied c.outstanding.card
  members : c.server.server.Members
  accepted : c.workers.length = c.server.server.accepted
  sound : ∀ w ∈ c.workers, w.Sound
  present : ∀ (comm : Comm) (w : Worker), c.workers[comm]? = some w →
    comm ∈ c.server.server.workUnits ∨ w.point = .leaving ∧ w.outbox = []
  asleep : c.server.server.availableTasks = [] → ∀ w ∈ c.workers, w.Asleep
  kept : c.server.server.statisticSend = true ∨ ∀ w ∈ c.workers, w.point = .aborted ∨ w.dropped = []
  ended : c.server.server.workUnits = [] → c.server.server.accepted = 0 ∨ c.server.server.running = false

theorem Accounted.start : Accounted {} where
  tallied := ⟨rfl, .inr (.inr ⟨rfl, .inr rfl⟩)⟩
  members := ⟨nofun, rfl, nofun⟩
  accepted := rfl
  sound w h := by cases h
  present comm w h := by cases h
  asleep _ w h := by cases h
  kept := .inr nofun
  ended _ := .inl rfl

/-- The next message of the worker at `index`. -/
def nextFrom (index : Nat) (c : Cluster) : Option W2S :=
  (c.server.server.workUnits[index]?.bind fun comm => c.workers[comm]?).bind fun w => w.outbox.head?

/-- No worker gives up an instance before the statistics are sent, and the last worker's DISCONNECT is
handled when no file is in the queue or a solution was found. -/
def Complete (_ : List Action) (c : Cluster) : Action → Prop
  | .workerMain comm _ _ => c.workers[comm]?.any Worker.mainGivesUp = true → c.server.server.statisticSend = true
  | .workerThread comm i _ => c.workers[comm]?.any (Worker.threadGivesUp i) = true →
    c.server.server.statisticSend = true
  | .serverPollsWorkers (some index) => c.nextFrom index = some .disconnect → c.server.server.workUnits.length = 1 →
    c.server.server.taskOrder = [] ∨ c.server.server.solutionFound = true
  | _ => True

instance (as : List Action) (c : Cluster) (a : Action) : Decidable (Complete as c a) := by
  unfold Complete
  split <;> infer_instance

/-! ### Steps of the workers -/

theorem Works.mem {comm : Comm} {w w' : Worker} (h : c.Works comm w w' c') {P : Worker → Prop}
    (hall : ∀ w ∈ c.workers, P w) (hw : P w') : ∀ w ∈ c'.workers, P w := by
  intro x hx
  rw [h.workers] at hx
  obtain ⟨p, hp⟩ := List.mem_iff_getElem?.1 hx
  obtain ⟨a, ha, ⟨-, rfl⟩ | ⟨-, rfl⟩⟩ := getElem?_modify_some hp
  · exact hw
  · exact hall _ (List.mem_of_getElem? ha)

theorem Works.outstanding {comm : Comm} {w w' : Worker} (h : c.Works comm w w' c') (howed : w'.owed = w.owed) :
    c'.outstanding = c.outstanding := by
  have := sum_map_modify (f := Worker.owed) (g := fun _ => w') (x := 0) (y := 0) h.found (by rw [howed])
  unfold Cluster.outstanding
  rw [h.workers]
  simpa using this

/-- A worker that keeps to the rules and gives up nothing keeps the accounts. -/
theorem Accounted.works {comm : Comm} {w w' : Worker} (h : c.Accounted) (hw : c.Works comm w w' c')
    (howed : w'.owed = w.owed) (hsound : w'.Sound) (hasleep : w.Asleep → w'.Asleep) (hgone : w.point ≠ .leaving)
    (hkept : c.server.server.statisticSend = true ∨ w'.point = .aborted ∨ w'.dropped = w.dropped)
    (halive : w.point ≠ .aborted) : c'.Accounted := by
  have hmem := List.mem_of_getElem? hw.found
  have hout := hw.outstanding howed
  refine ⟨?_, ?_, ?_, hw.mem h.sound hsound, ?_, ?_, ?_, ?_⟩
  · rw [hout, hw.server]
    exact h.tallied
  · rw [hw.server]
    exact h.members
  · rw [hw.server, hw.workers, List.length_modify]
    exact h.accepted
  · intro comm' x hx
    rw [hw.workers] at hx
    rw [hw.server]
    obtain ⟨a, ha, ⟨rfl, rfl⟩ | ⟨-, rfl⟩⟩ := getElem?_modify_some hx
    · exact .inl ((h.present _ _ hw.found).resolve_right fun hl => hgone hl.1)
    · exact h.present _ _ ha
  · rw [hw.server]
    exact fun h0 => hw.mem (h.asleep h0) (hasleep (h.asleep h0 w hmem))
  · rw [hw.server]
    rcases h.kept with hk | hk
    · exact .inl hk
    · rcases hkept with hk' | hk' | hk'
      · exact .inl hk'
      · exact .inr (hw.mem hk (.inl hk'))
      · exact .inr (hw.mem hk (.inr (hk'.trans ((hk w hmem).resolve_left halive))))
  · rw [hw.server]
    exact h.ended

theorem not_moves_leaving {w w' : Worker} (h : w.Moves w') : w.point ≠ .leaving ∧ w.point ≠ .aborted := by
  cases h with
  | goes _ _ _ _ hold => exact hold.2.2
  | receives hp => rcases hp with hp | hp <;> rw [hp] <;> exact ⟨nofun, nofun⟩
  | requests _ hp | aborts hp | returns hp _ | returnsLate hp _ | leaves hp _ | creates _ hp =>
    rw [hp]; exact ⟨nofun, nofun⟩

theorem not_works_leaving {w w' : Worker} {i : Nat} (hs : w.Sound) (h : w.Works i w') : w.point ≠ .leaving := by
  intro hp
  have hfin : ∀ {t : Thread}, w.threads[i]? = some t → t = .finished := fun ht =>
    hs.stopped (.inr hp) _ (List.mem_of_getElem? ht)
  cases h with
  | polls ht | waits ht | takes ht | starts ht | givesUp ht | executes ht | aborts ht | delivers ht => cases hfin ht

/-! ### Polls of the server -/

theorem serve_some {e : Event} (h : c.serve numWorkers e = some c') :
    c.server.server.Handles e c'.server.server ∧
      c'.workers = deliver (c'.server.server.toWorkers.drop c.server.server.toWorkers.length)
        (c.workers ++ c.joining numWorkers c'.server.server.accepted) := by
  obtain ⟨l, hl, rfl⟩ := Option.map_eq_some_iff.1 h
  exact ⟨EventLoop.step_handles hl, rfl⟩

/-- What a poll without a request does to the workers. -/
theorem serve_pushed {e : Event} (h : c.serve numWorkers e = some c')
    (hacc : c.workers.length = c.server.server.accepted)
    (hget : ∀ index requested, e ≠ .pollWorkers (some (index, .getInstances requested))) :
    c'.outstanding = c.outstanding ∧ c'.workers.length = c'.server.server.accepted ∧
      ∀ (comm : Comm) (w' : Worker), c'.workers[comm]? = some w' →
        ∃ w, w.Pushed (c'.server.server.availableTasks ≠ []) w' ∧
          (c.workers[comm]? = some w ∨
            comm ∈ c'.server.server.workUnits ∧ ∃ n, w = { numWorkers := n }) := by
  obtain ⟨hh, hw⟩ := serve_some h
  obtain ⟨ms, hsent, hms⟩ := (hh.plain hget).sent
  obtain ⟨hle, hjoin⟩ := hh.joins
  rw [hsent, List.drop_left] at hw
  have howed : (c.joining numWorkers c'.server.server.accepted).map Worker.owed =
      List.replicate (c'.server.server.accepted - c.workers.length) 0 := by
    unfold joining
    rw [List.map_map, List.eq_replicate_iff]
    refine ⟨by simp, fun x hx => ?_⟩
    obtain ⟨comm, -, rfl⟩ := List.mem_map.1 hx
    rfl
  refine ⟨?_, ?_, fun comm w' hw' => ?_⟩
  · unfold outstanding
    rw [hw, owed_deliver _ hms, List.map_append, List.sum_append, howed, List.sum_replicate, smul_zero, add_zero]
  · rw [hw, length_deliver, List.length_append]
    unfold joining
    rw [List.length_map, List.length_range']
    omega
  · rw [hw] at hw'
    obtain ⟨w, hfound, hpush⟩ := deliver_pushed hms hw'
    refine ⟨w, hpush, ?_⟩
    by_cases hlt : comm < c.workers.length
    · rw [List.getElem?_append_left hlt] at hfound
      exact .inl hfound
    · rw [List.getElem?_append_right (Nat.not_lt.1 hlt)] at hfound
      right
      obtain ⟨x, hx, rfl⟩ := List.mem_map.1 (List.mem_of_getElem? hfound)
      have hin := (List.getElem?_eq_some_iff.1 hfound).1
      simp only [joining, List.length_map, List.length_range'] at hin
      exact ⟨hjoin comm (by rw [← hacc]; exact Nat.not_lt.1 hlt) (by omega), _, rfl⟩

/-- The server handles anything but a request, after it has received it (`c₁`). -/
theorem Accounted.served {c₁ : Cluster} {e : Event} (h : c.Accounted) (hs : c₁.server = c.server)
    (hserve : c₁.serve numWorkers e = some c')
    (hget : ∀ index requested, e ≠ .pollWorkers (some (index, .getInstances requested)))
    (hlen : c₁.workers.length = c.workers.length)
    (hsound : ∀ w ∈ c₁.workers, w.Sound) (hasleep : c.server.server.availableTasks = [] → ∀ w ∈ c₁.workers, w.Asleep)
    (hkept : ∀ w ∈ c₁.workers, ∃ w₀ ∈ c.workers, w.point = w₀.point ∧ w.dropped = w₀.dropped)
    (htally : c'.server.server.Tallied c₁.outstanding.card)
    (hpresent : ∀ (comm : Comm) (w : Worker), c₁.workers[comm]? = some w →
      comm ∈ c'.server.server.workUnits ∨ w.point = .leaving ∧ w.outbox = [])
    (hended : c'.server.server.workUnits = [] → c'.server.server.accepted = 0 ∨ c'.server.server.running = false) :
    c'.Accounted := by
  obtain ⟨hout, hlen', hw⟩ := serve_pushed hserve (by rw [hlen, hs]; exact h.accepted) hget
  have hh := (serve_some hserve).1
  rw [hs] at hh
  have hmem : ∀ w' ∈ c'.workers, ∃ w, w.Pushed (c'.server.server.availableTasks ≠ []) w' ∧
      (w ∈ c₁.workers ∨ ∃ n, w = { numWorkers := n }) := by
    intro w' hw'
    obtain ⟨comm, hcomm⟩ := List.mem_iff_getElem?.1 hw'
    obtain ⟨w, hp, hfound | ⟨-, hn⟩⟩ := hw comm w' hcomm
    · exact ⟨w, hp, .inl (List.mem_of_getElem? hfound)⟩
    · exact ⟨w, hp, .inr hn⟩
  refine ⟨by rw [hout]; exact htally, h.members.handles hh, hlen', ?_, ?_, ?_, ?_, hended⟩
  · intro w' hw'
    obtain ⟨w, hp, hin | ⟨n, rfl⟩⟩ := hmem w' hw'
    · exact hp.sound (hsound w hin)
    · exact hp.sound (.start n)
  · intro comm w' hw'
    obtain ⟨w, ⟨ms, -, rfl⟩, hfound | ⟨hin, -⟩⟩ := hw comm w' hw'
    · exact hpresent comm w hfound
    · exact .inl hin
  · intro h0 w' hw'
    obtain ⟨w, hp, hin | ⟨n, rfl⟩⟩ := hmem w' hw'
    · exact hp.asleep (fun hne => hne h0) (hasleep (hh.grows.files h0) w hin)
    · exact hp.asleep (fun hne => hne h0) ⟨rfl, rfl, nofun, rfl⟩
  · rcases h.kept with hk | hk
    · exact .inl (hh.grows.statisticSend hk)
    · right
      intro w' hw'
      obtain ⟨w, ⟨ms, -, rfl⟩, hin | ⟨n, rfl⟩⟩ := hmem w' hw'
      · obtain ⟨w₀, hin₀, hp, hd⟩ := hkept w hin
        show w.point = .aborted ∨ w.dropped = []
        rw [hp, hd]
        exact hk w₀ hin₀
      · exact .inr rfl

/-- The workers after the server has received the oldest message of one of them. -/
def received (comm : Comm) (rest : List W2S) (c : Cluster) : Cluster :=
  { c with workers := c.workers.modify comm fun w => { w with outbox := rest } }

theorem outstanding_received {comm : Comm} {w : Worker} {msg : W2S} {rest : List W2S} (hw : c.workers[comm]? = some w)
    (ho : w.outbox = msg :: rest) : (c.received comm rest).outstanding + msg.instances = c.outstanding := by
  have := sum_map_modify (f := Worker.owed) (g := fun w => { w with outbox := rest }) (y := 0) hw
    (by rw [Worker.owed_pop ho, add_zero])
  rwa [add_zero] at this

theorem mem_received {comm comm' : Comm} {w x : Worker} {rest : List W2S} (hw : c.workers[comm]? = some w)
    (hx : (c.received comm rest).workers[comm']? = some x) :
    (comm = comm' ∧ x = { w with outbox := rest }) ∨ (comm ≠ comm' ∧ c.workers[comm']? = some x) := by
  obtain ⟨a, ha, ⟨rfl, rfl⟩ | ⟨hne, rfl⟩⟩ := getElem?_modify_some hx
  · rw [hw] at ha
    cases ha
    exact .inl ⟨rfl, rfl⟩
  · exact .inr ⟨hne, ha⟩

/-- The server handles a message that requests nothing. -/
theorem Accounted.receives {index : Nat} {comm : Comm} {w : Worker} {msg : W2S} {rest : List W2S} (h : c.Accounted)
    (hw : c.workers[comm]? = some w) (ho : w.outbox = msg :: rest) (hmsg : msg.isRequest = false)
    (hserve : (c.received comm rest).serve numWorkers (.pollWorkers (some (index, msg))) = some c')
    (htally : c'.server.server.Tallied (c.received comm rest).outstanding.card)
    (hpresent : ∀ (comm' : Comm) (x : Worker), (c.received comm rest).workers[comm']? = some x →
      comm' ∈ c'.server.server.workUnits ∨ x.point = .leaving ∧ x.outbox = [])
    (hended : c'.server.server.workUnits = [] → c'.server.server.accepted = 0 ∨ c'.server.server.running = false) :
    c'.Accounted := by
  have hmem := List.mem_of_getElem? hw
  have hsame : (c.received comm rest).server = c.server := rfl
  refine h.served hsame hserve ?_ (List.length_modify ..) ?_ ?_ ?_ htally hpresent hended
  · rintro i requested he
    cases he
    cases hmsg
  · intro x hx
    obtain ⟨p, hp⟩ := List.mem_iff_getElem?.1 hx
    rcases mem_received hw hp with ⟨-, rfl⟩ | ⟨-, hx⟩
    · exact (h.sound w hmem).pop ho hmsg
    · exact h.sound x (List.mem_of_getElem? hx)
  · -- a worker that sends messages is awake
    intro h0
    have := (h.asleep h0 w hmem).outbox
    rw [ho] at this
    cases this
  · intro x hx
    obtain ⟨p, hp⟩ := List.mem_iff_getElem?.1 hx
    rcases mem_received hw hp with ⟨-, rfl⟩ | ⟨-, hx⟩
    · exact ⟨w, hmem, rfl, rfl⟩
    · exact ⟨x, List.mem_of_getElem? hx, rfl, rfl⟩

/-- The server handles a message that lets the worker stay. -/
theorem Accounted.hears {index : Nat} {comm : Comm} {w : Worker} {msg : W2S} {rest : List W2S} (h : c.Accounted)
    (hi : c.server.server.workUnits[index]? = some comm) (hw : c.workers[comm]? = some w) (ho : w.outbox = msg :: rest)
    (hmsg : msg.isRequest = false) (hdis : msg ≠ .disconnect)
    (hserve : (c.received comm rest).serve numWorkers (.pollWorkers (some (index, msg))) = some c')
    (htally : c'.server.server.Tallied (c.received comm rest).outstanding.card) : c'.Accounted := by
  have hh : c.server.server.Handles (.pollWorkers (some (index, msg))) c'.server.server := (serve_some hserve).1
  have hstays := hh.stays nofun fun index' he => hdis (Prod.mk.inj (Option.some.inj (Event.pollWorkers.inj he))).2
  refine h.receives hw ho hmsg hserve htally ?_
    (by rw [hstays.workUnits, hstays.accepted, hstays.running]; exact h.ended)
  rw [hstays.workUnits]
  intro comm' x hx
  rcases mem_received hw hx with ⟨rfl, rfl⟩ | ⟨-, hx⟩
  · exact .inl (List.mem_of_getElem? hi)
  · exact h.present _ _ hx

/-- The report of the solved instance is still to come. -/
theorem Accounted.hearsSolution {index : Nat} {comm : Comm} {w : Worker} {info : SolutionInfo} {rest : List W2S}
    (h : c.Accounted) (hi : c.server.server.workUnits[index]? = some comm) (hw : c.workers[comm]? = some w)
    (ho : w.outbox = .foundSolution info :: rest)
    (hserve : (c.received comm rest).serve numWorkers (.pollWorkers (some (index, .foundSolution info))) = some c') :
    c'.Accounted := by
  have hmem := List.mem_of_getElem? hw
  refine h.hears hi hw ho rfl nofun hserve ?_
  have hout : (c.received comm rest).outstanding + ((W2S.foundSolution info).instances : Multiset Nat) =
      c.outstanding :=
    outstanding_received hw ho
  rw [show ((W2S.foundSolution info).instances : Multiset Nat) = 0 from rfl, add_zero] at hout
  have hpos : 0 < c.outstanding.card := by
    have hflow := (h.sound w hmem).flow
    rw [ho] at hflow
    obtain ⟨⟨report, rest', rfl⟩, -⟩ := hflow
    have hle : w.owed ≤ c.outstanding := List.single_le_sum (fun _ _ => zero_le) _ (List.mem_map_of_mem hmem)
    refine Multiset.card_pos_iff_exists_mem.2 ⟨report.taskId.toNat, Multiset.mem_of_le hle ?_⟩
    unfold Worker.owed
    simp [ho, W2S.instances]
  have hh : c.server.server.Handles (.pollWorkers (some (index, .foundSolution info))) c'.server.server :=
    (serve_some hserve).1
  rw [hout]
  cases hh with
  | foundSolution _ hs => exact h.tallied.foundSolution hpos hs

/-- With the report of an instance, one less is outstanding. -/
theorem Accounted.hearsReport {index : Nat} {comm : Comm} {w : Worker} {info : DoneProcessingInfo} {rest : List W2S}
    (h : c.Accounted) (hi : c.server.server.workUnits[index]? = some comm) (hw : c.workers[comm]? = some w)
    (ho : w.outbox = .doneProcessing info :: rest)
    (hserve : (c.received comm rest).serve numWorkers (.pollWorkers (some (index, .doneProcessing info))) = some c') :
    c'.Accounted := by
  refine h.hears hi hw ho rfl nofun hserve ?_
  have hone : info.instancesProcessed = 1 := by
    have hflow := (h.sound w (List.mem_of_getElem? hw)).flow
    rw [ho] at hflow
    exact hflow.1
  have hout : (c.received comm rest).outstanding + ((W2S.doneProcessing info).instances : Multiset Nat) =
      c.outstanding :=
    outstanding_received hw ho
  have htally := h.tallied
  rw [← hout, Multiset.card_add] at htally
  have hh : c.server.server.Handles (.pollWorkers (some (index, .doneProcessing info))) c'.server.server :=
    (serve_some hserve).1
  cases hh with
  | doneProcessing _ hs => exact htally.doneProcessing hone hs

/-- The server handles a request: the reply is on its way. -/
theorem Accounted.answers {index : Nat} {comm : Comm} {w : Worker} {requested : UInt32} {rest : List W2S}
    (h : c.Accounted) (hi : c.server.server.workUnits[index]? = some comm) (hw : c.workers[comm]? = some w)
    (ho : w.outbox = .getInstances requested :: rest)
    (hserve : (c.received comm rest).serve numWorkers (.pollWorkers (some (index, .getInstances requested))) =
      some c') :
    c'.Accounted := by
  obtain ⟨hh, hworkers⟩ := serve_some hserve
  have hh' : c.server.server.Handles (.pollWorkers (some (index, .getInstances requested))) c'.server.server := hh
  have hstays := hh'.stays nofun nofun
  cases hh with
  | getInstances hi' hs =>
    have hi' : c.server.server.workUnits[index]? = some _ := hi'
    rw [hi] at hi'
    cases hi'
    obtain ⟨reply, hsent, htally⟩ := h.tallied.getInstances hs
    have hmem := List.mem_of_getElem? hw
    -- nobody joins, and the reply goes to the worker that asked
    have hjoin : (c.received comm rest).joining numWorkers c'.server.server.accepted = [] := by
      unfold joining received
      rw [hstays.accepted, List.length_modify, h.accepted, Nat.sub_self]
      rfl
    have hworkers : c'.workers = (c.received comm rest).workers.modify comm (Worker.push (.sendInstances reply)) := by
      have hlog : (c.received comm rest).server.server.toWorkers = c.server.server.toWorkers := rfl
      rw [hworkers, hsent, hlog, List.drop_left, hjoin, List.append_nil]
      rfl
    have hpopped : (c.received comm rest).workers[comm]? = some { w with outbox := rest } := getElem?_modify_of_eq _ hw
    have hout : c'.outstanding = c.outstanding + (reply.flatMap Job.instances : List Nat) := by
      have := sum_map_modify (f := Worker.owed) (g := Worker.push (.sendInstances reply)) (x := 0) hpopped
        (by rw [Worker.owed_push, add_zero])
      have hsame : (c.received comm rest).outstanding + ((W2S.getInstances requested).instances : Multiset Nat) =
          c.outstanding :=
        outstanding_received hw ho
      unfold outstanding at hsame ⊢
      rw [add_zero] at this
      rw [hworkers, this, ← hsame]
      exact congrArg (· + _) (add_zero _).symm
    have hall : ∀ (comm' : Comm) (x : Worker), c'.workers[comm']? = some x →
        x = ({ w with outbox := rest } : Worker).push (.sendInstances reply) ∨ c.workers[comm']? = some x := by
      intro comm' x hx
      rw [hworkers] at hx
      obtain ⟨a, ha, ⟨rfl, rfl⟩ | ⟨hne, rfl⟩⟩ := getElem?_modify_some hx
      · rw [hpopped] at ha
        cases ha
        exact .inl rfl
      · rcases mem_received hw ha with ⟨he, -⟩ | ⟨-, ha⟩
        · exact absurd he hne
        · exact .inr ha
    have hmem' : ∀ x ∈ c'.workers, x = ({ w with outbox := rest } : Worker).push (.sendInstances reply) ∨
        x ∈ c.workers := by
      intro x hx
      obtain ⟨p, hp⟩ := List.mem_iff_getElem?.1 hx
      exact (hall p x hp).imp_right List.mem_of_getElem?
    refine ⟨?_, h.members.handles hh', ?_, ?_, ?_, ?_, ?_, ?_⟩
    · rw [hout, Multiset.card_add, Multiset.coe_card]
      exact htally
    · rw [hworkers, List.length_modify, hstays.accepted]
      exact (List.length_modify ..).trans h.accepted
    · intro x hx
      rcases hmem' x hx with rfl | hx
      · exact (h.sound w hmem).answer ho
      · exact h.sound x hx
    · intro comm' x hx
      rw [hstays.workUnits]
      rw [hworkers] at hx
      obtain ⟨a, ha, ⟨rfl, rfl⟩ | ⟨hne, rfl⟩⟩ := getElem?_modify_some hx
      · exact .inl (List.mem_of_getElem? hi)
      · rcases mem_received hw ha with ⟨he, -⟩ | ⟨-, ha⟩
        · exact absurd he hne
        · exact h.present _ _ ha
    · intro h0
      have := (h.asleep (hh'.grows.files h0) w hmem).outbox
      rw [ho] at this
      cases this
    · rcases h.kept with hk | hk
      · exact .inl (hh'.grows.statisticSend hk)
      · right
        intro x hx
        rcases hmem' x hx with rfl | hx
        · exact hk w hmem
        · exact hk x hx
    · rw [hstays.workUnits, hstays.accepted, hstays.running]
      exact h.ended

/-- A worker that disconnects has left, and has nothing more to say. -/
theorem disconnecting {w : Worker} {rest : List W2S} (h : w.Sound) (ho : w.outbox = .disconnect :: rest) :
    w.point = .leaving ∧ rest = [] := by
  refine ⟨h.parting (by rw [ho]; exact .head _), ?_⟩
  have hflow := h.flow
  rw [ho] at hflow
  exact hflow

/-- With the DISCONNECT of the last worker nothing is outstanding, so the statistics were sent, and the server
leaves its main loop. -/
theorem Accounted.disconnects {index : Nat} {comm : Comm} {w : Worker} {rest : List W2S} (h : c.Accounted)
    (hi : c.server.server.workUnits[index]? = some comm) (hw : c.workers[comm]? = some w)
    (ho : w.outbox = .disconnect :: rest)
    (hok : c.server.server.workUnits.length = 1 → c.server.server.taskOrder = [] ∨ c.server.server.solutionFound = true)
    (hserve : (c.received comm rest).serve numWorkers (.pollWorkers (some (index, .disconnect))) = some c') :
    c'.Accounted := by
  have hmem := List.mem_of_getElem? hw
  have hlt := (List.getElem?_eq_some_iff.1 hi).1
  obtain ⟨hleave, rfl⟩ := disconnecting (h.sound w hmem) ho
  have hout : (c.received comm []).outstanding = c.outstanding := by
    have : (c.received comm []).outstanding + ((W2S.disconnect).instances : Multiset Nat) = c.outstanding :=
      outstanding_received hw ho
    rwa [show ((W2S.disconnect).instances : Multiset Nat) = 0 from rfl, add_zero] at this
  have hs' : c'.server.server = c.server.server.processW2sDisconnect index :=
    Server.Handles.disconnect_eq (serve_some hserve).1
  have hpresent : ∀ (comm' : Comm) (x : Worker), (c.received comm []).workers[comm']? = some x →
      comm' ∈ c.server.server.workUnits.eraseIdx index ∨ x.point = .leaving ∧ x.outbox = [] := by
    intro comm' x hx
    rcases mem_received hw hx with ⟨-, rfl⟩ | ⟨hne, hx⟩
    · exact .inr ⟨hleave, rfl⟩
    · refine (h.present _ _ hx).imp_left fun hc => ?_
      obtain ⟨p, hp⟩ := List.mem_iff_getElem?.1 hc
      refine List.mem_eraseIdx_iff_getElem?.2 ⟨p, fun he => hne ?_, hp⟩
      rw [he, hi] at hp
      exact Option.some.inj hp
  refine h.receives hw ho rfl hserve ?_ ?_ ?_
  · rw [hout, hs', Server.processW2sDisconnect_eq]
    exact h.tallied.of_eq rfl rfl rfl rfl rfl
  · rw [hs', Server.processW2sDisconnect_eq]
    exact hpresent
  · rw [hs', Server.processW2sDisconnect_eq]
    intro hempty
    have hempty : c.server.server.workUnits.eraseIdx index = [] := hempty
    right
    have hone : c.server.server.workUnits.length = 1 := by
      have := congrArg List.length hempty
      rw [List.length_eraseIdx_of_lt hlt] at this
      have : c.server.server.workUnits.length - 1 = 0 := this
      omega
    refine if_pos ⟨hok hone, hempty, ?_⟩
    rcases h.kept with hk | hk
    · exact hk
    · -- everybody has left, and nobody gave up an instance
      have hnone : c.outstanding = 0 := by
        rw [← hout]
        refine List.sum_eq_zero fun x hx => ?_
        obtain ⟨y, hy, rfl⟩ := List.mem_map.1 hx
        obtain ⟨p, hp⟩ := List.mem_iff_getElem?.1 hy
        obtain ⟨hpoint, hobox⟩ := (hpresent p y hp).resolve_left (by rw [hempty]; exact List.not_mem_nil)
        have hsound : y.Sound ∧ (y.point = .aborted ∨ y.dropped = []) := by
          rcases mem_received hw hp with ⟨-, rfl⟩ | ⟨-, hy⟩
          · exact ⟨(h.sound w hmem).pop ho rfl, hk w hmem⟩
          · exact ⟨h.sound y (List.mem_of_getElem? hy), hk y (List.mem_of_getElem? hy)⟩
        have hdropped := hsound.2.resolve_left (by rw [hpoint]; nofun)
        rw [hsound.1.owed_left hpoint hobox, hdropped]
        rfl
      rcases h.tallied.pending with hp | hp | ⟨hsol, hp⟩
      · exact hp
      · rw [hnone] at hp
        exact absurd hp (lt_irrefl 0)
      · have hempty : c.server.server.taskOrder = [] := (hok hone).resolve_right (by rw [hsol]; nofun)
        have := (h.asleep (hp.resolve_left fun hne => hne hempty) w hmem).outbox
        rw [ho] at this
        cases this

theorem Accounted.step {as : List Action} {a : Action} (h : c.Accounted) (hok : Complete as c a)
    (hs : c.step numWorkers a = some c') : c'.Accounted := by
  cases step_advances hs with
  | quiet hs hw =>
    have hout : c'.outstanding = c.outstanding := by
      unfold outstanding
      rw [hw]
    constructor <;> simp only [hs, hw, hout]
    exacts [h.tallied, h.members, h.accepted, h.sound, h.present, h.asleep, h.kept, h.ended]
  | mains hw hm =>
    rename_i comm ok w w'
    have hmoves := Worker.mainStep_moves hm
    have hgives : w.mainGivesUp = true → c.server.server.statisticSend = true :=
      fun hg => hok (by rw [hw.found]; exact hg)
    obtain ⟨hleave, halive⟩ := not_moves_leaving hmoves
    refine h.works hw hmoves.owed ((h.sound w (List.mem_of_getElem? hw.found)).moves hmoves) (fun ha => ha.moves hmoves)
      hleave ?_ halive
    cases hg : w.mainGivesUp with
    | true => exact .inl (hgives hg)
    | false => exact .inr (hmoves.dropped hg)
  | threads hw ht =>
    rename_i comm i outcome w w'
    obtain ⟨halive, hworks⟩ := Worker.threadStep_works ht
    have hgives : w.threadGivesUp i = true → c.server.server.statisticSend = true :=
      fun hg => hok (by rw [hw.found]; exact hg)
    have hsound := h.sound w (List.mem_of_getElem? hw.found)
    refine h.works hw hworks.owed (hsound.works hworks) (fun ha => absurd hworks ha.not_works)
      (not_works_leaving hsound hworks) ?_ halive
    cases hg : w.threadGivesUp i with
    | true => exact .inl (hgives hg)
    | false => exact .inr (hworks.dropped hg)
  | serves hs hw hm hserve =>
    rename_i e c₁
    have hh := (serve_some hserve).1
    rw [hs] at hh
    obtain ⟨htally, hin, hempty⟩ := hh.quietly (n := c.outstanding.card) hm
    have hout : c₁.outstanding = c.outstanding := by
      unfold outstanding
      rw [hw]
    refine h.served hs hserve ?_ (by rw [hw]) (by rw [hw]; exact h.sound) (by rw [hw]; exact h.asleep)
      (by rw [hw]; exact fun w hw => ⟨w, hw, rfl, rfl⟩) (by rw [hout]; exact htally h.tallied) ?_ fun h0 => ?_
    · rcases hm with rfl | ⟨_, rfl⟩ <;> nofun
    · rw [hw]
      exact fun comm w hw => (h.present comm w hw).imp_left (hin comm)
    · obtain ⟨h0, ha, hr⟩ := hempty h0
      rw [ha, hr]
      exact h.ended h0
  | receives hi hw ho hserve =>
    rename_i index comm w msg rest
    cases msg with
    | getInstances requested => exact h.answers hi hw ho hserve
    | disconnect =>
      refine h.disconnects hi hw ho (fun hone => hok ?_ hone) hserve
      unfold nextFrom
      rw [hi, Option.bind_some, hw, Option.bind_some, ho]
      rfl
    | foundSolution info => exact h.hearsSolution hi hw ho hserve
    | doneProcessing info => exact h.hearsReport hi hw ho hserve

/-- In every run in which no worker gives up an instance before the statistics are sent, and the last worker
disconnects when the queue is empty or a solution was found: once the workers are terminated and all have
disconnected, the server has left its main loop. -/
theorem shutdown_complete (numWorkers : Comm → UInt32) (as : List Action) (c : Cluster)
    (h : Traced (Cluster.step numWorkers) Complete [] {} as c) (hterm : c.server.server.terminatedWorkers = true)
    (hall : c.server.server.workUnitsDisconnected = c.workers.length) : c.server.server.running = false := by
  have hacc : c.Accounted := h.invariant (P := fun _ c => c.Accounted) .start fun _ _ _ _ _ h hok hs => h.step hok hs
  have hpos := hacc.members.terminated hterm
  have hempty : c.server.server.workUnits = [] := by
    refine List.length_eq_zero_iff.1 ?_
    have := hacc.members.counted
    have := hacc.accepted
    omega
  exact (hacc.ended hempty).resolve_left (by omega)

/-! ## Three runs -/

/-- One worker joins, a file is added, and the worker is handed as many instances as it asks for. -/
def startUp (requested : UInt32) (data : ProblemInstanceMetadata) : List Action :=
  [.manager (.addWorkers 1) false, .serverPollsWorkers none, .serverPollsManager true, .manager .other false,
    .manager .other false, .manager (.addFile data) false, .serverPollsWorkers none, .serverPollsManager true,
    .workerMain 0 true 0, .workerMain 0 false 0, .workerMain 0 false 0, .workerMain 0 true requested,
    .serverPollsWorkers (some 0), .serverPollsManager false, .workerMain 0 true 0, .workerMain 0 true 0,
    .workerMain 0 true 0]

/-- Thread 0 executes a task, and the main thread returns it. -/
def oneTask (measured : DoneProcessingInfo) : List Action :=
  [.workerThread 0 0 .failed, .workerThread 0 0 .failed, .workerThread 0 0 .failed, .workerThread 0 0 (.done measured),
    .workerThread 0 0 .failed, .workerMain 0 true 0]

/-- The main thread sees TERMINATE, joins `threads` threads and leaves. -/
def parting (threads : Nat) : List Action :=
  [.workerMain 0 true 0, .workerMain 0 true 0, .workerMain 0 true 0, .workerMain 0 true 0] ++
    (List.range threads).map (fun i => .workerThread 0 i .failed) ++
    [.workerMain 0 true 0, .workerMain 0 true 0, .serverPollsWorkers (some 0)]

/-- A file with one instance, tried once. -/
def smallRun : List Action :=
  startUp 1 ⟨1, 0, ""⟩ ++ oneTask {} ++ [.serverPollsWorkers (some 0), .serverPollsManager false] ++ parting 1

theorem shutdown_complete_in_smallRun : ∃ c, replay (Cluster.step fun _ => 1) Complete [] {} smallRun = some c ∧
    c.server.server.terminatedWorkers = true ∧ c.server.server.workUnitsDisconnected = c.workers.length ∧
    c.server.server.running = false := by
  have hrun : (replay (Cluster.step fun _ => 1) Complete [] {} smallRun).map (fun c : Cluster =>
      (c.server.server.terminatedWorkers, c.server.server.workUnitsDisconnected, c.workers.length)) =
        some (true, 1, 1) := by
    decide +kernel
  obtain ⟨c, hc, he⟩ := Option.map_eq_some_iff.1 hrun
  obtain ⟨hterm, he⟩ := Prod.mk.inj he
  obtain ⟨hdis, hlen⟩ := Prod.mk.inj he
  have hall : c.server.server.workUnitsDisconnected = c.workers.length := hdis.trans hlen.symm
  exact ⟨c, hc, hterm, hall, shutdown_complete (fun _ => 1) smallRun c (.of_replay hc) hterm hall⟩

/-- A file with two instances for a worker with two threads: thread 0 solves one of them while the other is
still queued. -/
def solvedRun : List Action :=
  startUp 2 ⟨2, 0, ""⟩ ++ oneTask { solved := true } ++ [.serverPollsWorkers (some 0), .serverPollsManager false,
    .serverPollsWorkers (some 0), .serverPollsManager false] ++ parting 2

/-- A file with two instances for a worker with one thread: the manager exits after the first. -/
def exitRun : List Action :=
  startUp 1 ⟨2, 0, ""⟩ ++ [.manager .other false, .manager .exit false] ++ oneTask {} ++
    [.serverPollsWorkers (some 0), .serverPollsManager true] ++ parting 1

/-- After a solution as well as after an exit, the server may stay in its main loop although all workers were
terminated and have disconnected. -/
theorem shutdown_not_complete :
    (∃ c, Traced (Cluster.step fun _ => 2) (fun _ _ _ => True) [] {} solvedRun c ∧
      c.server.server.solutionFound = true ∧
      c.server.server.terminatedWorkers = true ∧ c.server.server.workUnitsDisconnected = c.workers.length ∧
      c.server.server.running = true) ∧
    ∃ c, Traced (Cluster.step fun _ => 1) (fun _ _ _ => True) [] {} exitRun c ∧ c.server.server.solutionFound = false ∧
      c.server.server.terminatedWorkers = true ∧ c.server.server.workUnitsDisconnected = c.workers.length ∧
      c.server.server.running = true := by
  have hsolved : (replay (Cluster.step fun _ => 2) (fun _ _ _ => True) [] {} solvedRun).map (fun c : Cluster =>
      (c.server.server.solutionFound, c.server.server.terminatedWorkers, c.server.server.workUnitsDisconnected,
        c.workers.length, c.server.server.running)) = some (true, true, 1, 1, true) := by
    decide +kernel
  have hexit : (replay (Cluster.step fun _ => 1) (fun _ _ _ => True) [] {} exitRun).map (fun c : Cluster =>
      (c.server.server.solutionFound, c.server.server.terminatedWorkers, c.server.server.workUnitsDisconnected,
        c.workers.length, c.server.server.running)) = some (false, true, 1, 1, true) := by
    decide +kernel
  constructor
  · obtain ⟨c, hc, he⟩ := Option.map_eq_some_iff.1 hsolved
    simp only [Prod.mk.injEq] at he
    obtain ⟨hsol, hterm, hdis, hlen, hrun⟩ := he
    exact ⟨c, .of_replay hc, hsol, hterm, hdis.trans hlen.symm, hrun⟩
  · obtain ⟨c, hc, he⟩ := Option.map_eq_some_iff.1 hexit
    simp only [Prod.mk.injEq] at he
    obtain ⟨hsol, hterm, hdis, hlen, hrun⟩ := he
    exact ⟨c, .of_replay hc, hsol, hterm, hdis.trans hlen.symm, hrun⟩

end Cluster

end ParallelProbsat.Communication
