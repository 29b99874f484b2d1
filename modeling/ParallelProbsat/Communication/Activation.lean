/-
Every worker is started once and stopped once: ACTIVATE_WORKER is sent with the first file or, when
there is one already, as the worker joins; TERMINATE is sent to those present when the workers are
terminated. This fails in exactly two kinds of steps, which `Orderly` rules out: a worker that
joins after the termination is never stopped, and a termination before the first file stops workers
that were never started.
-/
import ParallelProbsat.Communication.Scheduling

namespace ParallelProbsat.Communication

open ParallelProbsat.Lib ParallelProbsat.Util

/-- The messages among `messages` for one worker, in order. -/
def messagesFor (worker : Comm) (messages : List (Comm × S2W)) : List S2W :=
  (messages.filter fun m => m.1 = worker).map (·.2)

@[simp] theorem messagesFor_append (worker : Comm) (ms ms' : List (Comm × S2W)) :
    messagesFor worker (ms ++ ms') = messagesFor worker ms ++ messagesFor worker ms' := by
  simp [messagesFor]

/-- A message sent to every worker of a list reaches each of them once. -/
theorem messagesFor_each {worker : Comm} {msg : S2W} : ∀ {comms : List Comm}, comms.Nodup →
    messagesFor worker (comms.map fun comm => (comm, msg)) = if worker ∈ comms then [msg] else []
  | [], _ => rfl
  | comm :: rest, h => by
    obtain ⟨hnm, hnd⟩ := List.nodup_cons.1 h
    have ih : messagesFor worker (rest.map fun comm => (comm, msg)) = _ := messagesFor_each hnd
    unfold messagesFor at ih ⊢
    rw [List.map_cons, List.filter_cons]
    by_cases he : comm = worker
    · subst he
      simp [ih, hnm]
    · simp [ih, he, Ne.symm he]

theorem messagesFor_eq_nil {worker : Comm} {messages : List (Comm × S2W)} (h : ∀ m ∈ messages, m.1 ≠ worker) :
    messagesFor worker messages = [] := by
  unfold messagesFor
  rw [List.filter_eq_nil_iff.2 (by simpa using h), List.map_nil]

namespace Server

/-- With communicators all different, the loop of `send_termination_to_workers` reaches each once. -/
theorem terminateAfter_eq : ∀ {comms : List Comm} {curr : Comm}, (curr :: comms).Nodup →
    terminateAfter curr comms = comms.map fun comm => (comm, .terminate)
  | [], _, _ => rfl
  | comm :: rest, curr, h => by
    obtain ⟨hnm, hnd⟩ := List.nodup_cons.1 h
    have hne : curr ≠ comm := fun he => hnm (he ▸ List.mem_cons_self)
    unfold terminateAfter
    rw [if_neg hne, terminateAfter_eq hnd, List.map_cons]

theorem terminateMessages_eq {comms : List Comm} (h : comms.Nodup) :
    terminateMessages comms = comms.map fun comm => (comm, .terminate) := by
  cases comms with
  | nil => rfl
  | cons comm rest => exact congrArg _ (terminateAfter_eq h)

/-- What a worker has been sent. -/
def sentTo (s : Server) (worker : Comm) : List S2W := messagesFor worker s.toWorkers

/-- Started once there is a file, and stopped once the workers are terminated. -/
structure StartedAndStopped (s : Server) : Prop where
  started : ∀ w ∈ s.workUnits, (s.sentTo w).count .activateWorker = if s.availableTasks = [] then 0 else 1
  stopped : s.terminatedWorkers = true → ∀ w ∈ s.workUnits, (s.sentTo w).count .terminate = 1 ∧
    ∃ before after, s.sentTo w = before ++ .terminate :: after ∧ .activateWorker ∈ before

/-- What carries it through a run: communicators are fresh and different, a termination comes after a
file, and nobody is stopped before the termination. -/
structure Greets (s : Server) : Prop extends StartedAndStopped s where
  sent : ∀ m ∈ s.toWorkers, m.1 < s.accepted
  joined : ∀ w ∈ s.workUnits, w < s.accepted
  distinct : s.workUnits.Nodup
  late : s.terminatedWorkers = true → s.availableTasks ≠ []
  open_ : s.terminatedWorkers = false → ∀ w ∈ s.workUnits, (s.sentTo w).count .terminate = 0

variable {s s' : Server}

theorem sentTo_send (s : Server) (ms : List (Comm × S2W)) (w : Comm) :
    (s.send ms).sentTo w = s.sentTo w ++ messagesFor w ms := messagesFor_append ..

/-- Steps that start and stop nobody: workers may leave, and jobs may be sent. -/
structure Neutral (s s' : Server) (ms : List (Comm × S2W)) : Prop where
  toWorkers : s'.toWorkers = s.toWorkers ++ ms
  plain : ∀ m ∈ ms, m.1 < s.accepted ∧ m.2 ≠ .activateWorker ∧ m.2 ≠ .terminate
  workUnits : s'.workUnits.Sublist s.workUnits
  accepted : s'.accepted = s.accepted
  terminated : s'.terminatedWorkers = s.terminatedWorkers
  files : s'.availableTasks = [] ↔ s.availableTasks = []

theorem Greets.neutral {ms : List (Comm × S2W)} (h : s.Greets) (hn : Neutral s s' ms) : s'.Greets := by
  have hsent : ∀ w, s'.sentTo w = s.sentTo w ++ messagesFor w ms := fun w => by
    unfold sentTo
    rw [hn.toWorkers, messagesFor_append]
  have hplain : ∀ w, ∀ m ∈ messagesFor w ms, m ≠ .activateWorker ∧ m ≠ .terminate := by
    intro w m hm
    obtain ⟨x, hx, rfl⟩ := List.mem_map.1 hm
    exact (hn.plain x (List.mem_of_mem_filter hx)).2
  have hact : ∀ w, (s'.sentTo w).count .activateWorker = (s.sentTo w).count .activateWorker := fun w => by
    rw [hsent, List.count_append, List.count_eq_zero_of_not_mem fun hm => (hplain w _ hm).1 rfl, add_zero]
  have hterm : ∀ w, (s'.sentTo w).count .terminate = (s.sentTo w).count .terminate := fun w => by
    rw [hsent, List.count_append, List.count_eq_zero_of_not_mem fun hm => (hplain w _ hm).2 rfl, add_zero]
  have hw : ∀ w ∈ s'.workUnits, w ∈ s.workUnits := fun w hw => hn.workUnits.subset hw
  refine ⟨⟨?_, ?_⟩, ?_, ?_, h.distinct.sublist hn.workUnits, ?_, ?_⟩
  · intro w hmem
    rw [hact, h.started w (hw w hmem)]
    simp only [hn.files]
  · intro ht w hmem
    obtain ⟨hc, before, after, he, ha⟩ := h.stopped (hn.terminated ▸ ht) w (hw w hmem)
    refine ⟨(hterm w).trans hc, before, after ++ messagesFor w ms, ?_, ha⟩
    rw [hsent, he, List.append_assoc, List.cons_append]
  · rw [hn.toWorkers, hn.accepted]
    intro m hm
    rcases List.mem_append.1 hm with hm | hm
    · exact h.sent m hm
    · exact (hn.plain m hm).1
  · rw [hn.accepted]
    exact fun w hmem => h.joined w (hw w hmem)
  · rw [hn.terminated, Ne, hn.files]
    exact h.late
  · rw [hn.terminated]
    exact fun ht w hmem => (hterm w).trans (h.open_ ht w (hw w hmem))

theorem Greets.start : Greets {} where
  started w h := by cases h
  stopped h := by cases h
  sent m h := by cases h
  joined w h := by cases h
  distinct := List.nodup_nil
  late h := by cases h
  open_ _ w h := by cases h

/-! ## The steps that start or stop workers -/

theorem Greets.addFile (h : s.Greets) (data : ProblemInstanceMetadata) : (s.processM2sAddFile data).Greets := by
  rw [processM2sAddFile_eq]
  by_cases h0 : s.availableTasks = []
  · -- the first file starts everybody who is there
    have hopen : s.terminatedWorkers = false := by
      by_contra hne
      exact h.late (by simpa using hne) h0
    rw [if_pos h0]
    have hsent : ∀ w ∈ s.workUnits, messagesFor w (s.workUnits.map fun comm => (comm, .activateWorker)) =
        [.activateWorker] := by
      intro w hw
      rw [messagesFor_each h.distinct, if_pos hw]
    refine ⟨⟨?_, ?_⟩, ?_, h.joined, h.distinct, ?_, ?_⟩
    · intro w hw
      have := h.started w hw
      rw [if_pos h0] at this
      rw [sentTo_send, hsent w hw, List.count_append]
      show (s.sentTo w).count .activateWorker + 1 = if s.availableTasks ++ [TaskInfo.new data] = [] then 0 else 1
      rw [this, if_neg (by simp)]
    · intro ht
      rw [show _ = s.terminatedWorkers from rfl, hopen] at ht
      cases ht
    · intro m hm
      rcases List.mem_append.1 hm with hm | hm
      · exact h.sent m hm
      · obtain ⟨w, hw, rfl⟩ := List.mem_map.1 hm
        exact h.joined w hw
    · exact fun _ => by simp [send]
    · intro ht w hw
      rw [sentTo_send, hsent w hw, List.count_append]
      exact h.open_ ht w hw
  · rw [if_neg h0]
    refine h.neutral ⟨(List.append_nil _).trans (List.append_nil _).symm, ?_, List.Sublist.refl _, rfl, rfl,
      by simp [send, h0]⟩
    simp

theorem Greets.addWorkers {n : Int} (h : s.Greets) (hopen : s.terminatedWorkers = false)
    (hs : s.processM2sAddWorkers n = .ok s') : s'.Greets := by
  obtain ⟨workers, hworkers, rfl⟩ := processM2sAddWorkers_ok hs
  have hnew : ∀ w, w ∈ workers ↔ s.accepted ≤ w ∧ w < s.accepted + n.toNat := by
    intro w
    rw [hworkers, List.mem_range'_1]
  have hnd : workers.Nodup := hworkers ▸ List.nodup_range'
  have hfresh : ∀ w ∈ workers, s.sentTo w = [] := by
    intro w hw
    refine messagesFor_eq_nil fun m hm he => ?_
    have hlt := h.sent m hm
    rw [he] at hlt
    exact Nat.not_lt.2 ((hnew w).1 hw).1 hlt
  have hmsgs : ∀ w, messagesFor w
    (if s.availableTasks ≠ [] then workers.map fun comm => (comm, S2W.activateWorker) else []) =
      if s.availableTasks ≠ [] ∧ w ∈ workers then [.activateWorker] else [] := by
    intro w
    by_cases h0 : s.availableTasks = []
    · simp [h0, messagesFor]
    · simp only [ne_eq, h0, not_false_eq_true, if_true, true_and]
      exact messagesFor_each hnd
  have hcount : ∀ w ∈ s.workUnits ++ workers,
      (s.sentTo w ++ (if s.availableTasks ≠ [] ∧ w ∈ workers then [S2W.activateWorker] else [])).count .activateWorker =
          (if s.availableTasks = [] then 0 else 1) ∧
        (s.sentTo w ++ (if s.availableTasks ≠ [] ∧ w ∈ workers then [S2W.activateWorker] else [])).count .terminate =
          0 := by
    intro w hw
    rcases List.mem_append.1 hw with hw | hw
    · have hnot : w ∉ workers := fun hm => Nat.not_lt.2 ((hnew w).1 hm).1 (h.joined w hw)
      rw [if_neg fun hc => hnot hc.2, List.append_nil]
      exact ⟨h.started w hw, h.open_ hopen w hw⟩
    · rw [hfresh w hw, List.nil_append]
      by_cases h0 : s.availableTasks = []
      · simp [h0]
      · simp only [ne_eq, h0, not_false_eq_true, hw, and_self, if_true, if_false]
        exact ⟨rfl, rfl⟩
  refine ⟨⟨?_, ?_⟩, ?_, ?_, ?_, ?_, ?_⟩
  · intro w hw
    rw [sentTo_send, hmsgs]
    exact (hcount w hw).1
  · intro ht
    rw [show _ = s.terminatedWorkers from rfl, hopen] at ht
    cases ht
  · intro m hm
    show m.1 < s.accepted + n.toNat
    rcases List.mem_append.1 hm with hm | hm
    · exact Nat.lt_add_right _ (h.sent m hm)
    · split at hm
      · obtain ⟨w, hw, rfl⟩ := List.mem_map.1 hm
        exact ((hnew w).1 hw).2
      · cases hm
  · intro w hw
    show w < s.accepted + n.toNat
    rcases List.mem_append.1 hw with hw | hw
    · exact Nat.lt_add_right _ (h.joined w hw)
    · exact ((hnew w).1 hw).2
  · refine List.nodup_append.2 ⟨h.distinct, hnd, ?_⟩
    rintro w hw w' hw' rfl
    exact Nat.not_lt.2 ((hnew w).1 hw').1 (h.joined w hw)
  · intro ht
    rw [show _ = s.terminatedWorkers from rfl, hopen] at ht
    cases ht
  · intro _ w hw
    rw [sentTo_send, hmsgs]
    exact (hcount w hw).2

theorem Greets.terminate (h : s.Greets) (hfile : s.availableTasks ≠ []) (hs : s.sendTerminationToWorkers = .ok s') :
    s'.Greets := by
  rcases sendTerminationToWorkers_ok hs with ⟨-, rfl⟩ | ⟨hopen, -, rfl⟩
  · exact h
  · rw [terminateMessages_eq h.distinct]
    have hsent : ∀ w ∈ s.workUnits, messagesFor w (s.workUnits.map fun comm => (comm, .terminate)) = [.terminate] := by
      intro w hw
      rw [messagesFor_each h.distinct, if_pos hw]
    refine ⟨⟨?_, ?_⟩, ?_, h.joined, h.distinct, fun _ => hfile, nofun⟩
    · intro w hw
      rw [sentTo_send, hsent w hw, List.count_append]
      exact h.started w hw
    · intro _ w hw
      rw [sentTo_send, hsent w hw]
      have hone := h.started w hw
      rw [if_neg hfile] at hone
      change (s.sentTo w ++ [S2W.terminate]).count .terminate = 1 ∧
        ∃ before after, s.sentTo w ++ [S2W.terminate] = before ++ .terminate :: after ∧ .activateWorker ∈ before
      refine ⟨?_, s.sentTo w, [], rfl, List.count_pos_iff.1 (by omega)⟩
      rw [List.count_append, h.open_ hopen w hw]
      rfl
    · intro m hm
      rcases List.mem_append.1 hm with hm | hm
      · exact h.sent m hm
      · obtain ⟨w, hw, rfl⟩ := List.mem_map.1 hm
        exact h.joined w hw

/-! ## The other steps -/

theorem Greets.getInstances {index : Nat} {comm : Comm} {requested : UInt32} (h : s.Greets)
    (hi : s.workUnits[index]? = some comm) (hs : s.processW2sGetInstances comm requested = .ok s') : s'.Greets := by
  obtain ⟨s₁, reply, rfl, h1⟩ := processW2sGetInstances_ok hs
  have hcomm := h.joined comm (List.mem_of_getElem? hi)
  have hplain : ∀ m ∈ [(comm, S2W.sendInstances reply)], m.1 < s.accepted ∧ m.2 ≠ .activateWorker ∧
      m.2 ≠ .terminate := by
    intro m hm
    rw [List.mem_singleton.1 hm]
    exact ⟨hcomm, nofun, nofun⟩
  rcases h1 with ⟨-, h1⟩ | ⟨-, rfl, -⟩
  · obtain ⟨hfr, hlen⟩ := assignLoop_frame h1
    have hfiles : s₁.availableTasks = [] ↔ s.availableTasks = [] := by
      rw [← List.length_eq_zero_iff, hlen, List.length_eq_zero_iff]
    refine h.neutral ⟨?_, hplain, ?_, ?_, ?_, hfiles⟩
    · rw [hfr]; rfl
    · rw [hfr]; exact List.Sublist.refl _
    · rw [hfr]; rfl
    · rw [hfr]; rfl
  · exact h.neutral ⟨rfl, hplain, List.Sublist.refl _, rfl, rfl, Iff.rfl⟩

theorem Greets.disconnect (h : s.Greets) (index : Nat) : (s.processW2sDisconnect index).Greets := by
  rw [processW2sDisconnect_eq]
  exact h.neutral ⟨(List.append_nil _).symm, nofun, List.eraseIdx_sublist .., rfl, rfl, Iff.rfl⟩

/-- Flags that say nothing about workers may change, and reports may go to the manager. -/
theorem Greets.of_eq (h : s.Greets) (hm : s'.toWorkers = s.toWorkers) (hw : s'.workUnits = s.workUnits)
    (ha : s'.accepted = s.accepted) (ht : s'.terminatedWorkers = s.terminatedWorkers)
    (hf : s'.availableTasks.length = s.availableTasks.length) : s'.Greets := by
  refine h.neutral ⟨hm.trans (List.append_nil _).symm, nofun, hw ▸ List.Sublist.refl _, ha, ht, ?_⟩
  rw [← List.length_eq_zero_iff, hf, List.length_eq_zero_iff]

theorem length_reschedule (taskId : UInt32) (t : TaskInfo) (s : Server) :
    (s.reschedule taskId t).availableTasks.length = s.availableTasks.length := by
  unfold reschedule
  simp only
  split
  · exact length_modifyTask ..
  · rfl

theorem Greets.finish (h : s.Greets) (hfile : s.availableTasks ≠ []) (hs : s.finish = .ok s') : s'.Greets := by
  rcases finish_ok hs with ⟨-, hs⟩ | ⟨-, rfl⟩
  · obtain ⟨messages, hm⟩ := s.sendStatisticToManager_eq
    have hstat : s.sendStatisticToManager.Greets := by
      rw [hm]
      exact h.of_eq rfl rfl rfl rfl rfl
    refine hstat.terminate ?_ hs
    rw [hm]
    exact hfile
  · exact h

theorem Greets.doneProcessing {msg : DoneProcessingInfo} (h : s.Greets) (hs : s.processW2sDoneProcessing msg = .ok s') :
    s'.Greets := by
  obtain ⟨t, stats, ht, -, -, hf⟩ := processW2sDoneProcessing_ok hs
  have hlen := (length_reschedule msg.taskId (t.returned stats msg.instancesProcessed)
    (s.booked msg (t.returned stats msg.instancesProcessed))).trans (length_modifyTask ..)
  -- booking the report concerns no worker
  have hbook : ((s.booked msg (t.returned stats msg.instancesProcessed)).reschedule msg.taskId
      (t.returned stats msg.instancesProcessed)).Greets := by
    refine h.of_eq ?_ ?_ ?_ ?_ hlen <;> (rw [reschedule_frame]; rfl)
  refine hbook.finish (fun h0 => ?_) hf
  have hlt := (List.getElem?_eq_some_iff.1 ht).1
  rw [← hlen, h0] at hlt
  cases hlt

end Server

/-! ## Runs -/

/-- No worker joins after the termination, and the workers are not terminated before the first file. -/
def Orderly (_ : List Event) (l : EventLoop) : Event → Prop
  | .pollManager (some (.addWorkers _)) => l.server.terminatedWorkers = false
  | .pollManager (some .terminate) => l.server.availableTasks ≠ []
  | .pollWorkers (some (_, .foundSolution _)) => l.server.availableTasks ≠ []
  | _ => True

instance (es : List Event) (l : EventLoop) (e : Event) : Decidable (Orderly es l e) := by
  unfold Orderly
  split <;> infer_instance

theorem greets_step {es : List Event} {l : EventLoop} {e : Event} {s' : Server} (h : l.server.Greets)
    (hok : Orderly es l e) (hs : l.server.Handles e s') : s'.Greets := by
  cases hs with
  | noWorker => exact h
  | noManager => exact h
  | addFile data => exact h.addFile data
  | addWorkers hs => exact h.addWorkers hok hs
  | terminate hs => exact h.terminate hok hs
  | foundSolution _ hs =>
    obtain ⟨s₁, h1, rfl⟩ := Server.processW2sFoundSolution_ok hs
    have hset : Server.Greets { l.server with solutionFound := true } := h.of_eq rfl rfl rfl rfl rfl
    exact (hset.terminate hok h1).of_eq rfl rfl rfl rfl rfl
  | doneProcessing _ hs => exact h.doneProcessing hs
  | getInstances hi hs => exact h.getInstances hi hs
  | disconnect => exact h.disconnect _

/-- In every run in which no worker joins after the termination and no termination comes before the first
file, every worker is started once and stopped once, in this order. -/
theorem started_and_stopped_in_orderly_runs (es : List Event) (l : EventLoop)
    (h : Traced EventLoop.step Orderly [] {} es l) : l.server.StartedAndStopped :=
  (h.invariant (P := fun _ (l : EventLoop) => l.server.Greets) .start
    fun _ _ _ _ _ h hok hs => greets_step h hok (EventLoop.step_handles hs)).toStartedAndStopped

theorem started_and_stopped_in_oneFileRun : ∃ l, replay EventLoop.step Orderly [] {} oneFileRun = some l ∧
    l.server.terminatedWorkers = true ∧ l.server.workUnits = [0] ∧ l.server.StartedAndStopped := by
  have hrun : (replay EventLoop.step Orderly [] {} oneFileRun).map (fun l =>
      (l.server.terminatedWorkers, l.server.workUnits)) = some (true, [0]) := by decide +kernel
  obtain ⟨l, hl, he⟩ := Option.map_eq_some_iff.1 hrun
  obtain ⟨hterm, hw⟩ := Prod.mk.inj he
  exact ⟨l, hl, hterm, hw, started_and_stopped_in_orderly_runs oneFileRun l (.of_replay hl)⟩

/-- After `oneFileRun` the manager adds a second worker. -/
def lateWorkerRun : List Event := oneFileRun ++ [.pollManager (some (.addWorkers 1))]

/-- A worker that joins after the termination is started and never stopped. -/
theorem late_worker_not_stopped : ∃ l, Served lateWorkerRun l ∧ l.server.terminatedWorkers = true ∧
    l.server.workUnits = [0, 1] ∧ l.server.sentTo 1 = [.activateWorker] ∧ ¬ l.server.StartedAndStopped := by
  have hrun : (replay EventLoop.step ReportsHanded [] {} lateWorkerRun).map (fun l =>
      (l.server.terminatedWorkers, l.server.workUnits, l.server.sentTo 1)) =
        some (true, [0, 1], [.activateWorker]) := by
    decide +kernel
  obtain ⟨l, hl, he⟩ := Option.map_eq_some_iff.1 hrun
  obtain ⟨hterm, he⟩ := Prod.mk.inj he
  obtain ⟨hw, hsent⟩ := Prod.mk.inj he
  refine ⟨l, .of_replay hl, hterm, hw, hsent, fun h => ?_⟩
  have := (h.stopped hterm 1 (by rw [hw]; decide)).1
  rw [hsent] at this
  cases this

end ParallelProbsat.Communication
