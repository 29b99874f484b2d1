/-
Where the reports and the solutions come from: in every run of the whole system each of them is the result of an
execution of the solver on a file the manager has added, under the number the server has given to that file.
-/
import ParallelProbsat.Communication.Averages
import ParallelProbsat.Communication.Reports
import ParallelProbsat.Sat.ClauseLine
import ParallelProbsat.Sat.Completeness

namespace ParallelProbsat.Communication

open ParallelProbsat.Lib ParallelProbsat.Util ParallelProbsat.Sat

/-! ## The tasks of a file -/

/-- What `return_task` announces of a solved task. -/
def Task.solution (t : Task) : SolutionInfo where
  seed := t.dpi.seed
  numFlipsDone := t.dpi.numFlipsDone
  solveDuration := t.dpi.solveDuration
  numVars := t.dpi.numVars
  numClauses := t.dpi.numClauses
  filename := t.name

section Attributed

-- the files with their numbers, and what an execution of a task can measure
variable (assigned : ProblemInstanceMetadata → UInt32 → Prop) (measures : Task → DoneProcessingInfo → Prop)

/-- A task as `create_tasks` makes it of a file. -/
def Task.Queued (t : Task) : Prop := ∃ pim taskId, assigned pim taskId ∧ t = .new pim taskId

/-- Such a task after its execution. -/
def Task.Executed (t : Task) : Prop :=
  ∃ pim taskId measured, assigned pim taskId ∧ measures (.new pim taskId) measured ∧
    t = (Task.new pim taskId).execute measured

/-- What the worker says is the result of an execution. -/
def W2S.Attributed : W2S → Prop
  | .foundSolution info => ∃ t : Task, t.Executed assigned measures ∧ t.dpi.solved = true ∧ info = t.solution
  | .doneProcessing info => ∃ t : Task, t.Executed assigned measures ∧ info = t.dpi
  | .getInstances _ | .disconnect => True

/-- The jobs sent to the worker are about files with their numbers. -/
def S2W.Attributed : S2W → Prop
  | .sendInstances jobs => ∀ j ∈ jobs, assigned j.metadata j.taskId
  | .activateWorker | .terminate => True

def Thread.Attributed : Thread → Prop
  | .holding t | .executing t => t.Queued assigned
  | .executed t => t.Queued assigned ∨ t.Executed assigned measures
  | .polling | .locking | .finished => True

/-- Every task of the worker is one of a file, from the job it comes from to the report about it. -/
structure Worker.Attributed (w : Worker) : Prop where
  inbox : ∀ msg ∈ w.inbox, msg.Attributed assigned
  creating : ∀ jobs awaited, w.point = .creating jobs awaited → ∀ j ∈ jobs, assigned j.metadata j.taskId
  tasks : ∀ t ∈ w.tasks, t.Queued assigned
  threads : ∀ u ∈ w.threads, u.Attributed assigned measures
  tasksDone : ∀ t ∈ w.tasksDone, t.Queued assigned ∨ t.Executed assigned measures
  outbox : ∀ msg ∈ w.outbox, msg.Attributed assigned measures

end Attributed

variable {assigned assigned' : ProblemInstanceMetadata → UInt32 → Prop} {measures : Task → DoneProcessingInfo → Prop}

theorem Task.Queued.fresh {t : Task} (h : t.Queued assigned) : t.Fresh := by
  obtain ⟨pim, taskId, -, rfl⟩ := h
  exact ⟨rfl, rfl⟩

section More

variable (hle : ∀ pim taskId, assigned pim taskId → assigned' pim taskId)
include hle

theorem Task.Queued.mono {t : Task} (h : t.Queued assigned) : t.Queued assigned' := by
  obtain ⟨pim, taskId, ha, rfl⟩ := h
  exact ⟨pim, taskId, hle _ _ ha, rfl⟩

theorem Task.Executed.mono {t : Task} (h : t.Executed assigned measures) : t.Executed assigned' measures := by
  obtain ⟨pim, taskId, measured, ha, hm, rfl⟩ := h
  exact ⟨pim, taskId, measured, hle _ _ ha, hm, rfl⟩

theorem W2S.Attributed.mono {msg : W2S} (h : msg.Attributed assigned measures) : msg.Attributed assigned' measures := by
  cases msg with
  | foundSolution info =>
    obtain ⟨t, ht, hs, rfl⟩ := h
    exact ⟨t, ht.mono hle, hs, rfl⟩
  | doneProcessing info =>
    obtain ⟨t, ht, rfl⟩ := h
    exact ⟨t, ht.mono hle, rfl⟩
  | getInstances _ | disconnect => trivial

/-- More files do no harm. -/
theorem Worker.Attributed.mono {w : Worker} (h : w.Attributed assigned measures) : w.Attributed assigned' measures where
  inbox msg hmsg := by
    have hat := h.inbox msg hmsg
    cases msg with
    | sendInstances jobs => exact fun j hj => hle _ _ (hat j hj)
    | activateWorker | terminate => trivial
  creating jobs awaited hp j hj := hle _ _ (h.creating jobs awaited hp j hj)
  tasks t ht := (h.tasks t ht).mono hle
  threads u hu := by
    have hat := h.threads u hu
    cases u with
    | holding t | executing t => exact Task.Queued.mono hle hat
    | executed t => exact hat.imp (Task.Queued.mono hle) (Task.Executed.mono hle)
    | polling | locking | finished => trivial
  tasksDone t ht := (h.tasksDone t ht).imp (Task.Queued.mono hle) (Task.Executed.mono hle)
  outbox msg hmsg := (h.outbox msg hmsg).mono hle

end More

/-! ## Steps of a worker -/

namespace Worker

variable {w w' : Worker}

theorem Attributed.start (n : UInt32) : Attributed assigned measures { numWorkers := n } where
  inbox msg h := by cases h
  creating jobs awaited h := by cases h
  tasks t h := by cases h
  threads u h := by cases h
  tasksDone t h := by cases h
  outbox msg h := by cases h

/-- Messages about files arrive. -/
theorem Attributed.push (h : w.Attributed assigned measures) {ms : List S2W}
    (hms : ∀ msg ∈ ms, msg.Attributed assigned) :
    Attributed assigned measures { w with inbox := w.inbox ++ ms } where
  inbox msg hmsg := (List.mem_append.1 hmsg).elim (h.inbox msg) (hms msg)
  creating := h.creating
  tasks := h.tasks
  threads := h.threads
  tasksDone := h.tasksDone
  outbox := h.outbox

/-- The main thread goes on to a point at which it has no jobs. -/
theorem Attributed.of_eq (h : w.Attributed assigned measures) (hin : w'.inbox = w.inbox)
    (hp : ∀ jobs awaited, w'.point ≠ .creating jobs awaited) (htasks : w'.tasks = w.tasks)
    (hthreads : w'.threads = w.threads)
    (hdone : w'.tasksDone = w.tasksDone) (hout : w'.outbox = w.outbox) : w'.Attributed assigned measures where
  inbox := by rw [hin]; exact h.inbox
  creating jobs awaited he := absurd he (hp jobs awaited)
  tasks := by rw [htasks]; exact h.tasks
  threads := by rw [hthreads]; exact h.threads
  tasksDone := by rw [hdone]; exact h.tasksDone
  outbox := by rw [hout]; exact h.outbox

theorem Attributed.abort (h : w.Attributed assigned measures) : w.abort.Attributed assigned measures := by
  apply h.of_eq <;> simp [Worker.abort]

/-- The worker says something more. -/
theorem Attributed.speak (h : w.Attributed assigned measures) (msg : W2S) (hmsg : msg.Attributed assigned measures) :
    Attributed assigned measures { w with outbox := w.outbox ++ [msg] } where
  inbox := h.inbox
  creating := h.creating
  tasks := h.tasks
  threads := h.threads
  tasksDone := h.tasksDone
  outbox msg' h' := by
    rcases List.mem_append.1 h' with h' | h'
    · exact h.outbox msg' h'
    · rw [List.mem_singleton.1 h']
      exact hmsg

theorem Attributed.leave (h : w.Attributed assigned measures) : w.leave.Attributed assigned measures := by
  have hsays := h.speak .disconnect trivial
  constructor
  · exact h.inbox
  · intro jobs awaited he
    cases he
  · intro t ht
    cases ht
  · exact h.threads
  · intro t ht
    cases ht
  · exact hsays.outbox

theorem Attributed.receive (h : w.Attributed assigned measures) (hs : w.receive = some w') :
    w'.Attributed assigned measures := by
  unfold Worker.receive at hs
  split at hs
  · cases hs
  · rename_i msg rest hin
    have hfirst : msg.Attributed assigned := h.inbox msg (by rw [hin]; exact List.mem_cons_self)
    have hrest : Attributed assigned measures { w with inbox := rest } :=
      ⟨fun m hm => h.inbox m (by rw [hin]; exact List.mem_cons_of_mem _ hm), h.creating, h.tasks,
        h.threads, h.tasksDone, h.outbox⟩
    cases msg with
    | activateWorker =>
      simp only at hs
      split at hs <;> cases hs
      · exact hrest
      · refine ⟨hrest.inbox, ?_, h.tasks, ?_, h.tasksDone, h.outbox⟩
        · intro jobs awaited he
          cases he
        · intro u hu
          rcases List.mem_append.1 hu with hu | hu
          · exact h.threads u hu
          · rw [(List.mem_replicate.1 hu).2]
            trivial
    | terminate =>
      cases hs
      exact ⟨hrest.inbox, h.creating, h.tasks, h.threads, h.tasksDone, h.outbox⟩
    | sendInstances jobs =>
      simp only at hs
      split at hs <;> cases hs
      · refine ⟨hrest.inbox, ?_, h.tasks, h.threads, h.tasksDone, h.outbox⟩
        rintro jobs' awaited he
        cases he
        exact hfirst
      · refine ⟨hrest.inbox, ?_, h.tasks, h.threads, h.tasksDone, h.outbox⟩
        rintro jobs' awaited he
        cases he
        exact fun j hj => absurd hj List.not_mem_nil

/-- A solution is announced, and a report is sent, of an executed task only. -/
theorem Attributed.returnTask {t : Task} {rest : List Task} {thrown : Worker → Worker}
    (h : w.Attributed assigned measures) (hd : w.tasksDone = t :: rest)
    (hthrown : ∀ w₁ : Worker, w₁.Attributed assigned measures → (thrown w₁).Attributed assigned measures) :
    (w.returnTask t rest thrown).Attributed assigned measures := by
  have hmem : ∀ t' ∈ t :: rest, t'.Queued assigned ∨ t'.Executed assigned measures := by rw [← hd]; exact h.tasksDone
  have hfirst := hmem t List.mem_cons_self
  have hrest : Attributed assigned measures { w with tasksDone := rest } :=
    ⟨h.inbox, h.creating, h.tasks, h.threads, fun t' ht' => hmem t' (List.mem_cons_of_mem _ ht'), h.outbox⟩
  have hann : (announce t { w with tasksDone := rest }).Attributed assigned measures := by
    unfold announce
    split
    · rename_i hsolved
      have hexec : t.Executed assigned measures := by
        apply hfirst.resolve_left
        intro hq
        rw [hq.fresh.2] at hsolved
        cases hsolved
      exact hrest.speak (.foundSolution t.solution) ⟨t, hexec, hsolved, rfl⟩
    · exact hrest
  unfold Worker.returnTask
  simp only
  split
  · apply hthrown
    exact ⟨hann.inbox, hann.creating, hann.tasks, hann.threads, hann.tasksDone, hann.outbox⟩
  · rename_i hne
    have hexec : t.Executed assigned measures := hfirst.resolve_left fun hq => hne hq.fresh.1
    exact hann.speak (.doneProcessing t.dpi) ⟨t, hexec, rfl⟩

/-- The tasks of a job are about its file. -/
theorem Attributed.createTasks {j : Job} {rest : List Job} {awaited : Bool} (readable : Bool)
    (h : w.Attributed assigned measures) (hp : w.point = .creating (j :: rest) awaited) :
    (w.createTasks j rest awaited readable).Attributed assigned measures := by
  have hjobs := h.creating _ _ hp
  unfold Worker.createTasks
  split
  · exact h.abort
  · refine ⟨h.inbox, ?_, ?_, h.threads, h.tasksDone, h.outbox⟩
    · rintro jobs awaited' he
      cases he
      exact fun j' hj' => hjobs j' (List.mem_cons_of_mem _ hj')
    · intro t ht
      rcases List.mem_append.1 ht with ht | ht
      · exact h.tasks t ht
      · rw [(List.mem_replicate.1 ht).2]
        exact ⟨_, _, hjobs j List.mem_cons_self, rfl⟩

theorem Attributed.mainStep {ok : Bool} {instancesToGet : UInt32} (h : w.Attributed assigned measures)
    (hs : w.mainStep ok instancesToGet = some w') :
    w'.Attributed assigned measures := by
  -- the main thread has no job in hand at the point it goes on to
  have hgo : ∀ (p : Point) (running : Bool), (∀ jobs awaited, p ≠ .creating jobs awaited) →
      Attributed assigned measures { w with point := p, running := running } :=
        fun p running hp => h.of_eq rfl hp rfl rfl rfl rfl
  unfold Worker.mainStep at hs
  split at hs
  · exact h.receive hs
  · split at hs
    · split at hs <;> cases hs
      · exact hgo .probing w.running (by simp)
      · rename_i t rest hd
        exact h.returnTask hd fun _ h₁ => h₁.abort
    · cases hs
      exact hgo .joining w.running (by simp)
  · split at hs <;> cases hs
    · exact hgo .requesting false (by simp)
    · exact h.abort
    · exact hgo .requesting w.running (by simp)
  · split at hs <;> cases hs
    · have hsays := h.speak (.getInstances instancesToGet) trivial
      exact hsays.of_eq rfl (by simp) rfl rfl rfl rfl
    · exact hgo .top w.running (by simp)
  · exact h.receive hs
  · rename_i awaited _
    cases hs
    apply hgo
    cases awaited <;> simp
  · rename_i hp
    cases hs
    exact h.createTasks ok hp
  · split at hs <;> cases hs
    exact hgo .draining w.running (by simp)
  · split at hs <;> cases hs
    · exact h.leave
    · rename_i t rest hd
      exact h.returnTask hd fun _ h₁ => h₁.leave
  · cases hs
  · cases hs

theorem Attributed.setThread {i : Nat} {u : Thread} (h : w.Attributed assigned measures)
    (hu : u.Attributed assigned measures) : (w.setThread i u).Attributed assigned measures := by
  refine ⟨h.inbox, h.creating, h.tasks, ?_, h.tasksDone, h.outbox⟩
  intro u' hu'
  obtain ⟨p, hp⟩ := List.mem_iff_getElem?.1 hu'
  obtain ⟨a, ha, ⟨-, rfl⟩ | ⟨-, rfl⟩⟩ := getElem?_modify_some hp
  · exact hu
  · exact h.threads _ (List.mem_of_getElem? ha)

/-- A thread executes the task it has taken. -/
theorem Attributed.threadStep {i : Nat} {outcome : Execution} (h : w.Attributed assigned measures)
    (hexec : ∀ t measured, w.threads[i]? = some (.executing t) → outcome = .done measured → measures t measured)
    (hs : w.threadStep i outcome = some w') : w'.Attributed assigned measures := by
  have hat : ∀ {u : Thread}, w.threads[i]? = some u → u.Attributed assigned measures := fun hu =>
    h.threads _ (List.mem_of_getElem? hu)
  unfold Worker.threadStep at hs
  split at hs
  · cases hs
  split at hs
  · cases hs
  · cases hs
    apply h.setThread
    cases w.running <;> trivial
  · split at hs <;> cases hs
    · exact h.setThread trivial
    · rename_i t rest htasks
      have hall : ∀ t' ∈ t :: rest, t'.Queued assigned := by rw [← htasks]; exact h.tasks
      have hrest : Attributed assigned measures { w with tasks := rest } :=
        ⟨h.inbox, h.creating, fun t' ht' => hall t' (List.mem_cons_of_mem _ ht'), h.threads, h.tasksDone, h.outbox⟩
      exact hrest.setThread (hall t List.mem_cons_self)
  · rename_i t ht
    split at hs <;> cases hs
    · have hqueued : t.Queued assigned := hat ht
      exact h.setThread hqueued
    · have hdropped : Attributed assigned measures { w with dropped := w.dropped ++ [t.number] } :=
        ⟨h.inbox, h.creating, h.tasks, h.threads, h.tasksDone, h.outbox⟩
      exact hdropped.setThread trivial
  · rename_i t ht
    have hqueued : t.Queued assigned := hat ht
    split at hs <;> cases hs
    · exact h.setThread (.inl hqueued)
    · rename_i measured
      have hm := hexec t measured ht rfl
      obtain ⟨pim, taskId, ha, rfl⟩ := hqueued
      exact h.setThread (.inr ⟨pim, taskId, measured, ha, hm, rfl⟩)
    · exact h.abort
  · rename_i t ht
    cases hs
    have hdone : Attributed assigned measures
        { w with tasksDone := w.tasksDone ++ [t] } := by
      refine ⟨h.inbox, h.creating, h.tasks, h.threads, ?_, h.outbox⟩
      intro t' ht'
      rcases List.mem_append.1 ht' with ht' | ht'
      · exact h.tasksDone t' ht'
      · rw [List.mem_singleton.1 ht']
        exact hat ht
    exact hdone.setThread trivial
  · cases hs

end Worker

/-! ## What the server hands out -/

namespace Server

variable {s s' : Server} {e : Event}

/-- The files in the order of their numbers. -/
def files (s : Server) : List ProblemInstanceMetadata := s.availableTasks.map fun t => t.metadata

/-- The file has this number. -/
def Assigned (s : Server) (pim : ProblemInstanceMetadata) (taskId : UInt32) : Prop := s.files[taskId.toNat]? = some pim

/-- A change of one task that keeps its file. -/
theorem files_modifyTask {taskId : UInt32} {f : TaskInfo → TaskInfo}
    (hf : ∀ t, s.availableTasks[taskId.toNat]? = some t → (f t).metadata = t.metadata) :
    (s.modifyTask taskId f).files = s.files := by
  apply List.ext_getElem?
  intro p
  unfold files modifyTask
  rw [List.getElem?_map, List.getElem?_map]
  by_cases he : taskId.toNat = p
  · subst he
    rw [List.getElem?_modify_eq]
    cases ht : s.availableTasks[taskId.toNat]? with
    | none => rfl
    | some t => exact congrArg some (hf t ht)
  · rw [List.getElem?_modify_ne _ _ he]

theorem files_reschedule (taskId : UInt32) (t : TaskInfo) (s : Server) : (s.reschedule taskId t).files = s.files := by
  unfold reschedule
  simp only
  split
  · exact files_modifyTask fun _ _ => rfl
  · rfl

/-- A report changes no file. -/
theorem files_doneProcessing {info : DoneProcessingInfo} (h : s.processW2sDoneProcessing info = .ok s') :
    s'.files = s.files := by
  obtain ⟨t, st, ht, -, -, hf⟩ := processW2sDoneProcessing_ok h
  have hfinish : s'.files = ((s.booked info (t.returned st info.instancesProcessed)).reschedule info.taskId
      (t.returned st info.instancesProcessed)).files := by
    unfold files
    rw [finish_frame hf]
  rw [hfinish, files_reschedule]
  apply files_modifyTask
  intro t' ht'
  rw [ht] at ht'
  cases ht'
  rfl

/-- The jobs of a reply are about the files with these numbers. -/
theorem assigned_assignLoop {rounds : Nat} {requested : UInt32} {reply : List Job}
    (h : assignLoop rounds requested [] s = .ok (s', reply)) :
    s'.files = s.files ∧ ∀ j ∈ reply, s.Assigned j.metadata j.taskId := by
  refine assignLoop_rule (P := fun s' reply => s'.files = s.files ∧ ∀ j ∈ reply, s.Assigned j.metadata j.taskId) ?_ h ?_
  · rintro s₁ reply requested taskId _ t s₂ _ j ⟨hfiles, hall⟩ _ ht ha
    obtain ⟨k, -, -, -, rfl, rfl⟩ := assignFront_ok ha
    have hmodified : (s₁.modifyTask taskId fun t' => t'.assign k (t.available requested ≤ k)).files = s₁.files :=
      files_modifyTask fun _ _ => rfl
    constructor
    · exact hmodified.trans hfiles
    · intro j hj
      rcases List.mem_append.1 hj with hj | hj
      · exact hall j hj
      · rw [List.mem_singleton.1 hj]
        unfold Assigned
        rw [← hfiles]
        unfold files
        rw [List.getElem?_map, ht]
        rfl
  · exact ⟨rfl, nofun⟩

/-- A poll adds files behind those there are. -/
theorem Handles.files_extend (h : s.Handles e s') : s.files <+: s'.files := by
  have hsame : s'.files = s.files → s.files <+: s'.files := fun h0 => h0 ▸ List.prefix_refl _
  cases h with
  | noWorker | noManager => exact hsame rfl
  | addFile data =>
    rw [processM2sAddFile_eq]
    refine ⟨[data], ?_⟩
    show _ = (s.availableTasks ++ [TaskInfo.new data]).map fun t => t.metadata
    rw [List.map_append]
    rfl
  | addWorkers hs =>
    obtain ⟨workers, -, rfl⟩ := processM2sAddWorkers_ok hs
    exact hsame rfl
  | terminate hs =>
    rw [sendTerminationToWorkers_frame hs]
    exact List.prefix_refl _
  | foundSolution _ hs =>
    obtain ⟨s₁, h1, rfl⟩ := processW2sFoundSolution_ok hs
    rw [sendTerminationToWorkers_frame h1]
    exact List.prefix_refl _
  | doneProcessing _ hs => exact hsame (files_doneProcessing hs)
  | getInstances _ hs =>
    obtain ⟨s₁, reply, rfl, ⟨-, h1⟩ | ⟨-, rfl, -⟩⟩ := processW2sGetInstances_ok hs
    · exact hsame (assigned_assignLoop h1).1
    · exact hsame rfl
  | disconnect =>
    rw [processW2sDisconnect_eq]
    exact List.prefix_refl _

/-- A file keeps its number. -/
theorem assigned_mono (h : s.files <+: s'.files) (pim : ProblemInstanceMetadata) (taskId : UInt32)
    (ha : s.Assigned pim taskId) :
    s'.Assigned pim taskId := by
  obtain ⟨new, hnew⟩ := h
  unfold Assigned at ha ⊢
  rw [← hnew, List.getElem?_append_left (List.getElem?_eq_some_iff.1 ha).1]
  exact ha

/-- The jobs it sends are about files with their numbers. -/
theorem Handles.jobs (h : s.Handles e s') :
    ∃ messages, s'.toWorkers = s.toWorkers ++ messages ∧ ∀ m ∈ messages, m.2.Attributed s'.Assigned := by
  by_cases hget : ∃ index requested, e = .pollWorkers (some (index, .getInstances requested))
  · obtain ⟨index, requested, rfl⟩ := hget
    cases h with
    | @getInstances _ _ comm _ _ hs =>
      obtain ⟨s₁, reply, rfl, ⟨-, h1⟩ | ⟨-, rfl, rfl⟩⟩ := processW2sGetInstances_ok hs
      · obtain ⟨hfiles, hjobs⟩ := assigned_assignLoop h1
        refine ⟨[(comm, .sendInstances reply)], by rw [(assignLoop_frame h1).1]; rfl, ?_⟩
        intro m hm
        rw [List.mem_singleton.1 hm]
        intro j hj
        show s₁.files[j.taskId.toNat]? = _
        rw [hfiles]
        exact hjobs j hj
      · refine ⟨_, rfl, ?_⟩
        intro m hm
        rw [List.mem_singleton.1 hm]
        exact fun j hj => absurd hj List.not_mem_nil
  · obtain ⟨messages, hsent, hplain⟩ := (h.plain fun index requested he => hget ⟨index, requested, he⟩).sent
    refine ⟨messages, hsent, ?_⟩
    intro m hm
    rcases hplain m hm with he | ⟨he, -⟩ <;> rw [he] <;> trivial

/-- The only solution it tells the manager is the one a worker has just announced. -/
theorem Handles.tells (h : s.Handles e s') {info : SolutionInfo} (hinfo : .foundSolution info ∈ s'.toManager) :
    .foundSolution info ∈ s.toManager ∨ ∃ index, e = .pollWorkers (some (index, .foundSolution info)) := by
  obtain ⟨new, hnew, hall⟩ := h.reports
  rw [hnew] at hinfo
  rcases List.mem_append.1 hinfo with hinfo | hinfo
  · exact .inl hinfo
  · rcases hall _ hinfo with ⟨index, info', rfl, he⟩ | ⟨t, -, he⟩
    · cases he
      exact .inr ⟨index, rfl⟩
    · cases he

end Server

/-- What a delivery adds to the inboxes was sent. -/
theorem mem_deliver_sent {P : S2W → Prop} : ∀ {messages : List (Comm × S2W)} {workers : List Worker} {w' : Worker},
    (∀ m ∈ messages, P m.2) → w' ∈ deliver messages workers →
      ∃ w ∈ workers, ∃ ms : List S2W, (∀ msg ∈ ms, P msg) ∧ w' = { w with inbox := w.inbox ++ ms }
  | [], _, w', _, h => ⟨w', h, [], nofun, by rw [List.append_nil]⟩
  | m :: rest, workers, w', hP, h => by
    obtain ⟨w₁, h₁, ms, hms, rfl⟩ := mem_deliver_sent (fun m hm => hP m (List.mem_cons_of_mem _ hm)) h
    obtain ⟨p, hp⟩ := List.mem_iff_getElem?.1 h₁
    obtain ⟨w, hw, ⟨-, rfl⟩ | ⟨-, rfl⟩⟩ := getElem?_modify_some hp
    · refine ⟨w, List.mem_of_getElem? hw, m.2 :: ms, ?_, by simp [Worker.push]⟩
      intro msg hmsg
      rcases List.mem_cons.1 hmsg with rfl | hmsg
      · exact hP m List.mem_cons_self
      · exact hms msg hmsg
    · exact ⟨_, List.mem_of_getElem? hw, ms, hms, rfl⟩

/-! ## Steps of the system -/

namespace Cluster

variable {numWorkers : Comm → UInt32} {c c' : Cluster} {a : Action}

/-- Everything at the workers and everything said about solutions comes from executions on the files of the server. -/
structure Attributed (measures : Task → DoneProcessingInfo → Prop) (c : Cluster) : Prop where
  workers : ∀ w ∈ c.workers, w.Attributed c.server.server.Assigned measures
  log : ∀ info, .foundSolution info ∈ c.server.server.toManager →
    W2S.Attributed c.server.server.Assigned measures (.foundSolution info)
  channel : ∀ info, .foundSolution info ∈ c.toManager → .foundSolution info ∈ c.server.server.toManager
  manager : c.manager.solutionFound = true → ∃ info, .foundSolution info ∈ c.server.server.toManager

theorem Attributed.start (measures : Task → DoneProcessingInfo → Prop) : Attributed measures {} where
  workers w h := by cases h
  log info h := by cases h
  channel info h := by cases h
  manager h := by cases h

end Cluster

def S2M.isSolution : S2M → Bool
  | .foundSolution _ => true
  | _ => false

/-- The server keeps a log of all it sends but DISCONNECT. -/
def S2M.logged : S2M → Bool
  | .disconnect => false
  | _ => true

theorem Manager.processServerCmd_solutionFound (m : Manager) (msg : S2M) :
    (m.processServerCmd msg).solutionFound = (m.solutionFound || msg.isSolution) := by
  cases msg with
  | foundSolution _ => exact (Bool.or_true _).symm
  | sendStatistics _ _ | disconnect => exact (Bool.or_false _).symm

/-- The manager knows of a solution once it has received one. -/
theorem Manager.step_solutionFound {m m' : Manager} {line : Command} {seen : Bool} {toServer sent : List M2S}
    {inbox rest : List S2M} (h : m.step line seen toServer inbox = some (m', sent, rest)) :
    ∃ got, inbox = got ++ rest ∧ m'.solutionFound = (m.solutionFound || got.any S2M.isSolution) := by
  have hadd : ∀ (n : Nat) (m₀ : Manager), (m₀.addSome n).1.solutionFound = m₀.solutionFound := by
    intro n m₀
    unfold addSome
    split <;> rfl
  have hexec : ∀ (cmd : Command) (m₀ : Manager), (m₀.execute cmd).1.solutionFound = m₀.solutionFound := by
    intro cmd m₀
    cases cmd with
    | addWorkers n =>
      unfold execute
      simp only
      split
      · rfl
      · exact hadd _ _
    | addFile _ | waitForServer | exit | other => rfl
  have hnone : m'.solutionFound = m.solutionFound → inbox = rest →
      ∃ got, inbox = got ++ rest ∧ m'.solutionFound = (m.solutionFound || got.any S2M.isSolution) := by
    rintro hsol rfl
    exact ⟨[], rfl, hsol.trans (Bool.or_false _).symm⟩
  have hone : ∀ msg, inbox = msg :: rest → m'.solutionFound = (m.processServerCmd msg).solutionFound →
      ∃ got, inbox = got ++ rest ∧ m'.solutionFound = (m.solutionFound || got.any S2M.isSolution) := by
    intro msg hin hsol
    refine ⟨[msg], hin, ?_⟩
    rw [hsol, processServerCmd_solutionFound, List.any_cons, List.any_nil, Bool.or_false]
  unfold Manager.step at h
  split at h
  · simp only [Option.some.injEq, Prod.mk.injEq] at h
    refine hnone ?_ h.2.2
    rw [← h.1]
    split <;> rw [hexec]
  · split at h
    · simp only [Option.some.injEq, Prod.mk.injEq] at h
      refine hnone ?_ h.2.2
      rw [← h.1, hadd]
    · cases h
  · split at h
    · cases h
    · rename_i msg rest'
      simp only at h
      split at h <;> simp only [Option.some.injEq, Prod.mk.injEq] at h <;> obtain ⟨rfl, -, rfl⟩ := h <;>
        exact hone msg rfl rfl
  · simp only at h
    split at h
    · rename_i msg rest'
      simp only [Option.some.injEq, Prod.mk.injEq] at h
      obtain ⟨rfl, -, rfl⟩ := h
      exact hone msg rfl rfl
    · simp only [Option.some.injEq, Prod.mk.injEq] at h
      refine hnone ?_ h.2.2
      rw [← h.1]
  · cases h

namespace Cluster

variable {numWorkers : Comm → UInt32} {c c' : Cluster} {a : Action}

/-- The manager receives what is in front of the channel, and `sent` goes to its end. -/
structure Hears (c c' : Cluster) (sent : List S2M) : Prop where
  channel : c.toManager ++ sent = Averaging.received c.toManager c'.toManager ++ c'.toManager
  log : c'.server.server.toManager.filter S2M.logged =
    c.server.server.toManager.filter S2M.logged ++ sent.filter S2M.logged
  manager : c'.manager.solutionFound =
    (c.manager.solutionFound || (Averaging.received c.toManager c'.toManager).any S2M.isSolution)

theorem Hears.sends {sent : List S2M} (hto : c'.toManager = c.toManager ++ sent)
    (hlog : c'.server.server.toManager.filter S2M.logged =
      c.server.server.toManager.filter S2M.logged ++ sent.filter S2M.logged)
    (hm : c'.manager = c.manager) : c.Hears c' sent where
  channel := by rw [hto, Averaging.received_sent, List.nil_append]
  log := hlog
  manager := by rw [hto, hm, Averaging.received_sent, List.any_nil, Bool.or_false]

theorem Hears.of_eq (hto : c'.toManager = c.toManager) (hserver : c'.server = c.server) (hm : c'.manager = c.manager) :
    c.Hears c' [] := by
  apply Hears.sends
  · rw [hto, List.append_nil]
  · rw [hserver]
    exact (List.append_nil _).symm
  · exact hm

theorem Hears.serve {c₁ : Cluster} {e : Event} (hserver : c₁.server = c.server) (hto : c₁.toManager = c.toManager)
    (hm : c₁.manager = c.manager) (he : c₁.serve numWorkers e = some c') : ∃ sent, c.Hears c' sent := by
  obtain ⟨sent, hchannel, hlog⟩ := serve_channel he
  have hmanager : c'.manager = c₁.manager := by
    obtain ⟨l, -, rfl⟩ := Option.map_eq_some_iff.1 he
    rfl
  refine ⟨sent, .sends ?_ ?_ ?_⟩
  · rw [hchannel, hto]
  · rw [hlog, hserver, List.filter_append]
  · rw [hmanager, hm]

theorem step_hears (hs : c.step numWorkers a = some c') : ∃ sent, c.Hears c' sent := by
  cases a with
  | manager line seen =>
    obtain ⟨⟨m, sent, rest⟩, hm, rfl⟩ := Option.map_eq_some_iff.1 hs
    obtain ⟨got, hgot, hsol⟩ := Manager.step_solutionFound hm
    have hreceived : Averaging.received c.toManager rest = got := by rw [hgot, Averaging.received_append]
    refine ⟨[], ?_, (List.append_nil _).symm, ?_⟩
    · show c.toManager ++ [] = Averaging.received c.toManager rest ++ rest
      rw [hreceived, List.append_nil, hgot]
    · show m.solutionFound = (c.manager.solutionFound || (Averaging.received c.toManager rest).any S2M.isSolution)
      rw [hreceived, hsol]
  | serverPollsWorkers index =>
    cases index with
    | none => exact Hears.serve rfl rfl rfl hs
    | some index =>
      obtain ⟨comm, w, msg, rest, -, -, -, he⟩ := step_receives hs
      refine Hears.serve ?_ ?_ ?_ he <;> rfl
  | serverPollsManager seen =>
    cases seen with
    | false => exact Hears.serve rfl rfl rfl hs
    | true =>
      obtain ⟨cmd, rest, he⟩ := step_pollsManager hs
      refine Hears.serve ?_ ?_ ?_ he <;> rfl
  | serverLeaves =>
    simp only [step] at hs
    split at hs <;> cases hs
    refine ⟨[.disconnect], .sends rfl ?_ rfl⟩
    exact (List.append_nil _).symm
  | workerMain comm ok n =>
    obtain ⟨w, w', -, -, rfl⟩ := step_workerMain hs
    exact ⟨[], .of_eq rfl rfl rfl⟩
  | workerThread comm i outcome =>
    obtain ⟨w, w', -, -, rfl⟩ := step_workerThread hs
    exact ⟨[], .of_eq rfl rfl rfl⟩

/-- The server only says more. -/
theorem step_log (hs : c.step numWorkers a = some c') :
    ∃ messages, c'.server.server.toManager = c.server.server.toManager ++ messages := by
  rcases step_statistics hs with ⟨_, -, -, hbooks⟩ | ⟨-, hadds⟩
  · obtain ⟨messages, hlog, -⟩ := hbooks.log
    exact ⟨messages, hlog⟩
  · obtain ⟨messages, hlog, -⟩ := hadds.log
    exact ⟨messages, hlog⟩

/-- What the server has told the manager of, whether it has arrived or not. -/
def Told (c : Cluster) (sol : SolutionInfo) : Prop := .foundSolution sol ∈ c.server.server.toManager

theorem Told.step {sol : SolutionInfo} (h : c.Told sol) (hs : c.step numWorkers a = some c') : c'.Told sol := by
  obtain ⟨messages, hlog⟩ := step_log hs
  unfold Told
  rw [hlog]
  exact List.mem_append_left _ h

/-- The solutions in the channel are told by the server, those that arrive and those that stay. -/
theorem Hears.told {sent : List S2M} (h : c.Hears c' sent) (hs : c.step numWorkers a = some c')
    (htold : ∀ sol, .foundSolution sol ∈ c.toManager → c.Told sol) {sol : SolutionInfo}
    (hsol : .foundSolution sol ∈ Averaging.received c.toManager c'.toManager ++ c'.toManager) : c'.Told sol := by
  rw [← h.channel] at hsol
  rcases List.mem_append.1 hsol with hsol | hsol
  · exact (htold sol hsol).step hs
  · have hin : .foundSolution sol ∈ c'.server.server.toManager.filter S2M.logged := by
      rw [h.log]
      exact List.mem_append_right _ (List.mem_filter.2 ⟨hsol, rfl⟩)
    exact List.mem_of_mem_filter hin

variable {measures : Task → DoneProcessingInfo → Prop}

/-- The server polls after it has received what a worker said. -/
theorem Attributed.serve {c₁ : Cluster} {e : Event} (h : c.Attributed measures) (hserver : c₁.server = c.server)
    (hworkers : ∀ w ∈ c₁.workers, w.Attributed c.server.server.Assigned measures)
    (hmsg : ∀ index info, e = .pollWorkers (some (index, .foundSolution info)) →
      W2S.Attributed c.server.server.Assigned measures (.foundSolution info))
    (he : c₁.serve numWorkers e = some c') :
    (∀ w ∈ c'.workers, w.Attributed c'.server.server.Assigned measures) ∧
      ∀ info, .foundSolution info ∈ c'.server.server.toManager →
        W2S.Attributed c'.server.server.Assigned measures (.foundSolution info) := by
  obtain ⟨hh, hw⟩ := serve_some he
  rw [hserver] at hh hw
  have hmono := Server.assigned_mono hh.files_extend
  constructor
  · obtain ⟨messages, hsent, hjobs⟩ := hh.jobs
    rw [hsent, List.drop_left] at hw
    intro w' hw'
    rw [hw] at hw'
    obtain ⟨w, hin, ms, hms, rfl⟩ :=
      mem_deliver_sent (P := fun msg => msg.Attributed c'.server.server.Assigned) hjobs hw'
    rcases List.mem_append.1 hin with hin | hin
    · exact ((hworkers w hin).mono hmono).push hms
    · obtain ⟨comm, -, rfl⟩ := List.mem_map.1 hin
      exact (Worker.Attributed.start _).push hms
  · intro info hinfo
    rcases hh.tells hinfo with hinfo | ⟨index, rfl⟩
    · exact (h.log info hinfo).mono hmono
    · exact (hmsg index info rfl).mono hmono

theorem Attributed.step (h : c.Attributed measures)
    (hexec : ∀ comm i measured w t, a = .workerThread comm i (.done measured) → c.workers[comm]? = some w →
      w.threads[i]? = some (.executing t) → measures t measured)
    (hs : c.step numWorkers a = some c') : c'.Attributed measures := by
  have hboth : (∀ w ∈ c'.workers, w.Attributed c'.server.server.Assigned measures) ∧
      ∀ info, .foundSolution info ∈ c'.server.server.toManager →
        W2S.Attributed c'.server.server.Assigned measures (.foundSolution info) := by
    cases step_advances hs with
    | quiet hserver hw =>
      rw [hserver, hw]
      exact ⟨h.workers, h.log⟩
    | serves hserver hw hm he =>
      refine h.serve hserver (by rw [hw]; exact h.workers) ?_ he
      rintro index info rfl
      rcases hm with hm | ⟨_, hm⟩ <;> cases hm
    | @receives index comm w msg rest _ _ hw ho he =>
      have hout := (h.workers w (List.mem_of_getElem? hw)).outbox
      rw [ho] at hout
      have hserver : (c.received comm rest).server = c.server := rfl
      refine h.serve hserver ?_ ?_ he
      · intro w₁ hw₁
        obtain ⟨p, hp⟩ := List.mem_iff_getElem?.1 hw₁
        rcases mem_received hw hp with ⟨-, rfl⟩ | ⟨-, hp⟩
        · have hat := h.workers w (List.mem_of_getElem? hw)
          exact ⟨hat.inbox, hat.creating, hat.tasks, hat.threads, hat.tasksDone,
            fun m hm => hout m (List.mem_cons_of_mem _ hm)⟩
        · exact h.workers w₁ (List.mem_of_getElem? hp)
      · rintro index' info he
        cases he
        exact hout _ List.mem_cons_self
    | mains hw hm =>
      rw [hw.server]
      exact ⟨hw.mem h.workers ((h.workers _ (List.mem_of_getElem? hw.found)).mainStep hm), h.log⟩
    | @threads comm i outcome w w' _ hw ht =>
      rw [hw.server]
      refine ⟨hw.mem h.workers ?_, h.log⟩
      refine (h.workers _ (List.mem_of_getElem? hw.found)).threadStep ?_ ht
      rintro t measured hex rfl
      exact hexec comm i measured w t rfl hw.found hex
  obtain ⟨sent, hears⟩ := step_hears hs
  refine ⟨hboth.1, hboth.2, ?_, ?_⟩
  · intro info hinfo
    exact hears.told hs h.channel (List.mem_append_right _ hinfo)
  · intro hm
    rw [hears.manager] at hm
    rcases Bool.or_eq_true_iff.1 hm with hm | hm
    · obtain ⟨info, hinfo⟩ := h.manager hm
      exact ⟨info, Told.step hinfo hs⟩
    · obtain ⟨msg, hmsg, hsol⟩ := List.any_eq_true.1 hm
      cases msg with
      | foundSolution info => exact ⟨info, hears.told hs h.channel (List.mem_append_left _ hmsg)⟩
      | sendStatistics _ _ | disconnect => cases hsol

/-- Files are only added. -/
theorem step_files (hs : c.step numWorkers a = some c') : c.server.server.files <+: c'.server.server.files := by
  cases step_advances hs with
  | quiet hserver => rw [hserver]
  | serves hserver _ _ he =>
    rw [← hserver]
    exact (serve_some he).1.files_extend
  | receives _ _ _ he => exact (serve_some he).1.files_extend
  | mains hw => rw [hw.server]
  | threads hw => rw [hw.server]

/-- What the server receives of a worker comes from executions too. -/
theorem Attributed.polled (h : c.Attributed measures) (hs : c.step numWorkers a = some c') {msg : W2S}
    (hmsg : c.polled a = some msg) : msg.Attributed c.server.server.Assigned measures := by
  by_cases ha : ∃ index, a = .serverPollsWorkers (some index)
  · obtain ⟨index, rfl⟩ := ha
    obtain ⟨comm, w, msg', rest, hnext, hw, ho, -⟩ := step_receives hs
    rw [hnext] at hmsg
    cases hmsg
    apply (h.workers w (List.mem_of_getElem? hw)).outbox
    rw [ho]
    exact List.mem_cons_self
  · rw [polled_eq_none fun index he => ha ⟨index, he⟩] at hmsg
    cases hmsg

end Cluster

/-! ## What an execution says of its file -/

section Executions

variable {K : Type} [Zero K] [Add K] [LT K] [DecidableLT K] {calcF : Int → K} {files : String → Text}

/-- How an execution ends that measures something. -/
theorem Task.outcome_done {t : Task} {x : Circumstances K} {text : Text} {calls : Nat} {measured : DoneProcessingInfo}
    (h : t.outcome calcF x text calls = some (.done measured)) :
    ∃ obj solver, (FormulaObject.new.after text calls).callInitialize text = (obj, .ok ()) ∧
      0 ≤ numT obj.toFormula.numClauses ∧
      solve obj.toFormula calcF x t.maxFlips.toNat (t.maxFlips.toNat + 1)
        (.new defaultBuild (visited obj.toFormula) x.memory x.belegung) = some solver ∧
      (solver.foundSolution = true → solver.checkAssignment (visited obj.toFormula) = true) ∧
      measured = { t.dpi with
        numVars := .ofInt obj.toFormula.numVars
        numClauses := .ofInt (numT obj.toFormula.numClauses)
        seed := x.seed
        initDuration := x.initDuration
        solveDuration := x.solveDuration
        numFlipsDone := .ofNat solver.getNumFlips
        solved := t.dpi.solved || solver.foundSolution
        overallDuration := x.overallDuration } := by
  unfold Task.outcome at h
  split at h
  · cases h
  · rename_i obj _ hcall
    simp only at h
    split at h
    · cases h
    · rename_i hnonneg
      obtain ⟨solver, hsolver, he⟩ := Option.map_eq_some_iff.1 h
      split at he <;> cases he
      rename_i hchecked
      refine ⟨obj, solver, hcall, not_lt.1 hnonneg, hsolver, ?_, rfl⟩
      intro hfound
      rw [hfound] at hchecked
      simpa using hchecked

/-- An execution of the solver on the task's file can measure this. -/
def Measures (calcF : Int → K) (files : String → Text) (t : Task) (measured : DoneProcessingInfo) : Prop :=
  ∃ x calls, t.outcome calcF x (files t.name) calls = some (.done measured)

/-- The assignment satisfies every clause line of the text. -/
def SatisfiesText (text : Text) (a : Int → Bool) : Prop :=
  ∀ line ∈ textLines text, isClauseLine line = true → clauseSat a (storedLiterals line) = true

/-- A clause that is not stored is satisfied by every assignment. -/
theorem clauseSat_of_isAlwaysTrue {c : Clause} (h : isAlwaysTrue c = true) (a : Int → Bool) : clauseSat a c = true := by
  obtain ⟨x, hx, h0, hneg⟩ := isAlwaysTrue_complementary h
  apply List.any_eq_true.2
  cases ha : litTrue a x with
  | true => exact ⟨x, hx, ha⟩
  | false => exact ⟨-x, hneg, by rw [litTrue_neg a h0, ha]; rfl⟩

theorem satisfiesText_of_kept {text : Text} {a : Int → Bool}
    (h : SerialInstance.Satisfies (keptClauses (textLines text)) a) :
    SatisfiesText text a := by
  intro line hline hclause
  cases htrue : isAlwaysTrue (storedLiterals line) with
  | true => exact clauseSat_of_isAlwaysTrue htrue a
  | false =>
    apply h
    apply List.mem_map_of_mem
    rw [List.mem_filter, hclause, htrue]
    exact ⟨hline, rfl⟩

/-- The check of a clause finds one of its literals, and that is true. -/
theorem clauseSat_of_isClauseSatisfied {s : SerialInstance} {c : Clause} (h : s.isClauseSatisfied c = true) :
    clauseSat s.assignment c = true := by
  unfold SerialInstance.isClauseSatisfied SerialInstance.getFirstSatisfiedLiteral at h
  cases hfind : c.seen.find? fun lit => 0 != lit && litTrue s.belegung.read lit with
  | none =>
    rw [hfind] at h
    cases h
  | some x =>
    have hx := List.mem_of_find?_eq_some hfind
    have ht := List.find?_some hfind
    obtain ⟨k, hk, rfl⟩ := List.mem_map.1 hx
    apply List.any_eq_true.2
    exact ⟨_, Clause.subscript_mem (List.mem_range.1 hk), (Bool.and_eq_true _ _ ▸ ht).2⟩

theorem satisfies_of_checkAssignment {s : SerialInstance} {F : CnfFormula} (h : s.checkAssignment F = true) :
    SerialInstance.Satisfies F.clauses s.assignment := by
  intro c hc
  obtain ⟨k, hk, rfl⟩ := List.getElem_of_mem hc
  have hclause := List.all_eq_true.1 h k (List.mem_range.2 hk)
  have hget : F.getClause k = F.clauses[k] := by simp [CnfFormula.getClause, hk]
  rw [hget] at hclause
  exact clauseSat_of_isClauseSatisfied hclause

/-- All clauses are visited when a `num_t` can count them. -/
theorem visited_clauses {F : CnfFormula} (h : F.clauses.length < 2 ^ 31) : (visited F).clauses = F.clauses := by
  have hnum : (numT F.numClauses).toNat = F.clauses.length := by
    unfold CnfFormula.numClauses numT
    rw [Int.bmod_def]
    split <;> omega
  unfold visited
  simp only
  rw [hnum, List.take_length]

/-- An execution that reports a solution has one, of all clauses of a file that `read` accepts. -/
theorem Measures.satisfies {t : Task} {measured : DoneProcessingInfo} (h : Measures calcF files t measured)
    (ht : t.dpi.solved = false) (hs : measured.solved = true) {r : Input} (hr : read (files t.name) = .ok r)
    (hlt : r.clauses.length < 2 ^ 31) : ∃ a, SatisfiesText (files t.name) a := by
  obtain ⟨x, calls, h⟩ := h
  obtain ⟨obj, solver, hcall, -, -, hchecked, rfl⟩ := Task.outcome_done h
  have hobj := (FormulaObject.after_read hr calls).1
  rw [FormulaObject.after, hcall] at hobj
  -- the solution was checked before it is reported
  have hfound : solver.foundSolution = true := by
    replace hs : (t.dpi.solved || solver.foundSolution) = true := hs
    rwa [ht, Bool.false_or] at hs
  have hF : obj.toFormula.clauses = r.clauses := hobj
  have hstored : (visited obj.toFormula).clauses = keptClauses (textLines (files t.name)) := by
    rw [visited_clauses (by rw [hF]; exact hlt), hF]
    exact (read_ok hr).clauses
  refine ⟨solver.assignment, satisfiesText_of_kept ?_⟩
  rw [← hstored]
  exact satisfies_of_checkAssignment (hchecked hfound)

theorem Measures.flips_le {t : Task} {measured : DoneProcessingInfo} (h : Measures calcF files t measured) :
    measured.numFlipsDone.toNat ≤ max 1 t.maxFlips.toNat := by
  obtain ⟨x, calls, h⟩ := h
  obtain ⟨obj, solver, -, -, hsolver, -, rfl⟩ := Task.outcome_done h
  obtain ⟨-, -, hmax⟩ := solve_flips _ _ _ _ _ hsolver
  rw [SerialInstance.new_numFlips, zero_add] at hmax
  have hlt := t.maxFlips.toNat_lt
  show (UInt64.ofNat solver.getNumFlips).toNat ≤ _
  rw [UInt64.toNat_ofNat', Nat.mod_eq_of_lt (by omega)]
  exact hmax

/-! ## Runs on files -/

namespace Averaging

variable {numWorkers : Comm → UInt32} {s s' : Averaging} {as : List Action} {a : Action}

/-- So do the reports the server has collected. -/
structure Attributed (measures : Task → DoneProcessingInfo → Prop) (s : Averaging) : Prop where
  cluster : s.cluster.Attributed measures
  collected : ∀ info ∈ s.collected, W2S.Attributed s.cluster.server.server.Assigned measures (.doneProcessing info)

theorem Attributed.start {measures : Task → DoneProcessingInfo → Prop} : Attributed measures {} := ⟨.start _, nofun⟩

theorem Attributed.step {measures : Task → DoneProcessingInfo → Prop} (h : s.Attributed measures)
    (hexec : ∀ comm i measured w t, a = .workerThread comm i (.done measured) → s.cluster.workers[comm]? = some w →
      w.threads[i]? = some (.executing t) → measures t measured)
    (hs : s.step numWorkers a = some s') : s'.Attributed measures := by
  obtain ⟨c, hc, rfl⟩ := Option.map_eq_some_iff.1 hs
  obtain ⟨hcluster, hcollected⟩ := foldl_process_frame (received s.cluster.toManager c.toManager) { s with
    cluster := c
    collected := s.collected ++
      if s.cluster.server.server.statisticSend then [] else ((s.cluster.polled a).map W2S.reports).getD [] }
  have hmono := Server.assigned_mono (Cluster.step_files hc)
  constructor
  · rw [hcluster]
    exact h.cluster.step hexec hc
  · rw [hcluster, hcollected]
    intro info hinfo
    rcases List.mem_append.1 hinfo with hinfo | hinfo
    · exact (h.collected info hinfo).mono hmono
    · split at hinfo
      · cases hinfo
      · cases hpolled : s.cluster.polled a with
        | none =>
          rw [hpolled] at hinfo
          cases hinfo
        | some msg =>
          rw [hpolled] at hinfo
          have hmsg := h.cluster.polled hc hpolled
          cases msg with
          | doneProcessing info' =>
            obtain rfl : info = info' := List.mem_singleton.1 hinfo
            exact hmsg.mono hmono
          | foundSolution _ | getInstances _ | disconnect => cases hinfo

/-- What the executions of a run can measure, the reports have measured. -/
theorem attributed_of_runs {measures : Task → DoneProcessingInfo → Prop} {ok : List Action → Averaging → Action → Prop}
    (hok : ∀ as s comm i measured w t, ok as s (.workerThread comm i (.done measured)) →
      s.cluster.workers[comm]? = some w →
      w.threads[i]? = some (.executing t) → measures t measured)
    (h : Traced (Averaging.step numWorkers) ok [] {} as s) : s.Attributed measures := by
  refine h.invariant (P := fun _ s => s.Attributed measures) .start ?_
  intro as s a s' _ ih hallowed hs
  refine ih.step ?_ hs
  rintro comm i measured w t rfl hw ht
  exact hok as s comm i measured w t hallowed hw ht

theorem FileRun.attributed (h : FileRun numWorkers calcF files as s) : s.Attributed (Measures calcF files) := by
  apply attributed_of_runs ?_ h
  intro _ _ comm i measured w t hok hw ht
  obtain ⟨x, calls, hx⟩ := (hok w t hw ht).resolve_left (by simp)
  exact ⟨x, calls, hx⟩

/-- In every run, each report the server has collected is what the solver has measured in one execution on the file with
the reported number, within the flips of that file. -/
theorem reports_attributed (numWorkers : Comm → UInt32) (calcF : Int → K) (files : String → Text) (as : List Action)
    (s : Averaging) (h : FileRun numWorkers calcF files as s) (info : DoneProcessingInfo) (hinfo : info ∈ s.collected) :
    ∃ pim measured, s.cluster.server.server.Assigned pim info.taskId ∧
      Measures calcF files (.new pim info.taskId) measured ∧
      info = { measured with taskId := info.taskId, instancesProcessed := 1 } ∧
      info.numFlipsDone.toNat ≤ max 1 (Task.new pim info.taskId).maxFlips.toNat := by
  obtain ⟨t, ⟨pim, taskId, measured, ha, hm, rfl⟩, rfl⟩ := h.attributed.collected info hinfo
  exact ⟨pim, measured, ha, hm, rfl, hm.flips_le⟩

/-- In every run, the manager knows of a solution only when the server has sent one, and each solution the server has
sent is about a file that was added: when `read` accepts the file and a `num_t` counts its clauses, the file is
satisfiable. -/
theorem solutions_sound (numWorkers : Comm → UInt32) (calcF : Int → K) (files : String → Text) (as : List Action)
    (s : Averaging) (h : FileRun numWorkers calcF files as s) :
    (s.cluster.manager.solutionFound = true → ∃ info, .foundSolution info ∈ s.cluster.server.server.toManager) ∧
      ∀ info, .foundSolution info ∈ s.cluster.server.server.toManager →
        ∃ pim ∈ s.cluster.server.server.files, info.filename = pim.filename ∧
          ∀ r, read (files pim.filename) = .ok r → r.clauses.length < 2 ^ 31 →
            ∃ a, SatisfiesText (files pim.filename) a := by
  have hat := h.attributed.cluster
  constructor
  · exact hat.manager
  · intro info hinfo
    obtain ⟨t, ⟨pim, taskId, measured, ha, hm, rfl⟩, hsolved, rfl⟩ := hat.log info hinfo
    refine ⟨pim, List.mem_of_getElem? ha, rfl, ?_⟩
    intro r hr hlt
    exact hm.satisfies rfl hsolved hr hlt

/-- The report about the second file is what the solver has measured on it. -/
theorem reports_attributed_teamRun : ∃ s, FileRun (fun _ => 2) (fun _ => (1 : ℚ)) teamFiles teamRun s ∧
    ∃ measured, Measures (fun _ => (1 : ℚ)) teamFiles (.new (pairFile 5) 1) measured ∧
      { pairMeasured 2 true with instancesProcessed := 1 } =
        { measured with taskId := 1, instancesProcessed := 1 } := by
  obtain ⟨s, h, -, hcollected, hfiles, -⟩ := exists_teamRun
  have hinfo : { pairMeasured 2 true with instancesProcessed := 1 } ∈ s.collected := by
    rw [hcollected]
    exact pairMeasured_mem_teamCollected
  obtain ⟨pim, measured, ha, hm, he, -⟩ := reports_attributed (fun _ => 2) (fun _ => (1 : ℚ)) teamFiles teamRun s h _
    hinfo
  unfold Server.Assigned Server.files at ha
  rw [hfiles] at ha
  obtain rfl : pairFile 5 = pim := Option.some.inj ha
  exact ⟨s, h, measured, hm, he⟩

/-- Of the two files the second one is the one that is said to be solved, and it is satisfiable. -/
theorem solutions_sound_teamRun : ∃ s, FileRun (fun _ => 2) (fun _ => (1 : ℚ)) teamFiles teamRun s ∧
    ∃ info pim, .foundSolution info ∈ s.cluster.server.server.toManager ∧ pim ∈ [clashFile, pairFile 5] ∧
      info.filename = pim.filename ∧ ∃ a, SatisfiesText (teamFiles pim.filename) a := by
  obtain ⟨s, h, hsol, -, hfiles, -⟩ := exists_teamRun
  obtain ⟨hmanager, hall⟩ := solutions_sound (fun _ => 2) (fun _ => (1 : ℚ)) teamFiles teamRun s h
  obtain ⟨info, hinfo⟩ := hmanager hsol
  obtain ⟨pim, hpim, hname, hsat⟩ := hall info hinfo
  obtain ⟨r, hr, hlt⟩ : ∃ r, read (teamFiles pim.filename) = .ok r ∧ r.clauses.length < 2 ^ 31 := by
    have hclash : (read clashText).toOption.elim false (fun r => decide (r.clauses.length < 2 ^ 31)) = true := by
      decide +kernel
    have hpair : (read pairText).toOption.elim false (fun r => decide (r.clauses.length < 2 ^ 31)) = true := by
      decide +kernel
    have hone : ∀ {text : Text}, (read text).toOption.elim false (fun r => decide (r.clauses.length < 2 ^ 31)) = true →
        ∃ r, read text = .ok r ∧ r.clauses.length < 2 ^ 31 := by
      intro text hread
      obtain ⟨r, hr, hlt⟩ := ok_of_elim_toOption hread
      exact ⟨r, hr, of_decide_eq_true hlt⟩
    unfold teamFiles
    split
    · exact hone hclash
    · exact hone hpair
  exact ⟨s, h, info, pim, hinfo, hfiles ▸ hpim, hname, hsat r hr hlt⟩

end Averaging

end Executions

end ParallelProbsat.Communication
