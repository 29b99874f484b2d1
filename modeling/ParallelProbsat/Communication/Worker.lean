/-
A worker (`worker.cpp`, `worker_task.hpp`): the main thread that talks to the server, and the threads
that run tasks. Every thread advances in its own steps, a step being what happens between two points
at which the other threads can interfere: a test of `running`, a section under a mutex, a message.

`instances_to_get` is changed under two different mutexes, which `Slots` follows step by step. Here a
request may ask for any number of instances, as it does after a lost update. Instances the worker gives
up are noted in `dropped`, which the program does not have. It is proved that a worker loses no instance
out of sight.
-/
import ParallelProbsat.Communication.Messages
import ParallelProbsat.Lib.Tables

namespace ParallelProbsat.Communication

open ParallelProbsat.Lib

/-! ## The state -/

structure Task where
  maxFlips : UInt64
  name : String
  dpi : DoneProcessingInfo
  deriving DecidableEq, Repr

def defaultMaxFlips : UInt64 := 20000000

def Task.new (pim : ProblemInstanceMetadata) (taskId : UInt32) : Task where
  maxFlips := if pim.anzahlFlips ≠ 0 then pim.anzahlFlips.toUInt64 else defaultMaxFlips
  name := pim.filename
  dpi := { taskId := taskId, solved := false }

/-- The number of the file the task belongs to. -/
def Task.number (t : Task) : Nat := t.dpi.taskId.toNat

/-- How the execution of a task ends: with an exception, which `execute` catches, with the data of a
solver run, or with a failed assertion. -/
inductive Execution where
  | failed
  | done (measured : DoneProcessingInfo)
  | assertion
  deriving DecidableEq, Repr

/-- `execute`; after an exception `instances_processed` stays 0. -/
def Task.execute (t : Task) (measured : DoneProcessingInfo) : Task :=
  { t with dpi := { measured with taskId := t.dpi.taskId, instancesProcessed := 1 } }

/-- A task that was not executed yet. -/
def Task.Fresh (t : Task) : Prop := t.dpi.instancesProcessed = 0 ∧ t.dpi.solved = false

/-- A task that was executed, or could not be; then it is not solved. -/
def Task.Result (t : Task) : Prop := t.Fresh ∨ t.dpi.instancesProcessed = 1

/-- Where a thread is in `worker_func`. -/
inductive Thread where
  /-- Before a test of `running`, in `worker_func` or in `get_task`. -/
  | polling
  /-- In `get_task`, about to lock `task_mutex`. -/
  | locking
  /-- `get_task` has returned the task. -/
  | holding (t : Task)
  | executing (t : Task)
  | executed (t : Task)
  | finished
  deriving DecidableEq, Repr

/-- Where the main thread is. -/
inductive Point where
  /-- In `recieve_server_cmd(ACTIVATE_WORKER)`. -/
  | activating
  /-- At the head of `while (running)`. -/
  | top
  /-- No task is done: about to probe for a command. -/
  | probing
  /-- About to decide whether instances are requested. -/
  | requesting
  /-- In `recieve_server_cmd(SEND_INSTANCES)`. -/
  | awaiting
  /-- In `create_tasks`, with the jobs still to do; `awaited`: they came with the awaited command. -/
  | creating (jobs : List Job) (awaited : Bool)
  | joining
  | draining
  /-- DISCONNECT is sent. -/
  | leaving
  /-- The process has ended by `std::terminate` or a failed assertion. -/
  | aborted
  deriving DecidableEq, Repr

/-- The instances the main thread has in hand. -/
def Point.held : Point → List Nat
  | .creating jobs _ => jobs.flatMap Job.instances
  | _ => []

structure Worker where
  /-- `num_workers`, the number of threads. -/
  numWorkers : UInt32
  point : Point := .activating
  running : Bool := true
  /-- The messages of the server not yet received, oldest first. -/
  inbox : List S2W := []
  /-- The messages to the server it has not yet received, oldest first. -/
  outbox : List W2S := []
  threads : List Thread := []
  tasks : List Task := []
  tasksDone : List Task := []
  dropped : List Nat := []
  deriving DecidableEq, Repr

namespace Worker

/-! ## The main thread -/

/-- The process ends where it is. -/
def abort (w : Worker) : Worker := { w with point := .aborted, dropped := w.dropped ++ w.point.held }

/-- The solution is announced with FOUND_SOLUTION. -/
def announce (t : Task) (w : Worker) : Worker :=
  if t.dpi.solved then
    { w with outbox := w.outbox ++ [.foundSolution {
        seed := t.dpi.seed, numFlipsDone := t.dpi.numFlipsDone, solveDuration := t.dpi.solveDuration,
        numVars := t.dpi.numVars, numClauses := t.dpi.numClauses, filename := t.name }] }
  else w

/-- `return_task` of the oldest task in `tasks_done`; `thrown` is what follows the exception it throws when
the task could not be executed. -/
def returnTask (t : Task) (rest : List Task) (thrown : Worker → Worker) (w : Worker) : Worker :=
  let w := announce t { w with tasksDone := rest }
  if t.dpi.instancesProcessed = 0 then thrown { w with dropped := w.dropped ++ [t.number] }
  else { w with outbox := w.outbox ++ [.doneProcessing t.dpi] }

/-- One message of `recieve_server_cmd`, which goes on until the awaited command has come. -/
def receive (w : Worker) : Option Worker :=
  match w.inbox with
  | [] => none
  | msg :: rest =>
    let w := { w with inbox := rest }
    let awaited : Bool := w.point = .awaiting
    match msg with
    | .activateWorker =>
      if awaited then some w
      else some { w with
        threads := w.threads ++ List.replicate w.numWorkers.toNat .polling
        point := .top }
    | .terminate => some { w with running := false }
    | .sendInstances jobs =>
      if w.running then some { w with point := .creating jobs awaited }
      else some { w with point := .creating [] awaited, dropped := w.dropped ++ jobs.flatMap Job.instances }

/-- One job of `create_tasks`: the formula is read, then the tasks are queued under `task_mutex`. -/
def createTasks (j : Job) (rest : List Job) (awaited readable : Bool) (w : Worker) : Worker :=
  if j.numInstancesToStart = 0 ∨ readable = false then w.abort
  else { w with
    tasks := w.tasks ++ List.replicate j.numInstancesToStart.toNat (.new j.metadata j.taskId)
    point := .creating rest awaited }

/-- The end of `main`: what is left in the queues is given up. -/
def leave (w : Worker) : Worker :=
  { w with
    outbox := w.outbox ++ [.disconnect]
    point := .leaving
    dropped := w.dropped ++ w.tasks.map Task.number ++ w.tasksDone.map Task.number
    tasks := []
    tasksDone := [] }

/-- A step of the main thread; `ok`: a probe sees the oldest message, a formula can be read. What it reads of
`instances_to_get` may be any number: the threads and the main thread update it without a lock (`Slots`). -/
def mainStep (ok : Bool) (instancesToGet : UInt32) (w : Worker) : Option Worker :=
  match w.point with
  | .activating => w.receive
  | .top =>
    if w.running then
      match w.tasksDone with
      | [] => some { w with point := .probing }
      | t :: rest => some (w.returnTask t rest abort) -- on an exception the threads are still joinable
    else some { w with point := .joining }
  | .probing =>
    -- the probed message is processed without being received
    match w.inbox, ok with
    | .terminate :: _, true => some { w with running := false, point := .requesting }
    | .sendInstances _ :: _, true => some w.abort
    | _, _ => some { w with point := .requesting }
  | .requesting =>
    if w.running ∧ 0 < instancesToGet then
      some { w with outbox := w.outbox ++ [.getInstances instancesToGet], point := .awaiting }
    else some { w with point := .top }
  | .awaiting => w.receive
  | .creating [] awaited => some { w with point := if awaited then .top else .activating }
  | .creating (j :: rest) awaited => some (w.createTasks j rest awaited ok)
  | .joining => if ∀ t ∈ w.threads, t = .finished then some { w with point := .draining } else none
  | .draining =>
    match w.tasksDone with
    | [] => some w.leave
    | t :: rest => some (w.returnTask t rest leave) -- the exception is caught at the end of `main`
  | .leaving => none
  | .aborted => none

/-! ## The threads -/

def setThread (w : Worker) (i : Nat) (t : Thread) : Worker := { w with threads := w.threads.modify i fun _ => t }

/-- A step of thread `i`; `outcome` matters when the step is the execution of a task. -/
def threadStep (i : Nat) (outcome : Execution) (w : Worker) : Option Worker :=
  if w.point = .aborted then none
  else match w.threads[i]? with
    | none => none
    | some .polling => some (w.setThread i (if w.running then .locking else .finished))
    | some .locking =>
      match w.tasks with
      | [] => some (w.setThread i .polling)
      | t :: rest => some ({ w with tasks := rest }.setThread i (.holding t))
    | some (.holding t) =>
      if w.running then some (w.setThread i (.executing t))
      else some ({ w with dropped := w.dropped ++ [t.number] }.setThread i .finished)
    | some (.executing t) =>
      match outcome with
      | .failed => some (w.setThread i (.executed t))
      | .done measured => some (w.setThread i (.executed (t.execute measured)))
      | .assertion => some w.abort
    | some (.executed t) =>
      some ({ w with tasksDone := w.tasksDone ++ [t] }.setThread i .polling)
    | some .finished => none

/-- The next step of the main thread gives up an instance although the worker goes on: the jobs of a reply
that comes after TERMINATE, the tasks still queued at the end, a task that could not be executed. -/
def mainGivesUp (w : Worker) : Bool :=
  match w.point with
  | .activating | .awaiting =>
    match w.inbox with
    | .sendInstances jobs :: _ => !w.running && !(jobs.flatMap Job.instances).isEmpty
    | _ => false
  | .draining =>
    match w.tasksDone with
    | [] => !w.tasks.isEmpty
    | t :: _ => t.dpi.instancesProcessed = 0
  | _ => false

/-- The next step of thread `i` gives up the task it has taken: the worker was terminated meanwhile. -/
def threadGivesUp (i : Nat) (w : Worker) : Bool :=
  match w.threads[i]? with
  | some (.holding _) => !w.running
  | _ => false

/-! ## What the main thread does -/

/-- A step of the main thread, one case for each kind. -/
inductive Moves (w : Worker) : Worker → Prop
  /-- On to the next point, with nothing in hand; a probe may have shown TERMINATE. -/
  | goes (p : Point) (running : Bool) (hp : w.point.held = []) (hq : p.held = [])
      (hold : w.point ≠ .activating ∧ w.point ≠ .awaiting ∧ w.point ≠ .leaving ∧ w.point ≠ .aborted)
      (hnew : p ≠ .awaiting ∧ p ≠ .leaving) (hjoin : p = .draining → ∀ t ∈ w.threads, t = .finished) :
      Moves w { w with point := p, running := running }
  | receives {w' : Worker} (hp : w.point = .activating ∨ w.point = .awaiting) (h : w.receive = some w') : Moves w w'
  | requests (instancesToGet : UInt32) (hp : w.point = .requesting) :
      Moves w { w with outbox := w.outbox ++ [.getInstances instancesToGet], point := .awaiting }
  | creates {j : Job} {rest : List Job} {awaited : Bool} (readable : Bool)
      (hp : w.point = .creating (j :: rest) awaited) :
      Moves w (w.createTasks j rest awaited readable)
  | aborts (hp : w.point = .probing) : Moves w w.abort
  | returns {t : Task} {rest : List Task} (hp : w.point = .top) (hd : w.tasksDone = t :: rest) :
      Moves w (w.returnTask t rest abort)
  | returnsLate {t : Task} {rest : List Task} (hp : w.point = .draining) (hd : w.tasksDone = t :: rest) :
      Moves w (w.returnTask t rest leave)
  | leaves (hp : w.point = .draining) (hd : w.tasksDone = []) : Moves w w.leave

variable {w w' : Worker}

theorem mainStep_moves {ok : Bool} {instancesToGet : UInt32} (h : w.mainStep ok instancesToGet = some w') :
    w.Moves w' := by
  unfold mainStep at h
  split at h
  · rename_i hp
    exact .receives (.inl hp) h
  · rename_i hp
    split at h
    · split at h
      · cases h
        exact .goes .probing w.running (by rw [hp]; rfl) rfl (by rw [hp]; simp) (by simp) nofun
      · rename_i t rest hd
        cases h
        exact .returns hp hd
    · cases h
      exact .goes .joining w.running (by rw [hp]; rfl) rfl (by rw [hp]; simp) (by simp) nofun
  · rename_i hp
    have hgo : ∀ r, w.Moves { w with running := r, point := .requesting } := fun r =>
      .goes .requesting r (by rw [hp]; rfl) rfl (by rw [hp]; simp) (by simp) nofun
    split at h <;> cases h
    · exact hgo false
    · exact .aborts hp
    · exact hgo w.running
  · rename_i hp
    split at h <;> cases h
    · exact .requests instancesToGet hp
    · exact .goes .top w.running (by rw [hp]; rfl) rfl (by rw [hp]; simp) (by simp) nofun
  · rename_i hp
    exact .receives (.inr hp) h
  · rename_i awaited hp
    cases h
    refine .goes (if awaited then .top else .activating) w.running (by rw [hp]; rfl) ?_ (by rw [hp]; simp) ?_ ?_ <;>
      cases awaited <;> simp [Point.held]
  · rename_i j rest awaited hp
    cases h
    exact .creates ok hp
  · rename_i hp
    split at h <;> cases h
    rename_i hfin
    exact .goes .draining w.running (by rw [hp]; rfl) rfl (by rw [hp]; simp) (by simp) fun _ => hfin
  · rename_i hp
    split at h
    · rename_i hd
      cases h
      exact .leaves hp hd
    · rename_i t rest hd
      cases h
      exact .returnsLate hp hd
  · cases h
  · cases h

/-- A step of thread `i`, one case for each kind. -/
inductive Works (i : Nat) (w : Worker) : Worker → Prop
  | polls {u : Thread} (ht : w.threads[i]? = some .polling) (hu : u = .locking ∨ u = .finished) :
      Works i w (w.setThread i u)
  | waits (ht : w.threads[i]? = some .locking) : Works i w (w.setThread i .polling)
  | takes {t : Task} {rest : List Task} (ht : w.threads[i]? = some .locking) (h : w.tasks = t :: rest) :
      Works i w ({ w with tasks := rest }.setThread i (.holding t))
  | starts {t : Task} (ht : w.threads[i]? = some (.holding t)) : Works i w (w.setThread i (.executing t))
  | givesUp {t : Task} (ht : w.threads[i]? = some (.holding t)) (hr : w.running = false) :
      Works i w ({ w with dropped := w.dropped ++ [t.number] }.setThread i .finished)
  | executes {t t' : Task} (ht : w.threads[i]? = some (.executing t)) (hn : t'.number = t.number)
      (hr : t.Fresh → t'.Result) : Works i w (w.setThread i (.executed t'))
  | aborts {t : Task} (ht : w.threads[i]? = some (.executing t)) : Works i w w.abort
  | delivers {t : Task} (ht : w.threads[i]? = some (.executed t)) :
      Works i w ({ w with tasksDone := w.tasksDone ++ [t] }.setThread i .polling)

theorem threadStep_works {i : Nat} {outcome : Execution} (h : w.threadStep i outcome = some w') :
    w.point ≠ .aborted ∧ w.Works i w' := by
  unfold threadStep at h
  split at h
  · cases h
  · rename_i hp
    refine ⟨hp, ?_⟩
    split at h
    · cases h
    · rename_i ht
      cases h
      refine .polls ht ?_
      cases w.running <;> simp
    · rename_i ht
      split at h <;> cases h
      · exact .waits ht
      · rename_i htasks
        exact .takes ht htasks
    · rename_i t ht
      split at h <;> cases h
      · exact .starts ht
      · rename_i hr
        exact .givesUp ht (by simpa using hr)
    · rename_i t ht
      split at h <;> cases h
      · exact .executes ht rfl .inl
      · exact .executes ht rfl fun _ => .inr rfl
      · exact .aborts ht
    · rename_i t ht
      cases h
      exact .delivers ht
    · cases h

end Worker

/-! ## The instances at a worker -/

def Thread.instances : Thread → Multiset Nat
  | .holding t | .executing t | .executed t => {t.number}
  | _ => 0

namespace Worker

/-- The instances handed to the worker and not yet received back by the server, wherever they are. -/
def owed (w : Worker) : Multiset Nat :=
  w.inbox.flatMap S2W.instances + w.point.held + w.tasks.map Task.number +
    (w.threads.map Thread.instances).sum + w.tasksDone.map Task.number + w.outbox.flatMap W2S.instances + w.dropped

variable {w w' : Worker}

theorem owed_abort (w : Worker) : w.abort.owed = w.owed := by
  unfold abort owed
  simp only [Point.held, ← Multiset.coe_add, Multiset.coe_nil]
  abel

theorem owed_leave (hp : w.point.held = []) : w.leave.owed = w.owed := by
  unfold leave owed
  rw [hp]
  simp only [Point.held, W2S.instances, List.flatMap_append, List.flatMap_singleton, List.map_nil,
    ← Multiset.coe_add, Multiset.coe_nil]
  abel

theorem announce_point (t : Task) (w : Worker) : (announce t w).point = w.point := by
  unfold announce
  split <;> rfl

theorem owed_announce (t : Task) (w : Worker) : (announce t w).owed = w.owed := by
  unfold announce owed
  split
  · simp only [W2S.instances, List.flatMap_append, List.flatMap_singleton, List.append_nil]
  · rfl

/-- A task that is returned is reported, or given up before the exception is handled. -/
theorem owed_returnTask {t : Task} {rest : List Task} {thrown : Worker → Worker} (hd : w.tasksDone = t :: rest)
    (hthrown : ∀ w₁, w₁.point = w.point → (thrown w₁).owed = w₁.owed) : (w.returnTask t rest thrown).owed = w.owed := by
  have hpop : owed { w with tasksDone := rest } + {t.number} = w.owed := by
    unfold owed
    rw [hd, List.map_cons, ← Multiset.cons_coe, ← Multiset.singleton_add]
    abel
  have hsame := owed_announce t { w with tasksDone := rest }
  have hpoint : (announce t { w with tasksDone := rest }).point = w.point := announce_point ..
  unfold returnTask
  generalize announce t { w with tasksDone := rest } = w₁ at hsame hpoint ⊢
  simp only
  split
  · rw [hthrown { w₁ with dropped := w₁.dropped ++ [t.number] } hpoint, ← hpop, ← hsame]
    unfold owed
    simp only [← Multiset.coe_add, Multiset.coe_singleton]
    abel
  · rw [← hpop, ← hsame]
    unfold owed
    simp only [W2S.instances, Task.number, List.flatMap_append, List.flatMap_singleton, ← Multiset.coe_add,
      Multiset.coe_singleton]
    abel

theorem owed_receive (h : w.receive = some w') (hp : w.point.held = []) : w'.owed = w.owed := by
  unfold receive at h
  split at h
  · cases h
  · rename_i msg rest hi
    have hw : w.owed = owed { w with inbox := rest } + msg.instances := by
      unfold owed
      rw [hi, List.flatMap_cons, ← Multiset.coe_add]
      abel
    rw [hw]
    unfold owed
    rw [hp]
    cases msg with
    | activateWorker =>
      simp only at h
      split at h
      · cases h
        simp [S2W.instances, hp]
      · cases h
        simp [Thread.instances, Point.held, S2W.instances, List.sum_replicate]
    | terminate =>
      cases h
      simp [S2W.instances, hp]
    | sendInstances jobs =>
      simp only at h
      split at h <;> cases h <;> simp only [Point.held, S2W.instances, ← Multiset.coe_add, List.flatMap_nil,
        Multiset.coe_nil] <;> abel

theorem map_number_new (j : Job) :
    (List.replicate j.numInstancesToStart.toNat (Task.new j.metadata j.taskId)).map Task.number = j.instances := by
  rw [List.map_replicate]
  rfl

theorem owed_createTasks {j : Job} {rest : List Job} {awaited : Bool} (readable : Bool)
    (hp : w.point = .creating (j :: rest) awaited) : (w.createTasks j rest awaited readable).owed = w.owed := by
  unfold createTasks
  split
  · exact owed_abort w
  · unfold owed
    rw [hp]
    simp only [Point.held, List.map_append, map_number_new, List.flatMap_cons, ← Multiset.coe_add]
    abel

/-- The main thread loses no instance out of sight. -/
theorem Moves.owed (h : w.Moves w') : w'.owed = w.owed := by
  cases h with
  | goes p running hp hq _ _ _ =>
    unfold Worker.owed
    rw [hp, hq]
  | receives hp h => exact owed_receive h (by rcases hp with hp | hp <;> rw [hp] <;> rfl)
  | requests _ hp =>
    unfold Worker.owed
    rw [hp]
    simp [Point.held, W2S.instances]
  | creates readable hp => exact owed_createTasks readable hp
  | aborts hp => exact owed_abort w
  | returns hp hd => exact owed_returnTask hd fun w₁ _ => owed_abort w₁
  | returnsLate hp hd => exact owed_returnTask hd fun w₁ h₁ => owed_leave (by rw [h₁, hp]; rfl)
  | leaves hp hd => exact owed_leave (by rw [hp]; rfl)

/-- A thread goes on to another place. -/
theorem owed_setThread {i : Nat} {t : Thread} {x y : Multiset Nat} (u : Thread) (h : w.threads[i]? = some t)
    (hx : u.instances + x = t.instances + y) : (w.setThread i u).owed + x = w.owed + y := by
  have hsum := sum_map_modify (f := Thread.instances) (g := fun _ => u) h hx
  calc (w.setThread i u).owed + x
      = w.inbox.flatMap S2W.instances + w.point.held + w.tasks.map Task.number + w.tasksDone.map Task.number +
          w.outbox.flatMap W2S.instances + w.dropped +
            (((w.threads.modify i fun _ => u).map Thread.instances).sum + x) := by
        unfold owed setThread
        simp only
        abel
    _ = w.owed + y := by
        rw [hsum]
        unfold owed
        abel

/-- A thread loses no instance out of sight. -/
theorem Works.owed {i : Nat} (h : w.Works i w') : w'.owed = w.owed := by
  have hset : ∀ {t : Thread} (u : Thread), w.threads[i]? = some t → u.instances = t.instances →
      (w.setThread i u).owed = w.owed := by
    intro t u ht hu
    have := owed_setThread (x := 0) (y := 0) u ht (by rw [hu])
    rwa [add_zero, add_zero] at this
  cases h with
  | polls ht hu => exact hset _ ht (by rcases hu with rfl | rfl <;> rfl)
  | waits ht => exact hset _ ht rfl
  | starts ht => exact hset _ ht rfl
  | executes ht hn _ => exact hset _ ht (by simp [Thread.instances, hn])
  | aborts => exact owed_abort w
  | takes ht htasks =>
    rename_i t rest
    have := owed_setThread (w := { w with tasks := rest }) (x := 0) (y := {t.number}) (.holding t) ht rfl
    rw [add_zero] at this
    rw [this]
    unfold Worker.owed
    rw [htasks, List.map_cons, ← Multiset.cons_coe, ← Multiset.singleton_add]
    abel
  | givesUp ht hr =>
    rename_i t
    refine add_right_cancel (b := {t.number}) ?_
    have := owed_setThread (w := { w with dropped := w.dropped ++ [t.number] }) (x := {t.number})
      (y := 0) .finished ht rfl
    rw [add_zero] at this
    rw [this]
    unfold Worker.owed
    simp only [← Multiset.coe_add, Multiset.coe_singleton]
    abel
  | delivers ht =>
    rename_i t
    refine add_right_cancel (b := {t.number}) ?_
    have := owed_setThread (w := { w with tasksDone := w.tasksDone ++ [t] }) (x := {t.number}) (y := 0) .polling ht rfl
    rw [add_zero] at this
    rw [this]
    unfold Worker.owed
    simp only [List.map_append, List.map_cons, List.map_nil, ← Multiset.coe_add, Multiset.coe_singleton]
    abel

end Worker

end ParallelProbsat.Communication
