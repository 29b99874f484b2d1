/-
The slots of a worker (`worker.cpp`, `worker_task.hpp`): `instances_to_get`, the tasks queued and the tasks the threads
have, with every lock, unlock, load and store a step of its own.

The main thread lowers `instances_to_get` under `task_mutex`, the threads raise it under `tasks_done_mutex`, so an
update of one kind may come between the load and the store of the other and is lost. While no update begins before
another one is stored, the worker works through a ledger of its slots and none of them is lost or counted twice.
-/
import ParallelProbsat.Communication.Worker
import ParallelProbsat.Lib.Runs

namespace ParallelProbsat.Communication

open ParallelProbsat.Lib

/-! ## The ledger -/

/-- What the counter is for: every slot of the worker is free, or of an instance queued or taken by a thread. -/
structure Ledger where
  free : Nat
  queued : Nat
  taken : Nat

def Ledger.total (l : Ledger) : Nat := l.free + l.queued + l.taken

inductive Ledger.Next (l l' : Ledger) : Prop
  | stay (h : l' = l)
  | grant (n : Nat) (hf : l'.free + n = l.free) (hq : l'.queued = l.queued + n) (ht : l'.taken = l.taken)
  | take (hf : l'.free = l.free) (hq : l'.queued + 1 = l.queued) (ht : l'.taken = l.taken + 1)
  | finish (hf : l'.free = l.free + 1) (hq : l'.queued = l.queued) (ht : l'.taken + 1 = l.taken)

theorem Ledger.Next.total {l l' : Ledger} (h : l.Next l') : l'.total = l.total := by
  unfold Ledger.total
  cases h with
  | stay h => rw [h]
  | grant n hf hq ht => omega
  | take hf hq ht => omega
  | finish hf hq ht => omega

/-! ## The worker, step by step -/

namespace Slots

/-- Where a thread is in `worker_func`. -/
inductive Place
  | polling
  | locking
  /-- Holds `task_mutex`. -/
  | taking
  /-- About to release `task_mutex`. -/
  | taken (got : Option Task)
  | holding (t : Task)
  | executing (t : Task)
  | executed (t : Task)
  /-- Holds `tasks_done_mutex`. -/
  | delivering (t : Task)
  | loading
  | storing (x : UInt32)
  /-- About to release `tasks_done_mutex`. -/
  | delivered
  | finished
  deriving DecidableEq

/-- Where the main thread is in its loop. -/
inductive MainPlace
  | top
  | collecting
  /-- Holds `tasks_done_mutex`. -/
  | popping
  | popped (got : Option Task)
  | returning (t : Task)
  | probing
  | testing
  | asking
  /-- GET_INSTANCES is sent, `old_instances_to_get` is not yet set. -/
  | noting (requested : UInt32)
  | awaiting (requested : UInt32)
  /-- In `create_tasks`, with the jobs still to do. -/
  | creating (jobs : List Job)
  | entering (j : Job) (rest : List Job)
  /-- Holds `task_mutex`, with tasks still to push back. -/
  | queueing (j : Job) (left : Nat) (rest : List Job)
  | loading (j : Job) (rest : List Job)
  | storing (x : UInt32) (j : Job) (rest : List Job)
  | created (rest : List Job)
  | comparing
  | deciding
  | resting
  /-- Holds `tasks_done_mutex` before the wait. -/
  | rested
  | waiting
  /-- Holds `tasks_done_mutex` after it. -/
  | woken
  | left

end Slots

open Slots in
/-- The variables of the main loop and of the threads. -/
structure Slots where
  running : Bool := true
  /-- The process has ended by an exception of the main thread or by an assertion. -/
  aborted : Bool := false
  instancesToGet : UInt32
  tasks : List Task := []
  tasksDone : List Task := []
  taskMutex : Bool := false
  tasksDoneMutex : Bool := false
  main : MainPlace := .top
  nothingDone : Bool := true
  oldInstancesToGet : UInt32 := 0
  threads : List Place

namespace Slots

/-- The worker with `numWorkers` threads at the start of the main loop. -/
def start (numWorkers : UInt32) : Slots where
  instancesToGet := numWorkers
  threads := List.replicate numWorkers.toNat .polling

/-- What the main thread meets: a command of the server, an exception of `initialize`, or neither. -/
inductive Input
  | nothing
  | command (c : S2W)
  | exception
  deriving DecidableEq

/-- The next step of the main thread; `instances_buffered` is 0, as `instances_to_get` starts with `num_workers`. -/
def mainStep (s : Slots) (input : Input) : Option Slots :=
  match s.main with
  | .top => some { s with main := if s.running then .collecting else .left }
  | .collecting => if s.tasksDoneMutex then none else some { s with tasksDoneMutex := true, main := .popping }
  | .popping =>
    match s.tasksDone with
    | [] => some { s with main := .popped none }
    | t :: rest => some { s with tasksDone := rest, main := .popped (some t) }
  | .popped none => some { s with tasksDoneMutex := false, main := .probing }
  | .popped (some t) => some { s with tasksDoneMutex := false, main := .returning t }
  | .returning t =>
    if t.dpi.instancesProcessed = 0 then some { s with aborted := true } else some { s with main := .top }
  | .probing =>
    match input with
    | .command .terminate => some { s with running := false, nothingDone := false, main := .testing }
    | .command (.sendInstances _) => some { s with aborted := true } -- the message was not received
    | .command .activateWorker => some { s with nothingDone := false, main := .testing }
    | _ => some { s with nothingDone := true, main := .testing }
  | .testing => some { s with main := if s.running = true ∧ 0 < s.instancesToGet then .asking else .deciding }
  | .asking => some { s with main := .noting s.instancesToGet }
  | .noting r => some { s with oldInstancesToGet := s.instancesToGet, main := .awaiting r }
  | .awaiting r =>
    match input with
    | .command .terminate => some { s with running := false, main := .awaiting r }
    | .command (.sendInstances jobs) => some { s with main := if s.running then .creating jobs else .comparing }
    | .command .activateWorker => some { s with main := .awaiting r }
    | _ => none
  | .creating [] => some { s with main := .comparing }
  | .creating (j :: rest) =>
    if j.numInstancesToStart = 0 ∨ input = .exception then some { s with aborted := true }
    else some { s with main := .entering j rest }
  | .entering j rest =>
    if s.taskMutex then none
    else some { s with taskMutex := true, main := .queueing j j.numInstancesToStart.toNat rest }
  | .queueing j (n + 1) rest =>
    some { s with tasks := s.tasks ++ [.new j.metadata j.taskId], main := .queueing j n rest }
  | .queueing j 0 rest => some { s with main := .loading j rest }
  | .loading j rest => some { s with main := .storing s.instancesToGet j rest }
  | .storing x j rest => some { s with instancesToGet := x - j.numInstancesToStart, main := .created rest }
  | .created rest => some { s with taskMutex := false, main := .creating rest }
  | .comparing =>
    some { s with nothingDone := s.nothingDone && decide (s.instancesToGet = s.oldInstancesToGet), main := .deciding }
  | .deciding => some { s with main := if s.nothingDone then .resting else .top }
  | .resting => if s.tasksDoneMutex then none else some { s with tasksDoneMutex := true, main := .rested }
  | .rested =>
    -- the wait releases the mutex
    if s.instancesToGet = 0 then some { s with tasksDoneMutex := false, main := .waiting } else
      some { s with main := .woken }
  | .waiting => if s.tasksDoneMutex then none else some { s with tasksDoneMutex := true, main := .woken }
  | .woken => some { s with tasksDoneMutex := false, main := .top }
  | .left => none

def goto (s : Slots) (i : Nat) (p : Place) : Slots := { s with threads := s.threads.modify i fun _ => p }

/-- The next step of thread `i`; `outcome` matters when the step is the execution of a task. -/
def threadStep (s : Slots) (i : Nat) (outcome : Execution) : Option Slots :=
  match s.threads[i]? with
  | none => none
  | some .polling => some (s.goto i (if s.running then .locking else .finished))
  | some .locking => if s.taskMutex then none else some ({ s with taskMutex := true }.goto i .taking)
  | some .taking =>
    match s.tasks with
    | [] => some (s.goto i (.taken none))
    | t :: rest => some ({ s with tasks := rest }.goto i (.taken (some t)))
  | some (.taken none) => some ({ s with taskMutex := false }.goto i .polling)
  | some (.taken (some t)) => some ({ s with taskMutex := false }.goto i (.holding t))
  | some (.holding t) => some (s.goto i (if s.running then .executing t else .finished))
  | some (.executing t) =>
    match outcome with
    | .failed => some (s.goto i (.executed t))
    | .done measured => some (s.goto i (.executed (t.execute measured)))
    | .assertion => some { s with aborted := true }
  | some (.executed t) =>
    if s.tasksDoneMutex then none else some ({ s with tasksDoneMutex := true }.goto i (.delivering t))
  | some (.delivering t) => some ({ s with tasksDone := s.tasksDone ++ [t] }.goto i .loading)
  | some .loading => some (s.goto i (.storing s.instancesToGet))
  | some (.storing x) => some ({ s with instancesToGet := x + 1 }.goto i .delivered)
  | some .delivered => some ({ s with tasksDoneMutex := false }.goto i .polling)
  | some .finished => none

inductive Event
  | main (input : Input)
  | thread (i : Nat) (outcome : Execution)

def step (s : Slots) (e : Event) : Option Slots :=
  if s.aborted then none
  else match e with
    | .main input => s.mainStep input
    | .thread i outcome => s.threadStep i outcome

/-! ## The accounts -/

/-- The thread has a task in hand. -/
def Place.holds : Place → Bool
  | .taken (some _) | .holding _ | .executing _ | .executed _ | .delivering _ => true
  | _ => false

/-- The slot of the thread is not free yet. -/
def Place.slot : Place → Nat
  | .taken (some _) | .holding _ | .executing _ | .executed _ | .delivering _ | .loading | .storing _ => 1
  | _ => 0

def Place.inTask : Place → Nat
  | .taking | .taken _ => 1
  | .polling | .locking | .holding _ | .executing _ | .executed _ | .delivering _ | .loading | .storing _ | .delivered
  | .finished => 0

def Place.inDone : Place → Nat
  | .delivering _ | .loading | .storing _ | .delivered => 1
  | .polling | .locking | .taking | .taken _ | .holding _ | .executing _ | .executed _ | .finished => 0

/-- The value of `instances_to_get` that the thread is about to replace. -/
def Place.loaded : Place → Option UInt32
  | .storing x => some x
  | _ => none

def MainPlace.inTask : MainPlace → Nat
  | .queueing _ _ _ | .loading _ _ | .storing _ _ _ | .created _ => 1
  | _ => 0

def MainPlace.inDone : MainPlace → Nat
  | .popping | .popped _ | .rested | .woken => 1
  | _ => 0

def MainPlace.loaded : MainPlace → Option UInt32
  | .storing x _ _ => some x
  | _ => none

/-- About to load `instances_to_get` for an update. -/
def MainPlace.begins : MainPlace → Bool
  | .loading _ _ => true
  | _ => false

/-- The tasks pushed back that `instances_to_get` does not yet reflect. -/
def MainPlace.pushed : MainPlace → Nat
  | .queueing j n _ => j.numInstancesToStart.toNat - n
  | .loading j _ | .storing _ j _ => j.numInstancesToStart.toNat
  | _ => 0

/-- The instances a list of jobs hands out. -/
def handedOut (jobs : List Job) : Nat := (jobs.map fun j => j.numInstancesToStart.toNat).sum

/-- The instances the server may still hand out, or has handed out and the main thread has yet to account for. -/
def MainPlace.expected : MainPlace → Nat
  | .noting r | .awaiting r => r.toNat
  | .creating jobs => handedOut jobs
  | .entering j rest | .queueing j _ rest | .loading j rest | .storing _ j rest => handedOut (j :: rest)
  | .created rest => handedOut rest
  | _ => 0

/-- No thread is inside a guarded section. -/
def Quiet (s : Slots) : Prop :=
  s.main.inTask = 0 ∧ s.main.inDone = 0 ∧ ∀ p ∈ s.threads, p.inTask = 0 ∧ p.inDone = 0

/-- An update of `instances_to_get` begins only while no other one is loaded and not stored. -/
def UpdatesApart (s : Slots) : Event → Prop
  | .main _ => s.main.begins = true → ∀ p ∈ s.threads, p.loaded = none
  | .thread i _ => s.threads[i]? = some .loading → s.main.loaded = none

/-- The server never hands out more instances than were requested. -/
def AsRequested (s : Slots) : Event → Prop
  | .main (.command (.sendInstances jobs)) => handedOut jobs ≤ s.main.expected
  | _ => True

/-! ## What a step can do -/

/-- A step of the main thread, by what it does to the accounts. -/
inductive MainMoves (s s' : Slots) (input : Input) : Prop
  | goes (hc : s'.instancesToGet = s.instancesToGet) (ht : s'.tasks = s.tasks) (hp : s'.main.pushed = s.main.pushed)
      (hx : s'.main.expected ≤ s.main.expected) (hl : s'.main.loaded = none)
      (hq : ∀ j n rest, s'.main = .queueing j n rest → n ≤ j.numInstancesToStart.toNat)
  | asks (hm : s.main = .asking) (h : s' = { s with main := .noting s.instancesToGet })
  | receives (jobs : List Job) (r : UInt32) (hm : s.main = .awaiting r) (hi : input = .command (.sendInstances jobs))
      (h : s' = { s with main := .creating jobs })
  | pushes (t : Task) (n : Nat) (j : Job) (rest : List Job) (hm : s.main = .queueing j (n + 1) rest)
      (h : s' = { s with tasks := s.tasks ++ [t], main := .queueing j n rest })
  | loads (j : Job) (rest : List Job) (hm : s.main = .loading j rest)
      (h : s' = { s with main := .storing s.instancesToGet j rest })
  | stores (x : UInt32) (j : Job) (rest : List Job) (hm : s.main = .storing x j rest)
      (h : s' = { s with instancesToGet := x - j.numInstancesToStart, main := .created rest })

/-- What every step of the main thread leaves as it is, and what it does to the mutexes. -/
structure MainFrame (s s' : Slots) : Prop where
  threads : s'.threads = s.threads
  running : s'.running = true → s.running = true
  task : s'.taskMutex.toNat + s.main.inTask = s.taskMutex.toNat + s'.main.inTask
  done : s'.tasksDoneMutex.toNat + s.main.inDone = s.tasksDoneMutex.toNat + s'.main.inDone

/-- A step of a thread, by what it does to the accounts. -/
inductive ThreadMoves (s s' : Slots) (o p : Place) : Prop
  | goes (hc : s'.instancesToGet = s.instancesToGet) (ht : s'.tasks = s.tasks) (hs : p.slot = o.slot)
      (hl : p.loaded = none)
  | takes (t : Task) (ho : o = .taking) (hp : p = .taken (some t)) (hc : s'.instancesToGet = s.instancesToGet)
      (ht : s.tasks = t :: s'.tasks)
  | loads (ho : o = .loading) (hp : p = .storing s.instancesToGet) (hc : s'.instancesToGet = s.instancesToGet)
      (ht : s'.tasks = s.tasks)
  | stores (x : UInt32) (ho : o = .storing x) (hp : p = .delivered) (hc : s'.instancesToGet = x + 1)
      (ht : s'.tasks = s.tasks)
  | drops (t : Task) (ho : o = .holding t) (hp : p = .finished) (hr : s.running = false)
      (hc : s'.instancesToGet = s.instancesToGet) (ht : s'.tasks = s.tasks)

/-- Where the thread goes, and what it does to the mutexes; the main thread stays where it is. -/
structure ThreadFrame (s s' : Slots) (i : Nat) (o p : Place) : Prop where
  before : s.threads[i]? = some o
  threads : s'.threads = s.threads.modify i fun _ => p
  main : s'.main = s.main
  running : s'.running = s.running
  task : s'.taskMutex.toNat + o.inTask = s.taskMutex.toNat + p.inTask
  done : s'.tasksDoneMutex.toNat + o.inDone = s.tasksDoneMutex.toNat + p.inDone

variable {s s' : Slots}

theorem mainStep_frame {input : Input} (htask : s.main.inTask ≤ s.taskMutex.toNat)
    (hdone : s.main.inDone ≤ s.tasksDoneMutex.toNat) (h : s.mainStep input = some s') : MainFrame s s' := by
  have htask' := Bool.toNat_le s.taskMutex
  have hdone' := Bool.toNat_le s.tasksDoneMutex
  unfold mainStep at h
  split at h <;> (try split at h) <;> (try split at h) <;> cases h
  -- most steps leave both mutexes as they are, the others lock or unlock one of them
  all_goals first
    | exact ⟨rfl, id, by rw [‹s.main = _›]; rfl, by rw [‹s.main = _›]; rfl⟩
    | constructor <;> simp_all [MainPlace.inTask, MainPlace.inDone] <;> omega

theorem mainStep_moves {input : Input} (h : s.mainStep input = some s') : MainMoves s s' input := by
  unfold mainStep at h
  split at h <;> (try split at h) <;> (try split at h) <;> cases h
  -- the steps that the accounts see, then the others
  all_goals first
    | exact .asks ‹_› rfl
    | exact .receives _ _ ‹_› rfl rfl
    | exact .pushes _ _ _ _ ‹_› rfl
    | exact .loads _ _ ‹_› rfl
    | exact .stores _ _ _ ‹_› rfl
    | exact .goes rfl rfl (by rw [‹s.main = _›]; rfl) (Nat.zero_le _) rfl nofun
    | exact .goes rfl rfl (by simp_all [MainPlace.pushed]) (by simp_all [MainPlace.expected, handedOut])
        (by simp_all [MainPlace.loaded]) (by simp_all)

theorem threadStep_moves {i : Nat} {outcome : Execution}
    (htask : ∀ p, s.threads[i]? = some p → p.inTask ≤ s.taskMutex.toNat)
    (hdone : ∀ p, s.threads[i]? = some p → p.inDone ≤ s.tasksDoneMutex.toNat) (h : s.threadStep i outcome = some s') :
    s' = { s with aborted := true } ∨ ∃ o p, ThreadFrame s s' i o p ∧ ThreadMoves s s' o p := by
  have htask' := Bool.toNat_le s.taskMutex
  have hdone' := Bool.toNat_le s.tasksDoneMutex
  unfold threadStep at h
  split at h <;> (try split at h) <;> cases h
  all_goals first
    | exact .inl rfl
    | refine .inr ⟨_, _, ⟨‹_›, rfl, rfl, rfl, ?_, ?_⟩, ?_⟩
  -- each step leaves the two mutexes and the move
  all_goals first
    | exact .takes _ rfl rfl rfl ‹_›
    | exact .loads rfl rfl rfl rfl
    | exact .stores _ rfl rfl rfl rfl
    | exact .goes rfl rfl rfl rfl
    | exact .drops _ rfl rfl (by simp_all) rfl rfl
    | rfl
    | skip
  -- a mutex that is locked was free, one that is released was held
  all_goals
    simp_all [goto, Place.inTask, Place.inDone]
  all_goals omega

/-! ## The invariant -/

/-- The slots as the ledger has them: the tasks pushed back count from the store on. -/
def ledger (s : Slots) : Ledger :=
  ⟨s.instancesToGet.toNat, s.tasks.length - s.main.pushed, (s.threads.map Place.slot).sum⟩

structure SlotInv (k : UInt32) (s : Slots) : Prop where
  task : s.taskMutex.toNat = s.main.inTask + (s.threads.map Place.inTask).sum
  done : s.tasksDoneMutex.toNat = s.main.inDone + (s.threads.map Place.inDone).sum
  /-- What a thread is about to store rests on the present value. -/
  threadFresh : ∀ (i : Nat) x, s.threads[i]? = some (.storing x) → x = s.instancesToGet
  /-- So does what the main thread is about to store, and then no thread is about to. -/
  mainFresh : ∀ x, s.main.loaded = some x → x = s.instancesToGet ∧ ∀ p ∈ s.threads, p.loaded = none
  queue : ∀ j n rest, s.main = .queueing j n rest → n ≤ j.numInstancesToStart.toNat
  pushed : s.main.pushed ≤ s.tasks.length
  total : s.running = true → s.ledger.total = k.toNat
  expected : s.running = true → s.main.expected ≤ s.instancesToGet.toNat

variable {k : UInt32}

theorem SlotInv.start (k : UInt32) : SlotInv k (start k) where
  task := by simp [Slots.start, MainPlace.inTask, Place.inTask]
  done := by simp [Slots.start, MainPlace.inDone, Place.inDone]
  threadFresh i x h := by
    have := List.eq_of_mem_replicate (List.mem_of_getElem? h)
    cases this
  mainFresh x h := by cases h
  queue j n rest h := by cases h
  pushed := Nat.zero_le _
  total _ := by simp [Slots.start, ledger, Ledger.total, Place.slot]
  expected _ := Nat.zero_le _

theorem pushed_eq_zero {p : MainPlace} (h : p.inTask = 0) : p.pushed = 0 := by
  cases p <;> first | rfl | cases h

theorem inDone_of_loaded {p : Place} {x : UInt32} (h : p.loaded = some x) : p = .storing x := by
  cases p <;> cases h
  rfl

/-! ## Steps of the main thread -/

/-- What the main thread does is a step of the ledger. -/
theorem SlotInv.main_ledger {input : Input} (h : SlotInv k s) (hm : MainMoves s s' input) (hf : MainFrame s s')
    (hr : s.running = true) : s.ledger.Next s'.ledger := by
  cases hm with
  | goes hc ht hp hx hl hq =>
    refine .stay ?_
    unfold ledger
    rw [hc, ht, hp, hf.threads]
  | asks hm h =>
    subst h
    exact .stay (by simp [ledger, hm, MainPlace.pushed])
  | receives jobs r hm hi h =>
    subst h
    exact .stay (by simp [ledger, hm, MainPlace.pushed])
  | pushes t n j rest hm h' =>
    subst h'
    have hn := h.queue _ _ _ hm
    refine .stay ?_
    simp only [ledger, hm, MainPlace.pushed, List.length_append, List.length_singleton]
    congr 1
    omega
  | loads j rest hm h =>
    subst h
    exact .stay (by simp [ledger, hm, MainPlace.pushed])
  | stores x j rest hm h' =>
    subst h'
    obtain ⟨rfl, -⟩ := h.mainFresh x (by rw [hm]; rfl)
    have hle := h.expected hr
    have hpush := h.pushed
    rw [hm] at hle hpush
    simp only [MainPlace.expected, handedOut, List.map_cons, List.sum_cons] at hle
    simp only [MainPlace.pushed] at hpush
    refine .grant j.numInstancesToStart.toNat ?_ ?_ rfl
    · show (s.instancesToGet - j.numInstancesToStart).toNat + _ = _
      rw [UInt32.toNat_sub_of_le _ _ (UInt32.le_iff_toNat_le.2 (by omega))]
      show s.instancesToGet.toNat - _ + _ = s.instancesToGet.toNat
      omega
    · simp only [ledger, hm, MainPlace.pushed]
      omega

theorem SlotInv.main_step {input : Input} (h : SlotInv k s) (hapart : UpdatesApart s (.main input))
    (hasked : AsRequested s (.main input)) (hm : MainMoves s s' input) (hf : MainFrame s s') : SlotInv k s' := by
  have htotal : s'.running = true → s'.ledger.total = k.toNat := fun hr =>
    (h.main_ledger hm hf (hf.running hr)).total.trans (h.total (hf.running hr))
  have htask : s'.taskMutex.toNat = s'.main.inTask + (s'.threads.map Place.inTask).sum := by
    have h1 := hf.task
    have h2 := h.task
    rw [hf.threads]
    omega
  have hdone : s'.tasksDoneMutex.toNat = s'.main.inDone + (s'.threads.map Place.inDone).sum := by
    have h1 := hf.done
    have h2 := h.done
    rw [hf.threads]
    omega
  cases hm with
  | goes hc ht hp hx hl hq =>
    refine ⟨htask, hdone, fun i x e => ?_, fun x e => ?_, hq, ?_, htotal, fun hr => ?_⟩
    · rw [hf.threads] at e
      rw [hc]
      exact h.threadFresh i x e
    · rw [hl] at e
      cases e
    · rw [hp, ht]
      exact h.pushed
    · rw [hc]
      exact hx.trans (h.expected (hf.running hr))
  | asks hm h' =>
    subst h'
    exact ⟨htask, hdone, h.threadFresh, nofun, nofun, Nat.zero_le _, htotal, fun _ => le_rfl⟩
  | receives jobs r hm hi h' =>
    subst h' hi
    refine ⟨htask, hdone, h.threadFresh, nofun, nofun, Nat.zero_le _, htotal, fun hr => ?_⟩
    have hle : handedOut jobs ≤ s.main.expected := hasked
    exact hle.trans (h.expected hr)
  | pushes t n j rest hm h' =>
    subst h'
    have hn := h.queue _ _ _ hm
    have hpush := h.pushed
    have hx := h.expected
    rw [hm] at hpush hx
    refine ⟨htask, hdone, h.threadFresh, nofun, fun j' n' rest' e => ?_, ?_, htotal, hx⟩
    · cases e
      omega
    · simp only [MainPlace.pushed, List.length_append, List.length_singleton] at hpush ⊢
      omega
  | loads j rest hm h' =>
    subst h'
    have hpush := h.pushed
    have hx := h.expected
    rw [hm] at hpush hx
    refine ⟨htask, hdone, h.threadFresh, fun x e => ?_, nofun, hpush, htotal, hx⟩
    cases e
    exact ⟨rfl, hapart (by rw [hm]; rfl)⟩
  | stores x j rest hm h' =>
    subst h'
    obtain ⟨rfl, hnone⟩ := h.mainFresh x (by rw [hm]; rfl)
    refine ⟨htask, hdone, fun i x e => ?_, nofun, nofun, Nat.zero_le _, htotal, fun hr => ?_⟩
    · cases hnone _ (List.mem_of_getElem? e)
    · have hle := h.expected hr
      rw [hm] at hle
      simp only [MainPlace.expected, handedOut, List.map_cons, List.sum_cons] at hle ⊢
      rw [UInt32.toNat_sub_of_le _ _ (UInt32.le_iff_toNat_le.2 (by omega))]
      omega

/-! ## Steps of the threads -/

section Thread

variable {i : Nat} {o p : Place}

/-- The total of a column of the threads, when one of them goes on. -/
theorem ThreadFrame.sum (hf : ThreadFrame s s' i o p) (f : Place → Nat) :
    (s'.threads.map f).sum + f o = (s.threads.map f).sum + f p := by
  rw [hf.threads]
  exact sum_map_modify hf.before (Nat.add_comm _ _)

/-- While a thread is in its section under `tasks_done_mutex`, no other one is. -/
theorem SlotInv.alone {j : Nat} {q : Place} (h : SlotInv k s) (ho : s.threads[i]? = some o) (hd : o.inDone = 1)
    (hq : s.threads[j]? = some q) (hne : i ≠ j) : q.inDone = 0 := by
  have hle := Bool.toNat_le s.tasksDoneMutex
  have hsum := add_le_sum_map (f := Place.inDone) ho hq hne
  have hdone := h.done
  omega

/-- While a thread is in its section under `task_mutex`, no task is pushed back. -/
theorem SlotInv.none_pushed (h : SlotInv k s) (ho : s.threads[i]? = some o) (hd : o.inTask = 1) :
    s.main.pushed = 0 := by
  have hle := Bool.toNat_le s.taskMutex
  have hsum := le_sum_map (f := Place.inTask) ho
  have htask := h.task
  exact pushed_eq_zero (by omega)

/-- An update that a thread makes does not wrap. -/
theorem SlotInv.toNat_succ (h : SlotInv k s) (ho : s.threads[i]? = some o) (hs : o.slot = 1) (hr : s.running = true) :
    (s.instancesToGet + 1).toNat = s.instancesToGet.toNat + 1 := by
  have hle := le_sum_map (f := Place.slot) ho
  have ht := h.total hr
  have hk := k.toNat_lt
  simp only [ledger, Ledger.total] at ht
  rw [UInt32.toNat_add]
  show (_ + 1) % _ = _
  omega

/-- What a thread does is a step of the ledger. -/
theorem SlotInv.thread_ledger (h : SlotInv k s) (hf : ThreadFrame s s' i o p) (hm : ThreadMoves s s' o p)
    (hr : s.running = true) : s.ledger.Next s'.ledger := by
  have hsum := hf.sum Place.slot
  cases hm with
  | goes hc ht hs hl =>
    refine .stay ?_
    unfold ledger
    rw [hc, ht, hf.main]
    congr 1
    omega
  | takes t ho hp hc ht =>
    have hnone := h.none_pushed hf.before (by rw [ho]; rfl)
    subst ho hp
    refine .take (by simp only [ledger, hc]) ?_ hsum
    simp only [ledger, hf.main, hnone, ht, List.length_cons]
    omega
  | loads ho hp hc ht =>
    subst ho hp
    refine .stay ?_
    unfold ledger
    rw [hc, ht, hf.main]
    congr 1
    exact Nat.add_right_cancel hsum
  | stores x ho hp hc ht =>
    subst ho hp
    obtain rfl := h.threadFresh i x hf.before
    refine .finish ?_ (by simp only [ledger, ht, hf.main]) hsum
    simp only [ledger, hc]
    exact h.toNat_succ hf.before rfl hr
  | drops t ho hp hr' hc ht =>
    rw [hr] at hr'
    cases hr'

/-- The place of a thread after the step. -/
theorem ThreadFrame.place (hf : ThreadFrame s s' i o p) (j : Nat) :
    s'.threads[j]? = if i = j then some p else s.threads[j]? := by
  rw [hf.threads]
  split
  · rename_i e
    subst e
    exact getElem?_modify_of_eq _ hf.before
  · rename_i e
    exact List.getElem?_modify_ne _ _ e

theorem SlotInv.thread_step {outcome : Execution} (h : SlotInv k s) (hapart : UpdatesApart s (.thread i outcome))
    (hf : ThreadFrame s s' i o p) (hm : ThreadMoves s s' o p) : SlotInv k s' := by
  have htask := hf.sum Place.inTask
  have hdone := hf.sum Place.inDone
  have hfresh : (∀ x, p = .storing x → x = s'.instancesToGet) → s'.instancesToGet = s.instancesToGet →
      ∀ (j : Nat) x, s'.threads[j]? = some (.storing x) → x = s'.instancesToGet := by
    intro hp hc j x e
    rw [hf.place] at e
    split at e
    · exact hp x (Option.some.inj e)
    · rw [hc]
      exact h.threadFresh j x e
  have hmain : (s.main.loaded ≠ none → p.loaded = none ∧ s'.instancesToGet = s.instancesToGet) →
      ∀ x, s'.main.loaded = some x → x = s'.instancesToGet ∧ ∀ q ∈ s'.threads, q.loaded = none := by
    intro hp x e
    rw [hf.main] at e
    obtain ⟨hl, hc⟩ := hp (by rw [e]; nofun)
    obtain ⟨rfl, hnone⟩ := h.mainFresh x e
    refine ⟨hc.symm, fun q hq => ?_⟩
    obtain ⟨j, hj⟩ := List.getElem?_of_mem hq
    rw [hf.place] at hj
    split at hj
    · obtain rfl := Option.some.inj hj
      exact hl
    · exact hnone q (List.mem_of_getElem? hj)
  refine
    { task := by rw [hf.main]; have := hf.task; have := h.task; omega
      done := by rw [hf.main]; have := hf.done; have := h.done; omega
      threadFresh := ?_
      mainFresh := hmain fun hload => ?_
      queue := by rw [hf.main]; exact h.queue
      pushed := ?_
      total := fun hr => (h.thread_ledger hf hm (hf.running ▸ hr)).total.trans (h.total (hf.running ▸ hr))
      expected := fun hr => ?_ }
  · cases hm with
    | goes hc ht hs hl => exact hfresh (fun x e => by rw [e] at hl; cases hl) hc
    | takes t ho hp hc ht => exact hfresh (fun x e => by rw [hp] at e; cases e) hc
    | loads ho hp hc ht =>
      refine hfresh (fun x e => ?_) hc
      rw [hp] at e
      cases e
      exact hc.symm
    | stores y ho hp hc ht =>
      intro j x e
      rw [hf.place] at e
      split at e
      · rw [hp] at e
        cases e
      · -- the mutex keeps every other thread from its own update
        rename_i hne
        cases h.alone hf.before (by rw [ho]; rfl) e hne
    | drops t ho hp hr hc ht => exact hfresh (fun x e => by rw [hp] at e; cases e) hc
  · cases hm with
    | goes hc ht hs hl => exact ⟨hl, hc⟩
    | takes t ho hp hc ht => exact ⟨by rw [hp]; rfl, hc⟩
    | loads ho hp hc ht => exact absurd (hapart (ho ▸ hf.before)) hload
    | stores x ho hp hc ht =>
      obtain ⟨y, hy⟩ := Option.ne_none_iff_exists'.1 hload
      have := (h.mainFresh y hy).2 o (List.mem_of_getElem? hf.before)
      rw [ho] at this
      cases this
    | drops t ho hp hr hc ht => exact ⟨by rw [hp]; rfl, hc⟩
  · rw [hf.main]
    cases hm with
    | goes hc ht hs hl => exact ht ▸ h.pushed
    | takes t ho hp hc ht =>
      rw [h.none_pushed hf.before (by rw [ho]; rfl)]
      exact Nat.zero_le _
    | loads ho hp hc ht => exact ht ▸ h.pushed
    | stores x ho hp hc ht => exact ht ▸ h.pushed
    | drops t ho hp hr hc ht => exact ht ▸ h.pushed
  · rw [hf.running] at hr
    have hx := h.expected hr
    rw [hf.main]
    cases hm with
    | goes hc ht hs hl => rwa [hc]
    | takes t ho hp hc ht => rwa [hc]
    | loads ho hp hc ht => rwa [hc]
    | stores x ho hp hc ht =>
      subst ho
      obtain rfl := h.threadFresh i x hf.before
      rw [hc, h.toNat_succ hf.before rfl hr]
      omega
    | drops t ho hp hr' hc ht => rwa [hc]

end Thread

/-! ## Whole runs -/

/-- Every step keeps the accounts. -/
theorem SlotInv.step {e : Event} (h : SlotInv k s) (hapart : UpdatesApart s e) (hasked : AsRequested s e)
    (hs : s.step e = some s') : SlotInv k s' := by
  unfold Slots.step at hs
  split at hs
  · cases hs
  have htask := h.task
  have hdone := h.done
  cases e with
  | main input => exact h.main_step hapart hasked (mainStep_moves hs) (mainStep_frame (by omega) (by omega) hs)
  | thread i outcome =>
    have htask' : ∀ p, s.threads[i]? = some p → p.inTask ≤ s.taskMutex.toNat := fun p hp =>
      (le_sum_map (f := Place.inTask) hp).trans (by omega)
    have hdone' : ∀ p, s.threads[i]? = some p → p.inDone ≤ s.tasksDoneMutex.toNat := fun p hp =>
      (le_sum_map (f := Place.inDone) hp).trans (by omega)
    rcases threadStep_moves htask' hdone' hs with rfl | ⟨o, p, hf, hm⟩
    · exact ⟨h.task, h.done, h.threadFresh, h.mainFresh, h.queue, h.pushed, h.total, h.expected⟩
    · exact h.thread_step hapart hf hm

/-- The runs of a worker with `k` threads, in any interleaving, in which the server hands out what was requested and
the updates of `instances_to_get` are apart. -/
abbrev ApartRun (k : UInt32) (es : List Event) (s : Slots) : Prop :=
  Traced step (fun _ s e => UpdatesApart s e ∧ AsRequested s e) [] (start k) es s

theorem ApartRun.slotInv {es : List Event} (h : ApartRun k es s) : SlotInv k s :=
  h.invariant (P := fun _ s => SlotInv k s) (.start k) fun _ _ _ _ _ hI hok hs => hI.step hok.1 hok.2 hs

/-- Outside the guarded sections a slot is taken exactly when the thread has a task. -/
theorem sum_slot_of_quiet : ∀ {l : List Place}, (∀ p ∈ l, p.inTask = 0 ∧ p.inDone = 0) →
    (l.map Place.slot).sum = l.countP Place.holds
  | [], _ => rfl
  | p :: l, h => by
    have ih := sum_slot_of_quiet fun q hq => h q (List.mem_cons_of_mem _ hq)
    obtain ⟨htask, hdone⟩ := h p List.mem_cons_self
    rw [List.map_cons, List.sum_cons, List.countP_cons, ih, Nat.add_comm]
    congr 1
    cases p with
    | taken got => cases htask
    | delivering t => cases hdone
    | loading => cases hdone
    | storing x => cases hdone
    | _ => rfl

theorem countP_holds_le : ∀ l : List Place, l.countP Place.holds ≤ (l.map Place.slot).sum
  | [] => le_rfl
  | p :: l => by
    have ih := countP_holds_le l
    have hp : (if p.holds then 1 else 0) ≤ p.slot := by
      unfold Place.holds Place.slot
      split <;> simp
    rw [List.map_cons, List.sum_cons, List.countP_cons]
    omega

theorem pushed_le_expected (p : MainPlace) : p.pushed ≤ p.expected := by
  cases p with
  | queueing j n rest => exact (Nat.sub_le _ _).trans (by simp [MainPlace.expected, handedOut])
  | loading j rest => simp [MainPlace.pushed, MainPlace.expected, handedOut]
  | storing x j rest => simp [MainPlace.pushed, MainPlace.expected, handedOut]
  | _ => exact Nat.zero_le _

/-- While the worker runs, each of its slots is free, of a queued task or of one that a thread has, when no thread is
in a guarded section; it never has more tasks than threads; every update of `instances_to_get` rests on the present
value, and none goes below zero. -/
theorem slots_accounted (k : UInt32) (es : List Event) (s : Slots) (h : ApartRun k es s) (hr : s.running = true) :
    (s.Quiet → s.instancesToGet.toNat + s.tasks.length + s.threads.countP Place.holds = k.toNat) ∧
    s.tasks.length + s.threads.countP Place.holds ≤ k.toNat ∧
    (∀ x, s.main.loaded = some x ∨ (∃ p ∈ s.threads, p.loaded = some x) → x = s.instancesToGet) ∧
    (∀ x j rest, s.main = .storing x j rest → j.numInstancesToStart ≤ x) := by
  have hI := h.slotInv
  have ht := hI.total hr
  have hx := hI.expected hr
  have hpush := hI.pushed
  simp only [ledger, Ledger.total] at ht
  refine ⟨fun hq => ?_, ?_, ?_, fun x j rest hm => ?_⟩
  · rw [pushed_eq_zero hq.1, sum_slot_of_quiet hq.2.2] at ht
    exact ht
  · have h1 := countP_holds_le s.threads
    have h2 := pushed_le_expected s.main
    omega
  · rintro x (hl | ⟨p, hp, hl⟩)
    · exact (hI.mainFresh x hl).1
    · obtain ⟨i, hi⟩ := List.getElem?_of_mem hp
      exact hI.threadFresh i x (by rw [hi, inDone_of_loaded hl])
  · obtain ⟨rfl, -⟩ := hI.mainFresh x (by rw [hm]; rfl)
    rw [hm] at hx
    simp only [MainPlace.expected, handedOut, List.map_cons, List.sum_cons] at hx
    exact UInt32.le_iff_toNat_le.2 (by omega)

instance (s : Slots) : ∀ e : Event, Decidable (UpdatesApart s e)
  | .main _ => inferInstanceAs (Decidable (_ → _))
  | .thread _ _ => inferInstanceAs (Decidable (_ → _))

instance (s : Slots) : ∀ e : Event, Decidable (AsRequested s e)
  | .main (.command (.sendInstances _)) => inferInstanceAs (Decidable (_ ≤ _))
  | .main .nothing | .main .exception | .main (.command .terminate) | .main (.command .activateWorker) => isTrue trivial
  | .thread _ _ => isTrue trivial

/-- A job of one instance. -/
def oneInstance : Job := ⟨{}, 1, 0⟩

/-- A round of the main thread, up to the queueing of the instance it gets. -/
def queueOne : List Event :=
  List.replicate 8 (.main .nothing) ++ [.main (.command (.sendInstances [oneInstance]))] ++ List.replicate 4
    (.main .nothing)

/-- A thread gets a task and executes it. -/
def executeOne : List Event := List.replicate 6 (.thread 0 .failed)

/-- The main thread gets one instance for its two threads, and one of them executes it. -/
theorem slots_accounted_one :
    ∃ s, ApartRun 2 (queueOne ++ List.replicate 6 (.main .nothing) ++ executeOne) s ∧ s.running = true ∧
      (s.Quiet → s.instancesToGet.toNat + s.tasks.length + s.threads.countP Place.holds = (2 : UInt32).toNat) ∧
      s.tasks.length + s.threads.countP Place.holds ≤ (2 : UInt32).toNat ∧
      (∀ x, s.main.loaded = some x ∨ (∃ p ∈ s.threads, p.loaded = some x) → x = s.instancesToGet) ∧
      (∀ x j rest, s.main = .storing x j rest → j.numInstancesToStart ≤ x) := by
  have hrun : ApartRun 2 (queueOne ++ List.replicate 6 (.main .nothing) ++ executeOne)
      { instancesToGet := 1
        oldInstancesToGet := 2
        nothingDone := false
        threads := [.executed (.new {} 0), .polling] } := Traced.of_replay (by rfl)
  exact ⟨_, hrun, rfl, slots_accounted _ _ _ hrun rfl⟩

/-- The thread has loaded the value 1 when the main thread loads it too; it stores 2 after the main thread has stored
0, so one of two slots is counted although a task is queued for it. -/
theorem slots_not_accounted :
    ∃ s, Traced step (fun _ s e => AsRequested s e) [] (start 2)
        (queueOne ++ List.replicate 6 (.main .nothing) ++ executeOne ++ queueOne ++ List.replicate 3
          (.thread 0 .failed) ++
          [.main .nothing, .main .nothing, .thread 0 .failed, .main .nothing, .thread 0 .failed]) s ∧
      s.running = true ∧ s.Quiet ∧ s.instancesToGet.toNat + s.tasks.length + s.threads.countP Place.holds = 3 := by
  refine ⟨{ instancesToGet := 2
            oldInstancesToGet := 1
            nothingDone := true
            tasks := [.new {} 0]
            tasksDone := [.new {} 0]
            main := .creating []
            threads := [.polling, .polling] }, Traced.of_replay (by rfl), rfl, ?_, rfl⟩
  exact ⟨rfl, rfl, fun p hp => by rw [List.eq_of_mem_replicate (n := 2) hp]; exact ⟨rfl, rfl⟩⟩

end Slots

end ParallelProbsat.Communication
