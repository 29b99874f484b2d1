/-
The processes of one run: the manager (`manager.cpp`), which reads commands, the server, and the
workers it has accepted. Every pair of processes exchanges its messages in order; otherwise the
processes, and the threads of a worker, take their steps in any order.
-/
import ParallelProbsat.Communication.Server
import ParallelProbsat.Communication.Exchange

namespace ParallelProbsat.Communication

open ParallelProbsat.Lib

/-! ## The manager -/

def maxSimultaneousConnectionAttempts : Nat := 1

/-- A command line of the manager. -/
inductive Command where
  | addWorkers (numWorkers : Int)
  | addFile (data : ProblemInstanceMetadata)
  | waitForServer
  | exit
  /-- `help`, or a line that is no command. -/
  | other
  deriving DecidableEq, Repr

inductive ManagerPoint where
  /-- About to execute the next command. -/
  | command
  /-- In `cmd_add_workers`, with the workers still to add. -/
  | adding (numWorkersToAdd : Nat)
  /-- In `cmd_wait_for_server`. -/
  | waiting
  /-- After a command: about to probe for a message of the server. -/
  | probing
  | exited
  deriving DecidableEq, Repr

structure Manager where
  point : ManagerPoint := .command
  running : Bool := true
  solutionFound : Bool := false
  defaultCmds : List Command := []
  deriving DecidableEq, Repr

namespace Manager

/-- One round of the loop of `cmd_add_workers`, with the message it sends. -/
def addSome (numWorkersToAdd : Nat) (m : Manager) : Manager × List M2S :=
  if 0 < numWorkersToAdd then
    let nw := min maxSimultaneousConnectionAttempts numWorkersToAdd
    ({ m with point := .adding (numWorkersToAdd - nw) }, [.addWorkers nw])
  else ({ m with point := .probing }, [])

/-- `do_exit`, after which the main loop is left. -/
def doExit (m : Manager) : Manager × List M2S := ({ m with point := .probing, running := false }, [.terminate])

def execute : Command → Manager → Manager × List M2S
  | .addWorkers numWorkers, m =>
    if m.solutionFound then ({ m with point := .probing }, []) else m.addSome numWorkers.toNat
  | .addFile data, m => ({ m with point := .probing }, if m.solutionFound then [] else [.addFile data])
  | .waitForServer, m => ({ m with point := .waiting }, [])
  | .exit, m => m.doExit
  | .other, m => ({ m with point := .probing }, [])

/-- `process_server_cmd`; the statistics are only printed. -/
def processServerCmd : S2M → Manager → Manager
  | .foundSolution _, m => { m with solutionFound := true }
  | _, m => m

/-- A step of the manager, with what it sends and the messages of the server it has not received then.
`line` is what it reads from its input, `seen` tells whether a probe sees the oldest message. -/
def step (line : Command) (seen : Bool) (toServer : List M2S) (inbox : List S2M) (m : Manager) :
    Option (Manager × List M2S × List S2M) :=
  match m.point with
  | .command =>
    let (m, sent) := match m.defaultCmds with
      | [] => m.execute line
      | cmd :: rest => { m with defaultCmds := rest }.execute cmd
    some (m, sent, inbox)
  | .adding numWorkersToAdd =>
    -- the barrier is passed when the server has handled ADD_WORKERS
    if toServer = [] then
      let (m, sent) := m.addSome numWorkersToAdd
      some (m, sent, inbox)
    else none
  | .waiting =>
    match inbox with
    | [] => none
    | msg :: rest =>
      let m := m.processServerCmd msg
      if msg = .disconnect then some (m.doExit.1, m.doExit.2, rest) else some (m, [], rest)
  | .probing =>
    let next : ManagerPoint := if m.running then .command else .exited
    match inbox, seen with
    | msg :: rest, true =>
      let cmds := match msg with
        | .foundSolution _ => .waitForServer :: m.defaultCmds
        | .disconnect => .exit :: m.defaultCmds
        | .sendStatistics _ _ => m.defaultCmds
      some ({ m.processServerCmd msg with point := next, defaultCmds := cmds }, [], rest)
    | _, _ => some ({ m with point := next }, [], inbox)
  | .exited => none

end Manager

/-! ## The whole system -/

structure Cluster where
  manager : Manager := {}
  /-- Sent by the manager and not yet received by the server, oldest first. -/
  toServer : List M2S := []
  /-- Sent by the server and not yet received by the manager, oldest first. -/
  toManager : List S2M := []
  server : EventLoop := {}
  /-- The server has left its main loop and sent DISCONNECT. -/
  left : Bool := false
  /-- The workers the server has accepted, by their communicators. -/
  workers : List Worker := []
  deriving DecidableEq, Repr

inductive Action where
  | manager (line : Command) (seen : Bool)
  /-- The server polls the workers and finds a command of the one at `index`, or nothing. -/
  | serverPollsWorkers (index : Option Nat)
  | serverPollsManager (seen : Bool)
  | serverLeaves
  | workerMain (comm : Comm) (ok : Bool) (instancesToGet : UInt32)
  | workerThread (comm : Comm) (i : Nat) (outcome : Execution)
  deriving DecidableEq, Repr

/-- A message of the server arrives. -/
def Worker.push (msg : S2W) (w : Worker) : Worker := { w with inbox := w.inbox ++ [msg] }

/-- Each message goes to its worker. -/
def deliver (messages : List (Comm × S2W)) (workers : List Worker) : List Worker :=
  messages.foldl (fun workers m => workers.modify m.1 (Worker.push m.2)) workers

namespace Cluster

/-- The workers accepted meanwhile, each with its number of threads. -/
def joining (numWorkers : Comm → UInt32) (accepted : Nat) (c : Cluster) : List Worker :=
  (List.range' c.workers.length (accepted - c.workers.length)).map fun comm => { numWorkers := numWorkers comm }

/-- The server handles what a poll has found; what it sends is on its way. -/
def serve (numWorkers : Comm → UInt32) (e : Event) (c : Cluster) : Option Cluster :=
  (c.server.step e).map fun l => { c with
    server := l
    toManager := c.toManager ++ l.server.toManager.drop c.server.server.toManager.length
    workers := deliver (l.server.toWorkers.drop c.server.server.toWorkers.length)
      (c.workers ++ c.joining numWorkers l.server.accepted) }

/-- A step of the system; `numWorkers` gives the number of threads of each worker. -/
def step (numWorkers : Comm → UInt32) (c : Cluster) : Action → Option Cluster
  | .manager line seen =>
    (c.manager.step line seen c.toServer c.toManager).map fun (m, sent, inbox) =>
      { c with manager := m, toServer := c.toServer ++ sent, toManager := inbox }
  | .serverPollsWorkers none => c.serve numWorkers (.pollWorkers none)
  | .serverPollsWorkers (some index) =>
    match c.server.server.workUnits[index]? with
    | none => none
    | some comm => match c.workers[comm]? with
      | none => none
      | some w => match w.outbox with
        | [] => none
        | msg :: rest =>
          { c with workers := c.workers.modify comm fun w => { w with outbox := rest } }.serve numWorkers
            (.pollWorkers (some (index, msg)))
  | .serverPollsManager false => c.serve numWorkers (.pollManager none)
  | .serverPollsManager true =>
    match c.toServer with
    | [] => none
    | cmd :: rest => { c with toServer := rest }.serve numWorkers (.pollManager (some cmd))
  | .serverLeaves =>
    if c.left = false ∧ c.server.server.running = false ∧ c.server.polled = false then
      some { c with left := true, toManager := c.toManager ++ [.disconnect] }
    else none
  | .workerMain comm ok instancesToGet =>
    match c.workers[comm]? with
    | none => none
    | some w => (w.mainStep ok instancesToGet).map fun w' => { c with workers := c.workers.modify comm fun _ => w' }
  | .workerThread comm i outcome =>
    match c.workers[comm]? with
    | none => none
    | some w => (w.threadStep i outcome).map fun w' => { c with workers := c.workers.modify comm fun _ => w' }

/-- A worker takes a step of its own. -/
structure Works (c : Cluster) (comm : Comm) (w w' : Worker) (c' : Cluster) : Prop where
  found : c.workers[comm]? = some w
  server : c'.server = c.server
  workers : c'.workers = c.workers.modify comm fun _ => w'

/-- A step of the system: the server handles a message of a worker or another poll, a worker moves, or
neither the server nor a worker changes. -/
inductive Advances (numWorkers : Comm → UInt32) (c : Cluster) : Action → Cluster → Prop
  | quiet {a : Action} {c' : Cluster} (hs : c'.server = c.server) (hw : c'.workers = c.workers) :
      Advances numWorkers c a c'
  | receives {index : Nat} {comm : Comm} {w : Worker} {msg : W2S} {rest : List W2S} {c' : Cluster}
      (hi : c.server.server.workUnits[index]? = some comm) (hw : c.workers[comm]? = some w)
        (ho : w.outbox = msg :: rest)
      (h : { c with workers := c.workers.modify comm fun w => { w with outbox := rest } }.serve numWorkers
        (.pollWorkers (some (index, msg))) = some c') : Advances numWorkers c (.serverPollsWorkers (some index)) c'
  | serves {a : Action} {e : Event} {c₁ c' : Cluster} (hs : c₁.server = c.server) (hw : c₁.workers = c.workers)
      (hm : e = .pollWorkers none ∨ ∃ received, e = .pollManager received) (h : c₁.serve numWorkers e = some c') :
      Advances numWorkers c a c'
  | mains {comm : Comm} {ok : Bool} {n : UInt32} {w w' : Worker} {c' : Cluster} (h : c.Works comm w w' c')
      (hm : w.mainStep ok n = some w') : Advances numWorkers c (.workerMain comm ok n) c'
  | threads {comm : Comm} {i : Nat} {outcome : Execution} {w w' : Worker} {c' : Cluster} (h : c.Works comm w w' c')
      (ht : w.threadStep i outcome = some w') : Advances numWorkers c (.workerThread comm i outcome) c'

section Inversion

variable {numWorkers : Comm → UInt32} {c c' : Cluster}

/-- The server receives the oldest message of the worker at `index`. -/
theorem step_pollsWorker {index : Nat} (h : c.step numWorkers (.serverPollsWorkers (some index)) = some c') :
    ∃ comm w msg rest, c.server.server.workUnits[index]? = some comm ∧ c.workers[comm]? = some w ∧
      w.outbox = msg :: rest ∧
      { c with workers := c.workers.modify comm fun w => { w with outbox := rest } }.serve numWorkers
        (.pollWorkers (some (index, msg))) = some c' := by
  simp only [step] at h
  split at h
  · cases h
  · rename_i comm hi
    split at h
    · cases h
    · rename_i w hw
      split at h
      · cases h
      · rename_i msg rest ho
        exact ⟨comm, w, msg, rest, hi, hw, ho, h⟩

/-- The server receives the oldest message of the manager. -/
theorem step_pollsManager (h : c.step numWorkers (.serverPollsManager true) = some c') :
    ∃ cmd rest, { c with toServer := rest }.serve numWorkers (.pollManager (some cmd)) = some c' := by
  simp only [step] at h
  split at h
  · cases h
  · rename_i cmd rest _
    exact ⟨cmd, rest, h⟩

theorem step_workerMain {comm : Comm} {ok : Bool} {n : UInt32}
    (h : c.step numWorkers (.workerMain comm ok n) = some c') :
    ∃ w w', c.workers[comm]? = some w ∧ w.mainStep ok n = some w' ∧
      c' = { c with workers := c.workers.modify comm fun _ => w' } := by
  simp only [step] at h
  split at h
  · cases h
  · rename_i w hw
    obtain ⟨w', hm, rfl⟩ := Option.map_eq_some_iff.1 h
    exact ⟨w, w', hw, hm, rfl⟩

theorem step_workerThread {comm : Comm} {i : Nat} {outcome : Execution}
    (h : c.step numWorkers (.workerThread comm i outcome) = some c') :
    ∃ w w', c.workers[comm]? = some w ∧ w.threadStep i outcome = some w' ∧
      c' = { c with workers := c.workers.modify comm fun _ => w' } := by
  simp only [step] at h
  split at h
  · cases h
  · rename_i w hw
    obtain ⟨w', ht, rfl⟩ := Option.map_eq_some_iff.1 h
    exact ⟨w, w', hw, ht, rfl⟩

end Inversion

theorem step_advances {numWorkers : Comm → UInt32} {c c' : Cluster} {a : Action} (h : c.step numWorkers a = some c') :
    Advances numWorkers c a c' := by
  cases a with
  | manager line seen =>
    obtain ⟨⟨m, sent, inbox⟩, -, rfl⟩ := Option.map_eq_some_iff.1 h
    exact .quiet rfl rfl
  | serverPollsWorkers index =>
    cases index with
    | none => exact .serves rfl rfl (.inl rfl) h
    | some index =>
      obtain ⟨comm, w, msg, rest, hi, hw, ho, he⟩ := step_pollsWorker h
      exact .receives hi hw ho he
  | serverPollsManager seen =>
    cases seen with
    | false => exact .serves rfl rfl (.inr ⟨_, rfl⟩) h
    | true =>
      obtain ⟨cmd, rest, he⟩ := step_pollsManager h
      refine .serves ?_ ?_ (.inr ⟨some cmd, rfl⟩) he <;> rfl
  | serverLeaves =>
    simp only [step] at h
    split at h <;> cases h
    exact .quiet rfl rfl
  | workerMain comm ok n =>
    obtain ⟨w, w', hw, hm, rfl⟩ := step_workerMain h
    exact .mains ⟨hw, rfl, rfl⟩ hm
  | workerThread comm i outcome =>
    obtain ⟨w, w', hw, ht, rfl⟩ := step_workerThread h
    exact .threads ⟨hw, rfl, rfl⟩ ht

end Cluster

end ParallelProbsat.Communication
