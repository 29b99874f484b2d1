/-
The whole system with the program of the manager in it, which reads its script. Seen through `toCluster` it is the
system of `Cluster`, in which a line is the command it stands for, as long as the server sends the manager no command
that has to be announced. What the server has of a script with short names are the files and the workers its commands
name, in their order.
-/
import ParallelProbsat.Communication.Attribution
import ParallelProbsat.Communication.Shutdown
import ParallelProbsat.Communication.ScriptText

namespace ParallelProbsat.Communication

open ParallelProbsat.Lib ParallelProbsat.Util ParallelProbsat.Sat

/-! ## The manager -/

namespace Manager

theorem step_line {m : Manager} {toServer : List M2S} {inbox : List S2M} (hp : m.point = .command)
    (hc : m.defaultCmds = []) (line : Command) (seen : Bool) :
    m.step line seen toServer inbox = some ((m.execute line).1, (m.execute line).2, inbox) := by
  unfold step
  rw [hp, hc]

theorem step_default {m : Manager} {toServer : List M2S} {inbox : List S2M} {cmd : Command} {rest : List Command}
    (hp : m.point = .command) (hc : m.defaultCmds = cmd :: rest) (line : Command) (seen : Bool) :
    m.step line seen toServer inbox =
      some (({ m with defaultCmds := rest }.execute cmd).1, ({ m with defaultCmds := rest }.execute cmd).2, inbox) := by
  unfold step
  rw [hp, hc]

end Manager

namespace ManagerMain

variable {text1b : String → Nat} {lines : List Text} {m m' : ManagerMain} {seen : Bool} {toServer : List M2S}
  {inbox rest : List (Packet S2M)}

/-- What a step of the program is to `Manager`: none, or one in which the same is sent and received. -/
structure Refines (seen : Bool) (toServer : List M2S) (inbox rest : List (Packet S2M)) (m m' : ManagerMain)
    (sent : List M2S) : Prop where
  sends : m'.sent = m.sent ++ sent
  steps : (m'.toManager = m.toManager ∧ sent = [] ∧ rest = inbox) ∨
    ∃ line, m.toManager.step line seen toServer (Packet.contents inbox) =
      some (m'.toManager, sent, Packet.contents rest)

theorem Refines.stutter (h : m'.toManager = m.toManager) (hsent : m'.sent = m.sent) :
    Refines seen toServer inbox inbox m m' [] where
  sends := by rw [hsent, List.append_nil]
  steps := .inl ⟨h, rfl, rfl⟩

/-- A line from the input is executed. -/
theorem executeLine_refines {line : Text} {cin : IFStream} {fetched : List Text} (hp : m.point = .reading)
    (hc : m.defaultCmds = []) : ∃ sent, Refines seen toServer inbox inbox m
      (({ m with cin := cin, fetched := fetched } : ManagerMain).executeLine text1b line) sent := by
  by_cases hsplit : split line = []
  · rw [executeLine_undefined hsplit]
    refine ⟨[], .stutter ?_ rfl⟩
    unfold toManager
    rw [hp]
    rfl
  · have hdoes := executeLine_does text1b hsplit { m with cin := cin, fetched := fetched }
    generalize ({ m with cin := cin, fetched := fetched } : ManagerMain).executeLine text1b line = m' at hdoes
    cases hdoes with
    | @performs _ sent _ hsent hperf =>
      have hpoint := point_toManager hp
      have hcmds : m.toManager.defaultCmds = [] := by
        show m.defaultCmds.map commandOf = []
        rw [hc]
        rfl
      replace hperf : m.toManager.execute (commandOf line) = _ := hperf
      refine ⟨sent, hsent, .inr ⟨commandOf line, ?_⟩⟩
      rw [Manager.step_line hpoint hcmds, hperf]
    | aborts =>
      refine ⟨[], .stutter ?_ rfl⟩
      unfold toManager
      rw [hp]
      rfl

/-- A line that the server has made it execute. -/
theorem executeDefault_refines {line : Text} (hp : m.point = .command) (hc : m.defaultCmds = [line])
    (hstop : line ∈ stopLines) : ∃ sent, Refines seen toServer inbox inbox m
      (({ m with defaultCmds := [] } : ManagerMain).executeLine text1b line) sent := by
  obtain ⟨hsplit, hstops⟩ := stopLines_stop hstop
  have hdefault : m.toManager.defaultCmds = [commandOf line] := by
    show m.defaultCmds.map commandOf = _
    rw [hc]
    rfl
  have hdoes := executeLine_does text1b hsplit { m with defaultCmds := [] }
  generalize ({ m with defaultCmds := [] } : ManagerMain).executeLine text1b line = m' at hdoes
  cases hdoes with
  | @performs _ sent _ hsent hperf =>
    refine ⟨sent, hsent, .inr ⟨.other, ?_⟩⟩
    rw [Manager.step_default (point_toManager hp) hdefault]
    exact congrArg (fun r => some (r.1, r.2, Packet.contents inbox)) hperf
  | aborts hlong =>
    rw [hlong.stops] at hstops
    cases hstops

theorem next_toManager (m : ManagerMain) : (if m.running then MainPoint.command else .exited).toManager =
    if m.toManager.running then ManagerPoint.command else .exited := by
  show _ = if m.running then _ else _
  split <;> rfl

/-- A probe that sees nothing. -/
theorem unprobed_refines (hp : m.point = .probing) (hnone : Packet.contents inbox = [] ∨ seen = false) :
    Refines seen toServer inbox inbox m { m with point := if m.running then .command else .exited } [] where
  sends := (List.append_nil _).symm
  steps := by
    refine .inr ⟨.other, ?_⟩
    unfold Manager.step
    rw [point_toManager hp]
    simp only [MainPoint.toManager]
    rw [← next_toManager]
    rcases hnone with hnone | rfl
    · rw [hnone]
      rfl
    · cases Packet.contents inbox <;> rfl

/-- A probe that sees a command. -/
theorem probed_refines (hp : m.point = .probing) (n : Nat) (msg : S2M) :
    Refines true toServer (.data n msg :: rest) rest m (m.probed (.data n msg)) [] where
  sends := by cases msg <;> exact (List.append_nil _).symm
  steps := by
    refine .inr ⟨.other, ?_⟩
    unfold Manager.step
    rw [point_toManager hp]
    simp only [MainPoint.toManager]
    rw [← next_toManager]
    cases msg <;> rfl

/-- A command arrives in `cmd_wait_for_server`. -/
theorem waitRound_refines (hp : m.point = .waiting) (n : Nat) (msg : S2M) :
    ∃ sent, Refines seen toServer (.data n msg :: rest) rest m (m.waitRound (.data n msg)) sent := by
  have hstep : ∀ {m' : ManagerMain} {sent : List M2S}, m'.sent = m.sent ++ sent →
      (if msg = .disconnect then some ((m.toManager.processServerCmd msg).doExit.1, [.terminate], Packet.contents rest)
        else some (m.toManager.processServerCmd msg, [], Packet.contents rest)) =
          some (m'.toManager, sent, Packet.contents rest) →
      Refines seen toServer (.data n msg :: rest) rest m m' sent := by
    intro m' sent hsent hresult
    refine ⟨hsent, .inr ⟨.other, ?_⟩⟩
    rw [← hresult]
    unfold Manager.step
    rw [point_toManager hp]
    rfl
  cases msg with
  | foundSolution _ | sendStatistics _ _ => exact ⟨[], hstep (List.append_nil _).symm rfl⟩
  | disconnect => exact ⟨[.terminate], hstep rfl rfl⟩

theorem step_refines (h : m.Orderly text1b lines) (hshort : ∀ q ∈ inbox, Unannounced q)
    (hs : m.step text1b seen toServer inbox = some (m', rest)) :
    ∃ sent, Refines seen toServer inbox rest m m' sent := by
  unfold ManagerMain.step at hs
  cases hp : m.point with
  | command =>
    rw [hp] at hs
    simp only at hs
    have hfail := h.failbit (by simp [hp]) (by simp [hp])
    cases hcmds : m.defaultCmds with
    | nil =>
      rw [hcmds, hfail, h.unbroken.badbit] at hs
      cases hs
      refine ⟨[], .stutter ?_ rfl⟩
      unfold toManager
      rw [hp, hcmds]
      rfl
    | cons line rest' =>
      rw [hcmds] at hs
      cases hs
      obtain ⟨-, line', hstop, hone⟩ := h.defaultCmds.resolve_left (by rw [hcmds]; simp)
      rw [hcmds] at hone
      obtain ⟨rfl, rfl⟩ := List.cons.inj hone
      rw [← hp]
      exact executeDefault_refines hp hcmds hstop
  | reading =>
    rw [hp] at hs
    cases hs
    have hcmds := h.defaultCmds_nil (by simp [hp]) (by simp [hp])
    have hreads := readLine_reads text1b h.unbroken
    generalize m.readLine text1b = m' at hreads
    cases hreads with
    | passes => exact ⟨[], .stutter rfl rfl⟩
    | takes => exact executeLine_refines hp hcmds
  | adding n =>
    rw [hp] at hs
    simp only at hs
    split at hs <;> cases hs
    rename_i hempty
    obtain ⟨sent, hsent, hadd⟩ := addSome_performs n m
    refine ⟨sent, hsent, .inr ⟨.other, ?_⟩⟩
    unfold Manager.step
    rw [point_toManager hp]
    simp only [MainPoint.toManager]
    rw [if_pos hempty, hadd]
  | waiting =>
    rw [hp] at hs
    cases inbox with
    | nil => cases hs
    | cons q rest' =>
      cases hs
      have hq := hshort q (List.mem_cons_self ..)
      cases q with
      | request n => cases hq
      | data n msg => exact waitRound_refines hp n msg
  | probing =>
    rw [hp] at hs
    cases inbox with
    | nil =>
      cases hs
      exact ⟨[], unprobed_refines hp (.inl rfl)⟩
    | cons q rest' =>
      cases seen with
      | false =>
        cases hs
        exact ⟨[], unprobed_refines hp (.inr rfl)⟩
      | true =>
        cases hs
        have hq := hshort q (List.mem_cons_self ..)
        cases q with
        | request n => cases hq
        | data n msg => exact ⟨[], probed_refines hp n msg⟩
  | exited | failed | aborted | undefined =>
    rw [hp] at hs
    cases hs

/-- A step receives the oldest message, or none. -/
theorem step_receives (hs : m.step text1b seen toServer inbox = some (m', rest)) : rest <:+ inbox := by
  unfold ManagerMain.step at hs
  split at hs
  · split at hs
    · split at hs <;> cases hs <;> exact List.suffix_rfl
    · cases hs
      exact List.suffix_rfl
  · cases hs
    exact List.suffix_rfl
  · split at hs <;> cases hs
    exact List.suffix_rfl
  · split at hs <;> cases hs
    exact List.suffix_cons _ _
  · split at hs <;> cases hs
    · exact List.suffix_cons _ _
    · exact List.suffix_rfl
  · cases hs
  · cases hs
  · cases hs
  · cases hs

end ManagerMain

/-! ## What the server receives of the manager -/

def M2S.files : M2S → List ProblemInstanceMetadata
  | .addFile data => [data]
  | .addWorkers _ | .terminate => []

def M2S.numWorkers : M2S → Nat
  | .addWorkers numWorkers => numWorkers.toNat
  | .addFile _ | .terminate => 0

/-- The file the command adds. -/
def Command.files : Command → List ProblemInstanceMetadata
  | .addFile data => [data]
  | .addWorkers _ | .waitForServer | .exit | .other => []

def Command.numWorkers : Command → Nat
  | .addWorkers numWorkers => numWorkers.toNat
  | .addFile _ | .waitForServer | .exit | .other => 0

theorem files_messages (cmds : List Command) :
    (cmds.flatMap Command.messages).flatMap M2S.files = cmds.flatMap Command.files := by
  rw [List.flatMap_assoc]
  congr 1
  funext cmd
  cases cmd with
  | addWorkers n =>
    rw [Command.messages, Command.files, List.flatMap_eq_nil_iff]
    intro msg hmsg
    rw [List.eq_of_mem_replicate hmsg]
    rfl
  | addFile _ | waitForServer | exit | other => rfl

theorem numWorkers_messages (cmds : List Command) :
    ((cmds.flatMap Command.messages).map M2S.numWorkers).sum = (cmds.map Command.numWorkers).sum := by
  induction cmds with
  | nil => rfl
  | cons cmd cmds ih =>
    have hone : (cmd.messages.map M2S.numWorkers).sum = cmd.numWorkers := by
      cases cmd with
      | addWorkers n =>
        rw [Command.messages, List.map_replicate, List.sum_replicate]
        exact Nat.mul_one _
      | addFile _ | waitForServer | exit | other => rfl
    rw [List.flatMap_cons, List.map_append, List.sum_append, ih, hone, List.map_cons, List.sum_cons]

def Event.received : Event → List M2S
  | .pollManager (some cmd) => [cmd]
  | .pollManager none | .pollWorkers _ => []

namespace Server

variable {s s' : Server} {e : Event}

/-- The server adds the files it is told, and no other. -/
theorem Handles.files_eq (h : s.Handles e s') : s'.files = s.files ++ e.received.flatMap M2S.files := by
  have hsame : s'.files = s.files → s'.files = s.files ++ [] := fun h0 => by rw [h0, List.append_nil]
  cases h with
  | noWorker | noManager => exact hsame rfl
  | addFile data =>
    rw [processM2sAddFile_eq]
    show (s.availableTasks ++ [TaskInfo.new data]).map (fun t => t.metadata) = _
    rw [List.map_append]
    rfl
  | addWorkers hs =>
    obtain ⟨workers, -, rfl⟩ := processM2sAddWorkers_ok hs
    exact hsame rfl
  | terminate hs =>
    rw [sendTerminationToWorkers_frame hs]
    exact (List.append_nil _).symm
  | foundSolution _ hs =>
    obtain ⟨s₁, h1, rfl⟩ := processW2sFoundSolution_ok hs
    rw [sendTerminationToWorkers_frame h1]
    exact (List.append_nil _).symm
  | doneProcessing _ hs => exact hsame (files_doneProcessing hs)
  | getInstances _ hs =>
    obtain ⟨s₁, reply, rfl, ⟨-, h1⟩ | ⟨-, rfl, -⟩⟩ := processW2sGetInstances_ok hs
    · exact hsame (assigned_assignLoop h1).1
    · exact hsame rfl
  | disconnect =>
    rw [processW2sDisconnect_eq]
    exact (List.append_nil _).symm

/-- The server accepts as many workers as it is told. -/
theorem Handles.accepted_eq (h : s.Handles e s') : s'.accepted = s.accepted + (e.received.map M2S.numWorkers).sum := by
  by_cases hadd : ∃ n, e = .pollManager (some (.addWorkers n))
  · obtain ⟨n, rfl⟩ := hadd
    cases h with
    | addWorkers hs =>
      obtain ⟨workers, -, rfl⟩ := processM2sAddWorkers_ok hs
      rfl
  · have hno : (e.received.map M2S.numWorkers).sum = 0 := by
      rcases e with received | (- | cmd)
      · rfl
      · rfl
      · cases cmd with
        | addWorkers n => exact absurd ⟨n, rfl⟩ hadd
        | addFile _ | terminate => rfl
    rw [hno, Nat.add_zero]
    by_cases hdis : ∃ index, e = .pollWorkers (some (index, .disconnect))
    · obtain ⟨index, rfl⟩ := hdis
      rw [h.disconnect_eq, processW2sDisconnect_eq]
    · exact (h.stays (fun n hn => hadd ⟨n, hn⟩) fun i hi => hdis ⟨i, hi⟩).accepted

end Server

/-- The action, unless it is one of the manager. -/
def Action.apart : Action → Option Action
  | .manager _ _ => none
  | a => some a

namespace Cluster

variable {numWorkers : Comm → UInt32} {c c' : Cluster}

/-- The manager and what it has sent are not touched by the others, but for a message that the server takes and handles;
`reports` are sent to the manager, and logged or DISCONNECT. -/
structure Apart (c c' : Cluster) (received : List M2S) (reports : List S2M) : Prop where
  manager : c'.manager = c.manager
  toServer : c.toServer = received ++ c'.toServer
  files : c'.server.server.files = c.server.server.files ++ received.flatMap M2S.files
  accepted : c'.server.server.accepted = c.server.server.accepted + (received.map M2S.numWorkers).sum
  toManager : c'.toManager = c.toManager ++ reports
  reported : ∀ msg ∈ reports, msg = .disconnect ∨ msg ∈ c'.server.server.toManager
  log : c.server.server.toManager <+: c'.server.server.toManager

theorem Apart.of_eq {reports : List S2M} (hm : c'.manager = c.manager) (hto : c'.toServer = c.toServer)
    (hs : c'.server = c.server) (hreports : c'.toManager = c.toManager ++ reports)
    (hdis : ∀ msg ∈ reports, msg = .disconnect) : c.Apart c' [] reports where
  manager := hm
  toServer := hto.symm
  files := by rw [hs]; exact (List.append_nil _).symm
  accepted := by rw [hs]; rfl
  toManager := hreports
  reported msg hmsg := .inl (hdis msg hmsg)
  log := by rw [hs]

theorem Apart.serve {c₁ : Cluster} {e : Event} (hm : c₁.manager = c.manager)
    (hto : c.toServer = e.received ++ c₁.toServer)
    (hs : c₁.server = c.server) (hman : c₁.toManager = c.toManager) (h : c₁.serve numWorkers e = some c') :
    ∃ reports, c.Apart c' e.received reports := by
  unfold Cluster.serve at h
  obtain ⟨l, hl, rfl⟩ := Option.map_eq_some_iff.1 h
  rw [hs] at hl
  have hhandles := EventLoop.step_handles hl
  obtain ⟨new, hlog, -⟩ := hhandles.reports
  refine ⟨new, hm, hto, hhandles.files_eq, hhandles.accepted_eq, ?_, ?_, ?_⟩
  · show c₁.toManager ++ l.server.toManager.drop c₁.server.server.toManager.length = _
    rw [hman, hs, hlog, List.drop_left]
  · intro msg hmsg
    right
    show msg ∈ l.server.toManager
    rw [hlog]
    exact List.mem_append_right _ hmsg
  · exact ⟨new, hlog.symm⟩

theorem step_apart {a : Action} (ha : a.apart = some a) (h : c.step numWorkers a = some c') :
    ∃ received reports, c.Apart c' received reports := by
  cases a with
  | manager line seen => cases ha
  | serverPollsWorkers index =>
    cases index with
    | none => exact ⟨_, Apart.serve rfl rfl rfl rfl h⟩
    | some index =>
      obtain ⟨comm, w, msg, rest, -, -, -, he⟩ := step_pollsWorker h
      refine ⟨_, Apart.serve ?_ ?_ ?_ ?_ he⟩ <;> rfl
  | serverPollsManager seen =>
    cases seen with
    | false => exact ⟨_, Apart.serve rfl rfl rfl rfl h⟩
    | true =>
      simp only [step] at h
      split at h
      · cases h
      · rename_i cmd rest hto
        refine ⟨_, Apart.serve ?_ ?_ ?_ ?_ h⟩
        · rfl
        · exact hto
        · rfl
        · rfl
  | serverLeaves =>
    simp only [step] at h
    split at h <;> cases h
    exact ⟨_, [.disconnect], .of_eq rfl rfl rfl rfl fun msg hmsg => List.mem_singleton.1 hmsg⟩
  | workerMain comm ok n =>
    obtain ⟨w, w', -, -, rfl⟩ := step_workerMain h
    exact ⟨_, [], .of_eq rfl rfl rfl (List.append_nil _).symm fun _ hmsg => absurd hmsg List.not_mem_nil⟩
  | workerThread comm i outcome =>
    obtain ⟨w, w', -, -, rfl⟩ := step_workerThread h
    exact ⟨_, [], .of_eq rfl rfl rfl (List.append_nil _).symm fun _ hmsg => absurd hmsg List.not_mem_nil⟩

end Cluster

/-! ## The system -/

/-- The processes of a run, the manager as its program. -/
structure Scripted where
  main : ManagerMain
  toServer : List M2S := []
  toManager : List (Packet S2M) := []
  /-- Of the server. -/
  currentManagerMaxCmdLength : Nat := defaultMaxCmdLength
  server : EventLoop := {}
  left : Bool := false
  workers : List Worker := []

inductive Move where
  | manager (seen : Bool)
  /-- A step of the server or of a worker. -/
  | other (a : Action)

def Move.apart : Move → Option Action
  | .manager _ => none
  | .other a => a.apart

namespace Scripted

def start (serverName script : Text) (seekable : Bool) : Scripted where
  main := .start serverName script seekable

def toCluster (s : Scripted) : Cluster where
  manager := s.main.toManager
  toServer := s.toServer
  toManager := Packet.contents s.toManager
  server := s.server
  left := s.left
  workers := s.workers

/-- The others, and the messages to the server, are as in `c`; to the manager the server has sent `sent`. -/
def withOthers (s : Scripted) (c : Cluster) (sent : Nat × List (Packet S2M)) : Scripted where
  main := s.main
  toServer := c.toServer
  toManager := sent.2
  currentManagerMaxCmdLength := sent.1
  server := c.server
  left := c.left
  workers := c.workers

/-- A step of the system; a command of the server to the manager that is too long fails an assertion. -/
def step (text1b : String → Nat) (numWorkers : Comm → UInt32) (s : Scripted) : Move → Option Scripted
  | .manager seen => (s.main.step text1b seen s.toServer s.toManager).map fun (main, inbox) =>
    { s with main := main, toServer := s.toServer ++ main.sent.drop s.main.sent.length, toManager := inbox }
  | .other a => a.apart.bind fun a => (s.toCluster.step numWorkers a).bind fun c =>
    (Reporting.sendAll text1b (c.toManager.drop s.toCluster.toManager.length) s.currentManagerMaxCmdLength
      s.toManager).map (s.withOthers c)

variable {text1b : String → Nat} {numWorkers : Comm → UInt32} {s s' : Scripted} {lines : List Text}

/-- A step of the manager. -/
theorem step_manager {seen : Bool} (h : s.step text1b numWorkers (.manager seen) = some s') :
    ∃ inbox, s.main.step text1b seen s.toServer s.toManager = some (s'.main, inbox) ∧
      s' = { s with
        main := s'.main
        toServer := s.toServer ++ s'.main.sent.drop s.main.sent.length
        toManager := inbox } := by
  obtain ⟨⟨main, inbox⟩, hm, rfl⟩ := Option.map_eq_some_iff.1 h
  exact ⟨inbox, hm, rfl⟩

theorem ensureCmdLength_contents {α : Type} {limit limit' length : Nat} {ms ms' : List (Packet α)}
    (h : ensureCmdLength limit length ms = some (limit', ms')) : Packet.contents ms' = Packet.contents ms := by
  unfold ensureCmdLength at h
  split at h
  · split at h <;> cases h
    unfold sendReq
    split
    · rw [Packet.contents_append]
      exact List.append_nil _
    · rfl
  · cases h
    rfl

theorem sendToManager_contents {msg : S2M} {limit limit' : Nat} {ms ms' : List (Packet S2M)}
    (h : Reporting.sendToManager text1b limit ms msg = some (limit', ms')) :
    Packet.contents ms' = Packet.contents ms ++ [msg] := by
  unfold Reporting.sendToManager at h
  split at h
  · cases h
    rw [Packet.contents_append]
    rfl
  · unfold sendCmd at h
    split at h <;> cases h
    rename_i hlength
    rw [Packet.contents_append, ensureCmdLength_contents hlength]
    rfl

/-- What is sent arrives, with or without requests. -/
theorem sendAll_contents : ∀ {msgs : List S2M} {limit limit' : Nat} {ms ms' : List (Packet S2M)},
    Reporting.sendAll text1b msgs limit ms = some (limit', ms') → Packet.contents ms' = Packet.contents ms ++ msgs
  | [], _, _, _, _, h => by
    cases h
    exact (List.append_nil _).symm
  | msg :: rest, limit, limit', ms, ms', h => by
    unfold Reporting.sendAll at h
    split at h
    · cases h
    · rename_i hone
      rw [sendAll_contents h, sendToManager_contents hone, List.append_assoc]
      rfl

/-- A step of another process. -/
structure Others (text1b : String → Nat) (numWorkers : Comm → UInt32) (s : Scripted) (a : Action) (s' : Scripted)
    (received : List M2S) (reports : List S2M) : Prop where
  main : s'.main = s.main
  step : s.toCluster.step numWorkers a = some s'.toCluster
  apart : s.toCluster.Apart s'.toCluster received reports
  sends : Reporting.sendAll text1b reports s.currentManagerMaxCmdLength s.toManager =
    some (s'.currentManagerMaxCmdLength, s'.toManager)

theorem step_other {a : Action} (h : s.step text1b numWorkers (.other a) = some s') :
    a.apart = some a ∧ ∃ received reports, s.Others text1b numWorkers a s' received reports := by
  obtain ⟨b, hb, hs⟩ := Option.bind_eq_some_iff.1 h
  obtain rfl : a = b := by cases a <;> cases hb <;> rfl
  obtain ⟨c, hc, hs⟩ := Option.bind_eq_some_iff.1 hs
  obtain ⟨⟨limit, ms⟩, hsend, rfl⟩ := Option.map_eq_some_iff.1 hs
  obtain ⟨received, reports, hapart⟩ := Cluster.step_apart hb hc
  rw [hapart.toManager, List.drop_left] at hsend
  have hsame : (s.withOthers c (limit, ms)).toCluster = c := by
    have hm := hapart.manager
    have hto := (sendAll_contents hsend).trans hapart.toManager.symm
    cases c
    cases hm
    cases hto
    rfl
  refine ⟨hb, received, reports, rfl, ?_, ?_, hsend⟩
  · rw [hc, hsame]
  · rw [hsame]
    exact hapart

/-! ## Short reports -/

/-- The server has sent the manager no command that has to be announced. -/
def Terse (text1b : String → Nat) (s : Scripted) : Prop :=
  ∀ msg ∈ s.server.server.toManager, msg.bytes text1b ≤ defaultMaxCmdLength

/-- Nothing was announced. -/
structure Quiet (s : Scripted) : Prop where
  limit : s.currentManagerMaxCmdLength = defaultMaxCmdLength
  toManager : ∀ p ∈ s.toManager, Unannounced p

theorem step_log {m : Move} (h : s.step text1b numWorkers m = some s') :
    s.server.server.toManager <+: s'.server.server.toManager := by
  cases m with
  | manager seen =>
    obtain ⟨inbox, -, hframe⟩ := step_manager h
    rw [hframe]
  | other a =>
    obtain ⟨-, received, reports, hothers⟩ := step_other h
    exact hothers.apart.log

theorem Terse.of_step {m : Move} (h : s'.Terse text1b) (hs : s.step text1b numWorkers m = some s') : s.Terse text1b :=
  fun msg hmsg => h msg ((step_log hs).subset hmsg)

theorem Quiet.step {m : Move} (h : s.Quiet) (hs : s.step text1b numWorkers m = some s') (ht : s'.Terse text1b) :
    s'.Quiet := by
  cases m with
  | manager seen =>
    obtain ⟨inbox, hm, hframe⟩ := step_manager hs
    constructor
    · rw [hframe]
      exact h.limit
    · rw [hframe]
      exact fun p hp => h.toManager p ((ManagerMain.step_receives hm).subset hp)
  | other a =>
    obtain ⟨-, received, reports, hothers⟩ := step_other hs
    have hsend := hothers.sends
    rw [h.limit] at hsend
    obtain ⟨new, hnew, hsends⟩ := Reporting.sendAll_sends le_rfl hsend
    have hlimit : s'.currentManagerMaxCmdLength = defaultMaxCmdLength := by
      refine (hsends.le.eq_or_lt.resolve_right fun hlt => ?_).symm
      obtain ⟨⟨msg, hmsg, hlong⟩, -⟩ := hsends.beyond hlt
      rcases hothers.apart.reported msg hmsg with rfl | hlogged
      · exact absurd hlong (Nat.not_lt_zero _)
      · exact absurd (ht msg hlogged) (not_le.2 hlong)
    refine ⟨hlimit, fun p hp => ?_⟩
    rw [hnew] at hp
    rcases List.mem_append.1 hp with hp | hp
    · exact h.toManager p hp
    · obtain ⟨n, msg, rfl, hn⟩ := hsends.within hlimit p hp
      exact hn

/-! ## Runs -/

/-- The runs of the system in which the manager reads this script. -/
abbrev ScriptedRun (text1b : String → Nat) (numWorkers : Comm → UInt32) (serverName script : Text) (seekable : Bool)
    (ms : List Move) (s : Scripted) : Prop :=
  Traced (step text1b numWorkers) (fun _ _ _ => True) [] (.start serverName script seekable) ms s

/-- As long as nothing is announced, the manager takes a run of its program in which nothing is. -/
theorem ScriptedRun.main {serverName script : Text} {seekable : Bool} {ms : List Move}
    (h : ScriptedRun text1b numWorkers serverName script seekable ms s) : s.Terse text1b →
      s.Quiet ∧ ∃ polls, ManagerMain.ScriptRun text1b serverName script seekable polls s.main := by
  refine h.invariant (P := fun _ s => s.Terse text1b →
    s.Quiet ∧ ∃ polls, ManagerMain.ScriptRun text1b serverName script seekable polls s.main)
    (fun _ => ⟨⟨rfl, nofun⟩, [], .start⟩) ?_
  intro _ s m s' _ ih _ hstep hterse
  obtain ⟨hquiet, polls, hpolls⟩ := ih (hterse.of_step hstep)
  refine ⟨hquiet.step hstep hterse, ?_⟩
  cases m with
  | manager seen =>
    obtain ⟨inbox, hm, -⟩ := step_manager hstep
    have hshort : Poll.Short ⟨seen, s.toServer, s.toManager⟩ := hquiet.toManager
    refine ⟨_, hpolls.snoc hshort ?_⟩
    unfold ManagerMain.poll
    rw [hm]
    rfl
  | other a =>
    obtain ⟨-, received, reports, hothers⟩ := step_other hstep
    rw [hothers.main]
    exact ⟨polls, hpolls⟩

theorem ScriptedRun.orderly {serverName script : Text} {seekable : Bool} {ms : List Move}
    (h : ScriptedRun text1b numWorkers serverName script seekable ms s) (ht : s.Terse text1b) :
    s.main.Orderly text1b (scriptLines script seekable) := by
  obtain ⟨-, polls, hpolls⟩ := h.main ht
  exact ManagerMain.orderly_of_runs hpolls

/-- A run in which nothing is announced takes all its steps in states in which the manager follows its script and
nothing was announced. -/
theorem ScriptedRun.quiet {serverName script : Text} {seekable : Bool} {ms : List Move}
    (h : ScriptedRun text1b numWorkers serverName script seekable ms s) (ht : s.Terse text1b) :
    Traced (step text1b numWorkers) (fun _ s _ => s.main.Orderly text1b (scriptLines script seekable) ∧ s.Quiet) []
      (.start serverName script seekable) ms s := by
  induction h with
  | start => exact .start
  | snoc hrun _ hstep ih =>
    have hterse := ht.of_step hstep
    have hquiet := (ScriptedRun.main hrun hterse).1
    exact (ih hterse).snoc ⟨ScriptedRun.orderly hrun hterse, hquiet⟩ hstep

/-- Every step is one of the system of `Cluster`, or none. -/
theorem step_refines {m : Move} (ho : s.main.Orderly text1b lines) (hq : s.Quiet)
    (h : s.step text1b numWorkers m = some s') : (s'.toCluster = s.toCluster ∧ m.apart = none) ∨
      ∃ a, s.toCluster.step numWorkers a = some s'.toCluster ∧ a.apart = m.apart := by
  cases m with
  | manager seen =>
    obtain ⟨inbox, hm, hframe⟩ := step_manager h
    obtain ⟨sent, hsent, hsteps⟩ := ManagerMain.step_refines ho hq.toManager hm
    rw [hsent, List.drop_left] at hframe
    rcases hsteps with ⟨hsame, rfl, rfl⟩ | ⟨line, hline⟩
    · refine .inl ⟨?_, rfl⟩
      rw [hframe]
      unfold toCluster
      simp only [hsame, List.append_nil]
    · refine .inr ⟨.manager line seen, ?_, rfl⟩
      show (s.main.toManager.step line seen s.toServer (Packet.contents s.toManager)).map _ = _
      rw [hline, hframe]
      rfl
  | other a =>
    obtain ⟨-, received, reports, hothers⟩ := step_other h
    exact .inr ⟨a, hothers.step, rfl⟩

/-- What the server has received of the manager, and made of it. -/
structure Relayed (s : Scripted) (received : List M2S) : Prop where
  sent : s.main.sent = received ++ s.toServer
  files : s.server.server.files = received.flatMap M2S.files
  accepted : s.server.server.accepted = (received.map M2S.numWorkers).sum

theorem Relayed.step {m : Move} {received : List M2S} (h : s.Relayed received) (ho : s.main.Orderly text1b lines)
    (hq : s.Quiet) (hs : s.step text1b numWorkers m = some s') : ∃ new, s'.Relayed (received ++ new) := by
  cases m with
  | manager seen =>
    obtain ⟨inbox, hm, hframe⟩ := step_manager hs
    obtain ⟨sent, hsent, -⟩ := ManagerMain.step_refines ho hq.toManager hm
    have hto : s'.toServer = s.toServer ++ sent := by
      rw [hframe]
      simp only
      rw [hsent, List.drop_left]
    have hserver : s'.server = s.server := by rw [hframe]
    refine ⟨[], ?_, ?_, ?_⟩
    · rw [List.append_nil, hsent, hto, h.sent, List.append_assoc]
    · rw [List.append_nil, hserver]
      exact h.files
    · rw [List.append_nil, hserver]
      exact h.accepted
  | other a =>
    obtain ⟨-, new, reports, hothers⟩ := step_other hs
    have hto : s.toServer = new ++ s'.toServer := hothers.apart.toServer
    refine ⟨new, ?_, ?_, ?_⟩
    · rw [hothers.main, h.sent, hto, List.append_assoc]
    · have hfiles : s'.server.server.files = s.server.server.files ++ new.flatMap M2S.files := hothers.apart.files
      rw [hfiles, List.flatMap_append, ← h.files]
    · have haccepted : s'.server.server.accepted = s.server.server.accepted + (new.map M2S.numWorkers).sum :=
        hothers.apart.accepted
      rw [haccepted, List.map_append, List.sum_append, ← h.accepted]

theorem ScriptedRun.relayed {serverName script : Text} {seekable : Bool} {ms : List Move}
    (h : ScriptedRun text1b numWorkers serverName script seekable ms s) (ht : s.Terse text1b) :
    ∃ received, s.Relayed received := by
  refine (h.quiet ht).invariant (P := fun _ s => ∃ received, s.Relayed received) ⟨[], rfl, rfl, rfl⟩ ?_
  rintro _ s m s' - ⟨received, hrec⟩ ⟨horderly, hquiet⟩ hstep
  obtain ⟨new, hnew⟩ := hrec.step horderly hquiet hstep
  exact ⟨_, hnew⟩

theorem ScriptedRun.refines {serverName script : Text} {seekable : Bool} {ms : List Move}
    (h : ScriptedRun text1b numWorkers serverName script seekable ms s) (ht : s.Terse text1b) :
    ∃ as, Traced (Cluster.step numWorkers) (fun _ _ _ => True) [] {} as s.toCluster ∧
      as.filterMap Action.apart = ms.filterMap Move.apart := by
  have hstart : (start serverName script seekable).toCluster = {} := rfl
  rw [← hstart]
  refine Traced.refines (h.quiet ht) ?_
  rintro _ s m s' - ⟨horderly, hquiet⟩ hstep
  exact step_refines horderly hquiet hstep

/-- Every run of the system with the program of the manager in which the server has sent it no command that has to be
announced is one of the system in which the manager reads commands, with the same steps of the server and of the
workers. -/
theorem scripted_refines (text1b : String → Nat) (numWorkers : Comm → UInt32) (serverName script : Text)
    (seekable : Bool) {ms : List Move} (h : ScriptedRun text1b numWorkers serverName script seekable ms s)
    (hshort : ∀ msg ∈ s.server.server.toManager, msg.bytes text1b ≤ defaultMaxCmdLength) :
    ∃ as, Traced (Cluster.step numWorkers) (fun _ _ _ => True) [] {} as s.toCluster ∧
      as.filterMap Action.apart = ms.filterMap Move.apart :=
  h.refines hshort

/-- The server takes the files and a worker, and tells of a solution it has found. -/
def waitingScript : List Command :=
  [.addFile ⟨1, 5, "a.cnf"⟩, .addWorkers 1, .addFile ⟨2, 7, "b.cnf"⟩, .waitForServer]

def waitingActions : List Action :=
  [.workerMain 0 true 0, .workerMain 0 false 0, .workerMain 0 false 0, .workerMain 0 true 1,
    .serverPollsWorkers (some 0), .serverPollsManager false, .workerMain 0 true 0, .workerMain 0 true 0,
    .workerMain 0 true 0] ++
    Cluster.oneTask { solved := true } ++ [.serverPollsWorkers (some 0), .serverPollsManager false]

def waitingMoves : List Move :=
  let takes : List Move := [.other (.serverPollsWorkers none), .other (.serverPollsManager true)]
  List.replicate 5 (.manager false) ++ takes ++ takes ++ List.replicate 4 (.manager false) ++ takes ++
    List.replicate 3 (.manager false) ++ waitingActions.map .other ++ [.manager false]

theorem exists_waitingMoves : ∃ s,
    ScriptedRun Reporting.compactText (fun _ => 1) [] (scriptOf waitingScript) true waitingMoves s ∧
    s.server.server.files = [⟨1, 5, "a.cnf"⟩, ⟨2, 7, "b.cnf"⟩] ∧
    s.server.server.toManager = [.foundSolution { filename := "b.cnf" }] ∧ s.main.solutionFound = true := by
  have hrun : (replay (step Reporting.compactText fun _ => 1) (fun _ _ _ => True) []
    (.start [] (scriptOf waitingScript) true)
      waitingMoves).map (fun s => (s.server.server.files, s.server.server.toManager, s.main.solutionFound)) =
        some ([⟨1, 5, "a.cnf"⟩, ⟨2, 7, "b.cnf"⟩], [.foundSolution { filename := "b.cnf" }], true) := by
    decide +kernel
  obtain ⟨s, hs, he⟩ := Option.map_eq_some_iff.1 hrun
  simp only [Prod.mk.injEq] at he
  exact ⟨s, .of_replay hs, he⟩

theorem scripted_refines_waitingMoves : ∃ s,
    ScriptedRun Reporting.compactText (fun _ => 1) [] (scriptOf waitingScript) true waitingMoves s ∧
    ∃ as, Traced (Cluster.step fun _ => 1) (fun _ _ _ => True) [] {} as s.toCluster ∧
      as.filterMap Action.apart = waitingMoves.filterMap Move.apart := by
  obtain ⟨s, hs, -, hlog, -⟩ := exists_waitingMoves
  refine ⟨s, hs, scripted_refines Reporting.compactText (fun _ => 1) [] (scriptOf waitingScript) true hs ?_⟩
  rw [hlog]
  intro msg hmsg
  rw [List.mem_singleton.1 hmsg]
  decide +kernel

/-! ## Scripts with short names -/

end Scripted

/-- The name of the file leaves what is reported about it short. -/
def Command.Brief (text1b : String → Nat) : Command → Prop
  | .addFile data => data.bytes text1b + ({} : ProblemInstanceStatistics).bytes ≤ defaultMaxCmdLength
  | .addWorkers _ | .waitForServer | .exit | .other => True

instance (text1b : String → Nat) : ∀ cmd : Command, Decidable (cmd.Brief text1b)
  | .addFile _ => Nat.decLe _ _
  | .addWorkers _ | .waitForServer | .exit | .other => .isTrue trivial

theorem Command.Brief.not_tooLong {text1b : String → Nat} {cmd : Command} (h : cmd.Brief text1b) :
    ¬ cmd.TooLong text1b := by
  cases cmd with
  | addFile data =>
    have hshort : data.bytes text1b + _ ≤ 1024 := h
    show ¬ 65536 < data.bytes text1b
    omega
  | addWorkers _ | waitForServer | exit | other => exact id

namespace Cluster

variable {text1b : String → Nat} {numWorkers : Comm → UInt32} {c c' : Cluster} {as : List Action}

/-- The statistics are those of files that were added. -/
def Counted (c : Cluster) : Prop := ∀ metadata statistics,
  .sendStatistics metadata statistics ∈ c.server.server.toManager → metadata ∈ c.server.server.files

theorem Counted.handles (h : c.Counted) {e : Event} (hh : c.server.server.Handles e c'.server.server) : c'.Counted := by
  intro metadata statistics hmem
  obtain ⟨new, hlog, hnew⟩ := hh.reports
  rw [hlog] at hmem
  rcases List.mem_append.1 hmem with hmem | hmem
  · exact hh.files_extend.subset (h metadata statistics hmem)
  · rcases hnew _ hmem with ⟨_, _, -, he⟩ | ⟨t, ht, he⟩
    · cases he
    · cases he
      exact List.mem_map_of_mem ht

theorem Counted.step {a : Action} (h : c.Counted) (hs : c.step numWorkers a = some c') : c'.Counted := by
  have hsame : c'.server = c.server → c'.Counted := by
    intro he
    unfold Counted
    rw [he]
    exact h
  cases step_advances hs with
  | quiet hserver => exact hsame hserver
  | serves hserver _ _ he =>
    have hh := (serve_some he).1
    rw [hserver] at hh
    exact h.handles hh
  | receives _ _ _ he => exact h.handles (serve_some he).1
  | mains hw => exact hsame hw.server
  | threads hw => exact hsame hw.server

/-- What the server sends the manager is about a file that was added, and at most as long as its statistics. -/
theorem message_bytes (h : Traced (Cluster.step numWorkers) (fun _ _ _ => True) [] {} as c) {msg : S2M}
    (hmsg : msg ∈ c.server.server.toManager) : msg = .disconnect ∨ ∃ data ∈ c.server.server.files,
      msg.bytes text1b ≤ data.bytes text1b + ({} : ProblemInstanceStatistics).bytes := by
  obtain ⟨hcounted, hattributed⟩ : c.Counted ∧ c.Attributed fun _ _ => True := by
    refine h.invariant (P := fun _ c => c.Counted ∧ c.Attributed fun _ _ => True)
      ⟨nofun, .start _⟩ ?_
    rintro _ c a c' _ ⟨hcounted, hattributed⟩ _ hstep
    exact ⟨hcounted.step hstep, hattributed.step (fun _ _ _ _ _ _ _ _ => trivial) hstep⟩
  cases msg with
  | disconnect => exact .inl rfl
  | sendStatistics metadata statistics => exact .inr ⟨metadata, hcounted _ _ hmsg, le_rfl⟩
  | foundSolution info =>
    right
    obtain ⟨t, ⟨pim, taskId, measured, hassigned, -, rfl⟩, -, rfl⟩ := hattributed.log info hmsg
    refine ⟨pim, List.mem_of_getElem? hassigned, ?_⟩
    show 5 * 8 + text1b pim.filename ≤ 4 + 4 + text1b pim.filename + 10 * 8
    omega

end Cluster

namespace Scripted

variable {text1b : String → Nat} {numWorkers : Comm → UInt32} {s s' : Scripted} {lines : List Text}

/-- What has become of the commands of a script: the manager has executed `done` and `last`, the server has received
`received`. -/
structure Served (cmds done last : List Command) (received : List M2S) (s : Scripted) : Prop where
  executed : s.main.executed.map commandOf = done ++ last
  order : done <+: cmds
  /-- A command of the server makes the manager execute one more, which stops it. -/
  ending : last = [] ∨ last = [.waitForServer] ∨ last = [.exit]
  /-- The files of the server and the workers it has accepted. -/
  files : s.server.server.files = received.flatMap M2S.files
  accepted : s.server.server.accepted = (received.map M2S.numWorkers).sum
  sends : s.main.solutionFound = false →
    received ++ (s.toServer ++ s.toCluster.manager.point.owed) = (done ++ last).flatMap Command.messages
  sublist : (received ++ (s.toServer ++ s.toCluster.manager.point.owed)).Sublist
    ((done ++ last).flatMap Command.messages)
  /-- The server has no file and no worker that the script does not name. -/
  within : s.server.server.files.Sublist (cmds.flatMap Command.files)
  atMost : s.server.server.accepted ≤ (cmds.map Command.numWorkers).sum

/-- The script of a command with a short name is served as far as the manager has carried it out. -/
theorem Relayed.served {cmds : List Command} (hw : ∀ cmd ∈ cmds, cmd.Writable) (hb : ∀ cmd ∈ cmds, cmd.Brief text1b)
    {serverName : Text} {seekable : Bool} {polls : List Poll} {received : List M2S} (hrec : s.Relayed received)
    (h : ManagerMain.ScriptRun text1b serverName (scriptOf cmds) seekable polls s.main) :
    ∃ done last, s.Served (scriptCommands cmds seekable) done last received := by
  obtain ⟨done, last, hout⟩ := ManagerMain.carriedOut_of_runs cmds hw serverName seekable h
  have hup : s.main.point ≠ .aborted := by
    intro hp
    obtain ⟨cmd, hcmd, hlong⟩ := hout.aborted hp
    have hmem := mem_of_mem_scriptCommands (hout.order.subset hcmd)
    exact (hb cmd hmem).not_tooLong hlong
  have hsublist : (received ++ (s.toServer ++ s.toCluster.manager.point.owed)).Sublist
      ((done ++ last).flatMap Command.messages) := by
    rw [← List.append_assoc, ← hrec.sent]
    exact hout.sublist
  have hreceived := (List.sublist_append_left received _).trans hsublist
  have hlast : last.flatMap Command.files = [] ∧ (last.map Command.numWorkers).sum = 0 := by
    rcases hout.ending with rfl | rfl | rfl <;> exact ⟨rfl, rfl⟩
  obtain ⟨later, hlater⟩ := hout.order
  refine ⟨done, last, ?_⟩
  constructor
  · exact hout.executed
  · exact hout.order
  · exact hout.ending
  · exact hrec.files
  · exact hrec.accepted
  · intro hno
    rw [← List.append_assoc, ← hrec.sent]
    exact hout.sends hno hup
  · exact hsublist
  · have hfiles := hreceived.flatMap M2S.files
    rw [files_messages, List.flatMap_append, hlast.1, List.append_nil] at hfiles
    rw [hrec.files, ← hlater, List.flatMap_append]
    exact hfiles.trans (List.sublist_append_left _ _)
  · have hworkers := (hreceived.map M2S.numWorkers).sum_le_sum fun _ _ => Nat.zero_le _
    rw [numWorkers_messages, List.map_append, List.sum_append, hlast.2, Nat.add_zero] at hworkers
    rw [hrec.accepted, ← hlater, List.map_append, List.sum_append]
    omega

theorem scriptCommands_files {cmds : List Command} {seekable : Bool} {data : ProblemInstanceMetadata}
    (h : data ∈ (scriptCommands cmds seekable).flatMap Command.files) : .addFile data ∈ cmds := by
  obtain ⟨cmd, hcmd, hdata⟩ := List.mem_flatMap.1 h
  have hmem := mem_of_mem_scriptCommands hcmd
  cases cmd with
  | addFile data' =>
    obtain rfl := List.mem_singleton.1 hdata
    exact hmem
  | addWorkers _ | waitForServer | exit | other => cases hdata

/-- In a run on a script with short names nothing has to be announced. -/
theorem ScriptedRun.brief {cmds : List Command} (hw : ∀ cmd ∈ cmds, cmd.Writable) (hb : ∀ cmd ∈ cmds, cmd.Brief text1b)
    {serverName : Text} {seekable : Bool} {ms : List Move}
    (h : ScriptedRun text1b numWorkers serverName (scriptOf cmds) seekable ms s) : s.Terse text1b := by
  refine h.invariant (P := fun _ s => s.Terse text1b) (fun msg hmsg => nomatch hmsg) ?_
  intro _ s m s' hrun hterse _ hstep
  cases m with
  | manager seen =>
    obtain ⟨inbox, -, hframe⟩ := step_manager hstep
    rw [hframe]
    exact hterse
  | other a =>
    obtain ⟨-, new, reports, hothers⟩ := step_other hstep
    obtain ⟨hquiet, polls, hpolls⟩ := ScriptedRun.main hrun hterse
    obtain ⟨received, hrec⟩ := ScriptedRun.relayed hrun hterse
    obtain ⟨_, hrec'⟩ := hrec.step (ScriptedRun.orderly hrun hterse) hquiet hstep
    rw [← hothers.main] at hpolls
    obtain ⟨done, last, hserved⟩ := hrec'.served hw hb hpolls
    obtain ⟨as, has, -⟩ := ScriptedRun.refines hrun hterse
    intro msg hmsg
    rcases Cluster.message_bytes (has.snoc trivial hothers.step) hmsg with rfl | ⟨data, hdata, hle⟩
    · exact Nat.zero_le _
    · exact hle.trans (hb _ (scriptCommands_files (hserved.within.subset hdata)))

/-- What the server has of a script with short names are the files and the workers its commands name, in their order and
each as often as the script is read. Nothing is lost, added or changed on the way, as long as the manager knows of no
solution. -/
theorem script_served (text1b : String → Nat) (numWorkers : Comm → UInt32) (cmds : List Command)
    (hw : ∀ cmd ∈ cmds, cmd.Writable) (hb : ∀ cmd ∈ cmds, cmd.Brief text1b) (serverName : Text) (seekable : Bool)
    {ms : List Move} (h : ScriptedRun text1b numWorkers serverName (scriptOf cmds) seekable ms s) :
    ∃ done last received, s.Served (scriptCommands cmds seekable) done last received := by
  have hterse := h.brief hw hb
  obtain ⟨-, polls, hpolls⟩ := h.main hterse
  obtain ⟨received, hrec⟩ := h.relayed hterse
  obtain ⟨done, last, hserved⟩ := hrec.served hw hb hpolls
  exact ⟨done, last, received, hserved⟩

theorem script_served_waitingMoves : ∃ s,
    ScriptedRun Reporting.compactText (fun _ => 1) [] (scriptOf waitingScript) true waitingMoves s ∧
    s.server.server.files = [⟨1, 5, "a.cnf"⟩, ⟨2, 7, "b.cnf"⟩] ∧
    ∃ done last received, s.Served (scriptCommands waitingScript true) done last received := by
  obtain ⟨s, hs, hfiles, -⟩ := exists_waitingMoves
  exact ⟨s, hs, hfiles, script_served Reporting.compactText (fun _ => 1) waitingScript (by decide +kernel)
    (by decide +kernel) [] true hs⟩

end Scripted

end ParallelProbsat.Communication
