/-
What the server sends to the manager (`manager_server.hpp`, `s2m_*.hpp`) and how the manager dispatches it
(`process_server_cmd`): the server's loop, the channel between them and the manager's receive buffer.

A report longer than `default_max_cmd_length` is announced with REQ_MAX_CMD_LENGTH, for which the manager has no case.
So all that the server sends is handled exactly as long as no report and no solution is longer than that.
-/
import ParallelProbsat.Communication.Buffers
import ParallelProbsat.Communication.Cluster

namespace ParallelProbsat.Communication

open ParallelProbsat.Lib ParallelProbsat.Util

/-! ## The length of a message -/

section Length

-- the bytes that `text1b` writes for a string: its length and its characters
variable (text1b : String → Nat)

def ProblemInstanceMetadata.bytes (o : ProblemInstanceMetadata) : Nat := 4 + 4 + text1b o.filename

def ProblemInstanceStatistics.bytes (_ : ProblemInstanceStatistics) : Nat := 10 * 8

def SolutionInfo.bytes (o : SolutionInfo) : Nat := 5 * 8 + text1b o.filename

def S2M.bytes : S2M → Nat
  | .foundSolution info => info.bytes text1b
  | .sendStatistics metadata statistics => metadata.bytes text1b + statistics.bytes
  | .disconnect => 0

end Length

/-! ## The server, the channel and the manager -/

/-- `process_server_cmd`. -/
def Manager.processPacket (m : Manager) : Packet S2M → Except Exn Manager
  | .request _ => .error (.runtimeError "unknown command (S2M:: 1)")
  | .data _ msg => .ok (m.processServerCmd msg)

structure Reporting where
  server : EventLoop := {}
  /-- The server has left its loop and sent DISCONNECT. -/
  left : Bool := false
  currentManagerMaxCmdLength : Nat := defaultMaxCmdLength
  /-- Sent to the manager and not yet received, oldest first. -/
  inFlight : List (Packet S2M) := []
  manager : Manager := {}
  /-- The capacity of the manager's `command_buffer`. -/
  commandBuffer : Nat := defaultMaxCmdLength
  /-- What `process_server_cmd` has thrown. -/
  thrown : List Exn := []
  /-- A packet was longer than the buffer it was received in. -/
  truncated : Bool := false

namespace Reporting

/-- `send` of a command to the manager; DISCONNECT is not serialized. -/
def sendToManager (text1b : String → Nat) (limit : Nat) (inFlight : List (Packet S2M)) :
    S2M → Option (Nat × List (Packet S2M))
  | .disconnect => some (limit, inFlight ++ [.data 0 .disconnect])
  | msg => sendCmd limit (msg.bytes text1b) msg inFlight

/-- Several commands, one after the other; `none` if an assertion fails. -/
def sendAll (text1b : String → Nat) : List S2M → Nat → List (Packet S2M) → Option (Nat × List (Packet S2M))
  | [], limit, inFlight => some (limit, inFlight)
  | msg :: rest, limit, inFlight =>
    match sendToManager text1b limit inFlight msg with
    | none => none
    | some (limit, inFlight) => sendAll text1b rest limit inFlight

inductive Event
  /-- The server polls, handles what it finds and sends what follows. -/
  | serves (e : Communication.Event)
  /-- It leaves the loop, at its end or by an exception. -/
  | leaves
  | managerReceives
  /-- The manager serializes a command in its `command_buffer`. -/
  | managerSerializes (capacity : Nat)

def step (text1b : String → Nat) (s : Reporting) : Event → Option Reporting
  | .serves e =>
    if s.left then none
    else match s.server.step e with
      | none => none
      | some l =>
        (sendAll text1b (l.server.toManager.drop s.server.server.toManager.length) s.currentManagerMaxCmdLength
          s.inFlight).map
          fun r => { s with server := l, currentManagerMaxCmdLength := r.1, inFlight := r.2 }
  | .leaves => if s.left then none else some { s with left := true, inFlight := s.inFlight ++ [.data 0 .disconnect] }
  | .managerReceives =>
    match s.inFlight with
    | [] => none
    | p :: rest =>
      let truncated := s.truncated || decide (s.commandBuffer < p.size reqBytes)
      match s.manager.processPacket p with
      | .error e => some { s with inFlight := rest, thrown := s.thrown ++ [e], truncated := truncated }
      | .ok m => some { s with inFlight := rest, manager := m, truncated := truncated }
  | .managerSerializes capacity =>
    if s.commandBuffer ≤ capacity then some { s with commandBuffer := capacity } else none

/-- Everything sent to the manager was received whole and handled, or fits and has a case. -/
structure Handled (s : Reporting) : Prop where
  thrown : s.thrown = []
  truncated : s.truncated = false
  inFlight : ∀ p ∈ s.inFlight, (∃ m, s.manager.processPacket p = .ok m) ∧ p.size reqBytes ≤ s.commandBuffer

/-- The file or the solution that comes with the event makes messages of at most `default_max_cmd_length` bytes. -/
def Short (text1b : String → Nat) : Event → Prop
  | .serves (.pollManager (some (.addFile data))) =>
    data.bytes text1b + ({} : ProblemInstanceStatistics).bytes ≤ defaultMaxCmdLength
  | .serves (.pollWorkers (some (_, .foundSolution info))) => info.bytes text1b ≤ defaultMaxCmdLength
  | _ => True

end Reporting

/-! ## What the handlers report -/

namespace Server

variable {s s' : Server} {e : Event}

/-- What holds of the files added so far and of the one just added holds of the files afterwards. -/
theorem modifyTask_files {P : ProblemInstanceMetadata → Prop} (hs : ∀ t ∈ s.availableTasks, P t.metadata)
    (taskId : UInt32) {f : TaskInfo → TaskInfo} (hf : ∀ t, P t.metadata → P (f t).metadata) :
    ∀ t ∈ (s.modifyTask taskId f).availableTasks, P t.metadata := by
  intro t ht
  obtain ⟨p, hp⟩ := List.getElem?_of_mem ht
  obtain ⟨t', ht', ⟨-, rfl⟩ | ⟨-, rfl⟩⟩ := getElem?_modify_some hp
  · exact hf t' (hs t' (List.mem_of_getElem? ht'))
  · exact hs t (List.mem_of_getElem? ht')

/-- A booked report leaves the files as they are. -/
theorem booked_files {P : ProblemInstanceMetadata → Prop} (hs : ∀ t ∈ s.availableTasks, P t.metadata)
    {msg : DoneProcessingInfo} {t : TaskInfo} (ht : P t.metadata) :
    ∀ t' ∈ ((s.booked msg t).reschedule msg.taskId t).availableTasks, P t'.metadata := by
  have hbooked : ∀ t' ∈ (s.booked msg t).availableTasks, P t'.metadata := modifyTask_files hs _ fun _ _ => ht
  unfold reschedule
  simp only
  split
  · exact modifyTask_files hbooked _ fun _ h => h
  · exact hbooked

theorem Handles.files {P : ProblemInstanceMetadata → Prop} (h : s.Handles e s')
    (hs : ∀ t ∈ s.availableTasks, P t.metadata)
    (he : ∀ data, e = .pollManager (some (.addFile data)) → P data) : ∀ t ∈ s'.availableTasks, P t.metadata := by
  cases h with
  | noWorker | noManager => exact hs
  | addFile data =>
    rw [processM2sAddFile_eq]
    intro t ht
    rcases List.mem_append.1 ht with ht | ht
    · exact hs t ht
    · rw [List.mem_singleton.1 ht]
      exact he data rfl
  | addWorkers hs' =>
    obtain ⟨workers, -, rfl⟩ := processM2sAddWorkers_ok hs'
    exact hs
  | terminate hs' => rw [sendTerminationToWorkers_frame hs']; exact hs
  | foundSolution _ hs' =>
    obtain ⟨s₁, h1, rfl⟩ := processW2sFoundSolution_ok hs'
    rw [sendTerminationToWorkers_frame h1]
    exact hs
  | doneProcessing _ hs' =>
    obtain ⟨t, statistics, ht, -, -, hf⟩ := processW2sDoneProcessing_ok hs'
    rw [finish_frame hf]
    exact booked_files hs (hs t (List.mem_of_getElem? ht))
  | getInstances _ hs' =>
    obtain ⟨s₁, reply, rfl, ⟨-, h1⟩ | ⟨-, rfl, -⟩⟩ := processW2sGetInstances_ok hs'
    · show ∀ t ∈ s₁.availableTasks, P t.metadata
      refine assignLoop_rule (P := fun s₁ _ => ∀ t ∈ s₁.availableTasks, P t.metadata) ?_ h1 hs
      intro s₂ _ requested taskId _ t s₃ _ _ hk _ _ ha
      obtain ⟨k, -, -, -, -, rfl⟩ := assignFront_ok ha
      exact modifyTask_files hk taskId fun _ h => h
    · exact hs
  | disconnect => rw [processW2sDisconnect_eq]; exact hs

/-- The messages to the manager that an event adds: the solution that came with it, or statistics of the files. -/
theorem Handles.reports (h : s.Handles e s') : ∃ new, s'.toManager = s.toManager ++ new ∧
    ∀ msg ∈ new, (∃ index info, e = .pollWorkers (some (index, .foundSolution info)) ∧ msg = .foundSolution info) ∨
      ∃ t ∈ s'.availableTasks, msg = .sendStatistics t.metadata t.statistics := by
  have hnone : s'.toManager = s.toManager → ∃ new, s'.toManager = s.toManager ++ new ∧
      ∀ msg ∈ new, (∃ index info, e = .pollWorkers (some (index, .foundSolution info)) ∧ msg = .foundSolution info) ∨
        ∃ t ∈ s'.availableTasks, msg = .sendStatistics t.metadata t.statistics := fun heq =>
    ⟨[], by rw [heq, List.append_nil], nofun⟩
  cases h with
  | noWorker | noManager => exact hnone rfl
  | addFile data => exact hnone (by rw [processM2sAddFile_eq]; rfl)
  | addWorkers hs' =>
    obtain ⟨workers, -, rfl⟩ := processM2sAddWorkers_ok hs'
    exact hnone rfl
  | terminate hs' => exact hnone (by rw [sendTerminationToWorkers_frame hs'])
  | @foundSolution index info _ _ hs' =>
    obtain ⟨s₁, h1, rfl⟩ := processW2sFoundSolution_ok hs'
    refine ⟨[.foundSolution info], by rw [sendTerminationToWorkers_frame h1]; rfl, fun msg hmsg => .inl ?_⟩
    exact ⟨index, info, rfl, List.mem_singleton.1 hmsg⟩
  | doneProcessing _ hs' =>
    obtain ⟨t, statistics, -, -, -, hf⟩ := processW2sDoneProcessing_ok hs'
    rcases finish_ok hf with ⟨-, hf⟩ | ⟨-, rfl⟩
    · rw [sendTerminationToWorkers_frame hf]
      unfold sendStatisticToManager
      split
      · exact ⟨[], by rw [List.append_nil, reschedule_frame]; rfl, nofun⟩
      · refine ⟨_, by rw [reschedule_frame]; rfl, fun msg hmsg => .inr ?_⟩
        obtain ⟨t', ht', rfl⟩ := List.mem_map.1 hmsg
        exact ⟨t', (List.mem_filter.1 ht').1, rfl⟩
    · exact hnone (by rw [reschedule_frame]; rfl)
  | getInstances _ hs' =>
    obtain ⟨s₁, reply, rfl, ⟨-, h1⟩ | ⟨-, rfl, -⟩⟩ := processW2sGetInstances_ok hs'
    · exact hnone (by rw [(assignLoop_frame h1).1]; rfl)
    · exact hnone rfl
  | disconnect => exact hnone (by rw [processW2sDisconnect_eq])

end Server

/-! ## Sending -/

namespace Reporting

variable {text1b : String → Nat} {s s' : Reporting}

theorem sendCmd_ok {α : Type} {limit limit' length : Nat} {content : α} {ms ms' : List (Packet α)}
    (hl : defaultMaxCmdLength ≤ limit) (h : sendCmd limit length content ms = some (limit', ms')) :
    (length ≤ limit ∧ limit' = limit ∧ ms' = ms ++ [.data length content]) ∨
      (limit < length ∧ limit' = length ∧ ms' = ms ++ [.request length, .data length content]) := by
  unfold sendCmd ensureCmdLength at h
  split at h
  · cases h
  · rename_i he
    split at he
    · rename_i hlt
      split at he <;> cases he
      cases h
      refine .inr ⟨hlt, rfl, ?_⟩
      unfold sendReq
      rw [if_pos (hl.trans_lt hlt), List.append_assoc]
      rfl
    · rename_i hle
      cases he
      cases h
      exact .inl ⟨not_lt.1 hle, rfl, rfl⟩

/-- What is sent for some messages: each within the limit, which stays, or with a request. -/
structure Sends (text1b : String → Nat) (msgs : List S2M) (limit limit' : Nat) (new : List (Packet S2M)) : Prop where
  le : limit ≤ limit'
  bound : ∀ msg ∈ msgs, msg.bytes text1b ≤ limit'
  within : limit' = limit → ∀ p ∈ new, ∃ n msg, p = .data n msg ∧ n ≤ limit
  beyond : limit < limit' → (∃ msg ∈ msgs, limit < msg.bytes text1b) ∧ ∃ n, .request n ∈ new

theorem sendToManager_sends {msg : S2M} {limit limit' : Nat} {ms ms' : List (Packet S2M)}
    (hl : defaultMaxCmdLength ≤ limit) (h : sendToManager text1b limit ms msg = some (limit', ms')) :
    ∃ new, ms' = ms ++ new ∧ Sends text1b [msg] limit limit' new := by
  unfold sendToManager at h
  split at h
  · cases h
    refine ⟨_, rfl, le_rfl, fun msg hm => ?_, fun _ p hp => ?_, fun hlt => absurd hlt (lt_irrefl _)⟩
    · rw [List.mem_singleton.1 hm]
      exact Nat.zero_le _
    · exact ⟨0, _, List.mem_singleton.1 hp, Nat.zero_le _⟩
  · rcases sendCmd_ok hl h with ⟨hle, rfl, rfl⟩ | ⟨hlt, rfl, rfl⟩
    · refine ⟨_, rfl, le_rfl, fun msg hm => ?_, fun _ p hp => ?_, fun hlt => absurd hlt (lt_irrefl _)⟩
      · rw [List.mem_singleton.1 hm]
        exact hle
      · exact ⟨_, _, List.mem_singleton.1 hp, hle⟩
    · refine ⟨_, rfl, hlt.le, fun msg hm => ?_, fun heq => absurd heq hlt.ne', fun _ => ⟨?_, ?_⟩⟩
      · rw [List.mem_singleton.1 hm]
      · exact ⟨_, List.mem_singleton_self _, hlt⟩
      · exact ⟨_, List.mem_cons_self⟩

theorem sendAll_sends : ∀ {msgs : List S2M} {limit limit' : Nat} {ms ms' : List (Packet S2M)},
    defaultMaxCmdLength ≤ limit → sendAll text1b msgs limit ms = some (limit', ms') →
      ∃ new, ms' = ms ++ new ∧ Sends text1b msgs limit limit' new
  | [], _, _, _, _, _, h => by
    cases h
    exact ⟨[], (List.append_nil _).symm, le_rfl, nofun, fun _ => nofun, fun hlt => absurd hlt (lt_irrefl _)⟩
  | msg :: rest, limit, limit', ms, ms', hl, h => by
    unfold sendAll at h
    split at h
    · cases h
    rename_i limit₁ ms₁ h₁
    obtain ⟨new₁, rfl, hs₁⟩ := sendToManager_sends hl h₁
    obtain ⟨new₂, rfl, hs₂⟩ := sendAll_sends (hl.trans hs₁.le) h
    refine ⟨new₁ ++ new₂, List.append_assoc _ _ _, hs₁.le.trans hs₂.le, fun m hm => ?_, fun heq p hp => ?_,
      fun hlt => ?_⟩
    · rcases List.mem_cons.1 hm with rfl | hm
      · exact (hs₁.bound m (List.mem_singleton_self m)).trans hs₂.le
      · exact hs₂.bound m hm
    · -- the limit has not moved in between
      have h1 : limit₁ = limit := le_antisymm (hs₂.le.trans heq.le) hs₁.le
      rcases List.mem_append.1 hp with hp | hp
      · exact hs₁.within h1 p hp
      · obtain ⟨n, m, rfl, hn⟩ := hs₂.within (heq.trans h1.symm) p hp
        exact ⟨n, m, rfl, hn.trans h1.le⟩
    · rcases hs₁.le.lt_or_eq with hlt₁ | rfl
      · obtain ⟨⟨m, hm, hlen⟩, n, hn⟩ := hs₁.beyond hlt₁
        rw [List.mem_singleton.1 hm] at hlen
        exact ⟨⟨msg, List.mem_cons_self, hlen⟩, n, List.mem_append_left _ hn⟩
      · obtain ⟨⟨m, hm, hlen⟩, n, hn⟩ := hs₂.beyond hlt
        exact ⟨⟨m, List.mem_cons_of_mem _ hm, hlen⟩, n, List.mem_append_right _ hn⟩

/-! ## The invariant -/

/-- As long as the limit has not moved all goes well, and when it has a request is on its way or was not understood. -/
structure ReportInv (text1b : String → Nat) (s : Reporting) : Prop where
  buffer : defaultMaxCmdLength ≤ s.commandBuffer
  limit : defaultMaxCmdLength ≤ s.currentManagerMaxCmdLength
  bound : ∀ msg ∈ s.server.server.toManager, msg.bytes text1b ≤ s.currentManagerMaxCmdLength
  within : s.currentManagerMaxCmdLength = defaultMaxCmdLength → s.thrown = [] ∧ s.truncated = false ∧
    ∀ p ∈ s.inFlight, ∃ n msg, p = .data n msg ∧ n ≤ defaultMaxCmdLength
  beyond : defaultMaxCmdLength < s.currentManagerMaxCmdLength →
    (∃ msg ∈ s.server.server.toManager, defaultMaxCmdLength < msg.bytes text1b) ∧
      ((∃ n, .request n ∈ s.inFlight) ∨ s.thrown ≠ [])

theorem ReportInv.start : ReportInv text1b {} where
  buffer := le_rfl
  limit := le_rfl
  bound := nofun
  within _ := ⟨rfl, rfl, nofun⟩
  beyond h := absurd h (lt_irrefl _)

/-- The server handles an event and sends what follows. -/
theorem ReportInv.serves (h : ReportInv text1b s) {new : List S2M} {l : EventLoop} {limit : Nat}
    {ms : List (Packet S2M)} (hlog : l.server.toManager = s.server.server.toManager ++ new)
    (hsend : sendAll text1b new s.currentManagerMaxCmdLength s.inFlight = some (limit, ms)) :
    ReportInv text1b { s with server := l, currentManagerMaxCmdLength := limit, inFlight := ms } := by
  obtain ⟨packets, rfl, hs⟩ := sendAll_sends h.limit hsend
  refine ⟨h.buffer, h.limit.trans hs.le, fun msg hm => ?_, fun heq => ?_, fun hlt => ?_⟩
  · rw [hlog] at hm
    rcases List.mem_append.1 hm with hm | hm
    · exact (h.bound msg hm).trans hs.le
    · exact hs.bound msg hm
  · have heq₀ : s.currentManagerMaxCmdLength = defaultMaxCmdLength := le_antisymm (hs.le.trans heq.le) h.limit
    obtain ⟨hthrown, htrunc, hflight⟩ := h.within heq₀
    refine ⟨hthrown, htrunc, fun p hp => ?_⟩
    rcases List.mem_append.1 hp with hp | hp
    · exact hflight p hp
    · obtain ⟨n, msg, rfl, hn⟩ := hs.within (heq.trans heq₀.symm) p hp
      exact ⟨n, msg, rfl, heq₀ ▸ hn⟩
  · rcases h.limit.lt_or_eq with hlt₀ | heq₀
    · obtain ⟨⟨msg, hm, hlen⟩, hreq⟩ := h.beyond hlt₀
      refine ⟨⟨msg, by rw [hlog]; exact List.mem_append_left _ hm, hlen⟩, hreq.imp_left ?_⟩
      rintro ⟨n, hn⟩
      exact ⟨n, List.mem_append_left _ hn⟩
    · obtain ⟨⟨msg, hm, hlen⟩, n, hn⟩ := hs.beyond (heq₀ ▸ hlt)
      exact ⟨⟨msg, by rw [hlog]; exact List.mem_append_right _ hm, heq₀ ▸ hlen⟩, .inl ⟨n, List.mem_append_right _ hn⟩⟩

theorem ReportInv.step {e : Event} (h : ReportInv text1b s) (hs : s.step text1b e = some s') : ReportInv text1b s' := by
  unfold Reporting.step at hs
  split at hs
  · split at hs
    · cases hs
    split at hs
    · cases hs
    rename_i l hl
    obtain ⟨⟨limit, ms⟩, hsend, rfl⟩ := Option.map_eq_some_iff.1 hs
    obtain ⟨new, hlog, -⟩ := (EventLoop.step_handles hl).reports
    rw [hlog, List.drop_left] at hsend
    exact h.serves hlog hsend
  · split at hs <;> cases hs
    refine ⟨h.buffer, h.limit, h.bound, fun heq => ?_, fun hlt => ⟨(h.beyond hlt).1, (h.beyond hlt).2.imp_left ?_⟩⟩
    · obtain ⟨hthrown, htrunc, hflight⟩ := h.within heq
      refine ⟨hthrown, htrunc, fun p hp => ?_⟩
      rcases List.mem_append.1 hp with hp | hp
      · exact hflight p hp
      · exact ⟨0, _, List.mem_singleton.1 hp, Nat.zero_le _⟩
    · rintro ⟨n, hn⟩
      exact ⟨n, List.mem_append_left _ hn⟩
  · split at hs
    · cases hs
    rename_i p rest hms
    split at hs
    · rename_i e he
      cases hs
      -- only a request makes the manager throw
      cases p with
      | data n msg => cases he
      | request n =>
        refine ⟨h.buffer, h.limit, h.bound, fun heq => ?_, fun hlt => ⟨(h.beyond hlt).1, .inr (by simp)⟩⟩
        obtain ⟨n', msg, e', -⟩ := (h.within heq).2.2 _ (by rw [hms]; exact List.mem_cons_self)
        cases e'
    · rename_i m hm
      cases hs
      cases p with
      | request n => cases hm
      | data n msg =>
        refine ⟨h.buffer, h.limit, h.bound, fun heq => ?_, fun hlt => ⟨(h.beyond hlt).1, (h.beyond hlt).2.imp_left ?_⟩⟩
        · obtain ⟨hthrown, htrunc, hflight⟩ := h.within heq
          rw [hms] at hflight
          refine ⟨hthrown, ?_, fun p hp => hflight p (List.mem_cons_of_mem _ hp)⟩
          obtain ⟨n', msg', e', hn⟩ := hflight _ List.mem_cons_self
          cases e'
          show (s.truncated || decide (s.commandBuffer < n)) = false
          rw [htrunc, decide_eq_false (not_lt.2 (hn.trans h.buffer))]
          rfl
        · rintro ⟨n', hn'⟩
          rw [hms] at hn'
          rcases List.mem_cons.1 hn' with e' | hn'
          · cases e'
          · exact ⟨n', hn'⟩
  · split at hs <;> cases hs
    rename_i hc
    exact ⟨h.buffer.trans hc, h.limit, h.bound, h.within, h.beyond⟩

/-! ## Whole runs -/

/-- The runs of the server and the manager, with any commands of the manager and any messages of workers. -/
abbrev ReportRun (text1b : String → Nat) (es : List Event) (s : Reporting) : Prop :=
  Traced (Reporting.step text1b) (fun _ _ _ => True) [] {} es s

theorem ReportRun.reportInv {es : List Event} (h : ReportRun text1b es s) : ReportInv text1b s :=
  h.invariant (P := fun _ s => ReportInv text1b s) .start fun _ _ _ _ _ hI _ hs => hI.step hs

theorem ReportInv.handled_iff (h : ReportInv text1b s) :
    Handled s ↔ ∀ msg ∈ s.server.server.toManager, msg.bytes text1b ≤ defaultMaxCmdLength := by
  constructor
  · intro hh msg hm
    rcases h.limit.lt_or_eq with hlt | heq
    · rcases (h.beyond hlt).2 with ⟨n, hn⟩ | hthrown
      · obtain ⟨⟨m, hm⟩, -⟩ := hh.inFlight _ hn
        cases hm
      · exact absurd hh.thrown hthrown
    · exact heq ▸ h.bound msg hm
  · intro hall
    have heq : s.currentManagerMaxCmdLength = defaultMaxCmdLength := by
      rcases h.limit.lt_or_eq with hlt | heq
      · obtain ⟨⟨msg, hm, hlen⟩, -⟩ := h.beyond hlt
        exact absurd (hall msg hm) (not_le.2 hlen)
      · exact heq.symm
    obtain ⟨hthrown, htrunc, hflight⟩ := h.within heq
    refine ⟨hthrown, htrunc, fun p hp => ?_⟩
    obtain ⟨n, msg, rfl, hn⟩ := hflight p hp
    exact ⟨⟨_, rfl⟩, hn.trans h.buffer⟩

/-- The files and the messages of the server are short. -/
structure AllShort (text1b : String → Nat) (s : Server) : Prop where
  files : ∀ t ∈ s.availableTasks, t.metadata.bytes text1b + ({} : ProblemInstanceStatistics).bytes ≤ defaultMaxCmdLength
  messages : ∀ msg ∈ s.toManager, msg.bytes text1b ≤ defaultMaxCmdLength

theorem AllShort.step {e : Event} (h : AllShort text1b s.server.server) (he : Short text1b e)
    (hs : s.step text1b e = some s') : AllShort text1b s'.server.server := by
  unfold Reporting.step at hs
  split at hs
  · split at hs
    · cases hs
    split at hs
    · cases hs
    rename_i l hl
    obtain ⟨r, -, rfl⟩ := Option.map_eq_some_iff.1 hs
    have hh := EventLoop.step_handles hl
    have hfiles := hh.files
      (P := fun pim => pim.bytes text1b + ({} : ProblemInstanceStatistics).bytes ≤ defaultMaxCmdLength)
      h.files fun data hdata => by subst hdata; exact he
    refine ⟨hfiles, fun msg hm => ?_⟩
    obtain ⟨new, hlog, hnew⟩ := hh.reports
    rw [hlog] at hm
    rcases List.mem_append.1 hm with hm | hm
    · exact h.messages msg hm
    · rcases hnew msg hm with ⟨index, info, rfl, rfl⟩ | ⟨t, ht, rfl⟩
      · exact he
      · exact hfiles t ht
  · split at hs <;> cases hs
    exact h
  · split at hs
    · cases hs
    · split at hs <;> cases hs <;> exact h
  · split at hs <;> cases hs
    exact h

/-- In every run, all that the server has sent to the manager is handled and received whole exactly if every report and
every solution has at most `default_max_cmd_length` bytes; so it is when the files and solutions are short. -/
theorem reports_handled_iff (text1b : String → Nat) (es : List Event) (s : Reporting) (h : ReportRun text1b es s) :
    (Handled s ↔ ∀ msg ∈ s.server.server.toManager, msg.bytes text1b ≤ defaultMaxCmdLength) ∧
    ((∀ e ∈ es, Short text1b e) → Handled s) := by
  refine ⟨h.reportInv.handled_iff, fun hshort => h.reportInv.handled_iff.2 (AllShort.messages ?_)⟩
  refine h.invariant (P := fun es s => (∀ e ∈ es, Short text1b e) → AllShort text1b s.server.server)
    (fun _ => ⟨nofun, nofun⟩) (fun es s e s' _ ih _ hs hall => ?_) hshort
  have hes := ih fun e he => hall e (List.mem_append_left _ he)
  exact hes.step (hall e (List.mem_append_right _ (List.mem_singleton_self e))) hs

/-- The length in 1, 2 or 4 bytes, and the characters. -/
def compactText (s : String) : Nat :=
  (if s.utf8ByteSize < 0x80 then 1 else if s.utf8ByteSize < 0x4000 then 2 else 4) + s.utf8ByteSize

def longName : Nat → String
  | 0 => ""
  | n + 1 => (longName n).push 'a'

theorem utf8ByteSize_longName : ∀ n, (longName n).utf8ByteSize = n
  | 0 => rfl
  | n + 1 => by
    rw [longName, String.utf8ByteSize_push, utf8ByteSize_longName n]
    rfl

/-- A file is added, and a worker finds a solution of it. -/
def solutionRun (filename : String) : List Event :=
  [.serves (.pollWorkers none), .serves (.pollManager (some (.addFile { filename := filename }))),
    .serves (.pollWorkers none), .serves (.pollManager (some (.addWorkers 1))),
    .serves (.pollWorkers (some (0, .foundSolution { filename := filename })))]

/-- The server after that. -/
def solved (filename : String) : EventLoop where
  server :=
    { availableTasks := [.new { filename := filename }]
      taskOrder := [0]
      workUnits := [0]
      solutionFound := true
      terminatedWorkers := true
      accepted := 1
      toWorkers := [(0, .activateWorker), (0, .terminate)]
      toManager := [.foundSolution { filename := filename }] }
  polled := true

theorem solutionRun_step (text1b : String → Nat) (filename : String) (limit : Nat) (ms : List (Packet S2M))
    (h : sendAll text1b [.foundSolution { filename := filename }] defaultMaxCmdLength [] = some (limit, ms)) :
    ReportRun text1b (solutionRun filename)
      { server := solved filename, currentManagerMaxCmdLength := limit, inFlight := ms } := by
  have hfirst : ReportRun text1b ((solutionRun filename).take 4)
      { server := ⟨{ availableTasks := [.new { filename := filename }]
                     taskOrder := [0]
                     workUnits := [0]
                     accepted := 1
                     toWorkers := [(0, .activateWorker)] }, false⟩ } := Traced.of_replay (by rfl)
  refine hfirst.snoc (e := .serves (.pollWorkers (some (0, .foundSolution { filename := filename })))) trivial ?_
  show (sendAll text1b [.foundSolution { filename := filename }] defaultMaxCmdLength []).map _ = _
  rw [h]
  rfl

/-- The server hears the report of an instance. -/
def hearsReport (taskId : UInt32) (numFlipsDone : UInt64) : List Event :=
  [.serves (.pollWorkers (some (0, .doneProcessing { taskId, instancesProcessed := 1, numFlipsDone }))),
    .serves (.pollManager none)]

/-- Two files with short names, the second of which a worker solves; the server sends that and, after the last report,
the statistics of both, and the manager receives the first two of the three messages. -/
def shortRun : List Event :=
  [.serves (.pollWorkers none), .serves (.pollManager (some (.addFile ⟨2, 100, "a.cnf"⟩))),
    .serves (.pollWorkers none), .serves (.pollManager (some (.addFile ⟨1, 100, "b.cnf"⟩))),
    .serves (.pollWorkers none), .serves (.pollManager (some (.addWorkers 1))),
    .serves (.pollWorkers (some (0, .getInstances 3))), .serves (.pollManager none)] ++ hearsReport 0 100 ++
    [.serves (.pollWorkers (some (0, .foundSolution { numFlipsDone := 40, filename := "b.cnf" }))),
      .serves (.pollManager none)] ++ hearsReport 1 40 ++ hearsReport 0 30 ++ [.managerReceives, .managerReceives]

theorem shortRun_replay : ∃ s, ReportRun compactText shortRun s ∧ s.server.server.toManager.length = 3 ∧
    s.inFlight.length = 1 := by
  have hrun : (replay (Reporting.step compactText) (fun _ _ _ => True) [] {} shortRun).any (fun s : Reporting =>
      decide (s.server.server.toManager.length = 3 ∧ s.inFlight.length = 1)) = true := by
    decide +kernel
  obtain ⟨s, hs, he⟩ := (Option.any_eq_true _ _).1 hrun
  exact ⟨s, .of_replay hs, of_decide_eq_true he⟩

theorem shortRun_short : ∀ e ∈ shortRun, Short compactText e := by
  simp [shortRun, hearsReport, Short]
  decide +kernel

/-- The solution and the statistics of files with short names are handled. -/
theorem reports_handled_shortRun : ∃ s, ReportRun compactText shortRun s ∧ s.server.server.toManager.length = 3 ∧
    Handled s ∧ ∀ msg ∈ s.server.server.toManager, msg.bytes compactText ≤ defaultMaxCmdLength := by
  obtain ⟨s, hrun, hlen, -⟩ := shortRun_replay
  obtain ⟨hiff, hshort⟩ := reports_handled_iff compactText shortRun s hrun
  have hhandled := hshort shortRun_short
  exact ⟨s, hrun, hlen, hhandled, hiff.1 hhandled⟩

/-- The solution of a file with a name of 1000 characters is announced with a request, at which the manager throws, and
is longer than its buffer. -/
theorem reports_not_handled :
    ∃ s, ReportRun compactText (solutionRun (longName 1000) ++ [.managerReceives, .managerReceives]) s ∧
    s.thrown = [.runtimeError "unknown command (S2M:: 1)"] ∧ s.truncated = true := by
  have hlen : compactText (longName 1000) = 1002 := by
    unfold compactText
    rw [utf8ByteSize_longName]
    rfl
  have hrun := solutionRun_step compactText (longName 1000) 1042
    [.request 1042, .data 1042 (.foundSolution { filename := longName 1000 })]
    (by simp [sendAll, sendToManager, sendCmd, ensureCmdLength, sendReq, S2M.bytes, SolutionInfo.bytes, hlen,
      defaultMaxCmdLength, absoluteMaxCmdLength])
  have hthrown := hrun.snoc (e := Event.managerReceives) trivial rfl
  exact ⟨_, hthrown.snoc (e := Event.managerReceives) trivial rfl, rfl, rfl⟩

end Reporting

end ParallelProbsat.Communication
