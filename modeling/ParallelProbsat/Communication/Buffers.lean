/-
The sizes of the commands and the buffers they are received in (`req_max_transfer_size.hpp`, `ensure_cmd_length`, the
vectors `work_units`, `transfer_sizes`, `worker_comm_buffers` and `work_unit_requests`), on the channels from the
manager to the server and between the server and its workers.

What the commands do to the tasks matters here only for what is sent next and how long it is, so both come from
outside, in any order and of any length; so do the capacities that `reserve` and serializing give a buffer, of which
it is only known that they suffice and never shrink.
-/
import ParallelProbsat.Communication.Messages
import ParallelProbsat.Lib.Negotiation
import ParallelProbsat.Lib.Runs

namespace ParallelProbsat.Communication

open ParallelProbsat.Lib

def defaultMaxCmdLength : Nat := 1024
def absoluteMaxCmdLength : Nat := 65536

/-- The length of a serialized `four_byte_serializeable<int32_t>`. -/
def reqBytes : Nat := 4

/-! ## Sending and granting -/

/-- `req_max_transfer_size::send`. -/
def sendReq {α : Type} (requestedSize : Nat) (inFlight : List (Packet α)) : List (Packet α) :=
  if defaultMaxCmdLength < requestedSize then inFlight ++ [.request requestedSize] else inFlight

/-- `ensure_cmd_length` of each sender: the new limit, and what is then in flight; an assertion fails for a length
above `absolute_max_cmd_length`. -/
def ensureCmdLength {α : Type} (limit length : Nat) (inFlight : List (Packet α)) : Option (Nat × List (Packet α)) :=
  if limit < length then
    if length ≤ absoluteMaxCmdLength then some (length, sendReq length inFlight) else none
  else some (limit, inFlight)

/-- `send` of a command that is serialized: its length is ensured first. -/
def sendCmd {α : Type} (limit length : Nat) (content : α) (inFlight : List (Packet α)) :
    Option (Nat × List (Packet α)) :=
  match ensureCmdLength limit length inFlight with
  | none => none
  | some (limit, inFlight) => some (limit, inFlight ++ [.data length content])

/-- `req_max_transfer_size::process`: the buffer is given the capacity `capacity`; `none` if it throws. -/
def processReq (buffer requestedSize capacity : Nat) : Option Nat :=
  if 0 < requestedSize ∧ requestedSize ≤ absoluteMaxCmdLength ∧ max buffer requestedSize ≤ capacity then some capacity
  else none

/-! ## The processes -/

/-- A worker, with what is in flight between it and the server. -/
structure WorkerEnd where
  currentServerMaxCmdLength : Nat := defaultMaxCmdLength
  /-- The capacity of its `command_buffer`. -/
  commandBuffer : Nat := defaultMaxCmdLength
  toServer : List (Packet W2S) := []
  fromServer : List (Packet S2W) := []
  /-- DISCONNECT is sent. -/
  disconnected : Bool := false

structure Buffers where
  /-- `current_server_max_cmd_length` of the manager. -/
  currentServerMaxCmdLength : Nat := defaultMaxCmdLength
  toServer : List (Packet M2S) := []
  /-- The capacity of the server's `command_buffer`. -/
  commandBuffer : Nat := defaultMaxCmdLength
  /-- The communicators, which are the positions in `workers`. -/
  workUnits : List Nat := []
  transferSizes : List Nat := []
  /-- The capacities of the buffers. -/
  workerCommBuffers : List Nat := []
  /-- The capacities handed to the posted receives; `none` if there is none. -/
  workUnitRequests : List (Option Nat) := []
  workers : List WorkerEnd := []

namespace Buffers

def setWorker (s : Buffers) (unit : Nat) (w : WorkerEnd) : Buffers := { s with workers := s.workers.set unit w }

/-- The vectors and the worker after something was done with the connection at `index`, and its receive was posted
again. -/
def setLink (s : Buffers) (index unit transferSize buffer : Nat) (w : WorkerEnd) : Buffers :=
  { s.setWorker unit w with
    transferSizes := s.transferSizes.set index transferSize
    workerCommBuffers := s.workerCommBuffers.set index buffer
    workUnitRequests := s.workUnitRequests.set index (some buffer) }

/-- `process_m2s_ADD_WORKERS`. -/
def processM2sAddWorkers (s : Buffers) (numWorkers : Nat) : Buffers :=
  { s with
    workUnits := s.workUnits ++ List.range' s.workers.length numWorkers
    transferSizes := s.transferSizes ++ List.replicate numWorkers defaultMaxCmdLength
    workerCommBuffers := s.workerCommBuffers ++ List.replicate numWorkers defaultMaxCmdLength
    workUnitRequests := s.workUnitRequests ++ List.replicate numWorkers (some defaultMaxCmdLength)
    workers := s.workers ++ List.replicate numWorkers {} }

/-- `process_manager_cmd`. -/
def processManagerCmd (s : Buffers) (capacity : Nat) : Option Buffers :=
  match s.toServer with
  | [] => none
  | .request n :: rest =>
    (processReq s.commandBuffer n capacity).map fun b => { s with toServer := rest, commandBuffer := b }
  | .data _ (.addWorkers n) :: rest =>
    if 0 < n then some ({ s with toServer := rest }.processM2sAddWorkers n.toNat) else none
  | .data _ (.addFile _) :: rest => some { s with toServer := rest }
  | .data _ .terminate :: rest => some { s with toServer := rest }

/-- `process_w2s_DISCONNECT`. -/
def processW2sDisconnect (s : Buffers) (index : Nat) : Buffers :=
  { s with
    workUnitRequests := s.workUnitRequests.eraseIdx index
    workUnits := s.workUnits.eraseIdx index
    transferSizes := s.transferSizes.eraseIdx index
    workerCommBuffers := s.workerCommBuffers.eraseIdx index }

/-- `process_worker_cmd` for the receive completed at `index`; the reply to GET_INSTANCES is `jobs`, serialized to
`length` bytes in the buffer of the connection. -/
def processWorkerCmd (s : Buffers) (index : Nat) (jobs : List Job) (length capacity : Nat) : Option Buffers :=
  match s.workUnits[index]?, s.transferSizes[index]?, s.workerCommBuffers[index]?, s.workUnitRequests[index]? with
  | some unit, some transferSize, some buffer, some (some _) =>
    match s.workers[unit]? with
    | none => none
    | some w =>
      match w.toServer with
      | [] => none
      | .request n :: rest =>
        (processReq buffer n capacity).map fun b => s.setLink index unit transferSize b { w with toServer := rest }
      | .data _ command :: rest =>
        match command with
        | .getInstances _ =>
          if max buffer length ≤ capacity then
            (sendCmd transferSize length (.sendInstances jobs) w.fromServer).map fun r =>
              s.setLink index unit r.1 capacity { w with toServer := rest, fromServer := r.2 }
          else none
        | .disconnect => some ((s.setWorker unit { w with toServer := rest }).processW2sDisconnect index)
        | .foundSolution _ | .doneProcessing _ =>
          some (s.setLink index unit transferSize buffer { w with toServer := rest })
  | _, _, _, _ => none

/-- The server serializes a report to the manager in its `command_buffer`. -/
def serializes (s : Buffers) (capacity : Nat) : Option Buffers :=
  if s.commandBuffer ≤ capacity then some { s with commandBuffer := capacity } else none

/-- The server sends a command without data to the worker at `index`, ACTIVATE_WORKER or TERMINATE. -/
def signal (s : Buffers) (index : Nat) (terminate : Bool) : Option Buffers :=
  match s.workUnits[index]? with
  | none => none
  | some unit =>
    match s.workers[unit]? with
    | none => none
    | some w =>
      let command := if terminate then S2W.terminate else .activateWorker
      some (s.setWorker unit { w with fromServer := w.fromServer ++ [.data 0 command] })

/-- The manager sends a command; only ADD_FILE is serialized, to `length` bytes. -/
def managerSends (s : Buffers) (command : M2S) (length : Nat) : Option Buffers :=
  match command with
  | .addFile data =>
    (sendCmd s.currentServerMaxCmdLength length (.addFile data) s.toServer).map fun r =>
      { s with currentServerMaxCmdLength := r.1, toServer := r.2 }
  | .addWorkers n => some { s with toServer := s.toServer ++ [.data 4 (.addWorkers n)] }
  | .terminate => some { s with toServer := s.toServer ++ [.data 0 .terminate] }

/-- The worker at `unit` sends a command, serialized to `length` bytes in its `command_buffer`; DISCONNECT is not. -/
def workerSends (s : Buffers) (unit : Nat) (command : W2S) (length capacity : Nat) : Option Buffers :=
  match s.workers[unit]? with
  | none => none
  | some w =>
    if w.disconnected then none
    else match command with
      | .disconnect =>
        some (s.setWorker unit { w with toServer := w.toServer ++ [.data 0 .disconnect], disconnected := true })
      | _ =>
        if max w.commandBuffer length ≤ capacity then
          (sendCmd w.currentServerMaxCmdLength length command w.toServer).map fun r =>
            s.setWorker unit { w with currentServerMaxCmdLength := r.1, commandBuffer := capacity, toServer := r.2 }
        else none

/-- One command in `recieve_server_cmd` of the worker at `unit`. -/
def recieveServerCmd (s : Buffers) (unit capacity : Nat) : Option Buffers :=
  match s.workers[unit]? with
  | none => none
  | some w =>
    match w.fromServer with
    | [] => none
    | .request n :: rest =>
      (processReq w.commandBuffer n capacity).map fun b =>
        s.setWorker unit { w with commandBuffer := b, fromServer := rest }
    | .data _ _ :: rest => some (s.setWorker unit { w with fromServer := rest })

/-- The worker at `unit` probes for a command and processes it, without receiving it; that may enlarge its buffer. -/
def workerProbes (s : Buffers) (unit capacity : Nat) : Option Buffers :=
  match s.workers[unit]? with
  | none => none
  | some w =>
    if w.commandBuffer ≤ capacity then some (s.setWorker unit { w with commandBuffer := capacity }) else none

inductive Event
  | managerSends (command : M2S) (length : Nat)
  | processManagerCmd (capacity : Nat)
  | serializes (capacity : Nat)
  | signal (index : Nat) (terminate : Bool)
  | processWorkerCmd (index : Nat) (jobs : List Job) (length capacity : Nat)
  | workerSends (unit : Nat) (command : W2S) (length capacity : Nat)
  | recieveServerCmd (unit capacity : Nat)
  | workerProbes (unit capacity : Nat)

def step (s : Buffers) : Event → Option Buffers
  | .managerSends command length => s.managerSends command length
  | .processManagerCmd capacity => s.processManagerCmd capacity
  | .serializes capacity => s.serializes capacity
  | .signal index terminate => s.signal index terminate
  | .processWorkerCmd index jobs length capacity => s.processWorkerCmd index jobs length capacity
  | .workerSends unit command length capacity => s.workerSends unit command length capacity
  | .recieveServerCmd unit capacity => s.recieveServerCmd unit capacity
  | .workerProbes unit capacity => s.workerProbes unit capacity

end Buffers

/-! ## One channel -/

/-- A channel on which lengths are negotiated, and on which no request is refused. -/
structure Channel {α : Type} (limit capacity : Nat) (inFlight : List (Packet α)) : Prop where
  default : defaultMaxCmdLength ≤ limit
  negotiated : Negotiated reqBytes limit capacity inFlight
  granted : ∀ n, .request n ∈ inFlight → 0 < n ∧ n ≤ absoluteMaxCmdLength

section Channel

variable {α : Type} {limit capacity capacity' length : Nat} {content : α} {ms ms' : List (Packet α)}

theorem Channel.start (hc : defaultMaxCmdLength ≤ capacity) :
    Channel defaultMaxCmdLength capacity ([] : List (Packet α)) where
  default := le_rfl
  negotiated := .start (by decide) hc
  granted n h := by cases h

theorem Channel.ensure {limit' : Nat} (h : Channel limit capacity ms)
    (he : ensureCmdLength limit length ms = some (limit', ms')) :
    Channel limit' capacity ms' ∧ length ≤ limit' := by
  unfold ensureCmdLength at he
  split at he
  · rename_i hlt
    split at he
    · rename_i habs
      cases he
      have hdef := h.default
      unfold sendReq
      rw [if_pos (hdef.trans_lt hlt)]
      refine ⟨⟨hdef.trans hlt.le, h.negotiated.ask hlt.le, fun n hn => ?_⟩, le_rfl⟩
      rcases List.mem_append.1 hn with hn | hn
      · exact h.granted n hn
      · rw [List.mem_singleton] at hn
        cases hn
        exact ⟨by unfold defaultMaxCmdLength at hdef; omega, habs⟩
    · cases he
  · rename_i hle
    cases he
    exact ⟨h, not_lt.1 hle⟩

theorem Channel.push (h : Channel limit capacity ms) (hn : length ≤ limit) :
    Channel limit capacity (ms ++ [.data length content]) where
  default := h.default
  negotiated := h.negotiated.push hn
  granted n hmem := by
    rcases List.mem_append.1 hmem with hmem | hmem
    · exact h.granted n hmem
    · cases List.mem_singleton.1 hmem

theorem Channel.send {r : Nat × List (Packet α)} (h : Channel limit capacity ms)
    (he : sendCmd limit length content ms = some r) : Channel r.1 capacity r.2 := by
  unfold sendCmd at he
  split at he
  · cases he
  · rename_i limit' ms' hens
    cases he
    obtain ⟨h', hle⟩ := h.ensure hens
    exact h'.push hle

theorem Channel.grow (h : Channel limit capacity ms) (hc : capacity ≤ capacity') : Channel limit capacity' ms :=
  ⟨h.default, h.negotiated.grow hc, h.granted⟩

theorem Channel.grant {n b : Nat} (h : Channel limit capacity (.request n :: ms))
    (hp : processReq capacity n capacity' = some b) : Channel limit b ms := by
  unfold processReq at hp
  split at hp
  · rename_i hn
    cases hp
    exact ⟨h.default, h.negotiated.grant hn.2.2, fun m hm => h.granted m (List.mem_cons_of_mem _ hm)⟩
  · cases hp

theorem Channel.take (h : Channel limit capacity (.data length content :: ms)) : Channel limit capacity ms :=
  ⟨h.default, h.negotiated.take, fun n hn => h.granted n (List.mem_cons_of_mem _ hn)⟩

end Channel

/-! ## The invariant -/

/-- The entries at index `i` of the vectors belong to the worker at `c`, and both channels are sound. -/
structure Linked (s : Buffers) (i c l b : Nat) (w : WorkerEnd) : Prop where
  transferSize : s.transferSizes[i]? = some l
  buffer : s.workerCommBuffers[i]? = some b
  posted : s.workUnitRequests[i]? = some (some b)
  worker : s.workers[c]? = some w
  up : Channel w.currentServerMaxCmdLength b w.toServer
  down : Channel l w.commandBuffer w.fromServer

structure BufferInv (s : Buffers) : Prop where
  manager : Channel s.currentServerMaxCmdLength s.commandBuffer s.toServer
  units : s.workUnits.Nodup
  sizes : s.transferSizes.length = s.workUnits.length
  buffers : s.workerCommBuffers.length = s.workUnits.length
  requests : s.workUnitRequests.length = s.workUnits.length
  known : ∀ c ∈ s.workUnits, c < s.workers.length
  linked : ∀ (i : Nat) c, s.workUnits[i]? = some c → ∃ l b w, Linked s i c l b w
  /-- Also for a worker that has left. -/
  inbox : ∀ w ∈ s.workers, Packet.Fits reqBytes w.commandBuffer w.fromServer

namespace BufferInv

variable {s : Buffers} {i c l b : Nat} {w w' : WorkerEnd}

theorem start : BufferInv {} where
  manager := .start le_rfl
  units := List.nodup_nil
  sizes := rfl
  buffers := rfl
  requests := rfl
  known c hc := by cases hc
  linked i c hc := by cases hc
  inbox w hw := by cases hw

/-- Only the connection with the manager has changed. -/
theorem setManager (h : BufferInv s) {limit capacity : Nat} {ms : List (Packet M2S)} (hm : Channel limit capacity ms) :
    BufferInv { s with currentServerMaxCmdLength := limit, toServer := ms, commandBuffer := capacity } where
  manager := hm
  units := h.units
  sizes := h.sizes
  buffers := h.buffers
  requests := h.requests
  known := h.known
  linked i c hc := by
    obtain ⟨l, b, w, hl⟩ := h.linked i c hc
    exact ⟨l, b, w, hl.transferSize, hl.buffer, hl.posted, hl.worker, hl.up, hl.down⟩
  inbox := h.inbox

theorem inbox_set (h : BufferInv s) (c : Nat) (hw : Packet.Fits reqBytes w'.commandBuffer w'.fromServer) :
    ∀ w ∈ s.workers.set c w', Packet.Fits reqBytes w.commandBuffer w.fromServer := by
  intro w hmem
  rcases List.mem_or_eq_of_mem_set hmem with hmem | rfl
  · exact h.inbox w hmem
  · exact hw

/-- The communicators are those of different workers. -/
theorem unit_ne (h : BufferInv s) {j d : Nat} (hi : s.workUnits[i]? = some c) (hj : s.workUnits[j]? = some d)
    (hne : i ≠ j) :
    c ≠ d := by
  rintro rfl
  have hlt : i < s.workUnits.length := (List.getElem?_eq_some_iff.1 hi).1
  exact hne ((List.getElem?_inj hlt h.units).1 (hi.trans hj.symm))

/-- Something was done with a worker that leaves its channels sound. -/
theorem setWorker (h : BufferInv s) (hw : Packet.Fits reqBytes w'.commandBuffer w'.fromServer)
    (hl : ∀ i l b w, Linked s i c l b w →
      Channel w'.currentServerMaxCmdLength b w'.toServer ∧ Channel l w'.commandBuffer w'.fromServer) :
    BufferInv (s.setWorker c w') where
  manager := h.manager
  units := h.units
  sizes := h.sizes
  buffers := h.buffers
  requests := h.requests
  known d hd := by
    show d < (s.workers.set c w').length
    rw [List.length_set]
    exact h.known d hd
  linked j d hd := by
    obtain ⟨l, b, w, hlink⟩ := h.linked j d hd
    by_cases hcd : c = d
    · subst hcd
      obtain ⟨hup, hdown⟩ := hl j l b w hlink
      have hlt := h.known c (List.mem_of_getElem? hd)
      exact ⟨l, b, w', hlink.transferSize, hlink.buffer, hlink.posted, List.getElem?_set_self hlt, hup, hdown⟩
    · refine ⟨l, b, w, hlink.transferSize, hlink.buffer, hlink.posted, ?_, hlink.up, hlink.down⟩
      exact (List.getElem?_set_ne hcd).trans hlink.worker
  inbox := h.inbox_set c hw

/-- The server has dealt with the connection at `i`. -/
theorem setLink (h : BufferInv s) (hi : s.workUnits[i]? = some c)
    (hup : Channel w'.currentServerMaxCmdLength b w'.toServer)
    (hdown : Channel l w'.commandBuffer w'.fromServer) : BufferInv (s.setLink i c l b w') where
  manager := h.manager
  units := h.units
  sizes := (List.length_set).trans h.sizes
  buffers := (List.length_set).trans h.buffers
  requests := (List.length_set).trans h.requests
  known d hd := by
    show d < (s.workers.set c w').length
    rw [List.length_set]
    exact h.known d hd
  linked j d hd := by
    obtain ⟨l', b', w, hlink⟩ := h.linked j d hd
    by_cases hij : i = j
    · subst hij
      obtain rfl := Option.some.inj (hi.symm.trans hd)
      have hlt := (List.getElem?_eq_some_iff.1 hi).1
      exact ⟨l, b, w', List.getElem?_set_self (h.sizes ▸ hlt), List.getElem?_set_self (h.buffers ▸ hlt),
        List.getElem?_set_self (h.requests ▸ hlt),
        List.getElem?_set_self (h.known c (List.mem_of_getElem? hi)), hup, hdown⟩
    · exact ⟨l', b', w, (List.getElem?_set_ne hij).trans hlink.transferSize,
        (List.getElem?_set_ne hij).trans hlink.buffer, (List.getElem?_set_ne hij).trans hlink.posted,
        (List.getElem?_set_ne (h.unit_ne hi hd hij)).trans hlink.worker, hlink.up, hlink.down⟩
  inbox := h.inbox_set c hdown.negotiated.fits

/-- After a worker has left, every other one has its own entries at its new index. -/
theorem disconnect (h : BufferInv s) (i : Nat) : BufferInv (s.processW2sDisconnect i) where
  manager := h.manager
  units := h.units.eraseIdx i
  sizes := by
    show (s.transferSizes.eraseIdx i).length = (s.workUnits.eraseIdx i).length
    rw [List.length_eraseIdx, List.length_eraseIdx, h.sizes]
  buffers := by
    show (s.workerCommBuffers.eraseIdx i).length = (s.workUnits.eraseIdx i).length
    rw [List.length_eraseIdx, List.length_eraseIdx, h.buffers]
  requests := by
    show (s.workUnitRequests.eraseIdx i).length = (s.workUnits.eraseIdx i).length
    rw [List.length_eraseIdx, List.length_eraseIdx, h.requests]
  known d hd := h.known d (List.mem_of_mem_eraseIdx hd)
  linked j d hd := by
    -- the entries at `j` were those at this index before
    have hat : ∀ {β : Type} (xs : List β), (xs.eraseIdx i)[j]? = xs[if j < i then j else j + 1]? := by
      intro β xs
      rw [List.getElem?_eraseIdx]
      split <;> rfl
    have hd' : s.workUnits[if j < i then j else j + 1]? = some d := (hat _).symm.trans hd
    obtain ⟨l, b, w, hlink⟩ := h.linked _ d hd'
    exact ⟨l, b, w, (hat _).trans hlink.transferSize, (hat _).trans hlink.buffer,
      (hat _).trans hlink.posted, hlink.worker, hlink.up, hlink.down⟩
  inbox := h.inbox

/-- The new workers have the entries behind the old ones. -/
theorem addWorkers (h : BufferInv s) (n : Nat) : BufferInv (s.processM2sAddWorkers n) where
  manager := h.manager
  units := by
    refine List.nodup_append.2 ⟨h.units, List.nodup_range', fun c hc d hd hcd => ?_⟩
    have h1 := h.known c hc
    have h2 := (List.mem_range'_1.1 hd).1
    omega
  sizes := by simp [Buffers.processM2sAddWorkers, h.sizes]
  buffers := by simp [Buffers.processM2sAddWorkers, h.buffers]
  requests := by simp [Buffers.processM2sAddWorkers, h.requests]
  known c hc := by
    show c < (s.workers ++ List.replicate n ({} : WorkerEnd)).length
    rw [List.length_append, List.length_replicate]
    rcases List.mem_append.1 hc with hc | hc
    · have := h.known c hc
      omega
    · exact (List.mem_range'_1.1 hc).2
  linked j d hd := by
    by_cases hj : j < s.workUnits.length
    · obtain ⟨l, b, w, hlink⟩ := h.linked j d ((List.getElem?_append_left hj).symm.trans hd)
      exact ⟨l, b, w, (List.getElem?_append_left (h.sizes ▸ hj)).trans hlink.transferSize,
        (List.getElem?_append_left (h.buffers ▸ hj)).trans hlink.buffer,
        (List.getElem?_append_left (h.requests ▸ hj)).trans hlink.posted,
        (List.getElem?_append_left (List.getElem?_eq_some_iff.1 hlink.worker).1).trans hlink.worker,
        hlink.up, hlink.down⟩
    · -- a new worker, at the same place in all vectors
      obtain ⟨k, rfl⟩ := Nat.exists_eq_add_of_le (not_lt.1 hj)
      have hnew : (List.range' s.workers.length n)[k]? = some d := by
        have := (List.getElem?_append_right (by omega)).symm.trans hd
        rwa [Nat.add_sub_cancel_left] at this
      have hk : k < n := by
        have := (List.getElem?_eq_some_iff.1 hnew).1
        rwa [List.length_range'] at this
      have hat : ∀ {β : Type} (xs : List β) (y : β), xs.length = s.workUnits.length →
          (xs ++ List.replicate n y)[s.workUnits.length + k]? = some y := by
        intro β xs y hlen
        rw [List.getElem?_append_right (by omega), hlen, Nat.add_sub_cancel_left, List.getElem?_replicate, if_pos hk]
      have hworker : (s.workers ++ List.replicate n ({} : WorkerEnd))[d]? = some {} := by
        rw [List.getElem?_range' hk] at hnew
        obtain rfl := Option.some.inj hnew
        rw [Nat.one_mul, List.getElem?_append_right (by omega), Nat.add_sub_cancel_left,
          List.getElem?_replicate, if_pos hk]
      exact ⟨_, _, {}, hat _ _ h.sizes, hat _ _ h.buffers, hat _ _ h.requests, hworker, .start le_rfl, .start le_rfl⟩
  inbox w hw := by
    rcases List.mem_append.1 hw with hw | hw
    · exact h.inbox w hw
    · rw [List.eq_of_mem_replicate hw]
      trivial

/-! ## Every step keeps it -/

variable {s' : Buffers} {capacity length : Nat}

theorem managerSends (h : BufferInv s) {command : M2S} (hs : s.managerSends command length = some s') :
    BufferInv s' := by
  unfold Buffers.managerSends at hs
  split at hs
  · obtain ⟨r, hr, rfl⟩ := Option.map_eq_some_iff.1 hs
    exact h.setManager (h.manager.send hr)
  · cases hs
    exact h.setManager (h.manager.push ((by decide : 4 ≤ defaultMaxCmdLength).trans h.manager.default))
  · cases hs
    exact h.setManager (h.manager.push (Nat.zero_le _))

theorem processManagerCmd (h : BufferInv s) (hs : s.processManagerCmd capacity = some s') : BufferInv s' := by
  have hm := h.manager
  unfold Buffers.processManagerCmd at hs
  split at hs
  · cases hs
  · rename_i n rest hms
    rw [hms] at hm
    obtain ⟨b, hb, rfl⟩ := Option.map_eq_some_iff.1 hs
    exact h.setManager (hm.grant hb)
  · rename_i n rest hms
    rw [hms] at hm
    split at hs
    · cases hs
      exact (h.setManager hm.take).addWorkers _
    · cases hs
  · rename_i hms
    rw [hms] at hm
    cases hs
    exact h.setManager hm.take
  · rename_i hms
    rw [hms] at hm
    cases hs
    exact h.setManager hm.take

theorem serializes (h : BufferInv s) (hs : s.serializes capacity = some s') : BufferInv s' := by
  unfold Buffers.serializes at hs
  split at hs
  · rename_i hc
    cases hs
    exact h.setManager (h.manager.grow hc)
  · cases hs

theorem signal (h : BufferInv s) {terminate : Bool} (hs : s.signal i terminate = some s') : BufferInv s' := by
  unfold Buffers.signal at hs
  split at hs
  · cases hs
  rename_i c hi
  split at hs
  · cases hs
  rename_i w hw
  cases hs
  have hfits := h.inbox w (List.mem_of_getElem? hw)
  refine h.setWorker (hfits.snoc (Nat.zero_le _)) fun j l b w' hl => ?_
  obtain rfl := Option.some.inj (hw.symm.trans hl.worker)
  exact ⟨hl.up, hl.down.push (Nat.zero_le _)⟩

/-- What a worker does when it probes, receives or sends. -/
theorem setWorker_of (h : BufferInv s) (hw : s.workers[c]? = some w)
    (hfits : Packet.Fits reqBytes w'.commandBuffer w'.fromServer)
    (hup : ∀ b, Channel w.currentServerMaxCmdLength b w.toServer → Channel w'.currentServerMaxCmdLength b w'.toServer)
    (hdown : ∀ l, Channel l w.commandBuffer w.fromServer → Channel l w'.commandBuffer w'.fromServer) :
    BufferInv (s.setWorker c w') := by
  refine h.setWorker hfits fun j l b w'' hl => ?_
  obtain rfl := Option.some.inj (hw.symm.trans hl.worker)
  exact ⟨hup b hl.up, hdown l hl.down⟩

theorem workerSends (h : BufferInv s) {command : W2S} (hs : s.workerSends c command length capacity = some s') :
    BufferInv s' := by
  unfold Buffers.workerSends at hs
  split at hs
  · cases hs
  rename_i w hw
  have hfits := h.inbox w (List.mem_of_getElem? hw)
  split at hs
  · cases hs
  split at hs
  · cases hs
    exact h.setWorker_of hw hfits (fun b hb => hb.push (Nat.zero_le _)) (fun l hl => hl)
  · split at hs
    · rename_i hc
      have hgrow := (le_max_left _ _).trans hc
      obtain ⟨r, hr, rfl⟩ := Option.map_eq_some_iff.1 hs
      exact h.setWorker_of hw (hfits.mono hgrow) (fun b hb => hb.send hr) (fun l hl => hl.grow hgrow)
    · cases hs

theorem workerProbes (h : BufferInv s) (hs : s.workerProbes c capacity = some s') : BufferInv s' := by
  unfold Buffers.workerProbes at hs
  split at hs
  · cases hs
  rename_i w hw
  split at hs
  · rename_i hc
    cases hs
    exact h.setWorker_of hw ((h.inbox w (List.mem_of_getElem? hw)).mono hc) (fun b hb => hb) (fun l hl => hl.grow hc)
  · cases hs

theorem recieveServerCmd (h : BufferInv s) (hs : s.recieveServerCmd c capacity = some s') : BufferInv s' := by
  unfold Buffers.recieveServerCmd at hs
  split at hs
  · cases hs
  rename_i w hw
  have hfits := h.inbox w (List.mem_of_getElem? hw)
  split at hs
  · cases hs
  · rename_i n rest hms
    rw [hms] at hfits
    obtain ⟨b, hb, rfl⟩ := Option.map_eq_some_iff.1 hs
    refine h.setWorker_of hw ?_ (fun b hb => hb) (fun l hl => (hms ▸ hl).grant hb)
    unfold processReq at hb
    split at hb
    · rename_i hn
      cases hb
      exact hfits.2.mono hn.2.2
    · cases hb
  · rename_i n a rest hms
    rw [hms] at hfits
    cases hs
    exact h.setWorker_of hw hfits.2 (fun b hb => hb) (fun l hl => (hms ▸ hl).take)

theorem processWorkerCmd (h : BufferInv s) {jobs : List Job}
    (hs : s.processWorkerCmd i jobs length capacity = some s') :
    BufferInv s' := by
  unfold Buffers.processWorkerCmd at hs
  split at hs
  rotate_left
  · cases hs
  rename_i c l b r hi hl hb hr
  obtain ⟨l', b', w', hlink⟩ := h.linked i c hi
  obtain rfl := Option.some.inj (hl.symm.trans hlink.transferSize)
  obtain rfl := Option.some.inj (hb.symm.trans hlink.buffer)
  split at hs
  · cases hs
  rename_i w hw
  obtain rfl := Option.some.inj (hw.symm.trans hlink.worker)
  have hup := hlink.up
  split at hs
  · cases hs
  · rename_i n rest hms
    rw [hms] at hup
    obtain ⟨b', hb', rfl⟩ := Option.map_eq_some_iff.1 hs
    exact h.setLink hi (hup.grant hb') hlink.down
  · rename_i n command rest hms
    rw [hms] at hup
    split at hs
    · split at hs
      · rename_i hc
        obtain ⟨r, hr, rfl⟩ := Option.map_eq_some_iff.1 hs
        exact h.setLink hi (hup.take.grow ((le_max_left _ _).trans hc)) (hlink.down.send hr)
      · cases hs
    · cases hs
      have hset : BufferInv (s.setWorker c { w with toServer := rest }) :=
        h.setWorker_of hw hlink.down.negotiated.fits (fun b hb => (hms ▸ hb).take) (fun l hl => hl)
      exact hset.disconnect i
    · cases hs
      exact h.setLink hi hup.take hlink.down
    · cases hs
      exact h.setLink hi hup.take hlink.down

theorem step (h : BufferInv s) {e : Buffers.Event} (hs : s.step e = some s') : BufferInv s' := by
  cases e with
  | managerSends command length => exact h.managerSends hs
  | processManagerCmd capacity => exact h.processManagerCmd hs
  | serializes capacity => exact h.serializes hs
  | signal index terminate => exact h.signal hs
  | processWorkerCmd index jobs length capacity => exact h.processWorkerCmd hs
  | workerSends unit command length capacity => exact h.workerSends hs
  | recieveServerCmd unit capacity => exact h.recieveServerCmd hs
  | workerProbes unit capacity => exact h.workerProbes hs

end BufferInv

/-! ## Whole runs -/

/-- The runs of the manager, the server and any number of workers, in any order. -/
abbrev BufferRun (es : List Buffers.Event) (s : Buffers) : Prop := Traced Buffers.step (fun _ _ _ => True) [] {} es s

theorem BufferRun.bufferInv {es : List Buffers.Event} {s : Buffers} (h : BufferRun es s) : BufferInv s :=
  h.invariant (P := fun _ s => BufferInv s) .start fun _ _ _ _ _ hI _ hs => hI.step hs

/-- The next command fits the buffer it is received in, the sender's limit is at most what the buffer will hold after
the requests in flight, and none of these is refused. -/
def Sound {α : Type} (limit capacity : Nat) (inFlight : List (Packet α)) : Prop :=
  (∀ p rest, inFlight = p :: rest → p.size reqBytes ≤ capacity) ∧ limit ≤ Packet.after capacity inFlight ∧
    ∀ n, .request n ∈ inFlight → 0 < n ∧ n ≤ absoluteMaxCmdLength

theorem Channel.sound {α : Type} {limit capacity : Nat} {ms : List (Packet α)} (h : Channel limit capacity ms) :
    Sound limit capacity ms := by
  refine ⟨fun p rest e => ?_, h.negotiated.limit, h.granted⟩
  subst e
  exact h.negotiated.fits.head

/-- The lengths are negotiated soundly on every channel: from the manager to the server, and between the server and
each worker connected to it, at whatever index, where the posted receive has the whole buffer; what a worker receives
fits its buffer also after it has left. -/
theorem commands_fit (es : List Buffers.Event) (s : Buffers) (h : BufferRun es s) :
    Sound s.currentServerMaxCmdLength s.commandBuffer s.toServer ∧
    (∀ (i : Nat) c, s.workUnits[i]? = some c → ∃ transferSize buffer w, s.transferSizes[i]? = some transferSize ∧
      s.workerCommBuffers[i]? = some buffer ∧ s.workUnitRequests[i]? = some (some buffer) ∧ s.workers[c]? = some w ∧
      Sound w.currentServerMaxCmdLength buffer w.toServer ∧ Sound transferSize w.commandBuffer w.fromServer) ∧
    (∀ w ∈ s.workers, ∀ p rest, w.fromServer = p :: rest → p.size reqBytes ≤ w.commandBuffer) := by
  have hI := h.bufferInv
  refine ⟨hI.manager.sound, fun i c hi => ?_, fun w hw p rest e => ?_⟩
  · obtain ⟨l, b, w, hl⟩ := hI.linked i c hi
    exact ⟨l, b, w, hl.transferSize, hl.buffer, hl.posted, hl.worker, hl.up.sound, hl.down.sound⟩
  · have hfits := hI.inbox w hw
    rw [e] at hfits
    exact hfits.head

/-- Of two workers the first leaves, and the second gets a reply that is longer than its buffer. -/
def longReply : List Buffers.Event :=
  [.managerSends (.addWorkers 2) 0, .processManagerCmd 0, .workerSends 0 .disconnect 0 0, .processWorkerCmd 0 [] 0 0,
    .workerSends 1 (.getInstances 1) 4 1024, .processWorkerCmd 0 [] 2000 2000, .recieveServerCmd 1 2048]

theorem commands_fit_longReply :
    ∃ s, BufferRun longReply s ∧ Sound s.currentServerMaxCmdLength s.commandBuffer s.toServer ∧
    (∀ (i : Nat) c, s.workUnits[i]? = some c → ∃ transferSize buffer w, s.transferSizes[i]? = some transferSize ∧
      s.workerCommBuffers[i]? = some buffer ∧ s.workUnitRequests[i]? = some (some buffer) ∧ s.workers[c]? = some w ∧
      Sound w.currentServerMaxCmdLength buffer w.toServer ∧ Sound transferSize w.commandBuffer w.fromServer) ∧
    (∀ w ∈ s.workers, ∀ p rest, w.fromServer = p :: rest → p.size reqBytes ≤ w.commandBuffer) := by
  have hrun : BufferRun longReply
      { workUnits := [1]
        transferSizes := [2000]
        workerCommBuffers := [2000]
        workUnitRequests := [some 2000]
        workers := [{ disconnected := true },
          { commandBuffer := 2048, fromServer := [.data 2000 (.sendInstances [])] }] } :=
    Traced.of_replay (by rfl)
  exact ⟨_, hrun, commands_fit _ _ hrun⟩

end ParallelProbsat.Communication
