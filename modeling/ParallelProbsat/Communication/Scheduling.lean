/-
The scheduling of the server over whole runs: for any order of commands in which a report names an
instance that was handed out and not reported before, the counters of the server are those of a
ledger of the instances handed out and the instances reported.

The ledger is two lists of task numbers (`H`, `R`): `Scheduling H R s` compares them with the
counters. It is kept by every assignment, one round of the loop of `GET_INSTANCES`, and by every
report; all other handlers leave what it speaks of alone (`Quiet`). For limited tasks it needs no
bound; where task numbers must be told apart by their 32 bit ids it asks for at most 2^32 files.
-/
import ParallelProbsat.Lib.Runs
import ParallelProbsat.Lib.Loops
import ParallelProbsat.Lib.Tables
import ParallelProbsat.Communication.Server

namespace ParallelProbsat.Communication

open ParallelProbsat.Lib ParallelProbsat.Util

/-! ## One task -/

/-- `r` instances of the task were reported and `h` handed out. -/
structure TaskInfo.Counts (t : TaskInfo) (h r : Nat) : Prop where
  started : t.statistics.numInstancesStarted.toNat = r
  processing : t.numCurrentlyProcessing.toNat + r = h
  quota : t.metadata.anzahlStartbelegungen ≠ 0 → h ≤ t.metadata.anzahlStartbelegungen.toNat ∧
    (t.isScheduled = true ↔ h < t.metadata.anzahlStartbelegungen.toNat)
  unlimited : t.metadata.anzahlStartbelegungen = 0 → h < 2 ^ 32 ∧ (t.isScheduled = true → h = 0)

namespace TaskInfo

variable {t : TaskInfo} {h r : Nat}

theorem Counts.new (data : ProblemInstanceMetadata) : (TaskInfo.new data).Counts 0 0 where
  started := rfl
  processing := rfl
  quota h := ⟨Nat.zero_le _, fun _ => Nat.pos_of_ne_zero fun h0 => h (UInt32.toNat_inj.1 h0), fun _ => rfl⟩
  unlimited _ := ⟨by decide, fun _ => rfl⟩

/-- What is available of a limited task is what the quota leaves. -/
theorem Counts.available (hc : t.Counts h r) (h0 : t.metadata.anzahlStartbelegungen ≠ 0) (requested : UInt32) :
    (t.available requested).toNat = t.metadata.anzahlStartbelegungen.toNat - h := by
  obtain ⟨hle, -⟩ := hc.quota h0
  have hN := t.metadata.anzahlStartbelegungen.toNat_lt
  have hst := hc.started
  have hpr := hc.processing
  have e1 : (t.metadata.anzahlStartbelegungen - t.numCurrentlyProcessing).toNat =
      t.metadata.anzahlStartbelegungen.toNat - t.numCurrentlyProcessing.toNat :=
    UInt32.toNat_sub_of_le _ _ (UInt32.le_iff_toNat_le.2 (by omega))
  have e2 : t.statistics.numInstancesStarted.toUInt32.toNat = r := by
    rw [UInt64.toNat_toUInt32, hst, Nat.mod_eq_of_lt (by omega)]
  have e3 : t.available requested = t.metadata.anzahlStartbelegungen - t.numCurrentlyProcessing -
      t.statistics.numInstancesStarted.toUInt32 := if_neg h0
  rw [e3, UInt32.toNat_sub_of_le _ _ (UInt32.le_iff_toNat_le.2 (by omega)), e1, e2]
  omega

/-- An assignment of the available instances, or of those requested if they are fewer. -/
theorem Counts.assign (hc : t.Counts h r) {requested k : UInt32} (hk : k = min requested (t.available requested))
    (hpos : k ≠ 0) (hs : t.isScheduled = true) :
    (t.assign k (t.available requested ≤ k)).Counts (h + k.toNat) r := by
  have hst := hc.started
  have hpr := hc.processing
  have hkn : k.toNat = min requested.toNat (t.available requested).toNat := by rw [hk, UInt32.toNat_min]
  have hk0 : 0 < k.toNat := by
    rw [Nat.pos_iff_ne_zero]
    intro h0
    exact hpos (UInt32.toNat_inj.1 h0)
  have hlast : (t.available requested ≤ k) ↔ (t.available requested).toNat ≤ k.toNat := UInt32.le_iff_toNat_le
  by_cases h0 : t.metadata.anzahlStartbelegungen = 0
  · obtain ⟨hlt, hsched⟩ := hc.unlimited h0
    have hav : t.available requested = requested := if_pos h0
    have := requested.toNat_lt
    have h00 := hsched hs
    rw [hav] at hkn hlast ⊢
    refine ⟨hst, ?_, fun hne => absurd h0 hne, fun _ => ⟨by omega, ?_⟩⟩
    · show (t.numCurrentlyProcessing + k).toNat + r = _
      rw [UInt32.toNat_add]
      omega
    · -- an unlimited task gives all that is requested, so it leaves the queue
      have : requested ≤ k := hlast.2 (by omega)
      simp [TaskInfo.assign, this]
  · obtain ⟨hle, -⟩ := hc.quota h0
    have hav := hc.available h0 requested
    have hN := t.metadata.anzahlStartbelegungen.toNat_lt
    refine ⟨hst, ?_, fun _ => ⟨?_, ?_⟩, fun he => absurd he h0⟩
    · show (t.numCurrentlyProcessing + k).toNat + r = _
      rw [UInt32.toNat_add]
      omega
    · show h + k.toNat ≤ t.metadata.anzahlStartbelegungen.toNat
      omega
    · show (t.isScheduled && !decide (t.available requested ≤ k)) = true ↔
        h + k.toNat < t.metadata.anzahlStartbelegungen.toNat
      rw [hs, Bool.true_and, Bool.not_eq_true', decide_eq_false_iff_not, hlast]
      omega

/-- The report of one instance that is at a worker. -/
theorem Counts.returned (hc : t.Counts h r) {stats : ProblemInstanceStatistics} {n : UInt32} (hn : n = 1)
    (hstats : stats.numInstancesStarted = t.statistics.numInstancesStarted + n.toUInt64) (hr : r < h) :
    (t.returned stats n).Counts h (r + 1) := by
  subst hn
  have hst := hc.started
  have hpr := hc.processing
  have hcp := t.numCurrentlyProcessing.toNat_lt
  refine ⟨?_, ?_, hc.quota, hc.unlimited⟩
  · have hh : h < 2 ^ 33 := by
      by_cases h0 : t.metadata.anzahlStartbelegungen = 0
      · have := (hc.unlimited h0).1; omega
      · have := (hc.quota h0).1; have := t.metadata.anzahlStartbelegungen.toNat_lt; omega
    show stats.numInstancesStarted.toNat = r + 1
    rw [hstats, UInt64.toNat_add, hst]
    show (r + 1) % _ = _
    omega
  · show (t.numCurrentlyProcessing - 1).toNat + (r + 1) = h
    rw [UInt32.toNat_sub_of_le _ _ (UInt32.le_iff_toNat_le.2 (by show 1 ≤ _; omega))]
    show t.numCurrentlyProcessing.toNat - 1 + (r + 1) = h
    omega

/-- A task that left the queue has no instance left to start, so no report puts it back. -/
theorem Counts.not_rescheduled (hc : t.Counts h r) (hs : t.isScheduled = false) :
    ¬ t.metadata.anzahlStartbelegungen.toUInt64 > t.statistics.numInstancesStarted +
      t.numCurrentlyProcessing.toUInt64 := by
  intro hgt
  have hlt := UInt64.lt_iff_toNat_lt.1 hgt
  have hN := t.metadata.anzahlStartbelegungen.toNat_lt
  have hst := hc.started
  have hpr := hc.processing
  rw [UInt64.toNat_add, UInt32.toNat_toUInt64, UInt32.toNat_toUInt64] at hlt
  by_cases h0 : t.metadata.anzahlStartbelegungen = 0
  · rw [h0] at hlt
    exact absurd hlt (Nat.not_lt_zero _)
  · obtain ⟨hle, hiff⟩ := hc.quota h0
    rw [hs] at hiff
    have : ¬ h < t.metadata.anzahlStartbelegungen.toNat := fun hl => by cases hiff.2 hl
    rw [Nat.mod_eq_of_lt (by omega)] at hlt
    omega

end TaskInfo

namespace Server

/-! ## The ledger -/

/-- The instances handed out in this state. -/
def handedOut (s : Server) : List Nat := s.toWorkers.flatMap fun m => m.2.instances

/-- The tasks have ids of their own. -/
def Addressable (s : Server) : Prop := s.availableTasks.length ≤ 2 ^ 32

/-- The counters of the server are those of a ledger of the instances handed out, `H`, and reported, `R`. -/
structure Scheduling (H R : List Nat) (s : Server) : Prop where
  counts : ∀ p (t : TaskInfo), s.availableTasks[p]? = some t → (t.metadata.anzahlStartbelegungen = 0 → s.Addressable) →
    t.Counts (H.count p) (R.count p)
  known : ∀ id ∈ s.taskOrder, id.toNat < s.availableTasks.length
  handed : ∀ p ∈ H, p < s.availableTasks.length
  reported : ∀ p, R.count p ≤ H.count p
  inProcessing : s.numInstancesInProcessing.toNat + R.length ≡ H.length [MOD 2 ^ 64]
  scheduled : s.Addressable → ∀ p t, s.availableTasks[p]? = some t →
    (t.isScheduled = true ↔ ∃ id ∈ s.taskOrder, id.toNat = p)
  once : s.Addressable → s.taskOrder.Nodup

/-- The step from `s` to `s'` touches neither the tasks nor the queue, and hands out nothing. -/
structure Quiet (s s' : Server) : Prop where
  tasks : s'.availableTasks = s.availableTasks
  order : s'.taskOrder = s.taskOrder
  inProcessing : s'.numInstancesInProcessing = s.numInstancesInProcessing
  handedOut : s'.handedOut = s.handedOut

variable {s s' : Server} {H R : List Nat}

theorem handedOut_send (s : Server) (messages : List (Comm × S2W)) :
    (s.send messages).handedOut = s.handedOut ++ messages.flatMap fun m => m.2.instances :=
  List.flatMap_append

theorem Quiet.refl (s : Server) : Quiet s s := ⟨rfl, rfl, rfl, rfl⟩

theorem Quiet.trans {s'' : Server} (h : Quiet s s') (h' : Quiet s' s'') : Quiet s s'' :=
  ⟨h'.tasks.trans h.tasks, h'.order.trans h.order, h'.inProcessing.trans h.inProcessing, h'.handedOut.trans h.handedOut⟩

theorem Quiet.addressable (h : Quiet s s') : s'.Addressable ↔ s.Addressable := by
  unfold Addressable
  rw [h.tasks]

/-- Commands without instances may be sent to any workers. -/
theorem Quiet.send (s : Server) {messages : List (Comm × S2W)} (h : ∀ m ∈ messages, m.2.instances = []) :
    Quiet s (s.send messages) := by
  refine ⟨rfl, rfl, rfl, ?_⟩
  rw [handedOut_send, List.flatMap_eq_nil_iff.2 h, List.append_nil]

theorem Quiet.sendTermination (h : s.sendTerminationToWorkers = .ok s') : Quiet s s' := by
  rcases sendTerminationToWorkers_ok h with ⟨-, rfl⟩ | ⟨-, -, rfl⟩
  · exact .refl _
  · have : Quiet s { s with terminatedWorkers := true } := ⟨rfl, rfl, rfl, rfl⟩
    exact this.trans (.send _ fun m hm => by rw [mem_terminateMessages hm]; rfl)

theorem Quiet.sendStatistic (s : Server) : Quiet s s.sendStatisticToManager := by
  obtain ⟨messages, h⟩ := s.sendStatisticToManager_eq
  rw [h]
  exact ⟨rfl, rfl, rfl, rfl⟩

theorem Quiet.foundSolution {info : SolutionInfo} (h : s.processW2sFoundSolution info = .ok s') : Quiet s s' := by
  obtain ⟨s₁, h1, rfl⟩ := processW2sFoundSolution_ok h
  have : Quiet { s with solutionFound := true } s₁ := .sendTermination h1
  exact ⟨this.tasks, this.order, this.inProcessing, this.handedOut⟩

theorem Quiet.finish (h : s.finish = .ok s') : Quiet s s' := by
  rcases finish_ok h with ⟨-, h⟩ | ⟨-, rfl⟩
  · exact (Quiet.sendStatistic s).trans (.sendTermination h)
  · exact .refl _

/-- The activation of workers, or of none, hands out nothing. -/
theorem activation_instances {p : Prop} [Decidable p] {comms : List Comm} :
    ∀ m ∈ (if p then comms.map fun comm => (comm, S2W.activateWorker) else []), m.2.instances = [] := by
  intro m hm
  split at hm
  · obtain ⟨comm, -, rfl⟩ := List.mem_map.1 hm
    rfl
  · cases hm

theorem Quiet.addWorkers {n : Int} (h : s.processM2sAddWorkers n = .ok s') : Quiet s s' := by
  obtain ⟨workers, -, rfl⟩ := processM2sAddWorkers_ok h
  have hq : Quiet s { s with workUnits := s.workUnits ++ workers, accepted := s.accepted + n.toNat } :=
    ⟨rfl, rfl, rfl, rfl⟩
  exact hq.trans (.send _ activation_instances)

theorem Quiet.disconnect (index : Nat) (s : Server) : Quiet s (s.processW2sDisconnect index) := by
  rw [processW2sDisconnect_eq]
  exact ⟨rfl, rfl, rfl, rfl⟩

/-! ## What keeps the ledger -/

theorem Scheduling.quiet (h : s.Scheduling H R) (hq : Quiet s s') : s'.Scheduling H R := by
  have ha := hq.addressable
  obtain ⟨ht, ho, hi, -⟩ := hq
  refine ⟨?_, ?_, ?_, h.reported, by rw [hi]; exact h.inProcessing, ?_, ?_⟩
  · rw [ht]; exact fun p t hp h0 => h.counts p t hp fun hz => ha.1 (h0 hz)
  · rw [ho, ht]; exact h.known
  · rw [ht]; exact h.handed
  · rw [ho, ht]; exact fun hb => h.scheduled (ha.1 hb)
  · rw [ho]; exact fun hb => h.once (ha.1 hb)

theorem Scheduling.start : Scheduling [] [] {} where
  counts p t h := by cases h
  known id h := by cases h
  handed p h := by cases h
  reported p := le_rfl
  inProcessing := rfl
  scheduled _ p t h := by cases h
  once _ := List.nodup_nil

/-- The ids of the scheduled tasks stand in the queue. -/
theorem Scheduling.mem_taskOrder (h : s.Scheduling H R) (ha : s.Addressable) {p : Nat} {t : TaskInfo}
    (ht : s.availableTasks[p]? = some t) : UInt32.ofNat p ∈ s.taskOrder ↔ t.isScheduled = true := by
  have hid : (UInt32.ofNat p).toNat = p :=
    UInt32.toNat_ofNat_of_lt' ((List.getElem?_eq_some_iff.1 ht).1.trans_le ha)
  rw [h.scheduled ha p t ht]
  constructor
  · exact fun hm => ⟨_, hm, hid⟩
  · rintro ⟨id, hm, he⟩
    rwa [← he, UInt32.ofNat_toNat]

/-- No instance of a task that is not there yet was handed out. -/
theorem Scheduling.count_new (h : s.Scheduling H R) :
    H.count s.availableTasks.length = 0 ∧ R.count s.availableTasks.length = 0 := by
  have h0 : H.count s.availableTasks.length = 0 := List.count_eq_zero_of_not_mem fun hm => by
    have := h.handed _ hm
    omega
  exact ⟨h0, Nat.le_zero.1 (h0 ▸ h.reported _)⟩

theorem Scheduling.addFile (h : s.Scheduling H R) (data : ProblemInstanceMetadata) :
    (s.processM2sAddFile data).Scheduling H R := by
  obtain ⟨hH, hR⟩ := h.count_new
  have hlen : (s.availableTasks ++ [TaskInfo.new data]).length = s.availableTasks.length + 1 := by simp
  have hget : ∀ p t, (s.availableTasks ++ [TaskInfo.new data])[p]? = some t →
      s.availableTasks[p]? = some t ∨ (p = s.availableTasks.length ∧ t = .new data) := by
    intro p t hp
    rcases lt_trichotomy p s.availableTasks.length with hlt | heq | hgt
    · rw [List.getElem?_append_left hlt] at hp
      exact .inl hp
    · subst heq
      rw [List.getElem?_concat_length] at hp
      exact .inr ⟨rfl, (Option.some.inj hp).symm⟩
    · rw [List.getElem?_eq_none (by omega)] at hp
      cases hp
  -- the new id may wrap, but names a task that is there
  have hid : (UInt32.ofNat s.availableTasks.length).toNat = s.availableTasks.length % 2 ^ 32 := UInt32.toNat_ofNat'
  rw [processM2sAddFile_eq]
  refine Scheduling.quiet ?_ (Quiet.send _ ?_)
  · constructor
    · rintro p t hp h0
      rcases hget p t hp with hp | ⟨rfl, rfl⟩
      · refine h.counts p t hp fun hz => ?_
        have := h0 hz
        unfold Addressable at this ⊢
        simp only [hlen] at this
        omega
      · rw [hH, hR]
        exact .new data
    · rintro id hmem
      rw [hlen]
      rcases List.mem_cons.1 hmem with rfl | hmem
      · rw [hid]
        exact Nat.lt_succ_of_le (Nat.mod_le _ _)
      · have := h.known id hmem
        omega
    · intro p hp
      have := h.handed p hp
      rw [hlen]
      omega
    · exact h.reported
    · exact h.inProcessing
    · intro hb p t hp
      have hb' : s.availableTasks.length + 1 ≤ 2 ^ 32 := hlen ▸ hb
      rw [Nat.mod_eq_of_lt (by omega)] at hid
      simp only [List.mem_cons, exists_eq_or_imp, hid]
      rcases hget p t hp with hp | ⟨rfl, rfl⟩
      · have hlt := (List.getElem?_eq_some_iff.1 hp).1
        rw [h.scheduled (show _ ≤ _ by omega) p t hp]
        constructor
        · exact .inr
        · rintro (h' | h')
          · omega
          · exact h'
      · exact ⟨fun _ => .inl rfl, fun _ => rfl⟩
    · intro hb
      have hb' : s.availableTasks.length + 1 ≤ 2 ^ 32 := hlen ▸ hb
      rw [Nat.mod_eq_of_lt (by omega)] at hid
      refine List.nodup_cons.2 ⟨fun hmem => ?_, h.once (show _ ≤ _ by omega)⟩
      have := h.known _ hmem
      omega
  · exact activation_instances

/-! ## One assignment -/

theorem count_instances (j : Job) (p : Nat) :
    j.instances.count p = if j.taskId.toNat = p then j.numInstancesToStart.toNat else 0 := by
  unfold Job.instances
  rw [List.count_replicate]
  simp only [beq_iff_eq]

/-- The task at the front of the queue is waiting for workers. -/
theorem Scheduling.front_scheduled (h : s.Scheduling H R) {taskId : UInt32} {rest : List UInt32} {t : TaskInfo}
    (ho : s.taskOrder = taskId :: rest) (ht : s.availableTasks[taskId.toNat]? = some t) {requested k : UInt32}
    (hk : k = min requested (t.available requested)) (hk0 : k ≠ 0)
    (hb : t.metadata.anzahlStartbelegungen = 0 → s.Addressable) : t.isScheduled = true := by
  by_cases h0 : t.metadata.anzahlStartbelegungen = 0
  · exact (h.scheduled (hb h0) _ t ht).2 ⟨taskId, by rw [ho]; exact List.mem_cons_self, rfl⟩
  · have hc := h.counts _ t ht hb
    have hav := hc.available h0 requested
    have hkn : k.toNat = min requested.toNat (t.available requested).toNat := by rw [hk, UInt32.toNat_min]
    have : k.toNat ≠ 0 := fun hz => hk0 (UInt32.toNat_inj.1 hz)
    exact ((hc.quota h0).2).2 (by omega)

/-- The tasks after one of them was changed. -/
theorem getElem?_modifyTask {taskId : UInt32} {f : TaskInfo → TaskInfo} {t t' : TaskInfo} {p : Nat}
    (ht : s.availableTasks[taskId.toNat]? = some t) (hp : (s.modifyTask taskId f).availableTasks[p]? = some t') :
    (taskId.toNat = p ∧ t' = f t) ∨ (taskId.toNat ≠ p ∧ s.availableTasks[p]? = some t') := by
  obtain ⟨t₀, h₀, ⟨rfl, rfl⟩ | ⟨hne, rfl⟩⟩ := getElem?_modify_some hp
  · obtain rfl := Option.some.inj (ht.symm.trans h₀)
    exact .inl ⟨rfl, rfl⟩
  · exact .inr ⟨hne, h₀⟩

theorem length_modifyTask (taskId : UInt32) (f : TaskInfo → TaskInfo) (s : Server) :
    (s.modifyTask taskId f).availableTasks.length = s.availableTasks.length := List.length_modify ..

theorem addressable_modifyTask (taskId : UInt32) (f : TaskInfo → TaskInfo) (s : Server) :
    (s.modifyTask taskId f).Addressable ↔ s.Addressable := by
  unfold Addressable
  rw [length_modifyTask]

/-- One round of the loop of `GET_INSTANCES`. -/
theorem Scheduling.assignFront (h : s.Scheduling H R) {requested requested' taskId : UInt32} {rest : List UInt32}
    {t : TaskInfo} {j : Job} (ho : s.taskOrder = taskId :: rest) (ht : s.availableTasks[taskId.toNat]? = some t)
    (ha : s.assignFront requested taskId t = .ok (s', requested', j)) : s'.Scheduling (H ++ j.instances) R := by
  obtain ⟨k, hk, hk0, -, rfl, rfl⟩ := assignFront_ok ha
  have hlt := (List.getElem?_eq_some_iff.1 ht).1
  have hcount : ∀ p, (H ++ Job.instances ⟨t.metadata, k, taskId⟩).count p =
      H.count p + if taskId.toNat = p then k.toNat else 0 := by
    intro p
    rw [List.count_append, count_instances]
  have hlen := length_modifyTask taskId (fun t' => t'.assign k (t.available requested ≤ k)) s
  have haddr := addressable_modifyTask taskId (fun t' => t'.assign k (t.available requested ≤ k)) s
  refine ⟨?_, ?_, ?_, ?_, ?_, ?_, ?_⟩
  · intro p t' hp hb
    rw [hcount]
    rcases getElem?_modifyTask ht hp with ⟨rfl, rfl⟩ | ⟨hne, hp⟩
    · have hb' : t.metadata.anzahlStartbelegungen = 0 → s.Addressable := fun hz => haddr.1 (hb hz)
      rw [if_pos rfl]
      exact (h.counts _ t ht hb').assign hk hk0 (h.front_scheduled ho ht hk hk0 hb')
    · rw [if_neg hne]
      exact h.counts p t' hp fun hz => haddr.1 (hb hz)
  · intro id hid
    show id.toNat < List.length _
    rw [hlen]
    refine h.known id ?_
    simp only at hid
    split at hid
    · exact List.mem_of_mem_tail hid
    · exact hid
  · intro p hp
    show p < List.length _
    rw [hlen]
    rcases List.mem_append.1 hp with hp | hp
    · exact h.handed p hp
    · rw [(List.mem_replicate.1 hp).2]
      exact hlt
  · intro p
    rw [hcount]
    exact (h.reported p).trans (Nat.le_add_right ..)
  · show (s.numInstancesInProcessing + k.toUInt64).toNat + R.length ≡ _ [MOD 2 ^ 64]
    rw [UInt64.toNat_add, UInt32.toNat_toUInt64, List.length_append, Job.instances, List.length_replicate]
    have h1 : (s.numInstancesInProcessing.toNat + k.toNat) % 2 ^ 64 + R.length ≡
        s.numInstancesInProcessing.toNat + k.toNat + R.length [MOD 2 ^ 64] := (Nat.mod_modEq _ _).add_right _
    have h2 := h.inProcessing.add_right k.toNat
    rw [Nat.add_right_comm] at h2
    exact h1.trans h2
  · intro hb p t' hp
    have hb' := haddr.1 hb
    have hnd := h.once hb'
    have hsch := h.scheduled hb'
    rw [ho] at hnd hsch
    obtain ⟨hnm, -⟩ := List.nodup_cons.1 hnd
    simp only [ho, List.tail_cons]
    rcases getElem?_modifyTask ht hp with ⟨rfl, rfl⟩ | ⟨hne, hp⟩
    · show (t.isScheduled && !decide (t.available requested ≤ k)) = true ↔ _
      by_cases hl : t.available requested ≤ k
      · -- the task left the queue, where it stood once
        simp only [hl, decide_true, Bool.not_true, Bool.and_false, if_true]
        refine ⟨nofun, fun ⟨id, hid, he⟩ => ?_⟩
        rw [UInt32.toNat_inj.1 he] at hid
        exact absurd hid hnm
      · simp only [hl, decide_false, Bool.not_false, Bool.and_true, if_false]
        exact hsch _ t ht
    · rw [hsch p t' hp]
      split
      · simp only [List.mem_cons, exists_eq_or_imp, hne, false_or]
      · rfl
  · intro hb
    have hb' := haddr.1 hb
    simp only
    split
    · exact (h.once hb').tail
    · exact h.once hb'

/-- The loop hands out what it puts into the reply. -/
theorem Scheduling.replied {rounds : Nat} {requested : UInt32} {reply : List Job} (h : s.Scheduling H R)
    (hl : assignLoop rounds requested [] s = .ok (s', reply)) : s'.Scheduling (H ++ reply.flatMap Job.instances) R := by
  refine assignLoop_rule (P := fun s₁ reply => s₁.Scheduling (H ++ reply.flatMap Job.instances) R) ?_ hl ?_
  · intro s₂ reply requested taskId rest t s₃ requested' j hp ho ht ha
    rw [List.flatMap_append, List.flatMap_singleton, ← List.append_assoc]
    exact hp.assignFront ho ht ha
  · simpa using h

theorem Scheduling.getInstances {comm : Comm} {requested : UInt32} (h : s.Scheduling s.handedOut R)
    (hg : s.processW2sGetInstances comm requested = .ok s') : s'.Scheduling s'.handedOut R := by
  obtain ⟨s₁, reply, rfl, h1⟩ := processW2sGetInstances_ok hg
  have hout : s₁.handedOut = s.handedOut := by
    rcases h1 with ⟨-, h1⟩ | ⟨-, rfl, -⟩
    · rw [(assignLoop_frame h1).1]; rfl
    · rfl
  have hs₁ : s₁.Scheduling (s.handedOut ++ reply.flatMap Job.instances) R := by
    rcases h1 with ⟨-, h1⟩ | ⟨-, rfl, rfl⟩
    · exact h.replied h1
    · simpa using h
  have hsent : (s₁.send [(comm, .sendInstances reply)]).handedOut = s.handedOut ++ reply.flatMap Job.instances := by
    rw [handedOut_send, hout]
    simp [S2W.instances]
  rw [hsent]
  exact ⟨hs₁.counts, hs₁.known, hs₁.handed, hs₁.reported, hs₁.inProcessing, hs₁.scheduled, hs₁.once⟩

/-! ## One report -/

theorem reschedule_eq {taskId : UInt32} {t : TaskInfo} (h : t.isScheduled = false →
    ¬ t.metadata.anzahlStartbelegungen.toUInt64 > t.statistics.numInstancesStarted +
      t.numCurrentlyProcessing.toUInt64) :
    s.reschedule taskId t = s := by
  unfold reschedule
  refine if_neg ?_
  rintro ⟨hs, ⟨ht, -⟩ | hgt⟩
  · cases ht
  · exact h hs hgt

section Report

variable {msg : DoneProcessingInfo} {t : TaskInfo} {stats : ProblemInstanceStatistics}
  (h : s.Scheduling H R) (hn : msg.instancesProcessed = 1) (hr : R.count msg.taskId.toNat < H.count msg.taskId.toNat)
  (ht : s.availableTasks[msg.taskId.toNat]? = some t) (hstats : account msg t.statistics = .ok stats)
include h hn hr ht hstats

theorem Scheduling.booked (hle : msg.instancesProcessed.toUInt64 ≤ s.numInstancesInProcessing) :
    (s.booked msg (t.returned stats msg.instancesProcessed)).Scheduling H (R ++ [msg.taskId.toNat]) := by
  have hcount : ∀ p, (R ++ [msg.taskId.toNat]).count p = R.count p + if msg.taskId.toNat = p then 1 else 0 := by
    intro p
    rw [List.count_append, List.count_singleton]
    simp only [beq_iff_eq]
  have haddr := addressable_modifyTask msg.taskId (fun _ => t.returned stats msg.instancesProcessed) s
  have hlen : (s.booked msg (t.returned stats msg.instancesProcessed)).availableTasks.length =
      s.availableTasks.length :=
    length_modifyTask msg.taskId (fun _ => t.returned stats msg.instancesProcessed) s
  refine ⟨?_, ?_, ?_, ?_, ?_, ?_, fun hb => h.once (haddr.1 hb)⟩
  · intro p t' hp hb
    rw [hcount]
    rcases getElem?_modifyTask ht hp with ⟨rfl, rfl⟩ | ⟨hne, hp⟩
    · rw [if_pos rfl]
      exact (h.counts _ t ht fun hz => haddr.1 (hb hz)).returned hn (account_ok hstats) hr
    · rw [if_neg hne]
      exact h.counts p t' hp fun hz => haddr.1 (hb hz)
  · rw [hlen]
    exact h.known
  · rw [hlen]
    exact h.handed
  · intro p
    rw [hcount]
    split
    · rename_i he
      subst he
      omega
    · exact h.reported p
  · have hone : msg.instancesProcessed.toUInt64.toNat = 1 := by rw [hn]; rfl
    have hle := UInt64.le_iff_toNat_le.1 hle
    show (s.numInstancesInProcessing - msg.instancesProcessed.toUInt64).toNat +
      (R ++ [msg.taskId.toNat]).length ≡ _ [MOD 2 ^ 64]
    rw [UInt64.toNat_sub_of_le _ _ (UInt64.le_iff_toNat_le.2 hle), hone, List.length_append, List.length_singleton]
    have : s.numInstancesInProcessing.toNat - 1 + (R.length + 1) = s.numInstancesInProcessing.toNat + R.length := by
      omega
    rw [this]
    exact h.inProcessing
  · intro hb p t' hp
    rcases getElem?_modifyTask ht hp with ⟨rfl, rfl⟩ | ⟨-, hp⟩
    · exact h.scheduled (haddr.1 hb) _ t ht
    · exact h.scheduled (haddr.1 hb) p t' hp

/-- No report puts a task back into the queue. -/
theorem Scheduling.not_rescheduled : (s.booked msg (t.returned stats msg.instancesProcessed)).reschedule msg.taskId
    (t.returned stats msg.instancesProcessed) = s.booked msg (t.returned stats msg.instancesProcessed) := by
  refine reschedule_eq fun hs => ?_
  by_cases h0 : t.metadata.anzahlStartbelegungen = 0
  · -- an unlimited task has no quota left to start
    intro hgt
    have := UInt64.lt_iff_toNat_lt.1 hgt
    rw [show (t.returned stats msg.instancesProcessed).metadata.anzahlStartbelegungen = 0 from h0] at this
    exact absurd this (Nat.not_lt_zero _)
  · exact ((h.counts _ t ht fun hz => absurd hz h0).returned hn (account_ok hstats) hr).not_rescheduled hs

end Report

/-- A report books one instance, and what follows touches neither the tasks nor the queue. -/
theorem Scheduling.doneProcessing {msg : DoneProcessingInfo} (h : s.Scheduling H R) (hn : msg.instancesProcessed = 1)
    (hr : R.count msg.taskId.toNat < H.count msg.taskId.toNat) (hd : s.processW2sDoneProcessing msg = .ok s') :
    ∃ t, (s.booked msg t).Scheduling H (R ++ [msg.taskId.toNat]) ∧ (s.booked msg t).finish = .ok s' := by
  obtain ⟨t, stats, ht, hstats, hle, hf⟩ := processW2sDoneProcessing_ok hd
  refine ⟨_, h.booked hn hr ht hstats hle, ?_⟩
  rw [← h.not_rescheduled hn hr ht hstats]
  exact hf

/-! ## The totals of the ledger -/

/-- Task numbers below `n`, counted number by number. -/
theorem sum_count {n : Nat} {L : List Nat} (h : ∀ p ∈ L, p < n) : ∑ p ∈ Finset.range n, L.count p = L.length := by
  have : ∑ p ∈ Finset.range n, (L : Multiset Nat).count p = (L : Multiset Nat).card :=
    Multiset.sum_count_eq_card fun p hp => Finset.mem_range.2 (h p hp)
  simpa using this

/-- A column of a table of the tasks and the ledger, task by task, give the totals. -/
theorem sum_add_length {α : Type} {ts : List α} {f : α → Nat} (hH : ∀ p ∈ H, p < ts.length)
    (hR : ∀ p ∈ R, p < ts.length) (h : ∀ p t, ts[p]? = some t → f t + R.count p = H.count p) :
    (ts.map f).sum + R.length = H.length := by
  have hsum : (ts.map f).sum = ∑ p : Fin ts.length, f ts[p] := by
    rw [← List.sum_ofFn]
    congr 1
    exact (List.ofFn_getElem_eq_map ts f).symm
  rw [hsum, ← sum_count hH, ← sum_count hR, Finset.sum_range, Finset.sum_range, ← Finset.sum_add_distrib]
  exact Finset.sum_congr rfl fun p _ => h p ts[p] (List.getElem?_eq_getElem p.2)

section Totals

variable (h : s.Scheduling H R) (ha : s.Addressable)
include h

theorem Scheduling.reported_le : (R : Multiset Nat) ≤ (H : Multiset Nat) :=
  Multiset.le_iff_count.2 fun p => by simpa using h.reported p

theorem Scheduling.reported_lt {p : Nat} (hp : p ∈ R) : p < s.availableTasks.length :=
  h.handed p (Multiset.mem_of_le h.reported_le hp)

include ha

/-- No more instances are handed out than a 64 bit counter can count. -/
theorem Scheduling.length_handed_lt : H.length < 2 ^ 64 := by
  have hle : ∑ p ∈ Finset.range s.availableTasks.length, H.count p ≤ s.availableTasks.length * (2 ^ 32 - 1) := by
    have := Finset.sum_le_card_nsmul (Finset.range s.availableTasks.length) (fun p => H.count p) (2 ^ 32 - 1) ?_
    · rwa [Finset.card_range, smul_eq_mul] at this
    · intro p hp
      have hlt := Finset.mem_range.1 hp
      have hc := h.counts p _ (List.getElem?_eq_getElem hlt) fun _ => ha
      by_cases h0 : s.availableTasks[p].metadata.anzahlStartbelegungen = 0
      · have := (hc.unlimited h0).1
        omega
      · have := (hc.quota h0).1
        have := s.availableTasks[p].metadata.anzahlStartbelegungen.toNat_lt
        omega
  rw [sum_count h.handed] at hle
  have : s.availableTasks.length * (2 ^ 32 - 1) ≤ 2 ^ 32 * (2 ^ 32 - 1) := Nat.mul_le_mul_right _ ha
  omega

/-- The instances at workers are those handed out and not reported. -/
theorem Scheduling.outstanding : s.numInstancesInProcessing.toNat + R.length = H.length := by
  have hlt := h.length_handed_lt ha
  have hle : R.length ≤ H.length := by simpa using Multiset.card_le_card h.reported_le
  have hmod := h.inProcessing
  have := s.numInstancesInProcessing.toNat_lt
  unfold Nat.ModEq at hmod
  omega

theorem Scheduling.sum_processing :
    s.numInstancesInProcessing.toNat = (s.availableTasks.map fun t => t.numCurrentlyProcessing.toNat).sum := by
  have := sum_add_length h.handed (fun p hp => h.reported_lt hp) fun p t hp => (h.counts p t hp fun _ => ha).processing
  have := h.outstanding ha
  omega

/-- With an empty queue and no instance at a worker, every limited task is finished. -/
theorem Scheduling.all_done (ho : s.taskOrder = []) (h0 : s.numInstancesInProcessing = 0) {p : Nat} {t : TaskInfo}
    (ht : s.availableTasks[p]? = some t) (hN : t.metadata.anzahlStartbelegungen ≠ 0) :
    t.statistics.numInstancesStarted.toNat = t.metadata.anzahlStartbelegungen.toNat ∧ t.numCurrentlyProcessing = 0 := by
  have hc := h.counts p t ht fun _ => ha
  have hsum := h.sum_processing ha
  rw [h0] at hsum
  have hcp : t.numCurrentlyProcessing.toNat = 0 :=
    List.sum_eq_zero_iff.1 hsum.symm _ (List.mem_map_of_mem (List.mem_of_getElem? ht))
  have hs : ¬ t.isScheduled = true := by
    rw [h.scheduled ha p t ht, ho]
    rintro ⟨id, hid, -⟩
    cases hid
  obtain ⟨hle, hiff⟩ := hc.quota hN
  rw [hiff] at hs
  have := hc.started
  have := hc.processing
  exact ⟨by omega, UInt32.toNat_inj.1 hcp⟩

end Totals

end Server

/-! ## Runs -/

/-- The task numbers of the instances reported by the polls of a run. -/
def Event.reported : Event → List Nat
  | .pollWorkers (some (_, msg)) => msg.instances
  | _ => []

def reportedBy (es : List Event) : List Nat := es.flatMap Event.reported

/-- A worker reports exactly one instance of a task, one that was handed out and not reported before. -/
def ReportsHanded (es : List Event) (l : EventLoop) : Event → Prop
  | .pollWorkers (some (_, .doneProcessing info)) => info.instancesProcessed = 1 ∧
      (reportedBy es).count info.taskId.toNat < l.server.handedOut.count info.taskId.toNat
  | _ => True

instance (es : List Event) (l : EventLoop) (e : Event) : Decidable (ReportsHanded es l e) := by
  unfold ReportsHanded
  split <;> infer_instance

/-- The runs of the server from its start. -/
abbrev Served (es : List Event) (l : EventLoop) : Prop := Traced EventLoop.step ReportsHanded [] {} es l

@[simp] theorem reportedBy_append (es : List Event) (e : Event) :
    reportedBy (es ++ [e]) = reportedBy es ++ e.reported := by
  unfold reportedBy
  rw [List.flatMap_append, List.flatMap_singleton]

/-- One poll keeps the ledger. -/
theorem scheduling_step {es : List Event} {l : EventLoop} {e : Event} {s' : Server}
    (h : l.server.Scheduling l.server.handedOut (reportedBy es)) (hok : ReportsHanded es l e)
    (hs : l.server.Handles e s') : s'.Scheduling s'.handedOut (reportedBy (es ++ [e])) := by
  have hquiet : e.reported = [] → l.server.Quiet s' → s'.Scheduling s'.handedOut (reportedBy (es ++ [e])) := by
    intro he hq
    rw [reportedBy_append, he, List.append_nil, hq.handedOut]
    exact h.quiet hq
  cases hs with
  | noWorker => exact hquiet rfl (.refl _)
  | noManager => exact hquiet rfl (.refl _)
  | addFile data =>
    have he : reportedBy (es ++ [.pollManager (some (.addFile data))]) = reportedBy es := by
      rw [reportedBy_append]
      exact List.append_nil _
    have hout : (l.server.processM2sAddFile data).handedOut = l.server.handedOut := by
      rw [Server.processM2sAddFile_eq, Server.handedOut_send, List.flatMap_eq_nil_iff.2 Server.activation_instances,
        List.append_nil]
      rfl
    rw [hout, he]
    exact h.addFile data
  | addWorkers hs => exact hquiet rfl (.addWorkers hs)
  | terminate hs => exact hquiet rfl (.sendTermination hs)
  | foundSolution _ hs => exact hquiet rfl (.foundSolution hs)
  | disconnect => exact hquiet rfl (.disconnect _ _)
  | @getInstances index requested comm s' _ hs =>
    have he : reportedBy (es ++ [.pollWorkers (some (index, .getInstances requested))]) = reportedBy es := by
      rw [reportedBy_append]
      exact List.append_nil _
    rw [he]
    exact h.getInstances hs
  | doneProcessing _ hs =>
    obtain ⟨t, h1, hf⟩ := h.doneProcessing hok.1 hok.2 hs
    have hq := Server.Quiet.finish hf
    rw [reportedBy_append, hq.handedOut]
    exact h1.quiet hq

theorem Served.scheduling {es : List Event} {l : EventLoop} (h : Served es l) :
    l.server.Scheduling l.server.handedOut (reportedBy es) :=
  h.invariant .start fun _ _ _ _ _ h hok hs => scheduling_step h hok (EventLoop.step_handles hs)

/-! ## Every reachable state -/

/-- The tasks, the queue and the counters of the server fit together, and count what was handed out and
reported. -/
structure Server.SchedulingExact (es : List Event) (s : Server) : Prop where
  queued : ∀ p (t : TaskInfo), s.availableTasks[p]? = some t →
    s.taskOrder.count (UInt32.ofNat p) = if t.isScheduled then 1 else 0
  known : ∀ id ∈ s.taskOrder, id.toNat < s.availableTasks.length
  quota : ∀ t ∈ s.availableTasks, t.metadata.anzahlStartbelegungen ≠ 0 →
    t.statistics.numInstancesStarted.toNat + t.numCurrentlyProcessing.toNat ≤ t.metadata.anzahlStartbelegungen.toNat ∧
      (t.statistics.numInstancesStarted.toNat + t.numCurrentlyProcessing.toNat =
        t.metadata.anzahlStartbelegungen.toNat ↔
        t.isScheduled = false)
  sum : s.numInstancesInProcessing.toNat = (s.availableTasks.map fun t => t.numCurrentlyProcessing.toNat).sum
  outstanding : s.numInstancesInProcessing.toNat + (reportedBy es).length = s.handedOut.length
  started : ∀ p (t : TaskInfo), s.availableTasks[p]? = some t →
    t.statistics.numInstancesStarted.toNat = (reportedBy es).count p
  processing : ∀ p (t : TaskInfo), s.availableTasks[p]? = some t →
    t.numCurrentlyProcessing.toNat + (reportedBy es).count p = s.handedOut.count p

theorem Server.Scheduling.exact {es : List Event} {s : Server} (h : s.Scheduling s.handedOut (reportedBy es))
    (ha : s.Addressable) : s.SchedulingExact es where
  queued p t ht := by
    have hmem := h.mem_taskOrder ha ht
    split
    · rename_i hs
      exact List.count_eq_one_of_mem (h.once ha) (hmem.2 hs)
    · rename_i hs
      exact List.count_eq_zero_of_not_mem fun hm => hs (hmem.1 hm)
  known := h.known
  quota t ht hN := by
    obtain ⟨p, hp⟩ := List.getElem?_of_mem ht
    have hc := h.counts p t hp fun _ => ha
    obtain ⟨hle, hiff⟩ := hc.quota hN
    have := hc.started
    have := hc.processing
    rw [← Bool.not_eq_true, hiff]
    omega
  sum := h.sum_processing ha
  outstanding := h.outstanding ha
  started p t ht := (h.counts p t ht fun _ => ha).started
  processing p t ht := (h.counts p t ht fun _ => ha).processing

/-- A report of an instance that is at a worker passes the assertion about the instances at workers. -/
theorem Server.Scheduling.report_passes {es : List Event} {l : EventLoop} {index : Nat} {info : DoneProcessingInfo}
    (h : l.server.Scheduling l.server.handedOut (reportedBy es)) (ha : l.server.Addressable)
    (hok : ReportsHanded es l (.pollWorkers (some (index, .doneProcessing info)))) :
    l.server.processW2sDoneProcessing info ≠
      .error (.assertion "num_instances_in_processing >= msg.instances_processed") := by
  obtain ⟨hn, hr⟩ := hok
  have hlt : (reportedBy es).length < l.server.handedOut.length := by
    have : (reportedBy es : Multiset Nat) < (l.server.handedOut : Multiset Nat) := by
      refine lt_of_le_of_ne h.reported_le fun he => ?_
      have hc := congrArg (Multiset.count info.taskId.toNat) he
      rw [Multiset.coe_count, Multiset.coe_count] at hc
      omega
    simpa using Multiset.card_lt_card this
  have hle : info.instancesProcessed.toUInt64 ≤ l.server.numInstancesInProcessing := by
    rw [UInt64.le_iff_toNat_le, hn]
    have := h.outstanding ha
    show 1 ≤ _
    omega
  intro he
  rcases Server.processW2sDoneProcessing_error he with he | he | he | he | ⟨-, hlt'⟩
  · cases he
  · exact absurd he (by decide)
  · exact absurd he (by decide)
  · exact absurd he (by decide)
  · exact hlt' hle

/-- The statistics are only sent by a report after which every limited file is finished, unless a
solution was found. -/
theorem Server.Scheduling.report_statistics {es : List Event} {l : EventLoop} {index : Nat} {info : DoneProcessingInfo}
    {s' : Server} (h : l.server.Scheduling l.server.handedOut (reportedBy es)) (ha : l.server.Addressable)
    (hok : ReportsHanded es l (.pollWorkers (some (index, .doneProcessing info))))
    (hd : l.server.processW2sDoneProcessing info = .ok s') (h0 : l.server.statisticSend = false)
    (h1 : s'.statisticSend = true) (hsol : s'.solutionFound = false) :
    ∀ t ∈ s'.availableTasks, t.metadata.anzahlStartbelegungen ≠ 0 →
      t.statistics.numInstancesStarted.toNat = t.metadata.anzahlStartbelegungen.toNat ∧
        t.numCurrentlyProcessing = 0 := by
  obtain ⟨t₀, hb, hf⟩ := h.doneProcessing hok.1 hok.2 hd
  have hfr := Server.finish_frame hf
  rcases Server.finish_ok hf with ⟨⟨hempty, hidle⟩, -⟩ | ⟨-, rfl⟩
  · have hsol' : l.server.solutionFound = false := by rw [hfr] at hsol; exact hsol
    have ho : (l.server.booked info t₀).taskOrder = [] := hempty.resolve_right fun hs => by
      rw [show (l.server.booked info t₀).solutionFound = l.server.solutionFound from rfl, hsol'] at hs
      cases hs
    intro t ht hN
    rw [(Server.Quiet.finish hf).tasks] at ht
    obtain ⟨p, hp⟩ := List.getElem?_of_mem ht
    exact hb.all_done ((Server.addressable_modifyTask ..).2 ha) ho hidle hp hN
  · rw [show (l.server.booked info t₀).statisticSend = l.server.statisticSend from rfl, h0] at h1
    cases h1

/-- In every run in which workers report each handed out instance once, and with at most 2^32 files, the
scheduling is exact, no report fails the assertion about the instances at workers, and the statistics are
sent without a solution only when every limited file is finished. -/
theorem scheduling_in_every_run (es : List Event) (l : EventLoop) (h : Served es l)
    (hfiles : l.server.availableTasks.length ≤ 2 ^ 32) :
    l.server.SchedulingExact es ∧
    (∀ index info, ReportsHanded es l (.pollWorkers (some (index, .doneProcessing info))) →
      l.server.processW2sDoneProcessing info ≠
        .error (.assertion "num_instances_in_processing >= msg.instances_processed")) ∧
    (∀ index info s', ReportsHanded es l (.pollWorkers (some (index, .doneProcessing info))) →
      l.server.processW2sDoneProcessing info = .ok s' → l.server.statisticSend = false → s'.statisticSend = true →
      s'.solutionFound = false → ∀ t ∈ s'.availableTasks, t.metadata.anzahlStartbelegungen ≠ 0 →
        t.statistics.numInstancesStarted.toNat = t.metadata.anzahlStartbelegungen.toNat ∧
          t.numCurrentlyProcessing = 0) := by
  have hs := h.scheduling
  refine ⟨hs.exact hfiles, ?_, ?_⟩
  · rintro index info hok
    exact hs.report_passes hfiles hok
  · rintro index info s' hok hd h0 h1 hsol
    exact hs.report_statistics hfiles hok hd h0 h1 hsol

/-- A worker joins, a file with one initial assignment is added, handed out and reported. -/
def oneFileRun : List Event :=
  [.pollWorkers none, .pollManager (some (.addWorkers 1)),
    .pollWorkers none, .pollManager (some (.addFile ⟨1, 0, ""⟩)),
    .pollWorkers (some (0, .getInstances 2)), .pollManager none,
    .pollWorkers (some (0, .doneProcessing { taskId := 0, instancesProcessed := 1 }))]

theorem scheduling_in_oneFileRun : ∃ l, replay EventLoop.step ReportsHanded [] {} oneFileRun = some l ∧
    l.server.statisticSend = true ∧ l.server.SchedulingExact oneFileRun := by
  have hrun : (replay EventLoop.step ReportsHanded [] {} oneFileRun).map (fun l =>
      (l.server.statisticSend, l.server.availableTasks.length)) = some (true, 1) := by decide +kernel
  obtain ⟨l, hl, he⟩ := Option.map_eq_some_iff.1 hrun
  obtain ⟨hstat, hlen⟩ := Prod.mk.inj he
  exact ⟨l, hl, hstat, (scheduling_in_every_run oneFileRun l (.of_replay hl) (by rw [hlen]; decide)).1⟩

/-! ## More files than ids -/

/-- `n` files with one initial assignment each are added, before any worker joins. -/
def addFiles : Nat → List Event
  | 0 => []
  | n + 1 => addFiles n ++ [.pollWorkers none] ++ [.pollManager (some (.addFile ⟨1, 0, ""⟩))]

theorem served_addFiles : ∀ n, Served (addFiles n) { server := {
    availableTasks := List.replicate n (.new ⟨1, 0, ""⟩)
    taskOrder := ((List.range n).map UInt32.ofNat).reverse } }
  | 0 => .start
  | n + 1 => by
    refine ((served_addFiles n).snoc (by trivial) (by rfl)).snoc (by trivial) ?_
    simp [EventLoop.step, Server.processManagerCmd, Server.processM2sAddFile, Except.toOption, List.range_succ,
      List.replicate_succ']

/-- With one more file than there are ids, id 0 is in the queue twice. -/
theorem scheduling_not_in_every_run : ∃ l, Served (addFiles (2 ^ 32 + 1)) l ∧
    ¬ l.server.SchedulingExact (addFiles (2 ^ 32 + 1)) := by
  obtain ⟨m, hm⟩ : ∃ m, m = 2 ^ 32 := ⟨_, rfl⟩
  rw [← hm]
  refine ⟨_, served_addFiles (m + 1), fun h => ?_⟩
  have hq := h.queued 0 (.new ⟨1, 0, ""⟩) (by simp)
  have hlast : UInt32.ofNat m = 0 := by rw [hm]; rfl
  have hfirst : 0 < ((List.range m).map UInt32.ofNat).count 0 := by
    refine List.count_pos_iff.2 (List.mem_map.2 ⟨0, List.mem_range.2 (by omega), rfl⟩)
  rw [List.count_reverse, List.range_succ, List.map_append, List.count_append, List.map_singleton, hlast] at hq
  have h1 : List.count (0 : UInt32) [0] = 1 := rfl
  have h2 : (if (TaskInfo.new ⟨1, 0, ""⟩).isScheduled = true then 1 else 0) = 1 := rfl
  rw [h2] at hq
  have hq : List.count (0 : UInt32) ((List.range m).map UInt32.ofNat) + List.count (0 : UInt32) [0] = 1 := hq
  omega

end ParallelProbsat.Communication
