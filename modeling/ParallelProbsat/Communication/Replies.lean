/-
The replies to `GET_INSTANCES`. In a state that fits a ledger of the instances handed out and reported
(`Scheduling`) every round of the loop hands out as many instances of the task at the front as are
requested and left to start, so the loop serves the queue in turn (`allot`), the demand of a task being
what its quota leaves. It ends in any state, since a round that takes nothing fails an assertion.
-/
import ParallelProbsat.Lib.Allotment
import ParallelProbsat.Lib.While
import ParallelProbsat.Communication.Scheduling

namespace ParallelProbsat.Communication

open ParallelProbsat.Lib ParallelProbsat.Util

/-! ## The loop -/

/-- The variables of the loop of `GET_INSTANCES`. -/
structure Assigning where
  server : Server
  requested : UInt32
  reply : List Job := []

namespace Assigning

/-- The condition of the loop, and the `break` its body begins with. -/
def goesOn (a : Assigning) : Bool := decide (0 < a.requested) && !a.server.taskOrder.isEmpty

def round (a : Assigning) : Except Exn Assigning :=
  match a.server.taskOrder with
  | [] => .ok a
  | taskId :: _ =>
    match a.server.availableTasks[taskId.toNat]? with
    | none => .error (.outOfRange "available_tasks[task_id]")
    | some t => do
      let (s, requested, j) ← a.server.assignFront a.requested taskId t
      pure ⟨s, requested, a.reply ++ [j]⟩

theorem goesOn_eq_false {a : Assigning} : a.goesOn = false ↔ a.requested = 0 ∨ a.server.taskOrder = [] := by
  unfold goesOn
  rw [Bool.and_eq_false_iff, decide_eq_false_iff_not, Bool.not_eq_false', List.isEmpty_iff, UInt32.lt_iff_toNat_lt,
    ← UInt32.toNat_inj]
  show ¬ 0 < _ ∨ _ ↔ _ = 0 ∨ _
  rw [Nat.pos_iff_ne_zero, not_not]

/-- The loop ends in any state, after at most as many rounds as instances are requested. -/
theorem whileLoop_eq : ∀ {fuel : Nat} {a : Assigning}, a.requested.toNat ≤ fuel →
    ∃ r, whileLoop goesOn round fuel a = some r ∧
      r.map (fun a => (a.server, a.reply)) = Server.assignLoop fuel a.requested a.reply a.server
  | 0, a, h => by
    have hg : a.goesOn = false := goesOn_eq_false.2 (.inl (UInt32.toNat_inj.1 (Nat.le_zero.1 h)))
    exact ⟨_, whileLoop_exit hg 0, rfl⟩
  | fuel + 1, a, h => by
    unfold Server.assignLoop
    by_cases h0 : a.requested = 0
    · rw [if_pos h0]
      exact ⟨_, whileLoop_exit (goesOn_eq_false.2 (.inl h0)) _, rfl⟩
    · rw [if_neg h0]
      cases ho : a.server.taskOrder with
      | nil => exact ⟨_, whileLoop_exit (goesOn_eq_false.2 (.inr ho)) _, rfl⟩
      | cons taskId rest =>
        have hg : a.goesOn = true := by
          rw [← Bool.not_eq_false, goesOn_eq_false, ho]
          simp [h0]
        cases ht : a.server.availableTasks[taskId.toNat]? with
        | none =>
          have hround : a.round = .error (.outOfRange "available_tasks[task_id]") := by simp only [round, ho, ht]
          refine ⟨_, whileLoop_throw hg hround fuel, ?_⟩
          simp only [ht]
          rfl
        | some t =>
          cases hf : a.server.assignFront a.requested taskId t with
          | error e =>
            have hround : a.round = .error e := by
              simp only [round, ho, ht, hf]
              rfl
            refine ⟨_, whileLoop_throw hg hround fuel, ?_⟩
            simp only [ht, hf]
            rfl
          | ok r =>
            obtain ⟨s', requested', j⟩ := r
            obtain ⟨k, -, hk, hr, -, -⟩ := Server.assignFront_ok hf
            have hk0 : k.toNat ≠ 0 := fun hz => hk (UInt32.toNat_inj.1 hz)
            have hround : a.round = .ok ⟨s', requested', a.reply ++ [j]⟩ := by
              simp only [round, ho, ht, hf]
              rfl
            have hfuel : requested'.toNat ≤ fuel := by omega
            obtain ⟨r, hr, he⟩ := whileLoop_eq (a := ⟨s', requested', a.reply ++ [j]⟩) hfuel
            refine ⟨r, (whileLoop_round hg hround fuel).trans hr, ?_⟩
            rw [he]
            simp only [ht, hf]
            rfl

end Assigning

/-! ## What is left of a task -/

/-- `N - started - processing`; a task without a quota never runs out. -/
noncomputable def TaskInfo.left (t : TaskInfo) : ℕ∞ :=
  if t.metadata.anzahlStartbelegungen = 0 then ⊤
  else ((t.metadata.anzahlStartbelegungen.toNat - t.statistics.numInstancesStarted.toNat -
    t.numCurrentlyProcessing.toNat : ℕ) : ℕ∞)

namespace TaskInfo

variable {t : TaskInfo} {h r : Nat}

theorem Counts.left_eq (hc : t.Counts h r) (h0 : t.metadata.anzahlStartbelegungen ≠ 0) :
    t.left = ((t.metadata.anzahlStartbelegungen.toNat - h : ℕ) : ℕ∞) := by
  unfold left
  have := hc.started
  have := hc.processing
  rw [if_neg h0]
  congr 1
  omega

theorem Counts.left_ne_zero (hc : t.Counts h r) (hs : t.isScheduled = true) : t.left ≠ 0 := by
  by_cases h0 : t.metadata.anzahlStartbelegungen = 0
  · unfold left
    rw [if_pos h0]
    exact ENat.top_ne_zero
  · have := (hc.quota h0).2.1 hs
    rw [hc.left_eq h0, ne_eq, Nat.cast_eq_zero]
    omega

/-- `instances_to_start` is what the task gets of the instances requested. -/
theorem Counts.toStart (hc : t.Counts h r) (requested : UInt32) :
    (min requested (t.available requested)).toNat = share requested.toNat t.left := by
  rw [UInt32.toNat_min]
  by_cases h0 : t.metadata.anzahlStartbelegungen = 0
  · have hav : t.available requested = requested := if_pos h0
    have hleft : t.left = ⊤ := if_pos h0
    rw [hav, hleft, share_top, min_self]
  · rw [hc.available h0, hc.left_eq h0, share_coe]

end TaskInfo

namespace Server

variable {s s' : Server} {H R : List Nat}

/-- What is left of the task with an id. -/
noncomputable def left (s : Server) (id : UInt32) : ℕ∞ := s.availableTasks[id.toNat]?.elim 0 TaskInfo.left

theorem left_eq {id : UInt32} {t : TaskInfo} (h : s.availableTasks[id.toNat]? = some t) : s.left id = t.left := by
  unfold left
  rw [h]
  rfl

theorem Scheduling.left_ne_zero (h : s.Scheduling H R) (ha : s.Addressable) {id : UInt32} (hid : id ∈ s.taskOrder) :
    s.left id ≠ 0 := by
  have ht := List.getElem?_eq_getElem (h.known id hid)
  rw [left_eq ht]
  exact (h.counts _ _ ht fun _ => ha).left_ne_zero ((h.scheduled ha _ _ ht).2 ⟨id, hid, rfl⟩)

/-- The ids in the queue are those of the scheduled tasks. -/
theorem Scheduling.queue_perm (h : s.Scheduling H R) (ha : s.Addressable) : (s.taskOrder.map UInt32.toNat).Perm
    ((List.range s.availableTasks.length).filter fun p => s.availableTasks[p]?.any TaskInfo.isScheduled) := by
  apply (List.perm_ext_iff_of_nodup ?_ (List.nodup_range.filter _)).2
  · intro p
    rw [List.mem_filter, List.mem_range, List.mem_map]
    constructor
    · rintro ⟨id, hid, rfl⟩
      have hlt := h.known id hid
      refine ⟨hlt, ?_⟩
      rw [List.getElem?_eq_getElem hlt, Option.any_some]
      exact (h.scheduled ha _ _ (List.getElem?_eq_getElem hlt)).2 ⟨id, hid, rfl⟩
    · rintro ⟨hlt, hs⟩
      rw [List.getElem?_eq_getElem hlt, Option.any_some] at hs
      exact (h.scheduled ha _ _ (List.getElem?_eq_getElem hlt)).1 hs
  · exact (h.once ha).map fun _ _ => UInt32.toNat_inj.1

theorem Scheduling.sum_left (h : s.Scheduling H R) (ha : s.Addressable) :
    (s.taskOrder.map s.left).sum = ((s.availableTasks.filter (·.isScheduled)).map TaskInfo.left).sum := by
  rw [← map_filter_range (fun t : TaskInfo => t.isScheduled) TaskInfo.left 0, ← ((h.queue_perm ha).map _).sum_eq,
    List.map_map]
  rfl

/-! ## The loop serves the queue -/

theorem assignFront_exists (s : Server) (taskId : UInt32) {requested : UInt32} {t : TaskInfo}
    (h : min requested (t.available requested) ≠ 0) :
    ∃ s' requested' j, s.assignFront requested taskId t = .ok (s', requested', j) := by
  have hle : min requested (t.available requested) ≤ requested := by
    rw [UInt32.le_iff_toNat_le, UInt32.toNat_min]
    exact Nat.min_le_left _ _
  unfold assignFront
  simp only [if_neg h, if_pos hle]
  exact ⟨_, _, _, rfl⟩

/-- One round: the task at the front gets its share, and leaves the queue if anything is requested
after that; what is left of the other tasks stays the same. -/
theorem Scheduling.front_allots (h : s.Scheduling H R) (ha : s.Addressable) {requested taskId : UInt32}
    {rest : List UInt32} {t : TaskInfo} (h0 : requested ≠ 0) (ho : s.taskOrder = taskId :: rest)
    (ht : s.availableTasks[taskId.toNat]? = some t) :
    ∃ s' requested' j, s.assignFront requested taskId t = .ok (s', requested', j) ∧
      j.taskId = taskId ∧ j.numInstancesToStart.toNat = share requested.toNat (s.left taskId) ∧
      requested'.toNat = requested.toNat - share requested.toNat (s.left taskId) ∧
      (requested' ≠ 0 → s'.taskOrder = rest) ∧ (∀ id ∈ rest, s'.left id = s.left id) := by
  have hc := h.counts _ t ht fun _ => ha
  have hshare := hc.toStart requested
  have hleft := left_eq ht
  have hmem : taskId ∈ s.taskOrder := ho ▸ List.mem_cons_self
  have hpos : min requested (t.available requested) ≠ 0 := by
    intro hz
    rw [hz] at hshare
    have hmin : (share requested.toNat t.left : ℕ∞) = 0 := by rw [← hshare]; rfl
    rw [coe_share] at hmin
    rcases min_eq_bot.1 hmin with hr | hl
    · exact h0 (UInt32.toNat_inj.1 (Nat.cast_eq_zero.1 hr))
    · exact h.left_ne_zero ha hmem (hleft.trans hl)
  obtain ⟨s', requested', j, hf⟩ := assignFront_exists s taskId hpos
  obtain ⟨k, hk, -, hr, rfl, rfl⟩ := assignFront_ok hf
  rw [← hk] at hshare
  refine ⟨_, _, _, hf, rfl, ?_, ?_, ?_, ?_⟩
  · rw [hleft]
    exact hshare
  · rw [hleft, ← hshare]
    omega
  · intro hne
    have hlt : k.toNat < requested.toNat := by
      have : requested'.toNat ≠ 0 := fun hz => hne (UInt32.toNat_inj.1 hz)
      omega
    have hkn : k.toNat = min requested.toNat (t.available requested).toNat := by rw [hk, UInt32.toNat_min]
    have hlast : t.available requested ≤ k := UInt32.le_iff_toNat_le.2 (by omega)
    simp only [hlast, if_true, ho, List.tail_cons]
  · intro id hid
    have hne : taskId.toNat ≠ id.toNat := by
      intro he
      have hnd := h.once ha
      rw [ho, List.nodup_cons, UInt32.toNat_inj.1 he] at hnd
      exact hnd.1 hid
    unfold left
    show (s.availableTasks.modify taskId.toNat _)[id.toNat]?.elim 0 _ = _
    rw [List.getElem?_modify_ne _ _ hne]

/-- The task and the number of instances of each job. -/
def entries (reply : List Job) : List (UInt32 × Nat) := reply.map fun j => (j.taskId, j.numInstancesToStart.toNat)

theorem Scheduling.assignLoop_allots : ∀ {rounds : Nat} {requested : UInt32} (reply : List Job) {H : List Nat}
    {s : Server}, requested.toNat ≤ rounds → s.Scheduling H R → s.Addressable →
      ∃ s' jobs, assignLoop rounds requested reply s = .ok (s', reply ++ jobs) ∧
        entries jobs = allot s.left requested.toNat s.taskOrder
  | 0, requested, reply, H, s, hr, _, _ => by
    refine ⟨s, [], by rw [List.append_nil]; rfl, ?_⟩
    rw [Nat.le_zero.1 hr, allot_zero]
    rfl
  | rounds + 1, requested, reply, H, s, hr, h, ha => by
    unfold assignLoop
    by_cases h0 : requested = 0
    · refine ⟨s, [], by rw [if_pos h0, List.append_nil], ?_⟩
      rw [h0]
      exact (allot_zero _).symm
    · have hr0 : requested.toNat ≠ 0 := fun hz => h0 (UInt32.toNat_inj.1 hz)
      rw [if_neg h0]
      cases ho : s.taskOrder with
      | nil => exact ⟨s, [], by rw [List.append_nil], rfl⟩
      | cons taskId rest =>
        have ht := List.getElem?_eq_getElem (h.known taskId (ho ▸ List.mem_cons_self))
        obtain ⟨s₁, requested₁, j, hf, hid, hn, hreq, hrest, hleft⟩ := h.front_allots ha h0 ho ht
        obtain ⟨k, -, hk, hk', -, hs₁⟩ := assignFront_ok hf
        have hk0 : k.toNat ≠ 0 := fun hz => hk (UInt32.toNat_inj.1 hz)
        have ha₁ : s₁.Addressable := by
          rw [hs₁]
          exact (addressable_modifyTask ..).2 ha
        have hrounds : requested₁.toNat ≤ rounds := by omega
        obtain ⟨s', jobs, hloop, he⟩ := assignLoop_allots (reply ++ [j]) hrounds (h.assignFront ho ht hf) ha₁
        simp only [ht, hf]
        refine ⟨s', j :: jobs, ?_, ?_⟩
        · rw [List.append_cons]
          exact hloop
        · rw [allot_cons hr0, ← hreq, ← hn, ← hid]
          show _ :: entries jobs = _
          rw [he]
          congr 1
          -- either nothing is requested any more, or the loop goes on with the rest of the queue
          by_cases hz : requested₁ = 0
          · rw [hz]
            exact (allot_zero _).trans (allot_zero _).symm
          · rw [hrest hz]
            exact allot_congr hleft

/-- The loop takes tasks from the front of the queue, and changes nothing of a task but how many of its
instances are at workers and whether it is scheduled. -/
theorem assignLoop_kept {rounds : Nat} {requested : UInt32} {reply : List Job}
    (h : assignLoop rounds requested [] s = .ok (s', reply)) :
    s'.taskOrder <:+ s.taskOrder ∧
    (∀ (p : Nat) (t' : TaskInfo), s'.availableTasks[p]? = some t' → ∃ t : TaskInfo, s.availableTasks[p]? = some t ∧
      t'.metadata = t.metadata ∧ t'.statistics = t.statistics) ∧
    ∀ j ∈ reply, ∃ t, s.availableTasks[j.taskId.toNat]? = some t ∧ j.metadata = t.metadata := by
  refine assignLoop_rule (P := fun s' reply => s'.taskOrder <:+ s.taskOrder ∧
    (∀ (p : Nat) (t' : TaskInfo), s'.availableTasks[p]? = some t' → ∃ t : TaskInfo, s.availableTasks[p]? = some t ∧
      t'.metadata = t.metadata ∧ t'.statistics = t.statistics) ∧
    ∀ j ∈ reply, ∃ t, s.availableTasks[j.taskId.toNat]? = some t ∧ j.metadata = t.metadata) ?_ h ?_
  · rintro s₁ reply requested taskId rest t s₂ requested' j ⟨hsuf, htasks, hjobs⟩ - ht ha
    obtain ⟨k, -, -, -, rfl, rfl⟩ := assignFront_ok ha
    refine ⟨?_, ?_, ?_⟩
    · simp only
      split
      · exact (List.tail_suffix _).trans hsuf
      · exact hsuf
    · intro p t' hp
      rcases getElem?_modifyTask ht hp with ⟨rfl, rfl⟩ | ⟨-, hp⟩
      · exact htasks _ t ht
      · exact htasks p t' hp
    · intro j hj
      rcases List.mem_append.1 hj with hj | hj
      · exact hjobs j hj
      · rw [List.mem_singleton.1 hj]
        obtain ⟨t₀, h₀, hm, -⟩ := htasks _ t ht
        exact ⟨t₀, h₀, hm⟩
  · refine ⟨List.suffix_refl _, fun p t' hp => ⟨t', hp, rfl, rfl⟩, ?_⟩
    intro j hj
    cases hj

/-! ## Exact replies -/

/-- The reply to a request in the state `s`, and the state `s'` after it. -/
structure ReplyExact (s : Server) (requested : UInt32) (s' : Server) (reply : List Job) : Prop where
  order : reply.map Job.taskId <+: s.taskOrder
  distinct : (reply.map Job.taskId).Nodup
  positive : ∀ j ∈ reply, 0 < j.numInstancesToStart
  file : ∀ j ∈ reply, ∃ t, s.availableTasks[j.taskId.toNat]? = some t ∧ j.metadata = t.metadata
  /-- A task is handed out completely before the next one is touched. -/
  complete : ∀ pre j post, reply = pre ++ j :: post → post ≠ [] → (j.numInstancesToStart.toNat : ℕ∞) = s.left j.taskId
  total : (((reply.map fun j => j.numInstancesToStart.toNat).sum : ℕ) : ℕ∞) =
    min (requested.toNat : ℕ∞) ((s.availableTasks.filter (·.isScheduled)).map TaskInfo.left).sum
  /-- A task without a quota takes all that is left of the request. -/
  unlimited : ∀ pre j post, reply = pre ++ j :: post → j.metadata.anzahlStartbelegungen = 0 →
    (pre.map fun j => j.numInstancesToStart.toNat).sum + j.numInstancesToStart.toNat = requested.toNat
  kept : s'.taskOrder <:+ s.taskOrder
  stays : ∀ p (t : TaskInfo), s'.availableTasks[p]? = some t → t.metadata.anzahlStartbelegungen ≠ 0 →
    (UInt32.ofNat p ∈ s'.taskOrder ↔ t.statistics.numInstancesStarted.toNat + t.numCurrentlyProcessing.toNat <
      t.metadata.anzahlStartbelegungen.toNat)
  leaves : ∀ j ∈ reply, j.metadata.anzahlStartbelegungen = 0 → j.taskId ∉ s'.taskOrder
  processing : ∀ p (t' : TaskInfo), s'.availableTasks[p]? = some t' → ∃ t : TaskInfo, s.availableTasks[p]? = some t ∧
    t'.metadata = t.metadata ∧ t'.statistics = t.statistics ∧
    t'.numCurrentlyProcessing.toNat = t.numCurrentlyProcessing.toNat + (reply.flatMap Job.instances).count p

theorem entries_split {reply pre post : List Job} {j : Job} (h : reply = pre ++ j :: post) :
    entries reply = entries pre ++ (j.taskId, j.numInstancesToStart.toNat) :: entries post := by
  rw [h]
  unfold entries
  rw [List.map_append, List.map_cons]

theorem sum_entries (reply : List Job) :
    ((entries reply).map Prod.snd).sum = (reply.map fun j => j.numInstancesToStart.toNat).sum := by
  unfold entries
  rw [List.map_map]
  rfl

theorem Scheduling.reply_exact (h : s.Scheduling H R) (ha : s.Addressable) (requested : UInt32) :
    ∃ s' reply, assignLoop requested.toNat requested [] s = .ok (s', reply) ∧ s.ReplyExact requested s' reply := by
  obtain ⟨s', reply, hl, he⟩ := Scheduling.assignLoop_allots [] le_rfl h ha
  rw [List.nil_append] at hl
  refine ⟨s', reply, hl, ?_⟩
  obtain ⟨hsuf, htasks, hjobs⟩ := assignLoop_kept hl
  -- the ledger after the reply
  have h' := h.replied hl
  have ha' : s'.Addressable := by
    unfold Addressable
    rw [(assignLoop_frame hl).2]
    exact ha
  have hpos : ∀ j ∈ reply, 0 < j.numInstancesToStart.toNat := by
    intro j hj
    have hm : (j.taskId, j.numInstancesToStart.toNat) ∈ entries reply := List.mem_map_of_mem hj
    rw [he] at hm
    exact allot_pos (fun id hid => h.left_ne_zero ha hid) _ hm
  have hprefix : reply.map Job.taskId <+: s.taskOrder := by
    have := allot_order s.left requested.toNat s.taskOrder
    rwa [← he, entries, List.map_map] at this
  constructor
  · exact hprefix
  · exact hprefix.sublist.nodup (h.once ha)
  · intro j hj
    exact UInt32.lt_iff_toNat_lt.2 (hpos j hj)
  · exact hjobs
  · intro pre j post hr hpost
    rw [entries_split hr] at he
    exact allot_full he.symm (by simpa [entries] using hpost)
  · rw [← h.sum_left ha, ← allot_sum, ← he, sum_entries]
  · intro pre j post hr hN
    rw [entries_split hr] at he
    obtain ⟨t, ht, hm⟩ := hjobs j (by rw [hr]; simp)
    have htop : s.left j.taskId = ⊤ := by
      rw [left_eq ht]
      exact if_pos (hm ▸ hN)
    rw [← (allot_top he.symm htop).2, sum_entries]
  · exact hsuf
  · intro p t ht hN
    have hc := h'.counts p t ht fun _ => ha'
    have := hc.started
    have := hc.processing
    rw [h'.mem_taskOrder ha' ht, (hc.quota hN).2]
    omega
  · intro j hj hN hmem
    -- it has been handed out, so it is not scheduled any more
    obtain ⟨t', ht'⟩ : ∃ t', s'.availableTasks[j.taskId.toNat]? = some t' :=
      ⟨_, List.getElem?_eq_getElem (h'.known j.taskId hmem)⟩
    obtain ⟨t, ht, hm', -⟩ := htasks _ _ ht'
    obtain ⟨t₀, ht₀, hm⟩ := hjobs j hj
    have hN' : t'.metadata.anzahlStartbelegungen = 0 := by
      rw [hm', ← Option.some.inj (ht₀.symm.trans ht), ← hm]
      exact hN
    have hzero := ((h'.counts _ t' ht' fun _ => ha').unlimited hN').2 ((h'.scheduled ha' _ _ ht').2 ⟨_, hmem, rfl⟩)
    have hin : j.taskId.toNat ∈ reply.flatMap Job.instances :=
      List.mem_flatMap.2 ⟨j, hj, List.mem_replicate.2 ⟨(hpos j hj).ne', rfl⟩⟩
    have := List.count_pos_iff.2 hin
    rw [List.count_append] at hzero
    omega
  · intro p t' ht'
    obtain ⟨t, ht, hm, hst⟩ := htasks p t' ht'
    have hc := (h.counts p t ht fun _ => ha).processing
    have hc' := (h'.counts p t' ht' fun _ => ha').processing
    rw [List.count_append] at hc'
    exact ⟨t, ht, hm, hst, by omega⟩

/-- A reply that the loop gives is the reply of the handler. -/
theorem processW2sGetInstances_eq (requested : UInt32) {reply : List Job} (hs : s.solutionFound = false)
    (h : assignLoop requested.toNat requested [] s = .ok (s', reply)) (comm : Comm) :
    s.processW2sGetInstances comm requested = .ok (s'.send [(comm, .sendInstances reply)]) := by
  unfold processW2sGetInstances assignInstances
  rw [if_pos hs, h]
  rfl

theorem processW2sGetInstances_solved (hs : s.solutionFound = true) (comm : Comm) (requested : UInt32) :
    s.processW2sGetInstances comm requested = .ok (s.send [(comm, .sendInstances [])]) := by
  unfold processW2sGetInstances assignInstances
  rw [if_neg (by simp [hs])]
  rfl

end Server

/-! ## Every reachable state -/

/-- In every run in which workers report each handed out instance once, and with at most 2^32 files: until
a solution is found the loop of `GET_INSTANCES` ends without a failed assertion and the reply is exact;
afterwards the reply is empty and nothing else changes. -/
theorem replies_in_every_run (es : List Event) (l : EventLoop) (h : Served es l)
    (hfiles : l.server.availableTasks.length ≤ 2 ^ 32) (comm : Comm) (requested : UInt32) :
    (l.server.solutionFound = false → ∃ s' reply,
      (∃ fuel requested', whileLoop Assigning.goesOn Assigning.round fuel ⟨l.server, requested, []⟩ =
        some (.ok ⟨s', requested', reply⟩)) ∧
      l.server.processW2sGetInstances comm requested = .ok (s'.send [(comm, .sendInstances reply)]) ∧
      l.server.ReplyExact requested s' reply) ∧
    (l.server.solutionFound = true →
      l.server.processW2sGetInstances comm requested = .ok (l.server.send [(comm, .sendInstances [])])) := by
  constructor
  · intro hs
    obtain ⟨s', reply, hl, hexact⟩ := h.scheduling.reply_exact hfiles requested
    refine ⟨s', reply, ?_, Server.processW2sGetInstances_eq requested hs hl comm, hexact⟩
    obtain ⟨r, hr, he⟩ := Assigning.whileLoop_eq (a := ⟨l.server, requested, []⟩) le_rfl
    rw [hl] at he
    cases r with
    | error e => cases he
    | ok a =>
      obtain ⟨rfl, rfl⟩ := Prod.mk.inj (Except.ok.inj he)
      exact ⟨_, a.requested, hr⟩
  · intro hs
    exact Server.processW2sGetInstances_solved hs comm requested

/-- A worker joins; a file without a quota and one with two initial assignments are added. -/
def twoFilesRun : List Event :=
  [.pollWorkers none, .pollManager (some (.addWorkers 1)),
    .pollWorkers none, .pollManager (some (.addFile ⟨0, 0, "a.cnf"⟩)),
    .pollWorkers none, .pollManager (some (.addFile ⟨2, 0, "b.cnf"⟩))]

/-- Of five instances the limited file gets its two, the other one the rest. -/
theorem replies_in_twoFilesRun : ∃ l s', replay EventLoop.step ReportsHanded [] {} twoFilesRun = some l ∧
    l.server.ReplyExact 5 s' [⟨⟨2, 0, "b.cnf"⟩, 2, 1⟩, ⟨⟨0, 0, "a.cnf"⟩, 3, 0⟩] := by
  have hrun : (replay EventLoop.step ReportsHanded [] {} twoFilesRun).map (fun l =>
      (l.server.solutionFound, l.server.availableTasks.length,
        (l.server.processW2sGetInstances 0 5).toOption.bind fun s => s.toWorkers.getLast?)) =
      some (false, 2, some (0, .sendInstances [⟨⟨2, 0, "b.cnf"⟩, 2, 1⟩, ⟨⟨0, 0, "a.cnf"⟩, 3, 0⟩])) := by decide +kernel
  obtain ⟨l, hl, he⟩ := Option.map_eq_some_iff.1 hrun
  obtain ⟨hs, he⟩ := Prod.mk.inj he
  obtain ⟨hlen, hsent⟩ := Prod.mk.inj he
  obtain ⟨s', reply, -, hg, hexact⟩ :=
    (replies_in_every_run twoFilesRun l (.of_replay hl) (by rw [hlen]; decide) 0 5).1 hs
  rw [hg] at hsent
  have hlast : some (0, S2W.sendInstances reply) = _ := List.getLast?_concat.symm.trans hsent
  obtain rfl := S2W.sendInstances.inj (Prod.mk.inj (Option.some.inj hlast)).2
  exact ⟨l, s', hl, hexact⟩

/-! ## More files than ids -/

namespace Server

/-- A request of one instance, when one is left of the task at the front. -/
theorem assignLoop_one {s : Server} {taskId : UInt32} {rest : List UInt32} {t : TaskInfo}
    (ho : s.taskOrder = taskId :: rest) (ht : s.availableTasks[taskId.toNat]? = some t) (hav : t.available 1 = 1) :
    ∃ s', assignLoop 1 1 [] s = .ok (s', [⟨t.metadata, 1, taskId⟩]) ∧ s'.taskOrder = rest ∧
      s'.availableTasks = s.availableTasks.modify taskId.toNat fun t => t.assign 1 true := by
  have hpos : min 1 (t.available 1) ≠ 0 := by
    rw [hav]
    decide
  obtain ⟨s', requested', j, hf⟩ := assignFront_exists s taskId hpos
  obtain ⟨k, hk, -, hr, rfl, hs'⟩ := assignFront_ok hf
  obtain rfl : k = 1 := by
    rw [hk, hav]
    rfl
  refine ⟨s', ?_, ?_, ?_⟩
  · unfold assignLoop
    rw [if_neg (by decide)]
    simp only [ho, ht, hf]
    rfl
  · simp [hs', hav, ho]
  · simp [hs', hav, modifyTask]

/-- Id 0 stands for two of 2^32 + 1 files; after one of its instances is handed out it still waits in the
queue, with nothing left to start. -/
theorem reply_not_exact {m : Nat} (hm : m = 2 ^ 32) {s s' : Server} {reply : List Job} (hs : s.solutionFound = false)
    (htasks : s.availableTasks = List.replicate (m + 1) (.new ⟨1, 0, ""⟩))
    (ho : s.taskOrder = ((List.range (m + 1)).map UInt32.ofNat).reverse)
    (hg : s.processW2sGetInstances 0 1 = .ok (s'.send [(0, .sendInstances reply)])) : ¬ s.ReplyExact 1 s' reply := by
  intro hexact
  have hlast : UInt32.ofNat m = 0 := by rw [hm]; rfl
  have ho' : s.taskOrder = 0 :: ((List.range m).map UInt32.ofNat).reverse := by
    rw [ho, List.range_succ, List.map_append, List.map_singleton, List.reverse_append, hlast]
    rfl
  have ht : s.availableTasks[(0 : UInt32).toNat]? = some (.new ⟨1, 0, ""⟩) := by
    rw [htasks]
    simp
  obtain ⟨s₁, hl, ho₁, ht₁⟩ := assignLoop_one ho' ht (by decide)
  have heq := Except.ok.inj ((processW2sGetInstances_eq 1 hs hl 0).symm.trans hg)
  have horder : s'.taskOrder = s₁.taskOrder := (congrArg taskOrder heq).symm
  have havail : s'.availableTasks = s₁.availableTasks := (congrArg availableTasks heq).symm
  have hget : s'.availableTasks[0]? = some ((TaskInfo.new ⟨1, 0, ""⟩).assign 1 true) := by
    rw [havail, ht₁]
    exact getElem?_modify_of_eq _ ht
  have hmem : UInt32.ofNat 0 ∈ s'.taskOrder := by
    rw [horder, ho₁]
    exact List.mem_reverse.2 (List.mem_map_of_mem (List.mem_range.2 (by omega)))
  have := (hexact.stays 0 _ hget (by decide)).1 hmem
  exact absurd this (by decide)

end Server

/-- With one more file than there are ids, a worker asks for one instance. -/
theorem replies_not_in_every_run : ∃ es l, Served es l ∧ l.server.solutionFound = false ∧ l.server.workUnits = [0] ∧
    ¬ ∃ s' reply, l.server.processW2sGetInstances 0 1 = .ok (s'.send [(0, .sendInstances reply)]) ∧
      l.server.ReplyExact 1 s' reply := by
  obtain ⟨m, hm⟩ : ∃ m, m = 2 ^ 32 := ⟨_, rfl⟩
  have hpoll := (served_addFiles (m + 1)).snoc (e := .pollWorkers none) (by trivial) (by rfl)
  have hrun := hpoll.snoc (e := .pollManager (some (.addWorkers 1))) (by trivial) (by rfl)
  refine ⟨_, _, hrun, rfl, rfl, ?_⟩
  rintro ⟨s', reply, hg, hexact⟩
  exact Server.reply_not_exact hm rfl rfl rfl hg hexact

end ParallelProbsat.Communication
