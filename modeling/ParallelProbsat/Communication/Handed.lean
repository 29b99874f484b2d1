/-
The workers keep to what is assumed of them in the runs of the server (`ReportsHanded`): whatever the
processes do, a report is about one instance that was handed out and not reported before. So what holds in every
`Served` run holds of the server in every run of the whole system.
-/
import ParallelProbsat.Communication.Scheduling
import ParallelProbsat.Communication.Shutdown

namespace ParallelProbsat.Communication

open ParallelProbsat.Lib

/-! ## The data of the tasks at a worker -/

/-- The task a thread has taken. -/
def Thread.inHand : Thread → Option Task
  | .holding t | .executing t | .executed t => some t
  | _ => none

namespace Worker

/-- `P` holds of the data of every task at the worker; what it reports are the data of an executed one. -/
structure Carries (P : DoneProcessingInfo → Prop) (w : Worker) : Prop where
  tasks : ∀ t ∈ w.tasks, P t.dpi
  threads : ∀ u ∈ w.threads, ∀ t, u.inHand = some t → P t.dpi
  tasksDone : ∀ t ∈ w.tasksDone, P t.dpi
  outbox : ∀ info, .doneProcessing info ∈ w.outbox → P info ∧ info.instancesProcessed ≠ 0

variable {P : DoneProcessingInfo → Prop} {w w' : Worker}

theorem Carries.start (n : UInt32) : Carries P { numWorkers := n } where
  tasks t h := by cases h
  threads u h := by cases h
  tasksDone t h := by cases h
  outbox info h := by cases h

/-- Messages may arrive, and the point and the counters do not matter. -/
theorem Carries.of_eq (h : w.Carries P) (htasks : w'.tasks = w.tasks) (hthreads : w'.threads = w.threads)
    (hdone : w'.tasksDone = w.tasksDone) (hout : w'.outbox = w.outbox) : w'.Carries P where
  tasks := by rw [htasks]; exact h.tasks
  threads := by rw [hthreads]; exact h.threads
  tasksDone := by rw [hdone]; exact h.tasksDone
  outbox := by rw [hout]; exact h.outbox

theorem Carries.receive (h : w.Carries P) (hs : w.receive = some w') : w'.Carries P := by
  unfold Worker.receive at hs
  split at hs
  · cases hs
  · rename_i msg rest _
    cases msg with
    | activateWorker =>
      simp only at hs
      split at hs <;> cases hs
      · exact h.of_eq rfl rfl rfl rfl
      · refine ⟨h.tasks, fun u hu t ht => ?_, h.tasksDone, h.outbox⟩
        rcases List.mem_append.1 hu with hu | hu
        · exact h.threads u hu t ht
        · rw [(List.mem_replicate.1 hu).2] at ht
          cases ht
    | terminate =>
      cases hs
      exact h.of_eq rfl rfl rfl rfl
    | sendInstances jobs =>
      simp only at hs
      split at hs <;> cases hs <;> exact h.of_eq rfl rfl rfl rfl

/-- The end of `main` and the end of the process send no data. -/
theorem Carries.leave (h : w.Carries P) : w.leave.Carries P where
  tasks t ht := by cases ht
  threads := h.threads
  tasksDone t ht := by cases ht
  outbox info hinfo := by
    rcases List.mem_append.1 hinfo with hinfo | hinfo
    · exact h.outbox info hinfo
    · simp at hinfo

theorem Carries.returnTask {t : Task} {rest : List Task} {thrown : Worker → Worker} (h : w.Carries P)
    (hd : w.tasksDone = t :: rest) (hthrown : ∀ w₁ : Worker, w₁.Carries P → (thrown w₁).Carries P) :
    (w.returnTask t rest thrown).Carries P := by
  have hmem : ∀ t' ∈ t :: rest, P t'.dpi := by rw [← hd]; exact h.tasksDone
  have hann : (announce t { w with tasksDone := rest }).Carries P := by
    have hrest : Carries P { w with tasksDone := rest } :=
      ⟨h.tasks, h.threads, fun t' ht' => hmem t' (List.mem_cons_of_mem _ ht'), h.outbox⟩
    unfold announce
    split
    · refine ⟨hrest.tasks, hrest.threads, hrest.tasksDone, fun info hinfo => ?_⟩
      rcases List.mem_append.1 hinfo with hinfo | hinfo
      · exact h.outbox info hinfo
      · simp at hinfo
    · exact hrest
  unfold Worker.returnTask
  simp only
  split
  · exact hthrown _ (hann.of_eq rfl rfl rfl rfl)
  · rename_i hne
    refine ⟨hann.tasks, hann.threads, hann.tasksDone, fun info hinfo => ?_⟩
    rcases List.mem_append.1 hinfo with hinfo | hinfo
    · exact hann.outbox info hinfo
    · obtain rfl : info = t.dpi := by simpa using hinfo
      exact ⟨hmem t List.mem_cons_self, hne⟩

/-- The main thread adds fresh tasks and reports what the threads have left. -/
theorem Carries.moves (hnew : ∀ pim taskId, P (Task.new pim taskId).dpi) (h : w.Carries P) (hs : w.Moves w') :
    w'.Carries P := by
  cases hs with
  | goes => exact h.of_eq rfl rfl rfl rfl
  | receives _ hs => exact h.receive hs
  | requests =>
    refine ⟨h.tasks, h.threads, h.tasksDone, fun info hinfo => ?_⟩
    rcases List.mem_append.1 hinfo with hinfo | hinfo
    · exact h.outbox info hinfo
    · simp at hinfo
  | creates =>
    unfold createTasks
    split
    · exact h.of_eq rfl rfl rfl rfl
    · refine ⟨fun t ht => ?_, h.threads, h.tasksDone, h.outbox⟩
      rcases List.mem_append.1 ht with ht | ht
      · exact h.tasks t ht
      · rw [(List.mem_replicate.1 ht).2]
        exact hnew _ _
  | aborts => exact h.of_eq rfl rfl rfl rfl
  | returns _ hd => exact h.returnTask hd fun w₁ h₁ => h₁.of_eq rfl rfl rfl rfl
  | returnsLate _ hd => exact h.returnTask hd fun w₁ h₁ => h₁.leave
  | leaves => exact h.leave

/-- A thread goes on with a task whose data are all right, or with none. -/
theorem Carries.setThread {i : Nat} {u : Thread} (h : w.Carries P) (hu : ∀ t, u.inHand = some t → P t.dpi) :
    (w.setThread i u).Carries P := by
  refine ⟨h.tasks, fun u' hu' t ht => ?_, h.tasksDone, h.outbox⟩
  obtain ⟨p, hp⟩ := List.mem_iff_getElem?.1 hu'
  obtain ⟨a, ha, ⟨-, rfl⟩ | ⟨-, rfl⟩⟩ := getElem?_modify_some hp
  · exact hu t ht
  · exact h.threads _ (List.mem_of_getElem? ha) t ht

/-- A thread only changes the data of a task by executing it. -/
theorem Carries.threadStep {i : Nat} {outcome : Execution} (h : w.Carries P)
    (hexec : ∀ t measured, w.threads[i]? = some (.executing t) → outcome = .done measured → P (t.execute measured).dpi)
    (hs : w.threadStep i outcome = some w') : w'.Carries P := by
  have hhand : ∀ {u : Thread} {t : Task}, w.threads[i]? = some u → u.inHand = some t → P t.dpi := fun hu ht =>
    h.threads _ (List.mem_of_getElem? hu) _ ht
  unfold Worker.threadStep at hs
  split at hs
  · cases hs
  split at hs
  · cases hs
  · cases hs
    refine h.setThread fun t ht => ?_
    split at ht <;> cases ht
  · split at hs <;> cases hs
    · exact h.setThread nofun
    · rename_i t rest htasks
      have hall : ∀ t' ∈ t :: rest, P t'.dpi := by rw [← htasks]; exact h.tasks
      have hrest : Carries P { w with tasks := rest } :=
        ⟨fun t' ht' => hall t' (List.mem_cons_of_mem _ ht'), h.threads, h.tasksDone, h.outbox⟩
      refine hrest.setThread fun t' ht' => ?_
      cases ht'
      exact hall t List.mem_cons_self
  · rename_i t ht
    split at hs <;> cases hs
    · exact h.setThread fun t' ht' => hhand ht ht'
    · have hdropped : Carries P { w with dropped := w.dropped ++ [t.number] } := h.of_eq rfl rfl rfl rfl
      exact hdropped.setThread nofun
  · rename_i t ht
    split at hs <;> cases hs
    · exact h.setThread fun t' ht' => hhand ht ht'
    · rename_i measured
      refine h.setThread fun t' ht' => ?_
      cases ht'
      exact hexec t measured ht rfl
    · exact h.of_eq rfl rfl rfl rfl
  · rename_i t ht
    cases hs
    have hdone : Carries P { w with tasksDone := w.tasksDone ++ [t] } := by
      refine ⟨h.tasks, h.threads, fun t' ht' => ?_, h.outbox⟩
      rcases List.mem_append.1 ht' with ht' | ht'
      · exact h.tasksDone t' ht'
      · rw [List.mem_singleton.1 ht']
        exact hhand ht rfl
    exact hdone.setThread nofun
  · cases hs

end Worker

/-! ## What the server sends and receives -/

/-- Every poll only adds to what was sent to the workers. -/
theorem Server.Handles.sends {s s' : Server} {e : Event} (h : s.Handles e s') :
    ∃ messages, s'.toWorkers = s.toWorkers ++ messages := by
  by_cases hget : ∃ index requested, e = .pollWorkers (some (index, .getInstances requested))
  · obtain ⟨index, requested, rfl⟩ := hget
    cases h with
    | getInstances _ hs =>
      obtain ⟨s₁, reply, rfl, ⟨-, h1⟩ | ⟨-, rfl, -⟩⟩ := processW2sGetInstances_ok hs
      · rw [(assignLoop_frame h1).1]
        exact ⟨_, rfl⟩
      · exact ⟨_, rfl⟩
  · obtain ⟨messages, hsent, -⟩ := (h.plain fun index requested he => hget ⟨index, requested, he⟩).sent
    exact ⟨messages, hsent⟩

/-- A delivery only adds messages to the inboxes. -/
theorem mem_deliver : ∀ {messages : List (Comm × S2W)} {workers : List Worker}
    {w' : Worker}, w' ∈ deliver messages workers →
    ∃ w ∈ workers, ∃ ms, w' = { w with inbox := w.inbox ++ ms } := by
  intro messages
  induction messages with
  | nil => exact fun h => ⟨_, h, [], by rw [List.append_nil]⟩
  | cons m rest ih =>
    intro workers w' h
    obtain ⟨w₁, h₁, ms, rfl⟩ := ih h
    obtain ⟨p, hp⟩ := List.mem_iff_getElem?.1 h₁
    obtain ⟨w, hw, ⟨-, rfl⟩ | ⟨-, rfl⟩⟩ := getElem?_modify_some hp
    · refine ⟨w, List.mem_of_getElem? hw, m.2 :: ms, ?_⟩
      simp [Worker.push]
    · exact ⟨_, List.mem_of_getElem? hw, ms, rfl⟩

/-- No more instances are delivered than are sent. -/
theorem owed_deliver_le (messages : List (Comm × S2W)) (workers : List Worker) :
    ((deliver messages workers).map Worker.owed).sum ≤
      (workers.map Worker.owed).sum + (messages.flatMap fun m => m.2.instances : List Nat) := by
  induction messages generalizing workers with
  | nil => exact le_add_right le_rfl
  | cons m rest ih =>
    have hpush : ((workers.modify m.1 (Worker.push m.2)).map Worker.owed).sum ≤
        (workers.map Worker.owed).sum + m.2.instances := by
      cases hw : workers[m.1]? with
      | none =>
        rw [List.modify_eq_self (List.getElem?_eq_none_iff.1 hw)]
        exact le_add_right le_rfl
      | some w =>
        have := sum_map_modify (f := Worker.owed) (g := Worker.push m.2) (x := 0) hw
          (by rw [add_zero, Worker.owed_push])
        rw [add_zero] at this
        exact this.le
    calc ((deliver (m :: rest) workers).map Worker.owed).sum
        ≤ ((workers.modify m.1 (Worker.push m.2)).map Worker.owed).sum +
          (rest.flatMap fun m => m.2.instances : List Nat) := ih _
      _ ≤ (workers.map Worker.owed).sum + m.2.instances + (rest.flatMap fun m => m.2.instances : List Nat) := by gcongr
      _ = (workers.map Worker.owed).sum + ((m :: rest).flatMap fun m => m.2.instances : List Nat) := by
        rw [add_assoc, Multiset.coe_add, List.flatMap_cons]

namespace Cluster

variable {numWorkers : Comm → UInt32} {c c' : Cluster} {es : List Event}

/-- The message of a worker that the server receives in this step. -/
def polled (c : Cluster) : Action → Option W2S
  | .serverPollsWorkers (some index) => c.nextFrom index
  | _ => none

/-- `P` is about the data of a task from its creation on, and of every execution the step may stand for. -/
structure Supplies (P : DoneProcessingInfo → Prop) (c : Cluster) (a : Action) : Prop where
  fresh : ∀ pim taskId, P (Task.new pim taskId).dpi
  executed : ∀ comm i measured w t, a = .workerThread comm i (.done measured) → c.workers[comm]? = some w →
    w.threads[i]? = some (.executing t) → P (t.execute measured).dpi

/-- The workers after a poll: new ones may have joined, and messages have arrived. -/
theorem mem_serve {e : Event} (h : c.serve numWorkers e = some c') {w' : Worker} (hw : w' ∈ c'.workers) :
    ∃ w, (w ∈ c.workers ∨ ∃ n, w = { numWorkers := n }) ∧ ∃ ms, w' = { w with inbox := w.inbox ++ ms } := by
  rw [(serve_some h).2] at hw
  obtain ⟨w, hin, hms⟩ := mem_deliver hw
  refine ⟨w, ?_, hms⟩
  rcases List.mem_append.1 hin with hin | hin
  · exact .inl hin
  · obtain ⟨comm, -, rfl⟩ := List.mem_map.1 hin
    exact .inr ⟨_, rfl⟩

/-- Every step keeps what is true of all data, when it is true of new ones. -/
theorem carries_step {P : DoneProcessingInfo → Prop} {a : Action} (h : ∀ w ∈ c.workers, w.Carries P)
    (hok : c.Supplies P a) (hs : c.step numWorkers a = some c') : ∀ w ∈ c'.workers, w.Carries P := by
  have hserve : ∀ {c₁ : Cluster} {e : Event}, c₁.serve numWorkers e = some c' → (∀ w ∈ c₁.workers, w.Carries P) →
      ∀ w ∈ c'.workers, w.Carries P := by
    intro c₁ e he h₁ w' hw'
    obtain ⟨w, hin | ⟨n, rfl⟩, ms, rfl⟩ := mem_serve he hw'
    · exact (h₁ w hin).of_eq rfl rfl rfl rfl
    · exact (Worker.Carries.start n).of_eq rfl rfl rfl rfl
  cases step_advances hs with
  | quiet _ hw => rw [hw]; exact h
  | serves _ hw _ he => exact hserve he (by rw [hw]; exact h)
  | @receives index comm w msg rest _ _ hw ho he =>
    refine hserve he fun w₁ hw₁ => ?_
    obtain ⟨p, hp⟩ := List.mem_iff_getElem?.1 hw₁
    rcases mem_received hw hp with ⟨-, rfl⟩ | ⟨-, hp⟩
    · have hw := h w (List.mem_of_getElem? hw)
      exact ⟨hw.tasks, hw.threads, hw.tasksDone,
        fun info hinfo => hw.outbox info (by rw [ho]; exact List.mem_cons_of_mem _ hinfo)⟩
    · exact h w₁ (List.mem_of_getElem? hp)
  | mains hw hm =>
    exact hw.mem h ((h _ (List.mem_of_getElem? hw.found)).moves hok.fresh (Worker.mainStep_moves hm))
  | @threads comm i outcome w w' _ hw ht =>
    refine hw.mem h ((h _ (List.mem_of_getElem? hw.found)).threadStep (fun t measured hex ho => ?_) ht)
    subst ho
    exact hok.executed comm i measured w t rfl hw.found hex

/-! ## Reported instances were handed out -/

/-- The server has taken one of its runs, and the instances reported in it and those outstanding were handed out. -/
structure Handed (es : List Event) (c : Cluster) : Prop where
  served : Served es c.server
  ledger : (reportedBy es : Multiset Nat) + c.outstanding ≤ (c.server.server.handedOut : Multiset Nat)
  one : ∀ w ∈ c.workers, w.Carries fun info => info.instancesProcessed = 0 ∨ info.instancesProcessed = 1

theorem Handed.start : Handed [] {} := ⟨.start, le_rfl, nofun⟩

/-- The server polls, after it has received a message (`c₁`). -/
theorem Handed.serve {c₁ : Cluster} {e : Event} (h : c.Handed es) (hs : c₁.server = c.server)
    (hok : ReportsHanded es c.server e) (hout : (e.reported : Multiset Nat) + c₁.outstanding ≤ c.outstanding)
    (he : c₁.serve numWorkers e = some c') :
    Served (es ++ [e]) c'.server ∧
      (reportedBy (es ++ [e]) : Multiset Nat) + c'.outstanding ≤ (c'.server.server.handedOut : Multiset Nat) := by
  obtain ⟨hh, hw⟩ := serve_some he
  obtain ⟨messages, hsent⟩ := hh.sends
  obtain ⟨l, hl, hc'⟩ := Option.map_eq_some_iff.1 he
  obtain rfl : c'.server = l := by rw [← hc']
  rw [hs] at hl
  refine ⟨h.served.snoc hok hl, ?_⟩
  rw [hsent, List.drop_left] at hw
  have hjoin : ((c₁.joining numWorkers c'.server.server.accepted).map Worker.owed).sum = 0 := by
    refine List.sum_eq_zero fun x hx => ?_
    obtain ⟨w, hin, rfl⟩ := List.mem_map.1 hx
    obtain ⟨comm, -, rfl⟩ := List.mem_map.1 hin
    rfl
  have hdeliver : c'.outstanding ≤ c₁.outstanding + (messages.flatMap fun m => m.2.instances : List Nat) := by
    have := owed_deliver_le messages (c₁.workers ++ c₁.joining numWorkers c'.server.server.accepted)
    rwa [← hw, List.map_append, List.sum_append, hjoin, add_zero] at this
  have hhanded : (c'.server.server.handedOut : Multiset Nat) =
      c.server.server.handedOut + (messages.flatMap fun m => m.2.instances : List Nat) := by
    unfold Server.handedOut
    rw [hsent, hs, List.flatMap_append, Multiset.coe_add]
  rw [hhanded, reportedBy_append, ← Multiset.coe_add]
  calc (reportedBy es : Multiset Nat) + e.reported + c'.outstanding
      ≤ reportedBy es + e.reported + (c₁.outstanding + (messages.flatMap fun m => m.2.instances : List Nat)) :=
        add_le_add le_rfl hdeliver
    _ = reportedBy es + (e.reported + c₁.outstanding) + (messages.flatMap fun m => m.2.instances : List Nat) := by abel
    _ ≤ reportedBy es + c.outstanding + (messages.flatMap fun m => m.2.instances : List Nat) := by gcongr
    _ ≤ c.server.server.handedOut + (messages.flatMap fun m => m.2.instances : List Nat) := add_le_add h.ledger le_rfl

theorem step_receives {index : Nat} (h : c.step numWorkers (.serverPollsWorkers (some index)) = some c') :
    ∃ comm w msg rest, c.polled (.serverPollsWorkers (some index)) = some msg ∧ c.workers[comm]? = some w ∧
      w.outbox = msg :: rest ∧
        (c.received comm rest).serve numWorkers (.pollWorkers (some (index, msg))) = some c' := by
  obtain ⟨comm, w, msg, rest, hi, hw, ho, he⟩ := step_pollsWorker h
  refine ⟨comm, w, msg, rest, ?_, hw, ho, he⟩
  show c.nextFrom index = some msg
  unfold nextFrom
  rw [hi, Option.bind_some, hw, Option.bind_some, ho]
  rfl

theorem polled_eq_none {a : Action} (h : ∀ index, a ≠ .serverPollsWorkers (some index)) : c.polled a = none := by
  unfold polled
  split
  · exact absurd rfl (h _)
  · rfl

/-- What a worker reports is outstanding. -/
theorem Handed.reports {index : Nat} {comm : Comm} {w : Worker} {msg : W2S} {rest : List W2S} (h : c.Handed es)
    (hw : c.workers[comm]? = some w) (ho : w.outbox = msg :: rest) :
    ReportsHanded es c.server (.pollWorkers (some (index, msg))) := by
  cases msg with
  | foundSolution _ | getInstances _ | disconnect => trivial
  | doneProcessing info =>
    obtain ⟨hone, hne⟩ := (h.one w (List.mem_of_getElem? hw)).outbox info (by rw [ho]; exact List.mem_cons_self)
    refine ⟨hone.resolve_left hne, ?_⟩
    have hin : ({info.taskId.toNat} : Multiset Nat) ≤ c.outstanding := by
      rw [← outstanding_received hw ho]
      exact le_add_left le_rfl
    have hcount := Multiset.count_le_of_le info.taskId.toNat ((add_le_add le_rfl hin).trans h.ledger)
    rw [Multiset.count_add, Multiset.count_singleton_self, Multiset.coe_count, Multiset.coe_count] at hcount
    exact hcount

/-- Every step of the system is one of the server's runs, or leaves the server as it is. -/
theorem Handed.step {a : Action} (h : c.Handed es) (hs : c.step numWorkers a = some c') :
    ∃ new, c'.Handed (es ++ new) ∧ reportedBy new = ((c.polled a).map W2S.instances).getD [] := by
  have hone := carries_step h.one ⟨fun _ _ => .inl rfl, fun _ _ _ _ _ _ _ _ => .inr rfl⟩ hs
  -- nothing is reported by a step in which the server receives nothing of a worker
  have hquiet : c'.server = c.server → c'.outstanding = c.outstanding → c'.Handed (es ++ []) := by
    intro hserver hout
    rw [List.append_nil]
    exact ⟨by rw [hserver]; exact h.served, by rw [hserver, hout]; exact h.ledger, hone⟩
  by_cases ha : ∃ index, a = .serverPollsWorkers (some index)
  · obtain ⟨index, rfl⟩ := ha
    obtain ⟨comm, w, msg, rest, hnext, hw, ho, he⟩ := step_receives hs
    have hout : ((Event.pollWorkers (some (index, msg))).reported : Multiset Nat) + (c.received comm rest).outstanding ≤
        c.outstanding := by
      rw [add_comm]
      exact (outstanding_received hw ho).le
    have hserver : (c.received comm rest).server = c.server := rfl
    obtain ⟨hserved, hledger⟩ := h.serve hserver (h.reports hw ho) hout he
    refine ⟨[.pollWorkers (some (index, msg))], ⟨hserved, hledger, hone⟩, ?_⟩
    rw [hnext]
    exact List.append_nil _
  · rw [polled_eq_none fun index he => ha ⟨index, he⟩]
    cases step_advances hs with
    | quiet hserver hw =>
      refine ⟨[], hquiet hserver ?_, rfl⟩
      unfold outstanding
      rw [hw]
    | receives => exact absurd ⟨_, rfl⟩ ha
    | serves hserver hw hm he =>
      rename_i e c₁
      have hnone : e.reported = [] ∧ ReportsHanded es c.server e := by
        rcases hm with rfl | ⟨received, rfl⟩
        · exact ⟨rfl, trivial⟩
        · exact ⟨rfl, trivial⟩
      have hout : (e.reported : Multiset Nat) + c₁.outstanding ≤ c.outstanding := by
        rw [hnone.1]
        unfold outstanding
        rw [hw]
        exact (zero_add _).le
      obtain ⟨hserved, hledger⟩ := h.serve hserver hnone.2 hout he
      refine ⟨[e], ⟨hserved, hledger, hone⟩, ?_⟩
      unfold reportedBy
      rw [List.flatMap_singleton, hnone.1]
      rfl
    | mains hw hm =>
      exact ⟨[], hquiet hw.server (hw.outstanding (Worker.mainStep_moves hm).owed), rfl⟩
    | threads hw ht =>
      exact ⟨[], hquiet hw.server (hw.outstanding (Worker.threadStep_works ht).2.owed), rfl⟩

/-- In every run of the system the server has taken one of its runs, and what was reported in it or is outstanding was
handed out. -/
theorem handed_in_every_run {ok : List Action → Cluster → Action → Prop} {as : List Action}
    (h : Traced (Cluster.step numWorkers) ok [] {} as c) : ∃ es, c.Handed es := by
  refine h.invariant (P := fun _ c => ∃ es, c.Handed es) ⟨[], .start⟩ fun _ _ _ _ _ ih _ hs => ?_
  obtain ⟨es, hes⟩ := ih
  obtain ⟨new, hnew, -⟩ := hes.step hs
  exact ⟨_, hnew⟩

end Cluster

end ParallelProbsat.Communication
