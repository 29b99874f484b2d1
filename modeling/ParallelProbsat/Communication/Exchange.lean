/-
How a worker deals with the server: it asks for instances only when it has no open request, it
announces a solution right before it reports it, and after DISCONNECT it sends nothing and holds
nothing. All this is kept by every step of its threads, and by every message that reaches it.
-/
import ParallelProbsat.Communication.Worker

namespace ParallelProbsat.Communication

/-! ## The order of the messages to the server -/

/-- FOUND_SOLUTION is followed by a report, reports are about one instance, DISCONNECT comes last. -/
def Flow : List W2S → Prop
  | [] => True
  | .foundSolution _ :: rest => (∃ info rest', rest = .doneProcessing info :: rest') ∧ Flow rest
  | .doneProcessing info :: rest => info.instancesProcessed = 1 ∧ Flow rest
  | .getInstances _ :: rest => Flow rest
  | .disconnect :: rest => rest = []

theorem Flow.append : ∀ {messages later : List W2S}, Flow messages → .disconnect ∉ messages → Flow later →
    Flow (messages ++ later)
  | [], _, _, _, h => h
  | msg :: rest, later, hf, hd, h => by
    have hrest : .disconnect ∉ rest := fun hm => hd (.tail _ hm)
    cases msg with
    | foundSolution info =>
      obtain ⟨⟨info, rest', rfl⟩, hf⟩ := hf
      exact ⟨⟨info, rest' ++ later, rfl⟩, hf.append hrest h⟩
    | doneProcessing info => exact ⟨hf.1, hf.2.append hrest h⟩
    | getInstances n =>
      have hf : Flow rest := hf
      exact hf.append hrest h
    | disconnect => exact absurd (.head _) hd

theorem Flow.tail : ∀ {msg : W2S} {rest : List W2S}, Flow (msg :: rest) → Flow rest
  | .foundSolution _, _, h => h.2
  | .doneProcessing _, _, h => h.2
  | .getInstances _, _, h => h
  | .disconnect, _, h => by rw [show _ = [] from h]; trivial

def S2W.isReply : S2W → Bool
  | .sendInstances _ => true
  | _ => false

def W2S.isRequest : W2S → Bool
  | .getInstances _ => true
  | _ => false

/-- What a thread has in hand is fresh until it is executed. -/
def Thread.Valid : Thread → Prop
  | .holding t | .executing t => t.Fresh
  | .executed t => t.Result
  | _ => True

namespace Worker

/-- The requests sent and the replies not yet received. -/
def openRequests (w : Worker) : Nat := w.inbox.countP S2W.isReply + w.outbox.countP W2S.isRequest

structure Sound (w : Worker) : Prop where
  requests : w.point ≠ .aborted → w.openRequests = if w.point = .awaiting then 1 else 0
  stopped : w.point = .draining ∨ w.point = .leaving → ∀ t ∈ w.threads, t = .finished
  left : w.point = .leaving → w.tasks = [] ∧ w.tasksDone = []
  fresh : ∀ t ∈ w.tasks, t.Fresh
  threads : ∀ t ∈ w.threads, t.Valid
  results : ∀ t ∈ w.tasksDone, t.Result
  flow : Flow w.outbox
  parting : .disconnect ∈ w.outbox → w.point = .leaving

variable {w w' : Worker}

theorem Sound.start (n : UInt32) : Sound { numWorkers := n } where
  requests _ := rfl
  stopped h := by rcases h with h | h <;> cases h
  left h := by cases h
  fresh t h := by cases h
  threads t h := by cases h
  results t h := by cases h
  flow := trivial
  parting h := by cases h

theorem Sound.abort (h : w.Sound) (hp : w.point ≠ .leaving) : w.abort.Sound where
  requests h := absurd rfl h
  stopped h := by rcases h with h | h <;> cases h
  left h := by cases h
  fresh := h.fresh
  threads := h.threads
  results := h.results
  flow := h.flow
  parting hd := absurd (h.parting hd) hp

/-- DISCONNECT is sent when the threads have ended. -/
theorem Sound.leave (h : w.Sound) (hp : w.point = .draining) : w.leave.Sound where
  requests _ := by
    have := h.requests (by rw [hp]; nofun)
    rw [hp] at this
    unfold openRequests at this ⊢
    unfold Worker.leave
    rw [List.countP_append]
    exact this
  stopped _ := h.stopped (.inl hp)
  left _ := ⟨rfl, rfl⟩
  fresh t ht := by cases ht
  threads := h.threads
  results t ht := by cases ht
  flow := h.flow.append (fun hd => by have := h.parting hd; rw [hp] at this; cases this) rfl
  parting _ := rfl

/-- Messages that request nothing are added to the outbox, and one task leaves `tasks_done`. -/
theorem Sound.send {messages : List W2S} {done : List Task} {dropped : List Nat} (h : w.Sound) (hp : w.point ≠ .leaving)
    (hr : messages.countP W2S.isRequest = 0) (hf : Flow messages) (hn : .disconnect ∉ messages)
    (hdone : ∀ t ∈ done, t.Result) :
    Sound { w with outbox := w.outbox ++ messages, tasksDone := done, dropped := dropped } where
  requests hne := by
    have := h.requests hne
    unfold openRequests at this ⊢
    rw [List.countP_append, hr]
    exact this
  stopped := h.stopped
  left hl := absurd hl hp
  fresh := h.fresh
  threads := h.threads
  results := hdone
  flow := h.flow.append (fun hd => hp (h.parting hd)) hf
  parting hd := by
    rcases List.mem_append.1 hd with hd | hd
    · exact h.parting hd
    · exact absurd hd hn

theorem Sound.returnTask {t : Task} {rest : List Task} {thrown : Worker → Worker} (h : w.Sound)
    (hp : w.point ≠ .leaving) (hd : w.tasksDone = t :: rest)
    (hthrown : ∀ w₁ : Worker, w₁.Sound → w₁.point = w.point → (thrown w₁).Sound) :
    (w.returnTask t rest thrown).Sound := by
  have hres : ∀ t ∈ rest, t.Result := fun t ht => h.results t (by rw [hd]; exact .tail _ ht)
  have ht : t.Result := h.results t (by rw [hd]; exact .head _)
  unfold Worker.returnTask announce
  by_cases h0 : t.dpi.instancesProcessed = 0
  · -- a task that could not be executed is not solved
    have hsol : t.dpi.solved = false := by
      rcases ht with ht | ht
      · exact ht.2
      · rw [h0] at ht; cases ht
    simp only [h0, hsol, if_true, Bool.false_eq_true, if_false]
    refine hthrown _ ?_ rfl
    have hnone : Sound { w with outbox := w.outbox ++ [], tasksDone := rest, dropped := w.dropped ++ [t.number] } :=
      h.send hp rfl trivial nofun hres
    rw [List.append_nil] at hnone
    exact hnone
  · have h1 : t.dpi.instancesProcessed = 1 := by
      rcases ht with ht | ht
      · exact absurd ht.1 h0
      · exact ht
    simp only [h0, if_false]
    split
    · rw [List.append_assoc]
      exact h.send hp rfl ⟨⟨t.dpi, [], rfl⟩, h1, trivial⟩ (by simp) hres
    · exact h.send hp rfl ⟨h1, trivial⟩ (by simp) hres

theorem Sound.receive (h : w.Sound) (hp : w.point = .activating ∨ w.point = .awaiting) (hs : w.receive = some w') :
    w'.Sound := by
  have hreq := h.requests (by rcases hp with hp | hp <;> rw [hp] <;> nofun)
  unfold openRequests at hreq
  unfold Worker.receive at hs
  split at hs
  · cases hs
  · rename_i msg rest hi
    rw [hi, List.countP_cons] at hreq
    have hopen : .disconnect ∉ w.outbox := fun hd => by
      have := h.parting hd
      rw [this] at hp
      rcases hp with hp | hp <;> cases hp
    -- the message is gone, the main thread may go on to `p`
    have hgo : ∀ (p : Point) (threads : List Thread) (running : Bool) (dropped : List Nat),
        p ≠ .leaving → p ≠ .draining → (∀ t ∈ threads, t.Valid) →
        (rest.countP S2W.isReply + w.outbox.countP W2S.isRequest = if p = .awaiting then 1 else 0) →
        Sound { w with
          inbox := rest, point := p, threads := threads, running := running, dropped := dropped } := by
      intro p threads running dropped hl hdr hth hc
      exact ⟨fun _ => hc, fun h => absurd h (by simp [hl, hdr]), fun h => absurd h hl, h.fresh, hth, h.results, h.flow,
        fun hd => absurd hd hopen⟩
    cases msg with
    | activateWorker =>
      simp only [S2W.isReply, Bool.false_eq_true, if_false, add_zero] at hreq
      simp only at hs
      split at hs <;> cases hs
      · exact hgo w.point w.threads w.running w.dropped (by rcases hp with hp | hp <;> rw [hp] <;> nofun)
          (by rcases hp with hp | hp <;> rw [hp] <;> nofun) h.threads hreq
      · rename_i hna
        rw [if_neg (by simpa using hna)] at hreq
        refine hgo .top _ w.running w.dropped nofun nofun ?_ hreq
        intro t ht
        rcases List.mem_append.1 ht with ht | ht
        · exact h.threads t ht
        · rw [(List.mem_replicate.1 ht).2]
          trivial
    | terminate =>
      simp only [S2W.isReply, Bool.false_eq_true, if_false, add_zero] at hreq
      cases hs
      exact hgo w.point w.threads false w.dropped (by rcases hp with hp | hp <;> rw [hp] <;> nofun)
        (by rcases hp with hp | hp <;> rw [hp] <;> nofun) h.threads hreq
    | sendInstances jobs =>
      -- a reply only comes when one is awaited
      have hc : rest.countP S2W.isReply + w.outbox.countP W2S.isRequest = 0 := by
        simp only [S2W.isReply, if_true] at hreq
        split at hreq <;> omega
      simp only at hs
      split at hs <;> cases hs
      · exact hgo _ w.threads w.running w.dropped nofun nofun h.threads (by rw [if_neg nofun]; exact hc)
      · exact hgo _ w.threads w.running _ nofun nofun h.threads (by rw [if_neg nofun]; exact hc)

theorem fresh_new (pim : ProblemInstanceMetadata) (taskId : UInt32) : (Task.new pim taskId).Fresh := ⟨rfl, rfl⟩

/-- The main thread keeps to the rules. -/
theorem Sound.moves (h : w.Sound) (hs : w.Moves w') : w'.Sound := by
  cases hs with
  | goes p running _ _ hold hnew hjoin =>
    have hreq := h.requests hold.2.2.2
    rw [if_neg hold.2.1] at hreq
    refine ⟨fun _ => ?_, fun hp => ?_, fun hp => absurd hp hnew.2, h.fresh, h.threads, h.results, h.flow,
      fun hd => absurd (h.parting hd) hold.2.2.1⟩
    · rw [if_neg hnew.1]
      exact hreq
    · exact hjoin (hp.resolve_right hnew.2)
  | receives hp hs => exact h.receive hp hs
  | requests _ hp =>
    have hreq := h.requests (by rw [hp]; nofun)
    have hopen : .disconnect ∉ w.outbox := fun hd => by have := h.parting hd; rw [hp] at this; cases this
    refine ⟨fun _ => ?_, fun hp => ?_, fun hp => ?_, h.fresh, h.threads, h.results,
      h.flow.append hopen trivial, fun hd => ?_⟩
    · rw [hp, if_neg nofun] at hreq
      unfold openRequests at hreq ⊢
      rw [if_pos rfl, List.countP_append, ← add_assoc, hreq]
      rfl
    · rcases hp with hp | hp <;> cases hp
    · cases hp
    · rcases List.mem_append.1 hd with hd | hd
      · exact absurd hd hopen
      · simp at hd
  | creates readable hp =>
    rename_i j rest awaited
    unfold createTasks
    split
    · exact h.abort (by rw [hp]; nofun)
    · have hreq := h.requests (by rw [hp]; nofun)
      rw [hp, if_neg nofun] at hreq
      refine ⟨fun _ => hreq, fun hl => ?_, fun hl => ?_, fun t ht => ?_, h.threads, h.results, h.flow, fun hd => ?_⟩
      · rcases hl with hl | hl <;> cases hl
      · cases hl
      · rcases List.mem_append.1 ht with ht | ht
        · exact h.fresh t ht
        · rw [(List.mem_replicate.1 ht).2]
          exact fresh_new ..
      · have := h.parting hd
        rw [hp] at this
        cases this
  | aborts hp => exact h.abort (by rw [hp]; nofun)
  | returns hp hd =>
    exact h.returnTask (by rw [hp]; nofun) hd fun w₁ h₁ hp₁ => h₁.abort (by rw [hp₁, hp]; nofun)
  | returnsLate hp hd =>
    exact h.returnTask (by rw [hp]; nofun) hd fun w₁ h₁ hp₁ => h₁.leave (hp₁.trans hp)
  | leaves hp hd => exact h.leave hp

/-- The threads keep to the rules. -/
theorem Sound.works {i : Nat} (h : w.Sound) (hs : w.Works i w') : w'.Sound := by
  -- a thread that can take a step has not ended, so the main thread has not passed the join
  have hbusy : ∀ {t : Thread}, w.threads[i]? = some t → t ≠ .finished → w.point ≠ .draining ∧ w.point ≠ .leaving := by
    intro t ht hne
    constructor <;> intro hp
    · exact hne (h.stopped (.inl hp) t (List.mem_of_getElem? ht))
    · exact hne (h.stopped (.inr hp) t (List.mem_of_getElem? ht))
  have hset : ∀ {t : Thread} (u : Thread) (tasks done : List Task) (dropped : List Nat),
      w.threads[i]? = some t → t ≠ .finished → u.Valid → (∀ t ∈ tasks, t.Fresh) → (∀ t ∈ done, t.Result) →
      (setThread { w with tasks := tasks, tasksDone := done, dropped := dropped } i u).Sound := by
    intro t u tasks done dropped ht hne hu htasks hdone
    obtain ⟨hdr, hle⟩ := hbusy ht hne
    refine ⟨h.requests, fun hp => absurd hp (by simp [setThread, hdr, hle]), fun hp => absurd hp hle, htasks, ?_, hdone,
      h.flow, h.parting⟩
    intro t' ht'
    obtain ⟨p, hp⟩ := List.mem_iff_getElem?.1 ht'
    obtain ⟨a, ha, ⟨-, rfl⟩ | ⟨-, rfl⟩⟩ := Lib.getElem?_modify_some hp
    · exact hu
    · exact h.threads _ (List.mem_of_getElem? ha)
  have hvalid : ∀ {t : Thread}, w.threads[i]? = some t → t.Valid := fun ht => h.threads _ (List.mem_of_getElem? ht)
  cases hs with
  | polls ht hu =>
    exact hset _ w.tasks w.tasksDone w.dropped ht nofun (by rcases hu with rfl | rfl <;> trivial) h.fresh
      h.results
  | waits ht => exact hset _ w.tasks w.tasksDone w.dropped ht nofun trivial h.fresh h.results
  | takes ht htasks =>
    refine hset _ _ w.tasksDone w.dropped ht nofun ?_ (fun t hm => ?_) h.results
    · exact h.fresh _ (by rw [htasks]; exact .head _)
    · exact h.fresh t (by rw [htasks]; exact .tail _ hm)
  | starts ht =>
    have hfresh := hvalid ht
    exact hset _ w.tasks w.tasksDone w.dropped ht nofun hfresh h.fresh h.results
  | givesUp ht _ => exact hset _ w.tasks w.tasksDone _ ht nofun trivial h.fresh h.results
  | executes ht _ hr =>
    exact hset _ w.tasks w.tasksDone w.dropped ht nofun (hr (hvalid ht)) h.fresh h.results
  | aborts ht => exact h.abort (hbusy ht nofun).2
  | delivers ht =>
    refine hset _ w.tasks _ w.dropped ht nofun trivial h.fresh fun t hm => ?_
    rcases List.mem_append.1 hm with hm | hm
    · exact h.results t hm
    · rw [List.mem_singleton.1 hm]
      exact hvalid ht

/-! ## Nothing is given up unnoticed -/

theorem announce_dropped (t : Task) (w : Worker) : (announce t w).dropped = w.dropped := by
  unfold announce
  split <;> rfl

theorem returnTask_dropped {t : Task} {rest : List Task} {thrown : Worker → Worker} (h : t.dpi.instancesProcessed ≠ 0) :
    (w.returnTask t rest thrown).dropped = w.dropped := by
  unfold Worker.returnTask
  simp only [h, if_false]
  exact announce_dropped ..

/-- Unless `mainGivesUp` tells so, the main thread gives up an instance only with the whole process. -/
theorem Moves.dropped (hs : w.Moves w') (h : w.mainGivesUp = false) : w'.point = .aborted ∨ w'.dropped = w.dropped := by
  cases hs with
  | goes => exact .inr rfl
  | receives hp hs =>
    refine .inr ?_
    unfold Worker.receive at hs
    split at hs
    · cases hs
    · rename_i msg rest hi
      cases msg with
      | activateWorker => simp only at hs; split at hs <;> cases hs <;> rfl
      | terminate => cases hs; rfl
      | sendInstances jobs =>
        simp only at hs
        split at hs
        · cases hs; rfl
        · rename_i hr
          cases hs
          have hjobs : jobs.flatMap Job.instances = [] := by
            unfold mainGivesUp at h
            rcases hp with hp | hp <;> simpa [hp, hi, hr] using h
          rw [hjobs, List.append_nil]
  | requests => exact .inr rfl
  | creates =>
    unfold createTasks
    split
    · exact .inl rfl
    · exact .inr rfl
  | aborts => exact .inl rfl
  | returns hp hd =>
    rename_i t rest
    by_cases h0 : t.dpi.instancesProcessed = 0
    · left
      unfold Worker.returnTask
      rw [if_pos h0]
      rfl
    · exact .inr (returnTask_dropped h0)
  | returnsLate hp hd =>
    rename_i t rest
    have h0 : t.dpi.instancesProcessed ≠ 0 := by simpa [mainGivesUp, hp, hd] using h
    exact .inr (returnTask_dropped h0)
  | leaves hp hd =>
    have htasks : w.tasks = [] := by simpa [mainGivesUp, hp, hd] using h
    right
    unfold Worker.leave
    simp only [htasks, hd, List.map_nil, List.append_nil]

theorem Works.dropped {i : Nat} (hs : w.Works i w') (h : w.threadGivesUp i = false) :
    w'.point = .aborted ∨ w'.dropped = w.dropped := by
  cases hs with
  | givesUp ht hr => simp [threadGivesUp, ht, hr] at h
  | aborts => exact .inl rfl
  | _ => exact .inr rfl

/-- A worker that has left holds only what it gave up. -/
theorem Sound.owed_left (h : w.Sound) (hp : w.point = .leaving) (ho : w.outbox = []) : w.owed = w.dropped := by
  have hreq := h.requests (by rw [hp]; nofun)
  rw [if_neg (by rw [hp]; nofun)] at hreq
  have hinbox : w.inbox.flatMap S2W.instances = [] := by
    refine List.flatMap_eq_nil_iff.2 fun m hm => ?_
    have := List.countP_eq_zero.1 (Nat.eq_zero_of_add_eq_zero_right hreq) m hm
    cases m <;> simp_all [S2W.isReply, S2W.instances]
  have hthreads : (w.threads.map Thread.instances).sum = 0 := by
    refine List.sum_eq_zero fun x hx => ?_
    obtain ⟨t, ht, rfl⟩ := List.mem_map.1 hx
    rw [h.stopped (.inr hp) t ht]
    rfl
  obtain ⟨htasks, hdone⟩ := h.left hp
  unfold owed
  rw [hinbox, hthreads, hp, htasks, hdone, ho]
  simp [Point.held]

/-! ## Before the activation -/

/-- Nobody has activated the worker: it waits, and has nothing to do or to say. -/
structure Asleep (w : Worker) : Prop where
  point : w.point = .activating
  threads : w.threads = []
  inbox : ∀ m ∈ w.inbox, m = .terminate
  outbox : w.outbox = []

theorem Asleep.moves (h : w.Asleep) (hs : w.Moves w') : w'.Asleep := by
  cases hs with
  | receives hp hs =>
    unfold Worker.receive at hs
    split at hs
    · cases hs
    · rename_i msg rest hi
      obtain rfl := h.inbox msg (by rw [hi]; exact .head _)
      cases hs
      exact ⟨h.point, h.threads, fun m hm => h.inbox m (by rw [hi]; exact .tail _ hm), h.outbox⟩
  | goes _ _ _ _ hold => exact absurd h.point hold.1
  | requests _ hp | aborts hp | returns hp _ | returnsLate hp _ | leaves hp _ | creates _ hp =>
    rw [h.point] at hp
    cases hp

theorem Asleep.not_works {i : Nat} (h : w.Asleep) : ¬ w.Works i w' := by
  intro hs
  have hnone : w.threads[i]? = none := by rw [h.threads]; rfl
  cases hs <;> simp_all

end Worker

end ParallelProbsat.Communication
