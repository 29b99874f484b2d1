/-
Which files are finished when the workers are terminated: without a solution and without TERMINATE
from the manager, TERMINATE is sent at the end of a report, and then every limited file added so far
has all its instances started. `wait_for_more_files` is `false`, so a file added later stays
in the queue.
-/
import ParallelProbsat.Communication.Scheduling

namespace ParallelProbsat.Communication

open ParallelProbsat.Lib ParallelProbsat.Util

namespace Server

variable {s s' : Server}

/-! ## Tasks stay, and stay out of the queue -/

/-- The tasks of `s` are still there in `s'`, and those not scheduled are not scheduled again. -/
def Keeps (s s' : Server) : Prop :=
  ∀ (p : Nat) (t : TaskInfo), s.availableTasks[p]? = some t → ∃ t' : TaskInfo, s'.availableTasks[p]? = some t' ∧
    t'.metadata = t.metadata ∧ (t.isScheduled = false → t'.isScheduled = false)

theorem Keeps.of_eq (h : s'.availableTasks = s.availableTasks) : Keeps s s' :=
  fun _ t ht => ⟨t, by rw [h]; exact ht, rfl, id⟩

theorem Keeps.trans {s'' : Server} (h : Keeps s s') (h' : Keeps s' s'') : Keeps s s'' := by
  intro p t ht
  obtain ⟨t', ht', hm, hs⟩ := h p t ht
  obtain ⟨t'', ht'', hm', hs'⟩ := h' p t' ht'
  exact ⟨t'', ht'', hm'.trans hm, fun h0 => hs' (hs h0)⟩

/-- One task is changed, neither its metadata nor, if it is out of the queue, its flag. -/
theorem Keeps.modifyTask (s : Server) (taskId : UInt32) {f : TaskInfo → TaskInfo}
    (hf : ∀ t, s.availableTasks[taskId.toNat]? = some t →
      (f t).metadata = t.metadata ∧ (t.isScheduled = false → (f t).isScheduled = false)) :
    Keeps s (s.modifyTask taskId f) := by
  intro p t ht
  by_cases he : taskId.toNat = p
  · subst he
    refine ⟨f t, ?_, hf t ht⟩
    have := List.getElem?_modify_eq f taskId.toNat s.availableTasks
    rw [ht] at this
    exact this
  · exact ⟨t, (List.getElem?_modify_ne _ _ he).trans ht, rfl, id⟩

theorem Keeps.getInstances {comm : Comm} {requested : UInt32} (h : s.processW2sGetInstances comm requested = .ok s') :
    Keeps s s' := by
  obtain ⟨s₁, reply, rfl, h1⟩ := processW2sGetInstances_ok h
  rcases h1 with ⟨-, h1⟩ | ⟨-, rfl, -⟩
  · refine Keeps.trans ?_ (Keeps.of_eq (s := s₁) rfl)
    refine assignLoop_rule (P := fun s₁ _ => Keeps s s₁) ?_ h1 (.of_eq rfl)
    intro s₂ _ requested taskId _ t s₃ _ _ hk _ _ ha
    obtain ⟨k, -, -, -, -, rfl⟩ := assignFront_ok ha
    exact hk.trans (Keeps.modifyTask s₂ taskId fun t' _ => ⟨rfl, fun h0 => by simp [TaskInfo.assign, h0]⟩)
  · exact .of_eq rfl

/-- What one poll does to the tasks. -/
theorem Handles.keeps {es : List Event} {l : EventLoop} {e : Event}
    (h : l.server.Scheduling l.server.handedOut (reportedBy es)) (hok : ReportsHanded es l e)
    (hs : l.server.Handles e s') : Keeps l.server s' := by
  cases hs with
  | noWorker => exact .of_eq rfl
  | noManager => exact .of_eq rfl
  | addFile data =>
    rw [processM2sAddFile_eq]
    intro p t ht
    refine ⟨t, ?_, rfl, id⟩
    show (l.server.availableTasks ++ [TaskInfo.new data])[p]? = some t
    rw [List.getElem?_append_left (List.getElem?_eq_some_iff.1 ht).1]
    exact ht
  | addWorkers hs => exact .of_eq (Quiet.addWorkers hs).tasks
  | terminate hs => exact .of_eq (Quiet.sendTermination hs).tasks
  | foundSolution _ hs => exact .of_eq (Quiet.foundSolution hs).tasks
  | disconnect => exact .of_eq (Quiet.disconnect _ _).tasks
  | getInstances _ hs => exact .getInstances hs
  | doneProcessing _ hs =>
    obtain ⟨t, stats, ht, hstats, hle, hf⟩ := processW2sDoneProcessing_ok hs
    -- a report puts no task back into the queue
    have hf : (l.server.booked _ _).finish = .ok s' := h.not_rescheduled hok.1 hok.2 ht hstats ▸ hf
    refine Keeps.trans ?_ (Keeps.of_eq (s := l.server.booked _ (t.returned stats _)) (Quiet.finish hf).tasks)
    refine Keeps.modifyTask l.server _ fun t' ht' => ?_
    rw [ht] at ht'
    cases ht'
    exact ⟨rfl, id⟩

/-! ## The step that terminates the workers -/

theorem Handles.solutionFound {e : Event} (hs : s.Handles e s') (h : s.solutionFound = true) :
    s'.solutionFound = true := by
  cases hs with
  | noWorker => exact h
  | noManager => exact h
  | addFile data => rw [processM2sAddFile_eq]; exact h
  | addWorkers hs =>
    obtain ⟨workers, -, rfl⟩ := processM2sAddWorkers_ok hs
    exact h
  | terminate hs => rw [sendTerminationToWorkers_frame hs]; exact h
  | foundSolution _ hs =>
    obtain ⟨s₁, h1, rfl⟩ := processW2sFoundSolution_ok hs
    rw [sendTerminationToWorkers_frame h1]; rfl
  | disconnect => rw [processW2sDisconnect_eq]; exact h
  | getInstances _ hs =>
    obtain ⟨s₁, reply, rfl, ⟨-, h1⟩ | ⟨-, rfl, -⟩⟩ := processW2sGetInstances_ok hs
    · rw [(assignLoop_frame h1).1]; exact h
    · exact h
  | doneProcessing _ hs =>
    obtain ⟨t, stats, -, -, -, hf⟩ := processW2sDoneProcessing_ok hs
    rw [finish_frame hf, reschedule_frame]
    exact h

/-- When neither a solution nor the manager makes the server terminate the workers, the report of the last instance
does: then the queue is empty, no instance is at a worker and every limited task is finished. -/
theorem Handles.terminates {es : List Event} {l : EventLoop} {e : Event}
    (h : l.server.Scheduling l.server.handedOut (reportedBy es)) (hok : ReportsHanded es l e)
    (hs : l.server.Handles e s') (ha : s'.Addressable) (hopen : l.server.terminatedWorkers = false)
    (hterm : s'.terminatedWorkers = true) (hsol : s'.solutionFound = false)
    (hmgr : e ≠ .pollManager (some .terminate)) :
    (∃ index info, e = .pollWorkers (some (index, .doneProcessing info))) ∧ s'.taskOrder = [] ∧
      s'.numInstancesInProcessing = 0 ∧
      ∀ (p : Nat) (t : TaskInfo), s'.availableTasks[p]? = some t → t.metadata.anzahlStartbelegungen ≠ 0 →
        t.statistics.numInstancesStarted.toNat = t.metadata.anzahlStartbelegungen.toNat := by
  have hkeep : s'.terminatedWorkers ≠ l.server.terminatedWorkers := by rw [hopen, hterm]; nofun
  cases hs with
  | noWorker => exact absurd rfl hkeep
  | noManager => exact absurd rfl hkeep
  | addFile data => rw [processM2sAddFile_eq] at hkeep; exact absurd rfl hkeep
  | addWorkers hs =>
    obtain ⟨workers, -, rfl⟩ := processM2sAddWorkers_ok hs
    exact absurd rfl hkeep
  | terminate hs => exact absurd rfl hmgr
  | foundSolution _ hs =>
    obtain ⟨s₁, h1, rfl⟩ := processW2sFoundSolution_ok hs
    rw [sendTerminationToWorkers_frame h1] at hsol
    cases hsol
  | disconnect => rw [processW2sDisconnect_eq] at hkeep; exact absurd rfl hkeep
  | getInstances _ hs =>
    obtain ⟨s₁, reply, rfl, ⟨-, h1⟩ | ⟨-, rfl, -⟩⟩ := processW2sGetInstances_ok hs
    · rw [(assignLoop_frame h1).1] at hkeep; exact absurd rfl hkeep
    · exact absurd rfl hkeep
  | doneProcessing _ hs =>
    obtain ⟨t₀, hb, hf⟩ := h.doneProcessing hok.1 hok.2 hs
    have hq := Quiet.finish hf
    rcases finish_ok hf with ⟨⟨hempty, hidle⟩, -⟩ | ⟨-, rfl⟩
    · rw [finish_frame hf] at hsol
      have ho := hempty.resolve_right (by rw [hsol]; nofun)
      have hidle' : s'.numInstancesInProcessing = 0 := by
        rw [finish_frame hf]
        exact hidle
      refine ⟨⟨_, _, rfl⟩, hq.order.trans ho, hidle', fun p t ht hN => ?_⟩
      rw [hq.tasks] at ht
      exact (hb.all_done (hq.addressable.1 ha) ho hidle ht hN).1
    · exact absurd rfl hkeep

end Server

/-! ## Runs -/

theorem Served.keeps {es es' : List Event} {l l' : EventLoop} (h : Served es l)
    (h' : Traced EventLoop.step ReportsHanded es l es' l') : l.server.Keeps l'.server :=
  h'.invariant (P := fun _ l' => l.server.Keeps l'.server) (.of_eq rfl)
    fun _ _ _ _ run hk hok hs => hk.trans ((EventLoop.step_handles hs).keeps (Served.scheduling (h.trans run)) hok)

theorem Served.solutionFound {es es' : List Event} {l l' : EventLoop}
    (h' : Traced EventLoop.step ReportsHanded es l es' l') (hsol : l'.server.solutionFound = false) :
    l.server.solutionFound = false := by
  by_contra hne
  have := h'.invariant (P := fun _ l' => l'.server.solutionFound = true) (by simpa using hne)
    fun _ _ _ _ _ h _ hs => (EventLoop.step_handles hs).solutionFound h
  rw [hsol] at this
  cases this

theorem reportedBy_count {es es' : List Event} {l l' : EventLoop}
    (h' : Traced EventLoop.step ReportsHanded es l es' l') (p : Nat) :
    (reportedBy es).count p ≤ (reportedBy es').count p :=
  h'.invariant (P := fun es' _ => (reportedBy es).count p ≤ (reportedBy es').count p) le_rfl
    fun _ _ _ _ _ h _ _ => by rw [reportedBy_append, List.count_append]; omega

/-- In every run with at most 2^32 files, without a solution and without TERMINATE from the manager: the workers are
terminated by the report of the last instance, when the queue is empty. Every limited file that had been added by then
has all its instances started, and only files added afterwards are in the queue. The number of one more file would be
that of the first again. -/
theorem termination_after_all_files (es : List Event) (l : EventLoop) (h : Served es l)
    (hfiles : l.server.availableTasks.length ≤ 2 ^ 32) (hsol : l.server.solutionFound = false)
    (hmgr : .pollManager (some .terminate) ∉ es) (hterm : l.server.terminatedWorkers = true) :
    ∃ es₁ l₁ e l₂, Served es₁ l₁ ∧ l₁.server.terminatedWorkers = false ∧ l₁.step e = some l₂ ∧
      l₂.server.terminatedWorkers = true ∧ Traced EventLoop.step ReportsHanded (es₁ ++ [e]) l₂ es l ∧
      (∃ index info, e = .pollWorkers (some (index, .doneProcessing info))) ∧ l₂.server.taskOrder = [] ∧
      l₂.server.numInstancesInProcessing = 0 ∧
      (∀ p t, l.server.availableTasks[p]? = some t → p < l₂.server.availableTasks.length →
        t.metadata.anzahlStartbelegungen ≠ 0 →
        t.statistics.numInstancesStarted.toNat = t.metadata.anzahlStartbelegungen.toNat) ∧
      ∀ id ∈ l.server.taskOrder, l₂.server.availableTasks.length ≤ id.toNat := by
  obtain ⟨es₁, l₁, e, l₂, h₁, hopen, hok, hstep, hterm₂, hrest⟩ :=
    h.raised (p := fun l => l.server.terminatedWorkers) rfl hterm
  have h₁ : Served es₁ l₁ := h₁
  have h₂ : Served (es₁ ++ [e]) l₂ := h₁.snoc hok hstep
  have hkeep := h₂.keeps hrest
  have hle : l₂.server.availableTasks.length ≤ l.server.availableTasks.length := by
    by_contra hlt
    have hlt : l.server.availableTasks.length < l₂.server.availableTasks.length := by omega
    obtain ⟨t', ht', -⟩ := hkeep _ _ (List.getElem?_eq_getElem hlt)
    exact absurd (List.getElem?_eq_some_iff.1 ht').1 (lt_irrefl _)
  have ha₂ : l₂.server.Addressable := hle.trans hfiles
  have hne : e ≠ .pollManager (some .terminate) := by
    rintro rfl
    exact hmgr (hrest.mem (by simp))
  obtain ⟨hreport, ho₂, hidle₂, hdone⟩ := (EventLoop.step_handles hstep).terminates h₁.scheduling hok ha₂ hopen hterm₂
    (Served.solutionFound hrest hsol) hne
  -- a task of that moment is out of the queue then and later
  have hout : ∀ p t, l.server.availableTasks[p]? = some t → p < l₂.server.availableTasks.length →
      t.isScheduled = false ∧ ∃ t₂, l₂.server.availableTasks[p]? = some t₂ ∧ t.metadata = t₂.metadata := by
    intro p t ht hp
    obtain ⟨t', ht', hm, hs⟩ := hkeep p _ (List.getElem?_eq_getElem hp)
    rw [ht] at ht'
    cases ht'
    refine ⟨hs ?_, _, List.getElem?_eq_getElem hp, hm⟩
    rw [← Bool.not_eq_true, h₂.scheduling.scheduled ha₂ p _ (List.getElem?_eq_getElem hp), ho₂]
    rintro ⟨id, hid, -⟩
    cases hid
  refine ⟨es₁, l₁, e, l₂, h₁, hopen, hstep, hterm₂, hrest, hreport, ho₂, hidle₂, ?_, ?_⟩
  · intro p t ht hp hN
    obtain ⟨-, t₂, ht₂, hm⟩ := hout p t ht hp
    have hc := h.scheduling.counts p t ht fun _ => hfiles
    have hc₂ := h₂.scheduling.counts p t₂ ht₂ fun _ => ha₂
    have hfull := hdone p t₂ ht₂ (hm ▸ hN)
    have := hc.started
    have := hc.processing
    have := hc₂.started
    have := (hc.quota hN).1
    have := reportedBy_count hrest p
    rw [hm] at *
    omega
  · intro id hid
    by_contra hlt
    have hknown := h.scheduling.known id hid
    obtain ⟨hs, -⟩ := hout id.toNat _ (List.getElem?_eq_getElem hknown) (by omega)
    have := (h.scheduling.scheduled hfiles _ _ (List.getElem?_eq_getElem hknown)).2 ⟨id, hid, rfl⟩
    rw [hs] at this
    cases this

theorem oneFileRun_facts : (replay EventLoop.step ReportsHanded [] {} oneFileRun).map (fun l =>
    (l.server.availableTasks.length, l.server.solutionFound, l.server.terminatedWorkers)) = some (1, false, true) := by
  decide +kernel

theorem termination_after_oneFileRun : ∃ l, replay EventLoop.step ReportsHanded [] {} oneFileRun = some l ∧
    ∃ es₁ l₁ e l₂, Served es₁ l₁ ∧ l₁.server.terminatedWorkers = false ∧ l₁.step e = some l₂ ∧
      l₂.server.terminatedWorkers = true ∧ Traced EventLoop.step ReportsHanded (es₁ ++ [e]) l₂ oneFileRun l ∧
      (∃ index info, e = .pollWorkers (some (index, .doneProcessing info))) ∧ l₂.server.taskOrder = [] ∧
      l₂.server.numInstancesInProcessing = 0 ∧
      (∀ p t, l.server.availableTasks[p]? = some t → p < l₂.server.availableTasks.length →
        t.metadata.anzahlStartbelegungen ≠ 0 →
        t.statistics.numInstancesStarted.toNat = t.metadata.anzahlStartbelegungen.toNat) ∧
      ∀ id ∈ l.server.taskOrder, l₂.server.availableTasks.length ≤ id.toNat := by
  obtain ⟨l, hl, he⟩ := Option.map_eq_some_iff.1 oneFileRun_facts
  obtain ⟨hlen, he⟩ := Prod.mk.inj he
  obtain ⟨hsol, hterm⟩ := Prod.mk.inj he
  exact ⟨l, hl, termination_after_all_files oneFileRun l (.of_replay hl) (by rw [hlen]; decide) hsol (by decide) hterm⟩

/-- After `oneFileRun` the manager adds a second file. -/
def lateFileRun : List Event := oneFileRun ++ [.pollManager (some (.addFile ⟨1, 0, ""⟩))]

/-- A file added after the termination stays in the queue: no solution, no TERMINATE from the manager, and
one limited file without a started instance. -/
theorem late_file_dropped : ∃ l, Served lateFileRun l ∧ l.server.solutionFound = false ∧
    .pollManager (some .terminate) ∉ lateFileRun ∧ l.server.terminatedWorkers = true ∧
    ¬ ((∀ t ∈ l.server.availableTasks, t.metadata.anzahlStartbelegungen ≠ 0 →
      t.statistics.numInstancesStarted.toNat = t.metadata.anzahlStartbelegungen.toNat) ∧ l.server.taskOrder = []) := by
  have hrun : (replay EventLoop.step ReportsHanded [] {} lateFileRun).map (fun l =>
      (l.server.solutionFound, l.server.terminatedWorkers, l.server.taskOrder)) = some (false, true, [1]) := by
    decide +kernel
  obtain ⟨l, hl, he⟩ := Option.map_eq_some_iff.1 hrun
  obtain ⟨hsol, he⟩ := Prod.mk.inj he
  obtain ⟨hterm, ho⟩ := Prod.mk.inj he
  refine ⟨l, .of_replay hl, hsol, by decide, hterm, ?_⟩
  rintro ⟨-, hempty⟩
  rw [ho] at hempty
  cases hempty

end ParallelProbsat.Communication
