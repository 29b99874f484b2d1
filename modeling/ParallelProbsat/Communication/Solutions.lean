/-
No solution is lost: a worker announces a solution before it reports the instance, the server passes the announcement on
before it sends the statistics, and messages keep their order. So when the manager has the statistics, it knows of the
solution of every instance that they count as solved.
-/
import ParallelProbsat.Communication.Totals
import ParallelProbsat.Lib.Channels

namespace ParallelProbsat.Communication

open ParallelProbsat.Lib ParallelProbsat.Util ParallelProbsat.Sat

/-! ## What a worker sends -/

/-- The solution is the one of the report. -/
structure SolutionInfo.Of (sol : SolutionInfo) (info : DoneProcessingInfo) : Prop where
  seed : sol.seed = info.seed
  flips : sol.numFlipsDone = info.numFlipsDone
  duration : sol.solveDuration = info.solveDuration
  vars : sol.numVars = info.numVars
  clauses : sol.numClauses = info.numClauses

/-- Every report of a solved instance comes after its solution, which may be known before. -/
def Announces : (SolutionInfo → Prop) → List W2S → Prop
  | _, [] => True
  | known, .foundSolution sol :: rest => Announces (fun x => known x ∨ x = sol) rest
  | known, .doneProcessing info :: rest => (info.solved = true → ∃ sol, known sol ∧ sol.Of info) ∧ Announces known rest
  | known, .getInstances _ :: rest => Announces known rest
  | known, .disconnect :: rest => Announces known rest

theorem Announces.mono (messages : List W2S) : ∀ known known' : SolutionInfo → Prop, (∀ sol, known sol → known' sol) →
    Announces known messages → Announces known' messages := by
  induction messages with
  | nil => exact fun _ _ _ _ => trivial
  | cons msg rest ih =>
    intro known known' hle h
    cases msg with
    | foundSolution sol => exact ih _ _ (fun x hx => hx.imp_left (hle x)) h
    | doneProcessing info =>
      refine ⟨?_, ih known known' hle h.2⟩
      intro hsolved
      obtain ⟨sol, hsol, hof⟩ := h.1 hsolved
      exact ⟨sol, hle sol hsol, hof⟩
    | getInstances _ | disconnect => exact ih known known' hle h

/-- The worker says something more. -/
theorem Announces.append {new : List W2S} (hnew : ∀ known, Announces known new) (messages : List W2S) :
    ∀ known, Announces known messages → Announces known (messages ++ new) := by
  induction messages with
  | nil => exact fun known _ => hnew known
  | cons msg rest ih =>
    intro known h
    cases msg with
    | foundSolution sol => exact ih (fun x => known x ∨ x = sol) h
    | doneProcessing info => exact ⟨h.1, ih known h.2⟩
    | getInstances _ | disconnect => exact ih known h

namespace Worker

variable {w w' : Worker}

/-- Between `w` and `w'` the worker has sent messages in which every solved report comes after its solution. -/
def Says (w w' : Worker) : Prop := ∃ new, w'.outbox = w.outbox ++ new ∧ ∀ known, Announces known new

theorem Says.of_eq (h : w'.outbox = w.outbox) : w.Says w' := ⟨[], by rw [h, List.append_nil], fun _ => trivial⟩

theorem Says.returnTask {t : Task} {rest : List Task} {thrown : Worker → Worker} (w : Worker)
    (hthrown : ∀ w₁ : Worker, ∃ new, (thrown w₁).outbox = w₁.outbox ++ new ∧ ∀ known, Announces known new) :
    w.Says (w.returnTask t rest thrown) := by
  have hann : ∃ ann, (announce t { w with tasksDone := rest }).outbox = w.outbox ++ ann ∧
      (∀ known, Announces known ann) ∧ ∀ known, Announces known (ann ++ [.doneProcessing t.dpi]) := by
    unfold announce
    split
    · refine ⟨[.foundSolution t.solution], rfl, fun _ => trivial, ?_⟩
      intro known
      exact ⟨fun _ => ⟨t.solution, .inr rfl, rfl, rfl, rfl, rfl, rfl⟩, trivial⟩
    · rename_i hsolved
      refine ⟨[], (List.append_nil _).symm, fun _ => trivial, ?_⟩
      intro known
      exact ⟨fun h => absurd h hsolved, trivial⟩
  obtain ⟨ann, hout, hfirst, hboth⟩ := hann
  unfold Worker.returnTask
  simp only
  split
  · obtain ⟨new, hnew, hall⟩ := hthrown { announce t { w with tasksDone := rest } with
      dropped := (announce t { w with tasksDone := rest }).dropped ++ [t.number] }
    refine ⟨ann ++ new, ?_, ?_⟩
    · rw [hnew, ← List.append_assoc, ← hout]
    · exact fun known => Announces.append hall ann known (hfirst known)
  · refine ⟨ann ++ [.doneProcessing t.dpi], ?_, hboth⟩
    rw [← List.append_assoc, ← hout]

theorem Moves.speaks (h : w.Moves w') : w.Says w' := by
  have habort : ∀ w₁ : Worker, ∃ new, w₁.abort.outbox = w₁.outbox ++ new ∧ ∀ known, Announces known new := fun w₁ =>
    ⟨[], (List.append_nil _).symm, fun _ => trivial⟩
  have hleave : ∀ w₁ : Worker, ∃ new, w₁.leave.outbox = w₁.outbox ++ new ∧ ∀ known, Announces known new := fun w₁ =>
    ⟨[.disconnect], rfl, fun _ => trivial⟩
  cases h with
  | goes | aborts => exact .of_eq rfl
  | receives _ hs =>
    apply Says.of_eq
    unfold receive at hs
    split at hs
    · cases hs
    · simp only at hs
      split at hs <;> first | (split at hs <;> cases hs <;> rfl) | (cases hs; rfl)
  | requests => exact ⟨_, rfl, fun _ => trivial⟩
  | creates =>
    apply Says.of_eq
    unfold createTasks
    split <;> rfl
  | returns => exact .returnTask w habort
  | returnsLate => exact .returnTask w hleave
  | leaves => exact hleave w

theorem Works.outbox {i : Nat} (h : w.Works i w') : w'.outbox = w.outbox := by cases h <;> rfl

end Worker

/-! ## What the server passes on -/

namespace Server

variable {s s' : Server}

/-- A solution goes to the manager at once. -/
theorem Handles.passesOn {index : Nat} {sol : SolutionInfo}
    (h : s.Handles (.pollWorkers (some (index, .foundSolution sol))) s') :
    .foundSolution sol ∈ s'.toManager := by
  cases h with
  | foundSolution _ hs =>
    obtain ⟨s₁, -, rfl⟩ := processW2sFoundSolution_ok hs
    exact List.mem_append_right _ (List.mem_singleton_self _)

end Server

def S2M.isStatistics : S2M → Bool
  | .sendStatistics _ _ => true
  | _ => false

theorem any_isStatistics (messages : List S2M) :
    messages.any S2M.isStatistics = true ↔ sentStatistics messages ≠ [] := by
  induction messages with
  | nil => simp [sentStatistics]
  | cons msg rest ih =>
    unfold sentStatistics at ih ⊢
    cases msg with
    | sendStatistics _ _ => simp [S2M.isStatistics]
    | foundSolution _ | disconnect => simpa [S2M.isStatistics] using ih

namespace Cluster

variable {numWorkers : Comm → UInt32} {c c' : Cluster} {a : Action}

/-- Nothing that is not told stands behind a report in any outbox. -/
def Announced (c : Cluster) : Prop := ∀ w ∈ c.workers, Announces c.Told w.outbox

theorem Announced.serve {c₁ : Cluster} {e : Event} (h : ∀ w ∈ c₁.workers, Announces c'.Told w.outbox)
    (he : c₁.serve numWorkers e = some c') : c'.Announced := by
  intro w' hw'
  obtain ⟨w, hw | ⟨n, rfl⟩, ms, rfl⟩ := mem_serve he hw'
  · exact h w hw
  · trivial

theorem Announced.step (h : c.Announced) (hs : c.step numWorkers a = some c') : c'.Announced := by
  have hmono : ∀ w ∈ c.workers, Announces c'.Told w.outbox := by
    intro w hw
    apply Announces.mono w.outbox c.Told c'.Told ?_ (h w hw)
    intro sol hsol
    exact hsol.step hs
  cases step_advances hs with
  | quiet _ hw =>
    intro w hw'
    rw [hw] at hw'
    exact hmono w hw'
  | serves _ hw _ he =>
    rw [← hw] at hmono
    exact .serve hmono he
  | @receives index comm w msg rest _ _ hw ho he =>
    refine Announced.serve ?_ he
    intro w₁ hw₁
    obtain ⟨p, hp⟩ := List.mem_iff_getElem?.1 hw₁
    rcases mem_received hw hp with ⟨-, rfl⟩ | ⟨-, hp⟩
    · have hout := hmono w (List.mem_of_getElem? hw)
      rw [ho] at hout
      cases msg with
      | foundSolution sol =>
        apply Announces.mono rest (fun x => c'.Told x ∨ x = sol) c'.Told ?_ hout
        rintro x (hx | rfl)
        · exact hx
        · exact (serve_some he).1.passesOn
      | doneProcessing _ => exact hout.2
      | getInstances _ | disconnect => exact hout
    · exact hmono w₁ (List.mem_of_getElem? hp)
  | @mains comm ok _ w w' _ hw hm =>
    apply hw.mem hmono
    obtain ⟨new, hout, hnew⟩ := (Worker.mainStep_moves hm).speaks
    rw [hout]
    exact Announces.append hnew w.outbox _ (hmono w (List.mem_of_getElem? hw.found))
  | @threads comm i outcome w w' _ hw ht =>
    apply hw.mem hmono
    rw [(Worker.threadStep_works ht).2.outbox]
    exact hmono w (List.mem_of_getElem? hw.found)

/-- When a solved instance is reported, its solution has been told. -/
theorem Announced.polled (h : c.Announced) (hs : c.step numWorkers a = some c') {info : DoneProcessingInfo}
    (hmsg : c.polled a = some (.doneProcessing info)) (hsolved : info.solved = true) :
    ∃ sol : SolutionInfo, sol.Of info ∧ c.Told sol := by
  by_cases ha : ∃ index, a = .serverPollsWorkers (some index)
  · obtain ⟨index, rfl⟩ := ha
    obtain ⟨comm, w, msg, rest, hnext, hw, ho, -⟩ := step_receives hs
    rw [hnext] at hmsg
    cases hmsg
    have hout := h w (List.mem_of_getElem? hw)
    rw [ho] at hout
    obtain ⟨sol, htold, hof⟩ := hout.1 hsolved
    exact ⟨sol, hof, htold⟩
  · rw [polled_eq_none fun index he => ha ⟨index, he⟩] at hmsg
    cases hmsg

end Cluster

/-! ## What the manager learns -/

/-- The fewest flips of a solution, with this message. -/
def S2M.fewer (fewest : UInt64) : S2M → UInt64
  | .foundSolution info => min fewest info.numFlipsDone
  | _ => fewest

/-- The fewest flips of the solutions among these messages. -/
def fewestFlips (messages : List S2M) : UInt64 := messages.foldl S2M.fewer (UInt64.ofNat (2 ^ 64 - 1))

theorem fewer_le (fewest : UInt64) (msg : S2M) : msg.fewer fewest ≤ fewest := by
  cases msg with
  | foundSolution _ => exact Std.min_le_left
  | sendStatistics _ _ | disconnect => exact UInt64.le_refl _

theorem foldl_fewer_le (messages : List S2M) (fewest : UInt64) : messages.foldl S2M.fewer fewest ≤ fewest := by
  induction messages generalizing fewest with
  | nil => exact UInt64.le_refl _
  | cons msg rest ih => exact UInt64.le_trans (ih _) (fewer_le fewest msg)

theorem fewestFlips_le {messages : List S2M} {sol : SolutionInfo} (h : .foundSolution sol ∈ messages) :
    fewestFlips messages ≤ sol.numFlipsDone := by
  obtain ⟨front, back, rfl⟩ := List.append_of_mem h
  unfold fewestFlips
  rw [List.foldl_append, List.foldl_cons]
  exact UInt64.le_trans (foldl_fewer_le back _) Std.min_le_right

theorem foldl_fewer_mem (messages : List S2M) (fewest : UInt64) : messages.foldl S2M.fewer fewest = fewest ∨
    ∃ sol, .foundSolution sol ∈ messages ∧ messages.foldl S2M.fewer fewest = sol.numFlipsDone := by
  induction messages generalizing fewest with
  | nil => exact .inl rfl
  | cons msg rest ih =>
    rw [List.foldl_cons]
    rcases ih (msg.fewer fewest) with h | ⟨sol, hsol, h⟩
    · rw [h]
      cases msg with
      | foundSolution info =>
        rcases Std.min_eq_or (a := fewest) (b := info.numFlipsDone) with hmin | hmin
        · exact .inl hmin
        · exact .inr ⟨info, List.mem_cons_self, hmin⟩
      | sendStatistics _ _ | disconnect => exact .inl rfl
    · exact .inr ⟨sol, List.mem_cons_of_mem _ hsol, h⟩

/-- Once there is a solution, the fewest flips are those of one. -/
theorem fewestFlips_mem {messages : List S2M} (h : messages.any S2M.isSolution = true) :
    ∃ sol, .foundSolution sol ∈ messages ∧ fewestFlips messages = sol.numFlipsDone := by
  rcases foldl_fewer_mem messages (UInt64.ofNat (2 ^ 64 - 1)) with hmax | hmem
  · obtain ⟨msg, hmsg, hsol⟩ := List.any_eq_true.1 h
    cases msg with
    | foundSolution sol =>
      -- it has not fewer flips than the start value, and there are no more
      refine ⟨sol, hmsg, UInt64.le_antisymm (fewestFlips_le hmsg) ?_⟩
      unfold fewestFlips
      rw [hmax, UInt64.le_iff_toNat_le]
      exact Nat.le_pred_of_lt sol.numFlipsDone.toNat_lt
    | sendStatistics _ _ | disconnect => cases hsol
  · exact hmem

/-! ## Runs -/

namespace Averaging

variable {numWorkers : Comm → UInt32} {s s' : Averaging} {as : List Action} {a : Action}

theorem foldl_process_minFlips (msgs : List S2M) (s : Averaging) :
    (msgs.foldl Averaging.process s).statistic.minFlipsToSolve = msgs.foldl S2M.fewer s.statistic.minFlipsToSolve := by
  induction msgs generalizing s with
  | nil => rfl
  | cons msg rest ih =>
    rw [List.foldl_cons, ih, List.foldl_cons]
    cases msg <;> rfl

/-- The manager has received `got`, the rest is in the channel. -/
structure Got (s : Averaging) (got : List S2M) : Prop where
  log : s.cluster.server.server.toManager.filter S2M.logged = (got ++ s.cluster.toManager).filter S2M.logged
  found : s.cluster.manager.solutionFound = got.any S2M.isSolution
  fewest : s.statistic.minFlipsToSolve = fewestFlips got

theorem Got.step {got : List S2M} (h : s.Got got) (hs : s.step numWorkers a = some s') : ∃ got', s'.Got got' := by
  obtain ⟨c, hc, rfl⟩ := Option.map_eq_some_iff.1 hs
  obtain ⟨sent, hears⟩ := Cluster.step_hears hc
  refine ⟨got ++ received s.cluster.toManager c.toManager, ?_, ?_, ?_⟩
  · rw [(foldl_process_frame _ _).1]
    show c.server.server.toManager.filter S2M.logged = _
    rw [hears.log, h.log, ← List.filter_append, List.append_assoc, List.append_assoc, hears.channel]
  · rw [(foldl_process_frame _ _).1, List.any_append, ← h.found]
    exact hears.manager
  · have hfewest := h.fewest
    unfold fewestFlips at hfewest ⊢
    rw [foldl_process_minFlips, List.foldl_append, ← hfewest]

/-- Every solved instance was collected after its solution was told, and before the statistics are sent. -/
structure Tells (s : Averaging) : Prop where
  outboxes : s.cluster.Announced
  collected : ∀ info ∈ s.collected, info.solved = true → ∃ sol : SolutionInfo, sol.Of info ∧ s.cluster.Told sol ∧
    (s.cluster.server.server.statisticSend = true →
      Ahead (.foundSolution sol) S2M.isStatistics s.cluster.server.server.toManager)

theorem Tells.start : Tells {} where
  outboxes w h := by cases h
  collected info h := by cases h

/-- The statistics are sent behind the solutions that are told by then. -/
theorem Tells.step (h : s.Tells) (ht : s.Totalled) (ht' : s'.Totalled)
    (hone : ∀ info ∈ s'.collected, info.instancesProcessed = 1)
    (hroom : s'.collected.length < 2 ^ 64) (hs : s.step numWorkers a = some s') : s'.Tells := by
  obtain ⟨c, hc, rfl⟩ := Option.map_eq_some_iff.1 hs
  obtain ⟨hcluster, hcollected⟩ := foldl_process_frame (received s.cluster.toManager c.toManager) { s with
    cluster := c
    collected := s.collected ++
      if s.cluster.server.server.statisticSend then [] else ((s.cluster.polled a).map W2S.reports).getD [] }
  have hrows := ht'.addsUp.sent
  rw [hcluster] at hrows
  obtain ⟨messages, hlog⟩ := Cluster.step_log hc
  -- at the step that sends the statistics there are some, when there is a report
  have hahead : ∀ {sol : SolutionInfo} {info : DoneProcessingInfo}, s.cluster.server.server.statisticSend = false →
      s.cluster.Told sol → info ∈ s.collected ++ ((s.cluster.polled a).map W2S.reports).getD [] →
      c.server.server.statisticSend = true → Ahead (.foundSolution sol) S2M.isStatistics c.server.server.toManager := by
    intro sol info hunsent hsol hinfo hsend
    obtain ⟨table, hadded, hsent⟩ := hrows hsend
    have hne : sentStatistics c.server.server.toManager ≠ [] := by
      rw [hsent]
      rw [hcollected, hunsent] at hadded hone hroom
      exact hadded.started_ne_nil hone hroom hinfo
    rw [hlog, sentStatistics_append, (ht.addsUp.unsent hunsent).2, List.nil_append] at hne
    rw [hlog]
    exact .of_sent hsol ((any_isStatistics messages).2 hne)
  constructor
  · rw [hcluster]
    exact h.outboxes.step hc
  · rw [hcluster, hcollected]
    intro info hinfo hsolved
    cases hsend : s.cluster.server.server.statisticSend with
    | true =>
      rw [hsend, if_pos rfl, List.append_nil] at hinfo
      obtain ⟨sol, hof, hsol, hbefore⟩ := h.collected info hinfo hsolved
      refine ⟨sol, hof, hsol.step hc, ?_⟩
      intro _
      rw [hlog]
      exact (hbefore hsend).append messages
    | false =>
      rw [hsend, if_neg Bool.false_ne_true] at hinfo
      have htold : ∃ sol : SolutionInfo, sol.Of info ∧ s.cluster.Told sol := by
        rcases List.mem_append.1 hinfo with hold | hnew
        · obtain ⟨sol, hof, hsol, -⟩ := h.collected info hold hsolved
          exact ⟨sol, hof, hsol⟩
        · cases hpolled : s.cluster.polled a with
          | none =>
            rw [hpolled] at hnew
            cases hnew
          | some msg =>
            rw [hpolled] at hnew
            cases msg with
            | doneProcessing info' =>
              obtain rfl : info = info' := List.mem_singleton.1 hnew
              exact h.outboxes.polled hc hpolled hsolved
            | foundSolution _ | getInstances _ | disconnect => cases hnew
      obtain ⟨sol, hof, hsol⟩ := htold
      exact ⟨sol, hof, hsol.step hc, hahead hsend hsol hinfo⟩

theorem Got.told {got : List S2M} (h : s.Got got) {sol : SolutionInfo} (hsol : .foundSolution sol ∈ got) :
    s.cluster.Told sol := by
  have hin : .foundSolution sol ∈ s.cluster.server.server.toManager.filter S2M.logged := by
    rw [h.log]
    exact List.mem_filter.2 ⟨List.mem_append_left _ hsol, rfl⟩
  exact List.mem_of_mem_filter hin

/-- A solution that was told before the statistics has arrived with them. -/
theorem Got.arrived {got : List S2M} (h : s.Got got) (hall : s.Received) {sol : SolutionInfo}
    (hsol : Ahead (.foundSolution sol) S2M.isStatistics s.cluster.server.server.toManager) :
    .foundSolution sol ∈ got := by
  have hnone : (s.cluster.toManager.filter S2M.logged).any S2M.isStatistics = false := by
    rw [Bool.eq_false_iff]
    intro hany
    obtain ⟨msg, hmsg, hstat⟩ := List.any_eq_true.1 hany
    exact (any_isStatistics _).1 (List.any_eq_true.2 ⟨msg, List.mem_of_mem_filter hmsg, hstat⟩) hall.all
  have hlogged := hsol.filter (q := S2M.logged) rfl (by intro msg; cases msg <;> simp [S2M.isStatistics, S2M.logged])
  rw [h.log, List.filter_append] at hlogged
  rcases hlogged.receive rfl with hgot | hahead
  · exact List.mem_of_mem_filter hgot
  · exact absurd hahead (not_ahead hnone)

/-- As long as the counters of the server have room for the reports, which they have up to the end of the run. -/
theorem tells_of_runs {ok : List Action → Averaging → Action → Prop}
    (h : Traced (Averaging.step numWorkers) ok [] {} as s) :
    s.collected.length < 2 ^ 64 → s.Tells := by
  refine h.invariant (P := fun _ s => s.collected.length < 2 ^ 64 → s.Tells) (fun _ => .start) ?_
  intro _ s a s' hrun ih hok hs hroom
  have hrun' := hrun.snoc hok hs
  exact (ih ((step_collected hs).trans_lt hroom)).step (totalled hrun).1 (totalled hrun').1 (totalled hrun').2 hroom hs

/-- In every run of the system, whatever the executions measure: when the manager has received the statistics, it knows
of a solution if they count an instance as solved, and the fewest flips it has noted are those of a solution and no more
than those of any solved instance. A 64 bit counter has to have room for the reports, as it has for those about at most
2^32 files (`collected_lt`). -/
theorem solutions_known (numWorkers : Comm → UInt32) (ok : List Action → Averaging → Action → Prop) (as : List Action)
    (s : Averaging) (h : Traced (Averaging.step numWorkers) ok [] {} as s) (hroom : s.collected.length < 2 ^ 64)
    (hall : s.Received) :
    (∀ info ∈ s.collected, info.solved = true →
      s.cluster.manager.solutionFound = true ∧ s.statistic.minFlipsToSolve ≤ info.numFlipsDone) ∧
    (s.cluster.manager.solutionFound = true →
      ∃ sol, s.cluster.Told sol ∧ s.statistic.minFlipsToSolve = sol.numFlipsDone) := by
  obtain ⟨got, hgot⟩ : ∃ got, s.Got got := by
    refine h.invariant (P := fun _ s => ∃ got, s.Got got) ⟨[], rfl, rfl, rfl⟩ ?_
    rintro _ s a s' _ ⟨got, hgot⟩ _ hs
    exact hgot.step hs
  constructor
  · intro info hinfo hsolved
    obtain ⟨sol, hof, -, hbefore⟩ := (tells_of_runs h hroom).collected info hinfo hsolved
    have harrived := hgot.arrived hall (hbefore hall.sent)
    constructor
    · rw [hgot.found]
      exact List.any_eq_true.2 ⟨_, harrived, rfl⟩
    · rw [hgot.fewest, ← hof.flips]
      exact fewestFlips_le harrived
  · intro hfound
    rw [hgot.found] at hfound
    obtain ⟨sol, hsol, hfewest⟩ := fewestFlips_mem hfound
    exact ⟨sol, hgot.told hsol, hgot.fewest.trans hfewest⟩

theorem solutions_known_teamRun : ∃ s, FileRun (fun _ => 2) (fun _ => (1 : ℚ)) teamFiles teamRun s ∧
    s.Received ∧ s.statistic.minFlipsToSolve ≤ 2 ∧
      ∃ sol, s.cluster.Told sol ∧ s.statistic.minFlipsToSolve = sol.numFlipsDone := by
  obtain ⟨s, h, hfound, hcollected, -, hsend, hempty, -⟩ := exists_teamRun
  have hroom : s.collected.length < 2 ^ 64 := by
    rw [hcollected]
    decide
  obtain ⟨hsolved, hsome⟩ := solutions_known (fun _ => 2) _ teamRun s h hroom ⟨hsend, hempty⟩
  refine ⟨s, h, ⟨hsend, hempty⟩, ?_, hsome hfound⟩
  refine (hsolved { pairMeasured 2 true with instancesProcessed := 1 } ?_ rfl).2
  rw [hcollected]
  exact pairMeasured_mem_teamCollected

end Averaging

end ParallelProbsat.Communication
