/-
The manager gets through its script: as long as it is not held up by the server it executes line after line, until one
stops it or the input is used up. An infinite run in which no request comes ends in `cmd_wait_for_server`, or reading an
input that gives no more.
-/
import Mathlib.Data.Prod.Lex
import ParallelProbsat.Communication.ScriptRuns

namespace ParallelProbsat.Communication

open ParallelProbsat.Lib ParallelProbsat.Util ParallelProbsat.Sat

theorem Manager.execute_running (cmd : Command) (m : Manager) :
    (m.execute cmd).1.running = m.running ∨ (m.execute cmd).1.running = false := by
  cases cmd with
  | addWorkers n =>
    refine .inl ?_
    unfold execute
    simp only
    split
    · rfl
    · unfold addSome
      split <;> rfl
  | addFile _ | waitForServer | other => exact .inl rfl
  | exit => exact .inr rfl

/-- How far it is from a point to the next line of the input. -/
def MainPoint.distance : MainPoint → Nat
  | .adding numWorkersToAdd => numWorkersToAdd + 4
  | .probing => 3
  | .command => 2
  | .reading => 1
  | .waiting | .exited | .failed | .aborted | .undefined => 0

namespace ManagerMain

variable {text1b : String → Nat} {lines : List Text} {m m' : ManagerMain}

/-- The manager waits for the server, or reads an input that is used up. -/
def Settled (m : ManagerMain) : Prop := m.point = .waiting ∨ (m.point = .reading ∧ m.left = [])

/-! ## What every step lowers -/

/-- Whether the manager is running, how many lines are left, how far it is to the next of them, and how many rounds of
reading it takes to get it. -/
def toGo (m : ManagerMain) : Nat ×ₗ Nat ×ₗ Nat ×ₗ Nat ×ₗ Nat :=
  toLex (m.running.toNat, toLex (m.left.length, toLex (m.point.distance, toLex (m.once.toNat, ahead m.cin))))

theorem toGo_running (h : m.running = true) (h' : m'.running = false) : m'.toGo < m.toGo := by
  unfold toGo
  rw [Prod.Lex.toLex_lt_toLex, h, h']
  exact .inl Nat.zero_lt_one

theorem toGo_left (hr : m'.running = m.running) (hl : m'.left.length < m.left.length) : m'.toGo < m.toGo := by
  unfold toGo
  rw [Prod.Lex.toLex_lt_toLex, Prod.Lex.toLex_lt_toLex, hr]
  exact .inr ⟨rfl, .inl hl⟩

theorem toGo_point (hr : m'.running = m.running) (hl : m'.left = m.left) (hp : m'.point.distance < m.point.distance) :
    m'.toGo < m.toGo := by
  unfold toGo
  rw [Prod.Lex.toLex_lt_toLex, Prod.Lex.toLex_lt_toLex, Prod.Lex.toLex_lt_toLex, hr, hl]
  exact .inr ⟨rfl, .inr ⟨rfl, .inl hp⟩⟩

theorem toGo_reading {cin : IFStream} {once : Bool}
    (hl : ({ m with cin := cin, once := once } : ManagerMain).left = m.left)
    (h : (m.once = true ∧ once = false) ∨ (once = m.once ∧ ahead cin < ahead m.cin)) :
    ({ m with cin := cin, once := once } : ManagerMain).toGo < m.toGo := by
  unfold toGo
  rw [Prod.Lex.toLex_lt_toLex, Prod.Lex.toLex_lt_toLex, Prod.Lex.toLex_lt_toLex, Prod.Lex.toLex_lt_toLex, hl]
  refine .inr ⟨rfl, .inr ⟨rfl, .inr ⟨rfl, ?_⟩⟩⟩
  rcases h with ⟨h1, h2⟩ | ⟨h1, h2⟩
  · rw [h1, h2]
    exact .inl Nat.zero_lt_one
  · exact .inr ⟨by rw [h1], h2⟩

theorem executeLine_left (text1b : String → Nat) (line : Text) (m : ManagerMain) :
    (m.executeLine text1b line).left = m.left := by
  by_cases hsplit : split line = []
  · rw [executeLine_undefined hsplit]
    rfl
  · have hdoes := executeLine_does text1b hsplit m
    generalize m.executeLine text1b line = m' at hdoes
    cases hdoes with
    | performs hframe =>
      unfold left
      rw [hframe]
    | aborts => rfl

theorem executeLine_running (text1b : String → Nat) (line : Text) (m : ManagerMain) :
    (m.executeLine text1b line).running = m.running ∨ (m.executeLine text1b line).running = false := by
  by_cases hsplit : split line = []
  · rw [executeLine_undefined hsplit]
    exact .inl rfl
  · have hdoes := executeLine_does text1b hsplit m
    generalize m.executeLine text1b line = m' at hdoes
    cases hdoes with
    | performs _ _ hperf =>
      have hrunning := Manager.execute_running (commandOf line) m.toManager
      replace hperf : m.toManager.execute (commandOf line) = _ := hperf
      rw [hperf] at hrunning
      exact hrunning
    | aborts => exact .inl rfl

/-- A line of the input is executed. -/
theorem toGo_takes {cin : IFStream} {line : Text} (hr : m.running = true)
    (hleft : m.left = line :: ({ m with cin := cin } : ManagerMain).left) :
    (({ m with cin := cin, fetched := m.fetched ++ [line] } : ManagerMain).executeLine text1b line).toGo < m.toGo := by
  rcases executeLine_running text1b line { m with cin := cin, fetched := m.fetched ++ [line] } with hsame | hstop
  · refine toGo_left hsame ?_
    rw [executeLine_left, hleft]
    exact Nat.lt_succ_self _
  · exact toGo_running hr hstop

/-- A line that stops the manager is executed. -/
theorem toGo_stops {line : Text} (hp : m.point = .command) (hr : m.running = true) (hstop : line ∈ stopLines) :
    (({ m with defaultCmds := [] } : ManagerMain).executeLine text1b line).toGo < m.toGo := by
  obtain ⟨hsplit, hstops⟩ := stopLines_stop hstop
  have hrunning := executeLine_running text1b line { m with defaultCmds := [] }
  have hleft := executeLine_left text1b line { m with defaultCmds := [] }
  have hdoes := executeLine_does text1b hsplit { m with defaultCmds := [] }
  generalize ({ m with defaultCmds := [] } : ManagerMain).executeLine text1b line = m' at hrunning hleft hdoes
  cases hdoes with
  | performs _ _ hperf =>
    have hbegun := Manager.execute_begun (commandOf line)
      (show (toManager { m with defaultCmds := [], executed := m.executed ++ [line] }).running = true from hr)
    rw [hperf] at hbegun
    rcases hbegun.stops.2 hstops with hwait | hdone
    · rcases hrunning with hsame | hdone
      · refine toGo_point hsame hleft ?_
        rw [(MainPoint.toManager_waiting _).1 hwait, hp]
        exact Nat.zero_lt_two
      · exact toGo_running hr hdone
    · exact toGo_running hr hdone
  | aborts hlong =>
    rw [hlong.stops] at hstops
    cases hstops

theorem toGo_step {p : Poll} (h : m.Orderly text1b lines) (hshort : p.Short) (hgo : ¬ m.Settled)
    (hpoll : m.poll text1b p = some m') : m'.toGo < m.toGo := by
  obtain ⟨seen, toServer, inbox⟩ := p
  obtain ⟨rest, hs⟩ := poll_some hpoll
  unfold ManagerMain.step at hs
  split at hs
  · rename_i hp
    have hidle := h.idles (.inl hp)
    have hfail := h.failbit (by simp [hp]) (by simp [hp])
    split at hs
    · rw [hfail, h.unbroken.badbit, if_neg (by simp)] at hs
      cases hs
      refine toGo_point rfl rfl ?_
      rw [hp]
      exact Nat.one_lt_two
    · rename_i line rest' hcmds
      cases hs
      obtain ⟨-, line', hstop, hone⟩ := h.defaultCmds.resolve_left (by rw [hcmds]; simp)
      rw [hcmds] at hone
      obtain ⟨rfl, rfl⟩ := List.cons.inj hone
      exact toGo_stops hp hidle.running hstop
  · rename_i hp
    cases hs
    have hidle := h.idles (.inr hp)
    have hreads := readLine_reads text1b h.unbroken
    generalize m.readLine text1b = m' at hreads
    cases hreads with
    | passes _ _ hleft hless => exact toGo_reading hleft (hless.resolve_left fun hnil => hgo (.inr ⟨hp, hnil⟩))
    | takes _ _ _ hleft => exact toGo_takes hidle.running hleft
  · rename_i n hp
    split at hs <;> cases hs
    have hframe := addSome_frame n m
    refine toGo_point (by rw [hframe]) (by unfold left; rw [hframe]) ?_
    rw [hp]
    unfold addSome
    split
    · rename_i hpos
      have hmin : min maxSimultaneousConnectionAttempts n = 1 := by
        unfold maxSimultaneousConnectionAttempts
        omega
      simp only [hmin, MainPoint.distance]
      omega
    · simp only [MainPoint.distance]
      omega
  · rename_i hp
    exact absurd (.inl hp) hgo
  · rename_i hp
    have hless : (if m.running then MainPoint.command else .exited).distance < m.point.distance := by
      rw [hp]
      split <;> decide
    simp only at hs
    split at hs
    · rename_i q rest'
      cases hs
      have hq := hshort q (List.mem_cons_self ..)
      cases q with
      | request n => cases hq
      | data n msg => cases msg <;> exact toGo_point rfl rfl hless
    · cases hs
      exact toGo_point rfl rfl hless
  · cases hs
  · cases hs
  · cases hs
  · cases hs

/-! ## Infinite runs -/

/-- The states of an infinite run of the program on this input, whatever short commands it meets. -/
structure Endless (text1b : String → Nat) (serverName script : Text) (seekable : Bool) (f : Nat → ManagerMain) :
    Prop where
  start : f 0 = .start serverName script seekable
  step : ∀ k, ∃ p : Poll, p.Short ∧ (f k).poll text1b p = some (f (k + 1))

section Endless

variable {serverName script : Text} {seekable : Bool} {f : Nat → ManagerMain}

theorem Endless.run (h : Endless text1b serverName script seekable f) (k : Nat) :
    ∃ polls, ScriptRun text1b serverName script seekable polls (f k) := by
  induction k with
  | zero =>
    rw [h.start]
    exact ⟨[], .start⟩
  | succ k ih =>
    obtain ⟨polls, hpolls⟩ := ih
    obtain ⟨p, hshort, hp⟩ := h.step k
    exact ⟨polls ++ [p], hpolls.snoc hshort hp⟩

theorem Endless.goes (h : Endless text1b serverName script seekable f) {k j : Nat} (hj : k ≤ j) (polls : List Poll) :
    ∃ polls', Traced (poll text1b) (fun _ _ _ => True) polls (f k) polls' (f j) := by
  induction hj with
  | refl => exact ⟨polls, .start⟩
  | @step j _ ih =>
    obtain ⟨polls', hpolls⟩ := ih
    obtain ⟨p, -, hp⟩ := h.step j
    exact ⟨polls' ++ [p], hpolls.snoc trivial hp⟩

/-- With DISCONNECT the main loop would be left and the run would end. -/
theorem Endless.running (h : Endless text1b serverName script seekable f) (k : Nat) (hk : (f k).point = .probing) :
    (f k).running = true := by
  rw [← Bool.not_eq_false]
  intro hstop
  obtain ⟨⟨seen, toServer, inbox⟩, hshort, hpoll⟩ := h.step k
  obtain ⟨rest, hs⟩ := poll_some hpoll
  have hnext : (if (f k).running = true then MainPoint.command else .exited) = .exited := by
    rw [hstop]
    rfl
  have hexited : (f (k + 1)).point = .exited := by
    unfold ManagerMain.step at hs
    rw [hk] at hs
    generalize f (k + 1) = m' at hs
    cases inbox with
    | nil =>
      cases hs
      exact hnext
    | cons q rest' =>
      have hq := hshort q (List.mem_cons_self ..)
      cases q with
      | request n => cases hq
      | data n msg => cases seen <;> cases hs <;> cases msg <;> exact hnext
  obtain ⟨p', -, hpoll'⟩ := h.step (k + 1)
  obtain ⟨rest', hs'⟩ := poll_some hpoll'
  unfold ManagerMain.step at hs'
  rw [hexited] at hs'
  cases hs'

theorem Endless.waits (h : Endless text1b serverName script seekable f) {k : Nat} (hk : (f k).point = .waiting) :
    (f (k + 1)).point = .waiting := by
  obtain ⟨⟨seen, toServer, inbox⟩, hshort, hpoll⟩ := h.step k
  obtain ⟨rest, hs⟩ := poll_some hpoll
  have hrunning := h.running (k + 1)
  unfold ManagerMain.step at hs
  rw [hk] at hs
  generalize f (k + 1) = m' at hs hrunning
  cases inbox with
  | nil => cases hs
  | cons q rest' =>
    cases hs
    have hq := hshort q (List.mem_cons_self ..)
    cases q with
    | request n => cases hq
    | data n msg =>
      cases msg with
      | foundSolution _ | sendStatistics _ _ => exact hk
      | disconnect => cases hrunning rfl

/-- However long the manager runs without a request from the server, it comes to wait for the server, for ever, or has
executed its whole script and reads on without doing anything. -/
theorem script_settles (text1b : String → Nat) (serverName script : Text) (seekable : Bool) {f : Nat → ManagerMain}
    (h : Endless text1b serverName script seekable f) :
    ∃ k, (∀ j, k ≤ j → (f j).point = .waiting) ∨
      ∀ j, k ≤ j → (f j).point = .reading ∧ (f j).executed = scriptLines script seekable ∧ (f j).sent = (f k).sent := by
  have horderly : ∀ k, (f k).Orderly text1b (scriptLines script seekable) := by
    intro k
    obtain ⟨polls, hpolls⟩ := h.run k
    exact orderly_of_runs hpolls
  obtain ⟨k, hk⟩ : ∃ k, (f k).Settled := by
    refine exists_of_descends toGo ?_
    intro k hgo
    obtain ⟨p, hshort, hp⟩ := h.step k
    exact toGo_step (horderly k) hshort hgo hp
  refine ⟨k, ?_⟩
  rcases hk with hwait | ⟨hread, hleft⟩
  · left
    intro j hj
    induction hj with
    | refl => exact hwait
    | step _ ih => exact h.waits ih
  · right
    intro j hj
    have hall : (f k).executed = scriptLines script seekable := by
      have hlines := (horderly k).lines
      rw [hleft, List.append_nil] at hlines
      rw [((horderly k).idles (.inr hread)).executed, hlines]
    obtain ⟨polls', hrun⟩ := h.goes hj []
    obtain ⟨hpoint, hexecuted, hsent⟩ := reading_forever hrun hread hleft (horderly k).unbroken
    exact ⟨hpoint, hexecuted.trans hall, hsent⟩

end Endless

/-! ## A script that is read to its end -/

def helpScript : Text := "help\n\nadd_workers 2".toList

def helpRun (k : Nat) : ManagerMain :=
  (fun m => (m.poll Reporting.compactText free).getD m)^[k] (.start [] helpScript false)

theorem helpRun_settles : ∀ k, helpRun (k + 11) = helpRun 11
  | 0 => rfl
  | k + 1 => by
    have hnext : helpRun (k + 11 + 1) = ((helpRun (k + 11)).poll Reporting.compactText free).getD (helpRun (k + 11)) :=
      Function.iterate_succ_apply' _ _ _
    rw [show k + 1 + 11 = k + 11 + 1 from rfl, hnext, helpRun_settles k]
    rfl

theorem helpRun_endless : Endless Reporting.compactText [] helpScript false helpRun where
  start := rfl
  step k := by
    refine ⟨free, nofun, ?_⟩
    rcases Nat.lt_or_ge k 11 with hlt | hge
    · interval_cases k <;> rfl
    · obtain ⟨j, rfl⟩ := Nat.exists_eq_add_of_le' hge
      rw [helpRun_settles j, show j + 11 + 1 = j + 1 + 11 from rfl, helpRun_settles (j + 1)]
      rfl

theorem script_settles_helpRun : ∃ k, (∀ j, k ≤ j → (helpRun j).point = .waiting) ∨
    ∀ j, k ≤ j → (helpRun j).point = .reading ∧ (helpRun j).executed = scriptLines helpScript false ∧
      (helpRun j).sent = (helpRun k).sent :=
  script_settles Reporting.compactText [] helpScript false helpRun_endless

end ManagerMain

end ParallelProbsat.Communication
