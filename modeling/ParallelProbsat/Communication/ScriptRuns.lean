/-
What the manager makes of its script, whatever commands the server sends and whenever: it executes the lines that are
not empty one after the other, until one of them, or a command of the server, makes it leave its main loop. As long as
it knows of no solution, what it has sent is what these lines stand for. The commands are short ones, so that none of
them is announced with a request, at which `process_server_cmd` throws.
-/
import ParallelProbsat.Lib.Runs
import ParallelProbsat.Communication.Script

namespace ParallelProbsat.Communication

open ParallelProbsat.Lib ParallelProbsat.Util ParallelProbsat.Sat

/-- A command that is not announced with a request. -/
def Unannounced : Packet S2M → Prop
  | .request _ => False
  | .data n _ => n ≤ defaultMaxCmdLength

instance : ∀ p : Packet S2M, Decidable (Unannounced p)
  | .request _ => .isFalse id
  | .data _ _ => Nat.decLe _ _

/-- What the program meets in a step. -/
structure Poll where
  seen : Bool
  toServer : List M2S
  inbox : List (Packet S2M)

/-- No request has come from the server, and no command that needs one. -/
def Poll.Short (p : Poll) : Prop := ∀ q ∈ p.inbox, Unannounced q

instance (p : Poll) : Decidable p.Short := inferInstanceAs (Decidable (∀ q ∈ p.inbox, Unannounced q))

/-- The lines that commands of the server make the manager execute. -/
def stopLines : List Text := ["wait_for_server".toList, "exit".toList]

/-- The lines the manager comes to if nothing stops it. -/
def scriptLines (script : Text) (seekable : Bool) : List Text :=
  written (getlines '\n' script) ++ if seekable then written (getlines '\n' script) else []

/-- The messages these lines stand for. -/
def messagesOf (lines : List Text) : List M2S := lines.flatMap fun line => (commandOf line).messages

theorem messagesOf_snoc (lines : List Text) (line : Text) :
    messagesOf (lines ++ [line]) = messagesOf lines ++ (commandOf line).messages := by
  unfold messagesOf
  rw [List.flatMap_append, List.flatMap_singleton]

theorem stopLines_stop {line : Text} (h : line ∈ stopLines) : split line ≠ [] ∧ (commandOf line).stops = true := by
  simp only [stopLines, List.mem_cons, List.not_mem_nil, or_false] at h
  rcases h with rfl | rfl <;> decide +kernel

theorem Command.TooLong.stops {text1b : String → Nat} {cmd : Command} (h : cmd.TooLong text1b) : cmd.stops = false := by
  cases cmd with
  | addFile data => rfl
  | addWorkers _ | waitForServer | exit | other => cases h

theorem MainPoint.toManager_inj {p q : MainPoint} (hq : q.toManager ≠ .command) (h : p.toManager = q.toManager) :
    p = q := by
  cases p <;> cases q <;> simp_all [MainPoint.toManager]

namespace ManagerMain

def poll (text1b : String → Nat) (m : ManagerMain) (p : Poll) : Option ManagerMain :=
  (m.step text1b p.seen p.toServer p.inbox).map Prod.fst

variable {text1b : String → Nat} {lines : List Text} {m m' : ManagerMain}

/-- The lines of the input are executed in their order, then at most one more, and only the last one stops the
manager. -/
structure Orderly (text1b : String → Nat) (lines : List Text) (m : ManagerMain) : Prop where
  unbroken : Unbroken m.cin
  ready : m.point = .reading ∨ m.point = .undefined ∨ m.cin.failbit = false
  lines : m.fetched ++ m.left = lines
  defaultCmds : m.defaultCmds = [] ∨ (m.point = .command ∨ m.point = .exited) ∧
    ∃ line ∈ stopLines, m.defaultCmds = [line]
  executed : m.executed = m.fetched ∨ m.toManager.Stopping ∧ ∃ line ∈ stopLines, m.executed = m.fetched ++ [line]
  goes : ¬ m.toManager.Stopping → ∀ line ∈ m.executed, (commandOf line).stops = false
  stops : m.toManager.Stopping → ∃ front last, m.executed = front ++ [last] ∧
    (∀ line ∈ front, (commandOf line).stops = false) ∧ (commandOf last).stops = true
  running : m.running = false → m.point = .probing ∨ m.point = .exited
  exited : m.point = .exited → m.running = false
  undefined : m.point = .undefined → ∃ line ∈ m.fetched, split line = []
  aborted : m.point = .aborted → ∃ line ∈ m.fetched, (commandOf line).TooLong text1b
  failed : m.point ≠ .failed
  sends : (m.solutionFound = false → m.point ≠ .aborted → m.sent ++ m.toManager.point.owed = messagesOf m.executed) ∧
    (m.sent ++ m.toManager.point.owed).Sublist (messagesOf m.executed)

theorem Orderly.start (serverName script : Text) (seekable : Bool) :
    Orderly text1b (written (getlines '\n' script) ++ if seekable then written (getlines '\n' script) else [])
      (.start serverName script seekable) where
  unbroken := ⟨rfl, rfl⟩
  ready := .inr (.inr rfl)
  lines := by
    have hgood : (ManagerMain.start serverName script seekable).cin.good = true := rfl
    show [] ++ left _ = _
    unfold left
    rw [List.nil_append, if_pos hgood]
    rfl
  defaultCmds := .inl rfl
  executed := .inl rfl
  goes _ line hline := by cases hline
  stops h := by rcases h with h | h <;> cases h
  running h := by cases h
  exited h := by cases h
  undefined h := by cases h
  aborted h := by cases h
  failed h := by cases h
  sends := ⟨fun _ _ => rfl, List.nil_sublist _⟩

/-- The manager is about to execute this line. -/
structure Executes (lines : List Text) (line : Text) (m : ManagerMain) : Prop where
  unbroken : Unbroken m.cin
  failbit : m.cin.failbit = false
  lines : m.fetched ++ m.left = lines
  defaultCmds : m.defaultCmds = []
  executed : m.executed ++ [line] = m.fetched ∨ line ∈ stopLines ∧ m.executed = m.fetched
  goes : ∀ line ∈ m.executed, (commandOf line).stops = false
  running : m.running = true
  sends : (m.solutionFound = false → m.sent = messagesOf m.executed) ∧ m.sent.Sublist (messagesOf m.executed)

/-- A line that does not stop the manager is from the input. -/
theorem Executes.fetched {line : Text} (h : m.Executes lines line) (hgo : (commandOf line).stops = false) :
    m.executed ++ [line] = m.fetched ∧ line ∈ m.fetched := by
  have hfetched : m.executed ++ [line] = m.fetched := by
    rcases h.executed with he | ⟨hstop, -⟩
    · exact he
    · rw [(stopLines_stop hstop).2] at hgo
      cases hgo
  refine ⟨hfetched, ?_⟩
  rw [← hfetched]
  exact List.mem_append_right _ (List.mem_singleton_self _)

/-- The line is the last that is executed, and sends nothing. -/
theorem Executes.halts {line : Text} {p : MainPoint} (h : m.Executes lines line)
    (hp : (p = .undefined ∧ split line = []) ∨ (p = .aborted ∧ (commandOf line).TooLong text1b)) :
    Orderly text1b lines { m with executed := m.executed ++ [line], point := p } := by
  have hgo : (commandOf line).stops = false := by
    rcases hp with ⟨-, hsplit⟩ | ⟨-, hlong⟩
    · unfold commandOf
      rw [hsplit]
      rfl
    · exact hlong.stops
  obtain ⟨hfetched, hmem⟩ := h.fetched hgo
  have hpoint : p.toManager = .command := by
    rcases hp with ⟨rfl, -⟩ | ⟨rfl, -⟩ <;> rfl
  have hgoes : ¬ (Manager.Stopping { m.toManager with point := p.toManager }) :=
    Manager.not_stopping (by rw [hpoint]; simp) h.running
  constructor
  · exact h.unbroken
  · exact .inr (.inr h.failbit)
  · exact h.lines
  · exact .inl h.defaultCmds
  · exact .inl hfetched
  · intro _ l hl
    rcases List.mem_append.1 hl with hl | hl
    · exact h.goes l hl
    · rw [List.mem_singleton.1 hl]
      exact hgo
  · exact fun hs => absurd hs hgoes
  · intro hr
    exact absurd (h.running.symm.trans hr) (by simp)
  · rintro rfl
    rcases hp with ⟨hp, -⟩ | ⟨hp, -⟩ <;> cases hp
  · rintro rfl
    rcases hp with ⟨-, hsplit⟩ | ⟨hp, -⟩
    · exact ⟨line, hmem, hsplit⟩
    · cases hp
  · rintro rfl
    rcases hp with ⟨hp, -⟩ | ⟨-, hlong⟩
    · cases hp
    · exact ⟨line, hmem, hlong⟩
  · rintro rfl
    rcases hp with ⟨hp, -⟩ | ⟨hp, -⟩ <;> cases hp
  · show (m.solutionFound = false → p ≠ .aborted → m.sent ++ p.toManager.owed = messagesOf (m.executed ++ [line])) ∧
      (m.sent ++ p.toManager.owed).Sublist (messagesOf (m.executed ++ [line]))
    rw [messagesOf_snoc, hpoint, ManagerPoint.owed, List.append_nil]
    constructor
    · intro hno ha
      rcases hp with ⟨-, hsplit⟩ | ⟨hp, -⟩
      · have hother : commandOf line = .other := by
          unfold commandOf
          rw [hsplit]
          rfl
        rw [hother, Command.messages, List.append_nil]
        exact h.sends.1 hno
      · exact absurd hp ha
    · exact h.sends.2.trans (List.sublist_append_left _ _)

theorem Executes.performs {line : Text} (h : m.Executes lines line) {sent : List M2S}
    (hframe : m' = { m with
      executed := m.executed ++ [line]
      point := m'.point
      running := m'.running
      args := m'.args
      cerr := m'.cerr
      spawned := m'.spawned
      currentServerMaxCmdLength := m'.currentServerMaxCmdLength
      sent := m'.sent })
    (hsent : m'.sent = m.sent ++ sent) (hperf : m.toManager.execute (commandOf line) = (m'.toManager, sent)) :
    m'.Orderly text1b lines := by
  have hbegun := Manager.execute_begun (commandOf line) (m := m.toManager) h.running
  rw [hperf] at hbegun
  have hcin : m'.cin = m.cin := by rw [hframe]
  have hfetched : m'.fetched = m.fetched := by rw [hframe]
  have hexecuted : m'.executed = m.executed ++ [line] := by rw [hframe]
  have hdefault : m'.defaultCmds = m.defaultCmds := by rw [hframe]
  have hfound : m'.solutionFound = m.solutionFound := by rw [hframe]
  have hleft : m'.left = m.left := by
    unfold left
    rw [hcin, show m'.once = m.once by rw [hframe],
      show m'.seekable = m.seekable by rw [hframe]]
  have hpoint : ∀ {p : MainPoint}, p.toManager = .command ∨ p.toManager = .exited → m'.point ≠ p := by
    rintro p hp rfl
    have hat : (∃ n, m'.point.toManager = .adding n) ∨ m'.point.toManager = .waiting ∨
        m'.point.toManager = .probing := hbegun.point
    rcases hp with hp | hp <;> rw [hp] at hat <;> rcases hat with ⟨n, hat⟩ | hat | hat <;> cases hat
  constructor
  · rw [hcin]
    exact h.unbroken
  · rw [hcin]
    exact .inr (.inr h.failbit)
  · rw [hfetched, hleft]
    exact h.lines
  · rw [hdefault]
    exact .inl h.defaultCmds
  · rw [hexecuted, hfetched]
    rcases h.executed with he | ⟨hstop, he⟩
    · exact .inl he
    · rw [he]
      exact .inr ⟨hbegun.stops.2 (stopLines_stop hstop).2, line, hstop, rfl⟩
  · intro hgoes l hl
    rw [hexecuted] at hl
    rcases List.mem_append.1 hl with hl | hl
    · exact h.goes l hl
    · rw [List.mem_singleton.1 hl, Bool.eq_false_iff]
      exact fun hs => hgoes (hbegun.stops.2 hs)
  · intro hs
    exact ⟨m.executed, line, hexecuted, h.goes, hbegun.stops.1 hs⟩
  · intro hr
    exact .inl (MainPoint.toManager_inj (q := .probing) (by simp [MainPoint.toManager]) (hbegun.running hr))
  · exact fun hp => absurd hp (hpoint (.inr rfl))
  · exact fun hp => absurd hp (hpoint (.inl rfl))
  · exact fun hp => absurd hp (hpoint (.inl rfl))
  · exact hpoint (.inl rfl)
  · rw [hfound, hsent, hexecuted, messagesOf_snoc, List.append_assoc]
    constructor
    · intro hno _
      have hnew := hbegun.sends.1 hno
      rw [h.sends.1 hno, ← hnew]
    · exact h.sends.2.append hbegun.sends.2

theorem Executes.orderly {line : Text} (h : m.Executes lines line) :
    (m.executeLine text1b line).Orderly text1b lines := by
  by_cases hsplit : split line = []
  · rw [executeLine_undefined hsplit]
    exact h.halts (.inl ⟨rfl, hsplit⟩)
  · have hdoes := executeLine_does text1b hsplit m
    generalize m.executeLine text1b line = m' at hdoes
    cases hdoes with
    | performs hframe hsent hperf => exact h.performs hframe hsent hperf
    | aborts hlong => exact h.halts (.inr ⟨rfl, hlong⟩)

/-- At the head of a loop nothing is owed and nothing has stopped the manager. -/
structure Idles (m : ManagerMain) : Prop where
  running : m.running = true
  executed : m.executed = m.fetched
  goes : ∀ line ∈ m.executed, (commandOf line).stops = false
  sends : (m.solutionFound = false → m.sent = messagesOf m.executed) ∧ m.sent.Sublist (messagesOf m.executed)

/-- Before the probe that follows a command, the manager is running. -/
theorem Orderly.runs (h : m.Orderly text1b lines) (h1 : m.point ≠ .probing) (h2 : m.point ≠ .exited) :
    m.running = true := by
  rw [← Bool.not_eq_false]
  intro hr
  rcases h.running hr with he | he
  · exact h1 he
  · exact h2 he

theorem Orderly.idles (h : m.Orderly text1b lines) (hp : m.point = .command ∨ m.point = .reading) : m.Idles := by
  have hrunning : m.running = true := by
    rcases hp with hp | hp <;> exact h.runs (by simp [hp]) (by simp [hp])
  have hpoint : m.toManager.point = .command := by
    rcases hp with hp | hp <;> exact point_toManager hp
  have hgoes : ¬ m.toManager.Stopping := Manager.not_stopping (by rw [hpoint]; simp) hrunning
  have hnot : m.point ≠ .aborted := by
    rcases hp with hp | hp <;> rw [hp] <;> simp
  have hsends := h.sends
  rw [hpoint, ManagerPoint.owed, List.append_nil] at hsends
  exact ⟨hrunning, h.executed.resolve_right fun hs => hgoes hs.1, h.goes hgoes, fun hno => hsends.1 hno hnot, hsends.2⟩

theorem Orderly.failbit (h : m.Orderly text1b lines) (h1 : m.point ≠ .reading) (h2 : m.point ≠ .undefined) :
    m.cin.failbit = false := by
  rcases h.ready with he | he | he
  · exact absurd he h1
  · exact absurd he h2
  · exact he

/-- Nothing is to be executed of itself while the manager is at work. -/
theorem Orderly.defaultCmds_nil (h : m.Orderly text1b lines) (h1 : m.point ≠ .command) (h2 : m.point ≠ .exited) :
    m.defaultCmds = [] := by
  rcases h.defaultCmds with he | ⟨he | he, -⟩
  · exact he
  · exact absurd he h1
  · exact absurd he h2

theorem MainPoint.toManager_waiting (p : MainPoint) : p.toManager = .waiting ↔ p = .waiting := by
  cases p <;> simp [MainPoint.toManager]

/-- Where the manager is between two commands, is all that changes. -/
theorem Orderly.moves (h : m.Orderly text1b lines) {p : MainPoint} {cmds : List Text} (found : Bool)
    (howed : p.toManager.owed = m.toManager.point.owed) (hwait : p = .waiting ↔ m.point = .waiting)
    (hready : p = .reading ∨ m.cin.failbit = false) (hrunning : m.running = false → p = .probing ∨ p = .exited)
    (hexited : p = .exited → m.running = false) (hup : p ≠ .undefined ∧ p ≠ .aborted ∧ p ≠ .failed)
    (hnot : m.point ≠ .aborted)
    (hcmds : cmds = [] ∨ (p = .command ∨ p = .exited) ∧ ∃ line ∈ stopLines, cmds = [line])
    (hfound : found = false → m.solutionFound = false) :
    Orderly text1b lines { m with point := p, defaultCmds := cmds, solutionFound := found } := by
  have hstopping : Manager.Stopping
    (ManagerMain.toManager { m with point := p, defaultCmds := cmds, solutionFound := found }) ↔
      m.toManager.Stopping := by
    unfold Manager.Stopping toManager
    simp only [MainPoint.toManager_waiting, hwait]
  constructor
  · exact h.unbroken
  · exact hready.imp_right .inr
  · exact h.lines
  · exact hcmds
  · rw [hstopping]
    exact h.executed
  · rw [hstopping]
    exact h.goes
  · rw [hstopping]
    exact h.stops
  · exact hrunning
  · exact hexited
  · exact fun hp => absurd hp hup.1
  · exact fun hp => absurd hp hup.2.1
  · exact hup.2.2
  · show (found = false → p ≠ .aborted → m.sent ++ p.toManager.owed = _) ∧ (m.sent ++ p.toManager.owed).Sublist _
    rw [howed]
    exact ⟨fun hf _ => h.sends.1 (hfound hf) hnot, h.sends.2⟩

/-- Between the workers it adds. -/
theorem Orderly.adds (h : m.Orderly text1b lines) {n : Nat} (hp : m.point = .adding n) :
    (m.addSome n).Orderly text1b lines := by
  have howed := m.toManager.addSome_owed n
  obtain ⟨sent, hsent, hadd⟩ := addSome_performs n m
  rw [hadd] at howed
  have hframe := addSome_frame n m
  have hpoint : (∃ k, (m.addSome n).point = .adding k) ∨ (m.addSome n).point = .probing := by
    unfold addSome
    split
    · exact .inl ⟨_, rfl⟩
    · exact .inr rfl
  have hnot : ∀ {q : MainPoint}, (∀ k, q ≠ .adding k) → q ≠ .probing → (m.addSome n).point ≠ q := by
    rintro q h1 h2 rfl
    rcases hpoint with ⟨k, hk⟩ | hk
    · exact h1 k hk
    · exact h2 hk
  have hstopping : (m.addSome n).toManager.Stopping ↔ m.toManager.Stopping := by
    have hrun : (m.addSome n).running = m.running := by rw [hframe]
    unfold Manager.Stopping toManager
    simp only [MainPoint.toManager_waiting, hrun, hp]
    simp [hnot]
  have hrunning := h.runs (by simp [hp]) (by simp [hp])
  have hready := h.failbit (by simp [hp]) (by simp [hp])
  have hleft : (m.addSome n).left = m.left := by
    unfold left
    rw [hframe]
  constructor
  · rw [hframe]
    exact h.unbroken
  · rw [hframe]
    exact .inr (.inr hready)
  · rw [hleft, hframe]
    exact h.lines
  · rw [hframe]
    exact .inl (h.defaultCmds_nil (by simp [hp]) (by simp [hp]))
  · rw [hstopping, hframe]
    exact h.executed
  · rw [hstopping, hframe]
    exact h.goes
  · rw [hstopping, hframe]
    exact h.stops
  · intro hr
    rw [hframe] at hr
    exact absurd (hrunning.symm.trans hr) (by simp)
  · exact fun he => absurd he (hnot (by simp) (by simp))
  · exact fun he => absurd he (hnot (by simp) (by simp))
  · exact fun he => absurd he (hnot (by simp) (by simp))
  · exact hnot (by simp) (by simp)
  · have hsends := h.sends
    have hbefore : m.toManager.point.owed = List.replicate n (.addWorkers 1) := by
      rw [point_toManager hp]
      rfl
    rw [hbefore, ← howed, ← List.append_assoc, ← hsent] at hsends
    have hexecuted : (m.addSome n).executed = m.executed := by rw [hframe]
    have hfound : (m.addSome n).solutionFound = m.solutionFound := by rw [hframe]
    rw [hexecuted, hfound]
    exact ⟨fun hno _ => hsends.1 hno (by simp [hp]), hsends.2⟩

/-- DISCONNECT has arrived: what is owed is sent. -/
theorem Orderly.exits (h : m.Orderly text1b lines) (hp : m.point = .waiting) : m.doExit.Orderly text1b lines := by
  have hstops : m.toManager.Stopping := .inl (point_toManager hp)
  have hready := h.failbit (by simp [hp]) (by simp [hp])
  have hsends := h.sends
  have howed : m.toManager.point.owed = [.terminate] := by
    rw [point_toManager hp]
    rfl
  rw [howed] at hsends
  constructor
  · exact h.unbroken
  · exact .inr (.inr hready)
  · exact h.lines
  · exact .inl (h.defaultCmds_nil (by simp [hp]) (by simp [hp]))
  · exact h.executed.imp_right fun he => ⟨.inr rfl, he.2⟩
  · exact fun hgoes => absurd (.inr rfl) hgoes
  · exact fun _ => h.stops hstops
  · exact fun _ => .inl rfl
  · intro he
    cases he
  · intro he
    cases he
  · intro he
    cases he
  · intro he
    cases he
  · show (m.solutionFound = false → _ → (m.sent ++ [M2S.terminate]) ++ [] = _) ∧
      ((m.sent ++ [M2S.terminate]) ++ []).Sublist _
    rw [List.append_nil]
    exact ⟨fun hno _ => hsends.1 hno (by simp [hp]), hsends.2⟩

/-- A line is taken from the input, or passed. -/
theorem Orderly.reads (h : m.Orderly text1b lines) (hp : m.point = .reading) :
    (m.readLine text1b).Orderly text1b lines := by
  have hidle := h.idles (.inr hp)
  have hcmds := h.defaultCmds_nil (by simp [hp]) (by simp [hp])
  have hreads := readLine_reads text1b h.unbroken
  generalize m.readLine text1b = m' at hreads
  cases hreads with
  | passes _ hbroken hleft _ =>
    constructor
    · exact hbroken
    · exact .inl hp
    · show m.fetched ++ _ = lines
      rw [hleft]
      exact h.lines
    · exact h.defaultCmds
    · exact h.executed
    · exact h.goes
    · exact h.stops
    · exact h.running
    · exact h.exited
    · exact h.undefined
    · exact h.aborted
    · exact h.failed
    · exact h.sends
  | @takes cin line _ hbroken hfail hleft =>
    have hlines := h.lines
    rw [hleft, ← List.singleton_append, ← List.append_assoc] at hlines
    refine Executes.orderly ?_
    exact ⟨hbroken, hfail, hlines, hcmds, .inl (by rw [hidle.executed]), hidle.goes, hidle.running, hidle.sends⟩

/-- The manager looks for a message, which may be handled and make it execute a line. -/
theorem Orderly.probes (h : m.Orderly text1b lines) (hp : m.point = .probing) {cmds : List Text} (found : Bool)
    (hcmds : cmds = [] ∨ ∃ line ∈ stopLines, cmds = [line]) (hfound : found = false → m.solutionFound = false) :
    Orderly text1b lines { m with
      point := if m.running then .command else .exited, defaultCmds := cmds, solutionFound := found } := by
  have hfail := h.failbit (by simp [hp]) (by simp [hp])
  have howed : m.toManager.point.owed = [] := by
    rw [point_toManager hp]
    rfl
  apply h.moves
  · rw [howed]
    split <;> rfl
  · rw [hp]
    split <;> simp
  · exact .inr hfail
  · intro hr
    rw [hr]
    exact .inr rfl
  · cases m.running <;> simp
  · split <;> simp
  · simp [hp]
  · refine hcmds.imp_right fun hline => ⟨?_, hline⟩
    cases m.running <;> simp
  · exact hfound

theorem Orderly.step {seen : Bool} {toServer : List M2S} {inbox rest : List (Packet S2M)} (h : m.Orderly text1b lines)
    (hshort : ∀ q ∈ inbox, Unannounced q) (hs : m.step text1b seen toServer inbox = some (m', rest)) :
    m'.Orderly text1b lines := by
  unfold ManagerMain.step at hs
  split at hs
  · rename_i hp
    have hidle := h.idles (.inl hp)
    have hfail := h.failbit (by simp [hp]) (by simp [hp])
    split at hs
    · rename_i hcmds
      rw [hfail, h.unbroken.badbit, if_neg (by simp)] at hs
      cases hs
      have hmoved : Orderly text1b lines
          { m with point := .reading, defaultCmds := [], solutionFound := m.solutionFound } := by
        apply h.moves
        · rw [point_toManager hp]
          rfl
        · simp [hp]
        · exact .inl rfl
        · exact fun hr => absurd (hidle.running.symm.trans hr) (by simp)
        · simp
        · simp
        · simp [hp]
        · exact .inl rfl
        · exact id
      rw [← hcmds] at hmoved
      exact hmoved
    · rename_i line rest' hcmds
      cases hs
      obtain ⟨-, line', hstop, hone⟩ := h.defaultCmds.resolve_left (by rw [hcmds]; simp)
      rw [hcmds] at hone
      obtain ⟨rfl, rfl⟩ := List.cons.inj hone
      refine Executes.orderly ?_
      exact ⟨h.unbroken, hfail, h.lines, rfl, .inr ⟨hstop, hidle.executed⟩, hidle.goes, hidle.running, hidle.sends⟩
  · rename_i hp
    cases hs
    exact h.reads hp
  · rename_i n hp
    split at hs <;> cases hs
    exact h.adds hp
  · rename_i hp
    split at hs
    · cases hs
    · rename_i q rest'
      cases hs
      have hq := hshort q (List.mem_cons_self ..)
      have hcmds := h.defaultCmds_nil (by simp [hp]) (by simp [hp])
      have hfail := h.failbit (by simp [hp]) (by simp [hp])
      cases q with
      | request n => cases hq
      | data n msg =>
        cases msg with
        | foundSolution _ =>
          exact h.moves true rfl Iff.rfl (.inr hfail) h.running h.exited (by simp [hp]) (by simp [hp]) (.inl hcmds)
            (by simp)
        | sendStatistics _ _ => exact h
        | disconnect => exact h.exits hp
  · rename_i hp
    have hnone := h.defaultCmds_nil (by simp [hp]) (by simp [hp])
    split at hs
    · rename_i q rest'
      cases hs
      have hq := hshort q (List.mem_cons_self ..)
      cases q with
      | request n => cases hq
      | data n msg =>
        cases msg with
        | foundSolution _ =>
          refine h.probes hp true (.inr ⟨"wait_for_server".toList, by simp [stopLines], ?_⟩) ?_
          · show _ :: m.defaultCmds = _
            rw [hnone]
          · intro hf
            cases hf
        | sendStatistics _ _ => exact h.probes hp m.solutionFound (.inl hnone) id
        | disconnect =>
          refine h.probes hp m.solutionFound (.inr ⟨"exit".toList, by simp [stopLines], ?_⟩) id
          show _ :: m.defaultCmds = _
          rw [hnone]
    · cases hs
      exact h.probes hp m.solutionFound (.inl hnone) id
  · cases hs
  · cases hs
  · cases hs
  · cases hs

/-! ## Runs -/

/-- The runs of the program on this input, whatever short commands it meets. -/
abbrev ScriptRun (text1b : String → Nat) (serverName script : Text) (seekable : Bool) (polls : List Poll)
    (m : ManagerMain) : Prop :=
  Traced (poll text1b) (fun _ _ p => p.Short) [] (.start serverName script seekable) polls m

theorem poll_some {p : Poll} (h : m.poll text1b p = some m') :
    ∃ rest, m.step text1b p.seen p.toServer p.inbox = some (m', rest) := by
  obtain ⟨⟨m₁, rest⟩, hs, rfl⟩ := Option.map_eq_some_iff.1 h
  exact ⟨rest, hs⟩

theorem orderly_of_runs {serverName script : Text} {seekable : Bool} {polls : List Poll}
    (h : ScriptRun text1b serverName script seekable polls m) : m.Orderly text1b (scriptLines script seekable) := by
  refine h.invariant (P := fun _ s => s.Orderly text1b (scriptLines script seekable))
    (Orderly.start serverName script seekable) ?_
  intro _ s p s' _ hs hshort hstep
  obtain ⟨rest, hstep⟩ := poll_some hstep
  exact hs.step hshort hstep

/-- When the input is used up, the manager reads on and does nothing else. -/
theorem reading_forever {polls polls' : List Poll} (h : Traced (poll text1b) (fun _ _ _ => True) polls m polls' m')
    (hp : m.point = .reading) (hleft : m.left = []) (hbroken : Unbroken m.cin) :
    m'.point = .reading ∧ m'.executed = m.executed ∧ m'.sent = m.sent := by
  suffices hall : (m'.point = .reading ∧ m'.left = [] ∧ Unbroken m'.cin) ∧ m'.executed = m.executed ∧
    m'.sent = m.sent from
    ⟨hall.1.1, hall.2⟩
  refine h.invariant (P := fun _ s => (s.point = .reading ∧ s.left = [] ∧ Unbroken s.cin) ∧
    s.executed = m.executed ∧ s.sent = m.sent)
    ⟨⟨hp, hleft, hbroken⟩, rfl, rfl⟩ ?_
  rintro _ s p s' _ ⟨⟨hsp, hsleft, hsbroken⟩, he, hsent⟩ _ hstep
  obtain ⟨rest, hstep⟩ := poll_some hstep
  unfold ManagerMain.step at hstep
  rw [hsp] at hstep
  cases hstep
  have hreads := readLine_reads text1b hsbroken
  generalize s.readLine text1b = s' at hreads
  cases hreads with
  | passes _ hbroken' hleft' _ => exact ⟨⟨hsp, hleft'.trans hsleft, hbroken'⟩, he, hsent⟩
  | takes _ _ _ hleft' =>
    rw [hsleft] at hleft'
    cases hleft'

/-- What the manager has made of its input: `done` are the lines of it that are executed. -/
structure Executed (text1b : String → Nat) (lines : List Text) (polls : List Poll) (m : ManagerMain)
    (done last : List Text) : Prop where
  executed : m.executed = done ++ last
  order : done <+: lines
  /-- A command of the server makes the manager execute one more line, which stops it. -/
  ending : last = [] ∨ ∃ line ∈ stopLines, last = [line]
  /-- Only the last line executed stops the manager. -/
  stops : ∀ line ∈ m.executed.dropLast, (commandOf line).stops = false
  exited : m.point = .exited → ∃ line ∈ m.executed.getLast?, (commandOf line).stops = true
  undefined : m.point = .undefined → ∃ line ∈ done, split line = []
  aborted : m.point = .aborted → ∃ line ∈ done, (commandOf line).TooLong text1b
  /-- No exception leaves the main loop. -/
  failed : m.point ≠ .failed
  sends : m.solutionFound = false → m.point ≠ .aborted → m.sent ++ m.toManager.point.owed = messagesOf m.executed
  sublist : (m.sent ++ m.toManager.point.owed).Sublist (messagesOf m.executed)
  /-- Nothing follows when the input is used up. -/
  ends : done = lines → m.point = .reading → ∀ polls' m', Traced (poll text1b) (fun _ _ _ => True) polls m polls' m' →
    m'.point = .reading ∧ m'.executed = m.executed ∧ m'.sent = m.sent

theorem Orderly.dropLast (h : m.Orderly text1b lines) :
    ∀ line ∈ m.executed.dropLast, (commandOf line).stops = false := by
  by_cases hs : m.toManager.Stopping
  · obtain ⟨front, last, he, hfront, -⟩ := h.stops hs
    rw [he, List.dropLast_concat]
    exact hfront
  · intro line hline
    exact h.goes hs line (List.mem_of_mem_dropLast hline)

theorem Orderly.getLast (h : m.Orderly text1b lines) (hp : m.point = .exited) :
    ∃ line ∈ m.executed.getLast?, (commandOf line).stops = true := by
  obtain ⟨front, last, he, -, hlast⟩ := h.stops (.inr (h.exited hp))
  refine ⟨last, ?_, hlast⟩
  rw [he, List.getLast?_concat]
  rfl

theorem Orderly.made (h : m.Orderly text1b lines) (polls : List Poll) :
    ∃ last, m.Executed text1b lines polls m.fetched last := by
  obtain ⟨last, he, hlast⟩ :
      ∃ last, m.executed = m.fetched ++ last ∧ (last = [] ∨ ∃ line ∈ stopLines, last = [line]) := by
    rcases h.executed with he | ⟨-, line, hline, he⟩
    · exact ⟨[], by rw [he, List.append_nil], .inl rfl⟩
    · exact ⟨[line], he, .inr ⟨line, hline, rfl⟩⟩
  refine ⟨last, ?_⟩
  constructor
  · exact he
  · exact ⟨m.left, h.lines⟩
  · exact hlast
  · exact h.dropLast
  · exact h.getLast
  · exact h.undefined
  · exact h.aborted
  · exact h.failed
  · exact h.sends.1
  · exact h.sends.2
  · intro hall hp polls' m' hrun
    refine reading_forever hrun hp ?_ h.unbroken
    have hlines := h.lines
    rw [hall] at hlines
    exact List.append_right_eq_self.1 hlines

/-- The lines of the input are executed in their order, those of a file up to twice, until one of them, or a command of
the server, stops the manager. What it sends, and nothing else, is what these lines stand for as long as it knows of no
solution and no command was too long to be sent. When nothing stops it, it reads on for ever. -/
theorem script_executed (text1b : String → Nat) (serverName script : Text) (seekable : Bool) {polls : List Poll}
    (h : ScriptRun text1b serverName script seekable polls m) :
    ∃ done last, m.Executed text1b (scriptLines script seekable) polls done last := by
  obtain ⟨last, hlast⟩ := (orderly_of_runs h).made polls
  exact ⟨m.fetched, last, hlast⟩

/-- Neither the server nor its messages hold up the manager. -/
def free : Poll := ⟨false, [], []⟩

def exitScript : Text := "\nadd_file 1 5 a.cnf\nadd_workers 2\nexit\n".toList

/-- A solution comes before the manager has read `exit`, and then DISCONNECT. -/
def solvedPolls : List Poll :=
  List.replicate 8 free ++
    [⟨true, [], [.data 46 (.foundSolution { filename := "a.cnf" })]⟩, free, ⟨true, [], [.data 0 .disconnect]⟩, free]

theorem script_executed_exitScript : ∃ m, ScriptRun Reporting.compactText [] exitScript true solvedPolls m ∧
    m.point = .exited ∧
    m.sent = [.addFile ⟨1, 5, "a.cnf"⟩, .addWorkers 1, .addWorkers 1, .terminate] ∧
    ∃ done last, m.Executed Reporting.compactText (scriptLines exitScript true) solvedPolls done last := by
  have hrun : (replay (poll Reporting.compactText) (fun _ _ p => p.Short) []
    (.start [] exitScript true) solvedPolls).map
      (fun m => (m.point, m.sent)) =
        some (.exited, [.addFile ⟨1, 5, "a.cnf"⟩, .addWorkers 1, .addWorkers 1, .terminate]) := by
    decide +kernel
  obtain ⟨m, hm, he⟩ := Option.map_eq_some_iff.1 hrun
  obtain ⟨hp, hsent⟩ := Prod.mk.inj he
  exact ⟨m, .of_replay hm, hp, hsent, script_executed Reporting.compactText [] exitScript true (.of_replay hm)⟩

end ManagerMain

end ParallelProbsat.Communication
