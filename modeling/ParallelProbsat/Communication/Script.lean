/-
The main program of the manager (`manager.cpp`): it reads command lines from its input, splits them into words and
executes them, one by one, and looks for a message of the server after each. When the input ends it goes back to its
start, once; on an input that is no file, and at the second end, it reads on for ever. A file name too long for ADD_FILE
fails an assertion. At a request for a larger buffer `process_server_cmd` throws: a waiting manager goes on with the
next line, a probing one ends.

`Manager` is what is left of it when a line is taken for the command it stands for. As long as no request comes, every
step of the program is a step of that, or none.
-/
import ParallelProbsat.Communication.Reports
import ParallelProbsat.Sat.ConfigurationLine
import ParallelProbsat.Sat.Streams

namespace ParallelProbsat.Communication

open ParallelProbsat.Lib ParallelProbsat.Util ParallelProbsat.Sat

/-! ## Lines -/

/-- The words an `istream_iterator` reads until an extraction fails, in at most `fuel` steps. -/
def extractWords : Nat → IStream → List Text
  | 0, _ => []
  | fuel + 1, is =>
    let (is, word) := is.extractWord []
    if is.fail then [] else word :: extractWords fuel is

/-- `split`; every extraction takes a character. -/
def split (s : Text) : List Text := extractWords (s.length + 1) (.ofText s)

/-- `std::stoi`: what stands behind the digits is ignored. -/
def stoi (s : Text) : Except Exn Int :=
  match readNumber s with
  | none => .error (.invalidArgument "stoi")
  | some (x, _) => if -2 ^ 31 ≤ x ∧ x < 2 ^ 31 then .ok x else .error (.outOfRange "stoi")

def what : Exn → String
  | .runtimeError what | .outOfRange what | .invalidArgument what | .assertion what | .nested what _ => what

/-- `clear()` and then `seekg(0)`, which fails where the input cannot be sought. -/
def rewind (seekable : Bool) (is : IFStream) : IFStream :=
  { is with position := if seekable then 0 else is.position, eofbit := false, failbit := !seekable, badbit := false }

/-! ## The program -/

inductive MainPoint where
  /-- At the head of `while (running)`. -/
  | command
  /-- At the head of `while (line.empty())`. -/
  | reading
  /-- In `cmd_add_workers`, with the workers still to add. -/
  | adding (numWorkersToAdd : Nat)
  /-- In `cmd_wait_for_server`. -/
  | waiting
  /-- After a command: about to probe for a message of the server. -/
  | probing
  | exited
  /-- An exception has left the main loop. -/
  | failed
  /-- An assertion has failed. -/
  | aborted
  /-- After `fields[0]` of a line without a word. -/
  | undefined
  deriving DecidableEq, Repr

/-- What `do_add_workers` asks of `MPI_Comm_spawn`. -/
structure Spawn where
  hostfile : Option Text
  workerArgv : List Text
  numWorkers : Nat
  deriving DecidableEq, Repr

structure ManagerMain where
  serverName : Text
  point : MainPoint := .command
  running : Bool := true
  solutionFound : Bool := false
  defaultCmds : List Text := []
  cin : IFStream
  /-- The input is a file. -/
  seekable : Bool
  once : Bool := true
  /-- The words of the command that is executed. -/
  args : List Text := []
  cerr : List String := []
  spawned : List Spawn := []
  currentServerMaxCmdLength : Nat := defaultMaxCmdLength
  /-- The commands sent to the server, oldest first. -/
  sent : List M2S := []
  /-- The lines taken from the input. -/
  fetched : List Text := []
  /-- The lines executed. -/
  executed : List Text := []

namespace ManagerMain

-- the bytes that `text1b` writes for a string: its length and its characters
variable (text1b : String → Nat)

def start (serverName script : Text) (seekable : Bool) : ManagerMain where
  serverName := serverName
  cin := ⟨script, 0, none, false, false, false⟩
  seekable := seekable

/-- The word behind the number of workers, if it does not only hold the place. -/
def hostfile (args : List Text) : Option Text :=
  match args[2]? with
  | none => none
  | some file => if file = "use_no_hostfile".toList then none else some file

/-- One round of the loop of `cmd_add_workers`, in which `do_add_workers` is called. -/
def addSome (numWorkersToAdd : Nat) (m : ManagerMain) : ManagerMain :=
  if 0 < numWorkersToAdd then
    let nw := min maxSimultaneousConnectionAttempts numWorkersToAdd
    { m with
      point := .adding (numWorkersToAdd - nw)
      sent := m.sent ++ [.addWorkers nw]
      spawned := m.spawned ++ [⟨hostfile m.args, m.serverName :: m.args.drop 3, nw⟩] }
  else { m with point := .probing }

/-- `do_exit`, after which the main loop is left. -/
def doExit (m : ManagerMain) : ManagerMain :=
  { m with point := .probing, running := false, sent := m.sent ++ [.terminate] }

/-- The server handles the request for a larger buffer that may come before the command, and it is not kept in
`sent`. -/
def doAddFile (anzahlStartbelegungen anzahlFlips : UInt32) (filename : Text) (m : ManagerMain) : ManagerMain :=
  let data : ProblemInstanceMetadata := ⟨anzahlStartbelegungen, anzahlFlips, String.ofList filename⟩
  match ensureCmdLength m.currentServerMaxCmdLength (data.bytes text1b) ([] : List (Packet M2S)) with
  | none => { m with point := .aborted }
  | some (limit, _) =>
    { m with point := .probing, currentServerMaxCmdLength := limit, sent := m.sent ++ [.addFile data] }

def cmdHelp (_ : List Text) (m : ManagerMain) : Except Exn ManagerMain := .ok { m with point := .probing }

def cmdAddWorkers (args : List Text) (m : ManagerMain) : Except Exn ManagerMain :=
  if m.solutionFound then .ok { m with point := .probing }
  else if args.length < 2 then .error (.runtimeError "manager: invalid number of arguments for add_workers")
  else do
    let numWorkers ← stoi (args.getD 1 [])
    pure ({ m with args := args }.addSome numWorkers.toNat)

def cmdAddFile (args : List Text) (m : ManagerMain) : Except Exn ManagerMain :=
  if m.solutionFound then .ok { m with point := .probing }
  else if 4 ≠ args.length then .error (.runtimeError "manager: invalid number of arguments for add_file")
  else do
    let anzahlStartbelegungen ← stoi (args.getD 1 [])
    let anzahlFlips ← stoi (args.getD 2 [])
    pure (m.doAddFile text1b (.ofInt anzahlStartbelegungen) (.ofInt anzahlFlips) (args.getD 3 []))

def cmdWaitForServer (args : List Text) (m : ManagerMain) : Except Exn ManagerMain :=
  if 1 ≠ args.length then .error (.runtimeError "manager: invalid number of arguments for wait_for_server")
  else .ok { m with point := .waiting }

def cmdExit (_ : List Text) (m : ManagerMain) : Except Exn ManagerMain := .ok m.doExit

def commandRegistry : List (Text × (List Text → ManagerMain → Except Exn ManagerMain)) :=
  [("help".toList, cmdHelp), ("add_workers".toList, cmdAddWorkers), ("add_file".toList, cmdAddFile text1b),
    ("wait_for_server".toList, cmdWaitForServer), ("exit".toList, cmdExit)]

/-- What is done with a line: an exception of the command function is printed. -/
def executeLine (line : Text) (m : ManagerMain) : ManagerMain :=
  let m := { m with executed := m.executed ++ [line] }
  match split line with
  | [] => { m with point := .undefined }
  | name :: args =>
    match (commandRegistry text1b).lookup name with
    | none => { m with
        point := .probing
        cerr := m.cerr ++ ["invalid command '" ++ String.ofList name ++ "' called"] }
    | some cmdFunc =>
      match cmdFunc (name :: args) m with
      | .ok m => m
      | .error e => { m with
          point := .probing
          cerr := m.cerr ++ ["error executing command '" ++ String.ofList name ++ "': " ++ what e] }

/-- One round of `while (line.empty())`. -/
def readLine (m : ManagerMain) : ManagerMain :=
  let (cin, line) := m.cin.getline []
  let failed := cin.failbit || cin.badbit
  let m := { m with
    cin := if failed && m.once then rewind m.seekable cin else cin
    once := m.once && !failed }
  if line = [] then m else { m with fetched := m.fetched ++ [line] }.executeLine text1b line

def processServerCmd : Packet S2M → ManagerMain → Except Exn ManagerMain
  | .request _, _ => .error (.runtimeError "unknown command (S2M:: 1)")
  | .data _ (.foundSolution _), m => .ok { m with solutionFound := true }
  | .data _ (.sendStatistics _ _), m | .data _ .disconnect, m => .ok m

/-- What is left to execute when a probe has seen this message. -/
def nextCmds : Packet S2M → List Text → List Text
  | .data _ (.foundSolution _), cmds => "wait_for_server".toList :: cmds
  | .data _ .disconnect, cmds => "exit".toList :: cmds
  | .data _ (.sendStatistics _ _), cmds | .request _, cmds => cmds

def isDisconnect : Packet S2M → Bool
  | .data _ .disconnect => true
  | .data _ (.foundSolution _) | .data _ (.sendStatistics _ _) | .request _ => false

/-- A round of `cmd_wait_for_server`; an exception ends the command and is printed. -/
def waitRound (p : Packet S2M) (m : ManagerMain) : ManagerMain :=
  match m.processServerCmd p with
  | .ok m => if isDisconnect p then m.doExit else m
  | .error e => { m with
      point := .probing
      cerr := m.cerr ++ ["error executing command 'wait_for_server': " ++ what e] }

/-- A probe has seen this message; an exception ends the main loop. -/
def probed (p : Packet S2M) (m : ManagerMain) : ManagerMain :=
  let m := { m with defaultCmds := nextCmds p m.defaultCmds }
  match m.processServerCmd p with
  | .ok m => { m with point := if m.running then .command else .exited }
  | .error e => { m with point := .failed, cerr := m.cerr ++ ["manager exception: " ++ what e] }

/-- A step of the program, with the messages of the server it has not received then; `seen` tells whether a probe sees
the oldest message. Messages are received whole: those that are not announced fit `command_buffer`. -/
def step (seen : Bool) (toServer : List M2S) (inbox : List (Packet S2M)) (m : ManagerMain) :
    Option (ManagerMain × List (Packet S2M)) :=
  match m.point with
  | .command =>
    match m.defaultCmds with
    | [] =>
      if m.cin.failbit || m.cin.badbit then
        -- `exit` is for the next round, in this one the line is empty
        some ({ m with defaultCmds := ["exit".toList] }.executeLine text1b [], inbox)
      else some ({ m with point := .reading }, inbox)
    | line :: rest => some ({ m with defaultCmds := rest }.executeLine text1b line, inbox)
  | .reading => some (m.readLine text1b, inbox)
  | .adding numWorkersToAdd =>
    -- the barrier is passed when the server has handled ADD_WORKERS
    if toServer = [] then some (m.addSome numWorkersToAdd, inbox) else none
  | .waiting =>
    match inbox with
    | [] => none
    | p :: rest => some (m.waitRound p, rest)
  | .probing =>
    match inbox, seen with
    | p :: rest, true => some (m.probed p, rest)
    | _, _ => some ({ m with point := if m.running then .command else .exited }, inbox)
  | .exited | .failed | .aborted | .undefined => none

end ManagerMain

/-! ## The command a line stands for -/

/-- Without an argument, or when `stoi` throws, nothing is added. -/
def parseAddWorkers : List Text → Command
  | [] => .other
  | numWorkers :: _ => match stoi numWorkers with
    | .ok numWorkers => .addWorkers numWorkers
    | .error _ => .other

def parseAddFile : List Text → Command
  | [starts, flips, file] => match stoi starts, stoi flips with
    | .ok starts, .ok flips => .addFile ⟨.ofInt starts, .ofInt flips, String.ofList file⟩
    | _, _ => .other
  | _ => .other

/-- The command these words are. -/
def parseCommand : List Text → Command
  | [] => .other
  | name :: args =>
    if name = "add_workers".toList then parseAddWorkers args
    else if name = "add_file".toList then parseAddFile args
    else if name = "wait_for_server".toList then if args = [] then .waitForServer else .other
    else if name = "exit".toList then .exit
    else .other

theorem parseCommand_cons (name : Text) (args : List Text) : parseCommand (name :: args) =
    if name = "add_workers".toList then parseAddWorkers args
    else if name = "add_file".toList then parseAddFile args
    else if name = "wait_for_server".toList then if args = [] then .waitForServer else .other
    else if name = "exit".toList then .exit
    else .other := rfl

def commandOf (line : Text) : Command := parseCommand (split line)

def MainPoint.toManager : MainPoint → ManagerPoint
  | .command | .reading | .failed | .aborted | .undefined => .command
  | .adding numWorkersToAdd => .adding numWorkersToAdd
  | .waiting => .waiting
  | .probing => .probing
  | .exited => .exited

/-- The command is longer than the longest that can be sent. -/
def Command.TooLong (text1b : String → Nat) : Command → Prop
  | .addFile data => absoluteMaxCmdLength < data.bytes text1b
  | .addWorkers _ | .waitForServer | .exit | .other => False

namespace ManagerMain

variable {text1b : String → Nat} {m m' : ManagerMain}

def toManager (m : ManagerMain) : Manager where
  point := m.point.toManager
  running := m.running
  solutionFound := m.solutionFound
  defaultCmds := m.defaultCmds.map commandOf

theorem point_toManager {p : MainPoint} (hp : m.point = p) : m.toManager.point = p.toManager := by
  rw [← hp]
  rfl

/-- What a command makes of `m`: what it is for `Manager`, or nothing when it is too long to be sent. -/
inductive Does (text1b : String → Nat) (cmd : Command) (m : ManagerMain) : ManagerMain → Prop
  | performs {m' : ManagerMain} {sent : List M2S}
      (frame : m' = { m with
        point := m'.point
        running := m'.running
        args := m'.args
        cerr := m'.cerr
        spawned := m'.spawned
        currentServerMaxCmdLength := m'.currentServerMaxCmdLength
        sent := m'.sent })
      (hsent : m'.sent = m.sent ++ sent) (hexec : m.toManager.execute cmd = (m'.toManager, sent)) : Does text1b cmd m m'
  | aborts (hlong : cmd.TooLong text1b) : Does text1b cmd m { m with point := .aborted }

theorem Does.other (m : ManagerMain) (cerr : List String) :
    Does text1b .other m { m with point := .probing, cerr := cerr } :=
  .performs rfl (List.append_nil _).symm rfl

/-- After a solution files and workers are not added. -/
theorem Does.found {cmd : Command} (hs : m.solutionFound = true) (hcmd : cmd ≠ .waitForServer ∧ cmd ≠ .exit) :
    Does text1b cmd m { m with point := .probing } := by
  refine .performs rfl (List.append_nil _).symm ?_
  have hfound : m.toManager.solutionFound = true := hs
  unfold Manager.execute
  cases cmd with
  | addWorkers n =>
    simp only
    rw [if_pos hfound]
    rfl
  | addFile data =>
    simp only
    rw [if_pos hfound]
    rfl
  | waitForServer => exact absurd rfl hcmd.1
  | exit => exact absurd rfl hcmd.2
  | other => rfl

/-- `do_add_file` sends the file, unless that is too long. -/
theorem Does.addFile (hs : m.solutionFound = false) (anzahlStartbelegungen anzahlFlips : UInt32) (filename : Text) :
    Does text1b (.addFile ⟨anzahlStartbelegungen, anzahlFlips, String.ofList filename⟩) m
      (m.doAddFile text1b anzahlStartbelegungen anzahlFlips filename) := by
  unfold doAddFile
  simp only
  split
  · rename_i hnone
    refine .aborts ?_
    show absoluteMaxCmdLength < _
    unfold ensureCmdLength at hnone
    split at hnone
    · split at hnone
      · cases hnone
      · omega
    · cases hnone
  · refine .performs rfl rfl ?_
    have hfound : ¬ m.toManager.solutionFound = true := by
      show ¬ m.solutionFound = true
      rw [hs]
      exact Bool.false_ne_true
    unfold Manager.execute
    simp only
    rw [if_neg hfound]
    rfl

theorem addSome_performs (n : Nat) (m : ManagerMain) : ∃ sent, (m.addSome n).sent = m.sent ++ sent ∧
    m.toManager.addSome n = ((m.addSome n).toManager, sent) := by
  unfold addSome Manager.addSome
  split
  · exact ⟨_, rfl, rfl⟩
  · exact ⟨[], (List.append_nil _).symm, rfl⟩

theorem addSome_frame (n : Nat) (m : ManagerMain) : m.addSome n = { m with
    point := (m.addSome n).point
    spawned := (m.addSome n).spawned
    sent := (m.addSome n).sent } := by
  unfold addSome
  split <;> rfl

/-- The command function does what the command says, or throws and the command is none. -/
def Follows (text1b : String → Nat) (cmd : Command) (m : ManagerMain) : Except Exn ManagerMain → Prop
  | .ok m' => Does text1b cmd m m'
  | .error _ => cmd = .other

theorem cmdHelp_follows (args : List Text) (m : ManagerMain) :
    Follows text1b (parseCommand ("help".toList :: args)) m (cmdHelp ("help".toList :: args) m) :=
  Does.other m m.cerr

theorem cmdAddWorkers_follows (args : List Text) (m : ManagerMain) :
    Follows text1b (parseCommand ("add_workers".toList :: args)) m
      (cmdAddWorkers ("add_workers".toList :: args) m) := by
  rw [parseCommand_cons, if_pos rfl]
  unfold cmdAddWorkers
  by_cases hs : m.solutionFound = true
  · rw [if_pos hs]
    refine Does.found hs ?_
    unfold parseAddWorkers
    split
    · simp
    · split <;> simp
  · rw [if_neg hs]
    cases args with
    | nil => rfl
    | cons numWorkers rest =>
      unfold parseAddWorkers
      simp only
      rw [if_neg (by simp), List.getD_cons_succ, List.getD_cons_zero]
      cases stoi numWorkers with
      | error e => rfl
      | ok n =>
        obtain ⟨sent, hsent, hadd⟩ :=
          addSome_performs n.toNat { m with args := "add_workers".toList :: numWorkers :: rest }
        refine .performs ?_ hsent ?_
        · rw [addSome_frame]
        · rw [← hadd]
          exact if_neg hs

theorem cmdAddFile_follows (args : List Text) (m : ManagerMain) :
    Follows text1b (parseCommand ("add_file".toList :: args)) m
      (cmdAddFile text1b ("add_file".toList :: args) m) := by
  rw [parseCommand_cons, if_neg (by decide), if_pos rfl]
  unfold cmdAddFile
  by_cases hs : m.solutionFound = true
  · rw [if_pos hs]
    refine Does.found hs ?_
    unfold parseAddFile
    split
    · split <;> simp
    · simp
  · rw [if_neg hs]
    unfold parseAddFile
    split
    · rename_i starts flips file
      rw [if_neg (by simp)]
      simp only [List.getD_cons_succ, List.getD_cons_zero]
      cases stoi starts with
      | error e => rfl
      | ok starts =>
        cases stoi flips with
        | error e => rfl
        | ok flips =>
          exact Does.addFile (Bool.eq_false_iff.2 hs) _ _ _
    · rename_i hargs
      rw [if_pos]
      · rfl
      · intro h4
        match args, h4 with
        | [starts, flips, file], _ => exact hargs starts flips file rfl

theorem cmdWaitForServer_follows (args : List Text) (m : ManagerMain) :
    Follows text1b (parseCommand ("wait_for_server".toList :: args)) m
      (cmdWaitForServer ("wait_for_server".toList :: args) m) := by
  rw [parseCommand_cons, if_neg (by decide), if_neg (by decide), if_pos rfl]
  unfold cmdWaitForServer
  cases args with
  | nil => exact .performs rfl (List.append_nil _).symm rfl
  | cons arg rest => rfl

theorem cmdExit_follows (args : List Text) (m : ManagerMain) :
    Follows text1b (parseCommand ("exit".toList :: args)) m (cmdExit ("exit".toList :: args) m) := by
  rw [parseCommand_cons, if_neg (by decide), if_neg (by decide), if_neg (by decide), if_pos rfl]
  exact .performs rfl rfl rfl

/-- The functions in the registry follow what their names say, and without a function the line is no command. -/
theorem registry_follows (text1b : String → Nat) (name : Text) (args : List Text) (m : ManagerMain) :
    match (commandRegistry text1b).lookup name with
    | none => parseCommand (name :: args) = .other
    | some cmdFunc => Follows text1b (parseCommand (name :: args)) m (cmdFunc (name :: args) m) := by
  by_cases h1 : name = "help".toList
  · subst h1
    exact cmdHelp_follows args m
  by_cases h2 : name = "add_workers".toList
  · subst h2
    exact cmdAddWorkers_follows args m
  by_cases h3 : name = "add_file".toList
  · subst h3
    exact cmdAddFile_follows args m
  by_cases h4 : name = "wait_for_server".toList
  · subst h4
    exact cmdWaitForServer_follows args m
  by_cases h5 : name = "exit".toList
  · subst h5
    exact cmdExit_follows args m
  have hnone : (commandRegistry text1b).lookup name = none := by
    unfold commandRegistry
    simp only [List.lookup_cons, List.lookup_nil, beq_eq_false_iff_ne.2 h1, beq_eq_false_iff_ne.2 h2,
      beq_eq_false_iff_ne.2 h3, beq_eq_false_iff_ne.2 h4, beq_eq_false_iff_ne.2 h5]
  rw [hnone]
  simp only
  rw [parseCommand_cons, if_neg h2, if_neg h3, if_neg h4, if_neg h5]

/-- A line with a word in it is executed as the command it stands for. -/
theorem executeLine_does (text1b : String → Nat) {line : Text} (hne : split line ≠ []) (m : ManagerMain) :
    Does text1b (commandOf line) { m with executed := m.executed ++ [line] } (m.executeLine text1b line) := by
  unfold commandOf executeLine
  cases hsplit : split line with
  | nil => exact absurd hsplit hne
  | cons name args =>
    have hreg := registry_follows text1b name args { m with executed := m.executed ++ [line] }
    simp only
    cases hfunc : (commandRegistry text1b).lookup name with
    | none =>
      rw [hfunc] at hreg
      simp only at hreg ⊢
      rw [hreg]
      exact .other _ _
    | some cmdFunc =>
      rw [hfunc] at hreg
      simp only at hreg ⊢
      cases hres : cmdFunc (name :: args) { m with executed := m.executed ++ [line] } with
      | ok m' =>
        rw [hres] at hreg
        exact hreg
      | error e =>
        rw [hres] at hreg
        replace hreg : parseCommand (name :: args) = .other := hreg
        rw [hreg]
        exact .other _ _

theorem executeLine_undefined {line : Text} (h : split line = []) (m : ManagerMain) :
    m.executeLine text1b line = { m with executed := m.executed ++ [line], point := .undefined } := by
  unfold executeLine
  simp only
  rw [h]

end ManagerMain

/-! ## The input -/

/-- The lines that are not empty. -/
def written (lines : List Text) : List Text := lines.filter fun line => decide (line ≠ [])

theorem written_cons (line : Text) (lines : List Text) :
    written (line :: lines) = if line = [] then written lines else line :: written lines := by
  unfold written
  by_cases h : line = [] <;> simp [h]

/-- A stream that does not break off in the middle. -/
structure Unbroken (is : IFStream) : Prop where
  failsAt : is.failsAt = none
  badbit : is.badbit = false

/-- What `getline` does on such a stream: it takes a line, takes the rest when the stream ends behind it, or fails. -/
inductive Getline (is : IFStream) : IFStream × Text → Prop
  | line {is' : IFStream} {l : Text} (hgood : is.good = true) (hgood' : is'.good = true)
      (hlines : is.lines = l :: is'.lines)
      (hcontent : is'.content = is.content) (hbroken : Unbroken is') : Getline is (is', l)
  | last {is' : IFStream} {l : Text} (hgood : is.good = true) (hgood' : is'.good = false) (hlines : is.lines = [l])
      (hne : l ≠ [])
      (hfail : is'.failbit = false) (hcontent : is'.content = is.content) (hbroken : Unbroken is') : Getline is (is', l)
  | fails {is' : IFStream} (hlines : is.good = true → is.lines = [[]]) (hgood' : is'.good = false)
      (hfail : is'.failbit = true) (hcontent : is'.content = is.content) (hbroken : Unbroken is') : Getline is (is', [])

theorem getline_cases {is : IFStream} (h : Unbroken is) : Getline is (is.getline []) := by
  have hno : is.broken = false := by
    unfold IFStream.broken
    rw [h.failsAt]
    rfl
  unfold IFStream.getline
  by_cases hgood : is.good = true
  · simp only [hgood, hno]
    rw [if_neg (by simp)]
    split
    · rename_i hlt
      refine .line hgood hgood ?_ rfl ⟨h.failsAt, h.badbit⟩
      unfold IFStream.lines
      rw [getlines_line hlt]
      simp [IFStream.readable, List.drop_drop, Nat.add_assoc]
    · rename_i hend
      have hlines : is.lines = [is.readable] := getlines_end hend
      rw [takeWhile_end hend, if_neg (by simp)]
      by_cases hne : is.readable = []
      · rw [hne] at hlines ⊢
        exact .fails (fun _ => hlines) (by simp [IFStream.good]) rfl rfl ⟨h.failsAt, h.badbit⟩
      · have hsome : is.readable.isEmpty = false := by simpa using hne
        exact .last hgood (by simp [IFStream.good]) hlines hne hsome rfl ⟨h.failsAt, h.badbit⟩
  · simp only [hgood]
    rw [if_pos (by simp)]
    refine .fails (fun hg => absurd hg hgood) ?_ rfl rfl ⟨h.failsAt, h.badbit⟩
    simp [IFStream.good]

namespace ManagerMain

variable {text1b : String → Nat} {m m' : ManagerMain}

/-- The lines that are still to come from the input. -/
def left (m : ManagerMain) : List Text :=
  (if m.cin.good then written m.cin.lines else []) ++
    if m.once && m.seekable then written (getlines '\n' m.cin.content) else []

theorem Unbroken.rewind {is : IFStream} (h : Unbroken is) (seekable : Bool) : Unbroken (rewind seekable is) :=
  ⟨h.failsAt, rfl⟩

/-- From its start the input is read again. -/
theorem lines_rewind {is : IFStream} (h : Unbroken is) : (rewind true is).good = true ∧
    (rewind true is).lines = getlines '\n' is.content := by
  refine ⟨rfl, ?_⟩
  unfold IFStream.lines IFStream.readable rewind
  simp [h.failsAt]

/-- How many lines are still to come before the stream ends. -/
def ahead (is : IFStream) : Nat := if is.good then is.lines.length else 0

/-- A round takes the next line that is not empty and executes it, or passes an empty one or the end. -/
inductive Reads (text1b : String → Nat) (m : ManagerMain) : ManagerMain → Prop
  | passes {cin : IFStream} {once : Bool} (hcontent : cin.content = m.cin.content) (hbroken : Unbroken cin)
      (hleft : ({ m with cin := cin, once := once } : ManagerMain).left = m.left)
      (hless : m.left = [] ∨ (m.once = true ∧ once = false) ∨ (once = m.once ∧ ahead cin < ahead m.cin)) :
      Reads text1b m { m with cin := cin, once := once }
  | takes {cin : IFStream} {line : Text} (hcontent : cin.content = m.cin.content) (hbroken : Unbroken cin)
      (hfail : cin.failbit = false) (hleft : m.left = line :: ({ m with cin := cin } : ManagerMain).left) :
      Reads text1b m (({ m with cin := cin, fetched := m.fetched ++ [line] } : ManagerMain).executeLine text1b line)

theorem readLine_reads (text1b : String → Nat) (h : Unbroken m.cin) : m.Reads text1b (m.readLine text1b) := by
  unfold readLine
  generalize hget : m.cin.getline [] = got
  have hcases := getline_cases h
  rw [hget] at hcases
  cases hcases with
  | @line is' l hgood hgood' hlines hcontent hbroken =>
    have hfail : is'.failbit = false := by
      unfold IFStream.good at hgood'
      simp only [Bool.and_eq_true, Bool.not_eq_true'] at hgood'
      exact hgood'.1.2
    simp only [hfail, hbroken.badbit, Bool.or_false, Bool.false_and, Bool.not_false, Bool.and_true,
      Bool.false_eq_true, if_false]
    have hleft : m.left = if l = [] then ({ m with cin := is' } : ManagerMain).left else
        l :: ({ m with cin := is' } : ManagerMain).left := by
      unfold left
      rw [if_pos hgood, hlines, written_cons]
      simp only
      rw [if_pos hgood', hcontent]
      split <;> rfl
    split
    · rename_i hnil
      rw [if_pos hnil] at hleft
      refine .passes hcontent hbroken hleft.symm (.inr (.inr ⟨rfl, ?_⟩))
      unfold ahead
      rw [if_pos hgood, if_pos hgood', hlines]
      exact Nat.lt_succ_self _
    · rename_i hne
      rw [if_neg hne] at hleft
      exact .takes hcontent hbroken hfail hleft
  | @last is' l hgood hgood' hlines hne hfail hcontent hbroken =>
    simp only [hfail, hbroken.badbit, Bool.or_false, Bool.false_and, Bool.not_false, Bool.and_true,
      Bool.false_eq_true, if_false]
    rw [if_neg hne]
    refine .takes hcontent hbroken hfail ?_
    unfold left
    rw [if_pos hgood, hlines, written_cons, if_neg hne]
    simp only
    rw [hgood', hcontent]
    rfl
  | @fails is' hlines hgood' hfail hcontent hbroken =>
    simp only [hfail, Bool.true_or, Bool.true_and, Bool.not_true, Bool.and_false, if_true]
    -- nothing is left of this pass
    have hleft : m.left = if m.once && m.seekable then written (getlines '\n' m.cin.content) else [] := by
      unfold left
      by_cases hgood : m.cin.good = true
      · rw [if_pos hgood, hlines hgood]
        rfl
      · rw [if_neg hgood]
        rfl
    refine .passes ?_ ?_ ?_ ?_
    · split <;> exact hcontent
    · split
      · exact Unbroken.rewind hbroken _
      · exact hbroken
    · rw [hleft]
      unfold left
      simp only [Bool.false_and, Bool.false_eq_true, if_false, List.append_nil]
      cases honce : m.once with
      | false =>
        simp only [Bool.false_eq_true, if_false, Bool.false_and, hgood']
      | true =>
        cases hseek : m.seekable with
        | false =>
          simp [rewind, IFStream.good]
        | true =>
          obtain ⟨hgood, hagain⟩ := lines_rewind hbroken
          simp only [if_true, Bool.and_self, hgood, hagain, hcontent]
    · cases honce : m.once with
      | false => exact .inl (by rw [hleft, honce]; rfl)
      | true => exact .inr (.inl ⟨rfl, rfl⟩)

end ManagerMain

/-! ## What a command sends -/

/-- The messages a command stands for, as long as no solution is found. -/
def Command.messages : Command → List M2S
  | .addWorkers numWorkers => List.replicate numWorkers.toNat (.addWorkers 1)
  | .addFile data => [.addFile data]
  | .waitForServer | .exit => [.terminate]
  | .other => []

/-- After the command the main loop is left. -/
def Command.stops : Command → Bool
  | .waitForServer | .exit => true
  | .addWorkers _ | .addFile _ | .other => false

/-- What the command that is executed has still to send. -/
def ManagerPoint.owed : ManagerPoint → List M2S
  | .adding numWorkersToAdd => List.replicate numWorkersToAdd (.addWorkers 1)
  | .waiting => [.terminate]
  | .command | .probing | .exited => []

namespace Manager

/-- The manager is about to leave its main loop. -/
def Stopping (m : Manager) : Prop := m.point = .waiting ∨ m.running = false

theorem not_stopping {m : Manager} (hp : m.point ≠ .waiting) (hr : m.running = true) : ¬ m.Stopping := by
  rintro (hw | hw)
  · exact hp hw
  · rw [hr] at hw
    cases hw

theorem addSome_owed (n : Nat) (m : Manager) :
    (m.addSome n).2 ++ (m.addSome n).1.point.owed = List.replicate n (.addWorkers 1) := by
  unfold addSome
  cases n with
  | zero => rfl
  | succ n =>
    have hmin : min maxSimultaneousConnectionAttempts (n + 1) = 1 := by
      unfold maxSimultaneousConnectionAttempts
      omega
    simp only [Nat.zero_lt_succ, if_true, hmin]
    rfl

/-- After a command is begun: what it has sent and owes is what it stands for, unless a solution is found. -/
structure Begun (cmd : Command) (m m' : Manager) (sent : List M2S) : Prop where
  sends : (m.solutionFound = false → sent ++ m'.point.owed = cmd.messages) ∧
    (sent ++ m'.point.owed).Sublist cmd.messages
  stops : m'.Stopping ↔ cmd.stops = true
  point : (∃ n, m'.point = .adding n) ∨ m'.point = .waiting ∨ m'.point = .probing
  running : m'.running = false → m'.point = .probing

theorem execute_begun (cmd : Command) {m : Manager} (hr : m.running = true) :
    m.Begun cmd (m.execute cmd).1 (m.execute cmd).2 := by
  have hskips : m.solutionFound = true → cmd.stops = false → m.Begun cmd { m with point := .probing } [] := by
    intro hs hstops
    refine ⟨⟨?_, List.nil_sublist _⟩, ?_, .inr (.inr rfl), fun _ => rfl⟩
    · intro h0
      rw [hs] at h0
      cases h0
    · rw [hstops]
      exact iff_of_false (not_stopping (by simp) hr) (by simp)
  cases cmd with
  | addWorkers n =>
    unfold execute
    by_cases hs : m.solutionFound = true
    · simp only
      rw [if_pos hs]
      exact hskips hs rfl
    · simp only
      rw [if_neg hs]
      have howed := m.addSome_owed n.toNat
      have hkeeps : (m.addSome n.toNat).1.running = true ∧ (m.addSome n.toNat).1.point ≠ .waiting ∧
          ((∃ k, (m.addSome n.toNat).1.point = .adding k) ∨ (m.addSome n.toNat).1.point = .probing) := by
        unfold addSome
        split
        · exact ⟨hr, by simp, .inl ⟨_, rfl⟩⟩
        · exact ⟨hr, by simp, .inr rfl⟩
      obtain ⟨hrun, hwait, hpoint⟩ := hkeeps
      refine ⟨⟨fun _ => howed, ?_⟩, iff_of_false (not_stopping hwait hrun) (by simp [Command.stops]), ?_, ?_⟩
      · rw [howed]
        exact List.Sublist.refl _
      · exact hpoint.imp_right .inr
      · intro h0
        rw [hrun] at h0
        cases h0
  | addFile data =>
    unfold execute
    simp only
    by_cases hs : m.solutionFound = true
    · rw [if_pos hs]
      exact hskips hs rfl
    · rw [if_neg hs]
      exact ⟨⟨fun _ => rfl, List.Sublist.refl _⟩, iff_of_false (not_stopping (by simp) hr) (by simp [Command.stops]),
        .inr (.inr rfl), fun _ => rfl⟩
  | waitForServer =>
    refine ⟨⟨fun _ => rfl, List.Sublist.refl _⟩, iff_of_true (.inl rfl) rfl, .inr (.inl rfl), ?_⟩
    intro h0
    exact absurd (hr.symm.trans h0) (by simp)
  | exit => exact ⟨⟨fun _ => rfl, List.Sublist.refl _⟩, iff_of_true (.inr rfl) rfl, .inr (.inr rfl), fun _ => rfl⟩
  | other =>
    have hstops : ¬ Manager.Stopping { m with point := .probing } := not_stopping (by simp) hr
    exact ⟨⟨fun _ => rfl, List.Sublist.refl _⟩, iff_of_false hstops (by simp [Command.stops]),
      .inr (.inr rfl), fun _ => rfl⟩

end Manager

end ParallelProbsat.Communication
