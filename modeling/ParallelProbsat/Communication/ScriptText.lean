/-
Scripts written from commands. A command is written as words with single blanks between them, and the manager reads it
back: it carries out a script as the commands it is written from. The numbers of `add_file` go through `stoi`, so from
2^31 on they are written as negative ones.
-/
import ParallelProbsat.Util.Decimal
import ParallelProbsat.Communication.ScriptRuns

namespace ParallelProbsat.Communication

open ParallelProbsat.Lib ParallelProbsat.Util ParallelProbsat.Sat

/-! ## Words -/

def IsWord (w : Text) : Prop := w ≠ [] ∧ ∀ c ∈ w, isSpace c = false

-- looks at the characters of the word, not at all there are
instance (w : Text) : Decidable (IsWord w) :=
  @instDecidableAnd _ _ inferInstance (List.decidableBAll (fun c => isSpace c = false) w)

theorem isWord_decimal (x : Int) : IsWord (decimal x) :=
  ⟨(isDecimal_decimal x).ne_nil, fun _ hc => (isDecimal_decimal x).isSpace_eq hc⟩

theorem extractWords_eof (fuel : Nat) (s : Text) : extractWords fuel ⟨s, true, false⟩ = [] := by
  cases fuel <;> rfl

/-- Extraction takes the first word and goes on behind it. -/
theorem extractWords_word {blanks w t : Text} (fuel : Nat) (hb : ∀ c ∈ blanks, isSpace c = true) (hw : IsWord w)
    (ht : ∀ c ∈ t.head?, isSpace c = true) :
    extractWords (fuel + 1) ⟨blanks ++ w ++ t, false, false⟩ = w :: extractWords fuel ⟨t, t.isEmpty, false⟩ := by
  obtain ⟨hfirst, hafter⟩ := word_append hb hw.2 hw.1 ht
  rw [extractWords, extractWord_eq, hfirst, hafter, if_neg hw.1]
  rfl

theorem extractWords_intercalate {words : List Text} (fuel : Nat) (blanks : Text) (hb : ∀ c ∈ blanks, isSpace c = true)
    (h : ∀ w ∈ words, IsWord w) (hne : words ≠ []) (hfuel : words.length ≤ fuel) :
    extractWords fuel ⟨blanks ++ [' '].intercalate words, false, false⟩ = words := by
  induction words generalizing fuel blanks with
  | nil => exact absurd rfl hne
  | cons w words ih =>
    have hword := h w (List.mem_cons_self ..)
    rw [List.length_cons] at hfuel
    obtain ⟨fuel, rfl⟩ : ∃ k, fuel = k + 1 := ⟨fuel - 1, by omega⟩
    cases words with
    | nil =>
      have hone := extractWords_word (t := []) fuel hb hword (fun c hc => nomatch hc)
      rw [List.append_nil] at hone
      rw [List.intercalate_singleton, hone, List.isEmpty_nil, extractWords_eof]
    | cons v words =>
      have hrest := ih fuel [' '] (by simp [isSpace])
        (fun w hw => h w (List.mem_cons_of_mem _ hw)) (List.cons_ne_nil _ _) (by omega)
      have hone := extractWords_word (t := ' ' :: [' '].intercalate (v :: words)) fuel hb hword
        (fun c hc => by obtain rfl := Option.some.inj hc; rfl)
      rw [List.intercalate_cons_cons, ← List.append_assoc, ← List.append_assoc, List.append_assoc (blanks ++ w),
        List.singleton_append, hone]
      exact congrArg _ hrest

theorem length_le_intercalate (words : List Text) (h : ∀ w ∈ words, IsWord w) :
    words.length ≤ ([' '].intercalate words).length := by
  induction words with
  | nil => rfl
  | cons w words ih =>
    have hpos := List.length_pos_of_ne_nil (h w (List.mem_cons_self ..)).1
    cases words with
    | nil =>
      rw [List.intercalate_singleton]
      exact hpos
    | cons v words =>
      have hrest := ih fun w hw => h w (List.mem_cons_of_mem _ hw)
      rw [List.intercalate_cons_cons, List.length_append, List.length_append, List.length_cons]
      rw [List.length_singleton]
      omega

/-- `split` gives back the words a line is written from. -/
theorem split_intercalate {words : List Text} (h : ∀ w ∈ words, IsWord w) (hne : words ≠ []) :
    split ([' '].intercalate words) = words := by
  have hlength := length_le_intercalate words h
  exact extractWords_intercalate _ [] (fun c hc => nomatch hc) h hne (by omega)

/-! ## Commands -/

theorem stoi_decimal {x : Int} (h : -2 ^ 31 ≤ x ∧ x < 2 ^ 31) : stoi (decimal x) = .ok x := by
  have hread := readNumber_decimal [] (isDecimal_decimal x) (fun c hc => nomatch hc)
  rw [List.append_nil, decimalValue_decimal] at hread
  unfold stoi
  rw [hread]
  exact if_pos h

/-- The number that is converted to this one. -/
def signed (n : UInt32) : Int := n.toBitVec.toInt

theorem ofInt_signed (n : UInt32) : UInt32.ofInt (signed n) = n := by
  have hlt : (n.toNat : Int) < 2 ^ 32 := by exact_mod_cast n.toNat_lt
  have hemod : (n.toNat : Int).bmod (2 ^ 32) % ((2 ^ 32 : Nat) : Int) = n.toNat % ((2 ^ 32 : Nat) : Int) :=
    Int.bmod_emod
  have hmod : signed n % 2 ^ 32 = n.toNat := by
    unfold signed
    rw [BitVec.toInt_eq_toNat_bmod, UInt32.toNat_toBitVec]
    omega
  unfold UInt32.ofInt
  rw [hmod, Int.toNat_natCast, UInt32.ofNat_toNat]

theorem stoi_signed (n : UInt32) : stoi (decimal (signed n)) = .ok (signed n) :=
  stoi_decimal ⟨BitVec.le_toInt _, BitVec.toInt_lt⟩

namespace Command

def words : Command → List Text
  | .addWorkers numWorkers => ["add_workers".toList, decimal numWorkers]
  | .addFile data => ["add_file".toList, decimal (signed data.anzahlStartbelegungen), decimal (signed data.anzahlFlips),
      data.filename.toList]
  | .waitForServer => ["wait_for_server".toList]
  | .exit => ["exit".toList]
  | .other => ["help".toList]

/-- The number of workers is an `int`, and the name of the file a word. -/
def Writable : Command → Prop
  | .addWorkers numWorkers => -2 ^ 31 ≤ numWorkers ∧ numWorkers < 2 ^ 31
  | .addFile data => IsWord data.filename.toList
  | .waitForServer | .exit | .other => True

instance (cmd : Command) : Decidable cmd.Writable := by
  cases cmd <;> unfold Writable <;> infer_instance

def text (cmd : Command) : Text := [' '].intercalate cmd.words

theorem words_isWord {cmd : Command} (h : cmd.Writable) : ∀ w ∈ cmd.words, IsWord w := by
  cases cmd with
  | addWorkers n =>
    simp only [words, List.forall_mem_cons]
    exact ⟨by decide, isWord_decimal n, by simp⟩
  | addFile data =>
    simp only [words, List.forall_mem_cons]
    exact ⟨by decide, isWord_decimal _, isWord_decimal _, h, by simp⟩
  | waitForServer | exit | other =>
    simp only [words, List.forall_mem_cons]
    exact ⟨by decide, by simp⟩

theorem split_text {cmd : Command} (h : cmd.Writable) : split cmd.text = cmd.words :=
  split_intercalate (words_isWord h) (by cases cmd <;> simp [words])

/-- What is written is read back. -/
theorem commandOf_text {cmd : Command} (h : cmd.Writable) : commandOf cmd.text = cmd := by
  unfold commandOf
  rw [split_text h]
  cases cmd with
  | addWorkers n =>
    rw [words, parseCommand_cons, if_pos rfl, parseAddWorkers, stoi_decimal h]
  | addFile data =>
    rw [words, parseCommand_cons, if_neg (by decide), if_pos rfl]
    unfold parseAddFile
    simp only [stoi_signed, ofInt_signed, String.ofList_toList]
  | waitForServer | exit | other => rfl

theorem text_isLine {cmd : Command} (h : cmd.Writable) : cmd.text ≠ [] ∧ '\n' ∉ cmd.text := by
  constructor
  · intro hnil
    have hsplit := split_text h
    rw [hnil] at hsplit
    cases cmd <;> simp [words, split, extractWords, IStream.ofText, IStream.extractWord] at hsplit
  · intro hmem
    rcases mem_intercalate hmem with hblank | ⟨w, hw, hc⟩
    · cases hblank
    · have hspace := (words_isWord h w hw).2 _ hc
      cases hspace

end Command

/-- A script of these commands, one in a line. -/
def scriptOf (cmds : List Command) : Text := ['\n'].intercalate (cmds.map Command.text)

theorem written_scriptOf {cmds : List Command} (h : ∀ cmd ∈ cmds, cmd.Writable) :
    written (getlines '\n' (scriptOf cmds)) = cmds.map Command.text := by
  unfold scriptOf
  have hlines : ∀ line ∈ cmds.map Command.text, line ≠ [] ∧ '\n' ∉ line := by
    intro line hline
    obtain ⟨cmd, hcmd, rfl⟩ := List.mem_map.1 hline
    exact Command.text_isLine (h cmd hcmd)
  cases cmds with
  | nil => rfl
  | cons cmd cmds =>
    rw [getlines_intercalate (fun line hline => (hlines line hline).2) (by simp)]
    refine List.filter_eq_self.2 ?_
    intro line hline
    simp only [decide_eq_true_eq]
    exact (hlines line hline).1

/-- The commands the manager comes to if nothing stops it. -/
def scriptCommands (cmds : List Command) (seekable : Bool) : List Command := cmds ++ if seekable then cmds else []

theorem scriptLines_scriptOf {cmds : List Command} (h : ∀ cmd ∈ cmds, cmd.Writable) (seekable : Bool) :
    scriptLines (scriptOf cmds) seekable = (scriptCommands cmds seekable).map Command.text := by
  unfold scriptLines scriptCommands
  rw [written_scriptOf h, List.map_append]
  cases seekable <;> rfl

theorem mem_of_mem_scriptCommands {cmds : List Command} {seekable : Bool} {cmd : Command}
    (h : cmd ∈ scriptCommands cmds seekable) : cmd ∈ cmds := by
  unfold scriptCommands at h
  rcases List.mem_append.1 h with h | h
  · exact h
  · cases seekable with
    | false => cases h
    | true => exact h

theorem map_commandOf {cmds : List Command} (h : ∀ cmd ∈ cmds, cmd.Writable) :
    (cmds.map Command.text).map commandOf = cmds := by
  rw [List.map_map]
  conv_rhs => rw [← List.map_id cmds]
  exact List.map_congr_left fun cmd hcmd => Command.commandOf_text (h cmd hcmd)

theorem messagesOf_eq (lines : List Text) : messagesOf lines = (lines.map commandOf).flatMap Command.messages := by
  unfold messagesOf
  rw [List.flatMap_map]

namespace ManagerMain

variable {text1b : String → Nat} {m : ManagerMain}

/-- What the manager has made of a script: `done` are the commands of it that are executed. -/
structure CarriedOut (text1b : String → Nat) (cmds : List Command) (polls : List Poll) (m : ManagerMain)
    (done last : List Command) : Prop where
  executed : m.executed.map commandOf = done ++ last
  order : done <+: cmds
  /-- A command of the server makes the manager execute one more, which stops it. -/
  ending : last = [] ∨ last = [.waitForServer] ∨ last = [.exit]
  /-- Only the last command executed stops the manager. -/
  stops : ∀ cmd ∈ (done ++ last).dropLast, cmd.stops = false
  exited : m.point = .exited → ∃ cmd ∈ (done ++ last).getLast?, cmd.stops = true
  defined : m.point ≠ .undefined ∧ m.point ≠ .failed
  aborted : m.point = .aborted → ∃ cmd ∈ done, cmd.TooLong text1b
  sends : m.solutionFound = false → m.point ≠ .aborted →
    m.sent ++ m.toManager.point.owed = (done ++ last).flatMap Command.messages
  sublist : (m.sent ++ m.toManager.point.owed).Sublist ((done ++ last).flatMap Command.messages)
  /-- Nothing follows when the script is used up. -/
  ends : done = cmds → m.point = .reading → ∀ polls' m', Traced (poll text1b) (fun _ _ _ => True) polls m polls' m' →
    m'.point = .reading ∧ m'.executed = m.executed ∧ m'.sent = m.sent

theorem stopLines_commandOf {line : Text} (h : line ∈ stopLines) :
    commandOf line = .waitForServer ∨ commandOf line = .exit := by
  simp only [stopLines, List.mem_cons, List.not_mem_nil, or_false] at h
  rcases h with rfl | rfl
  · exact .inl (by decide +kernel)
  · exact .inr (by decide +kernel)

/-- A script is carried out as the commands it is written from, in their order, those of a file up to twice. Until one
of them, or a command of the server, stops the manager, it sends what they stand for, as long as it knows of no solution
and no command was too long to be sent. When nothing stops it, it reads on for ever. -/
theorem carriedOut_of_runs (cmds : List Command) (hw : ∀ cmd ∈ cmds, cmd.Writable) (serverName : Text) (seekable : Bool)
    {polls : List Poll} (h : ScriptRun text1b serverName (scriptOf cmds) seekable polls m) :
    ∃ done last, m.CarriedOut text1b (scriptCommands cmds seekable) polls done last := by
  obtain ⟨last, hx⟩ := (orderly_of_runs h).made polls
  generalize m.fetched = done at hx
  rw [scriptLines_scriptOf hw] at hx
  have hw' : ∀ cmd ∈ scriptCommands cmds seekable, cmd.Writable := fun cmd hcmd =>
    hw cmd (mem_of_mem_scriptCommands hcmd)
  obtain ⟨front, hfront, rfl⟩ : ∃ front, front <+: scriptCommands cmds seekable ∧ front.map Command.text = done := by
    obtain ⟨front, hpre, he⟩ := List.prefix_map_iff.1 hx.order
    exact ⟨front, hpre, he.symm⟩
  have hback := map_commandOf fun cmd hcmd => hw' cmd (hfront.subset hcmd)
  have hall : m.executed.map commandOf = front ++ last.map commandOf := by
    rw [hx.executed, List.map_append, hback]
  refine ⟨front, last.map commandOf, ?_⟩
  constructor
  · exact hall
  · exact hfront
  · rcases hx.ending with rfl | ⟨line, hline, rfl⟩
    · exact .inl rfl
    · refine .inr ?_
      rcases stopLines_commandOf hline with hc | hc
      · exact .inl (by rw [List.map_singleton, hc])
      · exact .inr (by rw [List.map_singleton, hc])
  · intro cmd hcmd
    rw [← hall, ← List.map_dropLast] at hcmd
    obtain ⟨line, hline, rfl⟩ := List.mem_map.1 hcmd
    exact hx.stops line hline
  · intro hp
    obtain ⟨line, hline, hstop⟩ := hx.exited hp
    refine ⟨commandOf line, ?_, hstop⟩
    rw [← hall, List.getLast?_map, hline]
    rfl
  · refine ⟨?_, hx.failed⟩
    intro hp
    obtain ⟨line, hline, hsplit⟩ := hx.undefined hp
    obtain ⟨cmd, hcmd, rfl⟩ := List.mem_map.1 hline
    rw [Command.split_text (hw' cmd (hfront.subset hcmd))] at hsplit
    cases cmd <;> cases hsplit
  · intro hp
    obtain ⟨line, hline, hlong⟩ := hx.aborted hp
    obtain ⟨cmd, hcmd, rfl⟩ := List.mem_map.1 hline
    rw [Command.commandOf_text (hw' cmd (hfront.subset hcmd))] at hlong
    exact ⟨cmd, hcmd, hlong⟩
  · rw [← hall, ← messagesOf_eq]
    exact hx.sends
  · rw [← hall, ← messagesOf_eq]
    exact hx.sublist
  · intro hdone
    exact hx.ends (by rw [hdone])

end ManagerMain

end ParallelProbsat.Communication
