/-
Which p lines `parse_configuration` reads as what they say. The numbers are converted to `num_t` before
they are checked, `stoll` ignores what stands behind the digits, and a line that ends after the first
number leaves it in `field`, where it is read again as the number of clauses. What is accepted declares
the two numbers of the line exactly when there is a second number, nothing but digits and blanks follows
`p cnf `, and both numbers are values of `num_t`.
-/
import ParallelProbsat.Sat.ReadCounts
import ParallelProbsat.Util.Decimal
import Mathlib.Data.List.TakeWhile

namespace ParallelProbsat.Sat

open ParallelProbsat.Lib ParallelProbsat.Util

/-- `p cnf ` and two decimal integers, with blanks between them. -/
structure ConfigurationGrammar (line v w : Text) : Prop where
  vars : IsDecimal v
  clauses : IsDecimal w
  line : ∃ before between, (∀ c ∈ before ++ between, isSpace c = true) ∧ between ≠ [] ∧
    line = ['p', ' ', 'c', 'n', 'f', ' '] ++ before ++ v ++ between ++ w

/-- The line declares two numbers that `num_t` can hold, and these are what is read. -/
structure DeclaredAsWritten (line : Text) (st' : ReadState) (v w : Text) : Prop where
  grammar : ConfigurationGrammar line v w
  vars : 1 ≤ decimalValue v ∧ decimalValue v < numMax ∧ st'.numVars = decimalValue v
  clauses : 1 ≤ decimalValue w ∧ decimalValue w < numMax ∧ st'.numClauses = decimalValue w

/-- The first word of a text, and what stands behind it. -/
def firstWord (s : Text) : Text := (s.dropWhile isSpace).takeWhile fun c => !isSpace c

def afterWord (s : Text) : Text := (s.dropWhile isSpace).dropWhile fun c => !isSpace c

/-- Behind `p cnf ` there is a second word, only digits and blanks, and the numbers are values of `num_t`. -/
structure PlainConfiguration (line : Text) : Prop where
  second : firstWord (afterWord (line.drop 6)) ≠ []
  chars : ∀ c ∈ line.drop 6, c.isDigit = true ∨ isSpace c = true
  fits : (digitsValue (firstWord (line.drop 6)) : Int) < 2 ^ 31 ∧
    (digitsValue (firstWord (afterWord (line.drop 6))) : Int) < 2 ^ 31

/-! ## Words -/

theorem firstWord_eq_nil {s : Text} : firstWord s = [] ↔ s.dropWhile isSpace = [] := by
  unfold firstWord
  cases h : s.dropWhile isSpace with
  | nil => simp
  | cons c t =>
    have hc : isSpace c = false := by
      have := List.head?_dropWhile_not isSpace s
      rw [h] at this
      simpa using this
    simp [hc]

/-- Extraction of a word, with the words of the text. -/
theorem extractWord_eq (s field : Text) : (IStream.mk s false false).extractWord field =
    if firstWord s = [] then (⟨[], true, true⟩, field) else
      (⟨afterWord s, (afterWord s).isEmpty, false⟩, firstWord s) := by
  unfold IStream.extractWord
  simp only [Bool.or_self, Bool.false_eq_true, if_false, firstWord_eq_nil]
  rfl

theorem extractWord_eof (s field : Text) : (IStream.mk s true false).extractWord field = (⟨s, true, true⟩, field) := rfl

theorem word_append {b w t : Text} (hb : ∀ c ∈ b, isSpace c = true) (hw : ∀ c ∈ w, isSpace c = false) (hne : w ≠ [])
    (ht : ∀ c ∈ t.head?, isSpace c = true) : firstWord (b ++ w ++ t) = w ∧ afterWord (b ++ w ++ t) = t := by
  have hdrop : (b ++ w ++ t).dropWhile isSpace = w ++ t := by
    rw [List.append_assoc, List.dropWhile_append_of_pos hb]
    cases w with
    | nil => exact absurd rfl hne
    | cons c w =>
      rw [List.cons_append, List.dropWhile_cons_of_neg]
      rw [hw c (List.mem_cons_self ..)]
      exact Bool.false_ne_true
  have hw' : ∀ c ∈ w, (!isSpace c) = true := fun c hc => by rw [hw c hc]; rfl
  unfold firstWord afterWord
  rw [hdrop, List.takeWhile_append_of_pos hw', List.dropWhile_append_of_pos hw']
  cases t with
  | nil => simp
  | cons c t =>
    have : isSpace c = true := ht c rfl
    simp [this]

theorem firstWord_blank {c : Char} (hc : isSpace c = true) (s : Text) : firstWord (c :: s) = firstWord s := by
  unfold firstWord
  rw [List.dropWhile_cons_of_pos hc]

theorem afterWord_blank {c : Char} (hc : isSpace c = true) (s : Text) : afterWord (c :: s) = afterWord s := by
  unfold afterWord
  rw [List.dropWhile_cons_of_pos hc]

/-! ## What an accepted p line was tested for -/

/-- The first number is converted and checked; so is the second, or, if there is none, the first once more. -/
structure ConfigurationRead (s : Text) (n m : Int) : Prop where
  vars : 1 ≤ n ∧ n < numMax
  clauses : 1 ≤ m ∧ m < numMax
  first : firstWord s ≠ [] ∧ ∃ x, stoll (firstWord s) = .ok x ∧ n = numT x
  second : firstWord (afterWord s) = [] ∨
    (firstWord (afterWord s) ≠ [] ∧ afterWord (afterWord s) = [] ∧
      ∃ y, stoll (firstWord (afterWord s)) = .ok y ∧ m = numT y)

theorem configurationRead {s field f : Text} {n m : Int}
    (h : configurationFields (['p', ' ', 'c', 'n', 'f', ' '] ++ s) field = .ok (n, m, f)) :
    ConfigurationRead s n m := by
  have e1 : (IStream.ofText (['p', ' ', 'c', 'n', 'f', ' '] ++ s)).extractWord field =
      (⟨[' ', 'c', 'n', 'f', ' '] ++ s, false, false⟩, ['p']) := rfl
  have e2 : (IStream.mk ([' ', 'c', 'n', 'f', ' '] ++ s) false false).extractWord ['p'] =
      (⟨' ' :: s, false, false⟩, ['c', 'n', 'f']) := rfl
  have e3 := extractWord_eq (' ' :: s) ['c', 'n', 'f']
  rw [firstWord_blank rfl, afterWord_blank rfl] at e3
  unfold configurationFields at h
  simp only [e1, e2] at h
  by_cases h1 : firstWord s = []
  · -- no third word: `field` is still `cnf`
    rw [if_pos h1] at e3
    simp only [e3] at h
    obtain ⟨x, hx, -⟩ := bind_ok h
    have := throwAt_ok hx
    cases this
  rw [if_neg h1] at e3
  simp only [e3] at h
  obtain ⟨x, hx, h⟩ := bind_ok h
  obtain ⟨u, hver, h⟩ := bind_ok h
  by_cases heof : afterWord s = []
  · -- the line ends behind the first number
    rw [heof] at h
    simp only [List.isEmpty_nil, extractWord_eof] at h
    obtain ⟨y, hy, h⟩ := bind_ok h
    obtain ⟨u', hver', h⟩ := bind_ok h
    cases h
    exact ⟨verifyParameter_ok (throwAt_ok hver), verifyParameter_ok (throwAt_ok hver'), ⟨h1, x, throwAt_ok hx, rfl⟩,
      .inl (by rw [heof]; rfl)⟩
  have e4 := extractWord_eq (afterWord s) (firstWord s)
  rw [show (afterWord s).isEmpty = false by simpa using heof] at h
  by_cases h2 : firstWord (afterWord s) = []
  · rw [if_pos h2] at e4
    simp only [e4] at h
    obtain ⟨y, hy, h⟩ := bind_ok h
    obtain ⟨u', hver', h⟩ := bind_ok h
    cases h
    exact ⟨verifyParameter_ok (throwAt_ok hver), verifyParameter_ok (throwAt_ok hver'),
      ⟨h1, x, throwAt_ok hx, rfl⟩, .inl h2⟩
  · rw [if_neg h2] at e4
    simp only [e4] at h
    obtain ⟨y, hy, h⟩ := bind_ok h
    obtain ⟨u', hver', h⟩ := bind_ok h
    split at h
    · cases h
    · rename_i hend
      cases h
      refine ⟨verifyParameter_ok (throwAt_ok hver), verifyParameter_ok (throwAt_ok hver'), ⟨h1, x, throwAt_ok hx, rfl⟩,
        .inr ⟨h2, by simpa using hend, y, throwAt_ok hy, rfl⟩⟩

/-! ## Plain p lines -/

/-- A text is the blanks before its first word, the word and what stands behind it. -/
theorem word_split (s : Text) : s = s.takeWhile isSpace ++ (firstWord s ++ afterWord s) := by
  unfold firstWord afterWord
  rw [List.takeWhile_append_dropWhile, List.takeWhile_append_dropWhile]

theorem afterWord_head {s : Text} : ∀ c ∈ (afterWord s).head?, isSpace c = true := by
  intro c hc
  have h := List.head?_dropWhile_not (fun c => !isSpace c) (s.dropWhile isSpace)
  unfold afterWord at hc
  rw [hc] at h
  simpa using h

theorem firstWord_mem {s : Text} {c : Char} (hc : c ∈ firstWord s) : c ∈ s ∧ isSpace c = false := by
  constructor
  · rw [word_split s]
    exact List.mem_append_right _ (List.mem_append_left _ hc)
  · simpa using List.mem_takeWhile_imp hc

/-- The two numbers are the first words behind `p cnf `. -/
theorem ConfigurationGrammar.words {line v w : Text} (h : ConfigurationGrammar line v w) :
    firstWord (line.drop 6) = v ∧ firstWord (afterWord (line.drop 6)) = w ∧
      ∀ c ∈ line.drop 6, isSpace c = true ∨ c ∈ v ∨ c ∈ w := by
  obtain ⟨b, b', hblank, hne, hline⟩ := h.line
  have hs : line.drop 6 = b ++ v ++ (b' ++ w ++ []) := by
    rw [hline, List.append_assoc, List.append_assoc, List.append_assoc]
    simp
  obtain ⟨e1, e2⟩ := word_append (t := b' ++ w ++ []) (fun c hc => hblank c (List.mem_append_left _ hc))
    (fun c hc => h.vars.isSpace_eq hc) h.vars.ne_nil (fun c hc => by
      obtain ⟨d, b', rfl⟩ := List.exists_cons_of_ne_nil hne
      obtain rfl := Option.some.inj hc
      exact hblank _ (List.mem_append_right _ (List.mem_cons_self ..)))
  obtain ⟨e3, -⟩ := word_append (b := b') (w := w) (t := []) (fun c hc => hblank c (List.mem_append_right _ hc))
    (fun c hc => h.clauses.isSpace_eq hc) h.clauses.ne_nil (fun c hc => nomatch hc)
  refine ⟨by rw [hs, e1], by rw [hs, e2, e3], fun c hc => ?_⟩
  rw [hs, List.append_nil] at hc
  rcases List.mem_append.1 hc with hc | hc
  · rcases List.mem_append.1 hc with hc | hc
    · exact .inl (hblank c (List.mem_append_left _ hc))
    · exact .inr (.inl hc)
  · rcases List.mem_append.1 hc with hc | hc
    · exact .inl (hblank c (List.mem_append_right _ hc))
    · exact .inr (.inr hc)

theorem DeclaredAsWritten.plain {line v w : Text} {st' : ReadState} (h : DeclaredAsWritten line st' v w) :
    PlainConfiguration line := by
  obtain ⟨hv, hvalue⟩ := h.grammar.vars.digits_of_pos h.vars.1
  obtain ⟨hw, hvalue'⟩ := h.grammar.clauses.digits_of_pos h.clauses.1
  obtain ⟨e1, e2, hchars⟩ := h.grammar.words
  have hmax := h.vars.2.1
  have hmax' := h.clauses.2.1
  unfold numMax at hmax hmax'
  refine ⟨?_, fun c hc => ?_, ?_⟩
  · rw [e2]
    exact h.grammar.clauses.ne_nil
  · rcases hchars c hc with hb | hc | hc
    · exact .inr hb
    · exact .inl (hv c hc)
    · exact .inl (hw c hc)
  · rw [e1, e2, hvalue, hvalue']
    constructor <;> omega

theorem numT_eq_of_range {x : Int} (h0 : 0 ≤ x) (h : x < 2 ^ 31) : numT x = x := by
  unfold numT
  rw [Int.bmod_def]
  split <;> omega

/-- The number that is read of a plain word. -/
theorem read_plain_word {w : Text} (hne : w ≠ []) (hw : ∀ c ∈ w, c.isDigit = true)
    (hfit : (digitsValue w : Int) < 2 ^ 31)
    {x : Int} (hx : stoll w = .ok x) : IsDecimal w ∧ numT x = decimalValue w := by
  obtain ⟨hd, hvalue⟩ := isDecimal_of_digits hne hw
  rw [stoll_decimal hd (by unfold InInt64; omega)] at hx
  obtain rfl := Except.ok.inj hx
  exact ⟨hd, numT_eq_of_range (by omega) (by omega)⟩

/-- What is read is a line of the grammar if the words are decimals. -/
theorem ConfigurationRead.grammar {s : Text} {n m : Int} (h : ConfigurationRead s n m) (hv : IsDecimal (firstWord s))
    (hw : IsDecimal (firstWord (afterWord s))) :
    ConfigurationGrammar (['p', ' ', 'c', 'n', 'f', ' '] ++ s) (firstWord s) (firstWord (afterWord s)) := by
  obtain ⟨-, hend, -⟩ := h.second.resolve_left hw.ne_nil
  refine ⟨hv, hw, s.takeWhile isSpace, (afterWord s).takeWhile isSpace, fun c hc => ?_, ?_, ?_⟩
  · rcases List.mem_append.1 hc with hc | hc
    · exact List.mem_takeWhile_imp hc
    · exact List.mem_takeWhile_imp hc
  · -- the first word ends at a blank
    cases ha : afterWord s with
    | nil => rw [ha] at hw; exact absurd rfl hw.ne_nil
    | cons c t =>
      have : isSpace c = true := afterWord_head c (by rw [ha]; rfl)
      rw [List.takeWhile_cons_of_pos this]
      exact List.cons_ne_nil _ _
  · have e1 := word_split s
    have e2 := word_split (afterWord s)
    rw [hend, List.append_nil] at e2
    calc ['p', ' ', 'c', 'n', 'f', ' '] ++ s
        = ['p', ' ', 'c', 'n', 'f', ' '] ++ (s.takeWhile isSpace ++ (firstWord s ++
            ((afterWord s).takeWhile isSpace ++ firstWord (afterWord s)))) := by rw [← e2, ← e1]
      _ = _ := by simp only [List.append_assoc]

theorem ConfigurationRead.declaredAsWritten {s : Text} {n m : Int} (h : ConfigurationRead s n m)
    (hp : PlainConfiguration (['p', ' ', 'c', 'n', 'f', ' '] ++ s)) {st' : ReadState} (hn : st'.numVars = n)
    (hm : st'.numClauses = m) :
    DeclaredAsWritten (['p', ' ', 'c', 'n', 'f', ' '] ++ s) st' (firstWord s) (firstWord (afterWord s)) := by
  obtain ⟨hsecond, hchars, hfit, hfit'⟩ := hp
  have hdrop : (['p', ' ', 'c', 'n', 'f', ' '] ++ s).drop 6 = s := rfl
  rw [hdrop] at hsecond hchars hfit hfit'
  have hafter : ∀ c ∈ afterWord s, c ∈ s := fun c hc => by
    rw [word_split s]
    exact List.mem_append_right _ (List.mem_append_right _ hc)
  obtain ⟨hne, x, hx, rfl⟩ := h.first
  obtain ⟨-, -, y, hy, rfl⟩ := h.second.resolve_left hsecond
  have hdigits : ∀ c ∈ firstWord s, c.isDigit = true := fun c hc =>
    (hchars c (firstWord_mem hc).1).resolve_right (by rw [(firstWord_mem hc).2]; exact Bool.false_ne_true)
  have hdigits' : ∀ c ∈ firstWord (afterWord s), c.isDigit = true := fun c hc =>
    (hchars c (hafter c (firstWord_mem hc).1)).resolve_right (by rw [(firstWord_mem hc).2]; exact Bool.false_ne_true)
  obtain ⟨hd, hvalue⟩ := read_plain_word hne hdigits hfit hx
  obtain ⟨hd', hvalue'⟩ := read_plain_word hsecond hdigits' hfit' hy
  have hgrammar := h.grammar hd hd'
  have h1 := h.vars
  have h2 := h.clauses
  rw [hvalue] at h1 hn
  rw [hvalue'] at h2 hm
  exact ⟨hgrammar, ⟨h1.1, h1.2, hn⟩, ⟨h2.1, h2.2, hm⟩⟩

/-- An accepted p line is read word by word. -/
theorem configurationRead_of_accepted {line : Text} {st st' : ReadState} (h : parseConfiguration line st = .ok st') :
    ∃ s, line = ['p', ' ', 'c', 'n', 'f', ' '] ++ s ∧ ConfigurationRead s st'.numVars st'.numClauses := by
  unfold parseConfiguration at h
  split at h
  · cases h
  · rename_i hstart
    rw [Bool.not_eq_true', Bool.not_eq_false] at hstart
    unfold startsWith at hstart
    rw [beq_iff_eq] at hstart
    obtain ⟨s, rfl⟩ := drop_of_find hstart
    obtain ⟨⟨n, m, f⟩, hfields, h⟩ := bind_ok h
    cases h
    exact ⟨s, rfl, configurationRead hfields⟩

/-- An accepted p line declares what it says exactly when it is plain. -/
theorem parseConfiguration_reads_iff (line : Text) (st st' : ReadState) (h : parseConfiguration line st = .ok st') :
    (∃ v w, DeclaredAsWritten line st' v w) ↔ PlainConfiguration line := by
  constructor
  · rintro ⟨v, w, hr⟩
    exact hr.plain
  · intro hp
    obtain ⟨s, rfl, hread⟩ := configurationRead_of_accepted h
    exact ⟨_, _, hread.declaredAsWritten hp rfl rfl⟩

/-- The line "p cnf 3 4". -/
theorem parseConfiguration_reads_iff_plainLine :
    ∃ st', parseConfiguration ['p', ' ', 'c', 'n', 'f', ' ', '3', ' ', '4'] ⟨0, 0, [], ⟨0, fun _ => (0, 0)⟩, []⟩ =
      .ok st' ∧
      ((∃ v w, DeclaredAsWritten ['p', ' ', 'c', 'n', 'f', ' ', '3', ' ', '4'] st' v w) ↔
        PlainConfiguration ['p', ' ', 'c', 'n', 'f', ' ', '3', ' ', '4']) :=
  ⟨_, rfl, parseConfiguration_reads_iff _ ⟨0, 0, [], ⟨0, fun _ => (0, 0)⟩, []⟩ _ rfl⟩

/-- The line "p cnf 4294967297 1" is accepted as one of one variable. -/
theorem parseConfiguration_not_as_written : ¬ ∀ line st st', parseConfiguration line st = .ok st' →
    ∃ v w, DeclaredAsWritten line st' v w := by
  intro hall
  obtain ⟨v, w, hr⟩ := hall ['p', ' ', 'c', 'n', 'f', ' ', '4', '2', '9', '4', '9', '6', '7', '2', '9', '7', ' ', '1']
    ⟨0, 0, [], ⟨0, fun _ => (0, 0)⟩, []⟩ _ rfl
  exact absurd hr.plain.fits.1 (by decide)

end ParallelProbsat.Sat
