/-
The number of clauses a text declares, against its clause lines. When the two differ, the default build
takes it that clauses were dropped, and throws nothing; nor does it look for a second p line, or for
one when there are no clause lines, or for a p line that does not say what is read of it. Only that a
clause line has a p line before it is always so, since the table of counts is empty until then. So a
text that is accepted is complete exactly when it has at most one p line, with two decimals, and at
least one clause line, and as many of them as the second decimal says.
-/
import ParallelProbsat.Sat.ClauseLine
import ParallelProbsat.Sat.ConfigurationLine

namespace ParallelProbsat.Sat

open ParallelProbsat.Lib ParallelProbsat.Util

def isConfigurationLine (line : Text) : Bool := line.head? == some 'p'

/-- The clause holds a literal together with its negation. -/
def complementary (c : Clause) : Bool := c.any fun x => x != 0 && c.contains (-x)

/-- There is exactly one p line, before every clause line, and the clause lines, those whose clause is
stored and those whose clause is dropped because it is complementary, are as many as its second number says. -/
structure Complete (text : Text) (r : Input) : Prop where
  onePLine : ∃ before line after v w, textLines text = before ++ line :: after ∧ ConfigurationGrammar line v w ∧
    (∀ other ∈ before, isConfigurationLine other = false ∧ isClauseLine other = false) ∧
    (∀ other ∈ after, isConfigurationLine other = false) ∧
    ((textLines text).countP isClauseLine : Int) = decimalValue w
  stored : (textLines text).countP isClauseLine = r.clauses.length +
    (textLines text).countP fun line => isClauseLine line && complementary (storedLiterals line)

/-- The two words behind `p cnf ` are decimals, and the second one says `m`. -/
structure DeclaresClauses (line : Text) (m : Int) : Prop where
  vars : IsDecimal (firstWord (line.drop 6))
  clauses : IsDecimal (firstWord (afterWord (line.drop 6)))
  value : decimalValue (firstWord (afterWord (line.drop 6))) = m

/-- At most one p line, and clause lines, as many as it declares. -/
structure CountsMatch (lines : List Text) : Prop where
  pLines : lines.countP isConfigurationLine ≤ 1
  clauseLines : 1 ≤ lines.countP isClauseLine
  declared : ∀ line ∈ lines, isConfigurationLine line = true → DeclaresClauses line (lines.countP isClauseLine)

/-! ## A line of an accepted text -/

/-- The state at a line of an accepted text. -/
theorem accepted_line {text : Text} {r : Input} (h : read text = .ok r) {pre rest : List Text} {line : Text}
    (e : textLines text = pre ++ line :: rest) :
    ∃ st st', LinesRead pre ⟨0, 0, [], ⟨0, fun _ => (0, 0)⟩, []⟩ st ∧ readLine st line = .ok st' := by
  unfold read at h
  obtain ⟨st', hst, -⟩ := bind_ok h
  rw [show getlines '\n' text = pre ++ line :: rest from e, readLines_append] at hst
  obtain ⟨st, hpre, hrest⟩ := bind_ok hst
  rw [readLines] at hrest
  split at hrest
  · cases hrest
  · rename_i st₁ hline
    exact ⟨st, st₁, readLines_ok _ _ _ _ .start hpre, hline⟩

theorem ConfigurationGrammar.isConfigurationLine {line v w : Text} (h : ConfigurationGrammar line v w) :
    isConfigurationLine line = true := by
  obtain ⟨before, between, -, -, rfl⟩ := h.line
  rfl

/-- An accepted p line is read word by word. -/
theorem configurationRead_of_readLine {line : Text} {st st' : ReadState} (hp : isConfigurationLine line = true)
    (h : readLine st line = .ok st') :
    ∃ s n m, line = ['p', ' ', 'c', 'n', 'f', ' '] ++ s ∧ ConfigurationRead s n m := by
  obtain ⟨t, rfl⟩ := List.head?_eq_some_iff.1 (eq_of_beq hp)
  obtain ⟨st₁, hconf, -⟩ := bind_ok (show parseConfiguration ('p' :: t) st >>= _ = .ok st' from h)
  obtain ⟨s, hline, hread⟩ := configurationRead_of_accepted hconf
  exact ⟨s, _, _, hline, hread⟩

/-- What an accepted p line declares is what it says when its words are decimals. -/
theorem declaresClauses_iff {line : Text} {st st' : ReadState} (hp : isConfigurationLine line = true)
    (h : readLine st line = .ok st') (m : Int) :
    (∃ v w, ConfigurationGrammar line v w ∧ decimalValue w = m) ↔ DeclaresClauses line m := by
  constructor
  · rintro ⟨v, w, hgrammar, rfl⟩
    obtain ⟨hv, hw, -⟩ := hgrammar.words
    constructor
    · rw [hv]
      exact hgrammar.vars
    · rw [hw]
      exact hgrammar.clauses
    · rw [hw]
  · rintro ⟨hv, hw, hm⟩
    obtain ⟨s, _, _, rfl, hread⟩ := configurationRead_of_readLine hp h
    exact ⟨_, _, hread.grammar hv hw, hm⟩

/-- No accepted p line declares that there are no clauses. -/
theorem DeclaresClauses.value_ne_zero {line : Text} {st st' : ReadState} {m : Int} (hm : DeclaresClauses line m)
    (hp : isConfigurationLine line = true) (h : readLine st line = .ok st') : m ≠ 0 := by
  obtain ⟨s, _, _, rfl, hread⟩ := configurationRead_of_readLine hp h
  obtain ⟨-, hw, hvalue⟩ := hm
  replace hw : IsDecimal (firstWord (afterWord s)) := hw
  replace hvalue : decimalValue (firstWord (afterWord s)) = m := hvalue
  rintro rfl
  obtain ⟨-, -, y, hy, hcount⟩ := hread.second.resolve_left hw.ne_nil
  have hzero : stoll (firstWord (afterWord s)) = .ok 0 := by
    rw [← hvalue]
    exact stoll_decimal hw (by rw [hvalue]; decide)
  rw [hzero] at hy
  cases hy
  have hone := hread.clauses.1
  rw [hcount] at hone
  exact absurd hone (by decide)

theorem declared_of_not_configuration {line : Text} (h : isConfigurationLine line = false) : declared line = none := by
  unfold declared
  split
  · cases h
  · rfl

/-- Without a p line no variable is declared, and every clause line is rejected. -/
theorem exists_configuration_before {text : Text} {r : Input} (h : read text = .ok r)
    {pre rest : List Text} {line : Text} (e : textLines text = pre ++ line :: rest) (hline : isClauseLine line = true) :
    ∃ other ∈ pre, isConfigurationLine other = true := by
  obtain ⟨st, st', hL, hread⟩ := accepted_line h e
  by_contra hnone
  have hzero : st.numVars = 0 := by
    rw [hL.vars]
    have hall : ∀ other ∈ pre, declared other = none := fun other hm =>
      declared_of_not_configuration (Bool.eq_false_iff.2 fun hp => hnone ⟨other, hm, hp⟩)
    clear hL e hnone
    unfold lastDeclared
    induction pre with
    | nil => rfl
    | cons first pre ih =>
      rw [List.foldl_cons, hall first (List.mem_cons_self ..)]
      exact ih fun other hm => hall other (List.mem_cons_of_mem _ hm)
  obtain ⟨-, hR⟩ := readLine_ok hL.inv hread
  obtain ⟨-, hlits, -, -⟩ := hR.of_clauseLine hline
  obtain ⟨x, hx⟩ := exists_fieldLiteral line
  obtain ⟨h0, hlt⟩ := hlits x hx
  have := varIndex_nonneg h0
  omega

/-! ## Dropped clauses -/

theorem Clean.not_complementary {c : Clause} (h : Clean c) : complementary c = false := by
  unfold complementary
  rw [List.any_eq_false]
  rintro x hx hneg
  rw [Bool.and_eq_true, bne_iff_ne, List.contains_iff_mem] at hneg
  have := h.eq_of_varIndex hx hneg.2 (varIndex_neg x).symm
  omega

/-- An accepted clause is dropped when it is complementary. -/
theorem isAlwaysTrue_iff_complementary {line : Text} {st st' : ReadState} (hI : ReadInv st)
    (hline : isClauseLine line = true) (h : readLine st line = .ok st') :
    isAlwaysTrue (storedLiterals line) = complementary (storedLiterals line) := by
  obtain ⟨hI', hR⟩ := readLine_ok hI h
  cases htrue : isAlwaysTrue (storedLiterals line) with
  | true =>
    obtain ⟨x, hx, h0, hneg⟩ := isAlwaysTrue_complementary htrue
    symm
    unfold complementary
    exact List.any_eq_true.2 ⟨x, hx, by rw [Bool.and_eq_true, bne_iff_ne, List.contains_iff_mem]; exact ⟨h0, hneg⟩⟩
  | false =>
    obtain ⟨-, -, -, hclauses⟩ := hR.of_clauseLine hline
    rw [htrue, if_neg Bool.false_ne_true] at hclauses
    have hmem : storedLiterals line ∈ st'.clauses := by
      rw [hclauses]
      exact List.mem_append_right _ (List.mem_singleton_self _)
    exact (Clean.not_complementary (hI'.clauses _ hmem).2).symm

/-- The clause lines of an accepted text are stored or dropped as complementary. -/
theorem countP_clauseLines {text : Text} {r : Input} (h : read text = .ok r) :
    (textLines text).countP isClauseLine = r.clauses.length +
      (textLines text).countP fun line => isClauseLine line && complementary (storedLiterals line) := by
  have hsame : ∀ line ∈ textLines text, (isClauseLine line && complementary (storedLiterals line)) =
      (isClauseLine line && isAlwaysTrue (storedLiterals line)) := by
    intro line hm
    obtain ⟨pre, rest, e⟩ := List.append_of_mem hm
    obtain ⟨st, st', hL, hread⟩ := accepted_line h e
    cases hline : isClauseLine line with
    | false => rfl
    | true => rw [isAlwaysTrue_iff_complementary hL.inv hline hread]
  have hcongr : ((textLines text).countP fun line => isClauseLine line && complementary (storedLiterals line)) =
      (textLines text).countP fun line => isClauseLine line && isAlwaysTrue (storedLiterals line) :=
    List.countP_congr fun line hm => by rw [hsame line hm]
  rw [(read_ok h).clauses, hcongr]
  unfold keptClauses
  rw [List.length_map, ← List.countP_eq_length_filter]
  clear hcongr hsame
  generalize textLines text = lines
  induction lines with
  | nil => rfl
  | cons line lines ih =>
    rw [List.countP_cons, List.countP_cons, List.countP_cons, ih]
    cases isClauseLine line <;> cases isAlwaysTrue (storedLiterals line) <;> simp <;> omega

/-! ## The declared number -/

/-- An accepted text is complete exactly when its lines match what is declared. -/
theorem read_complete_iff (text : Text) (r : Input) (h : read text = .ok r) :
    Complete text r ↔ CountsMatch (textLines text) := by
  constructor
  · rintro ⟨⟨before, line, after, v, w, e, hgrammar, hb, ha, hcount⟩, -⟩
    have hp := hgrammar.isConfigurationLine
    obtain ⟨st, st', -, hread⟩ := accepted_line h e
    have hdeclares := (declaresClauses_iff hp hread _).1 ⟨v, w, hgrammar, hcount.symm⟩
    -- the code accepts no p line that declares no clause
    have hpos : 1 ≤ (textLines text).countP isClauseLine := by
      have hne := hdeclares.value_ne_zero hp hread
      omega
    refine ⟨?_, hpos, ?_⟩
    · rw [e, List.countP_append, List.countP_cons_of_pos hp,
        List.countP_eq_zero.2 fun other ho => by rw [(hb other ho).1]; exact Bool.false_ne_true,
        List.countP_eq_zero.2 fun other ho => by rw [ha other ho]; exact Bool.false_ne_true]
    · intro other hother hpother
      rw [e] at hother
      rcases List.mem_append.1 hother with ho | ho
      · rw [(hb other ho).1] at hpother
        cases hpother
      · rcases List.mem_cons.1 ho with rfl | ho
        · exact hdeclares
        · rw [ha other ho] at hpother
          cases hpother
  · rintro ⟨hone, hsome, hcount⟩
    -- a clause line has a p line before it
    obtain ⟨cl, hcl, hline⟩ := List.countP_pos_iff.1 hsome
    obtain ⟨pre, rest, e⟩ := List.append_of_mem hcl
    obtain ⟨line, hmem, hp⟩ := exists_configuration_before h e hline
    have hmem : line ∈ textLines text := by
      rw [e]
      exact List.mem_append_left _ hmem
    have hdeclares := hcount line hmem hp
    obtain ⟨before, after, e⟩ := List.append_of_mem hmem
    obtain ⟨st, st', -, hread⟩ := accepted_line h e
    obtain ⟨v, w, hgrammar, hm⟩ := (declaresClauses_iff hp hread _).2 hdeclares
    rw [e, List.countP_append, List.countP_cons_of_pos hp] at hone
    have hb : ∀ other ∈ before, isConfigurationLine other = false := fun other ho =>
      Bool.eq_false_iff.2 (List.countP_eq_zero.1 (by omega) other ho)
    have ha : ∀ other ∈ after, isConfigurationLine other = false := fun other ho =>
      Bool.eq_false_iff.2 (List.countP_eq_zero.1 (by omega) other ho)
    refine ⟨⟨before, line, after, v, w, e, hgrammar, fun other ho => ⟨hb other ho, ?_⟩, ha, hm.symm⟩,
      countP_clauseLines h⟩
    -- a clause line before it would need another p line
    by_contra hc
    obtain ⟨pre, rest, rfl⟩ := List.append_of_mem ho
    have e' : textLines text = pre ++ other :: (rest ++ line :: after) := by rw [e, List.append_assoc]; rfl
    obtain ⟨first, hf, hpf⟩ := exists_configuration_before h e' (by simpa using hc)
    rw [hb first (List.mem_append_left _ hf)] at hpf
    cases hpf

/-- "p cnf 2 1", "1 -2 0". -/
def completeText : Text :=
  ['p', ' ', 'c', 'n', 'f', ' ', '2', ' ', '1', '\n', '1', ' ', '-', '2', ' ', '0']

theorem read_complete_iff_completeText :
    ∃ r, read completeText = .ok r ∧ (Complete completeText r ↔ CountsMatch (textLines completeText)) := by
  have hok : (read completeText).toOption.isSome = true := by decide +kernel
  obtain ⟨r, hread⟩ := ok_of_isSome_toOption hok
  exact ⟨r, hread, read_complete_iff completeText r hread⟩

/-- "p cnf 1 2", "1 0": the second clause is missing, and nothing is thrown. -/
def truncatedText : Text := ['p', ' ', 'c', 'n', 'f', ' ', '1', ' ', '2', '\n', '1', ' ', '0']

theorem read_not_complete : ¬ ∀ text r, read text = .ok r → Complete text r := by
  intro hall
  have hok : (read truncatedText).toOption.isSome = true := by decide +kernel
  obtain ⟨r, hread⟩ := ok_of_isSome_toOption hok
  obtain ⟨before, line, after, v, w, e, hgrammar, -, -, hcount⟩ := (hall truncatedText r hread).onePLine
  have hline : line ∈ textLines truncatedText := by
    rw [e]
    exact List.mem_append_right _ (List.mem_cons_self ..)
  have hlines : textLines truncatedText = [['p', ' ', 'c', 'n', 'f', ' ', '1', ' ', '2'], ['1', ' ', '0']] := by decide
  rw [hlines, List.mem_cons, List.mem_singleton] at hline
  rcases hline with rfl | rfl
  · obtain ⟨-, hw, -⟩ := hgrammar.words
    have hsecond : decimalValue w = 2 := by
      rw [← hw]
      decide +kernel
    rw [hsecond] at hcount
    exact absurd hcount (by decide)
  · exact absurd hgrammar.isConfigurationLine (by decide)

end ParallelProbsat.Sat
