/-
Which clause lines `parse_clause` reads as what they say. A line that is accepted was split at its blanks
for `stoll`, which skips further blanks and a `+` and ignores what stands behind the digits, and read a
second time by stream extraction; a line of a single character passes the test for the closing 0. What
is accepted is a clause of the format, stored number by number, exactly when the line is longer, holds
nothing but digits, `-` and blanks, and no `-` stands behind a digit.
-/
import ParallelProbsat.Sat.ReadCounts
import ParallelProbsat.Util.Decimal

namespace ParallelProbsat.Sat

open ParallelProbsat.Lib ParallelProbsat.Util

/-- Decimal integers other than 0 about `n` variables, separated by single blanks and followed by ` 0`. -/
structure ClauseGrammar (n : Int) (line : Text) (fields : List Text) : Prop where
  nonempty : fields ≠ []
  decimal : ∀ f ∈ fields, IsDecimal f
  literal : ∀ f ∈ fields, decimalValue f ≠ 0 ∧ ((decimalValue f).natAbs : Int) ≤ n
  line : line = [' '].intercalate fields ++ [' ', '0']

/-- The line is a clause, and the clause that is built consists of its numbers; it is stored, or it holds a
literal together with its negation and is dropped. -/
structure ReadAsWritten (line : Text) (st st' : ReadState) (fields : List Text) : Prop where
  grammar : ClauseGrammar st.numVars line fields
  built : storedLiterals line = fields.map decimalValue
  stored : st'.clauses = st.clauses ++ [fields.map decimalValue] ∨
    (st'.clauses = st.clauses ∧ ∃ x ∈ fields.map decimalValue, -x ∈ fields.map decimalValue)

/-- More than one character, only digits, `-` and blanks, and no `-` behind a digit. -/
structure PlainLine (line : Text) : Prop where
  long : line.length ≠ 1
  chars : ∀ c ∈ line, c.isDigit = true ∨ c = '-' ∨ c = ' '
  minus : MinusApart line

/-! ## The end of the line -/

/-- A line of at least two characters that passes the test ends with ` 0`. -/
theorem line_of_endsWith {line : Text} (hlen : line.length < 2 ^ 64) (h1 : line.length ≠ 1)
    (h : endsWith line [' ', '0'] = true) : line = clauseText line ++ [' ', '0'] ∧ clauseText line <+: line := by
  unfold endsWith at h
  rw [beq_iff_eq, show (([' ', '0'] : Text).length : Int) = 2 from rfl] at h
  cases hk : find [' ', '0'] line with
  | none =>
    rw [hk] at h
    simp only [Option.elim_none] at h
    omega
  | some k =>
    rw [hk] at h
    simp only [Option.elim_some] at h
    obtain ⟨t, ht⟩ := drop_of_find hk
    have hl := congrArg List.length ht
    rw [List.length_append, List.length_drop, show ([' ', '0'] : Text).length = 2 from rfl] at hl
    have hlen2 : k + 2 = line.length := by omega
    obtain rfl : t = [] := List.eq_nil_of_length_eq_zero (by omega)
    have htake : clauseText line = line.take k := by
      unfold clauseText sizeT
      congr 1
      omega
    rw [htake]
    refine ⟨?_, List.take_prefix _ _⟩
    rw [List.append_nil] at ht
    rw [ht, List.take_append_drop]

/-! ## Plain lines -/

theorem ClauseGrammar.plain {n : Int} {line : Text} {fields : List Text} (h : ClauseGrammar n line fields) :
    PlainLine line := by
  rw [h.line]
  refine ⟨by simp, fun c hc => ?_, ?_⟩
  · rcases List.mem_append.1 hc with hc | hc
    · rcases mem_intercalate hc with rfl | ⟨f, hf, hc⟩
      · exact .inr (.inr rfl)
      · exact ((h.decimal f hf).mem hc).imp_right .inl
    · rcases List.mem_cons.1 hc with rfl | hc
      · exact .inr (.inr rfl)
      · obtain rfl := List.mem_singleton.1 hc
        exact .inl rfl
  · exact minusApart_append (minusApart_intercalate h.decimal) (by decide) (by decide)

/-! ## What an accepted line was tested for -/

theorem isAlwaysTrue_complementary {c : Clause} (h : isAlwaysTrue c = true) :
    ∃ x ∈ c, x ≠ 0 ∧ -x ∈ c := by
  unfold isAlwaysTrue at h
  obtain ⟨⟨x, y⟩, hmem, hxy⟩ := List.any_eq_true.1 h
  rw [Bool.and_eq_true, beq_iff_eq, bne_iff_ne] at hxy
  obtain ⟨i, j, hji, hi, e⟩ := mem_literalPairs.1 hmem
  obtain ⟨rfl, rfl⟩ := Prod.mk.inj e
  have e := (varIndex_eq_iff.1 hxy.1).resolve_left hxy.2
  refine ⟨_, Clause.subscript_mem hi, fun h0 => hxy.2 (by omega), ?_⟩
  rw [e, neg_neg]
  exact Clause.subscript_mem (hji.trans hi)

/-- The tests an accepted line has passed. -/
structure Accepted (line : Text) (st st' : ReadState) : Prop where
  ends : endsWith line [' ', '0'] = true
  fields : ∀ f ∈ getlines ' ' (clauseText line), ∃ x, stoll f = .ok x ∧ x ≠ 0 ∧ varIndex x < st.numVars
  clauses : st'.clauses = if isAlwaysTrue (storedLiterals line) then st.clauses else st.clauses ++ [storedLiterals line]

theorem accepted_of_parseClause {line : Text} {st st' : ReadState} (hn : st.numVars ≤ numMax)
    (hsize : (st.counts.size : Int) = st.numVars) (h : parseClause line st = .ok st') : Accepted line st st' := by
  unfold parseClause at h
  split at h
  · cases h
  · rename_i hends
    rw [Bool.not_eq_true', Bool.not_eq_false] at hends
    obtain ⟨counts, hfold, h⟩ := bind_ok h
    refine ⟨hends, foldlM_parseField_range hn _ _ _ hsize hfold, ?_⟩
    simp only at h
    split at h
    · cases h
    · split at h
      · cases h
      · split at h
        · rename_i htrue
          cases h
          exact (if_pos htrue).symm
        · rename_i htrue
          split at h
          · cases h
          · cases h
            exact (if_neg htrue).symm

theorem numT_eq {x : Int} (h : (x.natAbs : Int) ≤ numMax) : numT x = x := by
  unfold numMax at h
  unfold numT
  rw [Int.bmod_def]
  split <;> omega

/-- Stream extraction from a clause of the format. -/
theorem storedLiterals_of_grammar {n : Int} (hn : n ≤ numMax) {line : Text} {fields : List Text}
    (h : ClauseGrammar n line fields) (hline : clauseText line = [' '].intercalate fields) :
    storedLiterals line = fields.map decimalValue := by
  have hle : ∀ f ∈ fields, ((decimalValue f).natAbs : Int) ≤ numMax := fun f hf => le_trans (h.literal f hf).2 hn
  unfold storedLiterals
  rw [hline, extracted_intercalate fields fun f hf => ⟨h.decimal f hf, ?_⟩, List.map_map]
  · exact List.map_congr_left fun f hf => numT_eq (hle f hf)
  · have := hle f hf
    unfold numMax at this
    unfold InInt64
    omega

theorem Accepted.readAsWritten {line : Text} {st st' : ReadState} (h : Accepted line st st')
    (hlen : line.length < 2 ^ 64)
    (hn : st.numVars ≤ numMax) (hp : PlainLine line) : ∃ fields, ReadAsWritten line st st' fields := by
  obtain ⟨hline, hcut⟩ := line_of_endsWith hlen hp.long h.ends
  have hjoin := intercalate_getlines ' ' (clauseText line)
  -- a field has no blank, so it is a sign, or none, and digits
  have hfield : ∀ f ∈ getlines ' ' (clauseText line), IsDecimal f ∧ decimalValue f ≠ 0 ∧
      ((decimalValue f).natAbs : Int) ≤ st.numVars := by
    intro f hf
    obtain ⟨x, hx, h0, hv⟩ := h.fields f hf
    have hpart : f <:+: line := (part_of_getlines hf).trans hcut.isInfix
    have hminus : MinusApart f := List.IsChain.infix hp.minus hpart
    have hread := hx
    unfold stoll at hread
    cases hr : readNumber f with
    | none => rw [hr] at hread; cases hread
    | some p =>
      have hd : IsDecimal f := by
        refine IsDecimal.of_readNumber hr (fun c hc => ?_) hminus
        rcases hp.chars c (hpart.subset hc) with hd | hm | rfl
        · exact .inl hd
        · exact .inr hm
        · exact absurd hc (not_mem_getlines hf)
      have hnum := readNumber_decimal [] hd (fun c hc => nomatch hc)
      rw [List.append_nil] at hnum
      rw [hnum] at hread
      simp only at hread
      split at hread
      · obtain rfl := Except.ok.inj hread
        exact ⟨hd, h0, by unfold varIndex at hv; omega⟩
      · cases hread
  have hgrammar : ClauseGrammar st.numVars line (getlines ' ' (clauseText line)) :=
    ⟨getlines_ne_nil _ _, fun f hf => (hfield f hf).1, fun f hf => (hfield f hf).2, by rw [hjoin]; exact hline⟩
  have hbuilt := storedLiterals_of_grammar hn hgrammar hjoin.symm
  refine ⟨_, hgrammar, hbuilt, ?_⟩
  rw [← hbuilt]
  have hclauses := h.clauses
  split at hclauses
  · rename_i htrue
    obtain ⟨x, hx, -, hneg⟩ := isAlwaysTrue_complementary htrue
    exact .inr ⟨hclauses, x, hx, hneg⟩
  · exact .inl hclauses

/-- An accepted line is a clause of the format, read as it is written, exactly when it is plain. -/
theorem parseClause_reads_iff (line : Text) (st st' : ReadState) (hlen : line.length < 2 ^ 64)
    (hn : st.numVars ≤ numMax) (hsize : (st.counts.size : Int) = st.numVars) (h : parseClause line st = .ok st') :
    (∃ fields, ReadAsWritten line st st' fields) ↔ PlainLine line := by
  constructor
  · rintro ⟨fields, hr⟩
    exact hr.grammar.plain
  · exact (accepted_of_parseClause hn hsize h).readAsWritten hlen hn

/-- Two variables that were not counted yet. -/
def twoVariables : ReadState := ⟨2, 1, [], ⟨2, fun _ => (0, 0)⟩, []⟩

/-- The line "1 -2 0". -/
theorem parseClause_reads_iff_plainLine :
    ∃ st', parseClause ['1', ' ', '-', '2', ' ', '0'] twoVariables = .ok st' ∧
      ((∃ fields, ReadAsWritten ['1', ' ', '-', '2', ' ', '0'] twoVariables st' fields) ↔
        PlainLine ['1', ' ', '-', '2', ' ', '0']) := by
  have hok : (parseClause ['1', ' ', '-', '2', ' ', '0'] twoVariables).toOption.isSome = true := by decide +kernel
  obtain ⟨st', h⟩ := ok_of_isSome_toOption hok
  exact ⟨st', h, parseClause_reads_iff _ _ st' (by decide) (by decide) rfl h⟩

/-- The line "1-2- 2 0" is accepted: two fields for `stoll`, and the two other numbers 1 and -2 in the stream. -/
theorem parseClause_not_as_written : ¬ ∀ line st st', line.length < 2 ^ 64 → st.numVars ≤ numMax →
    (st.counts.size : Int) = st.numVars → parseClause line st = .ok st' →
      ∃ fields, ReadAsWritten line st st' fields := by
  intro hall
  have hok : (parseClause ['1', '-', '2', '-', ' ', '2', ' ', '0'] twoVariables).toOption.isSome = true := by
    decide +kernel
  obtain ⟨st', h⟩ := ok_of_isSome_toOption hok
  obtain ⟨fields, hr⟩ := hall _ _ st' (by decide) (by decide) rfl h
  exact absurd hr.grammar.plain.minus (by decide)

end ParallelProbsat.Sat
