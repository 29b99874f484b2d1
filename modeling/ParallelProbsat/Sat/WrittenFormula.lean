/-
Reading undoes writing. A formula is written as a p line and one line for each clause, with comments
anywhere between them. No decimal of a literal starts with 0, so the first ` 0` of a clause line is the one
at its end; `stoll` and stream extraction both read the literals back; and since clauses are clean and
every counter is large enough, no line is rejected, dropped or changed.
-/
import ParallelProbsat.Sat.ClauseLine
import ParallelProbsat.Sat.ConfigurationLine

namespace ParallelProbsat.Sat

open ParallelProbsat.Lib ParallelProbsat.Util

/-! ## Writing a formula -/

/-- The literals in decimal, single blanks between them, and ` 0`. -/
def clauseLine (c : Clause) : Text := [' '].intercalate (c.map decimal) ++ [' ', '0']

def configurationLine (n m : Int) : Text := ['p', ' ', 'c', 'n', 'f', ' '] ++ decimal n ++ [' '] ++ decimal m

/-- The formulas that `read` takes: non-empty lists of clean clauses of 1 to 256 literals, with numbers that
`num_t` and `cnt_t` can hold. -/
structure Writable (n : Int) (clauses : List Clause) : Prop where
  vars : 1 ≤ n ∧ n < numMax
  nonempty : clauses ≠ []
  few : (clauses.length : Int) < numMax
  width : ∀ c ∈ clauses, 1 ≤ c.length ∧ c.length ≤ 256
  literal : ∀ c ∈ clauses, ∀ l ∈ c, l ≠ 0 ∧ (l.natAbs : Int) ≤ n
  clean : ∀ c ∈ clauses, Clean c
  fits : ∀ l, (clauses.countP fun c => c.contains l : Int) ≤ cntMax

/-- The lines of the formula, with comment lines in between. -/
structure WrittenAs (n : Int) (clauses : List Clause) (lines : List Text) : Prop where
  written : lines.filter (fun line => line.head? != some 'c') =
    configurationLine n clauses.length :: clauses.map clauseLine
  oneLine : ∀ line ∈ lines, '\n' ∉ line

/-- What is read is the formula, with the exact counts of its literals. -/
structure ReadBack (n : Int) (clauses : List Clause) (r : Input) : Prop where
  vars : r.numVars = n
  stored : r.clauses = clauses
  size : (r.counts.size : Int) = n
  counts : ∀ v, 0 ≤ v → v < n →
    r.counts.get v = ((numOccurrences clauses (-(v + 1)) : Int), (numOccurrences clauses (v + 1) : Int))

/-! ## The end of a clause line -/

/-- A word without a blank is skipped by the search for ` 0`. -/
theorem find_word {s : Text} : ∀ {w : Text}, ' ' ∉ w → find [' ', '0'] (w ++ s) = (find [' ', '0'] s).map (· + w.length)
  | [], _ => by simp
  | c :: w, h => by
    have hc : c ≠ ' ' := fun e => h (by rw [e]; exact List.mem_cons_self ..)
    rw [List.cons_append, find, if_neg (by simp [hc.symm]), find_word fun hm => h (List.mem_cons_of_mem _ hm),
      Option.map_map]
    rfl

theorem find_blank {s : Text} (h : s.head? ≠ some '0') :
    find [' ', '0'] (' ' :: s) = (find [' ', '0'] s).map (· + 1) := by
  rw [find, if_neg]
  cases s with
  | nil => simp
  | cons c s =>
    intro e
    have hc : '0' = c := by simpa using e
    exact h (by rw [hc]; rfl)

/-- The first ` 0` behind words without a leading 0 is the one at the end. -/
theorem find_intercalate : ∀ {fields : List Text}, fields ≠ [] → (∀ f ∈ fields, ' ' ∉ f ∧ f ≠ [] ∧ f.head? ≠ some '0') →
    find [' ', '0'] ([' '].intercalate fields ++ [' ', '0']) = some ([' '].intercalate fields).length
  | [], h, _ => absurd rfl h
  | [f], _, h => by
    rw [List.intercalate_singleton, find_word (h f (List.mem_cons_self ..)).1]
    show some (0 + f.length) = _
    rw [zero_add]
  | f :: g :: fields, _, h => by
    obtain ⟨-, hne, h0⟩ := h g (List.mem_cons_of_mem _ (List.mem_cons_self ..))
    have ih : find [' ', '0'] ([' '].intercalate (g :: fields) ++ [' ', '0']) =
        some ([' '].intercalate (g :: fields)).length :=
      find_intercalate (List.cons_ne_nil _ _) fun k hk => h k (List.mem_cons_of_mem _ hk)
    have hhead : ([' '].intercalate (g :: fields) ++ [' ', '0']).head? ≠ some '0' := by
      obtain ⟨c, g, rfl⟩ := List.exists_cons_of_ne_nil hne
      rw [List.intercalate_cons_cons_left, List.cons_append, List.head?_cons]
      exact h0
    rw [List.intercalate_cons_cons, List.append_assoc, List.append_assoc, List.singleton_append,
      find_word (h f (List.mem_cons_self ..)).1, find_blank hhead, ih]
    simp only [Option.map_some, Option.some.injEq, List.length_append, List.length_cons, List.length_nil]
    omega

/-- The literals of a clause in decimal. -/
theorem decimal_fields {c : Clause} (h : ∀ l ∈ c, l ≠ 0) :
    ∀ f ∈ c.map decimal, ' ' ∉ f ∧ f ≠ [] ∧ f.head? ≠ some '0' := by
  intro f hf
  obtain ⟨l, hl, rfl⟩ := List.mem_map.1 hf
  exact ⟨(isDecimal_decimal l).not_mem rfl, (isDecimal_decimal l).ne_nil, decimal_head (h l hl)⟩

theorem length_decimal {x : Int} (h : (x.natAbs : Int) ≤ numMax) : (decimal x).length ≤ 11 := by
  have hd : (Nat.toDigits 10 x.natAbs).length ≤ 10 :=
    (Nat.length_toDigits_le_iff (by decide) (by decide)).2 (by unfold numMax at h; omega)
  unfold decimal
  split
  · rw [List.length_cons]
    omega
  · omega

theorem length_intercalate : ∀ {fields : List Text}, (∀ f ∈ fields, f.length ≤ 11) →
    ([' '].intercalate fields).length ≤ 12 * fields.length
  | [], _ => by simp
  | [f], h => by
    have := h f (List.mem_cons_self ..)
    rw [List.intercalate_singleton, List.length_singleton]
    omega
  | f :: g :: fields, h => by
    have h1 := h f (List.mem_cons_self ..)
    have h2 : ([' '].intercalate (g :: fields)).length ≤ 12 * (g :: fields).length :=
      length_intercalate fun k hk => h k (List.mem_cons_of_mem _ hk)
    rw [List.intercalate_cons_cons, List.length_append, List.length_append, List.length_singleton]
    simp only [List.length_cons] at h2 ⊢
    omega

/-- The line of a clause ends with the first ` 0` in it, and is cut there. -/
theorem clauseLine_ends {c : Clause} (hne : c ≠ []) (hw : (c.length : Int) ≤ numMax)
    (hlit : ∀ l ∈ c, l ≠ 0 ∧ (l.natAbs : Int) ≤ numMax) :
    endsWith (clauseLine c) [' ', '0'] = true ∧ clauseText (clauseLine c) = [' '].intercalate (c.map decimal) := by
  have hfind := find_intercalate (by simpa using hne) (decimal_fields fun l hl => (hlit l hl).1)
  have hlen : ([' '].intercalate (c.map decimal)).length ≤ 12 * (c.map decimal).length := by
    refine length_intercalate fun f hf => ?_
    obtain ⟨l, hl, rfl⟩ := List.mem_map.1 hf
    exact length_decimal (hlit l hl).2
  rw [List.length_map] at hlen
  unfold numMax at hw
  have hline : (clauseLine c).length = ([' '].intercalate (c.map decimal)).length + 2 := by
    unfold clauseLine
    rw [List.length_append]
    rfl
  constructor
  · unfold endsWith
    rw [beq_iff_eq, hline, show find [' ', '0'] (clauseLine c) = _ from hfind]
    simp only [Option.elim_some, List.length_cons, List.length_nil]
    omega
  · have hcut : (sizeT (((clauseLine c).length : Int) - 2)).toNat = ([' '].intercalate (c.map decimal)).length := by
      unfold sizeT
      rw [hline]
      omega
    unfold clauseText
    rw [hcut]
    exact List.take_left

/-! ## A clause line is accepted -/

/-- A literal whose counter is not full is counted. -/
theorem countField_passes {n : Int} {counts : Counts} {l : Int} (hn : n ≤ numMax) (hsize : (counts.size : Int) = n)
    (h0 : l ≠ 0) (hl : (l.natAbs : Int) ≤ n) (hfits : counted counts l ≠ cntMax) :
    ∃ counts', countField n counts l = .ok counts' := by
  unfold numMax at hn
  have h64 : InInt64 l := by unfold InInt64; omega
  have hne : l ≠ -2 ^ 63 := by omega
  have hidx := index_eq h64 hne h0
  unfold counted at hfits
  unfold countField
  simp only [hidx]
  rw [llabs_eq h64 hne]
  rw [if_neg (by omega), if_neg (by unfold varIndex; omega)]
  split
  · rename_i hneg
    rw [if_pos hneg] at hfits
    rw [if_neg hfits]
    exact ⟨_, rfl⟩
  · rename_i hneg
    rw [if_neg hneg] at hfits
    rw [if_neg hfits]
    exact ⟨_, rfl⟩

theorem inInt64_of_natAbs {l : Int} (h : (l.natAbs : Int) ≤ numMax) : InInt64 l := by
  unfold numMax at h
  unfold InInt64
  omega

/-- So are all literals of a clause, when the counters have room for them. -/
theorem foldlM_parseField_passes {n : Int} (hn : n ≤ numMax) : ∀ {c : Clause} {counts : Counts},
    (counts.size : Int) = n → CountsRange counts → (∀ l ∈ c, l ≠ 0 ∧ (l.natAbs : Int) ≤ n) →
    (∀ l ∈ c, counted counts l + c.count l ≤ cntMax) →
    ∃ counts', (c.map decimal).foldlM (parseField n) counts = .ok counts'
  | [], counts, _, _, _, _ => ⟨counts, rfl⟩
  | l :: c, counts, hsize, hr, hlit, hfits => by
    obtain ⟨h0, hl⟩ := hlit l (List.mem_cons_self ..)
    have h64 := inInt64_of_natAbs (le_trans hl hn)
    have hroom := hfits l (List.mem_cons_self ..)
    rw [List.count_cons_self] at hroom
    obtain ⟨counts₁, h₁⟩ := countField_passes hn hsize h0 hl (by omega)
    obtain ⟨-, hs₁, hr₁, hc₁⟩ := countField_ok h64 hsize hn hr h₁
    obtain ⟨counts', h'⟩ := foldlM_parseField_passes hn (by rw [hs₁, hsize]) hr₁
      (fun k hk => hlit k (List.mem_cons_of_mem _ hk)) (fun k hk => by
        have := hfits k (List.mem_cons_of_mem _ hk)
        rw [hc₁ k (hlit k (List.mem_cons_of_mem _ hk)).1]
        rcases eq_or_ne k l with rfl | hne
        · rw [List.count_cons_self] at this
          rw [if_pos rfl]
          omega
        · rw [List.count_cons_of_ne hne.symm] at this
          rw [if_neg hne]
          omega)
    refine ⟨counts', ?_⟩
    have hparse : parseField n counts (decimal l) = .ok counts₁ := by
      unfold parseField
      rw [stoll_decimal (isDecimal_decimal l) (by rw [decimalValue_decimal]; exact h64), decimalValue_decimal]
      show throwAt _ (countField n counts l) = _
      rw [h₁]
      rfl
    rw [List.map_cons, List.foldlM_cons, hparse]
    exact h'

/-- A clean clause passes the tests for repeated variables. -/
theorem tests_of_clean {c : Clause} (h : Clean c) (hw : c.length ≤ 256) :
    isAlwaysTrue c = false ∧ isUnclean c = false := by
  have hpairs : ∀ p ∈ literalPairs c, varIndex p.1 ≠ varIndex p.2 := by
    rintro p hp e
    obtain ⟨i, j, hji, hi, rfl⟩ := mem_literalPairs.1 hp
    simp only [Clause.subscript_eq hw hi, Clause.subscript_eq hw (hji.trans hi)] at e
    have hne := List.pairwise_iff_getElem.1 h j i (by rw [List.length_map]; omega) (by rw [List.length_map]; omega) hji
    rw [List.getElem_map, List.getElem_map] at hne
    exact hne e.symm
  constructor
  · unfold isAlwaysTrue
    exact List.any_eq_false.2 fun p hp => by simp [hpairs p hp]
  · unfold isUnclean
    exact List.any_eq_false.2 fun p hp => by simp [hpairs p hp]

/-- What the clause line says to both passes. -/
theorem clauseLine_says {n : Int} (hn : n ≤ numMax) {c : Clause} (hw : 1 ≤ c.length ∧ (c.length : Int) ≤ numMax)
    (hlit : ∀ l ∈ c, l ≠ 0 ∧ (l.natAbs : Int) ≤ n) :
    getlines ' ' (clauseText (clauseLine c)) = c.map decimal ∧ storedLiterals (clauseLine c) = c ∧
      fieldLiterals (clauseLine c) = c := by
  have hne : c ≠ [] := List.ne_nil_of_length_pos hw.1
  have hmax : ∀ l ∈ c, l ≠ 0 ∧ (l.natAbs : Int) ≤ numMax := fun l hl => ⟨(hlit l hl).1, le_trans (hlit l hl).2 hn⟩
  obtain ⟨-, htext⟩ := clauseLine_ends hne hw.2 hmax
  have hfields : getlines ' ' (clauseText (clauseLine c)) = c.map decimal := by
    rw [htext]
    exact getlines_intercalate (fun f hf => (decimal_fields (fun l hl => (hlit l hl).1) f hf).1) (by simpa using hne)
  have hvalues : (c.map decimal).map decimalValue = c := by
    rw [List.map_map]
    conv_rhs => rw [← List.map_id c]
    exact List.map_congr_left fun l _ => decimalValue_decimal l
  refine ⟨hfields, ?_, ?_⟩
  · have hgrammar : ClauseGrammar n (clauseLine c) (c.map decimal) := by
      refine ⟨by simpa using hne, fun f hf => ?_, fun f hf => ?_, rfl⟩
      · obtain ⟨l, -, rfl⟩ := List.mem_map.1 hf
        exact isDecimal_decimal l
      · obtain ⟨l, hl, rfl⟩ := List.mem_map.1 hf
        rw [decimalValue_decimal]
        exact hlit l hl
    rw [storedLiterals_of_grammar hn hgrammar htext, hvalues]
  · unfold fieldLiterals
    rw [hfields, List.map_map]
    conv_rhs => rw [← List.map_id c]
    refine List.map_congr_left fun l hl => ?_
    have h64 := inInt64_of_natAbs (hmax l hl).2
    have hread := stoll_decimal (isDecimal_decimal l) (by rw [decimalValue_decimal]; exact h64)
    simp only [Function.comp_apply, hread, decimalValue_decimal, id_eq]

theorem isClauseLine_clauseLine {c : Clause} (hne : c ≠ []) : isClauseLine (clauseLine c) = true := by
  obtain ⟨l, c, rfl⟩ := List.exists_cons_of_ne_nil hne
  obtain ⟨d, s, hd⟩ := List.exists_cons_of_ne_nil (isDecimal_decimal l).ne_nil
  have hdigit := (isDecimal_decimal l).mem (by rw [hd]; exact List.mem_cons_self ..)
  unfold clauseLine
  rw [List.map_cons, hd, List.intercalate_cons_cons_left, List.cons_append]
  rcases hdigit with hdigit | rfl
  · have h1 := ne_of_isDigit hdigit (d := 'c') (by decide)
    have h2 := ne_of_isDigit hdigit (d := 'p') (by decide)
    unfold isClauseLine
    split <;> simp_all
  · rfl

theorem readLine_clause {line : Text} (h : isClauseLine line = true) (st : ReadState) :
    readLine st line = parseClause line st := by
  unfold readLine
  split
  · cases h
  · cases h
  · cases h
  · rfl

/-- The line of a clause is accepted, and its clause stored and counted. -/
theorem readLine_clauseLine {st : ReadState} (hI : ReadInv st) {c : Clause} (hw : 1 ≤ c.length ∧ c.length ≤ 256)
    (hlit : ∀ l ∈ c, l ≠ 0 ∧ (l.natAbs : Int) ≤ st.numVars) (hclean : Clean c)
    (hfits : ∀ l ∈ c, counted st.counts l + c.count l ≤ cntMax) :
    ∃ st', readLine st (clauseLine c) = .ok st' ∧ ReadInv st' ∧ st'.numVars = st.numVars ∧
      st'.clauses = st.clauses ++ [c] ∧ ∀ l, l ≠ 0 → counted st'.counts l = counted st.counts l + c.count l := by
  have hne : c ≠ [] := List.ne_nil_of_length_pos hw.1
  have hmax : (c.length : Int) ≤ numMax := by unfold numMax; omega
  obtain ⟨hfields, hstored, hliterals⟩ := clauseLine_says hI.vars ⟨hw.1, hmax⟩ hlit
  obtain ⟨hends, -⟩ := clauseLine_ends hne hmax fun l hl => ⟨(hlit l hl).1, le_trans (hlit l hl).2 hI.vars⟩
  obtain ⟨htrue, hunclean⟩ := tests_of_clean hclean hw.2
  obtain ⟨counts, hcounts⟩ := foldlM_parseField_passes hI.vars hI.size hI.range hlit hfits
  have hline := isClauseLine_clauseLine hne
  have hparse : ∃ st', parseClause (clauseLine c) st = .ok st' := by
    unfold parseClause
    rw [if_neg (by rw [hends]; decide), hfields]
    simp only [hcounts, hstored, htrue, hunclean, List.length_map, show ¬ 1 > c.length by omega, if_false,
      not_true_eq_false, Bool.false_eq_true]
    exact ⟨_, rfl⟩
  obtain ⟨st', hparse⟩ := hparse
  have hok : readLine st (clauseLine c) = .ok st' := (readLine_clause hline st).trans hparse
  obtain ⟨hI', hR⟩ := readLine_ok hI hok
  obtain ⟨hvars, -, hcounts, hclauses⟩ := hR.of_clauseLine hline
  rw [hliterals] at hcounts
  rw [hstored, htrue] at hclauses
  exact ⟨st', hok, hI', hvars, hclauses, hcounts⟩

/-! ## The p line is accepted -/

theorem configurationFields_written {n m : Int} (hn : 1 ≤ n ∧ n < numMax) (hm : 1 ≤ m ∧ m < numMax) (field : Text) :
    configurationFields (configurationLine n m) field = .ok (n, m, decimal m) := by
  have hread : ∀ {x : Int}, 1 ≤ x ∧ x < numMax →
      stoll (decimal x) = .ok x ∧ numT x = x ∧ verifyParameter x = .ok () := by
    rintro x ⟨h1, h2⟩
    unfold numMax at h2
    refine ⟨?_, numT_eq_of_range (by omega) (by omega), ?_⟩
    · rw [stoll_decimal (isDecimal_decimal x) (by rw [decimalValue_decimal]; unfold InInt64; omega),
        decimalValue_decimal]
    · unfold verifyParameter numMax
      rw [if_neg (by omega), if_neg (by omega)]
      rfl
  have hword : ∀ x : Int, ∀ c ∈ decimal x, isSpace c = false := fun x c hc => (isDecimal_decimal x).isSpace_eq hc
  obtain ⟨f1, a1⟩ := word_append (b := [' ']) (w := decimal n) (t := ' ' :: decimal m) (by simp [isSpace]) (hword n)
    (isDecimal_decimal n).ne_nil (fun c hc => by obtain rfl := Option.some.inj hc; rfl)
  obtain ⟨f2, a2⟩ := word_append (b := [' ']) (w := decimal m) (t := []) (by simp [isSpace]) (hword m)
    (isDecimal_decimal m).ne_nil (fun c hc => by cases hc)
  rw [List.append_nil] at f2 a2
  have e1 : (IStream.ofText (configurationLine n m)).extractWord field =
      (⟨[' ', 'c', 'n', 'f'] ++ ([' '] ++ decimal n ++ ' ' :: decimal m), false, false⟩, ['p']) := by
    unfold configurationLine
    simp only [List.append_assoc]
    rfl
  have e2 : (IStream.mk ([' ', 'c', 'n', 'f'] ++ ([' '] ++ decimal n ++ ' ' :: decimal m)) false false).extractWord
    ['p'] =
      (⟨[' '] ++ decimal n ++ ' ' :: decimal m, false, false⟩, ['c', 'n', 'f']) := rfl
  have e3 := extractWord_eq ([' '] ++ decimal n ++ ' ' :: decimal m) ['c', 'n', 'f']
  rw [f1, a1, if_neg (isDecimal_decimal n).ne_nil] at e3
  have e4 := extractWord_eq ([' '] ++ decimal m) (decimal n)
  rw [f2, a2, if_neg (isDecimal_decimal m).ne_nil] at e4
  obtain ⟨s1, t1, v1⟩ := hread hn
  obtain ⟨s2, t2, v2⟩ := hread hm
  unfold configurationFields
  have e4' : (IStream.mk (' ' :: decimal m) (' ' :: decimal m).isEmpty false).extractWord (decimal n) =
      (⟨[], true, false⟩, decimal m) := e4
  have hok : ∀ {α β : Type} (a : α) (f : α → Except Fault β), ((Except.ok a : Except Fault α) >>= f) = f a :=
    fun _ _ => rfl
  simp only [e1, e2, e3, e4', s1, s2, throwAt, hok, t1, t2, v1, v2, Bool.not_true, Bool.false_eq_true, if_false]
  rfl

/-- The p line is accepted, and the table of counts gets its size. -/
theorem readLine_configurationLine {st : ReadState} {n m : Int} (hn : 1 ≤ n ∧ n < numMax) (hm : 1 ≤ m ∧ m < numMax) :
    readLine st (configurationLine n m) = .ok { st with
      numVars := n, numClauses := m, field := decimal m, counts := st.counts.resize n.toNat (0, 0) } := by
  have hstart : startsWith (configurationLine n m) ['p', ' ', 'c', 'n', 'f', ' '] = true := by
    unfold configurationLine
    simp only [List.append_assoc]
    rfl
  have hparse : parseConfiguration (configurationLine n m) st =
      .ok { st with numVars := n, numClauses := m, field := decimal m } := by
    unfold parseConfiguration
    rw [hstart, configurationFields_written hn hm]
    rfl
  show (parseConfiguration (configurationLine n m) st >>= fun st =>
    pure { st with counts := st.counts.resize st.numVars.toNat (0, 0) }) = _
  rw [hparse]
  rfl

/-! ## The whole text -/

theorem readLines_comments : ∀ {lines : List Text} (k : Nat) (st : ReadState),
    (∀ line ∈ lines, line.head? = some 'c') → readLines k st lines = .ok st
  | [], _, _, _ => rfl
  | line :: lines, k, st, h => by
    obtain ⟨s, rfl⟩ := List.head?_eq_some_iff.1 (h line (List.mem_cons_self ..))
    rw [readLines]
    exact readLines_comments (k + 1) st fun other ho => h other (List.mem_cons_of_mem _ ho)

theorem numOccurrences_cons (c : Clause) (clauses : List Clause) (l : Int) :
    numOccurrences (c :: clauses) l = c.count l + numOccurrences clauses l := by
  unfold numOccurrences
  rw [List.map_cons, List.sum_cons]

/-- The lines of the clauses and comments, from a state whose counters have room for the clauses. -/
theorem readLines_clauses : ∀ {lines : List Text} {clauses : List Clause} (k : Nat) {st : ReadState}, ReadInv st →
    lines.filter (fun line => line.head? != some 'c') = clauses.map clauseLine →
    (∀ c ∈ clauses, (1 ≤ c.length ∧ c.length ≤ 256) ∧ (∀ l ∈ c, l ≠ 0 ∧ (l.natAbs : Int) ≤ st.numVars) ∧ Clean c) →
    (∀ l, l ≠ 0 → counted st.counts l + numOccurrences clauses l ≤ cntMax) →
    ∃ st', readLines k st lines = .ok st' ∧ ReadInv st' ∧ st'.numVars = st.numVars ∧
      st'.clauses = st.clauses ++ clauses ∧
      ∀ l, l ≠ 0 → counted st'.counts l = counted st.counts l + numOccurrences clauses l
  | [], clauses, _, st, hI, hw, _, _ => by
    obtain rfl : clauses = [] := List.map_eq_nil_iff.1 hw.symm
    exact ⟨st, rfl, hI, rfl, (List.append_nil _).symm, fun l _ => by simp [numOccurrences]⟩
  | line :: lines, clauses, k, st, hI, hw, hall, hfits => by
    by_cases hc : line.head? = some 'c'
    · -- a comment
      obtain ⟨s, rfl⟩ := List.head?_eq_some_iff.1 hc
      rw [List.filter_cons_of_neg (by simp)] at hw
      exact readLines_clauses (k + 1) hI hw hall hfits
    · rw [List.filter_cons_of_pos (by simpa using hc)] at hw
      cases clauses with
      | nil => cases hw
      | cons c clauses =>
        rw [List.map_cons] at hw
        obtain ⟨rfl, hrest⟩ := List.cons.inj hw
        obtain ⟨hwidth, hlit, hclean⟩ := hall c (List.mem_cons_self ..)
        have hroom : ∀ l, l ≠ 0 → counted st.counts l + c.count l ≤ cntMax := fun l hl => by
          have := hfits l hl
          rw [numOccurrences_cons] at this
          push_cast at this
          omega
        obtain ⟨st₁, h₁, hI₁, hv₁, hc₁, hn₁⟩ := readLine_clauseLine hI hwidth hlit hclean
          fun l hl => hroom l (hlit l hl).1
        obtain ⟨st', h', hI', hv', hc', hn'⟩ := readLines_clauses (k + 1) hI₁ hrest
          (fun d hd => by rw [hv₁]; exact hall d (List.mem_cons_of_mem _ hd)) (fun l hl => by
            have := hfits l hl
            rw [numOccurrences_cons] at this
            push_cast at this
            rw [hn₁ l hl]
            omega)
        refine ⟨st', ?_, hI', hv'.trans hv₁, by rw [hc', hc₁, List.append_assoc]; rfl, fun l hl => ?_⟩
        · rw [readLines, h₁]
          exact h'
        · rw [hn' l hl, hn₁ l hl, numOccurrences_cons]
          push_cast
          ring

/-- In clean clauses a literal occurs as often as clauses hold it. -/
theorem numOccurrences_eq_countP (l : Int) : ∀ {clauses : List Clause}, (∀ c ∈ clauses, Clean c) →
    numOccurrences clauses l = clauses.countP fun c => c.contains l
  | [], _ => rfl
  | c :: clauses, h => by
    have hnodup := (h c (List.mem_cons_self ..)).nodup
    rw [numOccurrences_cons, List.countP_cons, numOccurrences_eq_countP l fun d hd => h d (List.mem_cons_of_mem _ hd),
      add_comm, hnodup.count]
    simp only [List.contains_iff_mem]

/-- The lines of a written formula are accepted and give it back. -/
theorem readLines_written {n : Int} {clauses : List Clause} {lines : List Text} (hf : Writable n clauses)
    (hl : WrittenAs n clauses lines) (k : Nat) :
    ∃ st', readLines k ⟨0, 0, [], ⟨0, fun _ => (0, 0)⟩, []⟩ lines = .ok st' ∧
      ReadBack n clauses ⟨st'.numVars, st'.clauses, st'.counts⟩ := by
  obtain ⟨pre, post, rfl, hpre, -, hpost⟩ := List.filter_eq_cons_iff.1 hl.written
  have hlen := List.length_pos_of_ne_nil hf.nonempty
  obtain ⟨st₁, hst₁⟩ : ∃ st₁ :
    ReadState, st₁ = ⟨n, clauses.length, [], (⟨0, fun _ => (0, 0)⟩ : Counts).resize n.toNat (0, 0),
      decimal clauses.length⟩ := ⟨_, rfl⟩
  have hp : readLine ⟨0, 0, [], ⟨0, fun _ => (0, 0)⟩, []⟩ (configurationLine n clauses.length) = .ok st₁ := by
    rw [hst₁]
    exact readLine_configurationLine hf.vars ⟨by omega, hf.few⟩
  have hI := (readLine_ok .start hp).1
  have hzero : ∀ l, counted st₁.counts l = 0 := by
    intro l
    rw [hst₁]
    unfold counted
    simp only [Vec.get_resize]
    split_ifs <;> rfl
  obtain ⟨st', hrun, hI', hv, hc, hn⟩ := readLines_clauses (k + pre.length + 1) hI hpost
    (fun c hc => ⟨hf.width c hc, by rw [hst₁]; exact hf.literal c hc, hf.clean c hc⟩)
    (fun l _ => by rw [hzero, numOccurrences_eq_countP l hf.clean, zero_add]; exact hf.fits l)
  have hvars : st'.numVars = n := by rw [hv, hst₁]
  refine ⟨st', ?_, hvars, by rw [hc, hst₁]; rfl, by rw [hI'.size]; exact hvars, fun v h0 hvn => ?_⟩
  · rw [readLines_append, readLines_comments k _ fun line hm => by simpa using hpre line hm]
    show readLines (k + pre.length) _ (_ :: post) = _
    rw [readLines, hp]
    exact hrun
  · have h1 := hn (-(v + 1)) (by omega)
    have h2 := hn (v + 1) (by omega)
    rw [hzero, zero_add, counted_neg _ h0] at h1
    rw [hzero, zero_add, counted_pos _ h0] at h2
    exact Prod.ext h1 h2

/-- A text of the lines of a formula, with or without a final newline, is read back as the formula. -/
theorem read_written (n : Int) (clauses : List Clause) (lines : List Text) (newline : Bool) (hf : Writable n clauses)
    (hl : WrittenAs n clauses lines) :
    ∃ r, read (['\n'].intercalate lines ++ if newline then ['\n'] else []) = .ok r ∧ ReadBack n clauses r := by
  obtain ⟨st', hrun, hback⟩ := readLines_written hf hl 1
  have hne : lines ≠ [] := by
    rintro rfl
    have := hl.written
    cases this
  have hlines := getlines_intercalate hl.oneLine hne
  refine ⟨_, ?_, hback⟩
  unfold read
  cases newline with
  | false =>
    rw [if_neg Bool.false_ne_true, List.append_nil, hlines, hrun]
    rfl
  | true =>
    -- the last line is empty
    have hsplit : getlines '\n' (['\n'].intercalate lines ++ ['\n']) = lines ++ [[]] := by
      rw [getlines_eq_splitOn, List.splitOn_append_cons_self, ← getlines_eq_splitOn, hlines]
      rfl
    rw [if_pos rfl, hsplit, readLines_append, hrun]
    rfl

/-- A formula of two clauses, with a comment between them. -/
def writtenLines : List Text := [configurationLine 2 2, clauseLine [1, -2], ['c', ' ', 'n'], clauseLine [2]]

theorem read_writtenLines :
    ∃ r, read (['\n'].intercalate writtenLines ++ if true then ['\n'] else []) = .ok r ∧
      ReadBack 2 [[1, -2], [2]] r := by
  refine read_written 2 [[1, -2], [2]] writtenLines true
    ⟨by decide, by decide, by decide, by decide, by decide, by decide,
    fun l => ?_⟩ ⟨by decide, by decide⟩
  have hle : ([[1, -2], [2]] : List Clause).countP (fun c => c.contains l) ≤ 2 := List.countP_le_length
  unfold cntMax
  omega

end ParallelProbsat.Sat
