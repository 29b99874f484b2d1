/-
What `read` returns, line by line: the clauses of the lines it keeps, and for every literal how
often the fields of the lines name it that no later p line cuts off. The returned counts are those of
the returned clauses exactly when the lines of which this is not so one by one cancel out: clauses
dropped because they are always true, lines that `stoll` and stream extraction read differently, and
lines before a p line that declares fewer variables than they use.
-/
import ParallelProbsat.Lib.Loops
import ParallelProbsat.Sat.Input
import ParallelProbsat.Sat.OccurrenceIndex

namespace ParallelProbsat.Sat

open ParallelProbsat.Lib ParallelProbsat.Util

/-! ## What a line says -/

def isClauseLine : Text → Bool
  | [] => false
  | 'c' :: _ => false
  | 'p' :: _ => false
  | _ => true

/-- The number of variables a p line declares. -/
def declared : Text → Option Int
  | 'p' :: s =>
    match configurationFields ('p' :: s) [] with
    | .ok (numVars, _, _) => some numVars
    | .error _ => none
  | _ => none

/-- The literals the fields of a clause line name for `stoll`. -/
def fieldLiterals (line : Text) : List Int :=
  (getlines ' ' (clauseText line)).map fun field =>
    match stoll field with
    | .ok tmp => tmp
    | .error _ => 0

/-- No later p line declares so few variables that the counts of `l` are cut off. -/
def survives (l : Int) (rest : List Text) : Bool :=
  rest.all fun line => (declared line).all fun n => decide (varIndex l < n)

/-- The number of variables declared last. -/
def lastDeclared (n : Int) (lines : List Text) : Int := lines.foldl (fun n line => (declared line).getD n) n

/-- How often a literal is counted by a text. -/
def countedIn (l : Int) : List Text → Int
  | [] => 0
  | line :: rest => (if isClauseLine line && survives l rest then ((fieldLiterals line).count l : Int) else 0) +
    countedIn l rest

/-- The clauses of a text that are kept. -/
def keptClauses (lines : List Text) : List Clause :=
  (lines.filter fun line => isClauseLine line && !isAlwaysTrue (storedLiterals line)).map storedLiterals

/-! ## Counting the fields of a line -/

/-- The counts are values a `cnt_t` takes when it is only counted up. -/
def CountsRange (counts : Counts) : Prop :=
  ∀ l, l ≠ 0 → varIndex l < counts.size → 0 ≤ counted counts l ∧ counted counts l ≤ cntMax

theorem counted_set (counts : Counts) {v : Int} (p : Int × Int) (l : Int) :
    counted (counts.set v p) l = if varIndex l = v then (if 0 > l then p.1 else p.2) else counted counts l := by
  unfold counted
  rw [Vec.get_set]
  split_ifs <;> rfl

theorem throwAt_ok {α : Type} {field : Text} {x : Except Exn α} {a : α} (h : throwAt field x = .ok a) : x = .ok a := by
  cases x with
  | ok b => cases h; rfl
  | error e => cases h

theorem llabs_eq {x : Int} (h64 : InInt64 x) (hne : x ≠ -2 ^ 63) : llabs x = x.natAbs := by
  obtain ⟨lo, hi⟩ := h64
  unfold llabs
  rw [Int.bmod_def]
  split <;> omega

theorem index_eq {x : Int} (h64 : InInt64 x) (hne : x ≠ -2 ^ 63) (h0 : x ≠ 0) : sizeT (llabs x - 1) = varIndex x := by
  obtain ⟨lo, hi⟩ := h64
  rw [llabs_eq ⟨lo, hi⟩ hne]
  unfold sizeT varIndex
  omega

/-- What a field that is counted names; the table keeps its size. -/
theorem countField_range {n : Int} {counts counts' : Counts} {tmp : Int} (h64 : InInt64 tmp)
    (hsize : (counts.size : Int) = n) (hn : n ≤ numMax) (h : countField n counts tmp = .ok counts') :
    (tmp ≠ 0 ∧ varIndex tmp < n) ∧ tmp ≠ -2 ^ 63 ∧ counts'.size = counts.size := by
  unfold numMax at hn
  unfold countField at h
  split at h
  · cases h
  · rename_i hok
    obtain ⟨h0, hle⟩ := not_or.1 hok
    simp only at h
    split at h
    · cases h
    · rename_i hindex
      rw [not_not] at hindex
      -- the smallest `ptrdiff_t` passes the first test, but not the assertion
      have hne : tmp ≠ -2 ^ 63 := by
        rintro rfl
        have habs : llabs (-2 ^ 63) = -2 ^ 63 := by decide
        rw [habs] at hindex
        unfold sizeT at hindex
        omega
      rw [llabs_eq h64 hne] at hle
      refine ⟨⟨h0, by unfold varIndex; omega⟩, hne, ?_⟩
      split at h
      · split at h <;> cases h
        rfl
      · split at h <;> cases h
        rfl

/-- One field counts its literal, and nothing else. -/
theorem countField_ok {n : Int} {counts counts' : Counts} {tmp : Int} (h64 : InInt64 tmp)
    (hsize : (counts.size : Int) = n) (hn : n ≤ numMax) (hr : CountsRange counts)
    (h : countField n counts tmp = .ok counts') :
    (tmp ≠ 0 ∧ varIndex tmp < n) ∧ counts'.size = counts.size ∧ CountsRange counts' ∧
      ∀ l, l ≠ 0 → counted counts' l = counted counts l + if l = tmp then 1 else 0 := by
  obtain ⟨⟨h0, hv⟩, hne, -⟩ := countField_range h64 hsize hn h
  have hidx := index_eq h64 hne h0
  unfold countField at h
  split at h
  · cases h
  · simp only at h
    split at h
    · cases h
    · have hrt := hr tmp h0 (by omega)
      rw [hidx] at h
      -- the new pair at the variable of `tmp` counts `tmp` once more
      obtain ⟨p, rfl, hp, hlt⟩ : ∃ p, counts' = counts.set (varIndex tmp) p ∧
          (∀ l, l ≠ 0 → varIndex l = varIndex tmp →
            (if 0 > l then p.1 else p.2) = counted counts l + if l = tmp then 1 else 0) ∧
          counted counts tmp + 1 ≤ cntMax := by
        unfold counted at hrt ⊢
        split at h
        · rename_i hneg
          rw [if_pos hneg] at hrt ⊢
          split at h
          · cases h
          · rename_i hmax
            cases h
            refine ⟨_, rfl, fun l hl hvl => ?_, by omega⟩
            simp only
            rw [hvl, cntT_eq (by omega) (by omega)]
            rcases varIndex_eq_iff.1 hvl with rfl | rfl
            · rw [if_pos hneg, if_pos hneg, if_pos rfl]
            · have h1 : ¬ 0 > -tmp := by omega
              rw [if_neg h1, if_neg h1, if_neg (by omega), add_zero]
        · rename_i hneg
          rw [if_neg hneg] at hrt ⊢
          split at h
          · cases h
          · rename_i hmax
            cases h
            refine ⟨_, rfl, fun l hl hvl => ?_, by omega⟩
            simp only
            rw [hvl, cntT_eq (by omega) (by omega)]
            rcases varIndex_eq_iff.1 hvl with rfl | rfl
            · rw [if_neg hneg, if_neg hneg, if_pos rfl]
            · have h1 : 0 > -tmp := by omega
              rw [if_pos h1, if_pos h1, if_neg (by omega), add_zero]
      have hcount : ∀ l, l ≠ 0 →
          counted (counts.set (varIndex tmp) p) l = counted counts l + if l = tmp then 1 else 0 := by
        intro l hl
        rw [counted_set]
        split
        · rename_i hvl; exact hp l hl hvl
        · rename_i hvl
          rw [if_neg (fun e => hvl (by rw [e])), add_zero]
      refine ⟨⟨h0, hv⟩, rfl, fun l hl hvl => ?_, hcount⟩
      have := hr l hl hvl
      rw [hcount l hl]
      split
      · rename_i e; subst e; omega
      · omega

theorem inInt64_of_stoll {s : Text} {x : Int} (h : stoll s = .ok x) : InInt64 x := by
  unfold stoll at h
  split at h
  · cases h
  · split at h
    · rename_i hx; cases h; exact hx
    · cases h

/-- A field names an integer, which is counted. -/
theorem parseField_ok {n : Int} {counts counts' : Counts} {field : Text} (h : parseField n counts field = .ok counts') :
    ∃ tmp, stoll field = .ok tmp ∧ InInt64 tmp ∧ countField n counts tmp = .ok counts' := by
  unfold parseField at h
  obtain ⟨tmp, htmp, h⟩ := bind_ok h
  have hstoll := throwAt_ok htmp
  exact ⟨tmp, hstoll, inInt64_of_stoll hstoll, throwAt_ok h⟩

/-- What every field of a loop that does not throw names. -/
theorem foldlM_parseField_range {n : Int} (hn : n ≤ numMax) : ∀ (fields : List Text) (counts counts' : Counts),
    (counts.size : Int) = n → fields.foldlM (parseField n) counts = .ok counts' →
    ∀ field ∈ fields, ∃ x, stoll field = .ok x ∧ x ≠ 0 ∧ varIndex x < n
  | [], _, _, _, _, _, hmem => absurd hmem List.not_mem_nil
  | first :: fields, counts, counts', hs, h, field, hmem => by
    rw [List.foldlM_cons] at h
    obtain ⟨counts₁, h₁, h⟩ := bind_ok h
    obtain ⟨tmp, hstoll, h64, h₁⟩ := parseField_ok h₁
    obtain ⟨hlit, -, hs₁⟩ := countField_range h64 hs hn h₁
    rcases List.mem_cons.1 hmem with rfl | hmem
    · exact ⟨tmp, hstoll, hlit⟩
    · exact foldlM_parseField_range hn fields counts₁ counts' (by rw [hs₁, hs]) h field hmem

/-- The loop over the fields. -/
theorem foldlM_parseField {n : Int} (hn : n ≤ numMax) : ∀ (fields : List Text) (counts counts' : Counts),
    (counts.size : Int) = n → CountsRange counts → fields.foldlM (parseField n) counts = .ok counts' →
    ∃ lits, lits = fields.map (fun field => match stoll field with | .ok tmp => tmp | .error _ => 0) ∧
      (∀ x ∈ lits, x ≠ 0 ∧ varIndex x < n) ∧ counts'.size = counts.size ∧ CountsRange counts' ∧
      ∀ l, l ≠ 0 → counted counts' l = counted counts l + lits.count l
  | [], counts, counts', _, hr, h => by
    cases h
    exact ⟨[], rfl, by simp, rfl, hr, fun l _ => by simp⟩
  | field :: fields, counts, counts', hs, hr, h => by
    rw [List.foldlM_cons] at h
    obtain ⟨counts₁, h₁, h⟩ := bind_ok h
    obtain ⟨tmp, hstoll, h64, h₁⟩ := parseField_ok h₁
    obtain ⟨htmp, hs₁, hr₁, hc₁⟩ := countField_ok h64 hs hn hr h₁
    obtain ⟨lits, hlits, hin, hs₂, hr₂, hc₂⟩ := foldlM_parseField hn fields counts₁ counts' (by rw [hs₁, hs]) hr₁ h
    refine ⟨tmp :: lits, ?_, ?_, hs₂.trans hs₁, hr₂, fun l hl => ?_⟩
    · rw [List.map_cons, hlits, hstoll]
    · intro x hx
      rcases List.mem_cons.1 hx with rfl | hx
      · exact htmp
      · exact hin x hx
    · rw [hc₂ l hl, hc₁ l hl, List.count_cons]
      rcases eq_or_ne l tmp with rfl | hne
      · simp
        omega
      · simp [hne, hne.symm]

/-! ## Clauses that are kept -/

theorem mem_literalPairs {c : Clause} {p : Int × Int} :
    p ∈ literalPairs c ↔ ∃ i j, j < i ∧ i < c.length ∧ p = (c.subscript i, c.subscript j) := by
  unfold literalPairs
  constructor
  · intro h
    obtain ⟨i, hi, h⟩ := List.mem_flatMap.1 h
    obtain ⟨j, hj, rfl⟩ := List.mem_map.1 h
    exact ⟨i, j, List.mem_range.1 hj, List.mem_range.1 hi, rfl⟩
  · rintro ⟨i, j, hji, hi, rfl⟩
    exact List.mem_flatMap.2 ⟨i, List.mem_range.2 hi, List.mem_map.2 ⟨j, List.mem_range.2 hji, rfl⟩⟩

/-- A clause that passes both tests has at most 256 literals, and none of its variables is repeated:
the 257th literal would be compared with the first as if it were it. -/
theorem clean_of_tests {c : Clause} (ht : isAlwaysTrue c = false) (hu : isUnclean c = false) :
    c.length ≤ 256 ∧ Clean c := by
  have hpairs : ∀ i j, j < i → i < c.length → varIndex (c.subscript i) ≠ varIndex (c.subscript j) := by
    intro i j hji hi hv
    have hmem : (c.subscript i, c.subscript j) ∈ literalPairs c := mem_literalPairs.2 ⟨i, j, hji, hi, rfl⟩
    unfold isAlwaysTrue at ht
    unfold isUnclean at hu
    rw [List.any_eq_false] at ht hu
    have h1 := ht _ hmem
    have h2 := hu _ hmem
    simp only [hv, beq_self_eq_true, Bool.true_and, bne_iff_ne, beq_iff_eq, not_not] at h1 h2
    exact h2 h1
  have hlen : c.length ≤ 256 := by
    by_contra hlt
    exact hpairs 256 0 (by omega) (by omega) rfl
  refine ⟨hlen, ?_⟩
  unfold Clean
  rw [List.Nodup, List.pairwise_iff_getElem]
  intro i j hi hj hij
  rw [List.length_map] at hi hj
  have := hpairs j i hij hj
  rw [Clause.subscript_eq hlen hi, Clause.subscript_eq hlen hj] at this
  rw [List.getElem_map, List.getElem_map]
  exact this.symm

/-! ## One line -/

/-- What holds between two lines. -/
structure ReadInv (st : ReadState) : Prop where
  size : (st.counts.size : Int) = st.numVars
  vars : st.numVars ≤ numMax
  range : CountsRange st.counts
  clauses : ∀ c ∈ st.clauses, (1 ≤ c.length ∧ c.length ≤ 256) ∧ Clean c

/-- Before the first line there is no variable and no clause. -/
theorem ReadInv.start : ReadInv ⟨0, 0, [], ⟨0, fun _ => (0, 0)⟩, []⟩ :=
  ⟨rfl, by decide, fun _ hl hvl => absurd hvl (not_lt.2 (varIndex_nonneg hl)), fun c hc => by cases hc⟩

/-- What a line that is accepted does. -/
inductive LineRead (line : Text) (st st' : ReadState) : Prop
  | skipped (hline : isClauseLine line = false) (hdecl : declared line = none) (hst : st' = st)
  | configuration (n : Int) (hline : isClauseLine line = false) (hdecl : declared line = some n)
      (hn : 1 ≤ n) (hvars : st'.numVars = n) (hclauses : st'.clauses = st.clauses)
      (hcounts : st'.counts = st.counts.resize n.toNat (0, 0))
  | clause (hline : isClauseLine line = true) (hdecl : declared line = none) (hvars : st'.numVars = st.numVars)
      (hlits : ∀ x ∈ fieldLiterals line, x ≠ 0 ∧ varIndex x < st.numVars)
      (hsize : st'.counts.size = st.counts.size)
      (hcounts : ∀ l, l ≠ 0 → counted st'.counts l = counted st.counts l + (fieldLiterals line).count l)
      (hclauses : st'.clauses =
        if isAlwaysTrue (storedLiterals line) then st.clauses else st.clauses ++ [storedLiterals line])

/-- What an accepted clause line does. -/
theorem LineRead.of_clauseLine {line : Text} {st st' : ReadState} (h : LineRead line st st')
    (hline : isClauseLine line = true) :
    st'.numVars = st.numVars ∧ (∀ x ∈ fieldLiterals line, x ≠ 0 ∧ varIndex x < st.numVars) ∧
      (∀ l, l ≠ 0 → counted st'.counts l = counted st.counts l + (fieldLiterals line).count l) ∧
      st'.clauses = if isAlwaysTrue (storedLiterals line) then st.clauses else st.clauses ++ [storedLiterals line] := by
  cases h with
  | skipped hline' _ _ => rw [hline'] at hline; cases hline
  | configuration _ hline' _ _ _ _ _ => rw [hline'] at hline; cases hline
  | clause _ _ hvars hlits _ hcounts hclauses => exact ⟨hvars, hlits, hcounts, hclauses⟩

theorem verifyParameter_ok {tmp : Int} {u : Unit} (h : verifyParameter tmp = .ok u) : 1 ≤ tmp ∧ tmp < numMax := by
  unfold verifyParameter at h
  split at h
  · cases h
  · split at h
    · cases h
    · omega

/-- The first word of a p line is read whatever `field` was before. -/
theorem extractWord_first {s : Text} {c : Char} (hc : isSpace c = false) (field field' : Text) :
    (IStream.ofText (c :: s)).extractWord field = (IStream.ofText (c :: s)).extractWord field' := by
  unfold IStream.extractWord IStream.ofText
  simp [hc]

theorem configurationFields_field (s field field' : Text) :
    configurationFields ('p' :: s) field = configurationFields ('p' :: s) field' := by
  unfold configurationFields
  rw [extractWord_first rfl field field']

theorem configurationFields_ok {line field f : Text} {n m : Int} (h : configurationFields line field = .ok (n, m, f)) :
    1 ≤ n ∧ n < numMax := by
  unfold configurationFields at h
  simp only at h
  obtain ⟨tmp, -, h⟩ := bind_ok h
  obtain ⟨u, hver, h⟩ := bind_ok h
  obtain ⟨tmp', -, h⟩ := bind_ok h
  obtain ⟨u', -, h⟩ := bind_ok h
  split at h
  · cases h
  · cases h
    exact verifyParameter_ok (throwAt_ok hver)

theorem parseClause_ok {line : Text} {st st' : ReadState} (hI : ReadInv st) (hline : isClauseLine line = true)
    (hdecl : declared line = none) (h : parseClause line st = .ok st') : ReadInv st' ∧ LineRead line st st' := by
  unfold parseClause at h
  split at h
  · cases h
  · obtain ⟨counts, hfold, h⟩ := bind_ok h
    obtain ⟨lits, hlits, hin, hs, hr, hc⟩ := foldlM_parseField hI.vars _ _ _ hI.size hI.range hfold
    obtain rfl : lits = fieldLiterals line := hlits
    have hlen : (getlines ' ' (clauseText line)).length = (fieldLiterals line).length := by
      unfold fieldLiterals
      rw [List.length_map]
    simp only at h
    split at h
    · cases h
    · rename_i hpos
      split at h
      · cases h
      · rename_i hsame
        rw [not_not] at hsame
        split at h
        · rename_i htrue
          cases h
          refine ⟨⟨?_, hI.vars, hr, hI.clauses⟩, .clause hline hdecl rfl hin hs hc (if_pos htrue).symm⟩
          rw [← hI.size]
          exact congrArg _ hs
        · rename_i htrue
          split at h
          · cases h
          · rename_i hunclean
            cases h
            obtain ⟨hwidth, hclean⟩ := clean_of_tests (by simpa using htrue) (by simpa using hunclean)
            refine ⟨⟨?_, hI.vars, hr, fun c hmem => ?_⟩, .clause hline hdecl rfl hin hs hc (if_neg htrue).symm⟩
            · rw [← hI.size]
              exact congrArg _ hs
            · rcases List.mem_append.1 hmem with hmem | hmem
              · exact hI.clauses c hmem
              · obtain rfl := List.mem_singleton.1 hmem
                exact ⟨⟨by omega, hwidth⟩, hclean⟩

/-- Every accepted line is of one of the three kinds, and keeps the invariant. -/
theorem readLine_ok {line : Text} {st st' : ReadState} (hI : ReadInv st) (h : readLine st line = .ok st') :
    ReadInv st' ∧ LineRead line st st' := by
  unfold readLine at h
  split at h
  · cases h
    exact ⟨hI, .skipped rfl rfl rfl⟩
  · cases h
    exact ⟨hI, .skipped rfl rfl rfl⟩
  · rename_i s
    obtain ⟨st₁, hconf, h⟩ := bind_ok h
    cases h
    unfold parseConfiguration at hconf
    split at hconf
    · cases hconf
    · obtain ⟨⟨n, m, f⟩, hfields, hconf⟩ := bind_ok hconf
      cases hconf
      obtain ⟨h1, hmax⟩ := configurationFields_ok hfields
      have hdecl : declared ('p' :: s) = some n := by
        unfold declared
        simp only [configurationFields_field s [] st.field, hfields]
      refine ⟨⟨?_, hmax.le, ?_, hI.clauses⟩, .configuration n rfl hdecl h1 rfl rfl rfl⟩
      · simp only [Vec.size_resize]
        omega
      · intro l hl hvl
        simp only [Vec.size_resize] at hvl
        simp only [counted, Vec.get_resize]
        split_ifs with hneg hlt hlt
        · have := hI.range l hl hlt
          rwa [counted, if_pos hneg] at this
        · unfold cntMax; omega
        · have := hI.range l hl hlt
          rwa [counted, if_neg hneg] at this
        · unfold cntMax; omega
  · rename_i hnil hcom hconf
    have hline : isClauseLine line = true := by
      unfold isClauseLine
      split
      · exact absurd rfl hnil
      · exact absurd rfl (hcom _)
      · exact absurd rfl (hconf _)
      · rfl
    have hdecl : declared line = none := by
      unfold declared
      split
      · exact absurd rfl (hconf _)
      · rfl
    exact parseClause_ok hI hline hdecl h

/-! ## The whole text -/

/-- How often a literal is counted, if the table has an entry for it. -/
def countedAt (counts : Counts) (l : Int) : Int := if varIndex l < counts.size then counted counts l else 0

theorem survives_cons (l : Int) (line : Text) (rest : List Text) :
    survives l (line :: rest) = ((declared line).all (fun n => decide (varIndex l < n)) && survives l rest) := rfl

theorem keptClauses_cons (line : Text) (rest : List Text) : keptClauses (line :: rest) =
    (if isClauseLine line && !isAlwaysTrue (storedLiterals line) then [storedLiterals line] else []) ++
      keptClauses rest := by
  unfold keptClauses
  rw [List.filter_cons]
  split <;> rfl

/-- What the lines of a text do to the state. -/
structure LinesRead (lines : List Text) (st st' : ReadState) : Prop where
  inv : ReadInv st'
  positive : ∀ line ∈ lines, ∀ n, declared line = some n → 1 ≤ n
  vars : st'.numVars = lastDeclared st.numVars lines
  clauses : st'.clauses = st.clauses ++ keptClauses lines
  counts : ∀ l, l ≠ 0 →
    countedAt st'.counts l = (if survives l lines then countedAt st.counts l else 0) + countedIn l lines
  literal : ∀ line rest, line :: rest <:+ lines → isClauseLine line = true → ∀ x ∈ fieldLiterals line,
    x ≠ 0 ∧ (survives x rest = true → varIndex x < st'.numVars)

/-- A literal that no p line cuts off is about a variable of the text. -/
theorem lastDeclared_gt {l : Int} : ∀ (lines : List Text) (n : Int), survives l lines = true → varIndex l < n →
    varIndex l < lastDeclared n lines
  | [], n, _, hn => hn
  | line :: rest, n, hs, hn => by
    rw [survives_cons, Bool.and_eq_true] at hs
    obtain ⟨hd, hs⟩ := hs
    refine lastDeclared_gt rest _ hs ?_
    show varIndex l < (declared line).getD n
    cases hdecl : declared line with
    | none => exact hn
    | some m =>
      rw [hdecl] at hd
      exact of_decide_eq_true hd

/-- One line, then the rest. -/
theorem LineRead.cons {line : Text} {rest : List Text} {st st₁ st' : ReadState} (hI : ReadInv st) (hI₁ : ReadInv st₁)
    (h : LineRead line st st₁) (hr : LinesRead rest st₁ st') : LinesRead (line :: rest) st st' where
  inv := hr.inv
  positive line' hmem n hn := by
    rcases List.mem_cons.1 hmem with rfl | hmem
    · cases h with
      | skipped _ hdecl _ => rw [hdecl] at hn; cases hn
      | configuration m _ hdecl hm _ _ _ => rw [hdecl] at hn; cases hn; exact hm
      | clause _ hdecl _ _ _ _ _ => rw [hdecl] at hn; cases hn
    · exact hr.positive line' hmem n hn
  vars := by
    rw [hr.vars]
    unfold lastDeclared
    rw [List.foldl_cons]
    cases h with
    | skipped _ hdecl hst => rw [hdecl, hst]; rfl
    | configuration n _ hdecl _ hvars _ _ => rw [hdecl, hvars]; rfl
    | clause _ hdecl hvars _ _ _ _ => rw [hdecl, hvars]; rfl
  clauses := by
    rw [hr.clauses, keptClauses_cons, ← List.append_assoc]
    congr 1
    cases h with
    | skipped hline _ hst => rw [hline, hst]; simp
    | configuration _ hline _ _ _ hclauses _ => rw [hline, hclauses]; simp
    | clause hline _ _ _ _ _ hclauses =>
      rw [hline, hclauses]
      cases isAlwaysTrue (storedLiterals line) <;> simp
  counts l hl := by
    rw [hr.counts l hl, countedIn, survives_cons]
    cases h with
    | skipped hline hdecl hst => rw [hline, hdecl, hst]; simp
    | configuration n hline hdecl hn hvars hclauses hcounts =>
      -- a p line that declares too few variables cuts the count off, here and in `survives`
      have hat : countedAt st₁.counts l = if varIndex l < n then countedAt st.counts l else 0 := by
        unfold countedAt
        have h1 : varIndex l < ((st₁.counts.size : Nat) : Int) ↔ varIndex l < n := by rw [hI₁.size, hvars]
        rw [if_congr h1 rfl rfl]
        split
        · rw [hcounts]
          unfold counted
          rw [Vec.get_resize]
          split_ifs <;> rfl
        · rfl
      rw [hline, hdecl, hat]
      by_cases hlt : varIndex l < n <;> simp [hlt]
    | clause hline hdecl hvars hlits hsize hcounts hclauses =>
      have hat : countedAt st₁.counts l = countedAt st.counts l + (fieldLiterals line).count l := by
        unfold countedAt
        rw [hsize]
        split
        · exact hcounts l hl
        · rename_i hlt
          have hz : (fieldLiterals line).count l = 0 := by
            refine List.count_eq_zero.2 fun hmem => hlt ?_
            rw [hI.size]
            exact (hlits l hmem).2
          rw [hz]
          rfl
      rw [hline, hdecl, hat]
      cases survives l rest <;> simp
      ring
  literal line' rest' hsuf hline x hx := by
    rcases List.suffix_cons_iff.1 hsuf with e | hsuf
    · obtain ⟨rfl, rfl⟩ := List.cons.inj e
      obtain ⟨hvars, hlits, -, -⟩ := h.of_clauseLine hline
      obtain ⟨h0, hlt⟩ := hlits x hx
      refine ⟨h0, fun hs => ?_⟩
      rw [hr.vars]
      exact lastDeclared_gt _ _ hs (by rw [hvars]; exact hlt)
    · exact hr.literal line' rest' hsuf hline x hx

theorem readLines_ok : ∀ (lines : List Text) (k : Nat) (st st' : ReadState), ReadInv st →
    readLines k st lines = .ok st' → LinesRead lines st st'
  | [], k, st, st', hI, h => by
    cases h
    refine ⟨hI, by simp, rfl, by simp [keptClauses], fun l _ => by simp [survives, countedIn], fun line rest hsuf => ?_⟩
    exact absurd (List.suffix_nil.1 hsuf) (by simp)
  | line :: rest, k, st, st', hI, h => by
    unfold readLines at h
    split at h
    · cases h
    · rename_i st₁ hline
      obtain ⟨hI₁, hL⟩ := readLine_ok hI hline
      exact hL.cons hI hI₁ (readLines_ok rest _ st₁ st' hI₁ h)

theorem readLines_append : ∀ (pre rest : List Text) (k : Nat) (st : ReadState),
    readLines k st (pre ++ rest) = readLines k st pre >>= fun st => readLines (k + pre.length) st rest
  | [], _, _, _ => rfl
  | line :: pre, rest, k, st => by
    rw [List.cons_append, readLines, readLines]
    cases readLine st line with
    | error fault => rfl
    | ok st₁ =>
      simp only
      rw [readLines_append pre rest (k + 1) st₁, List.length_cons,
        show k + (pre.length + 1) = k + 1 + pre.length by omega]

/-- The lines of a text. -/
def textLines (text : Text) : List Text := getlines '\n' text

/-- What `read` returns, in terms of the text. -/
structure ReadFacts (text : Text) (r : Input) : Prop where
  positive : ∀ line ∈ textLines text, ∀ n, declared line = some n → 1 ≤ n
  last : r.numVars = lastDeclared 0 (textLines text)
  size : (r.counts.size : Int) = r.numVars
  vars : r.numVars ≤ numMax
  clauses : r.clauses = keptClauses (textLines text)
  widthClean : ∀ c ∈ r.clauses, (1 ≤ c.length ∧ c.length ≤ 256) ∧ Clean c
  counts : ∀ l, l ≠ 0 → varIndex l < r.numVars → counted r.counts l = countedIn l (textLines text)
  range : ∀ l, l ≠ 0 → varIndex l < r.numVars → 0 ≤ counted r.counts l ∧ counted r.counts l ≤ cntMax
  literal : ∀ line rest, line :: rest <:+ textLines text → isClauseLine line = true → ∀ x ∈ fieldLiterals line,
    x ≠ 0 ∧ (survives x rest = true → varIndex x < r.numVars)

theorem read_ok {text : Text} {r : Input} (h : read text = .ok r) : ReadFacts text r := by
  unfold read at h
  obtain ⟨st, hst, h⟩ := bind_ok h
  cases h
  have hL := readLines_ok _ _ _ _ ReadInv.start hst
  refine ⟨hL.positive, hL.vars, hL.inv.size, hL.inv.vars, hL.clauses, hL.inv.clauses, fun l hl hvl => ?_,
    fun l hl hvl => ?_, hL.literal⟩
  · have hc := hL.counts l hl
    have h0 : countedAt (⟨0, fun _ => (0, 0)⟩ : Counts) l = 0 :=
      if_neg (not_lt.2 (varIndex_nonneg hl))
    rw [countedAt, if_pos (by rw [hL.inv.size]; exact hvl)] at hc
    simp only [h0, ite_self, zero_add] at hc
    exact hc
  · exact hL.inv.range l hl (by rw [hL.inv.size]; exact hvl)

theorem mem_keptClauses {lines : List Text} {c : Clause} : c ∈ keptClauses lines ↔
    ∃ line rest, line :: rest <:+ lines ∧ isClauseLine line = true ∧ isAlwaysTrue (storedLiterals line) = false ∧
      c = storedLiterals line := by
  induction lines with
  | nil => simp [keptClauses]
  | cons line rest ih =>
    rw [keptClauses_cons, List.mem_append, ih]
    constructor
    · rintro (h | ⟨line', rest', hsuf, h⟩)
      · split at h
        · rename_i hk
          rw [Bool.and_eq_true, Bool.not_eq_true'] at hk
          exact ⟨line, rest, List.suffix_refl _, hk.1, hk.2, List.mem_singleton.1 h⟩
        · cases h
      · exact ⟨line', rest', hsuf.trans (List.suffix_cons _ _), h⟩
    · rintro ⟨line', rest', hsuf, hc, ht, rfl⟩
      rcases List.suffix_cons_iff.1 hsuf with e | hsuf
      · obtain ⟨rfl, rfl⟩ := List.cons.inj e
        rw [hc, ht]
        exact Or.inl (List.mem_singleton.2 rfl)
      · exact Or.inr ⟨line', rest', hsuf, hc, ht, rfl⟩

/-! ## Texts without a p line -/

theorem lastDeclared_pos : ∀ (lines : List Text) (n : Int), (∀ line ∈ lines, ∀ m, declared line = some m → 1 ≤ m) →
    1 ≤ n → 1 ≤ lastDeclared n lines
  | [], _, _, hn => hn
  | line :: rest, n, hp, hn => by
    refine lastDeclared_pos rest _ (fun l hl => hp l (List.mem_cons_of_mem _ hl)) ?_
    show 1 ≤ (declared line).getD n
    cases hd : declared line with
    | none => exact hn
    | some m => exact hp line (List.mem_cons_self ..) m hd

/-- Only a text without a p line declares no variable. -/
theorem declared_none : ∀ (lines : List Text) (n : Int), (∀ line ∈ lines, ∀ m, declared line = some m → 1 ≤ m) →
    lastDeclared n lines = 0 → ∀ line ∈ lines, declared line = none
  | first :: rest, n, hp, h0, line, hmem => by
    have hp' : ∀ line ∈ rest, ∀ m, declared line = some m → 1 ≤ m := fun l hl => hp l (List.mem_cons_of_mem _ hl)
    rcases List.mem_cons.1 hmem with rfl | hmem
    · cases hd : declared line with
      | none => rfl
      | some m =>
        have : 1 ≤ lastDeclared ((declared line).getD n) rest :=
          lastDeclared_pos rest _ hp' (by rw [hd]; exact hp line (List.mem_cons_self ..) m hd)
        change lastDeclared ((declared line).getD n) rest = 0 at h0
        omega
    · exact declared_none rest _ hp' h0 line hmem

theorem getlines_ne_nil (delim : Char) : ∀ s : Text, getlines delim s ≠ []
  | [] => by simp [getlines]
  | c :: s => by
    unfold getlines
    split
    · simp
    · split <;> simp

theorem exists_fieldLiteral (line : Text) : ∃ x, x ∈ fieldLiterals line := by
  refine List.exists_mem_of_ne_nil _ fun e => ?_
  exact getlines_ne_nil ' ' (clauseText line) (List.map_eq_nil_iff.1 e)

/-- A text that declares no variable has no clause. -/
theorem ReadFacts.clauses_nil {text : Text} {r : Input} (h : ReadFacts text r) (h0 : r.numVars = 0) :
    r.clauses = [] := by
  have hnone := declared_none _ _ h.positive (h.last.symm.trans h0)
  rw [h.clauses]
  refine List.eq_nil_iff_forall_not_mem.2 fun c hc => ?_
  obtain ⟨line, rest, hsuf, hline, -, -⟩ := mem_keptClauses.1 hc
  obtain ⟨x, hx⟩ := exists_fieldLiteral line
  obtain ⟨hx0, hlt⟩ := h.literal line rest hsuf hline x hx
  have hs : survives x rest = true := by
    unfold survives
    refine List.all_eq_true.2 fun l hl => ?_
    rw [hnone l (hsuf.subset (List.mem_cons_of_mem _ hl))]
    rfl
  have := hlt hs
  have := varIndex_nonneg hx0
  omega

/-! ## Consistency -/

/-- What the construction of the index relies on. -/
structure Consistent (r : Input) : Prop where
  literal : ∀ c ∈ r.clauses, ∀ l ∈ c, l ≠ 0 ∧ (l.natAbs : Int) ≤ r.numVars
  clean : ∀ c ∈ r.clauses, Clean c
  size : (r.counts.size : Int) = r.numVars
  counts : ∀ v, 0 ≤ v → v < r.numVars → r.counts.get v =
    ((numOccurrences r.clauses (-(v + 1)) : Int), (numOccurrences r.clauses (v + 1) : Int))

/-- A clause line that is kept, that both passes read alike, and none of whose literals a later p
line cuts off. -/
def regular (line : Text) (rest : List Text) : Bool :=
  storedLiterals line == fieldLiterals line && !isAlwaysTrue (storedLiterals line) &&
    (fieldLiterals line).all fun l => survives l rest

/-- How much oftener a literal is counted for a line than it occurs in the clause kept of it. -/
def lineSurplus (l : Int) (line : Text) (rest : List Text) : Int :=
  (if survives l rest then ((fieldLiterals line).count l : Int) else 0) -
    (if isAlwaysTrue (storedLiterals line) then 0 else ((storedLiterals line).count l : Int))

/-- The surplus of the clause lines that are not regular. -/
def surplus (l : Int) : List Text → Int
  | [] => 0
  | line :: rest => (if isClauseLine line && !regular line rest then lineSurplus l line rest else 0) + surplus l rest

/-- The irregular lines that are kept name variables of the text. -/
def IrregularInRange (text : Text) : Prop :=
  ∀ line rest, line :: rest <:+ textLines text → isClauseLine line = true → regular line rest = false →
    isAlwaysTrue (storedLiterals line) = false →
      ∀ x ∈ storedLiterals line, x ≠ 0 ∧ varIndex x < lastDeclared 0 (textLines text)

/-- The lines that are not regular name variables of the text, and cancel out. -/
structure Balanced (text : Text) : Prop where
  literal : IrregularInRange text
  counts : ∀ l, l ≠ 0 → varIndex l < lastDeclared 0 (textLines text) → surplus l (textLines text) = 0

theorem regular_iff {line : Text} {rest : List Text} : regular line rest = true ↔
    storedLiterals line = fieldLiterals line ∧ isAlwaysTrue (storedLiterals line) = false ∧
      ∀ l ∈ fieldLiterals line, survives l rest = true := by
  unfold regular
  rw [Bool.and_eq_true, Bool.and_eq_true, beq_iff_eq, Bool.not_eq_true', List.all_eq_true, and_assoc]

/-- A regular line has no surplus. -/
theorem lineSurplus_regular {line : Text} {rest : List Text} (h : regular line rest = true) (l : Int) :
    lineSurplus l line rest = 0 := by
  obtain ⟨hsame, htrue, hsurv⟩ := regular_iff.1 h
  unfold lineSurplus
  rw [htrue, hsame]
  simp only [Bool.false_eq_true, if_false]
  split
  · omega
  · rename_i hs
    have : (fieldLiterals line).count l = 0 := List.count_eq_zero.2 fun hm => hs (hsurv l hm)
    omega

/-- How often a literal occurs in the clauses that are kept. -/
def storedIn (l : Int) (lines : List Text) : Int := numOccurrences (keptClauses lines) l

theorem countedIn_eq (l : Int) : ∀ lines : List Text, countedIn l lines = storedIn l lines + surplus l lines
  | [] => rfl
  | line :: rest => by
    have hstored : storedIn l (line :: rest) = (if isClauseLine line then
        (if isAlwaysTrue (storedLiterals line) then 0 else ((storedLiterals line).count l : Int)) else 0) +
          storedIn l rest := by
      unfold storedIn numOccurrences
      rw [keptClauses_cons, List.map_append, List.sum_append]
      cases isClauseLine line <;> cases isAlwaysTrue (storedLiterals line) <;> simp
    have hline : (if isClauseLine line && survives l rest then ((fieldLiterals line).count l : Int) else 0) =
        (if isClauseLine line then
          (if isAlwaysTrue (storedLiterals line) then 0 else ((storedLiterals line).count l : Int)) else 0) +
        (if isClauseLine line && !regular line rest then lineSurplus l line rest else 0) := by
      cases hc : isClauseLine line with
      | false => simp
      | true =>
        have hsum : (if survives l rest then ((fieldLiterals line).count l : Int) else 0) =
            (if isAlwaysTrue (storedLiterals line) then 0 else ((storedLiterals line).count l : Int)) +
              lineSurplus l line rest := by
          unfold lineSurplus; omega
        cases hreg : regular line rest with
        | false => simpa using hsum
        | true =>
          rw [lineSurplus_regular hreg] at hsum
          simpa using hsum
    rw [countedIn, surplus, hstored, hline, countedIn_eq l rest]
    ring

theorem ReadFacts.stored {text : Text} {r : Input} (h : ReadFacts text r) (l : Int) :
    (numOccurrences r.clauses l : Int) = storedIn l (textLines text) := by
  rw [h.clauses]
  rfl

/-- Then so do all clauses that are stored. -/
theorem ReadFacts.isLiteral {text : Text} {r : Input} (h : ReadFacts text r) (hi : IrregularInRange text) {c : Clause}
    (hc : c ∈ r.clauses) {l : Int} (hl : l ∈ c) : l ≠ 0 ∧ varIndex l < r.numVars := by
  rw [h.clauses] at hc
  obtain ⟨line, rest, hsuf, hline, htrue, rfl⟩ := mem_keptClauses.1 hc
  cases hreg : regular line rest with
  | false => rw [h.last]; exact hi line rest hsuf hline hreg htrue l hl
  | true =>
    obtain ⟨hsame, -, hsurv⟩ := regular_iff.1 hreg
    rw [hsame] at hl
    obtain ⟨h0, hlt⟩ := h.literal line rest hsuf hline l hl
    exact ⟨h0, hlt (hsurv l hl)⟩

/-- What `read` returns is consistent exactly when the irregular lines of the text cancel out. -/
theorem read_consistent_iff (text : Text) (r : Input) (h : read text = .ok r) : Consistent r ↔ Balanced text := by
  have hf := read_ok h
  have hlast := hf.last
  constructor
  · intro hc
    constructor
    · intro line rest hsuf hline _ htrue x hx
      have hmem : storedLiterals line ∈ r.clauses := by
        rw [hf.clauses]
        exact mem_keptClauses.2 ⟨line, rest, hsuf, hline, htrue, rfl⟩
      obtain ⟨h0, hle⟩ := hc.literal _ hmem x hx
      rw [← hlast]
      exact ⟨h0, by unfold varIndex; omega⟩
    · intro l hl hvl
      rw [← hlast] at hvl
      have h1 := hf.counts l hl hvl
      rw [countedIn_eq, ← hf.stored] at h1
      have h2 := hc.counts _ (varIndex_nonneg hl) hvl
      unfold counted at h1
      rw [h2] at h1
      rcases varIndex_cases hl with ⟨hneg, e⟩ | ⟨hpos, e⟩
      · rw [if_pos hneg, e] at h1
        omega
      · rw [if_neg (show ¬ 0 > l by omega), e] at h1
        omega
  · intro hb
    have hcounts : ∀ l, l ≠ 0 → varIndex l < r.numVars →
        counted r.counts l = numOccurrences r.clauses l := by
      intro l hl hvl
      rw [hf.counts l hl hvl, countedIn_eq, hb.counts l hl (by rw [← hlast]; exact hvl), add_zero, hf.stored]
    refine ⟨fun c hmem l hl => ?_, fun c hmem => (hf.widthClean c hmem).2, hf.size, fun v h0 hv => ?_⟩
    · obtain ⟨h0, hlt⟩ := hf.isLiteral hb.literal hmem hl
      exact ⟨h0, by unfold varIndex at hlt; omega⟩
    · have h1 := hcounts (-(v + 1)) (by omega) (by unfold varIndex; omega)
      have h2 := hcounts (v + 1) (by omega) (by unfold varIndex; omega)
      rw [counted_neg _ h0] at h1
      rw [counted_pos _ h0] at h2
      exact Prod.ext h1 h2

/-- Every clause line is regular. -/
def allRegular : List Text → Bool
  | [] => true
  | line :: rest => (!isClauseLine line || regular line rest) && allRegular rest

/-- A text of regular clause lines only is balanced. -/
theorem Balanced.of_regular {text : Text} (h : allRegular (textLines text) = true) : Balanced text := by
  have hline : ∀ lines, allRegular lines = true → ∀ line rest, line :: rest <:+ lines → isClauseLine line = true →
      regular line rest = true := by
    intro lines hall line rest hsuf hc
    induction lines with
    | nil => exact absurd (List.suffix_nil.1 hsuf) (by simp)
    | cons first others ih =>
      rw [allRegular, Bool.and_eq_true] at hall
      rcases List.suffix_cons_iff.1 hsuf with e | hsuf
      · obtain ⟨rfl, rfl⟩ := List.cons.inj e
        simpa [hc] using hall.1
      · exact ih hall.2 hsuf
  have hsurplus : ∀ l lines, allRegular lines = true → surplus l lines = 0 := by
    intro l lines hall
    induction lines with
    | nil => rfl
    | cons first others ih =>
      rw [allRegular, Bool.and_eq_true] at hall
      rw [surplus, ih hall.2, add_zero]
      cases hc : isClauseLine first with
      | false => rfl
      | true =>
        have : regular first others = true := by simpa [hc] using hall.1
        rw [this]
        rfl
  refine ⟨fun line rest hsuf hc hreg => ?_, fun l _ _ => hsurplus l _ h⟩
  rw [hline _ h line rest hsuf hc] at hreg
  cases hreg

/-- A text whose first clause is always true: "p cnf 2 2", "1 -1 0", "2 0". -/
def alwaysTrueText : Text :=
  ['p', ' ', 'c', 'n', 'f', ' ', '2', ' ', '2', '\n', '1', ' ', '-', '1', ' ', '0', '\n', '2', ' ', '0']

/-- `read` accepts it, and the dropped clause stays counted. -/
theorem read_alwaysTrueText : (read alwaysTrueText).toOption.map (fun r => (r.numVars, r.clauses, r.counts.get 0)) =
    some (2, [[2]], (1, 1)) := by decide +kernel

theorem read_consistent_iff_alwaysTrueText :
    ∃ r, read alwaysTrueText = .ok r ∧ (Consistent r ↔ Balanced alwaysTrueText) := by
  obtain ⟨r, hread, -⟩ := ok_of_map_toOption read_alwaysTrueText
  exact ⟨r, hread, read_consistent_iff alwaysTrueText r hread⟩

theorem read_not_consistent : ¬ ∀ text r, read text = .ok r → Consistent r := by
  intro h
  obtain ⟨r, hread, hr⟩ := ok_of_map_toOption read_alwaysTrueText
  obtain ⟨hn, hr⟩ := Prod.mk.inj hr
  obtain ⟨hclauses, hcounts⟩ := Prod.mk.inj hr
  have := (h alwaysTrueText r hread).counts 0 (le_refl 0) (by rw [hn]; decide)
  rw [hclauses, hcounts] at this
  exact absurd this (by decide)

end ParallelProbsat.Sat
