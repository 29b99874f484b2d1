/-
The break cache in the build that allows unclean clauses. Such a clause is visited once for each
occurrence of a literal, by either loop of a flip or by both, and its counter passes through values
that no assignment gives it. The caches follow the counted literals through all of these rounds, so
after the flip they are exact again; and no round asks for the variable of the literal 0.
-/
import ParallelProbsat.Sat.BreakCache

namespace ParallelProbsat.Sat

open ParallelProbsat.Lib ParallelProbsat.Util

namespace SerialInstance

/-! ## The indices of critical literals -/

/-- The index `abs(crit_literal) - 1` that a round of the break loop takes of the cache, if it takes one. -/
def breakCritIndex (B : Build) (F : CnfFormula) (literal : Int) (s : SerialInstance) (clauseIndex : Int) : Option Int :=
  let critLiteral := s.getCriticalLiteral (F.getClause clauseIndex) (-literal)
  if (B.caching ∧ s.unsatClausesLocation.get clauseIndex = -2) ∧ ¬(B.allowUncleanClauses ∧ critLiteral = 0) then
    some (varIndex critLiteral)
  else none

/-- The same for a round of the make loop. -/
def makeCritIndex (B : Build) (F : CnfFormula) (literal : Int) (s : SerialInstance) (clauseIndex : Int) : Option Int :=
  let critLiteral :=
    if B.useCritLiteralCaching then s.critLiteralInClause.get clauseIndex
    else s.getCriticalLiteral (F.getClause clauseIndex) (-literal)
  if (B.caching ∧ s.unsatClausesLocation.get clauseIndex = -1) ∧ ¬(B.allowUncleanClauses ∧ critLiteral = 0) then
    some (varIndex critLiteral)
  else none

/-- The same for a round of the loop of `initialize`. -/
def initCritIndex (B : Build) (F : CnfFormula) (s : SerialInstance) (clauseIndex : Nat) : Option Int :=
  if s.getNumSatLitInClause F clauseIndex = 1 ∧ B.caching then
    some (varIndex (s.getCriticalLiteral (F.getClause clauseIndex) 0))
  else none

/-- All of them in one `flip_literal`. -/
def flipCritIndices (B : Build) (F : CnfFormula) (s : SerialInstance) (literal : Int) : List Int :=
  let it := flipRanges F literal
  noted (breakClause B F literal) (breakCritIndex B F literal) s it.1 ++
    noted (makeClause B F literal) (makeCritIndex B F literal) (it.1.foldl (breakClause B F literal) s) it.2

/-- All of them in the construction. -/
def newCritIndices (B : Build) (F : CnfFormula) (mem : Memory) (initialConfig : Bitfield) : List Int :=
  noted (fun s (i : Nat) => initClause B F s i) (initCritIndex B F) (constructed B F mem initialConfig)
    (List.range F.clauses.length)

variable {B : Build} {F : CnfFormula}

/-- A break round writes the cache at the flipped variable and at the index it takes, nowhere else. -/
theorem breakClause_writes (hB : B.caching = true) (l : Int) (s : SerialInstance) (c : Int) {v : Int}
    (hv : v ≠ varIndex l) (hi : breakCritIndex B F l s c ≠ some v) :
    (breakClause B F l s c).numBreaksByFlip.get v = s.numBreaksByFlip.get v := by
  have hk := congrArg Prod.fst (breakClause_caches B hB F l s c)
  unfold breakCritIndex at hi
  simp only at hk
  rw [hk]
  by_cases h1 : s.unsatClausesLocation.get c = -1
  · rw [if_pos h1, addBreaks_get, if_neg hv]
  rw [if_neg h1]
  by_cases h2 : s.unsatClausesLocation.get c = -2
  · rw [if_pos h2]
    by_cases h3 : B.allowUncleanClauses = true ∧ s.getCriticalLiteral (F.getClause c) (-l) = 0
    · rw [if_pos h3, addBreaks_get, if_neg hv]
    · rw [if_pos ⟨⟨hB, h2⟩, h3⟩] at hi
      rw [if_neg h3, addBreaks_get, if_neg fun e => hi (congrArg some e.symm)]
  · rw [if_neg h2]

theorem makeClause_writes (hB : B.caching = true) (l : Int) (s : SerialInstance) (c : Int) {v : Int}
    (hv : v ≠ varIndex l) (hi : makeCritIndex B F l s c ≠ some v) :
    (makeClause B F l s c).numBreaksByFlip.get v = s.numBreaksByFlip.get v := by
  have hk := congrArg Prod.fst (makeClause_caches B hB F l s c)
  unfold makeCritIndex at hi
  simp only at hk hi
  generalize (if B.useCritLiteralCaching = true then s.critLiteralInClause.get c
    else s.getCriticalLiteral (F.getClause c) (-l)) = k at hk hi
  rw [hk]
  by_cases h1 : 0 ≤ s.unsatClausesLocation.get c
  · rw [if_pos h1, addBreaks_get, if_neg hv]
  rw [if_neg h1]
  by_cases h2 : s.unsatClausesLocation.get c = -1
  · rw [if_pos h2]
    by_cases h3 : B.allowUncleanClauses = true ∧ k = 0
    · rw [if_pos h3, addBreaks_get, if_neg hv]
    · rw [if_pos ⟨⟨hB, h2⟩, h3⟩] at hi
      rw [if_neg h3, addBreaks_get, if_neg fun e => hi (congrArg some e.symm)]
  · rw [if_neg h2]

theorem initClause_writes (s : SerialInstance) (i : Nat) {v : Int} (hi : initCritIndex B F s i ≠ some v) :
    (initClause B F s i).numBreaksByFlip.get v = s.numBreaksByFlip.get v := by
  have hk := congrArg Prod.fst (initClause_caches B F s i)
  unfold initCritIndex at hi
  simp only at hk
  rw [hk]
  by_cases h : s.getNumSatLitInClause F i = 1 ∧ B.caching = true
  · rw [if_pos h] at hi
    rw [if_pos h, addBreaks_get, if_neg fun e => hi (congrArg some e.symm)]
  · rw [if_neg h]

/-- A flip writes the cache at the flipped variable and at the indices it takes, nowhere else. -/
theorem flipLiteral_writes (hB : B.caching = true) (s : SerialInstance) (l : Int) {v : Int} (hv : v ≠ varIndex l)
    (hi : v ∉ flipCritIndices B F s l) :
    (flipLiteral B F s l).numBreaksByFlip.get v = s.numBreaksByFlip.get v := by
  unfold flipCritIndices at hi
  simp only [List.mem_append, not_or] at hi
  obtain ⟨hbreak, hmake⟩ := hi
  rw [flipLiteral_eq]
  show (afterLoops B F s l).numBreaksByFlip.get v = _
  unfold afterLoops
  rw [foldl_of_notMem_noted (fun s : SerialInstance => s.numBreaksByFlip.get v)
    (fun s c => makeClause_writes hB l s c hv) hmake]
  exact foldl_of_notMem_noted (fun s : SerialInstance => s.numBreaksByFlip.get v)
    (fun s c => breakClause_writes hB l s c hv) hbreak

theorem new_writes (mem : Memory) (config : Bitfield) {v : Int} (hi : v ∉ newCritIndices B F mem config) :
    (new B F mem config).numBreaksByFlip.get v = (constructed B F mem config).numBreaksByFlip.get v :=
  foldl_of_notMem_noted (fun s : SerialInstance => s.numBreaksByFlip.get v) (fun s i => initClause_writes s i) hi

/-! ## No index is negative -/

theorem breakCritIndex_nonneg (hB : B.allowUncleanClauses = true) {l : Int} {s : SerialInstance} {c i : Int}
    (h : breakCritIndex B F l s c = some i) : 0 ≤ i := by
  unfold breakCritIndex at h
  simp only at h
  split at h
  · rename_i hk
    obtain rfl := Option.some.inj h
    exact varIndex_nonneg fun e => hk.2 ⟨hB, e⟩
  · cases h

theorem makeCritIndex_nonneg (hB : B.allowUncleanClauses = true) {l : Int} {s : SerialInstance} {c i : Int}
    (h : makeCritIndex B F l s c = some i) : 0 ≤ i := by
  unfold makeCritIndex at h
  simp only at h
  generalize (if B.useCritLiteralCaching = true then s.critLiteralInClause.get c
    else s.getCriticalLiteral (F.getClause c) (-l)) = k at h
  split at h
  · rename_i hk
    obtain rfl := Option.some.inj h
    exact varIndex_nonneg fun e => hk.2 ⟨hB, e⟩
  · cases h

/-- The search of `initialize` always finds the one true literal of the clause. -/
theorem initCritIndex_nonneg (hw : F.WellFormed) {s : SerialInstance} {n : Nat} (hn : n < F.clauses.length) {i : Int}
    (h : initCritIndex B F s n = some i) : 0 ≤ i := by
  have hc : F.InRange n := ⟨by omega, by unfold CnfFormula.numClauses; omega⟩
  unfold initCritIndex at h
  split at h
  · rename_i hk
    obtain rfl := Option.some.inj h
    rw [numSatLitInClause_eq hw s hc] at hk
    obtain ⟨x, hx⟩ := Multiset.card_eq_one.1 hk.1
    have h0 : ∀ y ∈ trueLitsOf F s.assignment n, y ≠ 0 := fun y hy => (hw.isLiteral hc (mem_trueLits.1 hy).1).1
    rw [(getCriticalLiteral_eq hw s hc 0).1 x (by rw [Multiset.filter_eq_self.2 h0, hx])]
    exact varIndex_nonneg (h0 x (by rw [hx]; exact Multiset.mem_singleton_self x))
  · cases h

theorem flipCritIndices_nonneg (hB : B.allowUncleanClauses = true) (s : SerialInstance) (l : Int) :
    ∀ i ∈ flipCritIndices B F s l, 0 ≤ i := by
  intro i hi
  rcases List.mem_append.1 hi with hi | hi
  · exact noted_forall (P := (0 ≤ ·)) (fun _ _ _ _ h => breakCritIndex_nonneg hB h) i hi
  · exact noted_forall (P := (0 ≤ ·)) (fun _ _ _ _ h => makeCritIndex_nonneg hB h) i hi

theorem newCritIndices_nonneg (hw : F.WellFormed) (B : Build) (mem : Memory) (config : Bitfield) :
    ∀ i ∈ newCritIndices B F mem config, 0 ≤ i :=
  noted_forall (P := (0 ≤ ·)) fun _ _ hn _ h => initCritIndex_nonneg hw (List.mem_range.1 hn) h

/-! ## Whole runs -/

/-- With unclean clauses allowed and with or without the cache of critical literals: in every state that
flips of false literals reach, the cache answers like the recount for every false literal, and neither the
construction nor any flip takes a negative index of a critical literal. These indices are all: at no other entry,
apart from that of the flipped variable, the cache is written. -/
theorem uncleanCache_exact_in_every_run (F : ExactFormula) (useCritLiteralCaching : Bool) (mem : Memory)
    (config : Bitfield) (hc : HasAssignment F.toCnfFormula config) :
    (∀ i ∈ newCritIndices ⟨true, useCritLiteralCaching, true⟩ F.toCnfFormula mem config, 0 ≤ i) ∧
      (∀ v, v ∉ newCritIndices ⟨true, useCritLiteralCaching, true⟩ F.toCnfFormula mem config →
        (new ⟨true, useCritLiteralCaching, true⟩ F.toCnfFormula mem config).numBreaksByFlip.get v =
          (constructed ⟨true, useCritLiteralCaching, true⟩ F.toCnfFormula mem config).numBreaksByFlip.get v) ∧
      ∀ s, Relation.ReflTransGen (FalseFlip ⟨true, useCritLiteralCaching, true⟩ F.toCnfFormula)
          (new ⟨true, useCritLiteralCaching, true⟩ F.toCnfFormula mem config) s →
        ∀ l, F.IsLiteral l → litTrue s.assignment l = false →
          s.getNumBreaksByFlip F.toCnfFormula l true = s.getNumBreaksByFlip F.toCnfFormula l false ∧
            (∀ i ∈ flipCritIndices ⟨true, useCritLiteralCaching, true⟩ F.toCnfFormula s l, 0 ≤ i) ∧
            ∀ v, v ≠ varIndex l → v ∉ flipCritIndices ⟨true, useCritLiteralCaching, true⟩ F.toCnfFormula s l →
              (flipLiteral ⟨true, useCritLiteralCaching, true⟩ F.toCnfFormula s l).numBreaksByFlip.get v =
                s.numBreaksByFlip.get v := by
  refine ⟨newCritIndices_nonneg F.wellFormed _ mem config, fun v hv => new_writes mem config hv, ?_⟩
  intro s h l hl hf
  have hI := cacheInv_of_flips F (B := ⟨true, useCritLiteralCaching, true⟩) (fun e => nomatch e) hc h
  have hexact := hI.cached_eq_uncached F.wellFormed rfl hl hf (F.exact _ (varIndex_nonneg hl.1) hl.2)
  exact ⟨hexact, flipCritIndices_nonneg rfl s l, fun v hv hi => flipLiteral_writes rfl s l hv hi⟩

/-- After a flip on a formula with a repeated and a complementary literal. -/
theorem uncleanCache_exact_after_one_flip :
    let s := flipLiteral ⟨true, true, true⟩ uncleanFormula
      (new ⟨true, true, true⟩ uncleanFormula ⟨0, 0, 0, 0⟩ ⟨2, 2, false, 0⟩) 1
    (∀ i ∈ newCritIndices ⟨true, true, true⟩ uncleanFormula ⟨0, 0, 0, 0⟩ ⟨2, 2, false, 0⟩, 0 ≤ i) ∧
      ∀ l, uncleanFormula.IsLiteral l → litTrue s.assignment l = false →
        s.getNumBreaksByFlip uncleanFormula l true = s.getNumBreaksByFlip uncleanFormula l false ∧
          (∀ i ∈ flipCritIndices ⟨true, true, true⟩ uncleanFormula s l, 0 ≤ i) ∧
          ∀ v, v ≠ varIndex l → v ∉ flipCritIndices ⟨true, true, true⟩ uncleanFormula s l →
            (flipLiteral ⟨true, true, true⟩ uncleanFormula s l).numBreaksByFlip.get v = s.numBreaksByFlip.get v := by
  obtain ⟨h0, -, h⟩ := uncleanCache_exact_in_every_run uncleanExact true ⟨0, 0, 0, 0⟩ ⟨2, 2, false, 0⟩
    ⟨rfl, by decide, by decide⟩
  exact ⟨h0, h _ (.single (.flip _ 1 (by decide) (by decide)))⟩

end SerialInstance

end ParallelProbsat.Sat
