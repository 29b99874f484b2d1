/-
The cached break counts over whole runs. After construction and after every flip,
`num_breaks_by_flip` holds for every variable the number of clauses whose only true literal is about
it, modulo the width of its counters, and `crit_literal_in_clause` holds that literal. So asking the
cache for a false literal gives what counting through the occurrence index gives.

Within `flip_literal` the caches belong to the counted literals of `Tracks`: a round changes them by
what it changes in one clause. The literal to skip is asked for while the assignment still holds the
old value, and so is found among the literals counted for other variables.
-/
import ParallelProbsat.Sat.UnsatList

namespace ParallelProbsat.Sat

open ParallelProbsat.Lib ParallelProbsat.Util

namespace SerialInstance

variable {F : CnfFormula}

/-! ## The literal that is found -/

/-- The first true literal other than `d`, when at most one is left. -/
theorem getCriticalLiteral_eq (hw : F.WellFormed) (s : SerialInstance) {c : Int} (hc : F.InRange c) (d : Int) :
    (∀ x, (trueLitsOf F s.assignment c).filter (· ≠ d) = {x} → s.getCriticalLiteral (F.getClause c) d = x) ∧
      ((trueLitsOf F s.assignment c).filter (· ≠ d) = 0 → s.getCriticalLiteral (F.getClause c) d = 0) := by
  have hfilter : (trueLitsOf F s.assignment c).filter (· ≠ d) =
      ((F.getClause c).filter fun lit => d != lit && litTrue s.belegung.read lit : List Int) := by
    unfold trueLitsOf trueLits
    rw [Multiset.filter_coe, List.filter_filter]
    congr 1
    refine List.filter_congr fun x _ => ?_
    rcases eq_or_ne x d with rfl | hx
    · simp
    · simp [hx, hx.symm, assignment]
  unfold getCriticalLiteral getFirstSatisfiedLiteral
  rw [hw.seen hc, ← List.head?_filter, hfilter]
  constructor
  · intro x hx
    rw [Multiset.coe_eq_singleton.1 hx]
    rfl
  · intro h0
    rw [(Multiset.coe_eq_zero _).1 h0]
    rfl

/-! ## Break counts of counted literals -/

/-- The number of clauses whose only counted literal is about `v`. -/
def breakSum (F : CnfFormula) (S : Int → Multiset Int) (v : Int) : Int :=
  ∑ i ∈ Finset.range F.clauses.length, soleWeight (S i) v

theorem breakSum_update {S : Int → Multiset Int} {c : Int} (hc : F.InRange c) (M : Multiset Int) (v : Int) :
    breakSum F (Function.update S c M) v = breakSum F S v + (soleWeight M v - soleWeight (S c) v) := by
  have hmem : c.toNat ∈ Finset.range F.clauses.length := by
    obtain ⟨h0, h1⟩ := hc
    unfold CnfFormula.numClauses at h1
    exact Finset.mem_range.2 (by omega)
  have hcast : (c.toNat : Int) = c := Int.toNat_of_nonneg hc.1
  have hrest : ∑ i ∈ Finset.range F.clauses.length \ {c.toNat}, soleWeight (Function.update S c M i) v =
      ∑ i ∈ Finset.range F.clauses.length \ {c.toNat}, soleWeight (S i) v := by
    refine Finset.sum_congr rfl fun i hi => ?_
    have hne : (i : Int) ≠ c := by
      have := (Finset.mem_sdiff.1 hi).2
      rw [Finset.mem_singleton] at this
      omega
    rw [Function.update_of_ne hne]
  unfold breakSum
  rw [← Finset.sum_sdiff (Finset.singleton_subset_iff.2 hmem), hrest,
    ← Finset.sum_sdiff (Finset.singleton_subset_iff.2 hmem), Finset.sum_singleton, Finset.sum_singleton, hcast,
    Function.update_self]
  omega

theorem breakSum_congr {S S' : Int → Multiset Int} (h : ∀ c, F.InRange c → S' c = S c) (v : Int) :
    breakSum F S' v = breakSum F S v := by
  refine Finset.sum_congr rfl fun i hi => ?_
  have := Finset.mem_range.1 hi
  rw [h i ⟨by omega, by unfold CnfFormula.numClauses; omega⟩]

/-- The caches are those of clauses with the counted literals `S`. -/
structure Caches (B : Build) (F : CnfFormula) (S : Int → Multiset Int) (s : SerialInstance) : Prop where
  breaks : B.caching = true → ∀ v, 0 ≤ v → v < F.numVariables → s.numBreaksByFlip.get v = cntT (breakSum F S v)
  crit : B.caching = true → B.useCritLiteralCaching = true → ∀ c, F.InRange c → ∀ x, S c = {x} →
    s.critLiteralInClause.get c = x

theorem Caches.congr {B : Build} {S S' : Int → Multiset Int} {s : SerialInstance} (h : Caches B F S s)
    (hS : ∀ c, F.InRange c → S' c = S c) : Caches B F S' s where
  breaks hb v h0 hv := by rw [breakSum_congr hS]; exact h.breaks hb v h0 hv
  crit hb hu c hc x hx := h.crit hb hu c hc x (by rw [← hS c hc, hx])

/-! ## One round of each loop -/

@[simp] theorem addBreaks_breaks (s : SerialInstance) (u d : Int) :
    (s.addBreaks u d).numBreaksByFlip = s.numBreaksByFlip.modify u fun x => cntT (x + d) := rfl

@[simp] theorem setCritLiteral_crit (s : SerialInstance) (c l : Int) :
    (s.setCritLiteral c l).critLiteralInClause = s.critLiteralInClause.set c l := rfl

@[simp] theorem makeClauseUnsat_breaks (s : SerialInstance) (c : Int) :
    (s.makeClauseUnsat c).numBreaksByFlip = s.numBreaksByFlip := rfl

@[simp] theorem makeClauseUnsat_crit (s : SerialInstance) (c : Int) :
    (s.makeClauseUnsat c).critLiteralInClause = s.critLiteralInClause := rfl

@[simp] theorem makeClauseSat_breaks (s : SerialInstance) (c : Int) :
    (s.makeClauseSat c).numBreaksByFlip = s.numBreaksByFlip := by
  unfold makeClauseSat; simp only; split_ifs <;> rfl

@[simp] theorem makeClauseSat_crit (s : SerialInstance) (c : Int) :
    (s.makeClauseSat c).critLiteralInClause = s.critLiteralInClause := by
  unfold makeClauseSat; simp only; split_ifs <;> rfl

theorem getCriticalLiteral_congr {s s' : SerialInstance} (h : s'.belegung = s.belegung) (clause : Clause) (d : Int) :
    s'.getCriticalLiteral clause d = s.getCriticalLiteral clause d := by
  unfold getCriticalLiteral getFirstSatisfiedLiteral
  rw [h]

theorem addBreaks_get (s : SerialInstance) (u d v : Int) :
    (s.addBreaks u d).numBreaksByFlip.get v =
      if v = u then cntT (s.numBreaksByFlip.get v + d) else s.numBreaksByFlip.get v := by
  unfold addBreaks
  rw [Vec.get_modify]
  rcases eq_or_ne v u with rfl | h
  · rw [if_pos rfl]
  · rw [if_neg h, if_neg h]

/-- The caches after a break round. -/
theorem breakClause_caches (B : Build) (hB : B.caching = true) (F : CnfFormula) (l : Int)
    (s : SerialInstance) (c : Int) :
    ((breakClause B F l s c).numBreaksByFlip, (breakClause B F l s c).critLiteralInClause) =
      if s.unsatClausesLocation.get c = -1 then
        ((s.addBreaks (varIndex l) (-1)).numBreaksByFlip,
          if B.useCritLiteralCaching then s.critLiteralInClause.set c 0 else s.critLiteralInClause)
      else if s.unsatClausesLocation.get c = -2 then
        if B.allowUncleanClauses ∧ s.getCriticalLiteral (F.getClause c) (-l) = 0 then
          ((s.addBreaks (varIndex l) 1).numBreaksByFlip,
            if B.useCritLiteralCaching then s.critLiteralInClause.set c (-l) else s.critLiteralInClause)
        else ((s.addBreaks (varIndex (s.getCriticalLiteral (F.getClause c) (-l))) 1).numBreaksByFlip,
          if B.useCritLiteralCaching then s.critLiteralInClause.set c (s.getCriticalLiteral (F.getClause c) (-l))
          else s.critLiteralInClause)
      else (s.numBreaksByFlip, s.critLiteralInClause) := by
  have hcrit : ({ s with unsatClausesLocation := s.unsatClausesLocation.modify c (· + 1) } :
      SerialInstance).getCriticalLiteral (F.getClause c) (-l) = s.getCriticalLiteral (F.getClause c) (-l) :=
    getCriticalLiteral_congr rfl _ _
  unfold breakClause
  simp only [hB, true_and]
  split_ifs <;> simp_all

theorem makeClause_caches (B : Build) (hB : B.caching = true) (F : CnfFormula) (l : Int)
    (s : SerialInstance) (c : Int) :
    ((makeClause B F l s c).numBreaksByFlip, (makeClause B F l s c).critLiteralInClause) =
      if 0 ≤ s.unsatClausesLocation.get c then
        ((s.addBreaks (varIndex l) 1).numBreaksByFlip,
          if B.useCritLiteralCaching then s.critLiteralInClause.set c l else s.critLiteralInClause)
      else if s.unsatClausesLocation.get c = -1 then
        let k := if B.useCritLiteralCaching then s.critLiteralInClause.get c
          else s.getCriticalLiteral (F.getClause c) (-l)
        ((s.addBreaks (if B.allowUncleanClauses ∧ k = 0 then varIndex l else varIndex k) (-1)).numBreaksByFlip,
          if B.allowUncleanClauses ∧
            B.useCritLiteralCaching then s.critLiteralInClause.set c 0 else s.critLiteralInClause)
      else (s.numBreaksByFlip, s.critLiteralInClause) := by
  have hcrit : ({ s with unsatClausesLocation := s.unsatClausesLocation.modify c (· - 1) } :
      SerialInstance).getCriticalLiteral (F.getClause c) (-l) = s.getCriticalLiteral (F.getClause c) (-l) :=
    getCriticalLiteral_congr rfl _ _
  unfold makeClause
  simp only [hB, true_and]
  split_ifs <;> simp_all

section Rounds

variable {B : Build} {S : Int → Multiset Int} {s : SerialInstance} {l c : Int}

/-- A cache entry changes by what the break counts change in one clause. -/
theorem Caches.update (h : Caches B F S s) (hc : F.InRange c) {M : Multiset Int} {s' : SerialInstance}
    (hbreaks : B.caching = true → ∀ v, 0 ≤ v → s'.numBreaksByFlip.get v =
      if soleWeight M v = soleWeight (S c) v then s.numBreaksByFlip.get v
      else cntT (s.numBreaksByFlip.get v + (soleWeight M v - soleWeight (S c) v)))
    (hcrit : B.caching = true → B.useCritLiteralCaching = true →
      (∀ d, d ≠ c → s'.critLiteralInClause.get d = s.critLiteralInClause.get d) ∧
        ∀ x, M = {x} → s'.critLiteralInClause.get c = x) :
    Caches B F (Function.update S c M) s' where
  breaks hb v h0 hv := by
    rw [hbreaks hb v h0, breakSum_update hc, h.breaks hb v h0 hv]
    split
    · rename_i e; rw [e, sub_self, add_zero]
    · exact cntT_cntT_add _ _
  crit hb hu d hd x hx := by
    obtain ⟨hother, hself⟩ := hcrit hb hu
    rcases eq_or_ne d c with rfl | hdc
    · rw [Function.update_self] at hx
      exact hself x hx
    · rw [Function.update_of_ne hdc] at hx
      rw [hother d hdc]
      exact h.crit hb hu d hd x hx

/-- The clause gets a sole counted literal. -/
theorem Caches.gain (h : Caches B F S s) (hc : F.InRange c) {x : Int} (hold : (S c).card ≠ 1) {s' : SerialInstance}
    (heq : B.caching = true → s'.numBreaksByFlip = (s.addBreaks (varIndex x) 1).numBreaksByFlip ∧
      s'.critLiteralInClause = if B.useCritLiteralCaching then s.critLiteralInClause.set c x else
        s.critLiteralInClause) :
    Caches B F (Function.update S c {x}) s' := by
  refine h.update hc (fun hB v hv => ?_) (fun hB hu => ?_)
  · rw [(heq hB).1, addBreaks_get, soleWeight_singleton x hv, soleWeight_of_card hold]
    split <;> simp
  · rw [(heq hB).2, if_pos hu]
    refine ⟨fun d hd => Vec.get_set_ne _ _ hd, fun y hy => ?_⟩
    rw [Vec.get_set_self, Multiset.singleton_inj.1 hy]

/-- The clause had a sole counted literal and has it no longer. -/
theorem Caches.loss (h : Caches B F S s) (hc : F.InRange c) {x : Int} (hold : S c = {x}) {M : Multiset Int}
    (hM : M.card ≠ 1) {s' : SerialInstance}
    (heq : B.caching = true → s'.numBreaksByFlip = (s.addBreaks (varIndex x) (-1)).numBreaksByFlip ∧
      ∀ d, d ≠ c → s'.critLiteralInClause.get d = s.critLiteralInClause.get d) :
    Caches B F (Function.update S c M) s' := by
  refine h.update hc (fun hB v hv => ?_) (fun hB _ => ⟨(heq hB).2, fun y hy => ?_⟩)
  · rw [(heq hB).1, addBreaks_get, hold, soleWeight_singleton x hv, soleWeight_of_card hM]
    split <;> simp
  · exact absurd (by rw [hy, Multiset.card_singleton]) hM

/-- The clause has no sole counted literal before and after. -/
theorem Caches.keep (h : Caches B F S s) (hc : F.InRange c) (hold : (S c).card ≠ 1) {M : Multiset Int}
    (hM : M.card ≠ 1) {s' : SerialInstance}
    (heq : B.caching = true → s'.numBreaksByFlip = s.numBreaksByFlip ∧
      s'.critLiteralInClause = s.critLiteralInClause) :
    Caches B F (Function.update S c M) s' := by
  refine h.update hc (fun hB v _ => ?_) (fun hB _ => ⟨fun d _ => by rw [(heq hB).2], fun y hy => ?_⟩)
  · rw [(heq hB).1, soleWeight_of_card hM, soleWeight_of_card hold, if_pos rfl]
  · exact absurd (by rw [hy, Multiset.card_singleton]) hM

/-- Clauses are clean unless the build allows others. -/
def CleanUnless (B : Build) (F : CnfFormula) : Prop := B.allowUncleanClauses = false → ∀ c ∈ F.clauses, Clean c

theorem CleanUnless.count_le (h : CleanUnless B F) (hB : B.allowUncleanClauses = false) (hc : F.InRange c) (x : Int) :
    (F.getClause c).count x ≤ 1 :=
  List.nodup_iff_count_le_one.1 (h hB _ (CnfFormula.getClause_mem hc)).nodup x

/-- The break loop meets a clause with one other counted literal `x`: the search finds it, or, in a
clause that holds `-l` twice, finds none. -/
theorem BreakInv.critical (hw : F.WellFormed) (hclean : CleanUnless B F) {rem : List Int}
    (hI : BreakInv F s.assignment l (c :: rem) S) (hc : F.InRange c) {x : Int} (hx : S c = -l ::ₘ {x}) :
    (x ≠ 0 ∧ s.getCriticalLiteral (F.getClause c) (-l) = x) ∨
      (x = -l ∧ s.getCriticalLiteral (F.getClause c) (-l) = 0 ∧ B.allowUncleanClauses = true) := by
  obtain ⟨hfind, hnone⟩ := getCriticalLiteral_eq hw s hc (-l)
  obtain ⟨hsame, hcount, hle⟩ := hI c hc
  rw [hx, Multiset.filter_cons_of_neg _ (by simp)] at hsame
  rcases eq_or_ne x (-l) with rfl | hne
  · refine Or.inr ⟨rfl, hnone ?_, ?_⟩
    · rw [← hsame]; simp
    · cases hB : B.allowUncleanClauses with
      | true => rfl
      | false =>
        have := hclean.count_le hB hc (-l)
        rw [hx, Multiset.count_cons_self, Multiset.count_singleton_self] at hcount
        omega
  · have hT : (trueLitsOf F s.assignment c).filter (· ≠ -l) = {x} := by rw [← hsame]; simp [hne]
    have hmem : x ∈ trueLitsOf F s.assignment c :=
      Multiset.mem_of_mem_filter (hT ▸ Multiset.mem_singleton_self x)
    exact Or.inl ⟨(hw.isLiteral hc (mem_trueLits.1 hmem).1).1, hfind x hT⟩

/-- The break loop meets a clause. -/
theorem Caches.breakClause (hw : F.WellFormed) (hclean : CleanUnless B F) (h : Caches B F S s) (hT : Tracks F S s)
    {rem : List Int} (hI : BreakInv F s.assignment l (c :: rem) S) (hc : F.InRange c) (hm : -l ∈ S c) :
    Caches B F (Function.update S c ((S c).erase (-l))) (breakClause B F l s c) := by
  have hne : S c ≠ 0 := fun e => Multiset.notMem_zero (-l) (e ▸ hm)
  have hloc := hT.sat c hc hne
  have hcons := Multiset.cons_erase hm
  have hcard := Multiset.card_erase_add_one hm
  generalize (S c).erase (-l) = M at *
  have hk := fun hB => breakClause_caches B hB F l s c
  rw [hloc] at hk
  rcases (show M.card = 0 ∨ M.card = 1 ∨ 2 ≤ M.card by omega) with h0 | h1 | h2
  · -- its last counted literal goes
    obtain rfl := Multiset.card_eq_zero.1 h0
    refine h.loss hc (x := -l) hcons.symm (by simp) fun hB => ?_
    obtain ⟨e1, e2⟩ := Prod.mk.inj ((hk hB).trans (if_pos (by omega)))
    refine ⟨by rw [e1, varIndex_neg], fun d hd => ?_⟩
    rw [e2]
    split
    · exact Vec.get_set_ne _ _ hd
    · rfl
  · -- one is left and becomes critical
    obtain ⟨x, rfl⟩ := Multiset.card_eq_one.1 h1
    refine h.gain hc (by omega) fun hB => ?_
    have hk := (hk hB).trans ((if_neg (by omega)).trans (if_pos (by omega)))
    rcases hI.critical hw hclean hc hcons.symm with ⟨hx0, hx⟩ | ⟨rfl, h0, hB'⟩
    · rw [hx, if_neg (fun e => hx0 e.2)] at hk
      exact Prod.mk.inj hk
    · rw [h0, if_pos ⟨hB', rfl⟩] at hk
      rw [varIndex_neg]
      exact Prod.mk.inj hk
  · refine h.keep hc (by omega) (by omega) fun hB => ?_
    exact Prod.mk.inj ((hk hB).trans ((if_neg (by omega)).trans (if_neg (by omega))))

/-- The make loop meets a clause with one counted literal `x`: the search finds it, or, in a clause
that holds `l` twice, finds none. -/
theorem MakeInv.critical (hw : F.WellFormed) (hclean : CleanUnless B F) {rem : List Int}
    (hI : MakeInv F s.assignment l (c :: rem) S) (hc : F.InRange c) {x : Int} (hx : S c = {x}) :
    (x ≠ 0 ∧ s.getCriticalLiteral (F.getClause c) (-l) = x) ∨
      (x = l ∧ s.getCriticalLiteral (F.getClause c) (-l) = 0 ∧ B.allowUncleanClauses = true) := by
  obtain ⟨hfind, hnone⟩ := getCriticalLiteral_eq hw s hc (-l)
  obtain ⟨j, hsame, hcount⟩ := hI c hc
  rw [hx] at hsame
  rw [List.count_cons_self] at hcount
  cases j with
  | zero =>
    rw [Multiset.replicate_zero, add_zero] at hsame
    have hmem : x ∈ trueLitsOf F s.assignment c :=
      Multiset.mem_of_mem_filter (hsame ▸ Multiset.mem_singleton_self x)
    exact Or.inl ⟨(hw.isLiteral hc (mem_trueLits.1 hmem).1).1, hfind x hsame.symm⟩
  | succ j =>
    rw [Multiset.replicate_succ, Multiset.add_cons] at hsame
    have hcard := congrArg Multiset.card hsame
    rw [Multiset.card_singleton, Multiset.card_cons, Multiset.card_add] at hcard
    have hz : (trueLitsOf F s.assignment c).filter (· ≠ -l) = 0 := Multiset.card_eq_zero.1 (by omega)
    have hxl : l ∈ ({x} : Multiset Int) := by rw [hsame]; exact Multiset.mem_cons_self _ _
    refine Or.inr ⟨(Multiset.mem_singleton.1 hxl).symm, hnone hz, ?_⟩
    cases hB : B.allowUncleanClauses with
    | true => rfl
    | false =>
      have := hclean.count_le hB hc l
      omega

/-- The make loop meets a clause. -/
theorem Caches.makeClause (hw : F.WellFormed) (hclean : CleanUnless B F) (h : Caches B F S s) (hT : Tracks F S s)
    {rem : List Int} (hI : MakeInv F s.assignment l (c :: rem) S) (hc : F.InRange c) :
    Caches B F (Function.update S c (l ::ₘ S c)) (makeClause B F l s c) := by
  have hk := fun hB => makeClause_caches B hB F l s c
  rcases eq_or_ne (S c) 0 with hz | hne
  · -- its first counted literal becomes critical
    have hloc := (hT.location_nonneg hc).2 hz
    rw [hz]
    exact h.gain hc (by rw [hz]; simp) fun hB => Prod.mk.inj ((hk hB).trans (if_pos hloc))
  · have hloc := hT.sat c hc hne
    have hcard := Multiset.card_pos.2 hne
    rw [hloc] at hk
    rcases (show (S c).card = 1 ∨ 2 ≤ (S c).card by omega) with h1 | h2
    · obtain ⟨x, hx⟩ := Multiset.card_eq_one.1 h1
      refine h.loss hc hx (by rw [Multiset.card_cons]; omega) fun hB => ?_
      have hk := (hk hB).trans ((if_neg (by omega)).trans (if_pos (by omega)))
      simp only at hk
      obtain ⟨e1, e2⟩ := Prod.mk.inj hk
      generalize hk : (if B.useCritLiteralCaching = true then s.critLiteralInClause.get c
        else s.getCriticalLiteral (F.getClause c) (-l)) = k at e1
      constructor
      · rw [e1]
        rcases hI.critical hw hclean hc hx with ⟨hx0, hfind⟩ | ⟨rfl, h0, hB'⟩
        · have hkx : k = x := by
            rw [← hk]
            split
            · rename_i hu; exact h.crit hB hu c hc x hx
            · exact hfind
          rw [hkx, if_neg (fun e => hx0 e.2)]
        · split at hk
          · rename_i hu
            rw [← hk, h.crit hB hu c hc x hx, ite_self]
          · rw [← hk, h0, if_pos ⟨hB', rfl⟩]
      · intro d hd
        rw [e2]
        split
        · exact Vec.get_set_ne _ _ hd
        · rfl
    · refine h.keep hc (by omega) (by rw [Multiset.card_cons]; omega) fun hB => ?_
      exact Prod.mk.inj ((hk hB).trans ((if_neg (by omega)).trans (if_neg (by omega))))

end Rounds

/-! ## One flip -/

/-- Between two flips: the list, the locations and the caches are those of the current assignment. -/
structure CacheInv (B : Build) (F : CnfFormula) (s : SerialInstance) : Prop where
  list : ListInv F s
  caches : Caches B F (trueLitsOf F s.assignment) s

theorem Caches.of_eq {B : Build} {S : Int → Multiset Int} {s s' : SerialInstance} (h : Caches B F S s)
    (hb : s'.numBreaksByFlip = s.numBreaksByFlip) (hc : s'.critLiteralInClause = s.critLiteralInClause) :
    Caches B F S s' :=
  ⟨by rw [hb]; exact h.breaks, by rw [hc]; exact h.crit⟩

theorem CacheInv.flipLiteral (hw : F.WellFormed) {B : Build} (hclean : CleanUnless B F) {s : SerialInstance}
    (h : CacheInv B F s) {l : Int} (hl : F.IsLiteral l) (hf : litTrue s.assignment l = false)
    (hx : F.ExactAt (varIndex l)) : CacheInv B F (flipLiteral B F s l) := by
  obtain ⟨-, hread⟩ := flipLiteral_assignment B h.list.assigned hl
  refine ⟨h.list.flipLiteral hw B hl hf hx, ?_⟩
  obtain ⟨S, hS, -, hC, -⟩ := flip_loops (f := breakClause B F l) (g := makeClause B F l)
    (P := fun S t => Tracks F S t ∧ Caches B F S t ∧ t.belegung = s.belegung) hl.1 hf hx
    (fun rem S t c hP hc hI hm => by
      obtain ⟨hT, hC, hb⟩ := hP
      have ha : t.assignment = s.assignment := congrArg Bitfield.read hb
      rw [← ha] at hI
      exact ⟨hT.breakClause B hc hm, hC.breakClause hw hclean hT hI hc hm, (breakClause_frame B F l t c).1.trans hb⟩)
    (fun rem S t c hP hc hI => by
      obtain ⟨hT, hC, hb⟩ := hP
      have ha : t.assignment = s.assignment := congrArg Bitfield.read hb
      rw [← ha] at hI
      exact ⟨hT.makeClause B hc, hC.makeClause hw hclean hT hI hc, (makeClause_frame B F l t c).1.trans hb⟩)
    ⟨h.list.tracks, h.caches, rfl⟩
  refine (hC.of_eq rfl rfl : Caches B F S (SerialInstance.flipLiteral B F s l)).congr fun c hc => ?_
  rw [hS c hc]
  exact trueLitsOf_congr hw (fun v _ hv => hread v hv) hc

theorem CacheInv.flipChosen (hw : F.WellFormed) {B : Build} (hclean : CleanUnless B F) {s : SerialInstance}
    (h : CacheInv B F s) (hrun : s.foundSolution = false) {l : Int} (hl : l ∈ s.pickedClause F)
    (hx : F.ExactAt (varIndex l)) : CacheInv B F (flipChosen B F s l) := by
  obtain ⟨hr, hf⟩ := h.list.picked hrun
  exact ⟨h.list.flipChosen hw B hrun hl hx,
    (h.flipLiteral hw hclean (hw.isLiteral hr hl) (hf l hl) hx).caches.of_eq rfl rfl⟩

/-! ## Construction -/

/-- What `initialize` does to the caches. -/
theorem initClause_caches (B : Build) (F : CnfFormula) (s : SerialInstance) (c : Int) :
    ((initClause B F s c).numBreaksByFlip, (initClause B F s c).critLiteralInClause) =
      if s.getNumSatLitInClause F c = 1 ∧ B.caching then
        ((s.addBreaks (varIndex (s.getCriticalLiteral (F.getClause c) 0)) 1).numBreaksByFlip,
          if B.useCritLiteralCaching then s.critLiteralInClause.set c (s.getCriticalLiteral (F.getClause c) 0)
          else s.critLiteralInClause)
      else (s.numBreaksByFlip, s.critLiteralInClause) := by
  unfold initClause
  simp only
  split_ifs <;> simp_all

/-- The true literals of the clauses below `n`, and none of the others. -/
def trueLitsBelow (F : CnfFormula) (n : Int) (a : Int → Bool) (c : Int) : Multiset Int :=
  if c < n then trueLitsOf F a c else 0

theorem trueLitsBelow_succ (F : CnfFormula) (n : Int) (a : Int → Bool) :
    trueLitsBelow F (n + 1) a = Function.update (trueLitsBelow F n a) n (trueLitsOf F a n) := by
  funext c
  rcases lt_trichotomy c n with h | rfl | h
  · rw [Function.update_of_ne h.ne]
    unfold trueLitsBelow
    rw [if_pos (by omega), if_pos h]
  · rw [Function.update_self]
    exact if_pos (by omega)
  · rw [Function.update_of_ne h.ne']
    unfold trueLitsBelow
    rw [if_neg (by omega), if_neg (by omega)]

theorem Caches.initClause (hw : F.WellFormed) {B : Build} {i : Nat} {s : SerialInstance} (hi : i < F.clauses.length)
    (h : Caches B F (trueLitsBelow F i s.assignment) s) :
    Caches B F (trueLitsBelow F (i + 1 : Nat) s.assignment) (initClause B F s i) := by
  have hc : F.InRange i := ⟨by omega, by unfold CnfFormula.numClauses; omega⟩
  have hold : (trueLitsBelow F i s.assignment i).card ≠ 1 := by
    unfold trueLitsBelow
    rw [if_neg (lt_irrefl _)]
    simp
  have hk := initClause_caches B F s i
  rw [numSatLitInClause_eq hw s hc] at hk
  push_cast
  rw [trueLitsBelow_succ]
  rcases eq_or_ne (trueLitsOf F s.assignment i).card 1 with h1 | h1
  · obtain ⟨x, hx⟩ := Multiset.card_eq_one.1 h1
    have h0 : ∀ y ∈ trueLitsOf F s.assignment i, y ≠ 0 := fun y hy => (hw.isLiteral hc (mem_trueLits.1 hy).1).1
    have hfind : s.getCriticalLiteral (F.getClause i) 0 = x := by
      refine (getCriticalLiteral_eq hw s hc 0).1 x ?_
      rw [Multiset.filter_eq_self.2 h0, hx]
    rw [hfind] at hk
    rw [hx]
    exact h.gain hc hold fun hB => Prod.mk.inj (hk.trans (if_pos ⟨h1, hB⟩))
  · exact h.keep hc hold h1 fun _ => Prod.mk.inj (hk.trans (if_neg fun e => h1 e.1))

/-- Before the loop of the constructor all counters are 0. -/
theorem Caches.constructed (B : Build) (F : CnfFormula) (mem : Memory) (config : Bitfield) (a : Int → Bool) :
    Caches B F (trueLitsBelow F (0 : Nat) a) (constructed B F mem config) := by
  refine ⟨fun hB v h0 hv => ?_, fun _ _ c hc x hx => ?_⟩
  · have hz : breakSum F (trueLitsBelow F (0 : Nat) a) v = 0 := by
      refine Finset.sum_eq_zero fun i _ => ?_
      rw [trueLitsBelow, if_neg (by omega), soleWeight_zero]
    rw [hz]
    rfl
  · rw [trueLitsBelow, if_neg (by have := hc.1; omega)] at hx
    exact absurd hx.symm (Multiset.singleton_ne_zero x)

theorem CacheInv.new (hw : F.WellFormed) (B : Build) (mem : Memory) {config : Bitfield}
    (hc : HasAssignment F config) : CacheInv B F (new B F mem config) := by
  refine ⟨.new hw B mem hc, ?_⟩
  have h := init_loop (B := B) (F := F) (s := SerialInstance.constructed B F mem config)
    (P := fun i s => Caches B F (trueLitsBelow F i s.assignment) s) (.constructed B F mem config _)
    (fun i s hi h => by
      have hb : (initClause B F s i).assignment = s.assignment := by
        unfold assignment; rw [(initClause_frame B F s i).1]
      rw [hb]
      exact h.initClause hw hi)
  refine h.congr fun c hc => ?_
  have := hc.2
  unfold CnfFormula.numClauses at this
  exact (if_pos (by omega)).symm

/-! ## Counting through the index -/

/-- A sum over a list of clauses, by how often each clause is listed. -/
theorem sum_by_clause (w : Int → Int) : ∀ L : List Int, (∀ c ∈ L, F.InRange c) →
    (L.map w).sum = ∑ i ∈ Finset.range F.clauses.length, (L.count (i : Int) : Int) * w i
  | [], _ => by simp
  | c :: L, h => by
    obtain ⟨h0, h1⟩ := h c (List.mem_cons_self ..)
    unfold CnfFormula.numClauses at h1
    have hself : ∑ i ∈ Finset.range F.clauses.length, (if (i : Int) = c then w i else 0) = w c := by
      rw [Finset.sum_eq_single_of_mem c.toNat (Finset.mem_range.2 (by omega)), if_pos (Int.toNat_of_nonneg h0),
        Int.toNat_of_nonneg h0]
      exact fun i _ hi => if_neg (by omega)
    rw [List.map_cons, List.sum_cons, sum_by_clause w L fun d hd => h d (List.mem_cons_of_mem _ hd), ← hself,
      ← Finset.sum_add_distrib]
    refine Finset.sum_congr rfl fun i _ => ?_
    rcases eq_or_ne (i : Int) c with e | e
    · rw [← e, if_pos rfl, List.count_cons_self]
      push_cast
      ring
    · rw [if_neg e, List.count_cons_of_ne (Ne.symm e), zero_add]

/-- The counter of `get_num_breaks_by_flip` wraps like a sum. -/
theorem foldl_count (p : Int → Prop) [DecidablePred p] : ∀ (L : List Int) (n : Int),
    L.foldl (fun numBreaks c => if p c then cntT (numBreaks + 1) else numBreaks) (cntT n) =
      cntT (n + (L.map fun c => if p c then 1 else 0).sum)
  | [], n => by rw [List.map_nil, List.sum_nil, add_zero]; rfl
  | c :: L, n => by
    rw [List.foldl_cons, List.map_cons, List.sum_cons]
    split
    · rw [cntT_cntT_add, foldl_count p L, add_assoc]
    · rw [foldl_count p L, zero_add]

/-- The recount for a false literal: the clauses whose only true literal is the opposite one. -/
theorem getNumBreaksByFlip_uncached (hw : F.WellFormed) (s : SerialInstance) {l : Int} (hl : F.IsLiteral l)
    (hf : litTrue s.assignment l = false) (hx : F.ExactAt (varIndex l)) :
    s.getNumBreaksByFlip F l false = cntT (breakSum F (trueLitsOf F s.assignment) (varIndex l)) := by
  obtain ⟨hr, hcount⟩ := CnfFormula.flipRanges_exact hl.1 hx
  have hneg : litTrue s.assignment (-l) = true := by rw [litTrue_neg _ hl.1, hf]; rfl
  have hrange : (if 0 < l then (F.getIteratorsForClausesWithVars (varIndex l)).1
      else (F.getIteratorsForClausesWithVars (varIndex l)).2) = (flipRanges F l).1 := by
    unfold flipRanges
    split <;> rfl
  unfold getNumBreaksByFlip
  simp only [Bool.false_eq_true, if_false, hrange]
  rw [show (0 : Int) = cntT 0 from rfl, foldl_count (fun c => 1 = s.getNumSatLitInClause F c), zero_add,
    sum_by_clause (F := F) _ _ fun c hc => hr c (Or.inl hc)]
  congr 1
  refine Finset.sum_congr rfl fun i hi => ?_
  have hc : F.InRange i := ⟨by omega, by have := Finset.mem_range.1 hi; unfold CnfFormula.numClauses; omega⟩
  rw [(hcount i hc).1, numSatLitInClause_eq hw s hc]
  have hT : ((F.getClause i).count (-l)) = (trueLitsOf F s.assignment i).count (-l) := by
    rw [trueLitsOf, count_trueLits, if_pos hneg]
  rcases eq_or_ne (trueLitsOf F s.assignment i).card 1 with h1 | h1
  · obtain ⟨x, hx⟩ := Multiset.card_eq_one.1 h1
    rw [if_pos h1.symm, mul_one, hT, hx, soleWeight_singleton x (varIndex_nonneg hl.1), Multiset.count_singleton]
    rcases eq_or_ne (-l) x with e | e
    · rw [if_pos e, ← e, varIndex_neg, if_pos rfl]
      rfl
    · rw [if_neg e, if_neg]
      · rfl
      · intro hv
        have hxl : x = l := (varIndex_eq_iff.1 hv.symm).resolve_right e.symm
        have hm : l ∈ trueLitsOf F s.assignment i := by rw [hx, hxl]; exact Multiset.mem_singleton_self l
        rw [(mem_trueLits.1 hm).2] at hf
        cases hf
  · rw [if_neg (Ne.symm h1), mul_zero, soleWeight_of_card h1]

/-- The cache answers like the recount, in every build and for every false literal. -/
theorem CacheInv.cached_eq_uncached (hw : F.WellFormed) {B : Build} (hB : B.caching = true) {s : SerialInstance}
    (h : CacheInv B F s) {l : Int} (hl : F.IsLiteral l) (hf : litTrue s.assignment l = false)
    (hx : F.ExactAt (varIndex l)) : s.getNumBreaksByFlip F l true = s.getNumBreaksByFlip F l false := by
  rw [getNumBreaksByFlip_uncached hw s hl hf hx]
  exact h.caches.breaks hB _ (varIndex_nonneg hl.1) hl.2

/-! ## Whole runs -/

/-- Every literal occurs at most as often as its counter, a `cnt_t`, can hold; `read` throws for a
formula where one does not. -/
def FitsCnt (F : CnfFormula) : Prop := ∀ l, F.IsLiteral l → (numOccurrences F.clauses l : Int) ≤ cntMax

/-- What the caches hold: the number of clauses that break when a variable alone is flipped, and
the only true literal of every clause that has just one. -/
structure BreakCacheExact (F : CnfFormula) (s : SerialInstance) : Prop where
  breaks : ∀ v, 0 ≤ v → v < F.numVariables → s.numBreaksByFlip.get v = (F.clauses.countP (breaks s.assignment v) : Int)
  crit : ∀ c, F.InRange c → ∀ x, (F.getClause c).filter (litTrue s.assignment) = [x] → s.critLiteralInClause.get c = x
  cached : ∀ l, F.IsLiteral l → litTrue s.assignment l = false →
    s.getNumBreaksByFlip F l true = s.getNumBreaksByFlip F l false

theorem sum_getClause (F : CnfFormula) (f : Clause → Int) :
    ∑ i ∈ Finset.range F.clauses.length, f (F.getClause i) = (F.clauses.map f).sum := by
  unfold CnfFormula.getClause
  simp only [Int.toNat_natCast]
  generalize F.clauses = clauses
  induction clauses with
  | nil => rfl
  | cons c clauses ih =>
    rw [List.length_cons, Finset.sum_range_succ', List.map_cons, List.sum_cons, ← ih, add_comm]
    rfl

theorem breakSum_eq_countP (hclean : ∀ c ∈ F.clauses, Clean c) (a : Int → Bool) {v : Int} (hv : 0 ≤ v) :
    breakSum F (trueLitsOf F a) v = (F.clauses.countP (breaks a v) : Int) := by
  unfold breakSum trueLitsOf
  rw [sum_getClause F fun c => soleWeight (trueLits a c) v]
  generalize F.clauses = clauses at hclean
  induction clauses with
  | nil => rfl
  | cons c clauses ih =>
    have hw : soleWeight (trueLits a c) v = if breaks a v c = true then 1 else 0 :=
      if_congr (breaks_iff (hclean c (List.mem_cons_self ..)) hv).symm rfl rfl
    rw [List.map_cons, List.sum_cons, ih fun d hd => hclean d (List.mem_cons_of_mem _ hd), List.countP_cons, hw]
    push_cast
    exact add_comm _ _

/-- Of a variable, only its true literal can be the sole one of some true literals of a clause. -/
theorem soleWeight_le {a : Int → Bool} {c : Clause} {M : Multiset Int} (hM : M ≤ trueLits a c) {v : Int} (hv : 0 ≤ v) :
    soleWeight M v ≤ c.count (if a v then v + 1 else -(v + 1)) := by
  rcases eq_or_ne M.card 1 with h1 | h1
  · obtain ⟨x, rfl⟩ := Multiset.card_eq_one.1 h1
    rw [soleWeight_singleton x hv]
    split
    · rename_i hxv
      obtain ⟨hmem, htrue⟩ := mem_trueLits.1 (Multiset.singleton_le.1 hM)
      have hlit : x = if a v then v + 1 else -(v + 1) := by
        rcases (varIndex_eq hv).1 hxv.symm with rfl | rfl
        · rw [litTrue_pos a hv] at htrue
          rw [if_pos htrue]
        · rw [litTrue_neg_succ a hv, Bool.not_eq_true'] at htrue
          rw [htrue, if_neg (by simp)]
      rw [← hlit]
      have := List.count_pos_iff.2 hmem
      omega
    · omega
  · rw [soleWeight_of_card h1]
    omega

/-- As long as all counted literals are true ones, no break count exceeds the occurrences of a literal. -/
theorem breakSum_le {a : Int → Bool} {S : Int → Multiset Int} (hS : ∀ c, F.InRange c → S c ≤ trueLitsOf F a c) {m : Int}
    (hm : ∀ l, F.IsLiteral l → (numOccurrences F.clauses l : Int) ≤ m) {v : Int} (hv : 0 ≤ v)
    (hn : v < F.numVariables) :
    0 ≤ breakSum F S v ∧ breakSum F S v ≤ m := by
  have hlit : F.IsLiteral (if a v then v + 1 else -(v + 1)) := by
    unfold CnfFormula.IsLiteral varIndex
    split <;> omega
  constructor
  · refine Finset.sum_nonneg fun i _ => ?_
    unfold soleWeight
    split <;> omega
  · calc breakSum F S v
        ≤ ∑ i ∈ Finset.range F.clauses.length,
          (((F.getClause i).count (if a v then v + 1 else -(v + 1)) : Nat) : Int) :=
          Finset.sum_le_sum fun i hi => soleWeight_le
            (hS i ⟨by omega, by have := Finset.mem_range.1 hi; unfold CnfFormula.numClauses; omega⟩) hv
      _ = numOccurrences F.clauses (if a v then v + 1 else -(v + 1)) := by
          rw [sum_getClause F fun c => ((c.count (if a v then v + 1 else -(v + 1)) : Nat) : Int)]
          unfold numOccurrences
          rw [Nat.cast_list_sum, List.map_map]
          rfl
      _ ≤ m := hm _ hlit

theorem CacheInv.exact (hw : F.WellFormed) (hclean : ∀ c ∈ F.clauses, Clean c) (hfit : FitsCnt F)
    (hx : ∀ v, 0 ≤ v → v < F.numVariables → F.ExactAt v) {s : SerialInstance} (h : CacheInv defaultBuild F s) :
    BreakCacheExact F s where
  breaks v h0 hn := by
    obtain ⟨k0, k1⟩ := breakSum_le (fun _ _ => le_rfl) hfit h0 hn
    rw [h.caches.breaks rfl v h0 hn, cntT_eq k0 k1, breakSum_eq_countP hclean _ h0]
  crit c hc x hx := h.caches.crit rfl rfl c hc x (by rw [trueLitsOf, trueLits, hx]; rfl)
  cached l hl hf := h.cached_eq_uncached hw rfl hl hf (hx _ (varIndex_nonneg hl.1) hl.2)

/-- A flip of any currently false literal. -/
inductive FalseFlip (B : Build) (F : CnfFormula) : SerialInstance → SerialInstance → Prop
  | flip (s : SerialInstance) (l : Int) (hl : F.IsLiteral l) (hf : litTrue s.assignment l = false) :
    FalseFlip B F s (flipLiteral B F s l)

theorem cacheInv_of_flips (F : ExactFormula) {B : Build} (hclean : CleanUnless B F.toCnfFormula) {mem : Memory}
    {config : Bitfield} (hc : HasAssignment F.toCnfFormula config) {s : SerialInstance}
    (h : Relation.ReflTransGen (FalseFlip B F.toCnfFormula) (new B F.toCnfFormula mem config) s) :
    CacheInv B F.toCnfFormula s := by
  induction h with
  | refl => exact .new F.wellFormed B mem hc
  | tail _ hstep ih =>
    cases hstep with
    | flip l hl hf => exact ih.flipLiteral F.wellFormed hclean hl hf (F.exact _ (varIndex_nonneg hl.1) hl.2)

/-- In the default build, on a formula whose clauses mention no variable twice, the caches are
exact in every state that flips of false literals reach. -/
theorem breakCache_exact_in_every_run (F : ExactFormula) (hclean : ∀ c ∈ F.clauses, Clean c)
    (hfit : FitsCnt F.toCnfFormula) (mem : Memory) (config : Bitfield) (hc : HasAssignment F.toCnfFormula config)
    (s : SerialInstance)
    (h : Relation.ReflTransGen (FalseFlip defaultBuild F.toCnfFormula) (new defaultBuild F.toCnfFormula mem config) s) :
    BreakCacheExact F.toCnfFormula s :=
  (cacheInv_of_flips F (fun _ => hclean) hc h).exact F.wellFormed hclean hfit F.exact

/-- Three clauses over two variables, with the index of the continuous layout. -/
def threeClauses : CnfFormula where
  numVariables := 2
  clauses := [[1, 2], [-1, 2], [-2]]
  index := .cont ⟨⟨3, fun v => if v = 0 then (0, 1) else if v = 1 then (2, 1) else (5, 0)⟩,
    ⟨5, fun i => if i = 0 then 1 else if i = 1 then 0 else if i = 2 then 2 else if i = 3 then 0 else 1⟩⟩
  maxNumBreaksPossible := 2

theorem threeClauses_wellFormed : threeClauses.WellFormed := ⟨by decide, by decide, by decide⟩

def threeClausesExact : ExactFormula where
  toCnfFormula := threeClauses
  wellFormed := threeClauses_wellFormed
  exact v h0 hv := by
    change v < 2 at hv
    apply exactAt_of_iterators threeClauses_wellFormed
    interval_cases v <;> decide

theorem threeClauses_fits : FitsCnt threeClauses := by
  intro l _
  have h1 := List.count_le_length (a := l) (l := [1, 2])
  have h2 := List.count_le_length (a := l) (l := [-1, 2])
  have h3 := List.count_le_length (a := l) (l := [-2])
  simp only [List.length_cons, List.length_nil] at h1 h2 h3
  simp only [numOccurrences, threeClauses, List.map_cons, List.map_nil, List.sum_cons, List.sum_nil, cntMax]
  omega

/-- A run of one flip on them. -/
theorem breakCache_exact_after_one_flip :
    BreakCacheExact threeClauses
      (flipLiteral defaultBuild threeClauses (new defaultBuild threeClauses ⟨0, 0, 0, 0⟩ ⟨2, 2, false, 0⟩) 1) :=
  breakCache_exact_in_every_run threeClausesExact (by decide) threeClauses_fits ⟨0, 0, 0, 0⟩ ⟨2, 2, false, 0⟩
    ⟨rfl, by decide, by decide⟩ _ (.single (.flip _ 1 (by decide) (by decide)))

end SerialInstance

end ParallelProbsat.Sat
