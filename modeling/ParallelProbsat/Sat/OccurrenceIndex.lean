/-
The occurrence index a formula is built with. When every literal was counted at least as often as
it occurs, both layouts list for every variable the clauses of its negative and those of its positive
literal, in the order of the clauses; the continuous layout lists clause 0 behind them as often as
the literal was counted too often. With exact counts the two layouts agree and the index is exact.
-/
import ParallelProbsat.Lib.Buckets
import ParallelProbsat.Lib.Loops
import ParallelProbsat.Sat.CnfFormula
import Mathlib.Data.List.GetD

namespace ParallelProbsat.Sat

open ParallelProbsat.Lib ParallelProbsat.Util

/-! ## Formulas with an exact occurrence index -/

namespace CnfFormula

/-- A clause index of the formula. -/
def InRange (F : CnfFormula) (c : Int) : Prop := 0 ≤ c ∧ c < F.numClauses

/-- A literal about a variable of the formula. -/
def IsLiteral (F : CnfFormula) (l : Int) : Prop := l ≠ 0 ∧ varIndex l < F.numVariables

instance (F : CnfFormula) (l : Int) : Decidable (F.IsLiteral l) := inferInstanceAs (Decidable (_ ∧ _))

/-- Clauses of 1 to 256 literals about variables of the formula. -/
structure WellFormed (F : CnfFormula) : Prop where
  width : ∀ c ∈ F.clauses, 1 ≤ c.length ∧ c.length ≤ 256
  literal : ∀ c ∈ F.clauses, ∀ l ∈ c, F.IsLiteral l
  vars : 0 ≤ F.numVariables

/-- The index lists, for the variable `v`, the clauses of its negative literal and those of its
positive literal, once for each occurrence. -/
structure ExactAt (F : CnfFormula) (v : Int) : Prop where
  inRange : ∀ c, c ∈ (F.getIteratorsForClausesWithVars v).1 ∨ c ∈ (F.getIteratorsForClausesWithVars v).2 → F.InRange c
  neg : ∀ c, F.InRange c → (F.getIteratorsForClausesWithVars v).1.count c = (F.getClause c).count (-(v + 1))
  pos : ∀ c, F.InRange c → (F.getIteratorsForClausesWithVars v).2.count c = (F.getClause c).count (v + 1)

theorem getClause_mem {F : CnfFormula} {c : Int} (h : F.InRange c) : F.getClause c ∈ F.clauses := by
  have hlt : c.toNat < F.clauses.length := by have := h.1; have := h.2; unfold numClauses at this; omega
  unfold getClause
  rw [List.getD_eq_getElem _ _ hlt]
  exact List.getElem_mem hlt

namespace WellFormed

variable {F : CnfFormula} (hw : F.WellFormed)
include hw

theorem seen {c : Int} (h : F.InRange c) : (F.getClause c).seen = F.getClause c :=
  Clause.seen_eq (hw.width _ (getClause_mem h)).2

theorem isLiteral {c : Int} (h : F.InRange c) {l : Int} (hl : l ∈ F.getClause c) : F.IsLiteral l :=
  hw.literal _ (getClause_mem h) l hl

end WellFormed

end CnfFormula

/-- A well-formed formula with an exact occurrence index. -/
structure ExactFormula extends CnfFormula where
  wellFormed : toCnfFormula.WellFormed
  exact : ∀ v, 0 ≤ v → v < numVariables → toCnfFormula.ExactAt v

/-! ## The clauses of a literal -/

/-- The pairs of a literal and a clause that holds it, in the order of the clauses. -/
def byLiteral (clauses : List Clause) : List (Int × Int) := (occurrences clauses).map Prod.swap

/-- The clauses that hold a literal, once for each occurrence, in order. -/
def clausesOf (clauses : List Clause) (l : Int) : List Int := valuesAt (byLiteral clauses) l

theorem valuesAt_map_pair (c : Int) (l : Int) (lits : List Int) :
    valuesAt (lits.map fun lit => (lit, c)) l = List.replicate (lits.count l) c := by
  unfold valuesAt
  induction lits with
  | nil => rfl
  | cons x lits ih =>
    rcases eq_or_ne x l with rfl | hx
    · simpa [List.replicate_succ] using ih
    · simpa [hx] using ih

theorem clausesOf_eq (clauses : List Clause) (l : Int) :
    clausesOf clauses l = clauses.zipIdx.flatMap fun (clause, i) => List.replicate (clause.seen.count l) (i : Int) := by
  unfold clausesOf byLiteral occurrences
  generalize clauses.zipIdx = z
  induction z with
  | nil => rfl
  | cons p z ih =>
    rw [List.flatMap_cons, List.map_append, valuesAt_append, List.flatMap_cons, ih, List.map_map]
    congr 1
    exact valuesAt_map_pair _ _ _

/-- How often a literal occurs in the clauses. -/
def numOccurrences (clauses : List Clause) (l : Int) : Nat := (clauses.map (·.count l)).sum

theorem length_clausesOf (clauses : List Clause) (l : Int) :
    (clausesOf clauses l).length = (clauses.map (·.seen.count l)).sum := by
  have h : ∀ (z : List (Clause × Nat)),
      (z.flatMap fun (clause, i) => List.replicate (clause.seen.count l) (i : Int)).length =
        ((z.map Prod.fst).map (·.seen.count l)).sum := by
    intro z
    rw [List.length_flatMap, List.map_map]
    simp only [List.length_replicate]
    rfl
  rw [clausesOf_eq, h, List.zipIdx_map_fst]

/-- In clauses of up to 256 literals every occurrence is listed. -/
theorem numOccurrences_eq {clauses : List Clause} (hw : ∀ c ∈ clauses, c.length ≤ 256) (l : Int) :
    (clausesOf clauses l).length = numOccurrences clauses l := by
  rw [length_clausesOf]
  unfold numOccurrences
  congr 1
  exact List.map_congr_left fun c hc => by rw [Clause.seen_eq (hw c hc)]

theorem count_clausesOf_from (l c : Int) : ∀ (clauses : List Clause) (k : Nat),
    ((clauses.zipIdx k).flatMap fun (clause, i) => List.replicate (clause.seen.count l) (i : Int)).count c =
      if (k : Int) ≤ c ∧ c < k + clauses.length then (clauses.getD (c - k).toNat []).seen.count l else 0
  | [], k => by simp
  | clause :: clauses, k => by
    rw [List.zipIdx_cons, List.flatMap_cons, List.count_append, count_clausesOf_from l c clauses (k + 1),
      List.count_replicate, List.length_cons]
    rcases lt_trichotomy c k with h | rfl | h
    · simp only [beq_iff_eq]
      rw [if_neg (by omega), if_neg (by omega), if_neg (by omega)]
    · simp only [beq_self_eq_true, if_true]
      rw [if_neg (by omega), if_pos (by omega), sub_self]
      simp
    · simp only [beq_iff_eq]
      rw [if_neg (by omega), zero_add]
      have e : (c - k).toNat = (c - (k + 1 : Nat)).toNat + 1 := by omega
      rw [e, List.getD_cons_succ]
      congr 1
      exact propext (by omega)

/-- A clause is listed as often as it holds the literal. -/
theorem count_clausesOf {F : CnfFormula} (hw : F.WellFormed) (l : Int) {c : Int} (hc : F.InRange c) :
    (clausesOf F.clauses l).count c = (F.getClause c).count l := by
  obtain ⟨h0, h1⟩ := hc
  unfold CnfFormula.numClauses at h1
  rw [clausesOf_eq, count_clausesOf_from, if_pos (by omega), ← hw.seen ⟨h0, h1⟩]
  simp [CnfFormula.getClause]

theorem mem_clausesOf {F : CnfFormula} {l c : Int} (h : c ∈ clausesOf F.clauses l) : F.InRange c := by
  have := List.count_pos_iff.2 h
  rw [clausesOf_eq, count_clausesOf_from] at this
  split at this
  · rename_i hc
    exact ⟨by omega, by unfold CnfFormula.numClauses; omega⟩
  · omega

/-! ## Counts -/

/-- How often a literal was counted. -/
def counted (counts : Counts) (l : Int) : Int :=
  if 0 > l then (counts.get (varIndex l)).1 else (counts.get (varIndex l)).2

/-- Every literal is about a variable and was counted at least as often as it occurs. -/
structure CountsCover (n : Int) (clauses : List Clause) (counts : Counts) : Prop where
  vars : 0 ≤ n
  literal : ∀ c ∈ clauses, ∀ l ∈ c, l ≠ 0 ∧ varIndex l < n
  range : ∀ l, l ≠ 0 → varIndex l < n → 0 ≤ counted counts l ∧ counted counts l ≤ cntMax
  covers : ∀ l, l ≠ 0 → varIndex l < n → ((clausesOf clauses l).length : Int) ≤ counted counts l

/-- Exact counts cover the clauses. -/
theorem CountsCover.of_exact {n : Int} {clauses : List Clause} {counts : Counts} (hv : 0 ≤ n)
    (hlit : ∀ c ∈ clauses, ∀ l ∈ c, l ≠ 0 ∧ varIndex l < n)
    (hexact : ∀ l, l ≠ 0 → varIndex l < n → counted counts l = (clausesOf clauses l).length)
    (hfits : ∀ l, l ≠ 0 → varIndex l < n → counted counts l ≤ cntMax) : CountsCover n clauses counts where
  vars := hv
  literal := hlit
  range l h0 hl := ⟨by rw [hexact l h0 hl]; omega, hfits l h0 hl⟩
  covers l h0 hl := (hexact l h0 hl).ge

/-- The first cell of a variable: the counts of the variables before it. -/
def start (counts : Counts) (v : Int) : Int :=
  ∑ u ∈ Finset.range v.toNat, ((counts.get u).1 + (counts.get u).2)

theorem start_succ (counts : Counts) {v : Int} (hv : 0 ≤ v) :
    start counts (v + 1) = start counts v + ((counts.get v).1 + (counts.get v).2) := by
  unfold start
  have e : (v + 1).toNat = v.toNat + 1 := by omega
  rw [e, Finset.sum_range_succ, Int.toNat_of_nonneg hv]

/-- The first cell of a literal. -/
def base (counts : Counts) (l : Int) : Int :=
  if 0 > l then start counts (varIndex l) else start counts (varIndex l) + (counts.get (varIndex l)).1

/-- The number of cells of a literal. -/
def capacity (n : Int) (counts : Counts) (l : Int) : Nat :=
  if l ≠ 0 ∧ varIndex l < n then (counted counts l).toNat else 0

section Continuous

variable {n : Int} {clauses : List Clause} {counts : Counts}

theorem counted_neg (counts : Counts) {v : Int} (hv : 0 ≤ v) : counted counts (-(v + 1)) = (counts.get v).1 := by
  rw [counted, if_pos (by omega), (varIndex_eq hv).2 (.inr rfl)]

theorem counted_pos (counts : Counts) {v : Int} (hv : 0 ≤ v) : counted counts (v + 1) = (counts.get v).2 := by
  rw [counted, if_neg (by omega), (varIndex_eq hv).2 (.inl rfl)]

theorem CountsCover.count (h : CountsCover n clauses counts) {v : Int} (hv : 0 ≤ v) (hn : v < n) :
    (0 ≤ (counts.get v).1 ∧ (counts.get v).1 ≤ cntMax) ∧ 0 ≤ (counts.get v).2 ∧ (counts.get v).2 ≤ cntMax := by
  have h1 := h.range (-(v + 1)) (by omega) (by unfold varIndex; omega)
  have h2 := h.range (v + 1) (by omega) (by unfold varIndex; omega)
  rw [counted_neg counts hv] at h1
  rw [counted_pos counts hv] at h2
  exact ⟨h1, h2⟩

theorem CountsCover.start_mono (h : CountsCover n clauses counts) {u v : Int} (hu : 0 ≤ u) (huv : u ≤ v) (hv : v ≤ n) :
    start counts u ≤ start counts v := by
  obtain ⟨k, rfl⟩ := Int.le.dest huv
  clear huv
  induction k with
  | zero => simp
  | succ k ih =>
    have hc := h.count (v := u + k) (by omega) (by omega)
    have e : u + ((k + 1 : Nat) : Int) = u + k + 1 := by omega
    rw [e, start_succ counts (by omega)]
    have := ih (by omega)
    omega

/-- The buckets of two literals share no cell. -/
theorem CountsCover.disjoint (h : CountsCover n clauses counts) :
    DisjointBuckets (base counts) (capacity n counts) := by
  have hcell : ∀ l (i : Nat), i < capacity n counts l → l ≠ 0 ∧ varIndex l < n ∧
      start counts (varIndex l) ≤ base counts l + i ∧ base counts l + i < start counts (varIndex l + 1) ∧
      (base counts l + i < start counts (varIndex l) + (counts.get (varIndex l)).1 ↔ 0 > l) := by
    intro l i hi
    unfold capacity at hi
    split at hi
    · rename_i hl
      have h0 := varIndex_nonneg hl.1
      have hc := h.count h0 hl.2
      rw [start_succ counts h0]
      unfold base
      unfold counted at hi
      split
      · rename_i hneg; rw [if_pos hneg] at hi; exact ⟨hl.1, hl.2, by omega, by omega, by omega⟩
      · rename_i hneg; rw [if_neg hneg] at hi; exact ⟨hl.1, hl.2, by omega, by omega, by omega⟩
    · omega
  intro k k' i j hi hj e
  obtain ⟨k0, kn, k1, k2, k3⟩ := hcell k i hi
  obtain ⟨k0', kn', k1', k2', k3'⟩ := hcell k' j hj
  have hk := varIndex_nonneg k0
  have hk' := varIndex_nonneg k0'
  have hv : varIndex k = varIndex k' := by
    rcases lt_trichotomy (varIndex k) (varIndex k') with hlt | heq | hgt
    · have := h.start_mono (u := varIndex k + 1) (v := varIndex k') (by omega) (by omega) (by omega)
      omega
    · exact heq
    · have := h.start_mono (u := varIndex k' + 1) (v := varIndex k) (by omega) (by omega) (by omega)
      omega
  have hkk : k = k' := by
    rw [hv, e] at k3
    have hsign : 0 > k ↔ 0 > k' := k3.symm.trans k3'
    rcases varIndex_eq_iff.1 hv with rfl | rfl
    · rfl
    · omega
  subst hkk
  exact ⟨rfl, by omega⟩

/-- The first `k` offsets are computed. -/
structure Offsets (counts : Counts) (k : Nat) (acc : Vec (Int × Int) × Int) : Prop where
  sum : acc.2 = start counts k
  fits : 0 ≤ start counts k ∧ start counts k ≤ sumMax
  entry : ∀ v : Int, 0 ≤ v → v < k → acc.1.get v = (start counts v, (counts.get v).1)

theorem Offsets.step (h : CountsCover n clauses counts) {k : Nat} (hk : (k : Int) < n)
    {acc acc' : Vec (Int × Int) × Int} (ho : Offsets counts k acc) (hs : offsetStep counts acc k = .ok acc') :
    Offsets counts (k + 1) acc' := by
  have hc := h.count (v := k) (by omega) hk
  have hsucc := start_succ counts (v := k) (by omega)
  have hfits := ho.fits
  unfold cntMax at hc
  unfold sumMax at hfits
  have hsize : sizeT ((counts.get k).1 + (counts.get k).2) = (counts.get k).1 + (counts.get k).2 := by
    unfold sizeT; omega
  unfold offsetStep at hs
  simp only [hsize, ho.sum] at hs
  split at hs
  · cases hs
  · rename_i hle
    cases hs
    have hsum : start counts k + ((counts.get k).1 + (counts.get k).2) ≤ sumMax := by
      unfold sizeT sumMax at hle
      unfold sumMax
      omega
    rw [← hsucc] at hsum
    unfold sumMax at hsum
    refine ⟨?_, ⟨by push_cast; omega, by push_cast; unfold sumMax; omega⟩, fun v h0 hv => ?_⟩
    · push_cast
      rw [← hsucc, Int.bmod_def]
      split <;> omega
    · rw [Vec.get_set]
      split
      · rename_i e; rw [e]
      · exact ho.entry v h0 (by omega)

/-- What the fill loop has written once it has visited the pairs `done`. -/
structure FilledTo (n : Int) (counts : Counts) (done : List (Int × Int)) (st : ContFill) : Prop where
  cells : Filled (base counts) (capacity n counts) (fun _ => 0) (done.map Prod.swap) st.clausesWithVars
  cursor : ∀ l, l ≠ 0 → varIndex l < n → (if 0 > l then (st.currentlyInitialized.get (varIndex l)).1
    else (st.currentlyInitialized.get (varIndex l)).2) = ((valuesAt (done.map Prod.swap) l).length : Int)

theorem mem_occurrences {o : Int × Int} (h : o ∈ occurrences clauses) : ∃ c ∈ clauses, o.2 ∈ c := by
  unfold occurrences at h
  obtain ⟨⟨clause, i⟩, hc, ho⟩ := List.mem_flatMap.1 h
  obtain ⟨lit, hlit, rfl⟩ := List.mem_map.1 ho
  refine ⟨clause, List.fst_mem_of_mem_zipIdx hc, ?_⟩
  unfold Clause.seen at hlit
  obtain ⟨j, hj, rfl⟩ := List.mem_map.1 hlit
  exact Clause.subscript_mem (List.mem_range.1 hj)

theorem CountsCover.occurrence (h : CountsCover n clauses counts) {o : Int × Int} (ho : o ∈ occurrences clauses) :
    o.2 ≠ 0 ∧ varIndex o.2 < n := by
  obtain ⟨c, hc, hl⟩ := mem_occurrences ho
  exact h.literal c hc _ hl

theorem CountsCover.length_le (h : CountsCover n clauses counts) (l : Int) :
    (clausesOf clauses l).length ≤ capacity n counts l := by
  rcases Nat.eq_zero_or_pos (clausesOf clauses l).length with h0 | h0
  · omega
  · obtain ⟨c, hc⟩ := List.exists_mem_of_length_pos h0
    unfold clausesOf valuesAt byLiteral at hc
    obtain ⟨p, hp, -⟩ := List.mem_map.1 hc
    obtain ⟨hp, hpl⟩ := List.mem_filter.1 hp
    obtain ⟨o, ho, rfl⟩ := List.mem_map.1 hp
    have hlit := h.occurrence ho
    have hol : o.2 = l := by simpa using hpl
    rw [hol] at hlit
    have := h.covers l hlit.1 hlit.2
    unfold capacity
    rw [if_pos hlit]
    omega

/-- No literal has more pairs before some point than it has cells. -/
theorem CountsCover.prefix_le (h : CountsCover n clauses counts) {pre suf : List (Int × Int)}
    (e : occurrences clauses = pre ++ suf) (l : Int) :
    (valuesAt (pre.map Prod.swap) l).length ≤ capacity n counts l := by
  refine le_trans ?_ (h.length_le l)
  unfold clausesOf byLiteral
  rw [e, List.map_append, valuesAt_append, List.length_append]
  omega

theorem FilledTo.step (h : CountsCover n clauses counts) {offsets : Vec (Int × Int)}
    (hoff : ∀ v, 0 ≤ v → v < n → offsets.get v = (start counts v, (counts.get v).1))
    {pre suf : List (Int × Int)} {o : Int × Int} (e : occurrences clauses = pre ++ o :: suf) {st : ContFill}
    (hf : FilledTo n counts pre st) : FilledTo n counts (pre ++ [o]) (contFillStep offsets st o) := by
  obtain ⟨c, lit⟩ := o
  obtain ⟨h0, hn⟩ := h.occurrence (o := (c, lit)) (by rw [e]; simp)
  have hv := varIndex_nonneg h0
  have e' : occurrences clauses = (pre ++ [(c, lit)]) ++ suf := by rw [e, List.append_assoc]; rfl
  have hlen := h.prefix_le e' lit
  rw [List.map_append, List.map_singleton, Prod.swap_prod_mk, valuesAt_snoc, if_pos rfl, List.length_append,
    List.length_singleton] at hlen
  have hcap : ((valuesAt (pre.map Prod.swap) lit).length : Int) + 1 ≤ cntMax := by
    have := (h.range lit h0 hn).2
    unfold capacity at hlen
    rw [if_pos ⟨h0, hn⟩] at hlen
    unfold cntMax at this ⊢
    omega
  have hcur := hf.cursor lit h0 hn
  -- the write goes to the cell behind the values the literal has so far
  have hcells := hf.cells.snoc h.disjoint (fun k => h.prefix_le e k) c hlen
  constructor
  · rw [List.map_append, List.map_singleton, Prod.swap_prod_mk]
    unfold contFillStep ContIndex.getIterators base at *
    simp only [hoff _ hv hn] at *
    split
    · rename_i hneg; rw [if_pos hneg] at hcells hcur; rw [hcur]; exact hcells
    · rename_i hneg; rw [if_neg hneg] at hcells hcur; rw [hcur]; exact hcells
  · intro l hl0 hln
    have hl := hf.cursor l hl0 hln
    rw [List.map_append, List.map_singleton, Prod.swap_prod_mk, valuesAt_snoc]
    unfold contFillStep
    rcases eq_or_ne lit l with rfl | hne
    · rw [if_pos rfl, List.length_append, List.length_singleton, Nat.cast_add, Nat.cast_one, ← cntT_eq (by omega) hcap]
      split at hcur
      · rename_i hneg; simp only [if_pos hneg, Vec.get_set_self, hcur]
      · rename_i hneg; simp only [if_neg hneg, Vec.get_set_self, hcur]
    · rw [if_neg hne, ← hl]
      rcases eq_or_ne (varIndex l) (varIndex lit) with hvv | hvv
      · have hopp : l = -lit := (varIndex_eq_iff.1 hvv).resolve_left hne.symm
        rcases lt_or_gt_of_ne h0 with hneg | hpos
        · have h1 : ¬ 0 > l := by omega
          simp only [if_pos hneg, if_neg h1, hvv, Vec.get_set_self]
        · have h1 : 0 > l := by omega
          have h2 : ¬ 0 > lit := by omega
          simp only [if_neg h2, if_pos h1, hvv, Vec.get_set_self]
      · rcases lt_or_gt_of_ne h0 with hneg | hpos
        · simp only [if_pos hneg, Vec.get_set_ne _ _ hvv]
        · simp only [if_neg (show ¬ 0 > lit by omega), Vec.get_set_ne _ _ hvv]

/-- The continuous layout lists the clauses of a literal, then clause 0 for every cell too many. -/
def paddedClausesOf (clauses : List Clause) (counts : Counts) (l : Int) : List Int :=
  clausesOf clauses l ++ List.replicate ((counted counts l).toNat - (clausesOf clauses l).length) 0

theorem FilledTo.range (h : CountsCover n clauses counts) (offsets : Vec (Int × Int)) {st : ContFill}
    (hf : FilledTo n counts (occurrences clauses) st) {l : Int} (h0 : l ≠ 0) (hn : varIndex l < n) :
    (ContIndex.mk offsets st.clausesWithVars).range (base counts l) (base counts l + counted counts l) =
      paddedClausesOf clauses counts l := by
  have hcap : capacity n counts l = (counted counts l).toNat := if_pos ⟨h0, hn⟩
  have := hf.cells.toList (fun _ => rfl) (h.length_le l)
  rw [hcap] at this
  unfold ContIndex.range
  rw [add_sub_cancel_left]
  exact this

/-- The offsets of the construction, and that the loop over the occurrences then fills the cells. -/
theorem constructor_eq (h : CountsCover n clauses counts) {x : ContIndex} {m : Int}
    (hx : constructorVariantContDatastruct n clauses counts = .ok (x, m)) :
    ∃ offsets st, st = (occurrences clauses).foldl (contFillStep offsets)
        ⟨.filled (start counts n).toNat 0, .filled n.toNat (0, 0), 0⟩ ∧
      x = ⟨offsets, st.clausesWithVars⟩ ∧ m = st.maxNumBreaksPossible ∧ 0 ≤ start counts n ∧
      (∀ v, 0 ≤ v → v < n → offsets.get v = (start counts v, (counts.get v).1)) ∧
      ∀ v, 0 ≤ v → v ≤ n → (offsets.get v).1 = start counts v := by
  unfold constructorVariantContDatastruct at hx
  obtain ⟨⟨off, sum⟩, hoffs, hx⟩ := bind_ok hx
  have ho := foldlM_range (P := Offsets counts)
    ⟨by simp [start], by simp [start, sumMax], fun v h0 hv => by omega⟩
    (fun k acc acc' hk ho hs => ho.step h (by omega) hs) hoffs
  have hcast : (n.toNat : Int) = n := Int.toNat_of_nonneg h.vars
  obtain rfl : sum = start counts n := by rw [← hcast]; exact ho.sum
  cases hx
  have hentry : ∀ v, 0 ≤ v → v < n → (off.set n (start counts n, 0)).get v = (start counts v, (counts.get v).1) :=
    fun v h0 hv => by
      rw [Vec.get_set_ne _ _ hv.ne]
      exact ho.entry v h0 (by omega)
  refine ⟨_, _, rfl, rfl, rfl, by rw [← hcast]; exact ho.fits.1, hentry, fun v h0 hv => ?_⟩
  rcases hv.eq_or_lt with rfl | hlt
  · rw [Vec.get_set_self]
  · rw [hentry v h0 hlt]

theorem cont_iterators (h : CountsCover n clauses counts) {x : ContIndex} {m : Int}
    (hx : constructorVariantContDatastruct n clauses counts = .ok (x, m)) {v : Int} (hv : 0 ≤ v) (hn : v < n) :
    (OccurrenceIndex.cont x).getIteratorsForClausesWithVars v =
      (paddedClausesOf clauses counts (-(v + 1)), paddedClausesOf clauses counts (v + 1)) := by
  obtain ⟨offsets, st, hst, rfl, -, -, hentry, hfirst⟩ := constructor_eq h hx
  simp only [OccurrenceIndex.getIteratorsForClausesWithVars, ContIndex.getIterators]
  have hfill := foldl_list (f := contFillStep offsets) (P := FilledTo n counts) (l := occurrences clauses)
    (s := ⟨.filled (start counts n).toNat 0, .filled n.toNat (0, 0), 0⟩)
    ⟨.nil fun _ => rfl, fun l _ _ => by simp⟩ (fun pre o suf st e hf => hf.step h hentry e)
  rw [← hst] at hfill
  have hneg := hfill.range h offsets (l := -(v + 1)) (by omega) (by unfold varIndex; omega)
  have hpos := hfill.range h offsets (l := v + 1) (by omega) (by unfold varIndex; omega)
  have e1 : varIndex (-(v + 1)) = v := (varIndex_eq hv).2 (.inr rfl)
  have e2 : varIndex (v + 1) = v := (varIndex_eq hv).2 (.inl rfl)
  rw [counted_neg counts hv, base, if_pos (by omega), e1] at hneg
  rw [counted_pos counts hv, base, if_neg (by omega), e2, add_assoc, ← start_succ counts hv] at hpos
  rw [hentry v hv hn, hfirst (v + 1) (by omega) (by omega)]
  exact Prod.ext hneg hpos

end Continuous

/-! ## The layout of two vectors for every variable -/

/-- The lists of the variables once the pairs `done` are visited. -/
def PlainTo (n : Int) (done : List (Int × Int)) (st : Vec (List Int × List Int) × Int) : Prop :=
  ∀ v, 0 ≤ v → v < n →
    st.1.get v = (valuesAt (done.map Prod.swap) (-(v + 1)), valuesAt (done.map Prod.swap) (v + 1))

theorem PlainTo.step {n : Int} {done : List (Int × Int)} {st : Vec (List Int × List Int) × Int}
    (hp : PlainTo n done st) {o : Int × Int} (h0 : o.2 ≠ 0) : PlainTo n (done ++ [o]) (plainFillStep st o) := by
  obtain ⟨c, lit⟩ := o
  intro v hv hn
  rw [List.map_append, List.map_singleton, Prod.swap_prod_mk, valuesAt_snoc, valuesAt_snoc]
  unfold plainFillStep
  rcases lt_or_gt_of_ne h0 with hneg | hpos
  · simp only at hneg
    simp only [if_pos hneg, Vec.get_set]
    rw [if_neg (show lit ≠ v + 1 by omega)]
    rcases eq_or_ne v (varIndex lit) with e | e
    · have hlit : lit = -(v + 1) := by rw [e]; unfold varIndex; omega
      rw [if_pos e, if_pos hlit, ← e, hp v hv hn]
    · have hlit : lit ≠ -(v + 1) := by rintro rfl; exact e (by unfold varIndex; omega)
      rw [if_neg e, if_neg hlit, hp v hv hn]
  · simp only at hpos
    simp only [if_neg (show ¬ 0 > lit by omega), Vec.get_set]
    rw [if_neg (show lit ≠ -(v + 1) by omega)]
    rcases eq_or_ne v (varIndex lit) with e | e
    · have hlit : lit = v + 1 := by rw [e]; unfold varIndex; omega
      rw [if_pos e, if_pos hlit, ← e, hp v hv hn]
    · have hlit : lit ≠ v + 1 := by rintro rfl; exact e (by unfold varIndex; omega)
      rw [if_neg e, if_neg hlit, hp v hv hn]

/-! ## Both layouts -/

section Layouts

variable {n : Int} {clauses : List Clause} {counts : Counts} {useContDatastruct : Bool} {F : CnfFormula}

theorem initializeFormula_frame (h : CnfFormula.initializeFormula useContDatastruct n clauses counts = .ok F) :
    F.numVariables = n ∧ F.clauses = clauses := by
  unfold CnfFormula.initializeFormula at h
  cases useContDatastruct with
  | true =>
    obtain ⟨⟨x, m⟩, -, h⟩ := bind_ok h
    cases h
    exact ⟨rfl, rfl⟩
  | false => cases h; exact ⟨rfl, rfl⟩

/-- The iterators of a variable in either layout. -/
theorem initializeFormula_iterators (hc : CountsCover n clauses counts)
    (h : CnfFormula.initializeFormula useContDatastruct n clauses counts = .ok F) {v : Int} (hv : 0 ≤ v) (hn : v < n) :
    F.getIteratorsForClausesWithVars v =
      if useContDatastruct then (paddedClausesOf clauses counts (-(v + 1)), paddedClausesOf clauses counts (v + 1))
      else (clausesOf clauses (-(v + 1)), clausesOf clauses (v + 1)) := by
  unfold CnfFormula.initializeFormula at h
  cases useContDatastruct with
  | true =>
    obtain ⟨⟨x, m⟩, hx, h⟩ := bind_ok h
    cases h
    exact cont_iterators hc hx hv hn
  | false =>
    cases h
    exact foldl_list (f := plainFillStep) (P := PlainTo n) (fun v _ _ => rfl)
      (fun pre o suf st e hp => hp.step (hc.occurrence (by rw [e]; simp)).1) v hv hn

/-- Where the literals of a variable were counted exactly, both layouts list their clauses. -/
theorem initializeFormula_counted (hc : CountsCover n clauses counts)
    (h : CnfFormula.initializeFormula useContDatastruct n clauses counts = .ok F) {v : Int} (hv : 0 ≤ v) (hn : v < n)
    (hneg : counted counts (-(v + 1)) = (clausesOf clauses (-(v + 1))).length)
    (hpos : counted counts (v + 1) = (clausesOf clauses (v + 1)).length) :
    F.getIteratorsForClausesWithVars v = (clausesOf clauses (-(v + 1)), clausesOf clauses (v + 1)) := by
  have hpad : ∀ l, counted counts l = (clausesOf clauses l).length →
      paddedClausesOf clauses counts l = clausesOf clauses l := by
    intro l hl
    rw [paddedClausesOf, hl, Int.toNat_natCast, Nat.sub_self, List.replicate_zero, List.append_nil]
  rw [initializeFormula_iterators hc h hv hn, hpad _ hneg, hpad _ hpos, ite_self]

theorem exactAt_of_iterators (hw : F.WellFormed) {v : Int}
    (h : F.getIteratorsForClausesWithVars v = (clausesOf F.clauses (-(v + 1)), clausesOf F.clauses (v + 1))) :
    F.ExactAt v where
  inRange c hc := by
    rw [h] at hc
    exact hc.elim mem_clausesOf mem_clausesOf
  neg c hc := by rw [h]; exact count_clausesOf hw _ hc
  pos c hc := by rw [h]; exact count_clausesOf hw _ hc

end Layouts

end ParallelProbsat.Sat
