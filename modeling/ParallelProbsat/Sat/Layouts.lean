/-
The two layouts of the occurrence index side by side, for clauses of any shape: with exact counts the
continuous array holds for every literal the list the plain layout builds, the ranges of the literals
follow one another without gap or overlap, and `max_num_breaks_possible` is the length of the longest
list.
-/
import ParallelProbsat.Sat.OccurrenceIndex

namespace ParallelProbsat.Sat

open ParallelProbsat.Lib ParallelProbsat.Util

/-- Clauses of 1 to 256 literals about `n` variables, with the number of occurrences of every literal;
each fits a `cnt_t`, and all together a `sum_t`. -/
structure CountedClauses (n : Int) (clauses : List Clause) (counts : Counts) : Prop where
  vars : 0 ≤ n
  width : ∀ c ∈ clauses, 1 ≤ c.length ∧ c.length ≤ 256
  literal : ∀ c ∈ clauses, ∀ l ∈ c, l ≠ 0 ∧ varIndex l < n
  exact : ∀ l, l ≠ 0 → varIndex l < n → counted counts l = numOccurrences clauses l
  fits : ∀ l, l ≠ 0 → varIndex l < n → counted counts l ≤ cntMax
  total : start counts n ≤ sumMax

variable {n : Int} {clauses : List Clause} {counts : Counts}

namespace CountedClauses

variable (h : CountedClauses n clauses counts)
include h

theorem length_clausesOf (l : Int) : (clausesOf clauses l).length = numOccurrences clauses l :=
  numOccurrences_eq (fun c hc => (h.width c hc).2) l

theorem counted_eq {l : Int} (h0 : l ≠ 0) (hl : varIndex l < n) : counted counts l = (clausesOf clauses l).length := by
  rw [h.exact l h0 hl, h.length_clausesOf]

theorem cover : CountsCover n clauses counts :=
  .of_exact h.vars h.literal (fun _ h0 hl => h.counted_eq h0 hl) h.fits

end CountedClauses

/-! ## The construction does not throw -/

theorem offsetStep_passes (h : CountsCover n clauses counts) (htotal : start counts n ≤ sumMax) {k : Nat}
    (hk : (k : Int) < n) {acc : Vec (Int × Int) × Int} (ho : Offsets counts k acc) :
    ∃ acc', offsetStep counts acc k = .ok acc' := by
  have hc := h.count (v := k) (by omega) hk
  have hsucc := start_succ counts (v := k) (by omega)
  have hmono := h.start_mono (u := k + 1) (v := n) (by omega) (by omega) le_rfl
  have hfits := ho.fits
  unfold cntMax at hc
  unfold sumMax at hfits htotal
  have hsize : sizeT ((counts.get k).1 + (counts.get k).2) = (counts.get k).1 + (counts.get k).2 := by
    unfold sizeT; omega
  unfold offsetStep
  simp only [hsize, ho.sum]
  rw [if_neg (by unfold sizeT sumMax; omega)]
  exact ⟨_, rfl⟩

theorem constructor_passes (h : CountsCover n clauses counts) (htotal : start counts n ≤ sumMax) :
    ∃ x m, constructorVariantContDatastruct n clauses counts = .ok (x, m) := by
  have hloop : ∀ k : Nat, (k : Int) ≤ n → ∃ acc, (List.range k).foldlM (offsetStep counts)
      (.filled (n + 1).toNat (0, 0), 0) = .ok acc ∧ Offsets counts k acc := by
    intro k
    induction k with
    | zero => exact fun _ => ⟨_, rfl, by simp [start], by simp [start, sumMax], fun v h0 hv => by omega⟩
    | succ k ih =>
      intro hk
      obtain ⟨acc, hacc, ho⟩ := ih (by omega)
      obtain ⟨acc', hs⟩ := offsetStep_passes h htotal (by omega) ho
      refine ⟨acc', ?_, ho.step h (by omega) hs⟩
      rw [List.range_succ, List.foldlM_append, hacc]
      show (List.foldlM (offsetStep counts) acc [k]) = _
      rw [List.foldlM_cons, hs]
      rfl
  obtain ⟨⟨off, sum⟩, hacc, -⟩ := hloop n.toNat (by rw [Int.toNat_of_nonneg h.vars])
  unfold constructorVariantContDatastruct
  rw [hacc]
  exact ⟨_, _, rfl⟩

/-! ## The longest list -/

/-- The largest number a loop over the pairs `done` has seen: one of the lengths, and at least the length of
every literal that was visited. -/
structure LongestOf (n : Int) (length : Int → Int) (done : List (Int × Int)) (m : Int) : Prop where
  nonneg : 0 ≤ m
  bound : ∀ l, valuesAt (done.map Prod.swap) l ≠ [] → length l ≤ m
  attained : m = 0 ∨ ∃ l, l ≠ 0 ∧ varIndex l < n ∧ m = length l

theorem LongestOf.nil (n : Int) (length : Int → Int) : LongestOf n length [] 0 :=
  ⟨le_rfl, fun _ h => absurd rfl h, .inl rfl⟩

/-- The pair visited next is measured, and the lengths may grow with it. -/
theorem LongestOf.snoc {length length' : Int → Int} {done : List (Int × Int)} {m : Int} (h : LongestOf n length done m)
    {c lit : Int} (h0 : lit ≠ 0) (hn : varIndex lit < n) (hother : ∀ l, l ≠ lit → length' l = length l)
    (hgrow : length lit ≤ length' lit) : LongestOf n length' (done ++ [(c, lit)]) (max m (length' lit)) := by
  refine ⟨le_trans h.nonneg (le_max_left ..), fun l hl => ?_, ?_⟩
  · rcases eq_or_ne l lit with rfl | hne
    · exact le_max_right ..
    · rw [hother l hne]
      refine le_trans (h.bound l ?_) (le_max_left ..)
      rwa [List.map_append, List.map_singleton, Prod.swap_prod_mk, valuesAt_snoc, if_neg hne.symm] at hl
  · rcases le_total m (length' lit) with hle | hle
    · exact .inr ⟨lit, h0, hn, max_eq_right hle⟩
    · rw [max_eq_left hle]
      refine h.attained.imp_right ?_
      rintro ⟨l, hl0, hln, hm⟩
      rcases eq_or_ne l lit with rfl | hne
      · exact ⟨l, hl0, hln, by omega⟩
      · exact ⟨l, hl0, hln, by rw [hother l hne]; exact hm⟩

/-- `m` is the length of the longest of the lists of the literals; 0 without variables. -/
structure IsLongest (n : Int) (lists : Int → List Int) (m : Int) : Prop where
  bound : ∀ l, l ≠ 0 → varIndex l < n → ((lists l).length : Int) ≤ m
  attained : (n = 0 ∧ m = 0) ∨ ∃ l, l ≠ 0 ∧ varIndex l < n ∧ m = (lists l).length

theorem LongestOf.isLongest {m : Int} (hn : 0 ≤ n)
    (h : LongestOf n (fun l => (clausesOf clauses l).length) (occurrences clauses) m) :
    IsLongest n (clausesOf clauses) m := by
  have hbound : ∀ l, ((clausesOf clauses l).length : Int) ≤ m := by
    intro l
    by_cases hl : clausesOf clauses l = []
    · rw [hl]
      exact h.nonneg
    · exact h.bound l hl
  refine ⟨fun l _ _ => hbound l, ?_⟩
  rcases h.attained with rfl | ha
  · rcases hn.eq_or_lt with rfl | hpos
    · exact .inl ⟨rfl, rfl⟩
    · have := hbound 1
      exact .inr ⟨1, one_ne_zero, by unfold varIndex; omega, by omega⟩
  · exact .inr ha

/-- The lengths of literals that do not occur do not matter. -/
theorem LongestOf.congr {length length' : Int → Int} {done : List (Int × Int)} {m : Int} (h : LongestOf n length done m)
    (hdone : ∀ o ∈ done, o.2 ≠ 0 ∧ varIndex o.2 < n) (heq : ∀ l, l ≠ 0 → varIndex l < n → length l = length' l) :
    LongestOf n length' done m := by
  refine ⟨h.nonneg, fun l hl => ?_, h.attained.imp_right ?_⟩
  · obtain ⟨c, hc⟩ := List.exists_mem_of_ne_nil _ hl
    unfold valuesAt at hc
    obtain ⟨p, hp, -⟩ := List.mem_map.1 hc
    obtain ⟨hp, hpl⟩ := List.mem_filter.1 hp
    obtain ⟨o, ho, rfl⟩ := List.mem_map.1 hp
    have hlit := hdone o ho
    rw [show o.2 = l by simpa using hpl] at hlit
    rw [← heq l hlit.1 hlit.2]
    exact h.bound l hl
  · rintro ⟨l, h0, hl, hm⟩
    exact ⟨l, h0, hl, by rw [hm, heq l h0 hl]⟩

theorem IsLongest.congr {lists lists' : Int → List Int} {m : Int} (h : IsLongest n lists m)
    (heq : ∀ l, l ≠ 0 → varIndex l < n → lists' l = lists l) : IsLongest n lists' m := by
  refine ⟨fun l h0 hl => ?_, h.attained.imp_right ?_⟩
  · rw [heq l h0 hl]
    exact h.bound l h0 hl
  · rintro ⟨l, h0, hl, hm⟩
    exact ⟨l, h0, hl, by rw [heq l h0 hl]; exact hm⟩

theorem IsLongest.le {lists : Int → List Int} {m m' : Int} (h : IsLongest n lists m)
    (h' : IsLongest n lists m') : m ≤ m' := by
  rcases h.attained with ⟨hn, rfl⟩ | ⟨l, h0, hl, rfl⟩
  · rcases h'.attained with ⟨-, rfl⟩ | ⟨l, -, -, rfl⟩
    · exact le_rfl
    · exact Int.natCast_nonneg _
  · exact h'.bound l h0 hl

theorem IsLongest.unique {lists : Int → List Int} {m m' : Int} (h : IsLongest n lists m) (h' : IsLongest n lists m') :
    m = m' := le_antisymm (h.le h') (h'.le h)

/-! ## Both constructions -/

/-- What the loops of the continuous layout leave behind. -/
theorem constructor_ok (h : CountsCover n clauses counts) {x : ContIndex} {m : Int}
    (hx : constructorVariantContDatastruct n clauses counts = .ok (x, m)) :
    (∀ v, 0 ≤ v → v ≤ n → (x.occurrenceOffset.get v).1 = start counts v) ∧
      (∀ v, 0 ≤ v → v < n → (x.occurrenceOffset.get v).2 = (counts.get v).1) ∧
      (x.clausesWithVars.size : Int) = start counts n ∧ LongestOf n (counted counts) (occurrences clauses) m := by
  obtain ⟨offsets, st, hst, rfl, rfl, hnonneg, hentry, hfirst⟩ := constructor_eq h hx
  have hfill := foldl_list (f := contFillStep offsets)
    (P := fun done st => st.clausesWithVars.size = (start counts n).toNat ∧
      LongestOf n (counted counts) done st.maxNumBreaksPossible) (l := occurrences clauses)
    (s := ⟨.filled (start counts n).toNat 0, .filled n.toNat (0, 0), 0⟩) ⟨rfl, .nil ..⟩ ?_
  · rw [← hst] at hfill
    refine ⟨hfirst, fun v h0 hv => by rw [hentry v h0 hv], ?_, hfill.2⟩
    rw [hfill.1, Int.toNat_of_nonneg hnonneg]
  · rintro pre ⟨c, lit⟩ suf st e ⟨hsize, hlong⟩
    have hlit : lit ≠ 0 ∧ varIndex lit < n := h.occurrence (o := (c, lit)) (by rw [e]; simp)
    obtain ⟨h0, hn⟩ := hlit
    have hv := varIndex_nonneg h0
    have hstep := hlong.snoc (c := c) h0 hn (fun _ _ => rfl) le_rfl
    -- the range of the literal is as long as it was counted
    have hwidth : (contFillStep offsets st (c, lit)).maxNumBreaksPossible =
        max st.maxNumBreaksPossible (counted counts lit) := by
      have hnext := hfirst (varIndex lit + 1) (by omega) (by omega)
      rw [start_succ counts hv] at hnext
      unfold contFillStep ContIndex.getIterators counted
      simp only [hentry _ hv hn, hnext]
      split
      · show max _ _ = max _ _
        congr 1
        omega
      · show max _ _ = max _ _
        congr 1
        omega
    rw [hwidth]
    refine ⟨?_, hstep⟩
    rw [← hsize]
    unfold contFillStep
    simp only
    split <;> rfl

/-- What the loop of the plain layout leaves behind. -/
theorem plain_ok (hlit : ∀ c ∈ clauses, ∀ l ∈ c, l ≠ 0 ∧ varIndex l < n) :
    let st := (occurrences clauses).foldl plainFillStep (.filled n.toNat ([], []), 0)
    PlainTo n (occurrences clauses) st ∧
      LongestOf n (fun l => (clausesOf clauses l).length) (occurrences clauses) st.2 := by
  refine foldl_list (f := plainFillStep) (P := fun done st => PlainTo n done st ∧
    LongestOf n (fun l => (valuesAt (done.map Prod.swap) l).length) done st.2) ⟨fun v _ _ => rfl, .nil ..⟩ ?_
  rintro pre ⟨c, lit⟩ suf st e ⟨hp, hlong⟩
  have hocc : (c, lit) ∈ occurrences clauses := by rw [e]; simp
  obtain ⟨cl, hcl, hmem⟩ := mem_occurrences hocc
  obtain ⟨h0, hn⟩ := hlit cl hcl _ hmem
  refine ⟨hp.step h0, ?_⟩
  have hvalues : ∀ l, valuesAt ((pre ++ [(c, lit)]).map Prod.swap) l =
      if lit = l then valuesAt (pre.map Prod.swap) l ++ [c] else valuesAt (pre.map Prod.swap) l := by
    intro l
    rw [List.map_append, List.map_singleton, Prod.swap_prod_mk, valuesAt_snoc]
  have hlen : (plainFillStep st (c, lit)).2 =
      max st.2 ((valuesAt ((pre ++ [(c, lit)]).map Prod.swap) lit).length : Int) := by
    have hlists := hp _ (varIndex_nonneg h0) hn
    rw [hvalues, if_pos rfl]
    unfold plainFillStep
    simp only [hlists]
    rcases varIndex_cases h0 with ⟨hneg, hv⟩ | ⟨hpos, hv⟩
    · rw [if_pos hneg, hv]
    · rw [if_neg (by omega), hv]
  rw [hlen]
  refine hlong.snoc h0 hn (fun l hne => ?_) ?_
  · rw [hvalues, if_neg hne.symm]
  · rw [hvalues, if_pos rfl]
    simp

/-- The ranges of the variables follow one another from the start to the end of the array. -/
structure Tiles (n : Int) (x : ContIndex) : Prop where
  first : (x.getIterators 0).negStart = 0
  inner : ∀ v, 0 ≤ v → v < n → (x.getIterators v).negStart ≤ (x.getIterators v).negEnd ∧
    (x.getIterators v).negEnd = (x.getIterators v).posStart ∧ (x.getIterators v).posStart ≤ (x.getIterators v).posEnd ∧
    (x.getIterators v).posEnd = (x.getIterators (v + 1)).negStart
  last : (x.getIterators n).negStart = x.clausesWithVars.size

theorem Tiles.of_offsets (h : CountsCover n clauses counts) {x : ContIndex}
    (hfirst : ∀ v, 0 ≤ v → v ≤ n → (x.occurrenceOffset.get v).1 = start counts v)
    (hsecond : ∀ v, 0 ≤ v → v < n → (x.occurrenceOffset.get v).2 = (counts.get v).1)
    (hsize : (x.clausesWithVars.size : Int) = start counts n) : Tiles n x where
  first := (hfirst 0 le_rfl h.vars).trans (by simp [start])
  inner v h0 hv := by
    have hcount := h.count h0 hv
    have h1 := hfirst v h0 hv.le
    have h2 := hfirst (v + 1) (by omega) (by omega)
    have h3 := hsecond v h0 hv
    rw [start_succ counts h0] at h2
    unfold ContIndex.getIterators
    simp only [h1, h2, h3]
    exact ⟨by omega, trivial, by omega, trivial⟩
  last := (hfirst n h.vars le_rfl).trans hsize.symm

/-- For clauses with exact counts both constructions succeed; every variable has the same two lists in both
layouts, the ranges of the continuous one tile its array, and `max_num_breaks_possible` is the length of the longest
list in both. -/
theorem contIndex_eq_plain (n : Int) (clauses : List Clause) (counts : Counts) (h : CountedClauses n clauses counts) :
    ∃ x m lists m', CnfFormula.initializeFormula true n clauses counts = .ok ⟨n, clauses, .cont x, m⟩ ∧
      CnfFormula.initializeFormula false n clauses counts = .ok ⟨n, clauses, .plain lists, m'⟩ ∧
      (∀ v, 0 ≤ v → v < n →
        x.range (x.getIterators v).negStart (x.getIterators v).negEnd = (lists.get v).1 ∧
        x.range (x.getIterators v).posStart (x.getIterators v).posEnd = (lists.get v).2) ∧
      Tiles n x ∧ m' = m ∧
      IsLongest n (fun l => if 0 > l then (lists.get (varIndex l)).1 else (lists.get (varIndex l)).2) m := by
  have hc := h.cover
  obtain ⟨x, m, hx⟩ := constructor_passes hc h.total
  obtain ⟨hfirst, hsecond, hsize, hlong⟩ := constructor_ok hc hx
  obtain ⟨hplain, hlong'⟩ := plain_ok h.literal
  generalize hst : (occurrences clauses).foldl plainFillStep (.filled n.toNat ([], []), 0) = st at hplain hlong'
  have hcont : CnfFormula.initializeFormula true n clauses counts = .ok ⟨n, clauses, .cont x, m⟩ := by
    unfold CnfFormula.initializeFormula
    rw [if_pos rfl, hx]
    rfl
  have hflat : CnfFormula.initializeFormula false n clauses counts = .ok ⟨n, clauses, .plain st.1, st.2⟩ := by
    unfold CnfFormula.initializeFormula
    rw [if_neg (by decide), hst]
    rfl
  -- both list the clauses of the two literals
  have hlists : ∀ v, 0 ≤ v → v < n → st.1.get v = (clausesOf clauses (-(v + 1)), clausesOf clauses (v + 1)) := hplain
  have hranges : ∀ v, 0 ≤ v → v < n → (OccurrenceIndex.cont x).getIteratorsForClausesWithVars v = st.1.get v := by
    intro v h0 hv
    rw [hlists v h0 hv]
    exact initializeFormula_counted hc hcont h0 hv (h.counted_eq (by omega) (by unfold varIndex; omega))
      (h.counted_eq (by omega) (by unfold varIndex; omega))
  have hm : IsLongest n (clausesOf clauses) m :=
    (hlong.congr (fun _ ho => hc.occurrence ho) fun _ h0 hl => h.counted_eq h0 hl).isLongest h.vars
  have hm' : IsLongest n (clausesOf clauses) st.2 := hlong'.isLongest h.vars
  refine ⟨x, m, st.1, st.2, hcont, hflat, fun v h0 hv => Prod.mk.inj (hranges v h0 hv),
    .of_offsets hc hfirst hsecond hsize, hm'.unique hm, hm.congr fun l h0 hl => ?_⟩
  rw [hlists _ (varIndex_nonneg h0) hl]
  rcases varIndex_cases h0 with ⟨hneg, hv⟩ | ⟨hpos, hv⟩
  · rw [if_pos hneg, hv]
  · rw [if_neg (by omega), hv]

/-- Clauses that repeat a literal and hold one together with its negation. -/
def repeatedClauses : List Clause := [[1, 1, -1], [-2, 1]]

theorem repeatedClauses_counted : CountedClauses 2 repeatedClauses ⟨2, fun v => if v = 0 then (1, 3) else (1, 0)⟩ where
  vars := by decide
  width := by decide
  literal := by decide
  exact l h0 hl := by
    obtain ⟨h1, h2⟩ : -2 ≤ l ∧ l ≤ 2 := by unfold varIndex at hl; omega
    interval_cases l <;> rfl
  fits l h0 hl := by
    obtain ⟨h1, h2⟩ : -2 ≤ l ∧ l ≤ 2 := by unfold varIndex at hl; omega
    interval_cases l <;> decide
  total := by decide

/-- The variables of the repeated clauses have the same lists in both layouts. -/
theorem contIndex_eq_plain_of_repeated :
    ∃ x m lists m', CnfFormula.initializeFormula true 2 repeatedClauses ⟨2, fun v => if v = 0 then (1, 3) else (1, 0)⟩ =
        .ok ⟨2, repeatedClauses, .cont x, m⟩ ∧
      CnfFormula.initializeFormula false 2 repeatedClauses ⟨2, fun v => if v = 0 then (1, 3) else (1, 0)⟩ =
        .ok ⟨2, repeatedClauses, .plain lists, m'⟩ ∧
      (∀ v, 0 ≤ v → v < 2 →
        x.range (x.getIterators v).negStart (x.getIterators v).negEnd = (lists.get v).1 ∧
        x.range (x.getIterators v).posStart (x.getIterators v).posEnd = (lists.get v).2) ∧
      Tiles 2 x ∧ m' = m ∧
      IsLongest 2 (fun l => if 0 > l then (lists.get (varIndex l)).1 else (lists.get (varIndex l)).2) m :=
  contIndex_eq_plain 2 repeatedClauses _ repeatedClauses_counted

end ParallelProbsat.Sat
