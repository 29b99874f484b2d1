/-
The list of unsatisfied clauses over whole runs: on a formula whose occurrence index is exact,
after construction and after every flip `unsat_clauses` holds exactly the clauses without a true
literal, each once, `unsat_clauses_location` gives their positions and minus the number of true
literals of every other clause, and so `found_solution` and `check_assignment` agree.

The two loops of `flip_literal` run while the assignment still holds the old value. The invariant
carried through them speaks of the true literals each clause is *counted* with (`Tracks`): the break
loop takes one occurrence of the opposite literal off a clause each time it meets the clause, the
make loop adds one of the flipped literal, and when both are done the counted literals are those
true under the flipped assignment.
-/
import ParallelProbsat.Lib.Positions
import ParallelProbsat.Sat.Instance
import ParallelProbsat.Sat.OccurrenceIndex

namespace ParallelProbsat.Sat

open ParallelProbsat.Lib ParallelProbsat.Util

/-! ## The ranges of a flip -/

/-- The break loop runs over the occurrences of the opposite literal, the make loop over those of
the literal. -/
theorem CnfFormula.flipRanges_exact {F : CnfFormula} {l : Int} (h0 : l ≠ 0) (hx : F.ExactAt (varIndex l)) :
    (∀ c, c ∈ (SerialInstance.flipRanges F l).1 ∨ c ∈ (SerialInstance.flipRanges F l).2 → F.InRange c) ∧
      ∀ c, F.InRange c → (SerialInstance.flipRanges F l).1.count c = (F.getClause c).count (-l) ∧
        (SerialInstance.flipRanges F l).2.count c = (F.getClause c).count l := by
  unfold SerialInstance.flipRanges
  rcases varIndex_cases h0 with ⟨hl, e1⟩ | ⟨hl, e1⟩
  · simp only [if_neg (not_lt.2 hl.le)]
    refine ⟨fun c hc => hx.inRange c hc.symm, fun c hc => ⟨?_, ?_⟩⟩
    · rw [hx.pos c hc, neg_eq_iff_eq_neg.1 e1]
    · rw [hx.neg c hc, e1]
  · simp only [if_pos hl]
    refine ⟨hx.inRange, fun c hc => ⟨?_, ?_⟩⟩
    · rw [hx.neg c hc, e1]
    · rw [hx.pos c hc, e1]

namespace SerialInstance

variable {F : CnfFormula}

/-- The assignment as the solver reads it. -/
def assignment (s : SerialInstance) : Int → Bool := s.belegung.read

/-- The true literals of every clause. -/
def trueLitsOf (F : CnfFormula) (a : Int → Bool) (c : Int) : Multiset Int := trueLits a (F.getClause c)

/-- The list and the locations are those of clauses with the counted literals `S`. -/
structure Tracks (F : CnfFormula) (S : Int → Multiset Int) (s : SerialInstance) : Prop where
  unsat : Positions (fun c => F.InRange c ∧ S c = 0) s.unsatClauses s.unsatClausesLocation.get
  sat : ∀ c, F.InRange c → S c ≠ 0 → s.unsatClausesLocation.get c = -((S c).card : Int)

/-! ## What the state updates leave unchanged -/

@[simp] theorem addBreaks_unsatClauses (s : SerialInstance) (v d : Int) :
    (s.addBreaks v d).unsatClauses = s.unsatClauses := rfl

@[simp] theorem addBreaks_location (s : SerialInstance) (v d : Int) :
    (s.addBreaks v d).unsatClausesLocation = s.unsatClausesLocation := rfl

@[simp] theorem addBreaks_belegung (s : SerialInstance) (v d : Int) : (s.addBreaks v d).belegung = s.belegung := rfl

@[simp] theorem addBreaks_flips (s : SerialInstance) (v d : Int) :
    (s.addBreaks v d).numFlipsDone = s.numFlipsDone := rfl

@[simp] theorem addBreaks_crit (s : SerialInstance) (v d : Int) :
    (s.addBreaks v d).critLiteralInClause = s.critLiteralInClause := rfl

@[simp] theorem setCritLiteral_unsatClauses (s : SerialInstance) (c l : Int) :
    (s.setCritLiteral c l).unsatClauses = s.unsatClauses := rfl

@[simp] theorem setCritLiteral_location (s : SerialInstance) (c l : Int) :
    (s.setCritLiteral c l).unsatClausesLocation = s.unsatClausesLocation := rfl

@[simp] theorem setCritLiteral_belegung (s : SerialInstance) (c l : Int) :
    (s.setCritLiteral c l).belegung = s.belegung := rfl

@[simp] theorem setCritLiteral_flips (s : SerialInstance) (c l : Int) :
    (s.setCritLiteral c l).numFlipsDone = s.numFlipsDone := rfl

@[simp] theorem setCritLiteral_breaks (s : SerialInstance) (c l : Int) :
    (s.setCritLiteral c l).numBreaksByFlip = s.numBreaksByFlip := rfl

@[simp] theorem makeClauseUnsat_belegung (s : SerialInstance) (c : Int) :
    (s.makeClauseUnsat c).belegung = s.belegung := rfl

@[simp] theorem makeClauseUnsat_flips (s : SerialInstance) (c : Int) :
    (s.makeClauseUnsat c).numFlipsDone = s.numFlipsDone := rfl

@[simp] theorem makeClauseSat_belegung (s : SerialInstance) (c : Int) : (s.makeClauseSat c).belegung = s.belegung := by
  unfold makeClauseSat; simp only; split_ifs <;> rfl

@[simp] theorem makeClauseSat_flips (s : SerialInstance) (c : Int) :
    (s.makeClauseSat c).numFlipsDone = s.numFlipsDone := by
  unfold makeClauseSat; simp only; split_ifs <;> rfl

theorem breakClause_frame (B : Build) (F : CnfFormula) (l : Int) (s : SerialInstance) (c : Int) :
    (breakClause B F l s c).belegung = s.belegung ∧ (breakClause B F l s c).numFlipsDone = s.numFlipsDone := by
  unfold breakClause
  simp only
  split_ifs <;> simp

theorem makeClause_frame (B : Build) (F : CnfFormula) (l : Int) (s : SerialInstance) (c : Int) :
    (makeClause B F l s c).belegung = s.belegung ∧ (makeClause B F l s c).numFlipsDone = s.numFlipsDone := by
  unfold makeClause
  simp only
  split_ifs <;> simp

/-- What the break loop does to the list and the locations does not depend on the build. -/
theorem breakClause_list (B : Build) (F : CnfFormula) (l : Int) (s : SerialInstance) (c : Int) :
    ((breakClause B F l s c).unsatClauses, (breakClause B F l s c).unsatClausesLocation) =
      if 0 ≤ s.unsatClausesLocation.get c then (s.unsatClauses, s.unsatClausesLocation)
      else if s.unsatClausesLocation.get c = -1 then
        ((s.makeClauseUnsat c).unsatClauses, (s.makeClauseUnsat c).unsatClausesLocation)
      else (s.unsatClauses, s.unsatClausesLocation.modify c (· + 1)) := by
  unfold breakClause
  simp only
  split_ifs <;> simp_all

theorem makeClause_list (B : Build) (F : CnfFormula) (l : Int) (s : SerialInstance) (c : Int) :
    ((makeClause B F l s c).unsatClauses, (makeClause B F l s c).unsatClausesLocation) =
      if 0 ≤ s.unsatClausesLocation.get c then
        ((s.makeClauseSat c).unsatClauses, (s.makeClauseSat c).unsatClausesLocation)
      else (s.unsatClauses, s.unsatClausesLocation.modify c (· - 1)) := by
  unfold makeClause
  simp only
  split_ifs <;> simp_all

/-! ## One round of each loop -/

section Rounds

variable {S : Int → Multiset Int} {s : SerialInstance} (B : Build) {l c : Int}

theorem Tracks.of_list {s' : SerialInstance} (h : Tracks F S s) (hu : s'.unsatClauses = s.unsatClauses)
    (hl : s'.unsatClausesLocation = s.unsatClausesLocation) : Tracks F S s' :=
  ⟨by rw [hu, hl]; exact h.unsat, by rw [hl]; exact h.sat⟩

theorem Tracks.location_nonneg (h : Tracks F S s) (hc : F.InRange c) :
    0 ≤ s.unsatClausesLocation.get c ↔ S c = 0 := by
  constructor
  · intro h0
    by_contra hne
    have := h.sat c hc hne
    have := Multiset.card_pos.2 hne
    omega
  · intro h0; exact (h.unsat.member c ⟨hc, h0⟩).1

/-- A clause loses its last counted literal. -/
theorem Tracks.makeClauseUnsat (h : Tracks F S s) (hc : F.InRange c) (hne : S c ≠ 0) :
    Tracks F (Function.update S c 0) (s.makeClauseUnsat c) where
  unsat := by
    refine h.unsat.push (a := c) (fun hz => hne hz.2) (fun b => ?_) (fun b => Vec.get_set ..)
    rcases eq_or_ne b c with rfl | hbc
    · simp [hc]
    · simp [hbc]
  sat b hb hbS := by
    rcases eq_or_ne b c with rfl | hbc
    · rw [Function.update_self] at hbS; exact absurd rfl hbS
    · rw [Function.update_of_ne hbc] at hbS ⊢
      exact (Vec.get_set_ne _ _ hbc).trans (h.sat b hb hbS)

/-- `make_clause_sat` on the list and the locations: the last clause moves, unless it is the one
made satisfied. -/
theorem makeClauseSat_list (s : SerialInstance) (c : Int) :
    ((s.makeClauseSat c).unsatClauses, (s.makeClauseSat c).unsatClausesLocation) =
      if s.unsatClauses.popBack.size = 0 ∨ s.unsatClausesLocation.get c = s.unsatClauses.popBack.size then
        (s.unsatClauses.popBack, s.unsatClausesLocation.set c (-1))
      else (s.unsatClauses.popBack.set (s.unsatClausesLocation.get c) s.unsatClauses.back,
        (s.unsatClausesLocation.set c (-1)).set s.unsatClauses.back (s.unsatClausesLocation.get c)) := by
  unfold SerialInstance.makeClauseSat
  rcases eq_or_ne s.unsatClauses.popBack.size 0 with h1 | h1
  · simp only [if_pos h1, if_pos (Or.inl h1)]
  · rcases eq_or_ne (s.unsatClausesLocation.get c) s.unsatClauses.popBack.size with h2 | h2
    · simp only [if_neg h1, if_pos h2, if_pos (Or.inr h2)]
    · simp only [if_neg h1, if_neg h2, if_neg (not_or.2 ⟨h1, h2⟩)]

/-- An unsatisfied clause gets its first counted literal. -/
theorem Tracks.makeClauseSat (h : Tracks F S s) (hc : F.InRange c) (hz : S c = 0) :
    Tracks F (Function.update S c {l}) (s.makeClauseSat c) := by
  obtain ⟨p0, p1, p2⟩ := h.unsat.member c ⟨hc, hz⟩
  obtain ⟨⟨-, hbackz⟩, hbackl⟩ := h.unsat.entry (s.unsatClauses.size - 1) (by omega) (by omega)
  change S s.unsatClauses.back = 0 at hbackz
  change s.unsatClausesLocation.get s.unsatClauses.back = _ at hbackl
  have hlist := makeClauseSat_list s c
  rw [Vec.size_popBack] at hlist
  -- the list is the one with `c` removed; every other clause keeps its location, except the moved one
  have hrest : (s.makeClauseSat c).unsatClauses = s.unsatClauses.swapRemove (s.unsatClausesLocation.get c) ∧
      (s.makeClauseSat c).unsatClausesLocation.get c = -1 ∧
      ∀ b, b ≠ c → (s.makeClauseSat c).unsatClausesLocation.get b =
        if b = s.unsatClauses.back then s.unsatClausesLocation.get c else s.unsatClausesLocation.get b := by
    unfold Vec.swapRemove
    rw [Vec.size_popBack]
    split at hlist
    · rename_i hlast
      obtain ⟨e1, e2⟩ := Prod.mk.inj hlist
      have hpos : s.unsatClausesLocation.get c = (s.unsatClauses.size - 1 : Nat) := by omega
      have hback : s.unsatClauses.back = c := by
        rw [← p2, hpos, Nat.cast_sub (by omega)]
        rfl
      rw [e1, e2, if_pos hpos, hback]
      refine ⟨rfl, Vec.get_set_self .., fun b hb => ?_⟩
      rw [if_neg hb]
      exact Vec.get_set_ne _ _ hb
    · rename_i hlast
      obtain ⟨hs, hpos⟩ := not_or.1 hlast
      obtain ⟨e1, e2⟩ := Prod.mk.inj hlist
      have hback : c ≠ s.unsatClauses.back := by
        intro e
        rw [← e] at hbackl
        omega
      rw [e1, e2, if_neg hpos]
      refine ⟨rfl, ?_, fun b hb => ?_⟩
      · rw [Vec.get_set_ne _ _ hback]; exact Vec.get_set_self ..
      · rw [Vec.get_set, Vec.get_set_ne _ _ hb]
  obtain ⟨hu, hself, hother⟩ := hrest
  constructor
  · rw [hu]
    refine h.unsat.remove (a := c) ⟨hc, hz⟩ (fun b => ?_) (fun b hb => hother b ?_)
    · rcases eq_or_ne b c with rfl | hbc
      · simp
      · simp [hbc]
    · rintro rfl
      simp at hb
  · intro b hb hbS
    rcases eq_or_ne b c with rfl | hbc
    · rw [Function.update_self, hself]
      rfl
    · rw [Function.update_of_ne hbc] at hbS ⊢
      have hne : b ≠ s.unsatClauses.back := fun e => hbS (by rw [e]; exact hbackz)
      rw [hother b hbc, if_neg hne]
      exact h.sat b hb hbS

/-- The location of a satisfied clause changes, and stays minus its number of counted literals. -/
theorem Tracks.recount (h : Tracks F S s) {M : Multiset Int} {d : Int} (hne : S c ≠ 0) (hM : M ≠ 0)
    (hcard : -((S c).card : Int) + d = -(M.card : Int)) {s' : SerialInstance} (hu : s'.unsatClauses = s.unsatClauses)
    (hl : s'.unsatClausesLocation = s.unsatClausesLocation.modify c (· + d)) : Tracks F (Function.update S c M) s' := by
  constructor
  · rw [hu, hl]
    refine h.unsat.congr (fun b => ?_) (fun b hb => ?_)
    · rcases eq_or_ne b c with rfl | hbc
      · simp [hne, hM]
      · simp [hbc]
    · have hbc : b ≠ c := fun e => hne (by rw [← e]; exact hb.2)
      rw [Vec.get_modify, if_neg hbc]
  · intro b hb hbS
    rw [hl, Vec.get_modify]
    rcases eq_or_ne b c with rfl | hbc
    · rw [if_pos rfl, Function.update_self, h.sat b hb hne]
      exact hcard
    · rw [Function.update_of_ne hbc] at hbS ⊢
      rw [if_neg hbc]
      exact h.sat b hb hbS

/-- The break loop meets a clause: one counted occurrence of `-l` goes. -/
theorem Tracks.breakClause (h : Tracks F S s) (hc : F.InRange c) (hm : -l ∈ S c) :
    Tracks F (Function.update S c ((S c).erase (-l))) (breakClause B F l s c) := by
  have hne : S c ≠ 0 := fun e => Multiset.notMem_zero (-l) (e ▸ hm)
  have hcard := Multiset.card_erase_add_one hm
  have hloc := h.sat c hc hne
  have hlist := breakClause_list B F l s c
  rw [if_neg (fun h0 => hne ((h.location_nonneg hc).1 h0))] at hlist
  split at hlist
  · rename_i h1
    obtain ⟨e1, e2⟩ := Prod.mk.inj hlist
    have hz : (S c).erase (-l) = 0 := Multiset.card_eq_zero.1 (by omega)
    rw [hz]
    exact (h.makeClauseUnsat hc hne).of_list e1 e2
  · rename_i h1
    obtain ⟨e1, e2⟩ := Prod.mk.inj hlist
    refine h.recount hne (fun hz => ?_) (by omega) e1 e2
    rw [hz, Multiset.card_zero] at hcard
    omega

/-- The make loop meets a clause: one counted occurrence of `l` comes. -/
theorem Tracks.makeClause (h : Tracks F S s) (hc : F.InRange c) :
    Tracks F (Function.update S c (l ::ₘ S c)) (makeClause B F l s c) := by
  have hlist := makeClause_list B F l s c
  split at hlist
  · rename_i h0
    obtain ⟨e1, e2⟩ := Prod.mk.inj hlist
    have hz := (h.location_nonneg hc).1 h0
    rw [hz]
    exact (h.makeClauseSat hc hz).of_list e1 e2
  · rename_i h0
    obtain ⟨e1, e2⟩ := Prod.mk.inj hlist
    refine h.recount (fun e => h0 ((h.location_nonneg hc).2 e)) (Multiset.cons_ne_zero) ?_ e1 e2
    rw [Multiset.card_cons]
    omega

end Rounds

/-! ## The loops of `flip_literal` -/

section Loops

variable (F : CnfFormula) (a : Int → Bool) (l : Int)

/-- The counted literals while the break loop has `rem` left: those true under `a`, but only the
occurrences of `-l` still to be met. -/
def BreakInv (rem : List Int) (S : Int → Multiset Int) : Prop :=
  ∀ c, F.InRange c → (S c).filter (· ≠ -l) = (trueLitsOf F a c).filter (· ≠ -l) ∧ (S c).count (-l) = rem.count c ∧
    rem.count c ≤ (F.getClause c).count (-l)

/-- The counted literals while the make loop has `rem` left: those true under `a` other than `-l`,
and the occurrences of `l` already met. -/
def MakeInv (rem : List Int) (S : Int → Multiset Int) : Prop :=
  ∀ c, F.InRange c → ∃ j, S c = (trueLitsOf F a c).filter (· ≠ -l) + Multiset.replicate j l ∧
    j + rem.count c = (F.getClause c).count l

variable {F a l} {σ : Type}

/-- What every round of the break loop preserves, the loop preserves. -/
theorem break_loop {P : (Int → Multiset Int) → σ → Prop} {f : σ → Int → σ}
    (hstep : ∀ rem S s c, P S s → F.InRange c → BreakInv F a l (c :: rem) S → -l ∈ S c →
      P (Function.update S c ((S c).erase (-l))) (f s c)) :
    ∀ rem S s, (∀ c ∈ rem, F.InRange c) → BreakInv F a l rem S → P S s →
      ∃ S', BreakInv F a l [] S' ∧ P S' (rem.foldl f s)
  | [], S, s, _, hI, hP => ⟨S, hI, hP⟩
  | c :: rem, S, s, hr, hI, hP => by
    have hc := hr c (List.mem_cons_self ..)
    have hm : -l ∈ S c := Multiset.one_le_count_iff_mem.1 (by rw [(hI c hc).2.1, List.count_cons_self]; omega)
    refine break_loop hstep rem _ _ (fun d hd => hr d (List.mem_cons_of_mem _ hd)) ?_ (hstep rem S s c hP hc hI hm)
    intro d hd
    obtain ⟨h1, h2, h3⟩ := hI d hd
    rcases eq_or_ne d c with rfl | hdc
    · rw [List.count_cons_self] at h3
      rw [Function.update_self, ← h1, Multiset.count_erase_self, h2, List.count_cons_self]
      refine ⟨?_, by omega, by omega⟩
      ext x
      rw [Multiset.count_filter, Multiset.count_filter]
      split
      · rename_i hx; exact Multiset.count_erase_of_ne hx _
      · rfl
    · rw [Function.update_of_ne hdc]
      rw [List.count_cons_of_ne (Ne.symm hdc)] at h2 h3
      exact ⟨h1, h2, h3⟩

/-- What every round of the make loop preserves, the loop preserves. -/
theorem make_loop {P : (Int → Multiset Int) → σ → Prop} {f : σ → Int → σ}
    (hstep : ∀ rem S s c, P S s → F.InRange c → MakeInv F a l (c :: rem) S →
      P (Function.update S c (l ::ₘ S c)) (f s c)) :
    ∀ rem S s, (∀ c ∈ rem, F.InRange c) → MakeInv F a l rem S → P S s →
      ∃ S', MakeInv F a l [] S' ∧ P S' (rem.foldl f s)
  | [], S, s, _, hI, hP => ⟨S, hI, hP⟩
  | c :: rem, S, s, hr, hI, hP => by
    have hc := hr c (List.mem_cons_self ..)
    refine make_loop hstep rem _ _ (fun d hd => hr d (List.mem_cons_of_mem _ hd)) ?_ (hstep rem S s c hP hc hI)
    intro d hd
    obtain ⟨j, h1, h2⟩ := hI d hd
    rcases eq_or_ne d c with rfl | hdc
    · rw [List.count_cons_self] at h2
      refine ⟨j + 1, ?_, by omega⟩
      rw [Function.update_self, h1, Multiset.replicate_succ, Multiset.add_cons]
    · rw [List.count_cons_of_ne (Ne.symm hdc)] at h2
      exact ⟨j, by rw [Function.update_of_ne hdc, h1], h2⟩

/-- Both loops together: what their rounds preserve holds afterwards for counted literals that are,
in every clause, the true ones once the variable of `l` is flipped. -/
theorem flip_loops {P : (Int → Multiset Int) → σ → Prop} {f g : σ → Int → σ} {s : σ}
    (h0 : l ≠ 0) (hl : litTrue a l = false) (hx : F.ExactAt (varIndex l))
    (hbreak : ∀ rem S s c, P S s → F.InRange c → BreakInv F a l (c :: rem) S → -l ∈ S c →
      P (Function.update S c ((S c).erase (-l))) (f s c))
    (hmake : ∀ rem S s c, P S s → F.InRange c → MakeInv F a l (c :: rem) S →
      P (Function.update S c (l ::ₘ S c)) (g s c))
    (hP : P (trueLitsOf F a) s) :
    ∃ S, (∀ c, F.InRange c → S c = trueLitsOf F (flipVar a (varIndex l)) c) ∧
      P S ((flipRanges F l).2.foldl g ((flipRanges F l).1.foldl f s)) := by
  obtain ⟨hr, hcount⟩ := CnfFormula.flipRanges_exact h0 hx
  have hneg : litTrue a (-l) = true := by rw [litTrue_neg a h0, hl]; rfl
  obtain ⟨S₁, hS₁, hP₁⟩ := break_loop hbreak (flipRanges F l).1 (trueLitsOf F a) s (fun c hc => hr c (Or.inl hc))
    (fun c hc => ⟨rfl, by rw [trueLitsOf, count_trueLits, if_pos hneg, (hcount c hc).1], (hcount c hc).1.le⟩) hP
  have hS₁' : ∀ c, F.InRange c → S₁ c = (trueLitsOf F a c).filter (· ≠ -l) := by
    intro c hc
    obtain ⟨h1, h2, -⟩ := hS₁ c hc
    rw [← h1, eq_comm, Multiset.filter_eq_self]
    rintro x hx rfl
    exact Multiset.count_eq_zero.1 h2 hx
  obtain ⟨S₂, hS₂, hP₂⟩ := make_loop hmake (flipRanges F l).2 S₁ _ (fun c hc => hr c (Or.inr hc))
    (fun c hc => ⟨0, by rw [hS₁' c hc, Multiset.replicate_zero, add_zero], by rw [(hcount c hc).2, zero_add]⟩) hP₁
  refine ⟨S₂, fun c hc => ?_, hP₂⟩
  obtain ⟨j, h1, h2⟩ := hS₂ c hc
  rw [List.count_nil, add_zero] at h2
  rw [h1, h2]
  exact (trueLits_flipVar h0 hl _).symm

end Loops

/-! ## One flip -/

/-- Counted literals matter only for the clauses of the formula. -/
theorem Tracks.congr {S S' : Int → Multiset Int} {s : SerialInstance} (h : Tracks F S s)
    (hS : ∀ c, F.InRange c → S' c = S c) : Tracks F S' s where
  unsat := h.unsat.congr (fun c => and_congr_right fun hc => by rw [hS c hc]) fun _ _ => rfl
  sat c hc hne := by rw [hS c hc] at hne ⊢; exact h.sat c hc hne

/-- The assignment has a value for every variable, and its pending write is to one of them. -/
structure HasAssignment (F : CnfFormula) (b : Bitfield) : Prop where
  length : b.length = F.numVariables
  wf : b.WF

/-- Between two flips: the list and the locations are those of the current assignment. -/
structure ListInv (F : CnfFormula) (s : SerialInstance) : Prop where
  assigned : HasAssignment F s.belegung
  tracks : Tracks F (trueLitsOf F s.assignment) s

theorem trueLitsOf_congr (hw : F.WellFormed) {a b : Int → Bool}
    (h : ∀ v, 0 ≤ v → v < F.numVariables → a v = b v) {c : Int} (hc : F.InRange c) :
    trueLitsOf F a c = trueLitsOf F b c :=
  trueLits_congr fun l hl => by
    obtain ⟨h0, h1⟩ := hw.isLiteral hc hl
    exact h _ (varIndex_nonneg h0) h1

/-- The loops leave the assignment as it was. -/
theorem foldl_frame {f : SerialInstance → Int → SerialInstance}
    (hf : ∀ s c, (f s c).belegung = s.belegung ∧ (f s c).numFlipsDone = s.numFlipsDone) :
    ∀ (cs : List Int) (s : SerialInstance),
      (cs.foldl f s).belegung = s.belegung ∧ (cs.foldl f s).numFlipsDone = s.numFlipsDone
  | [], _ => ⟨rfl, rfl⟩
  | c :: cs, s => by
    obtain ⟨h1, h2⟩ := foldl_frame hf cs (f s c)
    exact ⟨h1.trans (hf s c).1, h2.trans (hf s c).2⟩

/-- The state of `flip_literal` after its loops. -/
def afterLoops (B : Build) (F : CnfFormula) (s : SerialInstance) (l : Int) : SerialInstance :=
  (flipRanges F l).2.foldl (makeClause B F l) ((flipRanges F l).1.foldl (breakClause B F l) s)

theorem afterLoops_frame (B : Build) (F : CnfFormula) (s : SerialInstance) (l : Int) :
    (afterLoops B F s l).belegung = s.belegung ∧ (afterLoops B F s l).numFlipsDone = s.numFlipsDone := by
  obtain ⟨h1, h2⟩ := foldl_frame (makeClause_frame B F l) (flipRanges F l).2
    ((flipRanges F l).1.foldl (breakClause B F l) s)
  obtain ⟨k1, k2⟩ := foldl_frame (breakClause_frame B F l) (flipRanges F l).1 s
  exact ⟨h1.trans k1, h2.trans k2⟩

theorem flipLiteral_eq (B : Build) (F : CnfFormula) (s : SerialInstance) (l : Int) :
    flipLiteral B F s l =
      { afterLoops B F s l with
        belegung := ((afterLoops B F s l).belegung.access (varIndex l)).assign (varIndex l)
          (!((afterLoops B F s l).belegung.access (varIndex l)).lastModValue) } := rfl

theorem HasAssignment.flip {b : Bitfield} (h : HasAssignment F b) {v : Int} (h0 : 0 ≤ v) (hv : v < F.numVariables) :
    HasAssignment F ((b.access v).assign v (!(b.access v).lastModValue)) ∧
      ∀ w, w < F.numVariables → ((b.access v).assign v (!(b.access v).lastModValue)).read w = flipVar b.read v w := by
  have hv' : v < b.length := by rw [h.length]; exact hv
  have hva : v < (b.access v).length := by rw [Bitfield.length_access]; exact hv'
  refine ⟨⟨by rw [Bitfield.length_assign, Bitfield.length_access, h.length], .assign h0 hva _⟩, fun w hw => ?_⟩
  rw [Bitfield.read_assign (.access h0 hv') _ (by rw [Bitfield.length_access, h.length]; exact hw),
    Bitfield.lastModValue_access h.wf hv', Bitfield.read_access h.wf (by rw [h.length]; exact hw)]
  rfl

/-- `flip_literal` flips the variable of its literal and nothing else. -/
theorem flipLiteral_assignment (B : Build) {s : SerialInstance} (h : HasAssignment F s.belegung) {l : Int}
    (hl : F.IsLiteral l) :
    HasAssignment F (flipLiteral B F s l).belegung ∧
      ∀ w, w < F.numVariables → (flipLiteral B F s l).assignment w = flipVar s.assignment (varIndex l) w := by
  have := h.flip (varIndex_nonneg hl.1) hl.2
  rw [flipLiteral_eq]
  unfold assignment
  simp only [(afterLoops_frame B F s l).1]
  exact this

/-- One flip of a false literal keeps the list and the locations right, if the index is exact at its
variable. -/
theorem ListInv.flipLiteral (hw : F.WellFormed) (B : Build) {s : SerialInstance} (h : ListInv F s) {l : Int}
    (hl : F.IsLiteral l) (hf : litTrue s.assignment l = false) (hx : F.ExactAt (varIndex l)) :
    ListInv F (flipLiteral B F s l) := by
  obtain ⟨hasg, hread⟩ := flipLiteral_assignment B h.assigned hl
  obtain ⟨S, hS, hT⟩ := flip_loops (P := Tracks F) (f := breakClause B F l) (g := makeClause B F l) hl.1 hf hx
    (fun rem S s c hT hc _ hm => hT.breakClause B hc hm) (fun rem S s c hT hc _ => hT.makeClause B hc) h.tracks
  refine ⟨hasg, (hT.of_list rfl rfl : Tracks F S (SerialInstance.flipLiteral B F s l)).congr fun c hc => ?_⟩
  rw [hS c hc]
  exact trueLitsOf_congr hw (fun v _ hv => hread v hv) hc

/-! ## Reading clauses through the solver -/

theorem numSatLitInClause_eq (hw : F.WellFormed) (s : SerialInstance) {c : Int} (hc : F.InRange c) :
    s.getNumSatLitInClause F c = (trueLitsOf F s.assignment c).card := by
  unfold getNumSatLitInClause numSatLitInClause trueLitsOf
  rw [hw.seen hc, card_trueLits]
  rfl

/-- `get_first_satisfied_literal` finds a literal exactly when there is a true one. -/
theorem isClauseSatisfied_eq (hw : F.WellFormed) (s : SerialInstance) {c : Int} (hc : F.InRange c) :
    s.isClauseSatisfied (F.getClause c) = clauseSat s.assignment (F.getClause c) := by
  unfold isClauseSatisfied getFirstSatisfiedLiteral clauseSat
  rw [hw.seen hc]
  have hp : ∀ x ∈ F.getClause c, (0 != x && litTrue s.belegung.read x) = litTrue s.assignment x := by
    intro x hx
    have : (0 != x) = true := by
      rw [bne_iff_ne]
      exact (hw.isLiteral hc hx).1.symm
    rw [this, Bool.true_and]
    rfl
  cases hfind : (F.getClause c).find? fun lit => 0 != lit && litTrue s.belegung.read lit with
  | none =>
    rw [List.find?_eq_none] at hfind
    rw [eq_comm, Option.getD_none, bne_self_eq_false, List.any_eq_false]
    exact fun x hx => by rw [← hp x hx]; exact hfind x hx
  | some x =>
    have hx := List.mem_of_find?_eq_some hfind
    have ht := List.find?_some hfind
    rw [hp x hx] at ht
    rw [Option.getD_some, eq_comm, List.any_eq_true.2 ⟨x, hx, ht⟩, eq_comm, bne_iff_ne]
    exact (hw.isLiteral hc hx).1.symm

theorem checkAssignment_iff (hw : F.WellFormed) (s : SerialInstance) :
    s.checkAssignment F = true ↔ ∀ c, F.InRange c → clauseSat s.assignment (F.getClause c) = true := by
  unfold checkAssignment
  rw [List.all_eq_true]
  constructor
  · intro h c hc
    have hm : c.toNat ∈ List.range F.clauses.length := by
      obtain ⟨h0, h1⟩ := hc
      unfold CnfFormula.numClauses at h1
      exact List.mem_range.2 (by omega)
    have := h _ hm
    rwa [Int.toNat_of_nonneg hc.1, isClauseSatisfied_eq hw s hc] at this
  · intro h i hi
    have hc : F.InRange i := ⟨by omega, by have := List.mem_range.1 hi; unfold CnfFormula.numClauses; omega⟩
    rw [isClauseSatisfied_eq hw s hc]
    exact h i hc

/-! ## Construction -/

/-- The loop of `initialize` has treated the clauses below `n`. -/
structure TracksBelow (F : CnfFormula) (n : Int) (S : Int → Multiset Int) (s : SerialInstance) : Prop where
  unsat : Positions (fun c => (0 ≤ c ∧ c < n) ∧ S c = 0) s.unsatClauses s.unsatClausesLocation.get
  sat : ∀ c, 0 ≤ c → c < n → S c ≠ 0 → s.unsatClausesLocation.get c = -((S c).card : Int)

/-- What every round of the loop preserves holds of the constructed instance. -/
theorem init_loop {B : Build} {s : SerialInstance} {P : Nat → SerialInstance → Prop} (h0 : P 0 s)
    (hstep : ∀ (i : Nat) s, i < F.clauses.length → P i s → P (i + 1) (initClause B F s i)) :
    P F.clauses.length (initializeInstance B F s) :=
  foldl_range h0 hstep

theorem initClause_frame (B : Build) (F : CnfFormula) (s : SerialInstance) (c : Int) :
    (initClause B F s c).belegung = s.belegung ∧ (initClause B F s c).numFlipsDone = s.numFlipsDone := by
  unfold initClause
  simp only
  split_ifs <;> simp

theorem initClause_list (B : Build) (F : CnfFormula) (s : SerialInstance) (c : Int) :
    ((initClause B F s c).unsatClauses, (initClause B F s c).unsatClausesLocation) =
      if s.getNumSatLitInClause F c = 0 then
        ((s.makeClauseUnsat c).unsatClauses, (s.makeClauseUnsat c).unsatClausesLocation)
      else (s.unsatClauses, s.unsatClausesLocation.set c (-(s.getNumSatLitInClause F c : Int))) := by
  unfold initClause
  simp only
  split_ifs <;> simp_all

theorem TracksBelow.initClause (hw : F.WellFormed) (B : Build) {i : Nat} {s : SerialInstance}
    (hi : i < F.clauses.length) (h : TracksBelow F i (trueLitsOf F s.assignment) s) :
    TracksBelow F (i + 1 : Nat) (trueLitsOf F s.assignment) (initClause B F s i) := by
  have hc : F.InRange i := ⟨by omega, by unfold CnfFormula.numClauses; omega⟩
  have hlist := initClause_list B F s i
  rw [numSatLitInClause_eq hw s hc] at hlist
  split at hlist
  · rename_i h0
    obtain ⟨e1, e2⟩ := Prod.mk.inj hlist
    have hz := Multiset.card_eq_zero.1 h0
    constructor
    · rw [e1, e2]
      refine h.unsat.push (a := (i : Int)) (fun hb => by omega) (fun b => ?_) (fun b => Vec.get_set ..)
      rcases eq_or_ne b i with rfl | hb
      · simp [hz]
      · have : b ≤ i ↔ b < i := by omega
        simp [this, hb]
    · intro b hb0 hb1 hne
      have hb : b ≠ i := by rintro rfl; exact hne hz
      rw [e2]
      exact (Vec.get_set_ne _ _ hb).trans (h.sat b hb0 (by omega) hne)
  · rename_i h0
    obtain ⟨e1, e2⟩ := Prod.mk.inj hlist
    have hz : trueLitsOf F s.assignment i ≠ 0 := fun e => h0 (by rw [e, Multiset.card_zero])
    constructor
    · rw [e1, e2]
      refine h.unsat.congr (fun b => ?_) (fun b hb => Vec.get_set_ne _ _ (by omega))
      rcases eq_or_ne b i with rfl | hb
      · simp [hz]
      · have : b ≤ i ↔ b < i := by omega
        simp [this]
    · intro b hb0 hb1 hne
      rw [e2]
      rcases eq_or_ne b i with rfl | hb
      · exact Vec.get_set_self ..
      · exact (Vec.get_set_ne _ _ hb).trans (h.sat b hb0 (by omega) hne)

/-- The state the constructor starts its loop in. -/
def constructed (B : Build) (F : CnfFormula) (mem : Memory) (initialConfig : Bitfield) : SerialInstance :=
  { belegung := .copy mem.member (.copy mem.parameter initialConfig)
    unsatClauses := .reserved mem.unsatClauses
    unsatClausesLocation := .reserved mem.unsatClausesLocation
    numFlipsDone := 0
    numBreaksByFlip := .filled (if B.caching then F.numVars.toNat else 0) 0
    critLiteralInClause := .filled (if B.useCritLiteralCaching then F.clauses.length else 0) 0 }

theorem new_eq (B : Build) (F : CnfFormula) (mem : Memory) (initialConfig : Bitfield) :
    new B F mem initialConfig = initializeInstance B F (constructed B F mem initialConfig) := rfl

theorem new_frame (B : Build) (F : CnfFormula) (mem : Memory) (initialConfig : Bitfield) :
    (new B F mem initialConfig).belegung = .copy mem.member (.copy mem.parameter initialConfig) ∧
      (new B F mem initialConfig).numFlipsDone = 0 := by
  rw [new_eq]
  refine init_loop (P := fun _ s => s.belegung = .copy mem.member (.copy mem.parameter initialConfig) ∧
    s.numFlipsDone = 0) ⟨rfl, rfl⟩ fun i s _ h => ?_
  obtain ⟨h1, h2⟩ := initClause_frame B F s i
  exact ⟨h1.trans h.1, h2.trans h.2⟩

theorem new_numFlips (B : Build) (F : CnfFormula) (mem : Memory) (initialConfig : Bitfield) :
    (new B F mem initialConfig).getNumFlips = 0 := by
  rw [getNumFlips]
  exact (new_frame B F mem initialConfig).2

/-- A new instance starts from the given assignment. -/
theorem new_assignment {B : Build} {mem : Memory} {config : Bitfield} (hc : HasAssignment F config) :
    HasAssignment F (new B F mem config).belegung ∧
      ∀ v, 0 ≤ v → v < F.numVariables → (new B F mem config).assignment v = config.read v := by
  unfold assignment
  rw [(new_frame B F mem config).1]
  refine ⟨⟨hc.length, (hc.wf.copy _).copy _⟩, fun v h0 hv => ?_⟩
  have hv' : v < config.length := by rw [hc.length]; exact hv
  exact (Bitfield.read_copy _ (.copy _ config) h0 hv').trans (Bitfield.read_copy _ config h0 hv')

/-- Before the loop of the constructor the list is empty. -/
theorem TracksBelow.constructed (B : Build) (F : CnfFormula) (mem : Memory) (config : Bitfield)
    (S : Int → Multiset Int) :
    TracksBelow F (0 : Nat) S (constructed B F mem config) :=
  ⟨Positions.empty (fun c hc => by omega) rfl, fun c h0 h1 => by omega⟩

theorem ListInv.new (hw : F.WellFormed) (B : Build) (mem : Memory) {config : Bitfield}
    (hc : HasAssignment F config) : ListInv F (new B F mem config) := by
  refine ⟨(new_assignment hc).1, ?_⟩
  have h := init_loop (B := B) (F := F) (s := SerialInstance.constructed B F mem config)
    (P := fun i s => TracksBelow F i (trueLitsOf F s.assignment) s) (.constructed B F mem config _)
    (fun i s hi h => by
      have hb : (initClause B F s i).assignment = s.assignment := by
        unfold assignment; rw [(initClause_frame B F s i).1]
      rw [hb]
      exact h.initClause hw B hi)
  exact ⟨h.unsat, fun c hc => h.sat c hc.1 hc.2⟩

/-! ## Whole runs -/

/-- One `do_flip` with any literal of the picked clause. -/
inductive FlipStep (B : Build) (F : CnfFormula) : SerialInstance → SerialInstance → Prop
  | flip (s : SerialInstance) (rlit : Int) (hrun : s.foundSolution = false) (hmem : rlit ∈ s.pickedClause F) :
    FlipStep B F s (flipChosen B F s rlit)

/-- The states a run reaches from a newly constructed instance. -/
def Reached (B : Build) (F : CnfFormula) (mem : Memory) (config : Bitfield) (s : SerialInstance) : Prop :=
  Relation.ReflTransGen (FlipStep B F) (new B F mem config) s

/-- The list holds exactly the clauses without a true literal, each once; the locations are the
positions of these, and minus the number of true literal occurrences of the others. -/
structure UnsatListExact (F : CnfFormula) (s : SerialInstance) : Prop where
  mem : ∀ c, c ∈ s.unsatClauses.toList ↔ F.InRange c ∧ (F.getClause c).countP (litTrue s.assignment) = 0
  nodup : s.unsatClauses.toList.Nodup
  position : ∀ c, F.InRange c → (F.getClause c).countP (litTrue s.assignment) = 0 →
    ∃ p : Nat, s.unsatClausesLocation.get c = p ∧ s.unsatClauses.toList[p]? = some c
  count : ∀ c, F.InRange c → (F.getClause c).countP (litTrue s.assignment) ≠ 0 →
    s.unsatClausesLocation.get c = -((F.getClause c).countP (litTrue s.assignment) : Int)

theorem ListInv.exact {s : SerialInstance} (h : ListInv F s) : UnsatListExact F s := by
  have hz : ∀ c, trueLitsOf F s.assignment c = 0 ↔ (F.getClause c).countP (litTrue s.assignment) = 0 := fun c => by
    rw [← card_trueLits, Multiset.card_eq_zero]; rfl
  refine ⟨fun c => ?_, h.tracks.unsat.nodup, fun c hc h0 => ?_, fun c hc hne => ?_⟩
  · rw [h.tracks.unsat.mem_toList, hz]
  · obtain ⟨k0, k1, k2⟩ := h.tracks.unsat.member c ⟨hc, (hz c).2 h0⟩
    refine ⟨(s.unsatClausesLocation.get c).toNat, (Int.toNat_of_nonneg k0).symm, ?_⟩
    rw [Vec.getElem?_toList, if_pos (by omega), Int.toNat_of_nonneg k0, k2]
  · rw [← card_trueLits]
    exact h.tracks.sat c hc fun e => hne ((hz c).1 e)

theorem UnsatListExact.foundSolution_iff (hw : F.WellFormed) {s : SerialInstance} (h : UnsatListExact F s) :
    s.foundSolution = true ↔ s.checkAssignment F = true := by
  have hz : ∀ c, clauseSat s.assignment (F.getClause c) = true ↔
      (F.getClause c).countP (litTrue s.assignment) ≠ 0 := fun c => by
    rw [clauseSat_iff, ← card_trueLits, ne_eq, ne_eq, Multiset.card_eq_zero]
  rw [checkAssignment_iff hw, foundSolution, beq_iff_eq, ← Vec.toList_eq_nil, List.eq_nil_iff_forall_not_mem]
  constructor
  · exact fun hn c hc => (hz c).2 fun h0 => hn c ((h.mem c).2 ⟨hc, h0⟩)
  · intro hs c hc
    obtain ⟨hr, h0⟩ := (h.mem c).1 hc
    exact (hz c).1 (hs c hr) h0

/-- The clause `do_flip` picks is a clause of the formula without a true literal. -/
theorem ListInv.picked {s : SerialInstance} (h : ListInv F s) (hrun : s.foundSolution = false) :
    F.InRange s.getIndexOfRandomUnsatisfiedClause ∧ ∀ l ∈ s.pickedClause F, litTrue s.assignment l = false := by
  have hpos : 0 < s.unsatClauses.size := by
    rcases Nat.eq_zero_or_pos s.unsatClauses.size with h0 | h0
    · rw [foundSolution, h0] at hrun; cases hrun
    · exact h0
  obtain ⟨⟨hr, hz⟩, -⟩ := h.tracks.unsat.entry (s.numFlipsDone % s.unsatClauses.size : Nat) (by omega)
    (by have := Nat.mod_lt s.numFlipsDone hpos; omega)
  refine ⟨hr, fun l hl => ?_⟩
  by_contra hne
  exact Multiset.notMem_zero l (hz ▸ mem_trueLits.2 ⟨hl, by simpa using hne⟩)

theorem flipChosen_eq (B : Build) (F : CnfFormula) (s : SerialInstance) (l : Int) :
    flipChosen B F s l = { flipLiteral B F s l with numFlipsDone := s.numFlipsDone + 1 } := by
  have : (flipLiteral B F s l).numFlipsDone = s.numFlipsDone := by
    rw [flipLiteral_eq]
    exact (afterLoops_frame B F s l).2
  simp only [flipChosen, this]

theorem doFlip_numFlips {K : Type} [Zero K] [Add K] [LT K] [DecidableLT K] (B : Build) (F : CnfFormula)
    (calcF : Int → K)
    (rand : K → K) (s : SerialInstance) : (doFlip B F calcF rand s).getNumFlips = s.getNumFlips + 1 := by
  unfold doFlip
  rw [flipChosen_eq]
  rfl

/-- One step of a run whose literal is about a variable at which the index is exact. -/
theorem ListInv.flipChosen (hw : F.WellFormed) (B : Build) {s : SerialInstance} (h : ListInv F s)
    (hrun : s.foundSolution = false) {l : Int} (hl : l ∈ s.pickedClause F) (hx : F.ExactAt (varIndex l)) :
    ListInv F (flipChosen B F s l) := by
  obtain ⟨hr, hf⟩ := h.picked hrun
  have := h.flipLiteral hw B (hw.isLiteral hr hl) (hf l hl) hx
  exact ⟨this.assigned, this.tracks.of_list rfl rfl⟩

theorem listInv_reached (F : ExactFormula) {B : Build} {mem : Memory} {config : Bitfield} {s : SerialInstance}
    (hc : HasAssignment F.toCnfFormula config) (h : Reached B F.toCnfFormula mem config s) :
    ListInv F.toCnfFormula s := by
  induction h with
  | refl => exact .new F.wellFormed B mem hc
  | tail _ hstep ih =>
    cases hstep with
    | flip l hrun hl =>
      have hlit := F.wellFormed.isLiteral (ih.picked hrun).1 hl
      exact ih.flipChosen F.wellFormed B hrun hl (F.exact _ (varIndex_nonneg hlit.1) hlit.2)

/-- In every state a run reaches, in every build, the list of unsatisfied clauses is exact, and the
solver has found a solution exactly when its assignment satisfies every clause. -/
theorem unsatList_exact_in_every_run (F : ExactFormula) (B : Build) (mem : Memory) (config : Bitfield)
    (hc : HasAssignment F.toCnfFormula config) (s : SerialInstance) (h : Reached B F.toCnfFormula mem config s) :
    UnsatListExact F.toCnfFormula s ∧ (s.foundSolution = true ↔ s.checkAssignment F.toCnfFormula = true) := by
  have hx := (listInv_reached F hc h).exact
  exact ⟨hx, hx.foundSolution_iff F.wellFormed⟩

/-- Two clauses, one of them with a repeated and a complementary literal. -/
def uncleanFormula : CnfFormula where
  numVariables := 2
  clauses := [[1], [-1, 2, 2, -2]]
  index := .plain ⟨2, fun v => if v = 0 then ([1], [0]) else ([1], [1, 1])⟩
  maxNumBreaksPossible := 2

theorem uncleanFormula_wellFormed : uncleanFormula.WellFormed := ⟨by decide, by decide, by decide⟩

def uncleanExact : ExactFormula where
  toCnfFormula := uncleanFormula
  wellFormed := uncleanFormula_wellFormed
  exact v h0 hv := by
    change v < 2 at hv
    apply exactAt_of_iterators uncleanFormula_wellFormed
    interval_cases v <;> decide

/-- A run of one flip on it, from the assignment that makes every variable false. -/
def uncleanRun : SerialInstance :=
  flipChosen ⟨true, true, true⟩ uncleanFormula (new ⟨true, true, true⟩ uncleanFormula ⟨0, 0, 0, 0⟩ ⟨2, 2, false, 0⟩) 1

theorem unsatList_exact_in_uncleanRun : UnsatListExact uncleanFormula uncleanRun ∧
    (uncleanRun.foundSolution = true ↔ uncleanRun.checkAssignment uncleanFormula = true) :=
  unsatList_exact_in_every_run uncleanExact ⟨true, true, true⟩ ⟨0, 0, 0, 0⟩ ⟨2, 2, false, 0⟩
    ⟨rfl, by decide, by decide⟩ _
    (.single (.flip _ 1 (by decide) (by decide)))

end SerialInstance

end ParallelProbsat.Sat
