/-
Clauses over integer literals: literal `l` is about variable `|l| - 1`, counted from 0, and is
negated when `l < 0`. How the true literals of a clause change when one variable is flipped, and
which clauses break: those with exactly one true literal, when it is about that variable.
-/
import Mathlib.Tactic
import Mathlib.Data.Multiset.Filter
import Mathlib.Data.Multiset.Replicate

namespace ParallelProbsat.Lib

/-- The variable of a literal. -/
def varIndex (l : Int) : Int := (l.natAbs : Int) - 1

/-- The truth value of a literal under an assignment. -/
def litTrue (a : Int → Bool) (l : Int) : Bool := xor (decide (0 > l)) (a (varIndex l))

/-- The occurrences of true literals in a clause. -/
def trueLits (a : Int → Bool) (c : List Int) : Multiset Int := (c.filter (litTrue a) : Multiset Int)

def clauseSat (a : Int → Bool) (c : List Int) : Bool := c.any (litTrue a)

/-- The assignment with the value of `v` flipped. -/
def flipVar (a : Int → Bool) (v : Int) : Int → Bool := fun w => if w = v then !a v else a w

/-- The clause is satisfied, and is not once `v` alone is flipped. -/
def breaks (a : Int → Bool) (v : Int) (c : List Int) : Bool := clauseSat a c && !clauseSat (flipVar a v) c

/-- 1 when the only literal counted is about `v`. -/
def soleWeight (M : Multiset Int) (v : Int) : Int := if M = {v + 1} ∨ M = {-(v + 1)} then 1 else 0

/-- No variable occurs twice. -/
def Clean (c : List Int) : Prop := (c.map varIndex).Nodup

instance (c : List Int) : Decidable (Clean c) := inferInstanceAs (Decidable (List.Nodup _))

/-! ## Literals -/

theorem varIndex_nonneg {l : Int} (h : l ≠ 0) : 0 ≤ varIndex l := by unfold varIndex; omega

@[simp] theorem varIndex_neg (l : Int) : varIndex (-l) = varIndex l := by unfold varIndex; omega

theorem varIndex_eq_iff {x l : Int} : varIndex x = varIndex l ↔ x = l ∨ x = -l := by unfold varIndex; omega

/-- A literal is the positive or the negative one of its variable. -/
theorem varIndex_cases {l : Int} (h : l ≠ 0) : l < 0 ∧ -(varIndex l + 1) = l ∨ 0 < l ∧ varIndex l + 1 = l := by
  unfold varIndex; omega

theorem varIndex_eq {x v : Int} (hv : 0 ≤ v) : varIndex x = v ↔ x = v + 1 ∨ x = -(v + 1) := by
  unfold varIndex; omega

theorem litTrue_neg (a : Int → Bool) {l : Int} (h : l ≠ 0) : litTrue a (-l) = !litTrue a l := by
  unfold litTrue
  rw [varIndex_neg]
  rcases lt_or_gt_of_ne h with h1 | h1
  · simp [h1, not_lt.2 h1.le]
  · simp [h1, not_lt.2 h1.le]

theorem litTrue_pos (a : Int → Bool) {v : Int} (hv : 0 ≤ v) : litTrue a (v + 1) = a v := by
  unfold litTrue
  rw [(varIndex_eq hv).2 (Or.inl rfl), decide_eq_false (by omega), Bool.false_xor]

theorem litTrue_neg_succ (a : Int → Bool) {v : Int} (hv : 0 ≤ v) : litTrue a (-(v + 1)) = !a v := by
  rw [litTrue_neg a (by omega), litTrue_pos a hv]

theorem litTrue_flipVar (a : Int → Bool) (v l : Int) :
    litTrue (flipVar a v) l = if varIndex l = v then !litTrue a l else litTrue a l := by
  unfold litTrue flipVar
  by_cases h : varIndex l = v
  · rw [if_pos h, if_pos h, h, Bool.xor_not]
  · rw [if_neg h, if_neg h]

theorem litTrue_congr {a b : Int → Bool} {l : Int} (h : a (varIndex l) = b (varIndex l)) :
    litTrue a l = litTrue b l := by unfold litTrue; rw [h]

/-! ## True literals of a clause -/

theorem trueLits_congr {a b : Int → Bool} {c : List Int} (h : ∀ l ∈ c, a (varIndex l) = b (varIndex l)) :
    trueLits a c = trueLits b c := by
  unfold trueLits
  exact congrArg _ (List.filter_congr fun l hl => litTrue_congr (h l hl))

theorem mem_trueLits {a : Int → Bool} {c : List Int} {l : Int} :
    l ∈ trueLits a c ↔ l ∈ c ∧ litTrue a l = true := by
  unfold trueLits; rw [Multiset.mem_coe, List.mem_filter]

theorem card_trueLits (a : Int → Bool) (c : List Int) : (trueLits a c).card = c.countP (litTrue a) := by
  unfold trueLits; rw [Multiset.coe_card, List.countP_eq_length_filter]

theorem clauseSat_iff (a : Int → Bool) (c : List Int) : clauseSat a c = true ↔ trueLits a c ≠ 0 := by
  unfold clauseSat
  rw [List.any_eq_true]
  constructor
  · rintro ⟨x, hx⟩ h0
    exact Multiset.notMem_zero x (h0 ▸ mem_trueLits.2 hx)
  · intro h
    obtain ⟨x, hx⟩ := Multiset.exists_mem_of_ne_zero h
    exact ⟨x, mem_trueLits.1 hx⟩

theorem clauseSat_eq_false (a : Int → Bool) (c : List Int) : clauseSat a c = false ↔ trueLits a c = 0 := by
  rw [← Bool.not_eq_true, clauseSat_iff, not_not]

theorem count_trueLits (a : Int → Bool) (c : List Int) (l : Int) :
    (trueLits a c).count l = if litTrue a l = true then c.count l else 0 := by
  unfold trueLits
  rw [Multiset.coe_count]
  split
  · rename_i h; exact List.count_filter h
  · rename_i h
    exact List.count_eq_zero.2 fun hm => h (List.mem_filter.1 hm).2

/-- Flipping the variable of a false literal removes the opposite literal's occurrences from the
true ones and adds the literal's own. -/
theorem trueLits_flipVar {a : Int → Bool} {l : Int} (h0 : l ≠ 0) (hl : litTrue a l = false) (c : List Int) :
    trueLits (flipVar a (varIndex l)) c =
      (trueLits a c).filter (· ≠ -l) + Multiset.replicate (c.count l) l := by
  have hneg : litTrue a (-l) = true := by rw [litTrue_neg a h0, hl]; rfl
  ext x
  rw [Multiset.count_add, count_trueLits, Multiset.count_filter, Multiset.count_replicate, count_trueLits,
    litTrue_flipVar]
  by_cases hx : x = l
  · subst hx; simp [hl]
  · by_cases hx' : x = -l
    · subst hx'; simp [hneg, Ne.symm hx]
    · have : varIndex x ≠ varIndex l := fun e => (varIndex_eq_iff.1 e).elim hx hx'
      simp [this, hx', Ne.symm hx]

/-! ## Sole literals -/

@[simp] theorem soleWeight_zero (v : Int) : soleWeight 0 v = 0 :=
  if_neg (not_or.2 ⟨(Multiset.singleton_ne_zero _).symm, (Multiset.singleton_ne_zero _).symm⟩)

theorem soleWeight_singleton (x : Int) {v : Int} (hv : 0 ≤ v) :
    soleWeight {x} v = if v = varIndex x then 1 else 0 := by
  unfold soleWeight
  simp only [Multiset.singleton_inj, ← varIndex_eq hv]
  exact if_congr eq_comm rfl rfl

theorem soleWeight_of_card {M : Multiset Int} (h : M.card ≠ 1) (v : Int) : soleWeight M v = 0 := by
  unfold soleWeight
  refine if_neg ?_
  rintro (rfl | rfl)
  · exact h (Multiset.card_singleton _)
  · exact h (Multiset.card_singleton _)

/-! ## Breaking a clause -/

theorem Clean.eq_of_varIndex {c : List Int} (hc : Clean c) {x y : Int} (hx : x ∈ c) (hy : y ∈ c)
    (h : varIndex x = varIndex y) : x = y := List.inj_on_of_nodup_map hc hx hy h

theorem Clean.nodup {c : List Int} (hc : Clean c) : c.Nodup := List.Nodup.of_map _ hc

/-- In a clause without a repeated variable, a flip breaks the clause when the only true literal
is about the flipped variable. -/
theorem breaks_iff {a : Int → Bool} {c : List Int} (hc : Clean c) {v : Int} (hv : 0 ≤ v) :
    breaks a v c = true ↔ trueLits a c = {v + 1} ∨ trueLits a c = {-(v + 1)} := by
  unfold breaks
  rw [Bool.and_eq_true, Bool.not_eq_true', clauseSat_iff, clauseSat_eq_false]
  constructor
  · rintro ⟨hne, hz⟩
    have hall : ∀ x ∈ trueLits a c, varIndex x = v := by
      intro x hx
      obtain ⟨hxc, hxt⟩ := mem_trueLits.1 hx
      by_contra hxv
      have : x ∈ trueLits (flipVar a v) c := mem_trueLits.2 ⟨hxc, by rw [litTrue_flipVar, if_neg hxv, hxt]⟩
      rw [hz] at this
      exact Multiset.notMem_zero x this
    obtain ⟨x, hx⟩ := Multiset.exists_mem_of_ne_zero hne
    have hnodup : (trueLits a c).Nodup := Multiset.coe_nodup.2 (hc.nodup.filter _)
    have hsing : trueLits a c = {x} := by
      refine (Multiset.Nodup.ext hnodup (Multiset.nodup_singleton x)).2 fun y => ?_
      rw [Multiset.mem_singleton]
      constructor
      · intro hy
        exact hc.eq_of_varIndex (mem_trueLits.1 hy).1 (mem_trueLits.1 hx).1 ((hall y hy).trans (hall x hx).symm)
      · rintro rfl; exact hx
    rw [hsing]
    rcases (varIndex_eq hv).1 (hall x hx) with rfl | rfl
    · exact Or.inl rfl
    · exact Or.inr rfl
  · intro h
    obtain ⟨x, hxv, hx⟩ : ∃ x, varIndex x = v ∧ trueLits a c = {x} := by
      rcases h with h | h
      · exact ⟨_, (varIndex_eq hv).2 (Or.inl rfl), h⟩
      · exact ⟨_, (varIndex_eq hv).2 (Or.inr rfl), h⟩
    have hxm : x ∈ trueLits a c := by rw [hx]; exact Multiset.mem_singleton_self x
    refine ⟨by rw [hx]; exact Multiset.singleton_ne_zero x, Multiset.eq_zero_of_forall_notMem fun y hy => ?_⟩
    obtain ⟨hyc, hyt⟩ := mem_trueLits.1 hy
    rw [litTrue_flipVar] at hyt
    by_cases hyv : varIndex y = v
    · have : y = x := hc.eq_of_varIndex hyc (mem_trueLits.1 hxm).1 (hyv.trans hxv.symm)
      rw [if_pos hyv, this, (mem_trueLits.1 hxm).2] at hyt
      cases hyt
    · rw [if_neg hyv] at hyt
      have : y ∈ trueLits a c := mem_trueLits.2 ⟨hyc, hyt⟩
      rw [hx, Multiset.mem_singleton] at this
      exact hyv (by rw [this, hxv])

end ParallelProbsat.Lib
