/-
A queue served in turn: whoever stands at its front gets what it demands or what is left, whichever is
less, and the next one is served only when something is left. A demand may be without bound.
-/
import Mathlib.Tactic
import Mathlib.Data.ENat.Basic

namespace ParallelProbsat.Lib

variable {α : Type}

/-- What a demand of `d` gets when `r` is left. -/
noncomputable def share (r : ℕ) (d : ℕ∞) : ℕ := (min (r : ℕ∞) d).toNat

/-- Who gets how much of `r`, in the order of the queue. -/
noncomputable def allot (demand : α → ℕ∞) : ℕ → List α → List (α × ℕ)
  | _, [] => []
  | r, a :: q => if r = 0 then [] else (a, share r (demand a)) :: allot demand (r - share r (demand a)) q

variable {demand : α → ℕ∞} {r : ℕ} {q : List α}

theorem coe_share (r : ℕ) (d : ℕ∞) : (share r d : ℕ∞) = min (r : ℕ∞) d :=
  ENat.natCast_toNat (ne_top_of_le_ne_top (ENat.natCast_ne_top r) (min_le_left _ _))

theorem share_le (r : ℕ) (d : ℕ∞) : share r d ≤ r := by
  rw [← Nat.cast_le (α := ℕ∞), coe_share]
  exact min_le_left _ _

@[simp] theorem share_top (r : ℕ) : share r ⊤ = r := by simp [share]

@[simp] theorem share_coe (r k : ℕ) : share r (k : ℕ∞) = min r k := by
  rw [← Nat.cast_inj (R := ℕ∞), coe_share]
  exact (Nat.mono_cast.map_min).symm

theorem share_eq_of_lt {d : ℕ∞} (h : share r d < r) : (share r d : ℕ∞) = d := by
  rw [coe_share]
  apply min_eq_right
  by_contra hd
  have : (share r d : ℕ∞) = r := by rw [coe_share, min_eq_left (not_le.1 hd).le]
  exact absurd (Nat.cast_inj.1 this) h.ne

@[simp] theorem allot_zero (q : List α) : allot demand 0 q = [] := by
  cases q <;> simp [allot]

theorem allot_cons (hr : r ≠ 0) (a : α) (q : List α) : allot demand r (a :: q) =
    (a, share r (demand a)) :: allot demand (r - share r (demand a)) q := by
  rw [allot, if_neg hr]

/-- Only the demands of the queue matter. -/
theorem allot_congr {demand' : α → ℕ∞} : ∀ {q : List α} {r : ℕ}, (∀ a ∈ q, demand a = demand' a) →
    allot demand r q = allot demand' r q
  | [], _, _ => rfl
  | a :: q, r, h => by
    unfold allot
    rw [h a List.mem_cons_self, allot_congr fun b hb => h b (List.mem_cons_of_mem _ hb)]

variable (demand) in
/-- The queue is served from its front, nobody is left out. -/
theorem allot_order : ∀ (r : ℕ) (q : List α), (allot demand r q).map Prod.fst <+: q
  | _, [] => List.nil_prefix
  | r, a :: q => by
    unfold allot
    split
    · exact List.nil_prefix
    · exact (List.prefix_cons_inj a).2 (allot_order _ q)

theorem allot_pos : ∀ {q : List α} {r : ℕ}, (∀ a ∈ q, demand a ≠ 0) → ∀ p ∈ allot demand r q, 0 < p.2
  | [], _, _, p, hp => absurd hp List.not_mem_nil
  | a :: q, r, h, p, hp => by
    unfold allot at hp
    split at hp
    · exact absurd hp List.not_mem_nil
    · rename_i hr
      rcases List.mem_cons.1 hp with rfl | hp
      · have hmin : 0 < min (r : ℕ∞) (demand a) :=
          lt_min (Nat.cast_pos.2 (Nat.pos_of_ne_zero hr)) (pos_iff_ne_zero.2 (h a List.mem_cons_self))
        rw [← coe_share] at hmin
        exact Nat.cast_pos.1 hmin
      · exact allot_pos (fun b hb => h b (List.mem_cons_of_mem _ hb)) p hp

/-- Everybody but the last one served gets all of its demand. -/
theorem allot_full : ∀ {q : List α} {r : ℕ} {pre post : List (α × ℕ)} {p : α × ℕ},
    allot demand r q = pre ++ p :: post → post ≠ [] → (p.2 : ℕ∞) = demand p.1
  | [], _, pre, post, p, h, _ => by
    unfold allot at h
    exact absurd h.symm (List.append_ne_nil_of_right_ne_nil _ (List.cons_ne_nil _ _))
  | a :: q, r, pre, post, p, h, hpost => by
    unfold allot at h
    split at h
    · exact absurd h.symm (List.append_ne_nil_of_right_ne_nil _ (List.cons_ne_nil _ _))
    · cases pre with
      | nil =>
        obtain ⟨rfl, hrest⟩ := List.cons.inj h
        apply share_eq_of_lt
        -- with nothing left there would be no one after the first
        rcases (share_le r (demand a)).lt_or_eq with hlt | heq
        · exact hlt
        · rw [heq, Nat.sub_self, allot_zero] at hrest
          exact absurd hrest.symm hpost
      | cons b pre => exact allot_full (List.cons.inj h).2 hpost

variable (demand) in
/-- All that is demanded is handed out, or all there is. -/
theorem allot_sum : ∀ (r : ℕ) (q : List α),
    ((((allot demand r q).map Prod.snd).sum : ℕ) : ℕ∞) = min (r : ℕ∞) (q.map demand).sum
  | r, [] => by simp [allot]
  | r, a :: q => by
    unfold allot
    split
    · rename_i hr
      simp [hr]
    · rw [List.map_cons, List.map_cons, List.sum_cons, List.sum_cons, Nat.cast_add, allot_sum _ q]
      rcases (share_le r (demand a)).lt_or_eq with hlt | heq
      · have hd := share_eq_of_lt hlt
        have hr : ((r : ℕ) : ℕ∞) = (share r (demand a) : ℕ∞) + ((r - share r (demand a) : ℕ) : ℕ∞) := by
          rw [← Nat.cast_add, Nat.add_sub_cancel' hlt.le]
        rw [← min_add_add_left, ← hr, hd]
      · have hle : (r : ℕ∞) ≤ demand a := by
          have := coe_share r (demand a)
          rw [heq] at this
          exact min_eq_left_iff.1 this.symm
        rw [heq, Nat.sub_self, Nat.cast_zero, zero_min, add_zero, min_eq_left (hle.trans le_self_add)]

/-- An unbounded demand takes all that is left, so it is the last one served. -/
theorem allot_top {pre post : List (α × ℕ)} {p : α × ℕ} (h : allot demand r q = pre ++ p :: post)
    (hp : demand p.1 = ⊤) : post = [] ∧ (pre.map Prod.snd).sum + p.2 = r := by
  have hpost : post = [] := by
    by_contra hne
    have := allot_full h hne
    rw [hp] at this
    exact ENat.natCast_ne_top _ this
  refine ⟨hpost, ?_⟩
  have hmem : p.1 ∈ q := by
    apply (allot_order demand r q).subset
    rw [h]
    simp
  have htop : (q.map demand).sum = ⊤ := top_le_iff.1 (hp ▸ List.single_le_sum (fun _ _ => bot_le) _
    (List.mem_map_of_mem hmem))
  have hsum := allot_sum demand r q
  rw [htop, min_eq_left le_top, h, hpost] at hsum
  simpa using Nat.cast_inj.1 hsum

end ParallelProbsat.Lib
