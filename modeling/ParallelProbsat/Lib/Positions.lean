/-
A list without order that knows where its members are: every member of a set is in the list once,
at the position a second table gives for it. Adding a member appends it; removing one moves the
last member into the gap.
-/
import ParallelProbsat.Lib.Vec

namespace ParallelProbsat.Lib

variable {α : Type}

/-- `items` lists the members of `z`, each at the position `loc` gives for it. -/
structure Positions (z : α → Prop) (items : Vec α) (loc : α → Int) : Prop where
  entry : ∀ p : Int, 0 ≤ p → p < items.size → z (items.get p) ∧ loc (items.get p) = p
  member : ∀ a, z a → 0 ≤ loc a ∧ loc a < items.size ∧ items.get (loc a) = a

/-- The last element moves to position `p`, unless it is the one removed. -/
def Vec.swapRemove (v : Vec α) (p : Int) : Vec α :=
  if p = v.popBack.size then v.popBack else v.popBack.set p v.back

namespace Positions

variable {z z' : α → Prop} {items : Vec α} {loc loc' : α → Int}

theorem congr (h : Positions z items loc) (hz : ∀ a, z' a ↔ z a) (hl : ∀ a, z a → loc' a = loc a) :
    Positions z' items loc' where
  entry p hp hps := by
    obtain ⟨h1, h2⟩ := h.entry p hp hps
    exact ⟨(hz _).2 h1, (hl _ h1).trans h2⟩
  member a ha := by
    have ha := (hz a).1 ha
    rw [hl a ha]
    exact h.member a ha

theorem mem_toList (h : Positions z items loc) (a : α) : a ∈ items.toList ↔ z a := by
  rw [Vec.mem_toList]
  constructor
  · rintro ⟨p, hp, rfl⟩
    exact (h.entry p (by omega) (by omega)).1
  · intro ha
    obtain ⟨h0, h1, h2⟩ := h.member a ha
    exact ⟨(loc a).toNat, by omega, by rw [Int.toNat_of_nonneg h0]; exact h2⟩

/-- Two positions hold different members. -/
theorem nodup (h : Positions z items loc) : items.toList.Nodup := by
  unfold Vec.toList
  refine List.Nodup.map_on (fun p hp q hq e => ?_) List.nodup_range
  have h1 := (h.entry p (by omega) (by have := List.mem_range.1 hp; omega)).2
  have h2 := (h.entry q (by omega) (by have := List.mem_range.1 hq; omega)).2
  rw [e] at h1
  omega

theorem empty (hz : ∀ a, ¬ z a) (hs : items.size = 0) : Positions z items loc :=
  ⟨fun p _ _ => by omega, fun a ha => (hz a ha).elim⟩

variable [DecidableEq α]

/-- Appending a new member, with its position. -/
theorem push (h : Positions z items loc) {a : α} (ha : ¬ z a) (hz : ∀ b, z' b ↔ z b ∨ b = a)
    (hl : ∀ b, loc' b = if b = a then (items.size : Int) else loc b) :
    Positions z' (items.pushBack a) loc' where
  entry p hp hps := by
    rw [Vec.size_pushBack] at hps
    rw [Vec.get_pushBack]
    by_cases hpe : p = items.size
    · rw [if_pos hpe, hl, if_pos rfl]
      exact ⟨(hz a).2 (Or.inr rfl), hpe.symm⟩
    · obtain ⟨h1, h2⟩ := h.entry p hp (by omega)
      have hne : items.get p ≠ a := fun e => ha (by rw [← e]; exact h1)
      rw [if_neg hpe, hl, if_neg hne]
      exact ⟨(hz _).2 (Or.inl h1), h2⟩
  member b hb := by
    rw [Vec.size_pushBack, Vec.get_pushBack, hl]
    rcases (hz b).1 hb with h1 | rfl
    · obtain ⟨k0, k1, k2⟩ := h.member b h1
      have hne : b ≠ a := fun e => ha (e ▸ h1)
      rw [if_neg hne, if_neg (by omega)]
      exact ⟨k0, by omega, k2⟩
    · rw [if_pos rfl, if_pos rfl]
      exact ⟨by omega, by omega, rfl⟩

/-- Removing a member: the last one takes its position. -/
theorem remove (h : Positions z items loc) {a : α} (ha : z a) (hz : ∀ b, z' b ↔ z b ∧ b ≠ a)
    (hl : ∀ b, z' b → loc' b = if b = items.back then loc a else loc b) :
    Positions z' (items.swapRemove (loc a)) loc' := by
  obtain ⟨a0, a1, a2⟩ := h.member a ha
  have hlast : (0 : Int) ≤ items.size - 1 ∧ ((items.size - 1 : Int) < items.size) := by omega
  obtain ⟨b1, b2⟩ := h.entry (items.size - 1) hlast.1 hlast.2
  change z items.back at b1
  change loc items.back = items.size - 1 at b2
  have hsize : (items.swapRemove (loc a)).size = items.size - 1 := by
    unfold Vec.swapRemove; split <;> rfl
  have hget : ∀ p : Int, 0 ≤ p → p < items.size - 1 →
      (items.swapRemove (loc a)).get p = if p = loc a then items.back else items.get p := by
    intro p hp hps
    unfold Vec.swapRemove
    split
    · rename_i he
      rw [Vec.size_popBack] at he
      rw [if_neg (by omega), Vec.get_popBack]
    · rw [Vec.get_set]; rfl
  constructor
  · intro p hp hps
    rw [hsize] at hps
    rw [hget p hp (by omega)]
    by_cases hpa : p = loc a
    · have hne : items.back ≠ a := fun e => by rw [e] at b2; omega
      have hzb : z' items.back := (hz _).2 ⟨b1, hne⟩
      rw [if_pos hpa, hl _ hzb, if_pos rfl]
      exact ⟨hzb, hpa.symm⟩
    · obtain ⟨h1, h2⟩ := h.entry p hp (by omega)
      have hne : items.get p ≠ a := fun e => hpa (by rw [← h2, e])
      have hzp : z' (items.get p) := (hz _).2 ⟨h1, hne⟩
      rw [if_neg hpa, hl _ hzp, if_neg (fun e => by rw [e, b2] at h2; omega)]
      exact ⟨hzp, h2⟩
  · intro b hb
    obtain ⟨hzb, hne⟩ := (hz b).1 hb
    obtain ⟨k0, k1, k2⟩ := h.member b hzb
    rw [hl b hb, hsize]
    by_cases he : b = items.back
    · rw [if_pos he]
      have hlt : loc a < items.size - 1 := by
        rcases lt_or_eq_of_le (show loc a ≤ items.size - 1 by omega) with h1 | h1
        · exact h1
        · exact absurd (by rw [he, ← a2, h1]; rfl) hne
      rw [hget _ a0 hlt, if_pos rfl]
      exact ⟨a0, by omega, he.symm⟩
    · rw [if_neg he]
      have hlt : loc b < items.size - 1 := by
        rcases lt_or_eq_of_le (show loc b ≤ items.size - 1 by omega) with h1 | h1
        · exact h1
        · exact absurd (by rw [← k2, h1]; rfl) he
      rw [hget _ k0 hlt, if_neg (fun e => hne (by rw [← k2, e, a2]))]
      exact ⟨k0, by omega, k2⟩

end Positions

end ParallelProbsat.Lib
