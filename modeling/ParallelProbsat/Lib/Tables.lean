/-
Lists as tables of rows: one row is changed at a time, and a column is added up.
-/
import Mathlib.Tactic

namespace ParallelProbsat.Lib

variable {α M : Type}

/-- The rows after one of them was changed. -/
theorem getElem?_modify_some {l : List α} {i p : Nat} {f : α → α} {b : α} (h : (l.modify i f)[p]? = some b) :
    ∃ a, l[p]? = some a ∧ ((i = p ∧ b = f a) ∨ (i ≠ p ∧ b = a)) := by
  by_cases hi : i = p
  · subst hi
    rw [List.getElem?_modify_eq] at h
    obtain ⟨a, ha, rfl⟩ := Option.map_eq_some_iff.1 h
    exact ⟨a, ha, .inl ⟨rfl, rfl⟩⟩
  · rw [List.getElem?_modify_ne _ _ hi] at h
    exact ⟨b, h, .inr ⟨hi, rfl⟩⟩

theorem getElem?_modify_of_eq {l : List α} {i : Nat} {a : α} (f : α → α) (h : l[i]? = some a) :
    (l.modify i f)[i]? = some (f a) := by
  rw [List.getElem?_modify_eq, h]
  rfl

theorem modify_const : ∀ (l : List α) (i : Nat) (a : α), (l.modify i fun _ => a) = l.set i a
  | [], _, _ => by rw [List.modify_nil, List.set_nil]
  | b :: l, 0, a => by rw [List.modify_zero_cons, List.set_cons_zero]
  | b :: l, i + 1, a => by rw [List.modify_succ_cons, List.set_cons_succ, modify_const l i a]

/-- The row that was put in is changed. -/
theorem modify_set (f : α → α) : ∀ (l : List α) (i : Nat) (a : α), (l.set i a).modify i f = l.set i (f a)
  | [], _, _ => by rw [List.set_nil, List.modify_nil, List.set_nil]
  | b :: l, 0, a => by rw [List.set_cons_zero, List.modify_zero_cons, List.set_cons_zero]
  | b :: l, i + 1, a => by rw [List.set_cons_succ, List.modify_succ_cons, List.set_cons_succ, modify_set f l i a]

/-- A column that the change does not touch. -/
theorem map_modify_of_eq {f : α → M} {g : α → α} (h : ∀ a, f (g a) = f a) : ∀ (l : List α) (i : Nat),
    (l.modify i g).map f = l.map f
  | [], _ => by rw [List.modify_nil]
  | a :: l, 0 => by rw [List.modify_zero_cons, List.map_cons, List.map_cons, h]
  | a :: l, i + 1 => by rw [List.modify_succ_cons, List.map_cons, List.map_cons, map_modify_of_eq h l i]

/-- The rows with a property, row by row or number by number. -/
theorem map_filter_range (f : α → Bool) (g : α → M) (z : M) : ∀ l : List α,
    ((List.range l.length).filter fun p => l[p]?.any f).map (fun p => l[p]?.elim z g) = (l.filter f).map g
  | [] => rfl
  | a :: l => by
    have ih := map_filter_range f g z l
    rw [List.length_cons, List.range_succ_eq_map, List.filter_cons, List.filter_map]
    have htail : (List.map (fun p => (a :: l)[p]?.elim z g)
        (List.map Nat.succ ((List.range l.length).filter ((fun p => (a :: l)[p]?.any f) ∘ Nat.succ)))) =
        (l.filter f).map g := by
      rw [List.map_map, ← ih]
      rfl
    rw [List.filter_cons]
    by_cases ha : f a = true
    · rw [if_pos ha, if_pos (by simpa using ha), List.map_cons, List.map_cons, htail]
      rfl
    · rw [if_neg ha, if_neg (by simpa using ha), htail]

/-- One entry of a column is at most its total. -/
theorem le_sum_map {f : α → Nat} {l : List α} {i : Nat} {a : α} (h : l[i]? = some a) : f a ≤ (l.map f).sum :=
  List.single_le_sum (fun _ _ => Nat.zero_le _) _ (List.mem_map_of_mem (List.mem_of_getElem? h))

/-- So are two entries together. -/
theorem add_le_sum_map {f : α → Nat} : ∀ {l : List α} {i j : Nat} {a b : α}, l[i]? = some a → l[j]? = some b → i ≠ j →
    f a + f b ≤ (l.map f).sum
  | [], _, _, _, _, h, _, _ => by cases h
  | c :: l, 0, 0, _, _, _, _, hne => absurd rfl hne
  | c :: l, 0, j + 1, a, b, ha, hb, _ => by
    cases ha
    have hb' : f b ≤ (l.map f).sum := le_sum_map hb
    rw [List.map_cons, List.sum_cons]
    omega
  | c :: l, i + 1, 0, a, b, ha, hb, _ => by
    cases hb
    have ha' : f a ≤ (l.map f).sum := le_sum_map ha
    rw [List.map_cons, List.sum_cons]
    omega
  | c :: l, i + 1, j + 1, a, b, ha, hb, hne => by
    have ih : f a + f b ≤ (l.map f).sum := add_le_sum_map ha hb (fun e => hne (congrArg (· + 1) e))
    rw [List.map_cons, List.sum_cons]
    omega

variable [AddCommMonoid M]

/-- The total of a column after the entry of one row changed from `f a` to `f (g a)`. -/
theorem sum_map_modify {f : α → M} {g : α → α} {x y : M} :
    ∀ {l : List α} {i : Nat} {a : α}, l[i]? = some a → f (g a) + x = f a + y →
      ((l.modify i g).map f).sum + x = (l.map f).sum + y
  | [], _, _, h, _ => by cases h
  | b :: l, 0, a, h, hg => by
    cases h
    rw [List.modify_zero_cons, List.map_cons, List.map_cons, List.sum_cons, List.sum_cons, add_right_comm, hg,
      add_right_comm]
  | b :: l, i + 1, a, h, hg => by
    have ih := sum_map_modify (l := l) (i := i) (a := a) h hg
    rw [List.modify_succ_cons, List.map_cons, List.map_cons, List.sum_cons, List.sum_cons, add_assoc, ih, add_assoc]

/-- Rows that add nothing may be left out. -/
theorem sum_map_filter_of_zero {f : α → M} {p : α → Bool} : ∀ {l : List α}, (∀ a ∈ l, p a = false → f a = 0) →
    ((l.filter p).map f).sum = (l.map f).sum
  | [], _ => rfl
  | a :: l, h => by
    have ih : ((l.filter p).map f).sum = (l.map f).sum :=
      sum_map_filter_of_zero fun b hb => h b (List.mem_cons_of_mem _ hb)
    rw [List.filter_cons, List.map_cons, List.sum_cons, ← ih]
    cases hp : p a with
    | true => rw [if_pos rfl, List.map_cons, List.sum_cons]
    | false => rw [if_neg (by simp), h a List.mem_cons_self hp, zero_add]

/-- Entries that are grouped by a key are added up group by group. -/
theorem sum_groups (key : α → Nat) (f : α → M) {n : Nat} : ∀ {l : List α}, (∀ a ∈ l, key a < n) →
    ∑ p ∈ Finset.range n, ((l.filter fun a => decide (key a = p)).map f).sum = (l.map f).sum
  | [], _ => Finset.sum_const_zero
  | a :: l, h => by
    have ih := sum_groups key f (l := l) fun b hb => h b (List.mem_cons_of_mem _ hb)
    have hgroup : ∀ p, (((a :: l).filter fun a => decide (key a = p)).map f).sum =
        (if key a = p then f a else 0) + ((l.filter fun a => decide (key a = p)).map f).sum := by
      intro p
      rw [List.filter_cons]
      by_cases hp : key a = p
      · rw [if_pos (decide_eq_true hp), if_pos hp, List.map_cons, List.sum_cons]
      · rw [if_neg (by simp [hp]), if_neg hp, zero_add]
    rw [Finset.sum_congr rfl fun p _ => hgroup p, Finset.sum_add_distrib, ih, Finset.sum_ite_eq,
      if_pos (Finset.mem_range.2 (h a List.mem_cons_self)), List.map_cons, List.sum_cons]

/-- A table with one row for every key, each with the total of its group. -/
theorem sum_map_groups {β : Type} {key : α → Nat} {f : α → M} {g : β → M} {t : List β} {l : List α}
    (hkey : ∀ a ∈ l, key a < t.length)
    (h : ∀ p b, t[p]? = some b → g b = ((l.filter fun a => decide (key a = p)).map f).sum) :
    (t.map g).sum = (l.map f).sum := by
  have hrows : (t.map g).sum = ∑ p : Fin t.length, g t[p] := by
    rw [← List.sum_ofFn]
    congr 1
    exact (List.ofFn_getElem_eq_map t g).symm
  rw [hrows, ← sum_groups key f hkey, Finset.sum_range]
  apply Finset.sum_congr rfl
  intro p _
  exact h p t[p] (List.getElem?_eq_getElem p.2)

end ParallelProbsat.Lib
