/-
A channel as a list: what is sent is appended, and what is received is taken from the front. A message that is in front
of another one is received first.
-/
import Mathlib.Tactic

namespace ParallelProbsat.Lib

variable {α : Type} {x : α} {p : α → Bool} {l sent got rest : List α}

/-- `x` is in the channel, in front of a message with `p`. -/
def Ahead (x : α) (p : α → Bool) (l : List α) : Prop := ∃ a b, l = a ++ x :: b ∧ b.any p = true

theorem Ahead.append (h : Ahead x p l) (sent : List α) : Ahead x p (l ++ sent) := by
  obtain ⟨a, b, rfl, hb⟩ := h
  refine ⟨a, b ++ sent, ?_, ?_⟩
  · rw [List.append_assoc, List.cons_append]
  · rw [List.any_append, hb, Bool.true_or]

/-- What is in the channel is ahead of what is sent now. -/
theorem Ahead.of_sent (hx : x ∈ l) (hsent : sent.any p = true) : Ahead x p (l ++ sent) := by
  obtain ⟨a, b, rfl⟩ := List.append_of_mem hx
  refine ⟨a, b ++ sent, ?_, ?_⟩
  · rw [List.append_assoc, List.cons_append]
  · rw [List.any_append, hsent, Bool.or_true]

/-- Other messages are left out. -/
theorem Ahead.filter {q : α → Bool} (h : Ahead x p l) (hx : q x = true) (hp : ∀ y, p y = true → q y = true) :
    Ahead x p (l.filter q) := by
  obtain ⟨a, b, rfl, hb⟩ := h
  refine ⟨a.filter q, b.filter q, ?_, ?_⟩
  · rw [List.filter_append, List.filter_cons_of_pos hx]
  · obtain ⟨y, hy, hpy⟩ := List.any_eq_true.1 hb
    exact List.any_eq_true.2 ⟨y, List.mem_filter.2 ⟨hy, hp y hpy⟩, hpy⟩

/-- Messages are received: `x` among them, or it stays ahead. -/
theorem Ahead.receive (h : Ahead x p l) (hl : l = got ++ rest) : x ∈ got ∨ Ahead x p rest := by
  obtain ⟨a, b, he, hb⟩ := h
  rw [hl] at he
  rcases List.append_eq_append_iff.1 he with ⟨c, rfl, hc⟩ | ⟨c, rfl, hc⟩
  · exact .inr ⟨c, b, hc, hb⟩
  · cases c with
    | nil => exact .inr ⟨[], b, hc.symm, hb⟩
    | cons y c =>
      rw [List.cons_append, List.cons.injEq] at hc
      rw [hc.1]
      exact .inl (List.mem_append_right _ List.mem_cons_self)

/-- Nothing is ahead of a message that is not in the channel. -/
theorem not_ahead (h : l.any p = false) : ¬ Ahead x p l := by
  rintro ⟨a, b, rfl, hb⟩
  simp [hb] at h

end ParallelProbsat.Lib
