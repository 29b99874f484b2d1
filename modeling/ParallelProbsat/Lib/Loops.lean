/-
Loops as folds: what every round of a loop preserves, the loop preserves. A counting loop is a fold
over `List.range`, a loop that may throw a fold in `Except`, and a loop over a container one whose
invariant may speak of the elements already visited.
-/
import Mathlib.Tactic

namespace ParallelProbsat.Lib

variable {α σ ε : Type}

theorem bind_ok {β : Type} {x : Except ε σ} {f : σ → Except ε β} {b : β} (h : x >>= f = .ok b) :
    ∃ a, x = .ok a ∧ f a = .ok b := by
  cases x with
  | error e => cases h
  | ok a => exact ⟨a, rfl, h⟩

theorem ok_of_toOption {x : Except ε σ} {a : σ} (h : x.toOption = some a) : x = .ok a := by
  cases x with
  | error e => cases h
  | ok b => exact congrArg Except.ok (Option.some.inj h)

theorem ok_of_isSome_toOption {x : Except ε σ} (h : x.toOption.isSome = true) : ∃ a, x = .ok a := by
  obtain ⟨a, ha⟩ := Option.isSome_iff_exists.1 h
  exact ⟨a, ok_of_toOption ha⟩

theorem ok_of_map_toOption {β : Type} {x : Except ε σ} {f : σ → β} {b : β} (h : x.toOption.map f = some b) :
    ∃ a, x = .ok a ∧ f a = b := by
  obtain ⟨a, ha, hb⟩ := Option.map_eq_some_iff.1 h
  exact ⟨a, ok_of_toOption ha, hb⟩

/-- A computation whose answer passes a test has an answer. -/
theorem ok_of_elim_toOption {x : Except ε σ} {p : σ → Bool} (h : x.toOption.elim false p = true) :
    ∃ a, x = .ok a ∧ p a = true := by
  cases hx : x.toOption with
  | none => rw [hx] at h; cases h
  | some a =>
    rw [hx] at h
    exact ⟨a, ok_of_toOption hx, h⟩

/-- A counting loop; the invariant speaks of the number of rounds done. -/
theorem foldl_range {n : Nat} {f : σ → Nat → σ} {P : Nat → σ → Prop} {s : σ} (h0 : P 0 s)
    (hstep : ∀ i s, i < n → P i s → P (i + 1) (f s i)) : P n ((List.range n).foldl f s) := by
  induction n with
  | zero => exact h0
  | succ n ih =>
    rw [List.range_succ, List.foldl_append]
    exact hstep n _ (by omega) (ih fun i s hi => hstep i s (by omega))

/-- A counting loop that may throw, when it did not. -/
theorem foldlM_range {n : Nat} {f : σ → Nat → Except ε σ} {P : Nat → σ → Prop} {s s' : σ} (h0 : P 0 s)
    (hstep : ∀ i s s', i < n → P i s → f s i = .ok s' → P (i + 1) s')
    (h : (List.range n).foldlM f s = .ok s') : P n s' := by
  induction n generalizing s' with
  | zero => cases h; exact h0
  | succ n ih =>
    rw [List.range_succ, List.foldlM_append] at h
    obtain ⟨r, hn, h⟩ := bind_ok h
    rw [List.foldlM_cons] at h
    obtain ⟨r', hr, h⟩ := bind_ok h
    cases h
    exact hstep n r s' (by omega) (ih (fun i s s' hi => hstep i s s' (by omega)) hn) hr

/-- A loop over a list; the invariant speaks of the elements visited. -/
theorem foldl_visited {f : σ → α → σ} {P : List α → σ → Prop} :
    ∀ (rest done : List α) (s : σ), P done s →
      (∀ pre a suf s, done ++ rest = pre ++ a :: suf → P pre s → P (pre ++ [a]) (f s a)) →
      P (done ++ rest) (rest.foldl f s)
  | [], done, s, h, _ => by rw [List.append_nil]; exact h
  | a :: rest, done, s, h, hstep => by
    have e : done ++ a :: rest = (done ++ [a]) ++ rest := by rw [List.append_assoc]; rfl
    rw [e]
    exact foldl_visited rest (done ++ [a]) (f s a) (hstep done a rest s rfl h)
      fun pre b suf s' hb => hstep pre b suf s' (by rw [e, hb])

theorem foldl_list {f : σ → α → σ} {P : List α → σ → Prop} {l : List α} {s : σ} (h0 : P [] s)
    (hstep : ∀ pre a suf s, l = pre ++ a :: suf → P pre s → P (pre ++ [a]) (f s a)) : P l (l.foldl f s) :=
  foldl_visited l [] s h0 hstep

/-- Where any two rounds may change places, the order of the list does not matter. -/
theorem foldlM_perm {f : σ → α → Except ε σ} {P : σ → Prop} {Q : α → Prop}
    (hstep : ∀ s a s', P s → Q a → f s a = .ok s' → P s')
    (hcomm : ∀ s a b, P s → Q a → Q b → (f s a >>= fun s => f s b) = (f s b >>= fun s => f s a))
    {l l' : List α} (h : l.Perm l') : ∀ s, P s → (∀ a ∈ l, Q a) → l.foldlM f s = l'.foldlM f s := by
  induction h with
  | nil => intros; rfl
  | cons a _ ih =>
    intro s hs hl
    rw [List.foldlM_cons, List.foldlM_cons]
    cases ha : f s a with
    | error e => rfl
    | ok s' =>
      exact ih s' (hstep s a s' hs (hl a List.mem_cons_self) ha) fun b hb => hl b (List.mem_cons_of_mem _ hb)
  | swap a b l =>
    intro s hs hl
    have := hcomm s b a hs (hl b List.mem_cons_self) (hl a (List.mem_cons_of_mem _ List.mem_cons_self))
    simp only [List.foldlM_cons, ← bind_assoc, this]
  | trans h₁ _ ih₁ ih₂ =>
    intro s hs hl
    exact (ih₁ s hs hl).trans (ih₂ s hs fun a ha => hl a (h₁.mem_iff.2 ha))

/-- Two loops over the same list side by side. -/
theorem foldl_pair {τ : Type} (f : σ → α → σ) (g : τ → α → τ) : ∀ (l : List α) (s : σ) (t : τ),
    l.foldl (fun p a => (f p.1 a, g p.2 a)) (s, t) = (l.foldl f s, l.foldl g t)
  | [], _, _ => rfl
  | _ :: l, _, _ => foldl_pair f g l _ _

/-- What the rounds of a loop that runs `f` note down by `g`, each before its own effect. -/
def noted {β : Type} (f : σ → α → σ) (g : σ → α → Option β) : σ → List α → List β
  | _, [] => []
  | s, a :: l => (g s a).toList ++ noted f g (f s a) l

/-- What holds of everything a round can note holds of everything the loop notes. -/
theorem noted_forall {β : Type} {f : σ → α → σ} {g : σ → α → Option β} {P : β → Prop} :
    ∀ {l : List α} {s : σ}, (∀ s, ∀ a ∈ l, ∀ b, g s a = some b → P b) → ∀ b ∈ noted f g s l, P b
  | [], _, _, b, hb => absurd hb List.not_mem_nil
  | a :: l, s, h, b, hb => by
    rcases List.mem_append.1 hb with hb | hb
    · exact h s a (List.mem_cons_self ..) b (Option.mem_toList.1 hb)
    · exact noted_forall (fun s a ha => h s a (List.mem_cons_of_mem _ ha)) b hb

/-- What every round keeps that does not note `b`, a loop keeps that does not note it. -/
theorem foldl_of_notMem_noted {β γ : Type} {f : σ → α → σ} {g : σ → α → Option β} (obs : σ → γ) {b : β}
    (hf : ∀ s a, g s a ≠ some b → obs (f s a) = obs s) :
    ∀ {l : List α} {s : σ}, b ∉ noted f g s l → obs (l.foldl f s) = obs s
  | [], _, _ => rfl
  | a :: l, s, h => by
    unfold noted at h
    rw [List.mem_append, not_or, Option.mem_toList] at h
    rw [List.foldl_cons, foldl_of_notMem_noted obs hf h.2]
    exact hf s a h.1

/-- A round of a loop that runs `f`, with the list it notes by `g` appended to what is noted so far. -/
def noting {β : Type} (f : σ → α → σ) (g : σ → α → List β) (acc : List β × σ) (a : α) : List β × σ :=
  (acc.1 ++ g acc.2 a, f acc.2 a)

end ParallelProbsat.Lib
