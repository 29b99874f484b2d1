/-
Filling the buckets of one array through cursors: every key has a bucket of cells that starts at
`base`, and a value goes to the next free cell of its key's bucket. As long as no key gets more
values than its bucket has cells and the buckets are disjoint, each bucket holds its key's values
in order, and the cells behind them are untouched.
-/
import ParallelProbsat.Lib.Vec

namespace ParallelProbsat.Lib

variable {κ α : Type}

/-- The values a sequence of pairs gives for one key. -/
def valuesAt [DecidableEq κ] (l : List (κ × α)) (k : κ) : List α := (l.filter (·.1 = k)).map (·.2)

/-- The buckets share no cell. -/
def DisjointBuckets (base : κ → Int) (cap : κ → Nat) : Prop :=
  ∀ k k' (i j : Nat), i < cap k → j < cap k' → base k + i = base k' + j → k = k' ∧ i = j

/-- `cells` holds the values of `l`, each bucket's from its base on, over the cells `init`. -/
structure Filled [DecidableEq κ] (base : κ → Int) (cap : κ → Nat) (init : Int → α) (l : List (κ × α))
    (cells : Vec α) : Prop where
  value : ∀ k (j : Nat) a, (valuesAt l k)[j]? = some a → cells.get (base k + j) = a
  rest : ∀ k (j : Nat), j < cap k → (valuesAt l k).length ≤ j → cells.get (base k + j) = init (base k + j)

variable [DecidableEq κ]

@[simp] theorem valuesAt_nil (k : κ) : valuesAt ([] : List (κ × α)) k = [] := rfl

theorem valuesAt_append (l m : List (κ × α)) (k : κ) : valuesAt (l ++ m) k = valuesAt l k ++ valuesAt m k := by
  simp [valuesAt]

theorem valuesAt_snoc (l : List (κ × α)) (k k' : κ) (a : α) :
    valuesAt (l ++ [(k', a)]) k = if k' = k then valuesAt l k ++ [a] else valuesAt l k := by
  rw [valuesAt_append]
  by_cases h : k' = k <;> simp [valuesAt, h]

theorem Filled.nil {base : κ → Int} {cap : κ → Nat} {init : Int → α} {cells : Vec α}
    (h : ∀ i, cells.get i = init i) : Filled base cap init [] cells :=
  ⟨fun k j a ha => by simp at ha, fun _ _ _ _ => h _⟩

/-- One write through the cursor of its key. -/
theorem Filled.snoc {base : κ → Int} {cap : κ → Nat} {init : Int → α} {l : List (κ × α)} {cells : Vec α}
    (h : Filled base cap init l cells) (hd : DisjointBuckets base cap) (hcap : ∀ k, (valuesAt l k).length ≤ cap k)
    {k : κ} (a : α) (hk : (valuesAt l k).length < cap k) :
    Filled base cap init (l ++ [(k, a)]) (cells.set (base k + (valuesAt l k).length) a) := by
  have hother : ∀ k' (j : Nat), j < cap k' → (k' = k → j ≠ (valuesAt l k).length) →
      (cells.set (base k + (valuesAt l k).length) a).get (base k' + j) = cells.get (base k' + j) := by
    intro k' j hj hne
    refine Vec.get_set_ne _ _ fun e => ?_
    obtain ⟨h1, h2⟩ := hd k' k j _ hj hk e
    exact hne h1 h2
  constructor
  · intro k' j b hb
    rw [valuesAt_snoc] at hb
    by_cases hkk : k = k'
    · subst hkk
      rw [if_pos rfl] at hb
      rcases lt_trichotomy j (valuesAt l k).length with hlt | rfl | hgt
      · rw [List.getElem?_append_left hlt] at hb
        rw [hother k j (by omega) (fun _ => by omega)]
        exact h.value k j b hb
      · rw [List.getElem?_concat_length] at hb
        rw [Vec.get_set_self]
        exact Option.some.inj hb
      · rw [List.getElem?_eq_none (by simp; omega)] at hb
        cases hb
    · rw [if_neg hkk] at hb
      have hj : j < (valuesAt l k').length := (List.getElem?_eq_some_iff.1 hb).1
      rw [hother k' j (lt_of_lt_of_le hj (hcap k')) (fun e => absurd e.symm hkk)]
      exact h.value k' j b hb
  · intro k' j hj hlen
    rw [valuesAt_snoc] at hlen
    by_cases hkk : k = k'
    · subst hkk
      rw [if_pos rfl, List.length_append, List.length_singleton] at hlen
      rw [hother k j hj (fun _ => by omega)]
      exact h.rest k j hj (by omega)
    · rw [if_neg hkk] at hlen
      rw [hother k' j hj (fun e => absurd e.symm hkk)]
      exact h.rest k' j hj hlen

/-- A filled bucket as a list: the values, then what was there before. -/
theorem Filled.toList {base : κ → Int} {cap : κ → Nat} {init : Int → α} {l : List (κ × α)} {cells : Vec α}
    (h : Filled base cap init l cells) {d : α} (hinit : ∀ i, init i = d) {k : κ}
    (hk : (valuesAt l k).length ≤ cap k) :
    (List.range (cap k)).map (fun (j : Nat) => cells.get (base k + j)) =
      valuesAt l k ++ List.replicate (cap k - (valuesAt l k).length) d := by
  apply List.ext_getElem?
  intro j
  rw [List.getElem?_map]
  by_cases hj : j < cap k
  · rw [List.getElem?_range hj]
    by_cases hlt : j < (valuesAt l k).length
    · rw [List.getElem?_append_left hlt, List.getElem?_eq_getElem hlt]
      exact congrArg some (h.value k j _ (List.getElem?_eq_getElem hlt))
    · rw [List.getElem?_append_right (by omega), List.getElem?_replicate, if_pos (by omega)]
      exact congrArg some ((h.rest k j hj (by omega)).trans (hinit _))
  · rw [List.getElem?_eq_none (by simpa using hj), List.getElem?_eq_none (by simp; omega)]
    rfl

end ParallelProbsat.Lib
