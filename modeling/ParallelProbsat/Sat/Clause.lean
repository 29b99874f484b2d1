/-
`sat/clause.hpp`: `generic_clause`, a vector of literals whose `operator[]` takes an index of eight
bits. The loops over a clause count with `size_t`, so they read `clause[i % 256]`.
-/
import Mathlib.Data.List.GetD
import ParallelProbsat.Lib.Cnf

namespace ParallelProbsat.Sat

/-- The literals of a `generic_clause`. -/
abbrev Clause := List Int

namespace Clause

def numVars (c : Clause) : Nat := c.length

/-- `operator[](const uint8_t index)`. -/
def subscript (c : Clause) (index : Nat) : Int := c.getD (index % 256) 0

/-- The literals a loop `for (i = 0; i < num_vars(); i++)` reads through `operator[]`. -/
def seen (c : Clause) : List Int := (List.range c.numVars).map c.subscript

/-- Whatever its length, an index of the clause gives one of its literals. -/
theorem subscript_mem {c : Clause} {k : Nat} (hk : k < c.length) : c.subscript k ∈ c := by
  have hlt : k % 256 < c.length := lt_of_le_of_lt (Nat.mod_le ..) hk
  rw [subscript, List.getD_eq_getElem _ _ hlt]
  exact List.getElem_mem hlt

/-- Up to 256 literals, it gives the literal at the index. -/
theorem subscript_eq {c : Clause} (h : c.length ≤ 256) {k : Nat} (hk : k < c.length) :
    c.subscript k = c.get ⟨k, hk⟩ := by
  rw [subscript, Nat.mod_eq_of_lt (by omega), List.getD_eq_getElem _ _ hk, List.get_eq_getElem]

/-- Up to 256 literals, a loop sees the clause as it is. -/
theorem seen_eq {c : Clause} (h : c.length ≤ 256) : c.seen = c := by
  apply List.ext_getElem?
  intro i
  unfold seen numVars
  rw [List.getElem?_map]
  by_cases hi : i < c.length
  · rw [List.getElem?_range hi, List.getElem?_eq_getElem hi, Option.map_some, subscript_eq h hi, List.get_eq_getElem]
  · rw [List.getElem?_eq_none (by simpa using hi), List.getElem?_eq_none (by omega)]
    rfl

end Clause

/-- A value stored in a `cnt_t`, a signed integer of 16 bits. -/
def cntT (x : Int) : Int := x.bmod (2 ^ 16)

/-- `std::numeric_limits<cnt_t>::max()`. -/
def cntMax : Int := 2 ^ 15 - 1

theorem cntT_eq {x : Int} (h0 : 0 ≤ x) (h : x ≤ cntMax) : cntT x = x := by
  unfold cntMax at h
  unfold cntT
  rw [Int.bmod_def]
  split <;> omega

/-- The counters are sums modulo the width of their type. -/
theorem cntT_cntT_add (x y : Int) : cntT (cntT x + y) = cntT (x + y) := by
  unfold cntT
  simp

end ParallelProbsat.Sat
