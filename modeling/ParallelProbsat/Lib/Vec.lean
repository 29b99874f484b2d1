/-
Vectors as the subscript operator of C++ sees them: a number of elements, and a cell for every
subscript, also for one that names no element (a reserved cell, or one left behind by `pop_back`).
A subscript is not checked, so reading and writing are total; what `size()` reports is kept apart.
-/
import Mathlib.Tactic

namespace ParallelProbsat.Lib

/-- A vector of `size` elements over the cells its memory has. -/
structure Vec (α : Type) where
  size : Nat
  cell : Int → α

namespace Vec

variable {α : Type}

def get (v : Vec α) (i : Int) : α := v.cell i

def set (v : Vec α) (i : Int) (a : α) : Vec α := { v with cell := fun j => if j = i then a else v.cell j }

/-- `v[i] = f(v[i])`, as `++` and `--` do. -/
def modify (v : Vec α) (i : Int) (f : α → α) : Vec α := v.set i (f (v.get i))

def pushBack (v : Vec α) (a : α) : Vec α := { size := v.size + 1, cell := (v.set v.size a).cell }

def back (v : Vec α) : α := v.get (v.size - 1)

def popBack (v : Vec α) : Vec α := { v with size := v.size - 1 }

/-- `reserve`: memory for more cells, with whatever they hold, and no new element. -/
def reserved (cells : Int → α) : Vec α := ⟨0, cells⟩

/-- `resize` of an empty vector: `n` elements with the same value. -/
def filled (n : Nat) (a : α) : Vec α := ⟨n, fun _ => a⟩

/-- `resize`: what is kept stays, what is new gets the value `a`. -/
def resize (v : Vec α) (n : Nat) (a : α) : Vec α := ⟨n, fun i => if i < v.size then v.cell i else a⟩

/-- The elements in order. -/
def toList (v : Vec α) : List α := (List.range v.size).map fun (i : Nat) => v.get i

@[simp] theorem size_set (v : Vec α) (i : Int) (a : α) : (v.set i a).size = v.size := rfl

@[simp] theorem size_modify (v : Vec α) (i : Int) (f : α → α) : (v.modify i f).size = v.size := rfl

@[simp] theorem size_pushBack (v : Vec α) (a : α) : (v.pushBack a).size = v.size + 1 := rfl

@[simp] theorem size_popBack (v : Vec α) : v.popBack.size = v.size - 1 := rfl

@[simp] theorem size_reserved (cells : Int → α) : (reserved cells).size = 0 := rfl

@[simp] theorem size_resize (v : Vec α) (n : Nat) (a : α) : (v.resize n a).size = n := rfl

@[simp] theorem size_filled (n : Nat) (a : α) : (filled n a).size = n := rfl

theorem get_set (v : Vec α) (i j : Int) (a : α) : (v.set i a).get j = if j = i then a else v.get j := rfl

@[simp] theorem get_set_self (v : Vec α) (i : Int) (a : α) : (v.set i a).get i = a := if_pos rfl

theorem get_set_ne (v : Vec α) {i j : Int} (a : α) (h : j ≠ i) : (v.set i a).get j = v.get j := if_neg h

theorem get_modify (v : Vec α) (i j : Int) (f : α → α) :
    (v.modify i f).get j = if j = i then f (v.get i) else v.get j := rfl

theorem get_pushBack (v : Vec α) (a : α) (j : Int) :
    (v.pushBack a).get j = if j = v.size then a else v.get j := rfl

@[simp] theorem get_popBack (v : Vec α) (j : Int) : v.popBack.get j = v.get j := rfl

@[simp] theorem get_reserved (cells : Int → α) (j : Int) : (reserved cells).get j = cells j := rfl

theorem get_resize (v : Vec α) (n : Nat) (a : α) (i : Int) :
    (v.resize n a).get i = if i < v.size then v.get i else a := rfl

@[simp] theorem get_filled (n : Nat) (a : α) (j : Int) : (filled n a).get j = a := rfl

@[simp] theorem length_toList (v : Vec α) : v.toList.length = v.size := by simp [toList]

theorem mem_toList {v : Vec α} {a : α} : a ∈ v.toList ↔ ∃ p : Nat, p < v.size ∧ v.get p = a := by
  simp [toList]

theorem toList_eq_nil {v : Vec α} : v.toList = [] ↔ v.size = 0 := by
  rw [← List.length_eq_zero_iff, length_toList]

theorem getElem?_toList (v : Vec α) (p : Nat) :
    v.toList[p]? = if p < v.size then some (v.get p) else none := by
  unfold toList
  rw [List.getElem?_map]
  by_cases h : p < v.size
  · rw [List.getElem?_range h, if_pos h]; rfl
  · rw [List.getElem?_eq_none (by simpa using h), if_neg h]; rfl

/-- Two vectors with the same elements have the same size and agree on every element. -/
theorem toList_inj {v w : Vec α} :
    v.toList = w.toList ↔ v.size = w.size ∧ ∀ p : Nat, p < v.size → v.get p = w.get p := by
  constructor
  · intro h
    have hs : v.size = w.size := by rw [← length_toList v, h, length_toList]
    refine ⟨hs, fun p hp => ?_⟩
    have := congrArg (·[p]?) h
    simp only [getElem?_toList, if_pos hp, if_pos (hs ▸ hp)] at this
    exact Option.some.inj this
  · rintro ⟨hs, h⟩
    unfold toList
    rw [← hs]
    exact List.map_congr_left fun p hp => h p (List.mem_range.1 hp)

end Vec

end ParallelProbsat.Lib
