/-
`util/bitfield.hpp`, the type of an assignment (`instance.hpp` and `probsat.hpp` test
`#ifdef USE_BITFIELD`, and `config.hpp` defines the macro). Bits are packed into bytes, and the value
assigned last lives outside them until the next access through the non-const `operator[]`.

The lemmas give every operation by what the const `operator[]` reads afterwards.
-/
import Mathlib.Data.BitVec
import Mathlib.Tactic

namespace ParallelProbsat.Util

/-- A bit vector: its length, the pending write (`lastModIndex = length` stands for none) and the
bytes its array holds. -/
structure Bitfield where
  length : Int
  lastModIndex : Int
  lastModValue : Bool
  array : Int → BitVec 8

namespace Bitfield

def toBytelength (l : Int) : Int := (l + 7) / 8

/-! ## Bits of the array -/

def getBit (b : Bitfield) (index : Int) : Bool :=
  1 &&& (b.array (index / 8) >>> (index % 8).toNat) == 1

def setBit (b : Bitfield) (index : Int) (value : Bool) : Bitfield :=
  let mask := 1#8 <<< (index % 8).toNat
  { b with array := fun i =>
      if i = index / 8 then (if value then b.array i ||| mask else b.array i &&& ~~~mask) else b.array i }

/-- The pending write reaches the array. -/
def update (b : Bitfield) : Bitfield :=
  if b.lastModIndex < b.length then
    { b.setBit b.lastModIndex b.lastModValue with lastModIndex := b.length }
  else b

/-! ## Construction and access -/

/-- `bitfield(n)`; `mem` is what the new bytes happen to hold. -/
def new (mem : Int → BitVec 8) (n : Int) : Bitfield := ⟨n, n, false, mem⟩

/-- The copy constructor; only the bytes the length needs are copied into the new memory. -/
def copy (mem : Int → BitVec 8) (other : Bitfield) : Bitfield :=
  { other with array := fun i => if 0 ≤ i ∧ i < toBytelength other.length then other.array i else mem i }

/-- The const `operator[]`. -/
def read (b : Bitfield) (index : Int) : Bool :=
  if index = b.lastModIndex then b.lastModValue else b.getBit index

/-- The non-const `operator[]`: afterwards `lastModValue` is the element referred to. -/
def access (b : Bitfield) (index : Int) : Bitfield :=
  { b.update with lastModIndex := index, lastModValue := b.update.getBit index }

/-- `b[index] = value`. -/
def assign (b : Bitfield) (index : Int) (value : Bool) : Bitfield :=
  { b.access index with lastModValue := value }

/-- The pending write is to an element, or there is none. -/
structure WF (b : Bitfield) : Prop where
  lo : 0 ≤ b.lastModIndex
  hi : b.lastModIndex ≤ b.length

/-! ## Packing -/

theorem getBit_eq (b : Bitfield) (index : Int) :
    b.getBit index = (b.array (index / 8)).getLsbD (index % 8).toNat := by
  have h : ∀ (x : BitVec 8) (k : Nat), (1 &&& (x >>> k) == 1) = x.getLsbD k := by
    intro x k
    rw [BitVec.and_comm, Bool.eq_iff_iff, beq_iff_eq]
    constructor
    · intro e
      have := congrArg (fun y => BitVec.getLsbD y 0) e
      simpa using this
    · intro e
      apply BitVec.eq_of_getLsbD_eq
      intro i hi
      by_cases hi0 : i = 0
      · subst hi0; simpa using e
      · simp [BitVec.getLsbD_one, hi0]
  exact h _ _

theorem getLsbD_mask (k l : Nat) (hl : l < 8) : (1#8 <<< k).getLsbD l = decide (l = k) := by
  rw [BitVec.getLsbD_shiftLeft, BitVec.getLsbD_one]
  by_cases h : l = k
  · simp [h, h ▸ hl]
  · by_cases hlk : l < k
    · simp [h, hlk]
    · have : l - k ≠ 0 := by omega
      simp [h, this]

theorem getBit_setBit (b : Bitfield) {i j : Int} (v : Bool) :
    (b.setBit i v).getBit j = if j = i then v else b.getBit j := by
  rw [getBit_eq, getBit_eq]
  unfold setBit
  simp only
  by_cases hb : j / 8 = i / 8
  · have hlt : (j % 8).toNat < 8 := by omega
    have hmask : (1#8 <<< (i % 8).toNat).getLsbD (j % 8).toNat = decide (j = i) := by
      rw [getLsbD_mask _ _ hlt]
      exact decide_eq_decide.2 (by omega)
    rw [if_pos hb]
    by_cases hji : j = i
    · cases v <;> simp only [Bool.false_eq_true, if_false, if_true, BitVec.getLsbD_or, BitVec.getLsbD_and,
        BitVec.getLsbD_not, hmask] <;> simp [hji]
    · cases v <;> simp only [Bool.false_eq_true, if_false, if_true, BitVec.getLsbD_or, BitVec.getLsbD_and,
        BitVec.getLsbD_not, hmask] <;> simp [hji, hlt]
  · have hji : j ≠ i := fun e => hb (by rw [e])
    rw [if_neg hb, if_neg hji]

/-! ## What is read after each operation -/

theorem getBit_update {b : Bitfield} (hw : b.WF) {j : Int} (hj : j < b.length) : b.update.getBit j = b.read j := by
  unfold update
  split
  · exact getBit_setBit b b.lastModValue
  · have hne : j ≠ b.lastModIndex := by have := hw.hi; omega
    rw [read, if_neg hne]

@[simp] theorem length_update (b : Bitfield) : b.update.length = b.length := by
  unfold update; split <;> rfl

@[simp] theorem length_access (b : Bitfield) (i : Int) : (b.access i).length = b.length := length_update b

@[simp] theorem length_assign (b : Bitfield) (i : Int) (v : Bool) : (b.assign i v).length = b.length :=
  length_update b

theorem wf_new (mem : Int → BitVec 8) {n : Int} (hn : 0 ≤ n) : (new mem n).WF := ⟨hn, le_refl n⟩

theorem WF.copy {b : Bitfield} (hw : b.WF) (mem : Int → BitVec 8) : (copy mem b).WF := ⟨hw.lo, hw.hi⟩

theorem WF.access {b : Bitfield} {i : Int} (h0 : 0 ≤ i) (hi : i < b.length) : (b.access i).WF :=
  ⟨h0, by rw [length_access]; exact hi.le⟩

theorem WF.assign {b : Bitfield} {i : Int} (h0 : 0 ≤ i) (hi : i < b.length) (v : Bool) : (b.assign i v).WF :=
  ⟨h0, by rw [length_assign]; exact hi.le⟩

theorem read_access {b : Bitfield} (hw : b.WF) {i j : Int} (hj : j < b.length) :
    (b.access i).read j = b.read j := by
  show (if j = i then b.update.getBit i else b.update.getBit j) = _
  split
  · rename_i h; subst h; exact getBit_update hw hj
  · exact getBit_update hw hj

/-- The reference the non-const `operator[]` returns holds the element's value. -/
theorem lastModValue_access {b : Bitfield} (hw : b.WF) {i : Int} (hi : i < b.length) :
    (b.access i).lastModValue = b.read i := getBit_update hw hi

theorem read_assign {b : Bitfield} (hw : b.WF) {i j : Int} (v : Bool) (hj : j < b.length) :
    (b.assign i v).read j = if j = i then v else b.read j := by
  show (if j = i then v else b.update.getBit j) = _
  rw [getBit_update hw hj]

theorem read_copy (mem : Int → BitVec 8) (b : Bitfield) {j : Int} (h0 : 0 ≤ j) (hj : j < b.length) :
    (copy mem b).read j = b.read j := by
  have hbyte : 0 ≤ j / 8 ∧ j / 8 < toBytelength b.length := by unfold toBytelength; omega
  have harr : (copy mem b).array (j / 8) = b.array (j / 8) := if_pos hbyte
  unfold read
  rw [getBit_eq, getBit_eq, harr]
  rfl

end Bitfield

end ParallelProbsat.Util
