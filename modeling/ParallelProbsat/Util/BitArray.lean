/-
`util/bitfield.hpp` as an array of booleans: bit vectors with the bytes they own, any number of
them, each a copy of an earlier one, read, written through the references of the non-const
`operator[]`, printed and copied in any order.

A byte outside the allocation and a signed overflow of `length_t = int32_t` make an operation
undefined (`none`). The arrays of booleans are the specification; their pending write is the
reference that is still live, and the two agree answer by answer.
-/
import ParallelProbsat.Lib.Simulation
import ParallelProbsat.Util.Bitfield
import Mathlib.Tactic

namespace ParallelProbsat.Util

open Lib

/-- A bit vector and the number of bytes its array points to. -/
structure Allocated extends Bitfield where
  bytes : Int

/-- The `int32_t` with this value. -/
def int32 (x : Int) : Option Int := if -2 ^ 31 ≤ x ∧ x < 2 ^ 31 then some x else none

/-- What `print` puts to the stream, in order. -/
inductive Printed where
  | separator (text : String)
  | bit (value : Bool)
  deriving DecidableEq, Repr

/-- The printed bits, separators removed. -/
def Printed.bits (ps : List Printed) : List Bool := ps.filterMap fun p => match p with
  | .separator _ => none
  | .bit value => some value

/-- What a caller does with one bit vector: a read through the const `operator[]`, a call of the
non-const one, an assignment through the reference that call returned. -/
inductive Access where
  | read (index : Int)
  | refer (index : Int)
  | put (value : Bool)
  deriving DecidableEq, Repr

namespace Allocated

open Bitfield

def byte? (b : Allocated) (i : Int) : Option (BitVec 8) := if 0 ≤ i ∧ i < b.bytes then some (b.array i) else none

def get? (b : Allocated) (index : Int) : Option Bool := (b.byte? (index / 8)).map fun _ => b.getBit index

def update? (b : Allocated) : Option Allocated :=
  if b.lastModIndex < b.length then
    (b.byte? (b.lastModIndex / 8)).map fun _ => { b with toBitfield := b.toBitfield.update }
  else some b

/-- The const `operator[]`. -/
def read? (b : Allocated) (index : Int) : Option Bool :=
  if index = b.lastModIndex then some b.lastModValue else b.get? index

/-- The non-const `operator[]`. -/
def access? (b : Allocated) (index : Int) : Option Allocated :=
  b.update?.bind fun b => (b.get? index).map fun value => { b with lastModIndex := index, lastModValue := value }

/-- An assignment through the reference to `last_mod_value`. -/
def put (b : Allocated) (value : Bool) : Allocated := { b with lastModValue := value }

def step (b : Allocated) : Access → Option (Option Bool × Allocated)
  | .read index => (b.read? index).map fun value => (some value, b)
  | .refer index => (b.access? index).map fun b => (some b.lastModValue, b)
  | .put value => some (none, b.put value)

/-! ## Construction, copying and printing -/

def toBytelength32 (l : Int) : Option Int := (int32 (l + 7)).map (· / 8)

/-- `bitfield(n)` over the memory `mem`. -/
def construct (mem : Int → BitVec 8) (n : Int) : Option Allocated :=
  if 0 < n then (toBytelength32 n).map fun bl => ⟨Bitfield.new mem n, bl⟩ else some ⟨Bitfield.new mem n, 0⟩

/-- A copy over the memory `mem`, of `bl` bytes unless it is empty. -/
def copied (mem : Int → BitVec 8) (other : Allocated) (bl : Int) : Allocated :=
  ⟨Bitfield.copy mem other.toBitfield, if 0 < other.length then bl else 0⟩

/-- The copy constructor over the memory `mem`. -/
def copyConstruct (mem : Int → BitVec 8) (other : Allocated) : Option Allocated :=
  (toBytelength32 other.length).bind fun bl => if bl ≤ other.bytes then some (copied mem other bl) else none

/-- The inner loop of `print`: the remaining bits of a full byte. -/
def printByte : Nat → BitVec 8 → List Printed
  | 0, _ => []
  | k + 1, d => .bit (d &&& 1 == 1) :: printByte k (d >>> 1)

/-- The loop over the full bytes: `k` of them remain, from byte `i` on. -/
def printFull (b : Allocated) (separator : String) : Nat → Int → String → Option (List Printed × String)
  | 0, _, sep => some ([], sep)
  | k + 1, i, sep => (b.byte? i).bind fun d => (b.printFull separator k (i + 1) separator).map fun r =>
      (.separator sep :: printByte 8 d ++ r.1, r.2)

/-- The loop over the bits of the last byte. -/
def printTail (b : Allocated) : Nat → Int → Option (List Printed)
  | 0, _ => some []
  | k + 1, i => (b.get? i).bind fun value => (b.printTail k (i + 1)).map (.bit value :: ·)

def print (b : Allocated) (separator : String) : Option (List Printed × Allocated) :=
  b.update?.bind fun b => (toBytelength32 b.length).bind fun bl =>
    (b.printFull separator (bl - 1).toNat 0 "").bind fun (full, sep) =>
      if 0 < bl then
        (int32 ((bl - 1) * 8)).bind fun start => (b.printTail (b.length - start).toNat start).map fun tail =>
          (full ++ .separator sep :: tail, b)
      else some (full, b)

end Allocated

/-! ## The specification -/

/-- An array of booleans, and the element that the reference given out last refers to while it is live. -/
structure BitArray where
  value : Int → Bool
  live : Option Int

/-- One access to an array of `n` booleans; outside of it, or through a dead reference, there is none. -/
def BitArray.step (n : Int) (a : BitArray) : Access → Option (Option Bool × BitArray)
  | .read index => if 0 ≤ index ∧ index < n then some (some (a.value index), a) else none
  | .refer index =>
      if 0 ≤ index ∧ index < n then some (some (a.value index), { a with live := some index }) else none
  | .put value => a.live.map fun index => (none, { a with value := Function.update a.value index value })

theorem BitArray.step_read {n i : Int} (a : BitArray) (h : 0 ≤ i ∧ i < n) :
    a.step n (.read i) = some (some (a.value i), a) := if_pos h

theorem BitArray.step_refer {n i : Int} (a : BitArray) (h : 0 ≤ i ∧ i < n) :
    a.step n (.refer i) = some (some (a.value i), { a with live := some i }) := if_pos h

/-- The bit vector `b` holds the first `n` elements of the array `a`: among its bytes, the pending write
included, which is the element that a live reference refers to. -/
structure Holds (n : Int) (a : BitArray) (b : Allocated) : Prop where
  wf : b.WF
  length : n ≤ b.length
  bytes : Bitfield.toBytelength n ≤ b.bytes
  pending : b.lastModIndex < b.length → b.lastModIndex / 8 < b.bytes
  read : ∀ i, 0 ≤ i → i < n → b.read i = a.value i
  live : ∀ i, a.live = some i → 0 ≤ i ∧ i < n ∧ b.lastModIndex = i

/-! ## One access -/

namespace Allocated

open Bitfield

theorem byte?_of_lt {b : Allocated} {i : Int} (h0 : 0 ≤ i) (h1 : i < b.bytes) : b.byte? i = some (b.array i) := by
  simp [byte?, h0, h1]

theorem get?_of_lt {b : Allocated} {n i : Int} (hb : toBytelength n ≤ b.bytes) (h0 : 0 ≤ i) (hi : i < n) :
    b.get? i = some (b.getBit i) := by
  unfold toBytelength at hb
  rw [get?, byte?_of_lt (by omega) (by omega)]
  rfl

end Allocated

namespace Holds

open Bitfield

variable {n : Int} {a : BitArray} {b : Allocated}

theorem read? (h : Holds n a b) {i : Int} (h0 : 0 ≤ i) (hi : i < n) : b.read? i = some (a.value i) := by
  rw [← h.read i h0 hi]
  unfold Allocated.read? Bitfield.read
  split
  · rfl
  · exact Allocated.get?_of_lt h.bytes h0 hi

theorem update? (h : Holds n a b) : b.update? = some { b with toBitfield := b.toBitfield.update } := by
  unfold Allocated.update?
  split
  · rename_i hlt
    have := h.wf.lo
    rw [Allocated.byte?_of_lt (by omega) (h.pending hlt)]
    rfl
  · rename_i hlt
    rw [Bitfield.update, if_neg hlt]

/-- The non-const `operator[]` writes the pending bit back and hands out the element asked for. -/
theorem access? (h : Holds n a b) {i : Int} (h0 : 0 ≤ i) (hi : i < n) :
    ∃ b', b.access? i = some b' ∧ b'.lastModValue = a.value i ∧ Holds n { a with live := some i } b' ∧
      b'.length = b.length := by
  have hget : ({ b with toBitfield := b.toBitfield.update } : Allocated).get? i = some (b.update.getBit i) :=
    Allocated.get?_of_lt (b := { b with toBitfield := b.toBitfield.update }) h.bytes h0 hi
  have hlen : i < b.length := lt_of_lt_of_le hi h.length
  refine ⟨{ b with toBitfield := b.toBitfield.access i }, ?_, ?_, ⟨?_, ?_, h.bytes, ?_, ?_, ?_⟩, length_access _ _⟩
  · rw [Allocated.access?, h.update?, Option.bind_some, hget]
    rfl
  · rw [← h.read i h0 hi]
    exact lastModValue_access h.wf hlen
  · exact WF.access h0 hlen
  · exact h.length.trans (length_access _ _).ge
  · intro _
    have := h.bytes
    unfold toBytelength at this
    show i / 8 < b.bytes
    omega
  · intro j hj0 hj
    rw [← h.read j hj0 hj]
    exact read_access h.wf (lt_of_lt_of_le hj h.length)
  · rintro j ⟨⟩
    exact ⟨h0, hi, rfl⟩

theorem put (h : Holds n a b) {i : Int} (hl : a.live = some i) (v : Bool) :
    Holds n { a with value := Function.update a.value i v } (b.put v) := by
  obtain ⟨-, -, hi⟩ := h.live i hl
  refine ⟨⟨h.wf.lo, h.wf.hi⟩, h.length, h.bytes, h.pending, ?_, h.live⟩
  intro j hj0 hj
  show (if j = b.lastModIndex then v else b.getBit j) = Function.update a.value i v j
  by_cases hji : j = i
  · simp [hji, hi]
  · have hr : b.read j = b.getBit j := by simp [Bitfield.read, hi, hji]
    rw [Function.update_of_ne hji, ← h.read j hj0 hj, hr, hi, if_neg hji]

end Holds

/-- One access to a bit vector is answered as the array it holds answers it. -/
theorem access_simulates (n : Int) : Simulates (Holds n) id (BitArray.step n) Allocated.step := by
  rintro a b (i | i | v) w a' h hs
  · rw [BitArray.step, Option.ite_none_right_eq_some] at hs
    obtain ⟨⟨h0, hi⟩, ⟨⟩⟩ := hs
    exact ⟨some (a.value i), b, by simp [Allocated.step, h.read? h0 hi], rfl, h⟩
  · rw [BitArray.step, Option.ite_none_right_eq_some] at hs
    obtain ⟨⟨h0, hi⟩, ⟨⟩⟩ := hs
    obtain ⟨b', hb', hv, h', -⟩ := h.access? h0 hi
    exact ⟨some (a.value i), b', by simp [Allocated.step, hb', hv], rfl, h'⟩
  · obtain ⟨i, hl, ⟨⟩⟩ := Option.map_eq_some_iff.1 hs
    exact ⟨none, b.put v, rfl, rfl, h.put hl v⟩

/-! ## Printing -/

/-- `count` elements of `f` from `start` on. -/
def window (f : Int → Bool) (start : Int) (count : Nat) : List Bool :=
  (List.range count).map fun j : Nat => f (start + j)

theorem window_add (f : Int → Bool) (start : Int) (m k : Nat) :
    window f start (m + k) = window f start m ++ window f (start + m) k := by
  simp [window, List.range_add, Int.add_assoc, Function.comp_def]

theorem window_succ (f : Int → Bool) (start : Int) (k : Nat) :
    window f start (k + 1) = f start :: window f (start + 1) k := by
  rw [Nat.add_comm, window_add]
  simp [window]

theorem window_congr {f g : Int → Bool} {start : Int} {count : Nat}
    (h : ∀ j, start ≤ j → j < start + count → f j = g j) : window f start count = window g start count := by
  apply List.map_congr_left
  intro j hj
  have := List.mem_range.1 hj
  exact h _ (by omega) (by omega)

namespace Printed

@[simp] theorem bits_nil : bits [] = [] := rfl

@[simp] theorem bits_separator (t : String) (ps : List Printed) : bits (.separator t :: ps) = bits ps := rfl

@[simp] theorem bits_bit (v : Bool) (ps : List Printed) : bits (.bit v :: ps) = v :: bits ps := rfl

@[simp] theorem bits_append (ps qs : List Printed) : bits (ps ++ qs) = bits ps ++ bits qs := List.filterMap_append

end Printed

namespace Allocated

open Bitfield

theorem bits_printByte : ∀ (k : Nat) (d : BitVec 8), Printed.bits (printByte k d) = (List.range k).map d.getLsbD
  | 0, _ => rfl
  | k + 1, d => by
    have hlow : (d &&& 1 == 1) = d.getLsbD 0 := by
      have := getBit_eq ⟨0, 0, false, fun _ => d⟩ 0
      rw [BitVec.and_comm]
      simpa [getBit] using this
    have hshift : (d >>> 1).getLsbD = fun j => d.getLsbD (j + 1) := by
      funext j
      rw [BitVec.getLsbD_ushiftRight, Nat.add_comm]
    rw [printByte, Printed.bits_bit, bits_printByte k, hlow, hshift, List.range_succ_eq_map]
    simp [Function.comp_def]

/-- A byte printed from its lowest bit on are the eight elements it packs. -/
theorem bits_printByte_array (b : Allocated) (i : Int) :
    Printed.bits (printByte 8 (b.array i)) = window b.getBit (8 * i) 8 := by
  rw [bits_printByte]
  apply List.map_congr_left
  intro j hj
  have := List.mem_range.1 hj
  rw [getBit_eq, show (8 * i + (j : Int)) / 8 = i by omega, show ((8 * i + (j : Int)) % 8).toNat = j by omega]

theorem printFull_spec {b : Allocated} (separator : String) : ∀ (k : Nat) (i : Int) (sep : String), 0 ≤ i →
    i + k ≤ b.bytes → ∃ ps sep', b.printFull separator k i sep = some (ps, sep') ∧
      Printed.bits ps = window b.getBit (8 * i) (8 * k)
  | 0, i, sep, _, _ => ⟨[], sep, rfl, rfl⟩
  | k + 1, i, sep, h0, hi => by
    obtain ⟨ps, sep', h1, h2⟩ := printFull_spec (b := b) separator k (i + 1) separator (by omega)
      (by push_cast at hi; omega)
    refine ⟨.separator sep :: printByte 8 (b.array i) ++ ps, sep', ?_, ?_⟩
    · rw [printFull, byte?_of_lt h0 (by push_cast at hi; omega), Option.bind_some, h1]
      rfl
    · rw [List.cons_append, Printed.bits_separator, Printed.bits_append, bits_printByte_array, h2,
        show 8 * (k + 1) = 8 + 8 * k by omega, window_add, show 8 * (i + 1) = 8 * i + (8 : Nat) by push_cast; omega]

theorem printTail_spec {b : Allocated} : ∀ (k : Nat) (i : Int), 0 ≤ i → toBytelength (i + k) ≤ b.bytes →
    ∃ ps, b.printTail k i = some ps ∧ Printed.bits ps = window b.getBit i k
  | 0, i, _, _ => ⟨[], rfl, rfl⟩
  | k + 1, i, h0, hb => by
    have hi : i + 1 + (k : Int) = i + (k + 1 : Nat) := by push_cast; omega
    obtain ⟨ps, h1, h2⟩ := printTail_spec k (i + 1) (by omega) (by rw [hi]; exact hb)
    refine ⟨.bit (b.getBit i) :: ps, ?_, ?_⟩
    · rw [printTail, get?_of_lt hb h0 (by push_cast; omega), Option.bind_some, h1]
      rfl
    · rw [Printed.bits_bit, h2, window_succ]

end Allocated

theorem int32_of_mem {x : Int} (h0 : -2 ^ 31 ≤ x) (h1 : x < 2 ^ 31) : int32 x = some x := if_pos ⟨h0, h1⟩

theorem toBytelength32_eq {n : Int} (h0 : 0 ≤ n) (hn : n + 7 < 2 ^ 31) :
    Allocated.toBytelength32 n = some (Bitfield.toBytelength n) := by
  rw [Allocated.toBytelength32, int32_of_mem (by omega) hn]
  rfl

/-- `b` holds the whole of an array of `n` booleans. -/
def HoldsAll (n : Int) (a : BitArray) (b : Allocated) : Prop := Holds n a b ∧ b.length = n

namespace HoldsAll

open Bitfield

variable {n : Int} {a : BitArray} {b : Allocated}

theorem new {mem : Int → BitVec 8} (h0 : 0 ≤ n) {bytes : Int} (hb : toBytelength n ≤ bytes) :
    HoldsAll n ⟨(Bitfield.new mem n).getBit, none⟩ ⟨Bitfield.new mem n, bytes⟩ := by
  refine ⟨⟨wf_new mem h0, le_refl n, hb, fun h => absurd h (lt_irrefl n), ?_, nofun⟩, rfl⟩
  intro i _ hi
  exact if_neg (fun e : i = n => absurd hi (by omega))

theorem construct (mem : Int → BitVec 8) (h0 : 0 ≤ n) (hn : n + 7 < 2 ^ 31) :
    ∃ b, Allocated.construct mem n = some b ∧ HoldsAll n ⟨(Bitfield.new mem n).getBit, none⟩ b := by
  unfold Allocated.construct
  split
  · rw [toBytelength32_eq h0 hn]
    exact ⟨_, rfl, new h0 le_rfl⟩
  · exact ⟨_, rfl, new h0 (by unfold toBytelength; omega)⟩

/-- A copy holds what its source holds, the pending write included. -/
theorem copied (h : HoldsAll n a b) (mem : Int → BitVec 8) :
    HoldsAll n { a with live := none } (b.copied mem (toBytelength n)) := by
  obtain ⟨h, rfl⟩ := h
  have hbytes : toBytelength b.length ≤ if 0 < b.length then toBytelength b.length else 0 := by
    unfold toBytelength
    split <;> omega
  refine ⟨⟨h.wf.copy mem, le_refl _, hbytes, ?_, ?_, nofun⟩, rfl⟩
  · intro (hlt : b.lastModIndex < b.length)
    have := h.wf.lo
    refine lt_of_lt_of_le ?_ hbytes
    show b.lastModIndex / 8 < toBytelength b.length
    unfold toBytelength
    omega
  · intro i hi0 hi
    rw [← h.read i hi0 hi]
    exact read_copy mem b.toBitfield hi0 hi

theorem copyConstruct (h : HoldsAll n a b) (h0 : 0 ≤ n) (hn : n + 7 < 2 ^ 31) (mem : Int → BitVec 8) :
    Allocated.copyConstruct mem b = some (b.copied mem (toBytelength n)) := by
  rw [Allocated.copyConstruct, h.2, toBytelength32_eq h0 hn, Option.bind_some, if_pos h.1.bytes]

/-- Without a pending write no reference is live. -/
theorem update (h : HoldsAll n a b) (h0 : 0 ≤ n) :
    HoldsAll n { a with live := none } { b with toBitfield := b.toBitfield.update } := by
  obtain ⟨h, rfl⟩ := h
  have hlen : b.update.length = b.length := length_update _
  have hnone : b.length ≤ b.update.lastModIndex ∧ b.update.lastModIndex ≤ b.length := by
    unfold Bitfield.update
    split
    · exact ⟨le_rfl, le_rfl⟩
    · rename_i hge
      exact ⟨not_lt.1 hge, h.wf.hi⟩
  refine ⟨⟨⟨?_, ?_⟩, hlen.ge, h.bytes, ?_, ?_, nofun⟩, hlen⟩
  · exact h0.trans hnone.1
  · exact hnone.2.trans hlen.ge
  · intro (hlt : b.update.lastModIndex < b.update.length)
    omega
  · intro i hi0 hi
    have hne : i ≠ b.update.lastModIndex := by omega
    rw [← h.read i hi0 hi, ← getBit_update h.wf hi]
    exact if_neg hne

theorem print (h : HoldsAll n a b) (h0 : 0 ≤ n) (hn : n + 7 < 2 ^ 31) (separator : String) :
    ∃ ps b', b.print separator = some (ps, b') ∧ Printed.bits ps = window a.value 0 n.toNat ∧
      HoldsAll n { a with live := none } b' := by
  obtain ⟨h, rfl⟩ := h
  have hlen : b.update.length = b.length := length_update _
  have hbits : window b.update.getBit 0 b.length.toNat = window a.value 0 b.length.toNat := by
    apply window_congr
    intro j hj0 hj
    rw [← h.read j hj0 (by omega)]
    exact getBit_update h.wf (by omega)
  have hafter := HoldsAll.update ⟨h, rfl⟩ h0
  have hbl : toBytelength b.length ≤ b.bytes := h.bytes
  have hdef : toBytelength b.length = (b.length + 7) / 8 := rfl
  obtain ⟨full, sep, hfull, hf⟩ := Allocated.printFull_spec (b := { b with toBitfield := b.toBitfield.update })
    separator (toBytelength b.length - 1).toNat 0 "" le_rfl (by show _ ≤ b.bytes; omega)
  rw [Allocated.print, h.update?, Option.bind_some, hlen, toBytelength32_eq h0 hn, Option.bind_some, hfull,
    Option.bind_some, ← hbits]
  simp only
  split
  · rename_i hpos
    -- the full bytes end where the last byte begins
    have hstart : ((toBytelength b.length - 1) * 8).toNat = 8 * (toBytelength b.length - 1).toNat := by omega
    obtain ⟨tail, htail, ht⟩ := Allocated.printTail_spec (b := { b with toBitfield := b.toBitfield.update })
      (b.length - (toBytelength b.length - 1) * 8).toNat ((toBytelength b.length - 1) * 8) (by omega)
      (by rw [show (toBytelength b.length - 1) * 8 + ((b.length - (toBytelength b.length - 1) * 8).toNat : Int) =
            b.length by omega]; exact hbl)
    rw [int32_of_mem (by omega) (by omega), Option.bind_some, htail]
    refine ⟨_, _, rfl, ?_, hafter⟩
    rw [Printed.bits_append, Printed.bits_separator, hf, ht]
    rw [show b.length.toNat = 8 * (toBytelength b.length - 1).toNat +
      (b.length - (toBytelength b.length - 1) * 8).toNat by omega, window_add]
    rw [show (0 : Int) + (8 * (toBytelength b.length - 1).toNat : Nat) = (toBytelength b.length - 1) * 8 by omega]
    rfl
  · refine ⟨_, _, rfl, ?_, hafter⟩
    rw [hf, show 8 * (toBytelength b.length - 1).toNat = b.length.toNat by omega]
    rfl

/-- One access leaves the length alone. -/
theorem access_simulates (n : Int) : Simulates (HoldsAll n) id (BitArray.step n) Allocated.step := by
  rintro a b o w a' ⟨h, hlen⟩ hs
  obtain ⟨w', b', h1, h2, h3⟩ := Util.access_simulates n a b o w a' h hs
  refine ⟨w', b', h1, h2, h3, ?_⟩
  rw [← hlen]
  cases o with
  | read i =>
    obtain ⟨_, _, ⟨⟩⟩ := Option.map_eq_some_iff.1 h1
    rfl
  | refer i =>
    rw [BitArray.step, Option.ite_none_right_eq_some] at hs
    obtain ⟨⟨h0, hi⟩, ⟨⟩⟩ := hs
    obtain ⟨c, hc, -, -, hl⟩ := h.access? h0 hi
    simp only [Allocated.step, hc, Option.map_some, Option.some.injEq, Prod.mk.injEq] at h1
    rw [← h1.2, hl]
  | put v =>
    cases h1
    rfl

end HoldsAll

/-! ## Any number of bit vectors -/

/-- What is done with the bit vectors that exist, numbered in the order of their construction. -/
inductive Op where
  | access (k : Nat) (a : Access)
  | print (k : Nat) (separator : String)
  | copy (k : Nat) (mem : Int → BitVec 8)

/-- The element read, or what was printed. -/
inductive Answer (π : Type) where
  | element (value : Option Bool)
  | printed (p : π)
  | constructed
  deriving DecidableEq

def Answer.map {π ρ : Type} (f : π → ρ) : Answer π → Answer ρ
  | .element value => .element value
  | .printed p => .printed (f p)
  | .constructed => .constructed

/-- The bit vectors of a program. -/
def Pool.step (pool : List Allocated) : Op → Option (Answer (List Printed) × List Allocated)
  | .access k o => pool[k]?.bind fun b => (b.step o).map fun r => (.element r.1, pool.set k r.2)
  | .print k separator => pool[k]?.bind fun b => (b.print separator).map fun r => (.printed r.1, pool.set k r.2)
  | .copy k mem => pool[k]?.bind fun b => (b.copyConstruct mem).map fun c => (.constructed, pool ++ [c])

/-- Arrays of `n` booleans; to print one is to access all of it, so its reference is dead afterwards. -/
def Arrays.step (n : Int) (arrays : List BitArray) : Op → Option (Answer (List Bool) × List BitArray)
  | .access k o => arrays[k]?.bind fun a => (a.step n o).map fun r => (.element r.1, arrays.set k r.2)
  | .print k _ => arrays[k]?.map fun a =>
      (.printed (window a.value 0 n.toNat), arrays.set k { a with live := none })
  | .copy k _ => arrays[k]?.map fun a => (.constructed, arrays ++ [{ a with live := none }])

theorem pool_simulates {n : Int} (h0 : 0 ≤ n) (hn : n + 7 < 2 ^ 31) :
    Simulates (List.Forall₂ (HoldsAll n)) (Answer.map Printed.bits) (Arrays.step n) Pool.step := by
  rintro arrays pool (⟨k, o⟩ | ⟨k, separator⟩ | ⟨k, mem⟩) w arrays' h hs
  · obtain ⟨a, ha, hs⟩ := Option.bind_eq_some_iff.1 hs
    obtain ⟨⟨w', a'⟩, ho, ⟨⟩⟩ := Option.map_eq_some_iff.1 hs
    obtain ⟨b, hb, hab⟩ := forall₂_getElem? h ha
    obtain ⟨v, b', h1, rfl, h3⟩ := HoldsAll.access_simulates n a b o w' a' hab ho
    exact ⟨.element v, pool.set k b', by simp [Pool.step, hb, h1], rfl, forall₂_set h h3 k⟩
  · obtain ⟨a, ha, ⟨⟩⟩ := Option.map_eq_some_iff.1 hs
    obtain ⟨b, hb, hab⟩ := forall₂_getElem? h ha
    obtain ⟨ps, b', h1, h2, h3⟩ := hab.print h0 hn separator
    exact ⟨.printed ps, pool.set k b', by simp [Pool.step, hb, h1], congrArg Answer.printed h2, forall₂_set h h3 k⟩
  · obtain ⟨a, ha, ⟨⟩⟩ := Option.map_eq_some_iff.1 hs
    obtain ⟨b, hb, hab⟩ := forall₂_getElem? h ha
    exact ⟨.constructed, _, by simp only [Pool.step, hb, Option.bind_some, hab.copyConstruct h0 hn mem]; rfl, rfl,
      List.rel_append h (.cons (hab.copied mem) .nil)⟩

/-- A bit vector of any length that fits, and every copy made of it, answers as the array of booleans
that its memory spells out at first. -/
theorem bits_behave_as_array {n : Int} (h0 : 0 ≤ n) (hn : n + 7 < 2 ^ 31) (mem : Int → BitVec 8) {ops : List Op}
    {answered : List (Answer (List Bool))}
    (hlegal : answers (Arrays.step n) [⟨fun i => (mem (i / 8)).getLsbD (i % 8).toNat, none⟩] ops = some answered) :
    ∃ b given, Allocated.construct mem n = some b ∧ answers Pool.step [b] ops = some given ∧
      given.map (Answer.map Printed.bits) = answered := by
  obtain ⟨b, hb, h⟩ := HoldsAll.construct mem h0 hn
  have hinit : (Bitfield.new mem n).getBit = fun i => (mem (i / 8)).getLsbD (i % 8).toNat := by
    funext i
    exact Bitfield.getBit_eq _ i
  rw [hinit] at h
  obtain ⟨given, h1, h2⟩ := (pool_simulates h0 hn).run (.cons h .nil) hlegal
  exact ⟨b, given, hb, h1, h2⟩

/-- Eleven bits, the last two assigned through references, a copy taken while one of them is pending;
then source and copy differ by the bit assigned after the copy. -/
theorem bits_behave_as_array_eleven :
    ∃ b given, Allocated.construct (fun _ => 0) 11 = some b ∧
      answers Pool.step [b] [.access 0 (.refer 10), .access 0 (.put true), .copy 0 fun _ => 0xff, .access 1 (.refer 9),
        .access 1 (.put true), .access 1 (.read 9), .print 0 " ", .print 1 " "] = some given ∧
      given.map (Answer.map Printed.bits) = [.element (some false), .element none, .constructed,
        .element (some false), .element none, .element (some true),
        .printed [false, false, false, false, false, false, false, false, false, false, true],
        .printed [false, false, false, false, false, false, false, false, false, true, true]] :=
  bits_behave_as_array (by decide) (by decide) (fun _ => 0) (by decide +kernel)

end ParallelProbsat.Util
