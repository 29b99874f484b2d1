/-
`swap`, the move constructor and `operator=` of `util/bitfield.hpp`. They exchange the pending write
and the array, but not the length, which is const: what was one bit vector's content is then read and
written under the length of the other.

The content of a bit vector of length `n` under a length `m` behaves as before exactly when `n = 0`,
when `m = n`, or when `m` is larger and the write of the sentinel, which is an index like any other
there, stays inside the last byte or is still ahead.
-/
import ParallelProbsat.Util.BitArray
import Mathlib.Tactic

namespace ParallelProbsat.Util

open Lib Bitfield

namespace Allocated

/-- `bitfield()`. -/
def empty : Allocated := ⟨⟨0, 0, false, fun _ => 0⟩, 0⟩

def swap (a b : Allocated) : Allocated × Allocated :=
  ({ a with lastModIndex := b.lastModIndex, lastModValue := b.lastModValue, array := b.array, bytes := b.bytes },
   { b with lastModIndex := a.lastModIndex, lastModValue := a.lastModValue, array := a.array, bytes := a.bytes })

/-- The bit vector move-constructed from `other`, and `other` afterwards. -/
def moveConstruct (other : Allocated) : Allocated × Allocated := swap empty other

/-- `a = b`: the parameter is a copy of `b` over the memory `mem`. -/
def assignFrom (mem : Int → BitVec 8) (a b : Allocated) : Allocated :=
  (swap a (b.copied mem (toBytelength b.length))).1

/-- Bit vectors as their constructors and the accesses inside their length leave them. -/
structure Sound (b : Allocated) : Prop where
  nonneg : 0 ≤ b.length
  wf : b.WF
  bytes : b.bytes = toBytelength b.length

/-- Reads and writes inside the length `n`, writes through a reference that is live. -/
def allowed (n : Int) : Bool → List Access → Bool
  | _, [] => true
  | live, .read i :: os => decide (0 ≤ i ∧ i < n) && allowed n live os
  | _, .refer i :: os => decide (0 ≤ i ∧ i < n) && allowed n true os
  | live, .put _ :: os => live && allowed n live os

/-- `x` answers every sequence of reads and writes inside the length `n` as `y` does. -/
def SameBehaviour (n : Int) (x y : Allocated) : Prop :=
  ∀ os, allowed n false os = true → answers step x os = answers step y os

/-- The content of `b` under the length `m`. -/
def under (b : Allocated) (m : Int) : Allocated := { b with length := m }

theorem swap_eq (a b : Allocated) : swap a b = (b.under a.length, a.under b.length) := rfl

theorem assignFrom_eq (mem : Int → BitVec 8) (a b : Allocated) :
    assignFrom mem a b = (b.copied mem (toBytelength b.length)).under a.length := rfl

/-! ## Sequences that are allowed -/

theorem answers_of_allowed {n : Int} : ∀ (os : List Access) (a : BitArray), allowed n a.live.isSome os = true →
    ∃ ws, answers (BitArray.step n) a os = some ws
  | [], _, _ => ⟨[], rfl⟩
  | .read i :: os, a, h => by
    simp only [allowed, Bool.and_eq_true, decide_eq_true_eq] at h
    obtain ⟨ws, hws⟩ := answers_of_allowed os a h.2
    exact ⟨some (a.value i) :: ws, by rw [answers_cons (BitArray.step n) (a.step_read h.1), hws]; rfl⟩
  | .refer i :: os, a, h => by
    simp only [allowed, Bool.and_eq_true, decide_eq_true_eq] at h
    obtain ⟨ws, hws⟩ := answers_of_allowed os { a with live := some i } h.2
    exact ⟨some (a.value i) :: ws, by rw [answers_cons (BitArray.step n) (a.step_refer h.1), hws]; rfl⟩
  | .put v :: os, a, h => by
    simp only [allowed, Bool.and_eq_true] at h
    obtain ⟨i, hi⟩ := Option.isSome_iff_exists.1 h.1
    obtain ⟨ws, hws⟩ := answers_of_allowed os { a with value := Function.update a.value i v } h.2
    have hstep : a.step n (.put v) = some (none, { a with value := Function.update a.value i v }) := by
      rw [BitArray.step, hi]
      rfl
    exact ⟨none :: ws, by rw [answers_cons (BitArray.step n) hstep, hws]; rfl⟩

/-- Two bit vectors that hold the same elements behave alike. -/
theorem sameBehaviour_of_holds {n : Int} {v : Int → Bool} {x y : Allocated} (hx : Holds n ⟨v, none⟩ x)
    (hy : Holds n ⟨v, none⟩ y) : SameBehaviour n x y := by
  intro os hos
  obtain ⟨ws, hws⟩ := answers_of_allowed os ⟨v, none⟩ hos
  exact (access_simulates n).agree (access_simulates n) hx hy hws

/-! ## Content under another length -/

theorem Sound.of_construct {mem : Int → BitVec 8} {n : Int} {b : Allocated} (h0 : 0 ≤ n)
    (h : construct mem n = some b) : b.Sound := by
  unfold construct at h
  split at h
  · obtain ⟨bl, hbl, rfl⟩ := Option.map_eq_some_iff.1 h
    obtain ⟨s, hs, rfl⟩ := Option.map_eq_some_iff.1 hbl
    rw [int32, Option.ite_none_right_eq_some] at hs
    obtain ⟨-, ⟨⟩⟩ := hs
    exact ⟨h0, wf_new mem h0, rfl⟩
  · cases h
    refine ⟨h0, wf_new mem h0, ?_⟩
    show 0 = (n + 7) / 8
    omega

theorem Sound.under_holds {b : Allocated} (hb : b.Sound) {m : Int} (hm : b.length ≤ m)
    (hsentinel : m = b.length ∨ ¬(b.lastModIndex = b.length ∧ b.length % 8 = 0)) :
    Holds b.length ⟨b.read, none⟩ (b.under m) := by
  have hbytes := hb.bytes
  have h0 := hb.nonneg
  have hlo := hb.wf.lo
  have hhi := hb.wf.hi
  unfold toBytelength at hbytes
  refine ⟨⟨hlo, hhi.trans hm⟩, hm, hb.bytes.ge, ?_, fun _ _ _ => rfl, nofun⟩
  intro (hlt : b.lastModIndex < m)
  show b.lastModIndex / 8 < b.bytes
  omega

theorem Sound.holds {b : Allocated} (hb : b.Sound) : Holds b.length ⟨b.read, none⟩ b := hb.under_holds le_rfl (.inl rfl)

/-- What is put through the reference to an element is the next answer for it. -/
theorem Sound.answers_put {b : Allocated} (hb : b.Sound) {i : Int} (hi : 0 ≤ i ∧ i < b.length) (v : Bool) :
    ∃ x y, answers step b [.refer i, .put v, .refer i] = some [x, y, some v] := by
  have hspec : answers (BitArray.step b.length) ⟨b.read, none⟩ [.refer i, .put v, .refer i] =
      some [some (b.read i), none, some v] := by
    rw [answers_cons _ (BitArray.step_refer _ hi), answers_cons (BitArray.step b.length) rfl,
      answers_cons _ (BitArray.step_refer _ hi)]
    simp [answers]
  obtain ⟨os, h1, h2⟩ := (access_simulates b.length).run hb.holds hspec
  rw [List.map_id] at h2
  exact ⟨_, _, h2 ▸ h1⟩

/-- What the non-const `operator[]` leaves behind, whatever it started from. -/
theorem access?_spec {b c : Allocated} {i : Int} (h : b.access? i = some c) :
    c.length = b.length ∧ c.bytes = b.bytes ∧ c.lastModIndex = i ∧ c.get? i = some c.lastModValue := by
  obtain ⟨u, hu, hc⟩ := Option.bind_eq_some_iff.1 h
  obtain ⟨g, hg, rfl⟩ := Option.map_eq_some_iff.1 hc
  have hframe : u.length = b.length ∧ u.bytes = b.bytes := by
    unfold update? at hu
    split at hu
    · obtain ⟨_, _, rfl⟩ := Option.map_eq_some_iff.1 hu
      exact ⟨length_update _, rfl⟩
    · cases hu
      exact ⟨rfl, rfl⟩
  exact ⟨hframe.1, hframe.2, rfl, hg⟩

/-- Behind the length nothing is pending, and an access finds the bit as it is in its byte. -/
theorem access?_of_le {b : Allocated} (h : b.length ≤ b.lastModIndex) (i : Int) :
    b.access? i = (b.get? i).map fun value => { b with lastModIndex := i, lastModValue := value } := by
  rw [access?, update?, if_neg (not_lt.2 h)]
  rfl

/-- A shorter length `m`: the element `m` has the index of the sentinel, and what is put there is lost. -/
theorem Sound.lost {b : Allocated} (hb : b.Sound) {m : Int} (h0 : 0 ≤ m) (hm : m < b.length) :
    ¬SameBehaviour b.length (b.under m) b := by
  intro hsame
  have hallowed : ∀ v, allowed b.length false [.refer m, .put v, .refer m] = true := by simp [allowed, h0, hm]
  cases hacc : (b.under m).access? m with
  | none =>
    obtain ⟨x, y, h⟩ := hb.answers_put ⟨h0, hm⟩ true
    rw [← hsame _ (hallowed true), answers_cons_none _ (by simp [step, hacc])] at h
    cases h
  | some c =>
    obtain ⟨x, y, h⟩ := hb.answers_put ⟨h0, hm⟩ (!c.lastModValue)
    obtain ⟨hlen, -, hidx, hget⟩ := access?_spec hacc
    have hge : c.length ≤ c.lastModIndex := hlen.trans_le hidx.ge
    have hagain : (c.put (!c.lastModValue)).access? m = some c := by
      rw [access?_of_le (b := c.put (!c.lastModValue)) hge]
      show (c.get? m).map _ = _
      rw [hget, ← hidx]
      rfl
    have hlost : answers step (b.under m) [.refer m, .put (!c.lastModValue), .refer m] =
        some [some c.lastModValue, none, some c.lastModValue] := by
      simp [answers, step, hacc, hagain]
    rw [← hsame _ (hallowed _), hlost] at h
    simp at h

/-- A longer length, nothing pending and a full last byte: the first access writes behind the array. -/
theorem Sound.overrun {b : Allocated} (hb : b.Sound) {m : Int} (hpos : 0 < b.length) (hm : b.length < m)
    (hnone : b.lastModIndex = b.length) (hfull : b.length % 8 = 0) : ¬SameBehaviour b.length (b.under m) b := by
  intro hsame
  have hbytes := hb.bytes
  unfold toBytelength at hbytes
  have hbyte : (b.under m).byte? ((b.under m).lastModIndex / 8) = none := by
    have hout : ¬(b.lastModIndex / 8 < b.bytes) := by omega
    show (if 0 ≤ b.lastModIndex / 8 ∧ b.lastModIndex / 8 < b.bytes then _ else _) = _
    rw [if_neg (fun h => hout h.2)]
  have hacc : (b.under m).access? 0 = none := by
    have hpending : (b.under m).lastModIndex < (b.under m).length := hnone.trans_lt hm
    rw [access?, update?, if_pos hpending, hbyte]
    rfl
  obtain ⟨x, y, h⟩ := hb.answers_put ⟨le_rfl, hpos⟩ true
  rw [← hsame _ (by simp [allowed, hpos]), answers_cons_none _ (by simp [step, hacc])] at h
  cases h

theorem Sound.under_iff {b : Allocated} (hb : b.Sound) {m : Int} (h0 : 0 ≤ m) :
    SameBehaviour b.length (b.under m) b ↔
      b.length = 0 ∨ m = b.length ∨ b.length < m ∧ ¬(b.lastModIndex = b.length ∧ b.length % 8 = 0) := by
  have hn := hb.nonneg
  constructor
  · intro h
    by_contra hne
    push Not at hne
    obtain ⟨h1, h2, h3⟩ := hne
    rcases lt_or_gt_of_ne h2 with hlt | hgt
    · exact hb.lost h0 hlt h
    · obtain ⟨h4, h5⟩ := h3 hgt
      exact hb.overrun (by omega) hgt h4 h5 h
  · rintro (hz | heq | ⟨hlt, hs⟩)
    · rintro (_ | ⟨(i | i | v), os⟩) hos
      · rfl
      · simp [allowed, hz] at hos
        omega
      · simp [allowed, hz] at hos
        omega
      · simp [allowed] at hos
    · exact sameBehaviour_of_holds (hb.under_holds heq.ge (.inl heq)) hb.holds
    · exact sameBehaviour_of_holds (hb.under_holds hlt.le (.inr hs)) hb.holds

/-! ## Copies -/

theorem Sound.copied {b : Allocated} (hb : b.Sound) (mem : Int → BitVec 8) :
    (b.copied mem (toBytelength b.length)).Sound := by
  refine ⟨hb.nonneg, hb.wf.copy mem, ?_⟩
  have := hb.nonneg
  show (if 0 < b.length then toBytelength b.length else 0) = toBytelength b.length
  unfold toBytelength
  split <;> omega

/-- A copy behaves as its source. -/
theorem Sound.copied_same {b : Allocated} (hb : b.Sound) (mem : Int → BitVec 8) :
    SameBehaviour b.length (b.copied mem (toBytelength b.length)) b :=
  sameBehaviour_of_holds (HoldsAll.copied ⟨hb.holds, rfl⟩ mem).1 hb.holds

/-- Accesses inside the length and swaps between equal lengths leave bit vectors sound. -/
theorem Sound.step {b c : Allocated} {o : Access} {r : Option Bool} (hb : b.Sound)
    (hin : ∀ i, o = .refer i → 0 ≤ i ∧ i < b.length) (h : b.step o = some (r, c)) : c.Sound := by
  cases o with
  | read i =>
    obtain ⟨_, -, ⟨⟩⟩ := Option.map_eq_some_iff.1 h
    exact hb
  | refer i =>
    obtain ⟨c', hc, ⟨⟩⟩ := Option.map_eq_some_iff.1 h
    obtain ⟨hlen, hbytes, hidx, -⟩ := access?_spec hc
    obtain ⟨h0, hi⟩ := hin i rfl
    refine ⟨hlen ▸ hb.nonneg, ⟨hidx ▸ h0, ?_⟩, ?_⟩
    · rw [hidx, hlen]
      exact hi.le
    · rw [hbytes, hlen, hb.bytes]
  | put v =>
    cases h
    exact ⟨hb.nonneg, ⟨hb.wf.lo, hb.wf.hi⟩, hb.bytes⟩

theorem Sound.swap {a b : Allocated} (ha : a.Sound) (hb : b.Sound) (h : a.length = b.length) :
    (swap a b).1.Sound ∧ (swap a b).2.Sound := by
  constructor
  · exact ⟨ha.nonneg, ⟨hb.wf.lo, hb.wf.hi.trans h.ge⟩, hb.bytes.trans (congrArg toBytelength h.symm)⟩
  · exact ⟨hb.nonneg, ⟨ha.wf.lo, ha.wf.hi.trans h.le⟩, ha.bytes.trans (congrArg toBytelength h)⟩

theorem SameBehaviour.trans {n : Int} {x y z : Allocated} (h : SameBehaviour n x y) (h' : SameBehaviour n y z) :
    SameBehaviour n x z := fun os hos => (h os hos).trans (h' os hos)

theorem SameBehaviour.symm {n : Int} {x y : Allocated} (h : SameBehaviour n x y) : SameBehaviour n y x :=
  fun os hos => (h os hos).symm

/-! ## Moves, swaps and assignments -/

/-- When the value survives: a move only of an empty bit vector, a swap between equal lengths, and an
assignment to a target that is as long as the source, or longer with the write of the sentinel still
inside the last byte or hidden by a pending one. -/
theorem moved_iff {a b : Allocated} (ha : a.Sound) (hb : b.Sound) (mem : Int → BitVec 8) :
    (SameBehaviour a.length (moveConstruct a).1 a ↔ a.length = 0) ∧
    (SameBehaviour b.length (swap a b).1 b ∧ SameBehaviour a.length (swap a b).2 a ↔ a.length = b.length) ∧
    (SameBehaviour b.length (assignFrom mem a b) b ↔
      b.length = 0 ∨ a.length = b.length ∨
        b.length < a.length ∧ ¬(b.lastModIndex = b.length ∧ b.length % 8 = 0)) := by
  have ha0 := ha.nonneg
  have hb0 := hb.nonneg
  refine ⟨?_, ?_, ?_⟩
  · have := ha.under_iff (m := 0) le_rfl
    rw [moveConstruct, swap_eq]
    exact this.trans (by omega)
  · rw [swap_eq, hb.under_iff ha0, ha.under_iff hb0]
    omega
  · rw [assignFrom_eq]
    have hcopy := hb.copied_same mem
    refine Iff.trans ⟨fun h => h.trans hcopy.symm, fun h => h.trans hcopy⟩ ((hb.copied mem).under_iff ha0)

/-- Bit vectors of the lengths 1 and 2: none of the three keeps the value. -/
theorem moves_lose_writes : ∃ a b, construct (fun _ => 0) 1 = some a ∧ construct (fun _ => 0) 2 = some b ∧
    ¬SameBehaviour a.length (moveConstruct a).1 a ∧
    ¬(SameBehaviour b.length (swap a b).1 b ∧ SameBehaviour a.length (swap a b).2 a) ∧
    ¬SameBehaviour b.length (assignFrom (fun _ => 0) a b) b := by
  refine ⟨_, _, rfl, rfl, ?_, ?_, ?_⟩
  · intro h
    exact absurd (h [.refer 0, .put true, .refer 0] (by decide)) (by decide +kernel)
  · rintro ⟨h, -⟩
    exact absurd (h [.refer 1, .put true, .refer 1] (by decide)) (by decide +kernel)
  · intro h
    exact absurd (h [.refer 1, .put true, .refer 1] (by decide)) (by decide +kernel)

/-- A bit vector of length 9 assigned to one of length 16. -/
theorem moved_iff_longer : ∃ a b, construct (fun _ => 0) 16 = some a ∧ construct (fun _ => 0) 9 = some b ∧
    (SameBehaviour a.length (moveConstruct a).1 a ↔ a.length = 0) ∧
    (SameBehaviour b.length (swap a b).1 b ∧ SameBehaviour a.length (swap a b).2 a ↔ a.length = b.length) ∧
    (SameBehaviour b.length (assignFrom (fun _ => 0xff) a b) b ↔
      b.length = 0 ∨ a.length = b.length ∨
        b.length < a.length ∧ ¬(b.lastModIndex = b.length ∧ b.length % 8 = 0)) :=
  ⟨_, _, rfl, rfl, moved_iff (Sound.of_construct (n := 16) (by decide) rfl)
    (Sound.of_construct (n := 9) (by decide) rfl) _⟩

end Allocated

end ParallelProbsat.Util
