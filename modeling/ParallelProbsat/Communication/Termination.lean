/-
`send_termination_to_workers` with the subscripts it uses: two nested `do`-`while` loops over
`work_units`, the inner one skipping the entries equal to the current one. What is sent is right: one
TERMINATE per rank for every row of equal communicators. But the inner loop tests the entry after the last
one before anybody asks whether it is there, and an empty vector fails the assertion, so for no vector
does the function do all that it should. What lies behind the vector is a parameter.
-/
import ParallelProbsat.Lib.While
import ParallelProbsat.Communication.Server
import Mathlib.Data.List.Destutter

namespace ParallelProbsat.Communication

open ParallelProbsat.Lib ParallelProbsat.Util

/-! ## The function -/

/-- The vector `work_units`, the memory behind its end and the number of ranks of each communicator. -/
structure WorkUnits where
  units : List Comm
  behind : Nat → Comm
  commSize : Comm → Nat

/-- What stands at a subscript. -/
def WorkUnits.read (w : WorkUnits) (i : Nat) : Comm := w.units[i]?.getD (w.behind i)

/-- Where the function stands: before the body of the outer loop, before that of the inner loop, at its end. -/
inductive TerminationPoint where
  | send
  | skip
  | done
  deriving DecidableEq

/-- The variables of the function, the subscripts used so far and the ranks a TERMINATE was sent to. -/
structure Termination where
  point : TerminationPoint := .send
  i : Nat := 0
  currCl : Comm := 0
  subscripts : List Nat := []
  sent : List (Comm × Nat) := []

/-- One TERMINATE for every rank. -/
def WorkUnits.ranks (w : WorkUnits) (comm : Comm) : List (Comm × Nat) :=
  (List.range (w.commSize comm)).map fun id => (comm, id)

def Termination.goesOn (t : Termination) : Bool := t.point ≠ .done

/-- One round of the outer loop up to the inner one, or one round of the inner loop with the tests after it. -/
def WorkUnits.round (w : WorkUnits) (t : Termination) : Except Exn Termination :=
  match t.point with
  | .send => .ok { t with
      point := .skip
      currCl := w.read t.i
      -- `terminate::send` uses the subscript again for every rank
      subscripts := t.subscripts ++ t.i :: List.replicate (w.commSize (w.read t.i)) t.i
      sent := t.sent ++ w.ranks (w.read t.i) }
  | .skip => .ok { t with
      point := if t.currCl = w.read (t.i + 1) then .skip else if t.i + 1 < w.units.length then .send else .done
      i := t.i + 1
      subscripts := t.subscripts ++ [t.i + 1] }
  | .done => .ok t

/-- A call with the flag `terminated_workers`; it returns the flag and what the call did. -/
def WorkUnits.sendTerminationToWorkers (w : WorkUnits) (fuel : Nat) (terminatedWorkers : Bool) :
    Bool × Option (Except Exn Termination) :=
  if terminatedWorkers then (true, some (.ok {}))
  else (true, if 0 < w.units.length then whileLoop Termination.goesOn w.round fuel {}
    else some (.error (.assertion "0 < work_units.size()")))

/-- TERMINATE for every row of equal communicators. -/
def WorkUnits.expected (w : WorkUnits) (units : List Comm) : List (Comm × Nat) :=
  (units.destutter (· ≠ ·)).flatMap w.ranks

/-- The first call returns, uses no subscript outside of the vector and sends one TERMINATE per rank to each
row of equal communicators; a later call sends nothing. -/
def WorkUnits.Reached (w : WorkUnits) : Prop := ∃ fuel t,
  (w.sendTerminationToWorkers fuel false).2 = some (.ok t) ∧ (∀ i ∈ t.subscripts, i < w.units.length) ∧
  t.sent = w.expected w.units ∧
  ∀ fuel' t', (w.sendTerminationToWorkers fuel' (w.sendTerminationToWorkers fuel false).1).2 = some (.ok t') →
    t'.sent = []

/-! ## What is left to send -/

namespace WorkUnits

variable {w : WorkUnits} {t t' : Termination}

/-- What the function has still to send. -/
def left (w : WorkUnits) (t : Termination) : List (Comm × Nat) :=
  match t.point with
  | .send => w.expected (w.units.drop t.i)
  | .skip => ((w.units.drop (t.i + 1)).destutter' (· ≠ ·) t.currCl).tail.flatMap w.ranks
  | .done => []

theorem destutter'_eq_cons : ∀ (units : List Comm) (comm : Comm),
    units.destutter' (· ≠ ·) comm = comm :: (units.destutter' (· ≠ ·) comm).tail
  | [], _ => rfl
  | next :: units, comm => by
    by_cases h : comm ≠ next
    · rw [List.destutter'_cons_pos _ h]
      rfl
    · rw [List.destutter'_cons_neg _ h]
      exact destutter'_eq_cons units comm

/-- The first entry is sent to, then those that follow another one. -/
theorem expected_cons (comm : Comm) (units : List Comm) : w.expected (comm :: units) =
    w.ranks comm ++ (units.destutter' (· ≠ ·) comm).tail.flatMap w.ranks := by
  unfold expected
  rw [List.destutter_cons', destutter'_eq_cons]
  rfl

/-- What holds before each round. -/
structure Inv (w : WorkUnits) (t : Termination) : Prop where
  inside : t.point = .send → t.i < w.units.length
  curr : t.point = .skip → t.currCl = w.read t.i
  sent : t.sent ++ w.left t = w.expected w.units
  used : ∀ j, j < t.i ∨ (t.point ≠ .send ∧ j = t.i) → j ∈ t.subscripts
  past : t.point = .done → w.units.length ≤ t.i

theorem Inv.start (h : w.units ≠ []) : w.Inv {} where
  inside _ := List.length_pos_of_ne_nil h
  curr h := nomatch h
  sent := rfl
  used j h := by simp at h
  past h := nomatch h

theorem read_of_lt {i : Nat} (h : i < w.units.length) : w.read i = w.units[i] := by
  unfold read
  rw [List.getElem?_eq_getElem h]
  rfl

theorem Inv.send (h : w.Inv t) (hp : t.point = .send) (hr : w.round t = .ok t') : w.Inv t' := by
  unfold round at hr
  rw [hp] at hr
  cases hr
  have hi := h.inside hp
  refine ⟨nofun, fun _ => rfl, ?_, ?_, nofun⟩
  · rw [← h.sent]
    simp only [left, hp]
    rw [List.drop_eq_getElem_cons hi, expected_cons, read_of_lt hi, List.append_assoc]
  · rintro j (hj | ⟨-, rfl⟩)
    · exact List.mem_append_left _ (h.used j (.inl hj))
    · simp

theorem Inv.skip (h : w.Inv t) (hp : t.point = .skip) (hr : w.round t = .ok t') : w.Inv t' := by
  unfold round at hr
  rw [hp] at hr
  cases hr
  have hleft : w.left t = ((w.units.drop (t.i + 1)).destutter' (· ≠ ·) t.currCl).tail.flatMap w.ranks := by
    unfold left
    rw [hp]
  have hused : ∀ j, j < t.i + 1 ∨ j = t.i + 1 → j ∈ t.subscripts ++ [t.i + 1] := by
    rintro j (hj | rfl)
    · refine List.mem_append_left _ (h.used j ?_)
      rcases Nat.lt_succ_iff_lt_or_eq.1 hj with hj | rfl
      · exact .inl hj
      · exact .inr ⟨by simp [hp], rfl⟩
    · simp
  refine ⟨?_, ?_, ?_, fun j hj => hused j (hj.imp_right And.right), ?_⟩
  · simp only
    split_ifs with he hlt
    · exact nofun
    · exact fun _ => hlt
    · exact nofun
  · simp only
    split_ifs with he hlt
    · exact fun _ => he
    · exact nofun
    · exact nofun
  · rw [← h.sent, hleft]
    congr 1
    by_cases hlt : t.i + 1 < w.units.length
    · rw [List.drop_eq_getElem_cons hlt, ← read_of_lt hlt]
      by_cases he : t.currCl = w.read (t.i + 1)
      · -- the entry is skipped
        rw [List.destutter'_cons_neg _ (not_not.2 he)]
        simp [left, he]
      · -- the entry is the next one to send to
        rw [List.destutter'_cons_pos _ he]
        simp only [left, if_neg he, if_pos hlt]
        rw [List.drop_eq_getElem_cons hlt, ← read_of_lt hlt]
        rfl
    · rw [List.drop_eq_nil_of_le (not_lt.1 hlt)]
      unfold left
      simp only [if_neg hlt]
      split_ifs with he
      · simp [List.drop_eq_nil_of_le (show w.units.length ≤ t.i + 1 + 1 by omega)]
      · rfl
  · simp only
    split_ifs with he hlt
    · exact nofun
    · exact nofun
    · exact fun _ => not_lt.1 hlt

theorem Inv.round (h : w.Inv t) (hg : t.goesOn = true) (hr : w.round t = .ok t') : w.Inv t' := by
  cases hp : t.point with
  | send => exact h.send hp hr
  | skip => exact h.skip hp hr
  | done => simp [Termination.goesOn, hp] at hg

/-! ## What a call does -/

theorem call_again (w : WorkUnits) (fuel : Nat) : w.sendTerminationToWorkers fuel true = (true, some (.ok {})) := rfl

/-- The first call fails its assertion on the empty vector. -/
theorem call_empty (h : w.units = []) (fuel : Nat) :
    (w.sendTerminationToWorkers fuel false).2 = some (.error (.assertion "0 < work_units.size()")) := by
  unfold sendTerminationToWorkers
  simp [h]

theorem call_nonempty (h : w.units ≠ []) (fuel : Nat) :
    (w.sendTerminationToWorkers fuel false).2 = whileLoop Termination.goesOn w.round fuel {} := by
  unfold sendTerminationToWorkers
  rw [if_neg (by decide)]
  exact if_pos (List.length_pos_of_ne_nil h)

/-- When the first call returns it has sent what it should, and used the subscript behind the last entry. -/
theorem call_returned {fuel : Nat} (h : (w.sendTerminationToWorkers fuel false).2 = some (.ok t)) :
    t.sent = w.expected w.units ∧ w.units.length ∈ t.subscripts := by
  by_cases hw : w.units = []
  · rw [call_empty hw] at h
    cases h
  · rw [call_nonempty hw] at h
    obtain ⟨hinv, hg⟩ := whileLoop_invariant (P := w.Inv) (fun _ _ hi hg hr => hi.round hg hr) (.start hw) h
    have hp : t.point = .done := by simpa [Termination.goesOn] using hg
    constructor
    · have := hinv.sent
      rwa [left, hp, List.append_nil] at this
    · refine hinv.used _ ?_
      rcases (hinv.past hp).lt_or_eq with hlt | heq
      · exact .inl hlt
      · exact .inr ⟨by simp [hp], heq⟩

/-- The invariant of the loop when an entry `k` behind the vector differs from the last one of it. -/
structure Stops (w : WorkUnits) (k : Nat) (t : Termination) : Prop where
  inv : w.Inv t
  before : t.point = .skip → t.i < k
  last : t.point = .skip → w.units.length ≤ t.i + 1 → t.currCl = w.read (w.units.length - 1)
  subscripts : ∀ i ∈ t.subscripts, i ≤ k

section Stops

variable {k : Nat} (hk : w.units.length ≤ k) (hne : w.read k ≠ w.read (w.units.length - 1))

include hk in
theorem Stops.send (h : w.Stops k t) (hp : t.point = .send) (hr : w.round t = .ok t') : w.Stops k t' := by
  have hinv := h.inv.send hp hr
  have hi := h.inv.inside hp
  unfold WorkUnits.round at hr
  rw [hp] at hr
  cases hr
  refine ⟨hinv, fun _ => hi.trans_le hk, ?_, ?_⟩
  · intro _ hlen
    show w.read t.i = w.read (w.units.length - 1)
    congr 1
    have : w.units.length ≤ t.i + 1 := hlen
    omega
  · intro i hmem
    rcases List.mem_append.1 hmem with hmem | hmem
    · exact h.subscripts i hmem
    · rcases List.mem_cons.1 hmem with rfl | hmem
      · omega
      · rw [(List.mem_replicate.1 hmem).2]
        omega

include hk hne in
theorem Stops.skip (h : w.Stops k t) (hp : t.point = .skip) (hr : w.round t = .ok t') : w.Stops k t' := by
  have hinv := h.inv.skip hp hr
  have hlt := h.before hp
  unfold WorkUnits.round at hr
  rw [hp] at hr
  cases hr
  -- the entry skipped next is the last of the vector or stands behind it
  have hlast : t.currCl = w.read (t.i + 1) → w.units.length ≤ t.i + 2 → t.currCl = w.read (w.units.length - 1) := by
    intro he hlen
    by_cases hle : w.units.length ≤ t.i + 1
    · exact h.last hp hle
    · rw [he]
      congr 1
      omega
  refine ⟨hinv, ?_, ?_, ?_⟩
  · intro hs
    by_contra hge
    have hik : t.i + 1 = k := by
      have : ¬ t.i + 1 < k := hge
      omega
    have he : t.currCl = w.read (t.i + 1) := by
      by_contra hcurr
      simp only [if_neg hcurr] at hs
      split_ifs at hs
    rw [← hik, ← he] at hne
    exact hne (h.last hp (hik ▸ hk))
  · intro hs hlen
    refine hlast ?_ hlen
    by_contra hcurr
    simp only [if_neg hcurr] at hs
    split_ifs at hs
  · intro i hmem
    rcases List.mem_append.1 hmem with hmem | hmem
    · exact h.subscripts i hmem
    · rw [List.mem_singleton.1 hmem]
      omega

/-- How far the loop can still go. -/
def rank (k : Nat) (t : Termination) : Nat :=
  match t.point with
  | .send => 2 * (k - t.i) + 1
  | .skip => 2 * (k - t.i)
  | .done => 0

include hk hne in
theorem Stops.round (h : w.Stops k t) (hg : t.goesOn = true) (hr : w.round t = .ok t') :
    w.Stops k t' ∧ rank k t' < rank k t := by
  cases hp : t.point with
  | send =>
    refine ⟨h.send hk hp hr, ?_⟩
    unfold WorkUnits.round at hr
    rw [hp] at hr
    cases hr
    simp [rank, hp]
  | skip =>
    refine ⟨h.skip hk hne hp hr, ?_⟩
    have hlt := h.before hp
    unfold WorkUnits.round at hr
    rw [hp] at hr
    cases hr
    unfold rank
    simp only [hp]
    split_ifs <;> simp only <;> omega
  | done => simp [Termination.goesOn, hp] at hg

theorem round_ok (w : WorkUnits) (t : Termination) : ∃ t', w.round t = .ok t' := by
  unfold WorkUnits.round
  split <;> exact ⟨_, rfl⟩

include hk hne in
/-- The first call ends with the first entry behind the vector that differs from the last one of it, at the
latest. -/
theorem call_ends (hw : w.units ≠ []) : ∃ fuel t, (w.sendTerminationToWorkers fuel false).2 = some (.ok t) ∧
    t.sent = w.expected w.units ∧ ∀ i ∈ t.subscripts, i ≤ k := by
  have hstart : w.Stops k {} := ⟨.start hw, nofun, nofun, fun i hi => absurd hi List.not_mem_nil⟩
  obtain ⟨fuel, r, hr⟩ := Ends.of_measure (rank k) (fun _ _ h hg hr => h.round hk hne hg hr) hstart
  obtain ⟨t, rfl⟩ : ∃ t, r = .ok t := whileLoop_returns w.round_ok hr
  have hcall := (call_nonempty hw fuel).trans hr
  refine ⟨fuel, t, hcall, (call_returned hcall).1, ?_⟩
  exact (whileLoop_invariant (fun _ _ h hg hr => (h.round hk hne hg hr).1) hstart hr).1.subscripts

end Stops

/-! ## What the server sends -/

theorem terminateAfter_eq : ∀ (units : List Comm) (comm : Comm), Server.terminateAfter comm units =
    (units.destutter' (· ≠ ·) comm).tail.map fun comm => (comm, S2W.terminate)
  | [], _ => rfl
  | next :: units, comm => by
    unfold Server.terminateAfter
    by_cases h : comm = next
    · rw [if_pos h, List.destutter'_cons_neg _ (not_not.2 h)]
      exact terminateAfter_eq units comm
    · rw [if_neg h, List.destutter'_cons_pos _ h, destutter'_eq_cons units next, terminateAfter_eq units next]
      rfl

theorem terminateMessages_eq : ∀ units : List Comm, Server.terminateMessages units =
    (units.destutter (· ≠ ·)).map fun comm => (comm, S2W.terminate)
  | [] => rfl
  | comm :: units => by
    show (comm, S2W.terminate) :: Server.terminateAfter comm units = _
    rw [List.destutter_cons', destutter'_eq_cons, terminateAfter_eq]
    rfl

theorem terminateMessages_eq_expected (hranks : ∀ comm, w.ranks comm = [(comm, 0)]) (units : List Comm) :
    Server.terminateMessages units = (w.expected units).map fun p => (p.1, S2W.terminate) := by
  rw [terminateMessages_eq, expected, List.map_flatMap]
  simp only [hranks, List.map_singleton]
  exact (List.flatMap_pure_eq_map _ _).symm

/-- With one rank for each worker the first call sends what the server logs. -/
theorem call_sends {fuel : Nat} {s s' : Server} (hw : w.units = s.workUnits) (hone : ∀ comm, w.commSize comm = 1)
    (hcall : (w.sendTerminationToWorkers fuel false).2 = some (.ok t)) (hs : s.terminatedWorkers = false)
    (h : s.sendTerminationToWorkers = .ok s') :
    s'.toWorkers = s.toWorkers ++ t.sent.map fun p => (p.1, S2W.terminate) := by
  have hranks : ∀ comm, w.ranks comm = [(comm, 0)] := by
    intro comm
    unfold ranks
    rw [hone]
    rfl
  rcases Server.sendTerminationToWorkers_ok h with ⟨ht, -⟩ | ⟨-, -, rfl⟩
  · rw [hs] at ht
    cases ht
  · rw [(call_returned hcall).1, hw, ← terminateMessages_eq_expected hranks]
    rfl

end WorkUnits

/-- For no vector, whatever lies behind it, does `send_termination_to_workers` reach every connection without
a failed assertion and without a subscript outside of the vector. -/
theorem termination_never_reached (w : WorkUnits) : ¬ w.Reached := by
  rintro ⟨fuel, t, hcall, hinside, -, -⟩
  exact lt_irrefl _ (hinside _ (WorkUnits.call_returned hcall).2)

/-- One worker with one rank. -/
def oneWorker : WorkUnits where
  units := [0]
  behind _ := 1
  commSize _ := 1

/-- For a single worker the subscript 1 is used. -/
theorem termination_not_reached : (∃ t, (oneWorker.sendTerminationToWorkers 3 false).2 = some (.ok t) ∧
    t.subscripts = [0, 0, 1] ∧ t.sent = [(0, 0)]) ∧ ¬ oneWorker.Reached := by
  refine ⟨⟨_, rfl, by decide, by decide⟩, ?_⟩
  rintro ⟨fuel, t, hcall, hinside, -, -⟩
  exact absurd (hinside _ (WorkUnits.call_returned hcall).2) (by decide)

end ParallelProbsat.Communication
