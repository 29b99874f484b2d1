/-
`cnf_formula::initialize` called by several threads on one shared formula, with
`ENALBE_CNF_MULTITHREAD_SHARING` 1: the steps of every call, and how they interleave.

`init_mutex` guards the test of `clauses.size()` only. What follows, from `clear()` to the index, runs
without it, and at the end the mutex is unlocked by a call that does not hold it. So a formula is loaded once, and
completely before any call returns, as long as no test comes while a load is under way, after one that threw,
or after one that left no clauses.
-/
import ParallelProbsat.Lib.Runs
import ParallelProbsat.Sat.Input

namespace ParallelProbsat.Sat

open ParallelProbsat.Lib ParallelProbsat.Util

/-! ## The steps of a call -/

/-- How a load of the file ends. -/
inductive Outcome
  | readThrows
  | indexThrows
  | loads
  deriving DecidableEq

/-- What a load makes of the file: the clauses `read` pushes back, and how it ends. -/
structure LoadedFile where
  pushed : List Clause
  outcome : Outcome

/-- The clauses in the vector when `read` returns or throws. -/
def pushedBefore (st : ReadState) : List Text → List Clause
  | [] => st.clauses
  | line :: rest =>
    match readLine st line with
    | .error _ => st.clauses
    | .ok st => pushedBefore st rest

/-- The load of a file with this text. -/
def LoadedFile.ofText (useContDatastruct : Bool) (text : Text) : LoadedFile where
  pushed := pushedBefore ⟨0, 0, [], ⟨0, fun _ => (0, 0)⟩, []⟩ (getlines '\n' text)
  outcome :=
    match read text with
    | .error _ => .readThrows
    | .ok r =>
      match CnfFormula.initializeFormula useContDatastruct r.numVars r.clauses r.counts with
      | .error _ => .indexThrows
      | .ok _ => .loads

/-- Where a call of `initialize` is. -/
inductive Point
  | start
  /-- In the guarded block, before the test. -/
  | guarded
  /-- At the end of the guarded block, with the result of the test. -/
  | leaving (found : Bool)
  | clearing
  /-- In `read`, with the clauses it has yet to push back. -/
  | reading (rest : List Clause)
  | indexing
  /-- Before the `init_mutex.unlock()` at the end. -/
  | unlocking
  | returned (loaded : Bool)
  | thrown
  deriving DecidableEq

/-- The shared formula, the holder of `init_mutex`, and the calls. -/
structure Calls where
  clauses : List Clause
  indexed : Bool
  holder : Option Nat
  calls : List Point

def Calls.start (n : Nat) : Calls := ⟨[], false, none, List.replicate n .start⟩

def Calls.point (s : Calls) (t : Nat) : Option Point := s.calls[t]?

def Calls.goto (s : Calls) (t : Nat) (p : Point) : Calls := { s with calls := s.calls.set t p }

/-- The next step of call `t`; a call waits while another one holds the mutex. -/
def Calls.step (file : LoadedFile) (s : Calls) (t : Nat) : Option Calls :=
  match s.point t with
  | none => none
  | some .start => if s.holder = none then some ({ s with holder := some t }.goto t .guarded) else none
  | some .guarded => some (s.goto t (.leaving (decide (0 < s.clauses.length))))
  | some (.leaving found) => some ({ s with holder := none }.goto t (if found then .returned false else .clearing))
  | some .clearing => some ({ s with clauses := [] }.goto t (.reading file.pushed))
  | some (.reading (c :: rest)) => some ({ s with clauses := s.clauses ++ [c] }.goto t (.reading rest))
  | some (.reading []) => some (s.goto t (if file.outcome = .readThrows then .thrown else .indexing))
  | some .indexing =>
    if file.outcome = .indexThrows then some (s.goto t .thrown) else some ({ s with indexed := true }.goto t .unlocking)
  | some .unlocking => some ({ s with holder := none }.goto t (.returned true))
  | some (.returned _) => none
  | some .thrown => none

/-! ## Loading once -/

/-- The call is in the loading part. -/
def Point.loading : Point → Bool
  | .clearing | .reading _ | .indexing => true
  | _ => false

/-- The call has executed the loading part to its end. -/
def Point.finished : Point → Bool
  | .unlocking | .returned true => true
  | _ => false

/-- The call has executed at least a piece of the loading part. -/
def Point.entered (p : Point) : Bool := p.loading || p.finished || decide (p = .thrown)

/-- At most one call has entered the loading part, and none returns before it has finished. -/
structure LoadedOnce (s : Calls) : Prop where
  once : ∀ t u p q, s.point t = some p → s.point u = some q → p.entered = true → q.entered = true → t = u
  complete : ∀ t b, s.point t = some (.returned b) → ∃ u q, s.point u = some q ∧ q.finished = true

/-- The next step of the call unlocks `init_mutex`: at the end of the guarded block, or at the end of `initialize`. -/
def Unlocks (s : Calls) (t : Nat) : Prop := (∃ b, s.point t = some (.leaving b)) ∨ s.point t = some .unlocking

/-- The test is made while no call is loading or has thrown, and not after a load that left no clauses. -/
def TestsApart (s : Calls) (t : Nat) : Prop :=
  s.point t = some .guarded → (∀ p ∈ s.calls, p.loading = false ∧ p ≠ .thrown) ∧
    ((∃ p ∈ s.calls, p.finished = true) → s.clauses ≠ [])

/-! ## What a step can do -/

/-- Call `t` goes from `o` to `p`, and the others stay where they are. -/
structure Calls.Moved (s s' : Calls) (t : Nat) (o p : Point) : Prop where
  before : s.point t = some o
  calls : s'.calls = s.calls.set t p

/-- The steps of a call, by where it is. -/
inductive Calls.Moves (s s' : Calls) (t : Nat) : Prop
  | lock (hm : s.Moved s' t .start .guarded) (hfree : s.holder = none) (hh : s'.holder = some t)
      (hc : s'.clauses = s.clauses)
  | test (hm : s.Moved s' t .guarded (.leaving (decide (0 < s.clauses.length)))) (hh : s'.holder = s.holder)
      (hc : s'.clauses = s.clauses)
  | leave (found : Bool) (hm : s.Moved s' t (.leaving found) (if found then .returned false else .clearing))
      (hh : s'.holder = none) (hc : s'.clauses = s.clauses)
  | load (o p : Point) (hm : s.Moved s' t o p) (ho : o.loading = true) (hp : p.entered = true)
      (hh : s'.holder = s.holder)
  | unlock (hm : s.Moved s' t .unlocking (.returned true)) (hh : s'.holder = none) (hc : s'.clauses = s.clauses)

theorem Calls.moves {file : LoadedFile} {s s' : Calls} {t : Nat} (h : s.step file t = some s') : s.Moves s' t := by
  unfold Calls.step at h
  split at h
  · cases h
  · rename_i hp
    split at h
    · rename_i hfree
      obtain rfl := Option.some.inj h
      exact .lock ⟨hp, rfl⟩ hfree rfl rfl
    · cases h
  · rename_i hp
    obtain rfl := Option.some.inj h
    exact .test ⟨hp, rfl⟩ rfl rfl
  · rename_i found hp
    obtain rfl := Option.some.inj h
    exact .leave found ⟨hp, rfl⟩ rfl rfl
  · rename_i hp
    obtain rfl := Option.some.inj h
    exact .load _ _ ⟨hp, rfl⟩ rfl rfl rfl
  · rename_i c rest hp
    obtain rfl := Option.some.inj h
    exact .load _ _ ⟨hp, rfl⟩ rfl rfl rfl
  · rename_i hp
    obtain rfl := Option.some.inj h
    exact .load _ _ ⟨hp, rfl⟩ rfl (by split <;> rfl) rfl
  · rename_i hp
    split at h
    · obtain rfl := Option.some.inj h
      exact .load _ _ ⟨hp, rfl⟩ rfl rfl rfl
    · obtain rfl := Option.some.inj h
      exact .load _ _ ⟨hp, rfl⟩ rfl rfl rfl
  · rename_i hp
    obtain rfl := Option.some.inj h
    exact .unlock ⟨hp, rfl⟩ rfl rfl
  · cases h
  · cases h

section Moved

variable {s s' : Calls} {t : Nat} {o p : Point}

theorem Calls.Moved.point (h : s.Moved s' t o p) (u : Nat) : s'.point u = if u = t then some p else s.point u := by
  have hlt : t < s.calls.length := (List.getElem?_eq_some_iff.1 h.before).1
  unfold Calls.point
  rw [h.calls, List.getElem?_set]
  split
  · rename_i e
    rw [if_pos e.symm]
  · rename_i e
    rw [if_neg (Ne.symm e)]

/-- What some call has reached, some call has reached after the step. -/
theorem Calls.Moved.exists {f : Point → Bool} (hm : s.Moved s' t o p) (hf : f o = true → f p = true)
    (h : ∃ u q, s.point u = some q ∧ f q = true) : ∃ u q, s'.point u = some q ∧ f q = true := by
  obtain ⟨u, q, hu, hq⟩ := h
  rcases eq_or_ne u t with rfl | hne
  · obtain rfl := Option.some.inj (hm.before.symm.trans hu)
    exact ⟨u, p, by rw [hm.point, if_pos rfl], hf hq⟩
  · exact ⟨u, q, by rw [hm.point, if_neg hne]; exact hu, hq⟩

/-- If no call has returned after a load, none had before. -/
theorem Calls.Moved.not_returned (hm : s.Moved s' t o p) (ho : o ≠ .returned true)
    (h : ∀ u, s'.point u ≠ some (.returned true)) : ∀ u, s.point u ≠ some (.returned true) := by
  intro u hu
  rcases eq_or_ne u t with rfl | hne
  · exact ho (Option.some.inj (hm.before.symm.trans hu))
  · exact h u (by rw [hm.point, if_neg hne]; exact hu)

end Moved

/-! ## The invariant of a load -/

/-- The call has found the vector empty and left the guarded block, or is leaving it. -/
def Point.committed (p : Point) : Bool := p.entered || decide (p = .leaving false)

/-- The call is in the guarded block. -/
def Point.inside : Point → Bool
  | .guarded | .leaving _ => true
  | _ => false

/-- The call has found clauses. -/
def Point.satisfied (p : Point) : Bool := decide (p = .leaving true) || decide (p = .returned false)

structure LoadInv (s : Calls) : Prop where
  holder : ∀ t, s.holder = some t → ∃ p, s.point t = some p ∧ p.inside = true
  held : (∀ u, s.point u ≠ some (.returned true)) → ∀ t p, s.point t = some p → p.inside = true → s.holder = some t
  once : ∀ t u p q, s.point t = some p → s.point u = some q → p.committed = true → q.committed = true → t = u
  source : s.clauses ≠ [] → ∃ u q, s.point u = some q ∧ q.entered = true
  found : ∀ t p, s.point t = some p → p.satisfied = true → ∃ u q, s.point u = some q ∧ q.finished = true

/-- At most one call has committed itself after the step, if this one had before or none had. -/
theorem LoadInv.once_step {s s' : Calls} {t : Nat} {o p : Point} (h : LoadInv s) (hm : s.Moved s' t o p)
    (hp : p.committed = true → o.committed = true ∨ ∀ u q, s.point u = some q → q.committed = false) :
    ∀ u v q r, s'.point u = some q → s'.point v = some r → q.committed = true → r.committed = true → u = v := by
  intro u v q r hu hv hq hr
  rw [hm.point] at hu hv
  -- another call that is committed would be a second one
  have hother : ∀ w x, w ≠ t → s.point w = some x → x.committed = true → p.committed = true → False := by
    intro w x hw hx hxc hpc
    rcases hp hpc with ho | hnone
    · exact hw (h.once w t x o hx hm.before hxc ho)
    · rw [hnone w x hx] at hxc
      cases hxc
  rcases eq_or_ne u t with rfl | hut
  · rcases eq_or_ne v u with rfl | hvt
    · rfl
    · rw [if_pos rfl] at hu
      rw [if_neg hvt] at hv
      obtain rfl := Option.some.inj hu
      exact (hother v r hvt hv hr hq).elim
  · rw [if_neg hut] at hu
    rcases eq_or_ne v t with rfl | hvt
    · rw [if_pos rfl] at hv
      obtain rfl := Option.some.inj hv
      exact (hother u q hut hu hq hr).elim
    · rw [if_neg hvt] at hv
      exact h.once u v q r hu hv hq hr

/-- The holder stays in the guarded block. -/
theorem LoadInv.holder_step {s s' : Calls} {t : Nat} {o p : Point} (h : LoadInv s) (hm : s.Moved s' t o p)
    (hh : s'.holder = s.holder) (hp : o.inside = true → p.inside = true) :
    ∀ u, s'.holder = some u → ∃ q, s'.point u = some q ∧ q.inside = true := by
  intro u hu
  rw [hh] at hu
  obtain ⟨q, hq, hi⟩ := h.holder u hu
  rw [hm.point]
  split
  · rename_i e
    rw [e, hm.before] at hq
    obtain rfl := Option.some.inj hq
    exact ⟨p, rfl, hp hi⟩
  · exact ⟨q, hq, hi⟩

/-- A call that has found clauses has a finished load behind it, if that holds of this call. -/
theorem LoadInv.found_step {s s' : Calls} {t : Nat} {o p : Point} (h : LoadInv s) (hm : s.Moved s' t o p)
    (hf : o.finished = true → p.finished = true)
    (hp : p.satisfied = true → ∃ u q, s.point u = some q ∧ q.finished = true) :
    ∀ u r, s'.point u = some r → r.satisfied = true → ∃ v q, s'.point v = some q ∧ q.finished = true := by
  intro u r hu hr
  refine hm.exists hf ?_
  rw [hm.point] at hu
  split at hu
  · obtain rfl := Option.some.inj hu
    exact hp hr
  · exact h.found u r hu hr

theorem LoadInv.start (n : Nat) : LoadInv (Calls.start n) := by
  have hstart : ∀ t p, (Calls.start n).point t = some p → p = .start := by
    intro t p h
    unfold Calls.point Calls.start at h
    rw [List.getElem?_replicate] at h
    split at h
    · exact (Option.some.inj h).symm
    · cases h
  refine ⟨fun t h => (nomatch h), fun _ t p hp hi => ?_, fun t u p q hp _ hc _ => ?_, fun h => absurd rfl h,
    fun t p hp hs => ?_⟩
  · rw [hstart t p hp] at hi
    cases hi
  · rw [hstart t p hp] at hc
    cases hc
  · rw [hstart t p hp] at hs
    cases hs

/-! ## The test -/

theorem entered_cases {p : Point} (h : p.entered = true) : p.loading = true ∨ p.finished = true ∨ p = .thrown := by
  unfold Point.entered at h
  simpa [or_assoc] using h

/-- When the test finds the vector empty, no call has committed itself. -/
theorem LoadInv.none_committed {s : Calls} (h : LoadInv s) {t : Nat} (ht : s.point t = some .guarded)
    (hapart : TestsApart s t)
    (hempty : s.clauses = []) {u : Nat} {q : Point} (hu : s.point u = some q) : q.committed = false := by
  obtain ⟨hload, hfin⟩ := hapart ht
  have hmem : q ∈ s.calls := List.mem_of_getElem? hu
  by_contra hc
  rw [Bool.not_eq_false] at hc
  rcases (Bool.or_eq_true _ _).mp hc with he | hl
  · rcases entered_cases he with hq | hq | rfl
    · rw [(hload q hmem).1] at hq
      cases hq
    · exact hfin ⟨q, hmem, hq⟩ hempty
    · exact (hload _ hmem).2 rfl
  · -- it would hold the mutex, as this call does
    obtain rfl := of_decide_eq_true hl
    have hnone : ∀ v, s.point v ≠ some (.returned true) := by
      intro v hv
      obtain rfl := h.once u v _ _ hu hv hc rfl
      rw [hu] at hv
      cases hv
    have h1 := h.held hnone t _ ht rfl
    rw [h.held hnone u _ hu rfl] at h1
    obtain rfl := Option.some.inj h1
    rw [ht] at hu
    cases hu

/-- When it finds clauses, a load has finished. -/
theorem LoadInv.load_finished {s : Calls} (h : LoadInv s) {t : Nat} (ht : s.point t = some .guarded)
    (hapart : TestsApart s t) (hne : s.clauses ≠ []) : ∃ u q, s.point u = some q ∧ q.finished = true := by
  obtain ⟨hload, -⟩ := hapart ht
  obtain ⟨u, q, hu, hq⟩ := h.source hne
  have hmem : q ∈ s.calls := List.mem_of_getElem? hu
  rcases entered_cases hq with hq | hq | rfl
  · rw [(hload q hmem).1] at hq
    cases hq
  · exact ⟨u, q, hu, hq⟩
  · exact absurd rfl (hload _ hmem).2

theorem LoadInv.step {file : LoadedFile} {s s' : Calls} {t : Nat} (h : LoadInv s) (hapart : TestsApart s t)
    (hs : s.step file t = some s') : LoadInv s' := by
  cases Calls.moves hs with
  | lock hm hfree hh hc =>
    refine ⟨fun u hu => ?_, fun hnone u p hu hi => ?_, h.once_step hm (fun e => nomatch e),
      fun hne => hm.exists (fun e => nomatch e) (h.source (hc ▸ hne)),
      h.found_step hm (fun e => nomatch e) (fun e => nomatch e)⟩
    · rw [hh] at hu
      obtain rfl := Option.some.inj hu
      exact ⟨.guarded, by rw [hm.point, if_pos rfl], rfl⟩
    · rw [hm.point] at hu
      split at hu
      · rename_i hut
        rw [hut]
        exact hh
      · -- another call in the guarded block would hold the mutex
        have := h.held (hm.not_returned (by simp) hnone) u p hu hi
        rw [hfree] at this
        cases this
  | test hm hh hc =>
    refine ⟨h.holder_step hm hh (fun _ => rfl), fun hnone u p hu hi => ?_,
      h.once_step hm (fun e => .inr fun u q hu => ?_),
      fun hne => hm.exists (fun e => nomatch e) (h.source (hc ▸ hne)),
      h.found_step hm (fun e => nomatch e) (fun e => ?_)⟩
    · have hheld := h.held (hm.not_returned (by simp) hnone)
      rw [hm.point] at hu
      rw [hh]
      split at hu
      · rename_i hut
        rw [hut]
        exact hheld t _ hm.before rfl
      · exact hheld u p hu hi
    · refine h.none_committed hm.before hapart ?_ hu
      cases hc : s.clauses with
      | nil => rfl
      | cons c rest => rw [hc] at e; cases e
    · refine h.load_finished hm.before hapart fun hempty => ?_
      rw [hempty] at e
      cases e
  | leave found hm hh hc =>
    have hfalse : ∀ {f : Point → Bool}, f (.leaving found) = false → f (.leaving found) = true →
        f (if found then .returned false else .clearing) = true := fun h1 h2 => by rw [h1] at h2; cases h2
    refine ⟨fun u hu => ?_, fun hnone u p hu hi => ?_, h.once_step hm (fun e => .inl ?_),
      fun hne => hm.exists (hfalse rfl) (h.source (hc ▸ hne)), h.found_step hm (hfalse rfl) (fun e => ?_)⟩
    · rw [hh] at hu
      cases hu
    · have hheld := h.held (hm.not_returned (by simp) hnone)
      rw [hm.point] at hu
      split at hu
      · obtain rfl := Option.some.inj hu
        cases found <;> cases hi
      · rename_i hut
        have h1 := hheld u p hu hi
        rw [hheld t _ hm.before rfl] at h1
        exact absurd (Option.some.inj h1).symm hut
    · cases found
      · rfl
      · cases e
    · cases found
      · cases e
      · exact h.found t _ hm.before rfl
  | load o p hm ho hp hh =>
    have hof : o.finished = true → p.finished = true := fun e => by cases o <;> cases ho <;> cases e
    have hoi : o.inside = true → p.inside = true := fun e => by cases o <;> cases ho <;> cases e
    refine ⟨h.holder_step hm hh hoi, fun hnone u q hu hi => ?_, h.once_step hm (fun _ => .inl ?_),
      fun _ => ⟨t, p, by rw [hm.point, if_pos rfl], hp⟩, h.found_step hm hof (fun e => ?_)⟩
    · have hheld := h.held (hm.not_returned (fun e => by rw [e] at ho; cases ho) hnone)
      rw [hm.point] at hu
      rw [hh]
      split at hu
      · obtain rfl := Option.some.inj hu
        cases p <;> cases hi <;> cases hp
      · exact hheld u q hu hi
    · unfold Point.committed Point.entered
      rw [ho]
      rfl
    · unfold Point.satisfied at e
      rcases (Bool.or_eq_true _ _).mp e with e | e
      · rw [of_decide_eq_true e] at hp
        cases hp
      · rw [of_decide_eq_true e] at hp
        cases hp
  | unlock hm hh hc =>
    refine ⟨fun u hu => ?_, fun hnone => ?_, h.once_step hm (fun _ => .inl rfl),
      fun hne => hm.exists (fun _ => rfl) (h.source (hc ▸ hne)), h.found_step hm (fun _ => rfl) (fun e => nomatch e)⟩
    · rw [hh] at hu
      cases hu
    · exact absurd (by rw [hm.point, if_pos rfl]) (hnone t)

/-! ## Whole runs -/

/-- The runs of `n` calls in any order. -/
abbrev AnyRun (file : LoadedFile) (n : Nat) (es : List Nat) (s : Calls) : Prop :=
  Traced (Calls.step file) (fun _ _ _ => True) [] (Calls.start n) es s

/-- The runs of `n` calls in any order, in which every test is made apart. -/
abbrev ApartRun (file : LoadedFile) (n : Nat) (es : List Nat) (s : Calls) : Prop :=
  Traced (Calls.step file) (fun _ s t => TestsApart s t) [] (Calls.start n) es s

theorem ApartRun.loadInv {file : LoadedFile} {n : Nat} {es : List Nat} {s : Calls}
    (h : ApartRun file n es s) : LoadInv s :=
  h.invariant (P := fun _ s => LoadInv s) (.start n) fun _ _ _ _ _ hI hapart hs => hI.step hapart hs

theorem LoadInv.loadedOnce {s : Calls} (h : LoadInv s) : LoadedOnce s where
  once t u p q ht hu hp hq :=
    h.once t u p q ht hu (by unfold Point.committed; rw [hp]; rfl) (by unfold Point.committed; rw [hq]; rfl)
  complete t b ht := by
    cases b with
    | false => exact h.found t _ ht rfl
    | true => exact ⟨t, _, ht, rfl⟩

/-- When all tests are made apart, the formula is loaded once, and completely before a call returns; and as long
as the unlock at the end of `initialize` was not executed, exactly the other unlocks are by the holder. -/
theorem initialize_loads_once (file : LoadedFile) (n : Nat) (es : List Nat) (s : Calls) (h : ApartRun file n es s) :
    LoadedOnce s ∧ ((∀ u, s.point u ≠ some (.returned true)) →
      ∀ t, Unlocks s t → (s.holder = some t ↔ s.point t ≠ some .unlocking)) := by
  have hI := h.loadInv
  refine ⟨hI.loadedOnce, fun hnone t ht => ⟨fun hh hp => ?_, fun hp => ?_⟩⟩
  · obtain ⟨q, hq, hi⟩ := hI.holder t hh
    rw [hp] at hq
    obtain rfl := Option.some.inj hq
    cases hi
  · obtain ⟨b, hb⟩ := ht.resolve_right hp
    exact hI.held hnone t _ hb rfl

/-- The load of the text "p cnf 2 2", "1 0", "2 0". -/
def twoClauseFile : LoadedFile :=
  .ofText true ['p', ' ', 'c', 'n', 'f', ' ', '2', ' ', '2', '\n', '1', ' ', '0', '\n', '2', ' ', '0']

instance (s : Calls) (t : Nat) : Decidable (TestsApart s t) :=
  inferInstanceAs (Decidable (_ → _ ∧ (_ → _)))

/-- One call loads, and another one waits at the test until it has. -/
theorem initialize_loads_once_apart :
    ∃ s, ApartRun twoClauseFile 2 [0, 0, 0, 1, 0, 0, 0, 0, 0] s ∧ LoadedOnce s ∧
      ((∀ u, s.point u ≠ some (.returned true)) → ∀ t, Unlocks s t →
        (s.holder = some t ↔ s.point t ≠ some .unlocking)) := by
  have hrun : ApartRun twoClauseFile 2 [0, 0, 0, 1, 0, 0, 0, 0, 0]
      ⟨[[1], [2]], true, some 1, [.unlocking, .guarded]⟩ := Traced.of_replay (by rfl)
  exact ⟨_, hrun, initialize_loads_once _ _ _ _ hrun⟩

/-- Two calls may both find the vector empty; the second may find a clause while the first is still reading; and
a call alone unlocks the mutex it does not hold. -/
theorem initialize_not_once :
    (∃ s, AnyRun twoClauseFile 2 [0, 0, 0, 1, 1, 1] s ∧ ¬ LoadedOnce s) ∧
    (∃ s, AnyRun twoClauseFile 2 [0, 0, 0, 0, 0, 1, 1, 1] s ∧ ¬ LoadedOnce s) ∧
    (∃ s, AnyRun twoClauseFile 1 [0, 0, 0, 0, 0, 0, 0, 0] s ∧ ¬ ∀ t, Unlocks s t → s.holder = some t) := by
  refine ⟨⟨⟨[], false, none, [.clearing, .clearing]⟩, Traced.of_replay (by rfl), fun h => ?_⟩,
    ⟨⟨[[1]], false, none, [.reading [[2]], .returned false]⟩, Traced.of_replay (by rfl), fun h => ?_⟩,
    ⟨⟨[[1], [2]], true, none, [.unlocking]⟩, Traced.of_replay (by rfl), fun h => ?_⟩⟩
  · -- both are about to clear the vector
    exact absurd (h.once 0 1 .clearing .clearing rfl rfl rfl rfl) (by decide)
  · -- the second has returned, the first has a clause to read
    obtain ⟨u, q, hu, hq⟩ := h.complete 1 false rfl
    rcases u with - | - | u
    · obtain rfl := Option.some.inj hu
      cases hq
    · obtain rfl := Option.some.inj hu
      cases hq
    · cases hu
  · cases h 0 (.inr rfl)

/-! ## A first call that has the formula for itself -/

/-- A call has loaded the formula, and none is loading it or about to. -/
structure Loaded (s : Calls) : Prop where
  finished : ∃ u q, s.point u = some q ∧ q.finished = true
  clauses : s.clauses ≠ []
  settled : ∀ u q, s.point u = some q → q.loading = false ∧ q ≠ .thrown ∧ q ≠ .leaving false

theorem Loaded.testsApart {s : Calls} (h : Loaded s) (t : Nat) : TestsApart s t := by
  refine fun _ => ⟨fun p hp => ?_, fun _ => h.clauses⟩
  obtain ⟨u, hu⟩ := List.getElem?_of_mem hp
  exact ⟨(h.settled u p hu).1, (h.settled u p hu).2.1⟩

theorem Loaded.step {file : LoadedFile} {s s' : Calls} {t : Nat} (h : Loaded s) (hs : s.step file t = some s') :
    Loaded s' := by
  -- only where this call goes matters for the others
  have hset : ∀ {o p : Point}, s.Moved s' t o p → p.loading = false ∧ p ≠ .thrown ∧ p ≠ .leaving false →
      ∀ u q, s'.point u = some q → q.loading = false ∧ q ≠ .thrown ∧ q ≠ .leaving false := by
    intro o p hm hp u q hu
    rw [hm.point] at hu
    split at hu
    · obtain rfl := Option.some.inj hu
      exact hp
    · exact h.settled u q hu
  cases Calls.moves hs with
  | lock hm hfree hh hc =>
    exact ⟨hm.exists (fun e => nomatch e) h.finished, hc ▸ h.clauses, hset hm (by simp [Point.loading])⟩
  | test hm hh hc =>
    have hlen : 0 < s.clauses.length := List.length_pos_iff.2 h.clauses
    exact ⟨hm.exists (fun e => nomatch e) h.finished, hc ▸ h.clauses, hset hm (by simp [Point.loading, hlen])⟩
  | leave found hm hh hc =>
    obtain rfl : found = true := by
      cases found
      · exact absurd rfl (h.settled t _ hm.before).2.2
      · rfl
    exact ⟨hm.exists (fun e => nomatch e) h.finished, hc ▸ h.clauses, hset hm (by simp [Point.loading])⟩
  | load o p hm ho hp hh =>
    rw [(h.settled t o hm.before).1] at ho
    cases ho
  | unlock hm hh hc =>
    exact ⟨hm.exists (fun _ => rfl) h.finished, hc ▸ h.clauses, hset hm (by simp [Point.loading])⟩

/-- Once a call has loaded the formula, as the main thread does before it queues the tasks, all tests are made
apart, in whatever order the calls continue. -/
theorem Loaded.apartRun {file : LoadedFile} {n : Nat} {es₀ es : List Nat} {s₀ s : Calls} (h₀ : ApartRun file n es₀ s₀)
    (hl : Loaded s₀) (h : Traced (Calls.step file) (fun _ _ _ => True) es₀ s₀ es s) :
    ApartRun file n es s ∧ Loaded s := by
  refine h.invariant (P := fun es s => ApartRun file n es s ∧ Loaded s) ⟨h₀, hl⟩ fun es s t s' _ hI _ hs => ?_
  exact ⟨hI.1.snoc (hI.2.testsApart t) hs, hI.2.step hs⟩

end ParallelProbsat.Sat
