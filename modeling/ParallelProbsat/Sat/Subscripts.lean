/-
The subscripts by which a run of `serial_instance` uses its vectors, each with the number of elements the vector has
at that moment: `unsat_clauses`, `unsat_clauses_location`, `num_breaks_by_flip`, `crit_literal_in_clause` and the
prefix sums `f` of `do_flip`.

`initialize` resizes the break counts and the critical literals, but only reserves memory for the locations, as
`do_flip` does for `f`. These two never get an element, so every subscript of them is past the end, from the first
clause on. All other subscripts name an element.
-/
import ParallelProbsat.Sat.CounterRanges
import ParallelProbsat.Sat.Verdict

namespace ParallelProbsat.Sat

open ParallelProbsat.Lib ParallelProbsat.Util

/-- The vectors of an instance, and the one of its thread. -/
inductive VectorName
  | unsatClauses | unsatClausesLocation | numBreaksByFlip | critLiteralInClause | f
  deriving DecidableEq, Repr

/-- One use of `operator[]`: the vector, the index, and the elements the vector has. -/
structure Subscript where
  vector : VectorName
  index : Int
  size : Nat
  deriving DecidableEq, Repr

namespace Subscript

/-- The index names an element. -/
def InRange (u : Subscript) : Prop := 0 ≤ u.index ∧ u.index < u.size

instance (u : Subscript) : Decidable u.InRange := inferInstanceAs (Decidable (_ ∧ _))

/-- The index names an element unless the vector is one that is only reserved. -/
def Placed (u : Subscript) : Prop := u.InRange ↔ u.vector ≠ .unsatClausesLocation ∧ u.vector ≠ .f

theorem placed_of_inRange {u : Subscript} (h : u.InRange) (hv : u.vector ≠ .unsatClausesLocation ∧ u.vector ≠ .f) :
    u.Placed :=
  iff_of_true h hv

theorem placed_of_empty {u : Subscript} (h : u.size = 0) (hv : u.vector = .unsatClausesLocation ∨ u.vector = .f) :
    u.Placed := by
  refine iff_of_false (fun hr => ?_) (fun hn => hv.elim hn.1 hn.2)
  have := hr.1
  have := hr.2
  omega

end Subscript

namespace SerialInstance

/-! ## What a run uses -/

def unsatAt (s : SerialInstance) (i : Int) : Subscript := ⟨.unsatClauses, i, s.unsatClauses.size⟩

def locationAt (s : SerialInstance) (i : Int) : Subscript := ⟨.unsatClausesLocation, i, s.unsatClausesLocation.size⟩

def breaksAt (s : SerialInstance) (i : Int) : Subscript := ⟨.numBreaksByFlip, i, s.numBreaksByFlip.size⟩

def critAt (s : SerialInstance) (i : Int) : Subscript := ⟨.critLiteralInClause, i, s.critLiteralInClause.size⟩

/-- A use that a switch of the build turns on. -/
def usedIf (b : Bool) (u : Subscript) : List Subscript := if b then [u] else []

/-- `make_clause_unsat` -/
def makeClauseUnsatUses (s : SerialInstance) (c : Int) : List Subscript := [s.locationAt c]

/-- `make_clause_sat`, which uses `back` for the last entry. -/
def makeClauseSatUses (s : SerialInstance) (c : Int) : List Subscript :=
  let nowSatCl := s.unsatClausesLocation.get c
  let uclause := s.unsatClauses.back
  let s' := { s with unsatClauses := s.unsatClauses.popBack }
  [s.locationAt c, s.locationAt c] ++
    if s'.unsatClauses.size = 0 ∨ nowSatCl = s'.unsatClauses.size then []
    else [s'.locationAt uclause, s'.unsatAt nowSatCl]

/-- One round of the break loop. But for `unsat_clauses`, no vector changes its size in a round. -/
def breakUses (B : Build) (F : CnfFormula) (literal : Int) (s : SerialInstance) (c : Int) : List Subscript :=
  let rvarIndex := varIndex literal
  let ucl := s.unsatClausesLocation.get c
  s.locationAt c ::
    if 0 ≤ ucl then []
    else
      (if ucl = -1 then
        s.makeClauseUnsatUses c ++ usedIf B.caching (s.breaksAt rvarIndex) ++
          usedIf B.useCritLiteralCaching (s.critAt c)
      else [s.locationAt c]) ++
      if B.caching ∧ ucl = -2 then
        let critLiteral := s.getCriticalLiteral (F.getClause c) (-literal)
        s.breaksAt (if B.allowUncleanClauses ∧ critLiteral = 0 then rvarIndex else varIndex critLiteral) ::
          usedIf B.useCritLiteralCaching (s.critAt c)
      else []

/-- One round of the make loop. -/
def makeUses (B : Build) (F : CnfFormula) (literal : Int) (s : SerialInstance) (c : Int) : List Subscript :=
  let rvarIndex := varIndex literal
  let ucl := s.unsatClausesLocation.get c
  s.locationAt c ::
    if 0 ≤ ucl then
      s.makeClauseSatUses c ++ usedIf B.caching (s.breaksAt rvarIndex) ++ usedIf B.useCritLiteralCaching (s.critAt c)
    else
      s.locationAt c ::
        if B.caching ∧ ucl = -1 then
          let critLiteral :=
            if B.useCritLiteralCaching then s.critLiteralInClause.get c
            else s.getCriticalLiteral (F.getClause c) (-literal)
          usedIf B.useCritLiteralCaching (s.critAt c) ++
            s.breaksAt (if B.allowUncleanClauses ∧ critLiteral = 0 then rvarIndex else varIndex critLiteral) ::
            usedIf (B.allowUncleanClauses && B.useCritLiteralCaching) (s.critAt c)
        else []

/-- One round of the loop of `initialize`. -/
def initUses (B : Build) (F : CnfFormula) (s : SerialInstance) (c : Int) : List Subscript :=
  let numSatLit := s.getNumSatLitInClause F c
  if numSatLit = 0 then s.makeClauseUnsatUses c
  else
    (if numSatLit = 1 ∧ B.caching then
      s.breaksAt (varIndex (s.getCriticalLiteral (F.getClause c) 0)) :: usedIf B.useCritLiteralCaching (s.critAt c)
    else []) ++ [s.locationAt c]

/-- The constructor. -/
def newUses (B : Build) (F : CnfFormula) (mem : Memory) (initialConfig : Bitfield) : List Subscript :=
  ((List.range F.clauses.length).foldl
    (noting (fun s (i : Nat) => initClause B F s i) (fun s (i : Nat) => initUses B F s i))
    ([], constructed B F mem initialConfig)).1

def flipUses (B : Build) (F : CnfFormula) (s : SerialInstance) (literal : Int) : List Subscript :=
  let it := flipRanges F literal
  let acc := it.1.foldl (noting (breakClause B F literal) (breakUses B F literal)) ([], s)
  (it.2.foldl (noting (makeClause B F literal) (makeUses B F literal)) acc).1

section DoFlip

variable {K : Type} [Zero K] [Add K] [LT K] [DecidableLT K]

/-- The first loop of `do_flip`, with `get_num_breaks_by_flip`. -/
def weightUses (B : Build) (F : CnfFormula) (calcF : Int → K) (s : SerialInstance) (rclause : Clause) :
    List Subscript :=
  let (f, _) := prefixSums B F calcF s rclause
  (List.range rclause.numVars).flatMap fun (i : Nat) =>
    usedIf B.caching (s.breaksAt (varIndex (rclause.subscript i))) ++ [⟨.f, i, f.size⟩]

/-- The second loop of `do_flip`: `f` is read up to the first prefix sum that exceeds `r`. -/
def chooseUses (f : Vec K) (r : K) (rclause : Clause) : List Subscript :=
  ((List.range rclause.numVars).filter fun (i : Nat) => (List.range i).all fun (j : Nat) => !decide (r < f.get j)).map
    fun (i : Nat) => ⟨.f, i, f.size⟩

def doFlipUses (B : Build) (F : CnfFormula) (calcF : Int → K) (s : SerialInstance) (getRandomValue : K → K) :
    List Subscript :=
  let rclause := s.pickedClause F
  let (f, sumF) := prefixSums B F calcF s rclause
  s.unsatAt (s.numFlipsDone % s.unsatClauses.size : Nat) ::
    (weightUses B F calcF s rclause ++ chooseUses f (getRandomValue sumF) rclause ++
      flipUses B F s (chosenLiteral B F calcF getRandomValue s))

/-- A run: the construction and `k` calls of `do_flip`, with all the subscripts they use. Neither `found_solution` nor
`check_assignment` uses any of the vectors by subscript. -/
def usedInRun (B : Build) (F : CnfFormula) (mem : Memory) (initialConfig : Bitfield) (calcF : Int → K)
    (rand : Nat → K → K) (k : Nat) : List Subscript × SerialInstance :=
  (List.range k).foldl
    (noting (fun s (i : Nat) => doFlip B F calcF (rand i) s) (fun s (i : Nat) => doFlipUses B F calcF s (rand i)))
    (newUses B F mem initialConfig, new B F mem initialConfig)

end DoFlip

variable {B : Build} {F : CnfFormula}

@[simp] theorem mem_usedIf {b : Bool} {u v : Subscript} : v ∈ usedIf b u ↔ b = true ∧ v = u := by
  unfold usedIf
  cases b <;> simp

/-! ## The sizes -/

/-- The numbers of locations, break counts and critical literals. -/
def sizes (s : SerialInstance) : Nat × Nat × Nat :=
  (s.unsatClausesLocation.size, s.numBreaksByFlip.size, s.critLiteralInClause.size)

/-- What `initialize` makes of them: it resizes the caches that the build has, and no round changes a size. -/
def Allotted (B : Build) (F : CnfFormula) (s : SerialInstance) : Prop :=
  s.sizes = (0, if B.caching then F.numVars.toNat else 0, if B.useCritLiteralCaching then F.clauses.length else 0)

theorem makeClauseSat_sizes (s : SerialInstance) (c : Int) : (s.makeClauseSat c).sizes = s.sizes := by
  unfold makeClauseSat
  simp only
  split_ifs <;> rfl

theorem breakClause_sizes (B : Build) (F : CnfFormula) (l : Int) (s : SerialInstance) (c : Int) :
    (breakClause B F l s c).sizes = s.sizes := by
  unfold breakClause
  simp only
  split_ifs <;> rfl

theorem makeClause_sizes (B : Build) (F : CnfFormula) (l : Int) (s : SerialInstance) (c : Int) :
    (makeClause B F l s c).sizes = s.sizes := by
  have hsat := makeClauseSat_sizes s c
  unfold makeClause
  simp only
  split_ifs <;> first | exact hsat | rfl

theorem initClause_sizes (B : Build) (F : CnfFormula) (s : SerialInstance) (c : Int) :
    (initClause B F s c).sizes = s.sizes := by
  unfold initClause
  simp only
  split_ifs <;> rfl

/-- A loop whose rounds keep the sizes keeps them. -/
theorem foldl_sizes {α : Type} {f : SerialInstance → α → SerialInstance} (hf : ∀ s a, (f s a).sizes = s.sizes) :
    ∀ (l : List α) (s : SerialInstance), (l.foldl f s).sizes = s.sizes
  | [], _ => rfl
  | a :: l, s => (foldl_sizes hf l (f s a)).trans (hf s a)

theorem flipChosen_sizes (B : Build) (F : CnfFormula) (s : SerialInstance) (l : Int) :
    (flipChosen B F s l).sizes = s.sizes := by
  rw [flipChosen_eq, flipLiteral_eq]
  change (afterLoops B F s l).sizes = s.sizes
  unfold afterLoops
  rw [foldl_sizes (makeClause_sizes B F l), foldl_sizes (breakClause_sizes B F l)]

theorem Allotted.constructed (B : Build) (F : CnfFormula) (mem : Memory) (config : Bitfield) :
    Allotted B F (constructed B F mem config) := rfl

theorem Allotted.of_sizes {s s' : SerialInstance} (h : Allotted B F s) (hs : s'.sizes = s.sizes) : Allotted B F s' :=
  hs.trans h

theorem Allotted.new (B : Build) (F : CnfFormula) (mem : Memory) (config : Bitfield) :
    Allotted B F (new B F mem config) := by
  rw [new_eq]
  apply init_loop (P := fun _ s => Allotted B F s)
  · exact .constructed B F mem config
  · rintro i s - h
    exact h.of_sizes (initClause_sizes B F s i)

/-! ## The locations have no element -/

theorem Allotted.location {s : SerialInstance} (h : Allotted B F s) : s.unsatClausesLocation.size = 0 :=
  congrArg Prod.fst h

theorem locationAt_mem_initUses (B : Build) (F : CnfFormula) (s : SerialInstance) (c : Int) :
    s.locationAt c ∈ initUses B F s c := by
  unfold initUses makeClauseUnsatUses
  simp only
  split_ifs <;> simp

/-- The loop of `initialize` uses the location of every clause while there is none. -/
theorem location_mem_newUses (B : Build) (F : CnfFormula) (mem : Memory) (config : Bitfield) {c : Nat}
    (hc : c < F.clauses.length) : ⟨.unsatClausesLocation, c, 0⟩ ∈ newUses B F mem config := by
  have h := foldl_range (n := F.clauses.length)
    (f := noting (fun s (i : Nat) => initClause B F s i) (fun s (i : Nat) => initUses B F s i))
    (P := fun i acc => Allotted B F acc.2 ∧ ∀ c : Nat, c < i → ⟨.unsatClausesLocation, c, 0⟩ ∈ acc.1)
    (s := ([], SerialInstance.constructed B F mem config))
      ⟨.constructed B F mem config, fun c hc => absurd hc (by omega)⟩ ?_
  · exact h.2 c hc
  · rintro i acc - ⟨hz, huses⟩
    refine ⟨hz.of_sizes (initClause_sizes B F acc.2 i), fun c hci => ?_⟩
    apply List.mem_append.2
    rcases Nat.lt_succ_iff_lt_or_eq.1 hci with hlt | rfl
    · exact Or.inl (huses c hlt)
    · right
      have := locationAt_mem_initUses B F acc.2 c
      unfold locationAt at this
      rwa [hz.location] at this

section Runs

variable {K : Type} [Zero K] [Add K] [LT K] [DecidableLT K]

theorem newUses_subset_usedInRun (B : Build) (F : CnfFormula) (mem : Memory) (config : Bitfield) (calcF : Int → K)
    (rand : Nat → K → K) (k : Nat) : newUses B F mem config ⊆ (usedInRun B F mem config calcF rand k).1 :=
  foldl_range (P := fun _ (acc : List Subscript × SerialInstance) => newUses B F mem config ⊆ acc.1)
    (List.Subset.refl _)
    fun _ _ _ h => List.Subset.trans h (List.subset_append_left ..)

/-- In no run on a formula with a clause do all subscripts name an element: the constructor already uses the location
of the first clause, and `unsat_clauses_location` has no element. -/
theorem usedInRun_not_inRange (B : Build) (F : CnfFormula) (hne : F.clauses ≠ []) (mem : Memory) (config : Bitfield)
    (calcF : Int → K) (rand : Nat → K → K) (k : Nat) :
    ¬ ∀ u ∈ (usedInRun B F mem config calcF rand k).1, u.InRange := by
  intro h
  have hmem := location_mem_newUses B F mem config (List.length_pos_iff.2 hne)
  have hlt := (h _ (newUses_subset_usedInRun B F mem config calcF rand k hmem)).2
  simp at hlt

end Runs

/-- The construction on the formula of one unit clause. -/
def unitSubscripts (F : CnfFormula) : Bool :=
  F.numVariables == 1 && !F.clauses.isEmpty &&
    (newUses defaultBuild F ⟨0, 0, 0, 0⟩ ⟨1, 1, false, 0⟩).contains ⟨.unsatClausesLocation, 0, 0⟩

theorem unitText_subscripts : (CnfFormula.load true unitText).toOption.elim false unitSubscripts = true := by
  decide +kernel

theorem usedInRun_not_inRange_unitText : ∃ F, CnfFormula.load true unitText = .ok F ∧
    ¬ ∀ u ∈ (usedInRun defaultBuild F ⟨0, 0, 0, 0⟩ ⟨1, 1, false, 0⟩ (fun _ => (1 : ℚ)) (fun _ x => x / 2) 1).1,
      u.InRange := by
  obtain ⟨F, hF, hrun⟩ := ok_of_elim_toOption unitText_subscripts
  simp only [unitSubscripts, Bool.and_eq_true, Bool.not_eq_true', List.isEmpty_eq_false_iff] at hrun
  exact ⟨F, hF, usedInRun_not_inRange defaultBuild F hrun.1.2 ⟨0, 0, 0, 0⟩ ⟨1, 1, false, 0⟩ (fun _ => (1 : ℚ))
    (fun _ x => x / 2) 1⟩

theorem subscripts_not_inRange : ¬ ∀ text F mem config (calcF : Int → ℚ) rand k, CnfFormula.load true text = .ok F →
    F.clauses ≠ [] → HasAssignment F config → (∀ b, 0 < calcF b) → (∀ i x, 0 < x → rand i x < x) →
    ∀ u ∈ (usedInRun defaultBuild F mem config calcF rand k).1, u.InRange := by
  intro h
  obtain ⟨F, hF, hrun⟩ := ok_of_elim_toOption unitText_subscripts
  simp only [unitSubscripts, Bool.and_eq_true, Bool.not_eq_true', beq_iff_eq, List.isEmpty_eq_false_iff,
    List.contains_iff_mem] at hrun
  obtain ⟨⟨hn, hne⟩, hmem⟩ := hrun
  have hin := h unitText F ⟨0, 0, 0, 0⟩ ⟨1, 1, false, 0⟩ (fun _ => 1) (fun _ x => x / 2) 0 hF hne
    ⟨hn.symm, by decide, by decide⟩
    (fun _ => one_pos) (fun _ x hx => by linarith) _ hmem
  revert hin
  decide

/-! ## All other subscripts name an element -/

section Uses

variable {s : SerialInstance}

theorem Allotted.locationAt_placed (h : Allotted B F s) (c : Int) : (s.locationAt c).Placed :=
  Subscript.placed_of_empty h.location (Or.inl rfl)

theorem Allotted.breaksAt_placed (h : Allotted B F s) (hB : B.caching = true) {v : Int} (h0 : 0 ≤ v)
    (hv : v < F.numVariables) : (s.breaksAt v).Placed := by
  have hsize : s.numBreaksByFlip.size = F.numVars.toNat := by
    rw [show s.numBreaksByFlip.size = s.sizes.2.1 from rfl, h]
    exact if_pos hB
  apply Subscript.placed_of_inRange
  · refine ⟨h0, ?_⟩
    change v < s.numBreaksByFlip.size
    rw [hsize]
    unfold CnfFormula.numVars
    omega
  · simp [breaksAt]

theorem Allotted.critAt_placed (h : Allotted B F s) (hB : B.useCritLiteralCaching = true) {c : Int} (hc : F.InRange c) :
    (s.critAt c).Placed := by
  have hsize : s.critLiteralInClause.size = F.clauses.length := by
    rw [show s.critLiteralInClause.size = s.sizes.2.2 from rfl, h]
    exact if_pos hB
  apply Subscript.placed_of_inRange
  · refine ⟨hc.1, ?_⟩
    change c < s.critLiteralInClause.size
    rw [hsize]
    exact hc.2
  · simp [critAt]

theorem unsatAt_placed {p : Int} (h0 : 0 ≤ p) (hp : p < s.unsatClauses.size) : (s.unsatAt p).Placed :=
  Subscript.placed_of_inRange ⟨h0, hp⟩ (by simp [unsatAt])

theorem makeClauseUnsatUses_placed (h : Allotted B F s) (c : Int) : ∀ u ∈ s.makeClauseUnsatUses c, u.Placed := by
  rintro u hu
  obtain rfl := List.mem_singleton.1 hu
  exact h.locationAt_placed c

/-- The entry that is moved goes to a position below the last one. -/
theorem makeClauseSatUses_placed (h : Allotted B F s) {c : Int} (h0 : 0 ≤ s.unsatClausesLocation.get c)
    (hlt : s.unsatClausesLocation.get c < s.unsatClauses.size) : ∀ u ∈ s.makeClauseSatUses c, u.Placed := by
  have hpop : Allotted B F { s with unsatClauses := s.unsatClauses.popBack } := h.of_sizes rfl
  rintro u hu
  unfold makeClauseSatUses at hu
  simp only at hu
  rcases List.mem_append.1 hu with hu | hu
  · obtain rfl : u = s.locationAt c := by simpa using hu
    exact h.locationAt_placed c
  · split at hu
    · exact absurd hu List.not_mem_nil
    · rename_i hne
      rw [Vec.size_popBack] at hne
      simp only [List.mem_cons, List.not_mem_nil, or_false] at hu
      rcases hu with rfl | rfl
      · exact hpop.locationAt_placed _
      · apply unsatAt_placed h0
        rw [Vec.size_popBack]
        omega

end Uses

section Rounds

variable {S : Int → Multiset Int} {s : SerialInstance} {l c : Int} {rem : List Int}

/-- The break count that the break loop raises for the last literal left is that of a variable. -/
theorem BreakInv.critical_var (hw : F.WellFormed) (hclean : CleanUnless B F) (hT : Tracks F S s) (hl : F.IsLiteral l)
    (hf : litTrue s.assignment l = false) (hI : BreakInv F s.assignment l (c :: rem) S) (hc : F.InRange c)
    (hm : -l ∈ S c) (h2 : s.unsatClausesLocation.get c = -2) {v : Int}
    (hv : v = if B.allowUncleanClauses ∧ s.getCriticalLiteral (F.getClause c) (-l) = 0 then varIndex l
      else varIndex (s.getCriticalLiteral (F.getClause c) (-l))) : 0 ≤ v ∧ v < F.numVariables := by
  have hneg : litTrue s.assignment (-l) = true := by
    rw [litTrue_neg _ hl.1, hf]
    rfl
  have hne : S c ≠ 0 := fun e => Multiset.notMem_zero (-l) (e ▸ hm)
  have hcard := Multiset.card_erase_add_one hm
  have := hT.sat c hc hne
  obtain ⟨x, hx⟩ := Multiset.card_eq_one.1 (show ((S c).erase (-l)).card = 1 by omega)
  have hcons : S c = -l ::ₘ {x} := by rw [← hx, Multiset.cons_erase hm]
  rcases hI.critical hw hclean hc hcons with ⟨hx0, hfind⟩ | ⟨-, h0, hB⟩
  · have hlit := isLiteral_of_mem hw (hI.le_trueLits hneg hc) hc (x := x) (by rw [hcons]; simp)
    rw [hv, hfind, if_neg fun e => hx0 e.2]
    exact ⟨varIndex_nonneg hlit.1, hlit.2⟩
  · rw [hv, if_pos ⟨hB, h0⟩]
    exact ⟨varIndex_nonneg hl.1, hl.2⟩

theorem breakUses_placed (hw : F.WellFormed) (hclean : CleanUnless B F) (hz : Allotted B F s) (hT : Tracks F S s)
    (hl : F.IsLiteral l) (hf : litTrue s.assignment l = false) (hI : BreakInv F s.assignment l (c :: rem) S)
    (hc : F.InRange c) (hm : -l ∈ S c) : ∀ u ∈ breakUses B F l s c, u.Placed := by
  have hrvar : B.caching = true → (s.breaksAt (varIndex l)).Placed :=
    fun hB => hz.breaksAt_placed hB (varIndex_nonneg hl.1) hl.2
  rintro u hu
  unfold breakUses at hu
  simp only at hu
  rcases List.mem_cons.1 hu with rfl | hu
  · exact hz.locationAt_placed c
  split at hu
  · exact absurd hu List.not_mem_nil
  rcases List.mem_append.1 hu with hu | hu
  · split at hu
    · simp only [List.mem_append, mem_usedIf] at hu
      rcases hu with (hu | ⟨hB, rfl⟩) | ⟨hB, rfl⟩
      · exact makeClauseUnsatUses_placed hz c u hu
      · exact hrvar hB
      · exact hz.critAt_placed hB hc
    · obtain rfl := List.mem_singleton.1 hu
      exact hz.locationAt_placed c
  · split at hu
    · rename_i h2
      simp only [List.mem_cons, mem_usedIf] at hu
      rcases hu with rfl | ⟨hB, rfl⟩
      · obtain ⟨k0, k1⟩ := hI.critical_var hw hclean hT hl hf hc hm h2.2 rfl
        exact hz.breaksAt_placed h2.1 k0 k1
      · exact hz.critAt_placed hB hc
    · exact absurd hu List.not_mem_nil

/-- The break count that the make loop lowers is that of a variable, whether the literal is looked up or searched
for. -/
theorem MakeInv.critical_var (hw : F.WellFormed) (hclean : CleanUnless B F) (hT : Tracks F S s) (hC : Caches B F S s)
    (hl : F.IsLiteral l) (hf : litTrue s.assignment l = false) (hI : MakeInv F s.assignment l (c :: rem) S)
    (hc : F.InRange c) (hB : B.caching = true) (h1 : s.unsatClausesLocation.get c = -1) {k : Int}
    (hk : k = if B.useCritLiteralCaching then s.critLiteralInClause.get c
      else s.getCriticalLiteral (F.getClause c) (-l)) {v : Int}
    (hv : v = if B.allowUncleanClauses ∧ k = 0 then varIndex l else varIndex k) : 0 ≤ v ∧ v < F.numVariables := by
  have hne : S c ≠ 0 := fun e => by
    have := (hT.location_nonneg hc).2 e
    omega
  have := hT.sat c hc hne
  obtain ⟨x, hx⟩ := Multiset.card_eq_one.1 (show (S c).card = 1 by omega)
  have hlit := isLiteral_of_mem hw (hI.le_trueLits hl.1 hf hc) hc (x := x) (by rw [hx]; simp)
  have hfound : k = x ∨ k = 0 ∧ B.allowUncleanClauses = true := by
    split at hk
    · rename_i hu
      exact Or.inl (hk.trans (hC.crit hB hu c hc x hx))
    · rcases hI.critical hw hclean hc hx with ⟨-, hfind⟩ | ⟨-, h0, hB'⟩
      · exact Or.inl (hk.trans hfind)
      · exact Or.inr ⟨hk.trans h0, hB'⟩
  rcases hfound with rfl | ⟨h0, hB'⟩
  · rw [hv, if_neg fun e => hlit.1 e.2]
    exact ⟨varIndex_nonneg hlit.1, hlit.2⟩
  · rw [hv, if_pos ⟨hB', h0⟩]
    exact ⟨varIndex_nonneg hl.1, hl.2⟩

theorem makeUses_placed (hw : F.WellFormed) (hclean : CleanUnless B F) (hz : Allotted B F s) (hT : Tracks F S s)
    (hC : Caches B F S s) (hl : F.IsLiteral l) (hf : litTrue s.assignment l = false)
    (hI : MakeInv F s.assignment l (c :: rem) S) (hc : F.InRange c) : ∀ u ∈ makeUses B F l s c, u.Placed := by
  have hrvar : B.caching = true → (s.breaksAt (varIndex l)).Placed :=
    fun hB => hz.breaksAt_placed hB (varIndex_nonneg hl.1) hl.2
  rintro u hu
  unfold makeUses at hu
  simp only at hu
  rcases List.mem_cons.1 hu with rfl | hu
  · exact hz.locationAt_placed c
  split at hu
  · rename_i h0
    simp only [List.mem_append, mem_usedIf] at hu
    rcases hu with (hu | ⟨hB, rfl⟩) | ⟨hB, rfl⟩
    · have hlt := (hT.unsat.member c ⟨hc, (hT.location_nonneg hc).1 h0⟩).2.1
      exact makeClauseSatUses_placed hz h0 hlt u hu
    · exact hrvar hB
    · exact hz.critAt_placed hB hc
  · rcases List.mem_cons.1 hu with rfl | hu
    · exact hz.locationAt_placed c
    split at hu
    · rename_i h1
      simp only [List.mem_append, List.mem_cons, mem_usedIf, Bool.and_eq_true] at hu
      rcases hu with ⟨hB, rfl⟩ | rfl | ⟨hB, rfl⟩
      · exact hz.critAt_placed hB hc
      · obtain ⟨k0, k1⟩ := hI.critical_var hw hclean hT hC hl hf hc h1.1 h1.2 rfl rfl
        exact hz.breaksAt_placed h1.1 k0 k1
      · exact hz.critAt_placed hB.2 hc
    · exact absurd hu List.not_mem_nil

theorem initUses_placed (hw : F.WellFormed) (hz : Allotted B F s) (hc : F.InRange c) :
    ∀ u ∈ initUses B F s c, u.Placed := by
  rintro u hu
  unfold initUses at hu
  simp only at hu
  split at hu
  · exact makeClauseUnsatUses_placed hz c u hu
  rcases List.mem_append.1 hu with hu | hu
  · split at hu
    · rename_i h1
      simp only [List.mem_cons, mem_usedIf] at hu
      rcases hu with rfl | ⟨hB, rfl⟩
      · -- the search finds the one true literal
        have hcard := h1.1
        rw [numSatLitInClause_eq hw s hc] at hcard
        obtain ⟨x, hx⟩ := Multiset.card_eq_one.1 hcard
        have hlit := isLiteral_of_mem hw (S := trueLitsOf F s.assignment) le_rfl hc (x := x) (by rw [hx]; simp)
        have h0 : ∀ y ∈ trueLitsOf F s.assignment c, y ≠ 0 := fun y hy => (hw.isLiteral hc (mem_trueLits.1 hy).1).1
        rw [(getCriticalLiteral_eq hw s hc 0).1 x (by rw [Multiset.filter_eq_self.2 h0, hx])]
        exact hz.breaksAt_placed h1.2 (varIndex_nonneg hlit.1) hlit.2
      · exact hz.critAt_placed hB hc
    · exact absurd hu List.not_mem_nil
  · obtain rfl := List.mem_singleton.1 hu
    exact hz.locationAt_placed c

end Rounds

theorem newUses_placed (hw : F.WellFormed) (B : Build) (mem : Memory) (config : Bitfield) :
    ∀ u ∈ newUses B F mem config, u.Placed := by
  have h := foldl_range (n := F.clauses.length)
    (f := noting (fun s (i : Nat) => initClause B F s i) (fun s (i : Nat) => initUses B F s i))
    (P := fun _ acc => Allotted B F acc.2 ∧ ∀ u ∈ acc.1, u.Placed)
    (s := ([], SerialInstance.constructed B F mem config))
    ⟨.constructed B F mem config, by simp⟩ ?_
  · exact h.2
  · rintro i acc hi ⟨hz, huses⟩
    refine ⟨hz.of_sizes (initClause_sizes B F acc.2 i), fun u hu => ?_⟩
    rcases List.mem_append.1 hu with hu | hu
    · exact huses u hu
    · exact initUses_placed hw hz ⟨by omega, by unfold CnfFormula.numClauses; omega⟩ u hu

/-- A flip of a false literal. -/
theorem flipUses_placed (hw : F.WellFormed) (hclean : CleanUnless B F) {s : SerialInstance} (hz : Allotted B F s)
    (h : CacheInv B F s) {l : Int} (hl : F.IsLiteral l) (hf : litTrue s.assignment l = false)
    (hx : F.ExactAt (varIndex l)) :
    ∀ u ∈ flipUses B F s l, u.Placed := by
  obtain ⟨S, -, huses, -⟩ := flip_loops
    (f := noting (breakClause B F l) (breakUses B F l)) (g := noting (makeClause B F l) (makeUses B F l))
    (P := fun S acc => (∀ u ∈ acc.1, u.Placed) ∧ Allotted B F acc.2 ∧ Tracks F S acc.2 ∧ Caches B F S acc.2 ∧
      acc.2.belegung = s.belegung) (s := ([], s)) hl.1 hf hx
    (fun rem S acc c hP hc hI hm => by
      obtain ⟨hus, hz, hT, hC, hb⟩ := hP
      have ha : acc.2.assignment = s.assignment := congrArg Bitfield.read hb
      rw [← ha] at hI hf
      refine ⟨fun u hu => ?_, hz.of_sizes (breakClause_sizes B F l acc.2 c), hT.breakClause B hc hm,
        hC.breakClause hw hclean hT hI hc hm, (breakClause_frame B F l acc.2 c).1.trans hb⟩
      rcases List.mem_append.1 hu with hu | hu
      · exact hus u hu
      · exact breakUses_placed hw hclean hz hT hl hf hI hc hm u hu)
    (fun rem S acc c hP hc hI => by
      obtain ⟨hus, hz, hT, hC, hb⟩ := hP
      have ha : acc.2.assignment = s.assignment := congrArg Bitfield.read hb
      rw [← ha] at hI hf
      refine ⟨fun u hu => ?_, hz.of_sizes (makeClause_sizes B F l acc.2 c), hT.makeClause B hc,
        hC.makeClause hw hclean hT hI hc, (makeClause_frame B F l acc.2 c).1.trans hb⟩
      rcases List.mem_append.1 hu with hu | hu
      · exact hus u hu
      · exact makeUses_placed hw hclean hz hT hC hl hf hI hc u hu)
    ⟨by simp, hz, h.list.tracks, h.caches, rfl⟩
  exact huses

section Runs

variable {K : Type} [Field K] [LinearOrder K] [IsStrictOrderedRing K]

omit [LinearOrder K] [IsStrictOrderedRing K] in
/-- Writing prefix sums by subscript gives `f` no element. -/
theorem prefixSums_size (B : Build) (F : CnfFormula) (calcF : Int → K) (s : SerialInstance) (rclause : Clause) :
    (prefixSums B F calcF s rclause).1.size = 0 :=
  foldl_range (P := fun _ (acc : Vec K × K) => acc.1.size = 0) rfl fun _ _ _ h => h

/-- One call of `do_flip` before a solution is found. -/
theorem doFlipUses_placed (F : ExactFormula) (hclean : CleanUnless B F.toCnfFormula) {s : SerialInstance}
    (hz : Allotted B F.toCnfFormula s) (h : CacheInv B F.toCnfFormula s) (hrun : s.foundSolution = false)
    {calcF : Int → K} (hpos : ∀ b, 0 < calcF b) {rand : K → K} (hrand : ∀ x, 0 < x → rand x < x) :
    ∀ u ∈ doFlipUses B F.toCnfFormula calcF s rand, u.Placed := by
  have hw := F.wellFormed
  obtain ⟨hr, -⟩ := h.list.picked hrun
  have hempty := prefixSums_size B F.toCnfFormula calcF s (s.pickedClause F.toCnfFormula)
  have hf : ∀ i : Int, Subscript.Placed
      ⟨.f, i, (prefixSums B F.toCnfFormula calcF s (s.pickedClause F.toCnfFormula)).1.size⟩ :=
    fun i => Subscript.placed_of_empty hempty (Or.inr rfl)
  rintro u hu
  unfold doFlipUses at hu
  simp only at hu
  rcases List.mem_cons.1 hu with rfl | hu
  · have hsize : s.unsatClauses.size ≠ 0 := by simpa [foundSolution] using hrun
    have := Nat.mod_lt s.numFlipsDone (Nat.pos_of_ne_zero hsize)
    exact unsatAt_placed (by omega) (by omega)
  rcases List.mem_append.1 hu with hu | hu
  · rcases List.mem_append.1 hu with hu | hu
    · obtain ⟨i, hi, hu⟩ := List.mem_flatMap.1 hu
      simp only [List.mem_append, mem_usedIf, List.mem_singleton] at hu
      rcases hu with ⟨hB, rfl⟩ | rfl
      · have hlit := hw.isLiteral hr (Clause.subscript_mem (List.mem_range.1 hi))
        exact hz.breaksAt_placed hB (varIndex_nonneg hlit.1) hlit.2
      · exact hf i
    · obtain ⟨i, -, rfl⟩ := List.mem_map.1 hu
      exact hf i
  · obtain ⟨-, hlit, hfalse, hx⟩ := h.list.chosen hw F.exact B hpos hrand hrun
    exact flipUses_placed hw hclean hz h hlit hfalse hx u hu

omit [IsStrictOrderedRing K] in
theorem usedInRun_succ (B : Build) (F : CnfFormula) (mem : Memory) (config : Bitfield) (calcF : Int → K)
    (rand : Nat → K → K) (k : Nat) : usedInRun B F mem config calcF rand (k + 1) =
      noting (fun s (i : Nat) => doFlip B F calcF (rand i) s) (fun s (i : Nat) => doFlipUses B F calcF s (rand i))
        (usedInRun B F mem config calcF rand k) k := by
  unfold usedInRun
  rw [List.range_succ, List.foldl_append]
  rfl

/-- On a formula with an exact index, in every run that flips until a solution is found: the subscripts of
`unsat_clauses`, `num_breaks_by_flip` and `crit_literal_in_clause` all name an element, those of
`unsat_clauses_location` and `f` never do. -/
theorem usedInRun_placed (F : ExactFormula) (hclean : CleanUnless B F.toCnfFormula) (mem : Memory) (config : Bitfield)
    (hc : HasAssignment F.toCnfFormula config) (calcF : Int → K) (hpos : ∀ b, 0 < calcF b) (rand : Nat → K → K)
    (hrand : ∀ k x, 0 < x → rand k x < x) (k : Nat)
    (hrun : ∀ j < k, (usedInRun B F.toCnfFormula mem config calcF rand j).2.foundSolution = false) :
    ∀ u ∈ (usedInRun B F.toCnfFormula mem config calcF rand k).1,
      u.InRange ↔ u.vector ≠ .unsatClausesLocation ∧ u.vector ≠ .f := by
  have hw := F.wellFormed
  suffices h : (∀ u ∈ (usedInRun B F.toCnfFormula mem config calcF rand k).1, u.Placed) ∧
      Allotted B F.toCnfFormula (usedInRun B F.toCnfFormula mem config calcF rand k).2 ∧
      CacheInv B F.toCnfFormula (usedInRun B F.toCnfFormula mem config calcF rand k).2 from h.1
  induction k with
  | zero => exact ⟨newUses_placed hw B mem config, .new B F.toCnfFormula mem config, .new hw B mem hc⟩
  | succ k ih =>
    obtain ⟨huses, hz, hinv⟩ := ih fun j hj => hrun j (by omega)
    have hflip := hrun k (by omega)
    rw [usedInRun_succ]
    obtain ⟨hmem, -, -, hx⟩ := hinv.list.chosen hw F.exact B hpos (hrand k) hflip
    refine ⟨fun u hu => ?_, hz.of_sizes (flipChosen_sizes B F.toCnfFormula _ _),
      hinv.flipChosen hw hclean hflip hmem hx⟩
    rcases List.mem_append.1 hu with hu | hu
    · exact huses u hu
    · exact doFlipUses_placed F hclean hz hinv hflip hpos (hrand k) u hu

end Runs

end SerialInstance

end ParallelProbsat.Sat
