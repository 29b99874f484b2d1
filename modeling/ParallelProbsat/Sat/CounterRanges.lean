/-
The counters of `serial_instance` in the default build, at every point of a run: the states behind every
statement of the constructor's loop and of the break and make loops of `flip_literal`, with the subscripts by
which the statements access `num_breaks_by_flip`.

The break counts of a state within the loops are those of clauses whose counted literals all are true under one
assignment: the one before the flip as long as the break loop runs, and the one after it as soon as the make loop
does. So of every variable only one literal can be the sole counted literal of a clause, and the count stays below
the number of its occurrences.
-/
import ParallelProbsat.Sat.Layouts
import ParallelProbsat.Sat.Sampling

namespace ParallelProbsat.Sat

open ParallelProbsat.Lib ParallelProbsat.Util

namespace SerialInstance

/-! ## Statement by statement -/

/-- A point of a run: the state, and the subscript with which the statement before it has accessed
`num_breaks_by_flip`. -/
structure Point where
  subscript : Option Int
  state : SerialInstance

/-- `make_clause_unsat` -/
def makeClauseUnsatPoints (s : SerialInstance) (c : Int) : List Point :=
  [⟨none, { s with unsatClausesLocation := s.unsatClausesLocation.set c s.unsatClauses.size }⟩,
    ⟨none, s.makeClauseUnsat c⟩]

/-- `make_clause_sat` -/
def makeClauseSatPoints (s : SerialInstance) (c : Int) : List Point :=
  let nowSatCl := s.unsatClausesLocation.get c
  let s₁ := { s with unsatClausesLocation := s.unsatClausesLocation.set c (-1) }
  let uclause := s.unsatClauses.back
  let s₂ := { s₁ with unsatClauses := s.unsatClauses.popBack }
  if s₂.unsatClauses.size = 0 ∨ nowSatCl = s₂.unsatClauses.size then [⟨none, s₁⟩, ⟨none, s₂⟩]
  else
    let s₃ := { s₂ with unsatClausesLocation := s₂.unsatClausesLocation.set uclause nowSatCl }
    [⟨none, s₁⟩, ⟨none, s₂⟩, ⟨none, s₃⟩, ⟨none, { s₃ with unsatClauses := s₃.unsatClauses.set nowSatCl uclause }⟩]

/-- One round of the break loop. -/
def breakPoints (F : CnfFormula) (literal : Int) (s : SerialInstance) (c : Int) : List Point :=
  let rvarIndex := varIndex literal
  let ucl := s.unsatClausesLocation.get c
  if 0 ≤ ucl then []
  else if ucl = -1 then
    let s₁ := s.makeClauseUnsat c
    let s₂ := s₁.addBreaks rvarIndex (-1)
    s.makeClauseUnsatPoints c ++ [⟨some rvarIndex, s₂⟩, ⟨none, s₂.setCritLiteral c 0⟩]
  else
    let s₁ := { s with unsatClausesLocation := s.unsatClausesLocation.modify c (· + 1) }
    if ucl = -2 then
      let critLiteral := s₁.getCriticalLiteral (F.getClause c) (-literal)
      let s₂ := s₁.addBreaks (varIndex critLiteral) 1
      [⟨none, s₁⟩, ⟨some (varIndex critLiteral), s₂⟩, ⟨none, s₂.setCritLiteral c critLiteral⟩]
    else [⟨none, s₁⟩]

/-- One round of the make loop. -/
def makePoints (literal : Int) (s : SerialInstance) (c : Int) : List Point :=
  let rvarIndex := varIndex literal
  let ucl := s.unsatClausesLocation.get c
  if 0 ≤ ucl then
    let s₁ := s.makeClauseSat c
    let s₂ := s₁.addBreaks rvarIndex 1
    s.makeClauseSatPoints c ++ [⟨some rvarIndex, s₂⟩, ⟨none, s₂.setCritLiteral c literal⟩]
  else
    let s₁ := { s with unsatClausesLocation := s.unsatClausesLocation.modify c (· - 1) }
    if ucl = -1 then
      let critLiteral := s₁.critLiteralInClause.get c
      [⟨none, s₁⟩, ⟨some (varIndex critLiteral), s₁.addBreaks (varIndex critLiteral) (-1)⟩]
    else [⟨none, s₁⟩]

/-- One round of the loop of `initialize`. -/
def initPoints (F : CnfFormula) (s : SerialInstance) (c : Int) : List Point :=
  let numSatLit := s.getNumSatLitInClause F c
  if numSatLit = 0 then s.makeClauseUnsatPoints c
  else if numSatLit = 1 then
    let critLiteral := s.getCriticalLiteral (F.getClause c) 0
    let s₁ := s.addBreaks (varIndex critLiteral) 1
    let s₂ := s₁.setCritLiteral c critLiteral
    [⟨some (varIndex critLiteral), s₁⟩, ⟨none, s₂⟩,
      ⟨none, { s₂ with unsatClausesLocation := s₂.unsatClausesLocation.set c (-numSatLit) }⟩]
  else [⟨none, { s with unsatClausesLocation := s.unsatClausesLocation.set c (-numSatLit) }⟩]

/-- A round of a loop, with the points it passes noted down. -/
def visit {α : Type} (points : SerialInstance → α → List Point) (round : SerialInstance → α → SerialInstance)
    (acc : List Point × SerialInstance) (c : α) : List Point × SerialInstance :=
  (acc.1 ++ points acc.2 c, round acc.2 c)

/-- The points of `flip_literal` and of the rest of `do_flip`. -/
def flipPoints (F : CnfFormula) (s : SerialInstance) (literal : Int) : List Point :=
  let it := flipRanges F literal
  let acc := it.1.foldl (visit (breakPoints F literal) (breakClause defaultBuild F literal)) ([⟨none, s⟩], s)
  let acc := it.2.foldl (visit (makePoints literal) (makeClause defaultBuild F literal)) acc
  acc.1 ++ [⟨none, flipLiteral defaultBuild F s literal⟩, ⟨none, flipChosen defaultBuild F s literal⟩]

variable {F : CnfFormula}

/-- The points of a round lead to its result. -/
theorem breakPoints_last (l : Int) (s : SerialInstance) (c : Int) :
    ((breakPoints F l s c).getLast?.elim s Point.state) = breakClause defaultBuild F l s c := by
  unfold breakPoints breakClause makeClauseUnsatPoints
  simp only [defaultBuild]
  split_ifs <;> simp_all

theorem makePoints_last (l : Int) (s : SerialInstance) (c : Int) :
    ((makePoints l s c).getLast?.elim s Point.state) = makeClause defaultBuild F l s c := by
  unfold makePoints makeClause makeClauseSatPoints
  simp only [defaultBuild]
  split_ifs <;> simp_all

theorem initPoints_last (s : SerialInstance) (c : Int) :
    ((initPoints F s c).getLast?.elim s Point.state) = initClause defaultBuild F s c := by
  unfold initPoints initClause makeClauseUnsatPoints
  simp only [defaultBuild]
  split_ifs <;> simp_all

/-! ## What a round changes -/

theorem makeClauseUnsatPoints_frame {s : SerialInstance} {c : Int} {p : Point} (hp : p ∈ s.makeClauseUnsatPoints c) :
    p.subscript = none ∧ p.state.numBreaksByFlip = s.numBreaksByFlip ∧
      p.state.unsatClausesLocation = (s.makeClauseUnsat c).unsatClausesLocation := by
  unfold makeClauseUnsatPoints at hp
  simp only [List.mem_cons, List.not_mem_nil, or_false] at hp
  rcases hp with rfl | rfl <;> exact ⟨rfl, rfl, rfl⟩

theorem makeClauseSatPoints_frame {s : SerialInstance} {c : Int} {p : Point} (hp : p ∈ s.makeClauseSatPoints c) :
    p.subscript = none ∧ p.state.numBreaksByFlip = s.numBreaksByFlip ∧
      (p.state.unsatClausesLocation = s.unsatClausesLocation.set c (-1) ∨
        p.state.unsatClausesLocation = (s.makeClauseSat c).unsatClausesLocation) := by
  unfold makeClauseSatPoints at hp
  unfold makeClauseSat
  simp only at hp ⊢
  split_ifs at hp ⊢ <;> simp only [List.mem_cons, List.not_mem_nil, or_false] at hp <;>
    rcases hp with rfl | rfl | rfl | rfl <;> simp_all

/-- At every point of a break round the counters and the locations are those before it or those behind it. -/
theorem breakPoints_frame {l : Int} {s : SerialInstance} {c : Int} {p : Point} (hp : p ∈ breakPoints F l s c) :
    (p.state.numBreaksByFlip = s.numBreaksByFlip ∨
      p.state.numBreaksByFlip = (breakClause defaultBuild F l s c).numBreaksByFlip) ∧
    (p.state.unsatClausesLocation = s.unsatClausesLocation ∨
      p.state.unsatClausesLocation = (breakClause defaultBuild F l s c).unsatClausesLocation) ∧
    ∀ i ∈ p.subscript, i = varIndex l ∨
      s.unsatClausesLocation.get c = -2 ∧ i = varIndex (s.getCriticalLiteral (F.getClause c) (-l)) := by
  rw [← breakPoints_last]
  unfold breakPoints at hp ⊢
  simp only at hp ⊢
  split_ifs at hp ⊢ with h0 h1 h2
  · exact absurd hp List.not_mem_nil
  · rcases List.mem_append.1 hp with hp | hp
    · obtain ⟨hsub, hbreaks, hloc⟩ := makeClauseUnsatPoints_frame hp
      simp [hsub, hbreaks, hloc]
    · simp only [List.mem_cons, List.not_mem_nil, or_false] at hp
      rcases hp with rfl | rfl <;> simp
  · simp only [List.mem_cons, List.not_mem_nil, or_false] at hp
    rcases hp with rfl | rfl | rfl
    · simp
    · simp only [Option.mem_some_iff, forall_eq']
      exact ⟨.inr rfl, .inr rfl, .inr ⟨h2, rfl⟩⟩
    · simp
  · obtain rfl := List.mem_singleton.1 hp
    simp

/-- So they are in a make round, or a clause that was in the list is marked while it is taken out. -/
theorem makePoints_frame {l : Int} {s : SerialInstance} {c : Int} {p : Point} (hp : p ∈ makePoints l s c) :
    (p.state.numBreaksByFlip = s.numBreaksByFlip ∨
      p.state.numBreaksByFlip = (makeClause defaultBuild F l s c).numBreaksByFlip) ∧
    (p.state.unsatClausesLocation = s.unsatClausesLocation.set c (-1) ∨
      p.state.unsatClausesLocation = (makeClause defaultBuild F l s c).unsatClausesLocation) ∧
    ∀ i ∈ p.subscript, i = varIndex l ∨
      s.unsatClausesLocation.get c = -1 ∧ i = varIndex (s.critLiteralInClause.get c) := by
  rw [← makePoints_last (F := F)]
  unfold makePoints at hp ⊢
  simp only at hp ⊢
  split_ifs at hp ⊢ with h0 h1
  · rcases List.mem_append.1 hp with hp | hp
    · obtain ⟨hsub, hbreaks, hloc⟩ := makeClauseSatPoints_frame hp
      simp [hsub, hbreaks, hloc]
    · simp only [List.mem_cons, List.not_mem_nil, or_false] at hp
      rcases hp with rfl | rfl <;> simp
  · simp only [List.mem_cons, List.not_mem_nil, or_false] at hp
    rcases hp with rfl | rfl
    · simp
    · simp [h1]
  · obtain rfl := List.mem_singleton.1 hp
    simp

theorem initPoints_frame {s : SerialInstance} {c : Int} {p : Point} (hp : p ∈ initPoints F s c) :
    (p.state.numBreaksByFlip = s.numBreaksByFlip ∨
      p.state.numBreaksByFlip = (initClause defaultBuild F s c).numBreaksByFlip) ∧
    (p.state.unsatClausesLocation = s.unsatClausesLocation ∨
      p.state.unsatClausesLocation = (initClause defaultBuild F s c).unsatClausesLocation) ∧
    ∀ i ∈ p.subscript, s.getNumSatLitInClause F c = 1 ∧ i = varIndex (s.getCriticalLiteral (F.getClause c) 0) := by
  rw [← initPoints_last]
  unfold initPoints at hp ⊢
  simp only at hp ⊢
  split_ifs at hp ⊢ with h0 h1
  · obtain ⟨hsub, hbreaks, hloc⟩ := makeClauseUnsatPoints_frame hp
    simp [hsub, hbreaks, hloc, makeClauseUnsatPoints]
  · simp only [List.mem_cons, List.not_mem_nil, or_false] at hp
    rcases hp with rfl | rfl | rfl <;> simp [h1]
  · obtain rfl := List.mem_singleton.1 hp
    simp

/-! ## The counted literals within the loops -/

section Loops

variable {a : Int → Bool} {l : Int} {S : Int → Multiset Int} {rem : List Int}

theorem BreakInv.le_trueLits (hI : BreakInv F a l rem S) (hneg : litTrue a (-l) = true) {c : Int} (hc : F.InRange c) :
    S c ≤ trueLitsOf F a c := by
  obtain ⟨hsame, hcount, hle⟩ := hI c hc
  rw [Multiset.le_iff_count]
  intro x
  rcases eq_or_ne x (-l) with rfl | hx
  · rw [hcount, trueLitsOf, count_trueLits, if_pos hneg]
    exact hle
  · have := congrArg (Multiset.count x) hsame
    rw [Multiset.count_filter, Multiset.count_filter, if_pos hx, if_pos hx] at this
    exact this.le

theorem trueLitsOf_flipVar (h0 : l ≠ 0) (hl : litTrue a l = false) (c : Int) :
    trueLitsOf F (flipVar a (varIndex l)) c =
      (trueLitsOf F a c).filter (· ≠ -l) + Multiset.replicate ((F.getClause c).count l) l :=
  trueLits_flipVar h0 hl _

/-- From its first round on, the make loop counts literals that are true once the variable is flipped. -/
theorem MakeInv.le_trueLits (hI : MakeInv F a l rem S) (h0 : l ≠ 0) (hl : litTrue a l = false) {c : Int}
    (hc : F.InRange c) :
    S c ≤ trueLitsOf F (flipVar a (varIndex l)) c := by
  obtain ⟨j, hS, hj⟩ := hI c hc
  rw [hS, trueLitsOf_flipVar h0 hl]
  apply add_le_add_right
  rw [Multiset.replicate_le_replicate]
  omega

theorem MakeInv.cons_le_trueLits {c : Int} (hI : MakeInv F a l (c :: rem) S) (h0 : l ≠ 0) (hl : litTrue a l = false)
    (hc : F.InRange c) : l ::ₘ S c ≤ trueLitsOf F (flipVar a (varIndex l)) c := by
  obtain ⟨j, hS, hj⟩ := hI c hc
  rw [List.count_cons_self] at hj
  rw [hS, trueLitsOf_flipVar h0 hl, ← Multiset.add_cons, ← Multiset.replicate_succ]
  apply add_le_add_right
  rw [Multiset.replicate_le_replicate]
  omega

end Loops

/-! ## The ranges -/

/-- No literal occurs more often than `max_num_breaks_possible`, and that fits a `cnt_t`. -/
structure BoundsBreaks (F : CnfFormula) : Prop where
  nonneg : 0 ≤ F.maxNumBreaksPossible
  longest : ∀ l, F.IsLiteral l → (numOccurrences F.clauses l : Int) ≤ F.maxNumBreaksPossible
  fits : F.maxNumBreaksPossible ≤ cntMax

def CountersInRange (F : CnfFormula) (s : SerialInstance) : Prop :=
  ∀ v, 0 ≤ v → v < F.numVariables → 0 ≤ s.numBreaksByFlip.get v ∧ s.numBreaksByFlip.get v ≤ F.maxNumBreaksPossible

/-- The locations of the clauses below `n`. -/
def LocationsInRange (F : CnfFormula) (n : Int) (s : SerialInstance) : Prop :=
  ∀ c, 0 ≤ c → c < n →
    -((F.getClause c).length : Int) ≤ s.unsatClausesLocation.get c ∧ s.unsatClausesLocation.get c ≤ F.numClauses

structure InRanges (F : CnfFormula) (n : Int) (s : SerialInstance) : Prop where
  counters : CountersInRange F s
  locations : LocationsInRange F n s

/-- The subscript is one of a variable, and the counters and the locations of the clauses below `n` are in range. -/
structure Point.Sound (F : CnfFormula) (n : Int) (p : Point) : Prop where
  subscript : ∀ i ∈ p.subscript, 0 ≤ i ∧ i < F.numVariables
  counters : CountersInRange F p.state
  locations : LocationsInRange F n p.state

theorem Caches.countersInRange {S : Int → Multiset Int} {s : SerialInstance} (h : Caches defaultBuild F S s)
    (hB : BoundsBreaks F) {a : Int → Bool} (hS : ∀ c, F.InRange c → S c ≤ trueLitsOf F a c) : CountersInRange F s := by
  intro v h0 hv
  obtain ⟨k0, k1⟩ := breakSum_le hS hB.longest h0 hv
  have := hB.fits
  rw [h.breaks rfl v h0 hv, cntT_eq k0 (by omega)]
  exact ⟨k0, k1⟩

/-- The list has no more entries than there are clauses. -/
theorem size_le_of_positions {z : Int → Prop} {items : Vec Int} {loc : Int → Int} (h : Positions z items loc) {n : Nat}
    (hz : ∀ c, z c → 0 ≤ c ∧ c < n) : items.size ≤ n := by
  have hsub : items.toList.toFinset ⊆ Finset.Ico (0 : Int) n := by
    intro c hc
    have := hz c ((h.mem_toList c).1 (List.mem_toFinset.1 hc))
    exact Finset.mem_Ico.2 this
  have hcard := Finset.card_le_card hsub
  rw [List.toFinset_card_of_nodup h.nodup, Vec.length_toList, Int.card_Ico] at hcard
  omega

theorem TracksBelow.locationsInRange {n : Int} {S : Int → Multiset Int} {s : SerialInstance} (h : TracksBelow F n S s)
    (hn : n ≤ F.numClauses) (hS : ∀ c, F.InRange c → S c ≤ ((F.getClause c : List Int) : Multiset Int)) :
    LocationsInRange F n s := by
  have hsize : s.unsatClauses.size ≤ F.clauses.length :=
    size_le_of_positions h.unsat fun c hc => ⟨hc.1.1, lt_of_lt_of_le hc.1.2 hn⟩
  intro c h0 hc
  by_cases hz : S c = 0
  · obtain ⟨k0, k1, -⟩ := h.unsat.member c ⟨⟨h0, hc⟩, hz⟩
    unfold CnfFormula.numClauses
    constructor <;> omega
  · have hcard := Multiset.card_le_card (hS c ⟨h0, lt_of_lt_of_le hc hn⟩)
    rw [Multiset.coe_card] at hcard
    rw [h.sat c h0 hc hz]
    unfold CnfFormula.numClauses
    constructor <;> omega

theorem Tracks.locationsInRange {S : Int → Multiset Int} {s : SerialInstance} (h : Tracks F S s)
    (hS : ∀ c, F.InRange c → S c ≤ ((F.getClause c : List Int) : Multiset Int)) : LocationsInRange F F.numClauses s :=
  TracksBelow.locationsInRange ⟨h.unsat, fun c h0 hc hne => h.sat c ⟨h0, hc⟩ hne⟩ le_rfl hS

theorem trueLitsOf_le (F : CnfFormula) (a : Int → Bool) (c : Int) :
    trueLitsOf F a c ≤ ((F.getClause c : List Int) : Multiset Int) :=
  Multiset.coe_le.2 List.filter_sublist.subperm

theorem CountersInRange.of_eq {s s' : SerialInstance} (h : CountersInRange F s)
    (he : s'.numBreaksByFlip = s.numBreaksByFlip) : CountersInRange F s' := by
  unfold CountersInRange
  rw [he]
  exact h

theorem LocationsInRange.of_eq {n : Int} {s s' : SerialInstance} (h : LocationsInRange F n s)
    (he : s'.unsatClausesLocation = s.unsatClausesLocation) : LocationsInRange F n s' := by
  unfold LocationsInRange
  rw [he]
  exact h

/-- The location of a clause with literals may be -1. -/
theorem LocationsInRange.mark (hw : F.WellFormed) {n c : Int} (hn : n ≤ F.numClauses) {s s' : SerialInstance}
    (h : LocationsInRange F n s) (he : s'.unsatClausesLocation = s.unsatClausesLocation.set c (-1)) :
    LocationsInRange F n s' := by
  intro d h0 hd
  rw [he, Vec.get_set]
  split
  · have := (hw.width _ (CnfFormula.getClause_mem ⟨h0, lt_of_lt_of_le hd hn⟩)).1
    unfold CnfFormula.numClauses
    constructor <;> omega
  · exact h d h0 hd

/-! ## The rounds of the loops -/

section Rounds

variable {S : Int → Multiset Int} {s : SerialInstance} {l c : Int} {rem : List Int}

theorem Tracks.inRanges (hT : Tracks F S s) (hC : Caches defaultBuild F S s) (hB : BoundsBreaks F) {a : Int → Bool}
    (hS : ∀ c, F.InRange c → S c ≤ trueLitsOf F a c) : InRanges F F.numClauses s :=
  ⟨hC.countersInRange hB hS, hT.locationsInRange fun c hc => (hS c hc).trans (trueLitsOf_le F a c)⟩

theorem isLiteral_of_mem (hw : F.WellFormed) {a : Int → Bool} (hS : S c ≤ trueLitsOf F a c) (hc : F.InRange c) {x : Int}
    (hx : x ∈ S c) : F.IsLiteral x :=
  hw.isLiteral hc (mem_trueLits.1 (Multiset.mem_of_le hS hx)).1

theorem breakPoints_sound (hw : F.WellFormed) (hclean : ∀ c ∈ F.clauses, Clean c) (hB : BoundsBreaks F)
    (hT : Tracks F S s) (hC : Caches defaultBuild F S s) (hl : F.IsLiteral l) (hf : litTrue s.assignment l = false)
    (hI : BreakInv F s.assignment l (c :: rem) S) (hc : F.InRange c) (hm : -l ∈ S c) :
    ∀ p ∈ breakPoints F l s c, p.Sound F F.numClauses := by
  have hneg : litTrue s.assignment (-l) = true := by
    rw [litTrue_neg _ hl.1, hf]
    rfl
  have hS : ∀ d, F.InRange d → S d ≤ trueLitsOf F s.assignment d := fun d hd => hI.le_trueLits hneg hd
  have hS' : ∀ d, F.InRange d → Function.update S c ((S c).erase (-l)) d ≤ trueLitsOf F s.assignment d := by
    intro d hd
    rcases eq_or_ne d c with rfl | hdc
    · rw [Function.update_self]
      exact (Multiset.erase_le _ _).trans (hS d hd)
    · rw [Function.update_of_ne hdc]
      exact hS d hd
  have hbefore := hT.inRanges hC hB hS
  have hafter := (hT.breakClause defaultBuild hc hm).inRanges (hC.breakClause hw (fun _ => hclean) hT hI hc hm) hB hS'
  intro p hp
  obtain ⟨hbreaks, hloc, hsub⟩ := breakPoints_frame hp
  refine ⟨fun i hi => ?_, ?_, ?_⟩
  · rcases hsub i hi with rfl | ⟨h2, rfl⟩
    · exact ⟨varIndex_nonneg hl.1, hl.2⟩
    · -- one other literal is left
      have hne : S c ≠ 0 := fun e => Multiset.notMem_zero (-l) (e ▸ hm)
      have hcard := Multiset.card_erase_add_one hm
      have := hT.sat c hc hne
      obtain ⟨x, hx⟩ := Multiset.card_eq_one.1 (show ((S c).erase (-l)).card = 1 by omega)
      have hcons : S c = -l ::ₘ {x} := by rw [← hx, Multiset.cons_erase hm]
      rcases hI.critical (B := defaultBuild) hw (fun _ => hclean) hc hcons with ⟨hx0, hfind⟩ | ⟨-, -, hB'⟩
      · have hlit := isLiteral_of_mem hw (hS c hc) hc (x := x) (by rw [hcons]; simp)
        rw [hfind]
        exact ⟨varIndex_nonneg hlit.1, hlit.2⟩
      · cases hB'
  · rcases hbreaks with h | h
    · exact hbefore.counters.of_eq h
    · exact hafter.counters.of_eq h
  · rcases hloc with h | h
    · exact hbefore.locations.of_eq h
    · exact hafter.locations.of_eq h

theorem makePoints_sound (hw : F.WellFormed) (hclean : ∀ c ∈ F.clauses, Clean c) (hB : BoundsBreaks F)
    (hT : Tracks F S s) (hC : Caches defaultBuild F S s) (hl : F.IsLiteral l) (hf : litTrue s.assignment l = false)
    (hI : MakeInv F s.assignment l (c :: rem) S) (hc : F.InRange c) :
    ∀ p ∈ makePoints l s c, p.Sound F F.numClauses := by
  have hS : ∀ d, F.InRange d → S d ≤ trueLitsOf F (flipVar s.assignment (varIndex l)) d :=
    fun d hd => hI.le_trueLits hl.1 hf hd
  have hS' : ∀ d, F.InRange d →
      Function.update S c (l ::ₘ S c) d ≤ trueLitsOf F (flipVar s.assignment (varIndex l)) d := by
    intro d hd
    rcases eq_or_ne d c with rfl | hdc
    · rw [Function.update_self]
      exact hI.cons_le_trueLits hl.1 hf hd
    · rw [Function.update_of_ne hdc]
      exact hS d hd
  have hbefore := hT.inRanges hC hB hS
  have hafter := (hT.makeClause defaultBuild hc).inRanges (hC.makeClause hw (fun _ => hclean) hT hI hc) hB hS'
  intro p hp
  obtain ⟨hbreaks, hloc, hsub⟩ := makePoints_frame (F := F) hp
  refine ⟨fun i hi => ?_, ?_, ?_⟩
  · rcases hsub i hi with rfl | ⟨h1, rfl⟩
    · exact ⟨varIndex_nonneg hl.1, hl.2⟩
    · -- the cached literal is the sole counted one
      have hne : S c ≠ 0 := fun e => by
        have := (hT.location_nonneg hc).2 e
        omega
      have := hT.sat c hc hne
      obtain ⟨x, hx⟩ := Multiset.card_eq_one.1 (show (S c).card = 1 by omega)
      have hlit := isLiteral_of_mem hw (hS c hc) hc (x := x) (by rw [hx]; simp)
      rw [hC.crit rfl rfl c hc x hx]
      exact ⟨varIndex_nonneg hlit.1, hlit.2⟩
  · rcases hbreaks with h | h
    · exact hbefore.counters.of_eq h
    · exact hafter.counters.of_eq h
  · rcases hloc with h | h
    · exact hbefore.locations.mark hw le_rfl h
    · exact hafter.locations.of_eq h

theorem trueLitsBelow_le (F : CnfFormula) (n : Int) (a : Int → Bool) (c : Int) :
    trueLitsBelow F n a c ≤ trueLitsOf F a c := by
  unfold trueLitsBelow
  split
  · exact le_rfl
  · exact Multiset.zero_le _

theorem initPoints_sound (hw : F.WellFormed) (hB : BoundsBreaks F) {i : Nat} (hi : i < F.clauses.length)
    (hT : TracksBelow F i (trueLitsOf F s.assignment) s)
    (hC : Caches defaultBuild F (trueLitsBelow F i s.assignment) s) :
    ∀ p ∈ initPoints F s i, p.Sound F i := by
  have hc : F.InRange i := ⟨by omega, by unfold CnfFormula.numClauses; omega⟩
  have hn : (i : Int) ≤ F.numClauses := hc.2.le
  have hT' := hT.initClause hw defaultBuild hi
  have hle : ∀ n d, F.InRange d → trueLitsBelow F n s.assignment d ≤ trueLitsOf F s.assignment d :=
    fun n d _ => trueLitsBelow_le F n _ d
  have hbefore := hT.locationsInRange hn fun d _ => trueLitsOf_le F _ d
  have hafter := hT'.locationsInRange (by have := hc.2; push_cast; omega) fun d _ => trueLitsOf_le F _ d
  intro p hp
  obtain ⟨hbreaks, hloc, hsub⟩ := initPoints_frame hp
  refine ⟨fun j hj => ?_, ?_, ?_⟩
  · obtain ⟨h1, rfl⟩ := hsub j hj
    rw [numSatLitInClause_eq hw s hc] at h1
    obtain ⟨x, hx⟩ := Multiset.card_eq_one.1 h1
    have hlit := isLiteral_of_mem hw (S := trueLitsOf F s.assignment) le_rfl hc (x := x) (by rw [hx]; simp)
    have h0 : ∀ y ∈ trueLitsOf F s.assignment i, y ≠ 0 := fun y hy => (hw.isLiteral hc (mem_trueLits.1 hy).1).1
    rw [(getCriticalLiteral_eq hw s hc 0).1 x (by rw [Multiset.filter_eq_self.2 h0, hx])]
    exact ⟨varIndex_nonneg hlit.1, hlit.2⟩
  · rcases hbreaks with h | h
    · exact (hC.countersInRange hB (hle _)).of_eq h
    · exact ((hC.initClause hw hi).countersInRange hB (hle _)).of_eq h
  · rcases hloc with h | h
    · exact hbefore.of_eq h
    · exact fun d h0 hd => hafter.of_eq h d h0 (by push_cast; omega)

end Rounds

/-! ## Whole runs -/

/-- The constructor before round `i` of its loop. -/
def initialized (F : CnfFormula) (mem : Memory) (config : Bitfield) (i : Nat) : SerialInstance :=
  (List.range i).foldl (fun s (j : Nat) => initClause defaultBuild F s j) (constructed defaultBuild F mem config)

theorem initialized_points_sound (hw : F.WellFormed) (hB : BoundsBreaks F) (mem : Memory) (config : Bitfield) (i : Nat)
    (hi : i < F.clauses.length) : ∀ p ∈ initPoints F (initialized F mem config i) i, p.Sound F i := by
  have h := foldl_range (n := i) (f := fun s (j : Nat) => initClause defaultBuild F s j)
    (P := fun j s => TracksBelow F j (trueLitsOf F s.assignment) s ∧
      Caches defaultBuild F (trueLitsBelow F j s.assignment) s)
    (s := constructed defaultBuild F mem config)
    ⟨.constructed defaultBuild F mem config _, .constructed defaultBuild F mem config _⟩
    (fun j s hj hP => by
      have hb : (initClause defaultBuild F s j).assignment = s.assignment := by
        unfold assignment
        rw [(initClause_frame defaultBuild F s j).1]
      rw [hb]
      exact ⟨hP.1.initClause hw defaultBuild (by omega), hP.2.initClause hw (by omega)⟩)
  exact initPoints_sound hw hB hi h.1 h.2

/-- The points of a flip of a false literal. -/
theorem flipPoints_sound (hw : F.WellFormed) (hclean : ∀ c ∈ F.clauses, Clean c) (hB : BoundsBreaks F)
    {s : SerialInstance}
    (h : CacheInv defaultBuild F s) {l : Int} (hl : F.IsLiteral l) (hf : litTrue s.assignment l = false)
    (hx : F.ExactAt (varIndex l)) : ∀ p ∈ flipPoints F s l, p.Sound F F.numClauses := by
  have hstart := h.list.tracks.inRanges h.caches hB fun _ _ => le_rfl
  have hend := (h.flipLiteral hw (fun _ => hclean) hl hf hx).list.tracks.inRanges
    (h.flipLiteral hw (fun _ => hclean) hl hf hx).caches hB fun _ _ => le_rfl
  have hnone : ∀ i ∈ (none : Option Int), 0 ≤ i ∧ i < F.numVariables := fun i hi => absurd hi (by simp)
  -- the assignment does not change within the loops
  obtain ⟨S, -, hpoints, -⟩ := flip_loops
    (f := visit (breakPoints F l) (breakClause defaultBuild F l))
    (g := visit (makePoints l) (makeClause defaultBuild F l))
    (P := fun S acc => (∀ p ∈ acc.1, p.Sound F F.numClauses) ∧ Tracks F S acc.2 ∧ Caches defaultBuild F S acc.2 ∧
      acc.2.belegung = s.belegung) (s := ([⟨none, s⟩], s)) hl.1 hf hx
    (fun rem S acc c hP hc hI hm => by
      obtain ⟨hps, hT, hC, hb⟩ := hP
      have ha : acc.2.assignment = s.assignment := congrArg Bitfield.read hb
      rw [← ha] at hI hf
      refine ⟨fun p hp => ?_, hT.breakClause defaultBuild hc hm, hC.breakClause hw (fun _ => hclean) hT hI hc hm,
        (breakClause_frame defaultBuild F l acc.2 c).1.trans hb⟩
      rcases List.mem_append.1 hp with hp | hp
      · exact hps p hp
      · exact breakPoints_sound hw hclean hB hT hC hl hf hI hc hm p hp)
    (fun rem S acc c hP hc hI => by
      obtain ⟨hps, hT, hC, hb⟩ := hP
      have ha : acc.2.assignment = s.assignment := congrArg Bitfield.read hb
      rw [← ha] at hI hf
      refine ⟨fun p hp => ?_, hT.makeClause defaultBuild hc, hC.makeClause hw (fun _ => hclean) hT hI hc,
        (makeClause_frame defaultBuild F l acc.2 c).1.trans hb⟩
      rcases List.mem_append.1 hp with hp | hp
      · exact hps p hp
      · exact makePoints_sound hw hclean hB hT hC hl hf hI hc p hp)
    ⟨fun p hp => by
      obtain rfl := List.mem_singleton.1 hp
      exact ⟨hnone, hstart.counters, hstart.locations⟩, h.list.tracks, h.caches, rfl⟩
  intro p hp
  rcases List.mem_append.1 hp with hp | hp
  · exact hpoints p hp
  · simp only [List.mem_cons, List.not_mem_nil, or_false] at hp
    rcases hp with rfl | rfl <;> exact ⟨hnone, hend.counters, hend.locations⟩

theorem ExactCounts.boundsBreaks {n : Int} {clauses : List Clause} {counts : Counts} (h : ExactCounts n clauses counts)
    {F : CnfFormula} (hF : CnfFormula.initializeFormula true n clauses counts = .ok F) : BoundsBreaks F := by
  obtain ⟨hv, hcl⟩ := initializeFormula_frame hF
  unfold CnfFormula.initializeFormula at hF
  rw [if_pos rfl] at hF
  obtain ⟨⟨x, m⟩, hx, hF⟩ := bind_ok hF
  cases hF
  obtain ⟨-, -, -, hlong⟩ := constructor_ok h.cover hx
  refine ⟨hlong.nonneg, ?_, ?_⟩
  · rintro l ⟨h0, hl⟩
    by_cases hnil : clausesOf clauses l = []
    · have := h.length_clausesOf l
      rw [hnil, List.length_nil] at this
      simp only [← this]
      exact hlong.nonneg
    · rw [← h.exact l h0 hl]
      exact hlong.bound l hnil
  · rcases hlong.attained with rfl | ⟨l, h0, hl, rfl⟩
    · show (0 : Int) ≤ cntMax
      decide
    · exact h.fits l h0 hl

/-- At every point of a run, also within the loops, the counters, the subscripts and the locations are in range; in
the constructor those of the locations that are written. -/
theorem counters_in_range {n : Int} {clauses : List Clause} {counts : Counts} (h : ExactCounts n clauses counts)
    (F : CnfFormula)
    (hF : CnfFormula.initializeFormula true n clauses counts = .ok F) (mem : Memory) (config : Bitfield)
    (hc : HasAssignment F config) :
    F.maxNumBreaksPossible ≤ 32767 ∧
    (∀ i, i < F.clauses.length → ∀ p ∈ initPoints F (initialized F mem config i) i, p.Sound F i) ∧
    ∀ s, Reached defaultBuild F mem config s → InRanges F F.numClauses s ∧
      (s.foundSolution = false → ∀ l ∈ s.pickedClause F, ∀ p ∈ flipPoints F s l, p.Sound F F.numClauses) := by
  have hw := h.wellFormed hF
  have hB := h.boundsBreaks hF
  have hclean : ∀ c ∈ F.clauses, Clean c := by
    rw [(initializeFormula_frame hF).2]
    exact h.clean
  have hexact : ∀ v, 0 ≤ v → v < F.numVariables → F.ExactAt v := fun v h0 hv => h.exactAt hF h0 hv
  refine ⟨hB.fits, initialized_points_sound hw hB mem config, fun s hs => ?_⟩
  have hinv := cacheInv_reached hw (fun _ => hclean) hexact hc hs
  refine ⟨hinv.list.tracks.inRanges hinv.caches hB fun _ _ => le_rfl, fun hrun l hmem => ?_⟩
  obtain ⟨hr, hfalse⟩ := hinv.list.picked hrun
  have hlit := hw.isLiteral hr hmem
  exact flipPoints_sound hw hclean hB hinv hlit (hfalse l hmem) (hexact _ (varIndex_nonneg hlit.1) hlit.2)

theorem counters_in_range_threeClauses :
    (threeFormula true).maxNumBreaksPossible ≤ 32767 ∧
    (∀ i, i < (threeFormula true).clauses.length →
      ∀ p ∈ initPoints (threeFormula true) (initialized (threeFormula true) ⟨0, 0, 0, 0⟩ ⟨2, 2, false, 0⟩ i) i,
        p.Sound (threeFormula true) i) ∧
    ∀ s, Reached defaultBuild (threeFormula true) ⟨0, 0, 0, 0⟩ ⟨2, 2, false, 0⟩ s →
      InRanges (threeFormula true) (threeFormula true).numClauses s ∧
      (s.foundSolution = false → ∀ l ∈ s.pickedClause (threeFormula true), ∀ p ∈ flipPoints (threeFormula true) s l,
        p.Sound (threeFormula true) (threeFormula true).numClauses) :=
  counters_in_range threeClauses_exactCounts (threeFormula true) rfl ⟨0, 0, 0, 0⟩ ⟨2, 2, false, 0⟩
    ⟨rfl, by decide, by decide⟩

end SerialInstance

end ParallelProbsat.Sat
