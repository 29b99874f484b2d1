/-
`read` on an input stream with its flags, and `cnf_formula::initialize()` on a file that may not be there.

The loop of `read` asks for `eof()` only. `getline` on a stream whose open failed, or whose buffer failed in
the middle, never sets that flag: it reads nothing and leaves `line` as it is. So the loop goes on for ever
with the same line, unless that line is thrown at; and a clause line is, at the latest when the number of its
occurrences does not fit a `cnt_t` any more.
-/
import ParallelProbsat.Lib.While
import ParallelProbsat.Sat.ReadCounts

namespace ParallelProbsat.Sat

open ParallelProbsat.Lib ParallelProbsat.Util

/-! ## Streams -/

/-- An `ifstream`: what the file holds, how far it is read, the position from which on the buffer throws
instead of giving a character, and the flags. -/
structure IFStream where
  content : Text
  position : Nat
  failsAt : Option Nat
  eofbit : Bool
  failbit : Bool
  badbit : Bool

namespace IFStream

def good (is : IFStream) : Bool := !is.eofbit && !is.failbit && !is.badbit

/-- The characters the buffer still gives. -/
def readable (is : IFStream) : Text :=
  (is.failsAt.elim is.content is.content.take).drop is.position

/-- Behind these the buffer throws, where another one reports the end of the file. -/
def broken (is : IFStream) : Bool := is.failsAt.any (· ≤ is.content.length)

/-- `std::getline(is, line)`. On a stream that is not good nothing is read and `line` keeps its value; when
the buffer throws, the characters before are kept and `badbit` is set. -/
def getline (is : IFStream) (line : Text) : IFStream × Text :=
  if !is.good then ({ is with failbit := true }, line)
  else
    let s := is.readable
    let l := s.takeWhile (· != '\n')
    if l.length < s.length then ({ is with position := is.position + l.length + 1 }, l)
    else if is.broken then ({ is with position := is.position + l.length, failbit := l.isEmpty, badbit := true }, l)
    else ({ is with position := is.position + l.length, eofbit := true, failbit := l.isEmpty }, l)

/-- The lines up to the end of the file or the failure of the buffer, the last of them cut off there. -/
def lines (is : IFStream) : List Text := getlines '\n' is.readable

def lastLine (is : IFStream) : Text := is.lines.getLastD []

end IFStream

/-! ## The loop of `read` -/

/-- The variables of `read` that live from one round to the next. -/
structure ReadLoop where
  is : IFStream
  line : Text
  linectr : Nat
  st : ReadState

namespace ReadLoop

def start (is : IFStream) : ReadLoop := ⟨is, [], 0, ⟨0, 0, [], ⟨0, fun _ => (0, 0)⟩, []⟩⟩

/-- `!is.eof()` -/
def goesOn (s : ReadLoop) : Bool := !s.is.eofbit

def round (s : ReadLoop) : Except Exn ReadLoop :=
  let linectr := s.linectr + 1
  let (is, line) := s.is.getline s.line
  match readLine s.st line with
  | .error fault => .error (readingError linectr fault)
  | .ok st => .ok ⟨is, line, linectr, st⟩

end ReadLoop

/-- `read` on a stream, in at most `fuel` rounds of its loop. -/
def readStream (fuel : Nat) (is : IFStream) : Option (Except Exn Input) :=
  (whileLoop ReadLoop.goesOn ReadLoop.round fuel (.start is)).map fun r =>
    r.map fun s => ⟨s.st.numVars, s.st.clauses, s.st.counts⟩

/-- A file on the disk, and the position from which on it cannot be read; a directory can be opened, and
cannot be read from its start. -/
structure File where
  content : Text
  failsAt : Option Nat

/-- `filehandle.open(file)` -/
def IFStream.open : Option File → IFStream
  | none => ⟨[], 0, none, false, true, false⟩
  | some f => ⟨f.content, 0, f.failsAt, false, false, false⟩

/-- `cnf_formula::initialize()` with the files of the disk by their names, on an object that has stored no clause yet,
as the constructor leaves it; with a stored clause it returns at once (`FormulaObject`). -/
def CnfFormula.initializeFrom (useContDatastruct : Bool) (disk : String → Option File) (file : String) (fuel : Nat) :
    Option (Except Exn CnfFormula) :=
  (readStream fuel (.open (disk file))).map fun r => do
    let r ← r
    CnfFormula.initializeFormula useContDatastruct r.numVars r.clauses r.counts

/-! ## Lines of a stream -/

theorem getlines_end {s : Text} (h : ¬ (s.takeWhile (· != '\n')).length < s.length) : getlines '\n' s = [s] := by
  induction s with
  | nil => rfl
  | cons c s ih =>
    by_cases hc : c = '\n'
    · simp [hc] at h
    · have ht : ¬ (s.takeWhile (· != '\n')).length < s.length := by simpa [hc] using h
      rw [getlines, if_neg hc, ih ht]

theorem getlines_line {s : Text} (h : (s.takeWhile (· != '\n')).length < s.length) :
    getlines '\n' s = s.takeWhile (· != '\n') :: getlines '\n' (s.drop ((s.takeWhile (· != '\n')).length + 1)) := by
  induction s with
  | nil => simp at h
  | cons c s ih =>
    by_cases hc : c = '\n'
    · simp [hc, getlines]
    · have ht : (s.takeWhile (· != '\n')).length < s.length := by simpa [hc] using h
      rw [getlines, if_neg hc, ih ht]
      simp [hc]

theorem takeWhile_end {s : Text} (h : ¬ (s.takeWhile (· != '\n')).length < s.length) : s.takeWhile (· != '\n') = s :=
  (List.takeWhile_prefix _).eq_of_length_le (not_lt.1 h)

namespace IFStream

/-- What `getline` does on a good stream. -/
inductive GotLine (is : IFStream) (line : Text) : Prop
  | line (is' : IFStream) (l : Text) (hget : is.getline line = (is', l)) (hlines : is.lines = l :: is'.lines)
      (hbroken : is'.broken = is.broken) (hgood : is'.good = true) (hlen : is'.readable.length < is.readable.length)
  | failed (is' : IFStream) (hget : is.getline line = (is', is.readable)) (hlines : is.lines = [is.readable])
      (hbroken : is.broken = true) (heof : is'.eofbit = false) (hgood : is'.good = false)
  | last (is' : IFStream) (hget : is.getline line = (is', is.readable)) (hlines : is.lines = [is.readable])
      (hbroken : is.broken = false) (heof : is'.eofbit = true)

theorem eofbit_of_good {is : IFStream} (hg : is.good = true) : is.eofbit = false := by
  unfold good at hg
  simp only [Bool.and_eq_true, Bool.not_eq_true'] at hg
  exact hg.1.1

theorem gotLine {is : IFStream} (hg : is.good = true) (line : Text) : is.GotLine line := by
  by_cases h : (is.readable.takeWhile (· != '\n')).length < is.readable.length
  · -- the delimiter is there
    let is' : IFStream := { is with position := is.position + (is.readable.takeWhile (· != '\n')).length + 1 }
    have hrest : is'.readable = is.readable.drop ((is.readable.takeWhile (· != '\n')).length + 1) := by
      simp [is', readable, List.drop_drop, Nat.add_assoc]
    refine .line is' (is.readable.takeWhile (· != '\n')) (by simp [getline, hg, h, is']) ?_ rfl hg ?_
    · unfold lines
      rw [hrest, getlines_line h]
    · rw [hrest, List.length_drop]
      omega
  · have heof : is.eofbit = false := eofbit_of_good hg
    cases hb : is.broken with
    | true =>
      refine .failed
        { is with position := is.position + is.readable.length, failbit := is.readable.isEmpty, badbit := true }
        ?_ (getlines_end h) hb heof (by simp [good])
      simp [getline, hg, hb, takeWhile_end h]
    | false =>
      refine .last
        { is with position := is.position + is.readable.length, eofbit := true, failbit := is.readable.isEmpty }
        ?_ (getlines_end h) hb rfl
      simp [getline, hg, hb, takeWhile_end h]

theorem lines_ne_nil (is : IFStream) : is.lines ≠ [] := getlines_ne_nil _ _

theorem lastLine_cons {is is' : IFStream} {l : Text} (h : is.lines = l :: is'.lines) : is.lastLine = is'.lastLine := by
  unfold lastLine
  rw [h]
  cases hl : is'.lines with
  | nil => exact absurd hl is'.lines_ne_nil
  | cons line rest => rfl

theorem lastLine_single {is : IFStream} {l : Text} (h : is.lines = [l]) : is.lastLine = l := by
  unfold lastLine
  rw [h]
  rfl

/-- Where no line can be read any more. -/
theorem getline_stalled {is : IFStream} (hg : is.good = false) (line : Text) :
    is.getline line = ({ is with failbit := true }, line) := by
  simp [getline, hg]

end IFStream

/-! ## Rounds of the loop -/

/-- A line is thrown at by `parse_configuration` or `parse_clause`, the lines before it are not. -/
def rejects (st : ReadState) : List Text → Bool
  | [] => false
  | line :: rest =>
    match readLine st line with
    | .error _ => true
    | .ok st => rejects st rest

/-- A line that is accepted and is no clause is accepted again, whatever was read before. -/
theorem readLine_again {line : Text} {st st' : ReadState} (hline : isClauseLine line = false)
    (h : readLine st line = .ok st') (st₁ : ReadState) : ∃ st₁', readLine st₁ line = .ok st₁' := by
  unfold readLine at h ⊢
  split at h
  · exact ⟨_, rfl⟩
  · exact ⟨_, rfl⟩
  · rename_i s
    obtain ⟨st₂, hconf, -⟩ := bind_ok h
    unfold parseConfiguration at hconf ⊢
    simp only
    split at hconf
    · cases hconf
    · rename_i hstart
      obtain ⟨⟨n, m, f⟩, hfields, -⟩ := bind_ok hconf
      rw [if_neg hstart, configurationFields_field s st₁.field st.field, hfields]
      exact ⟨_, rfl⟩
  · rename_i hnil hcom hconf
    unfold isClauseLine at hline
    split at hline
    · exact absurd rfl hnil
    · exact absurd rfl (hcom _)
    · exact absurd rfl (hconf _)
    · cases hline

/-- The loop of `read` ends from here. -/
abbrev ReadLoop.Ends (s : ReadLoop) : Prop := Lib.Ends ReadLoop.goesOn ReadLoop.round s

namespace ReadLoop

variable {s s' : ReadLoop}

theorem round_ok {is : IFStream} {line : Text} {st : ReadState} (hl : s.is.getline s.line = (is, line))
    (hr : readLine s.st line = .ok st) : s.round = .ok ⟨is, line, s.linectr + 1, st⟩ := by
  unfold round
  simp only [hl, hr]

theorem round_error {is : IFStream} {line : Text} {fault : Fault} (hl : s.is.getline s.line = (is, line))
    (hr : readLine s.st line = .error fault) : s.round = .error (readingError (s.linectr + 1) fault) := by
  unfold round
  simp only [hl, hr]


theorem goesOn_of_good (h : s.is.good = true) : s.goesOn = true := by
  unfold goesOn
  rw [IFStream.eofbit_of_good h]
  rfl

theorem not_goesOn (h : s.is.eofbit = true) : s.goesOn = false := by
  unfold goesOn
  rw [h]
  rfl

/-- A line that is not a clause is looked at for ever, once no other line can be read. -/
theorem not_ends_of_stalled (heof : s.is.eofbit = false) (hg : s.is.good = false) (hline : isClauseLine s.line = false)
    {st st' : ReadState} (hacc : readLine st s.line = .ok st') : ¬ s.Ends := by
  refine Lib.Ends.not_of_invariant (P := fun t => t.is.eofbit = false ∧ t.is.good = false ∧ t.line = s.line)
    (fun t ht => ?_) ⟨heof, hg, rfl⟩
  obtain ⟨hteof, htg, htl⟩ := ht
  obtain ⟨st₁, hst₁⟩ := readLine_again hline hacc t.st
  rw [← htl] at hst₁
  refine ⟨by unfold goesOn; rw [hteof]; rfl, _, round_ok (IFStream.getline_stalled htg t.line) hst₁, hteof, ?_, htl⟩
  simp [IFStream.good]

/-- A clause line is counted again in every round, until its literals do not fit a `cnt_t`. -/
theorem ends_of_stalled (hg : s.is.good = false) (hI : ReadInv s.st) (hline : isClauseLine s.line = true) : s.Ends := by
  obtain ⟨x, hx⟩ := exists_fieldLiteral s.line
  refine Lib.Ends.of_measure (P := fun t => t.is.good = false ∧ t.line = s.line ∧ ReadInv t.st)
    (fun t => (cntMax - counted t.st.counts x).toNat) (fun t t' ht hon hround => ?_) ⟨hg, rfl, hI⟩
  obtain ⟨htg, htl, htI⟩ := ht
  have hget := IFStream.getline_stalled htg t.line
  cases hr : readLine t.st t.line with
  | error fault => rw [round_error hget hr] at hround; cases hround
  | ok st =>
    rw [round_ok hget hr] at hround
    cases hround
    obtain ⟨hI', hL⟩ := readLine_ok htI hr
    rw [htl] at hL
    obtain ⟨hvars, hlits, hcounts, -⟩ := hL.of_clauseLine hline
    obtain ⟨hx0, hxv⟩ := hlits x hx
    -- one more occurrence, and still within the range
    have hcount : counted st.counts x = counted t.st.counts x + ((fieldLiterals s.line).count x : Int) := hcounts x hx0
    have hpos : 0 < (fieldLiterals s.line).count x := List.count_pos_iff.2 hx
    have hmax := (hI'.range x hx0 (by rw [hI'.size, hvars]; exact hxv)).2
    refine ⟨⟨by simp [IFStream.good], htl, hI'⟩, ?_⟩
    simp only
    omega

/-- The loop on a good stream, line by line. -/
theorem ends_of_good : ∀ (n : Nat) (s : ReadLoop), s.is.readable.length < n → s.is.good = true → ReadInv s.st →
    (s.Ends ↔ s.is.broken = false ∨ rejects s.st s.is.lines = true ∨ isClauseLine s.is.lastLine = true) := by
  intro n
  induction n with
  | zero => intro s hn; omega
  | succ n ih =>
    intro s hn hg hI
    have hon := goesOn_of_good hg
    cases IFStream.gotLine hg s.line with
    | line is l hget hlines hb hg' hlen =>
      rw [hlines, IFStream.lastLine_cons hlines, ← hb, rejects]
      cases hr : readLine s.st l with
      | error fault => simpa using Lib.Ends.throw hon (round_error hget hr)
      | ok st =>
        rw [Ends, Lib.Ends.round hon (round_ok hget hr)]
        exact ih ⟨is, l, _, st⟩ (by simp only; omega) hg' (readLine_ok hI hr).1
    | failed is hget hlines hb heof hbad =>
      rw [hlines, hb, IFStream.lastLine_single hlines, rejects]
      cases hr : readLine s.st s.is.readable with
      | error fault => simpa using Lib.Ends.throw hon (round_error hget hr)
      | ok st =>
        rw [Ends, Lib.Ends.round hon (round_ok hget hr)]
        -- the line before the failure is read over and over
        cases hline : isClauseLine s.is.readable with
        | true => simpa using ends_of_stalled hbad (readLine_ok hI hr).1 hline
        | false => simpa [rejects] using not_ends_of_stalled heof hbad hline hr
    | last is hget hlines hb heof =>
      refine iff_of_true ?_ (.inl hb)
      cases hr : readLine s.st s.is.readable with
      | error fault => exact Lib.Ends.throw hon (round_error hget hr)
      | ok st => exact (Lib.Ends.round hon (round_ok hget hr)).2 (Lib.Ends.exit (not_goesOn heof))

end ReadLoop

/-! ## When `read` ends -/

/-- The streams on which the loop of `read` ends: one that is at its end already, or a good one that gives all
its lines, or on the way to the failure a line that is thrown at, or a clause line as the last one. -/
def IFStream.EndsReading (is : IFStream) : Prop :=
  is.eofbit = true ∨ is.good = true ∧
    (is.broken = false ∨ rejects (ReadLoop.start is).st is.lines = true ∨ isClauseLine is.lastLine = true)

theorem ReadLoop.start_ends_iff (is : IFStream) : (ReadLoop.start is).Ends ↔ is.EndsReading := by
  unfold IFStream.EndsReading
  cases heof : is.eofbit with
  | true => exact iff_of_true (Lib.Ends.exit (not_goesOn heof)) (.inl rfl)
  | false =>
    cases hg : is.good with
    | true =>
      have h := ends_of_good _ (start is) (Nat.lt_succ_self _) hg ReadInv.start
      rw [h]
      simp only [Bool.false_eq_true, false_or, true_and]
      rfl
    | false =>
      -- nothing is ever read, and `line` stays empty
      have hacc : readLine (start is).st (start is).line = .ok (start is).st := rfl
      simpa using not_ends_of_stalled (s := start is) heof hg rfl hacc

theorem readStream_ends_iff (is : IFStream) : (∃ fuel r, readStream fuel is = some r) ↔ is.EndsReading := by
  rw [← ReadLoop.start_ends_iff]
  unfold readStream
  constructor
  · rintro ⟨fuel, r, h⟩
    obtain ⟨r', h', -⟩ := Option.map_eq_some_iff.1 h
    exact ⟨fuel, r', h'⟩
  · rintro ⟨fuel, r, h⟩
    exact ⟨fuel, _, Option.map_eq_some_iff.2 ⟨r, h, rfl⟩⟩

theorem IFStream.not_endsReading_missing : ¬ (IFStream.open none).EndsReading := by
  rintro (h | ⟨h, -⟩) <;> cases h

/-- `read` ends exactly on these streams, and `initialize` for the names of the files whose stream is one. -/
theorem read_terminates_iff (is : IFStream) (useContDatastruct : Bool) (disk : String → Option File) (file : String) :
    ((∃ fuel r, readStream fuel is = some r) ↔ is.EndsReading) ∧
    ((∃ fuel r, CnfFormula.initializeFrom useContDatastruct disk file fuel = some r) ↔
      ∃ f, disk file = some f ∧ (IFStream.open (some f)).EndsReading) := by
  refine ⟨readStream_ends_iff is, ?_⟩
  have hends : (∃ fuel r, CnfFormula.initializeFrom useContDatastruct disk file fuel = some r) ↔
      (IFStream.open (disk file)).EndsReading := by
    rw [← readStream_ends_iff]
    unfold CnfFormula.initializeFrom
    simp only [Option.map_eq_some_iff]
    exact ⟨fun ⟨fuel, _, r, h, _⟩ => ⟨fuel, r, h⟩, fun ⟨fuel, r, h⟩ => ⟨fuel, _, r, h, rfl⟩⟩
  rw [hends]
  cases disk file with
  | none => exact iff_of_false IFStream.not_endsReading_missing fun ⟨f, h, _⟩ => nomatch h
  | some f => exact ⟨fun h => ⟨f, rfl, h⟩, fun ⟨f', h, h'⟩ => Option.some.inj h ▸ h'⟩

/-- For a file that is not there, `read` goes on for ever, and so does `initialize`. -/
theorem read_not_terminates :
    (¬ ∀ is : IFStream, ∃ fuel r, readStream fuel is = some r) ∧
    ¬ ∀ (disk : String → Option File) (file : String), ∃ fuel r, CnfFormula.initializeFrom true disk file fuel =
      some r := by
  refine ⟨fun h => IFStream.not_endsReading_missing ((readStream_ends_iff _).1 (h (.open none))), fun h => ?_⟩
  obtain ⟨fuel, r, h⟩ := h (fun _ => none) "missing.cnf"
  obtain ⟨r', hr, -⟩ := Option.map_eq_some_iff.1 h
  exact IFStream.not_endsReading_missing ((readStream_ends_iff _).1 ⟨fuel, r', hr⟩)

end ParallelProbsat.Sat
