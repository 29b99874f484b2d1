/-
What `read` uses of the standard library's strings and streams, over texts as lists of characters:
`getline` until the end of the stream, `stoll`, extraction of words and of integers with `>>`, and
`starts_with` and `ends_with` of `util/util.hpp` as they are built for C++17 (`CMakeLists.txt`), on
top of `find`.
-/
import ParallelProbsat.Util.Exn

namespace ParallelProbsat.Util

abbrev Text := List Char

/-- `isspace` in the default locale. -/
def isSpace (c : Char) : Bool :=
  c == ' ' || c == '\t' || c == '\n' || c == '\x0b' || c == '\x0c' || c == '\r'

/-! ## Strings -/

/-- What `getline` with this delimiter returns, call by call, until `eof()`. -/
def getlines (delim : Char) : Text → List Text
  | [] => [[]]
  | c :: s =>
    if c = delim then [] :: getlines delim s
    else match getlines delim s with
      | [] => [[c]]
      | line :: rest => (c :: line) :: rest

/-- `a.find(b)`, `none` for `npos`. -/
def find (b : Text) : Text → Option Nat
  | [] => if b = [] then some 0 else none
  | c :: a => if b.isPrefixOf (c :: a) then some 0 else (find b a).map (· + 1)

theorem drop_of_find {b : Text} : ∀ {a : Text} {k : Nat}, find b a = some k → b <+: a.drop k
  | [], k, h => by
    unfold find at h
    split at h
    · rename_i hb
      rw [hb]
      exact List.nil_prefix
    · cases h
  | c :: a, k, h => by
    unfold find at h
    split at h
    · rename_i hb
      obtain rfl := Option.some.inj h
      exact List.isPrefixOf_iff_prefix.1 hb
    · obtain ⟨j, hj, rfl⟩ := Option.map_eq_some_iff.1 h
      rw [List.drop_succ_cons]
      exact drop_of_find hj

def startsWith (a b : Text) : Bool := find b a == some 0

/-- Compares the first position of `b` with a difference of two `size_t`. -/
def endsWith (a b : Text) : Bool :=
  (find b a).elim (2 ^ 64 - 1 : Int) (fun k => (k : Int)) == ((a.length : Int) - b.length) % 2 ^ 64

/-! ## Numbers -/

def digitsValue (digits : Text) : Nat := digits.foldl (fun n d => 10 * n + (d.toNat - 48)) 0

/-- Blanks, a sign and decimal digits from the start of a text, with what is left behind them. -/
def readNumber (s : Text) : Option (Int × Text) :=
  let s := s.dropWhile isSpace
  let negative := s.head? == some '-'
  let s := if s.head? = some '-' ∨ s.head? = some '+' then s.tail else s
  let digits := s.takeWhile Char.isDigit
  if digits = [] then none
  else some (if negative then -(digitsValue digits : Int) else digitsValue digits, s.dropWhile Char.isDigit)

/-- A value of `long long` and `ptrdiff_t`. -/
def InInt64 (x : Int) : Prop := -2 ^ 63 ≤ x ∧ x < 2 ^ 63

instance (x : Int) : Decidable (InInt64 x) := inferInstanceAs (Decidable (_ ∧ _))

/-- `std::stoll`: what stands behind the digits is ignored. -/
def stoll (s : Text) : Except Exn Int :=
  match readNumber s with
  | none => .error (.invalidArgument "stoll")
  | some (x, _) => if InInt64 x then .ok x else .error (.outOfRange "stoll")

/-- What `istream_iterator<ptrdiff_t>` reads until an extraction fails, in at most `fuel` steps. -/
def extractIntegers : Nat → Text → List Int
  | 0, _ => []
  | fuel + 1, s =>
    match readNumber s with
    | none => []
    | some (x, rest) => if InInt64 x then x :: extractIntegers fuel rest else []

/-- Every extraction takes a character, so there are at most as many as the text has. -/
def extracted (s : Text) : List Int := extractIntegers s.length s

theorem readNumber_rest {s rest : Text} {x : Int} (h : readNumber s = some (x, rest)) : rest.length < s.length := by
  unfold readNumber at h
  simp only at h
  generalize ht : (if (s.dropWhile isSpace).head? = some '-' ∨ (s.dropWhile isSpace).head? = some '+'
    then (s.dropWhile isSpace).tail else s.dropWhile isSpace) = t at h
  have hle : t.length ≤ s.length := by
    have h1 := (List.dropWhile_suffix (l := s) isSpace).length_le
    rw [← ht]
    split
    · rw [List.length_tail]; omega
    · exact h1
  split at h
  · cases h
  · rename_i hne
    obtain ⟨-, rfl⟩ := Prod.mk.inj (Option.some.inj h)
    have hsplit := congrArg List.length (List.takeWhile_append_dropWhile (p := Char.isDigit) (l := t))
    rw [List.length_append] at hsplit
    have := List.length_pos_of_ne_nil hne
    omega

theorem extractIntegers_fuel : ∀ (fuel : Nat) (s : Text), s.length ≤ fuel →
    extractIntegers (fuel + 1) s = extractIntegers fuel s
  | 0, s, h => by
    obtain rfl := List.length_eq_zero_iff.1 (Nat.le_zero.1 h)
    rfl
  | fuel + 1, s, h => by
    rw [extractIntegers, extractIntegers]
    cases hs : readNumber s with
    | none => rfl
    | some p =>
      have := readNumber_rest hs
      simp only
      rw [extractIntegers_fuel fuel p.2 (by omega)]

/-! ## Words of a stream -/

/-- An `istringstream`: the characters not read yet, and its flags. -/
structure IStream where
  rest : Text
  eof : Bool
  fail : Bool

def IStream.ofText (s : Text) : IStream := ⟨s, false, false⟩

/-- `is >> field` for a string: when nothing is left, `field` keeps its old value. -/
def IStream.extractWord (is : IStream) (field : Text) : IStream × Text :=
  if is.eof || is.fail then ({ is with fail := true }, field)
  else
    let s := is.rest.dropWhile isSpace
    if s = [] then (⟨[], true, true⟩, field)
    else
      let rest := s.dropWhile fun c => !isSpace c
      (⟨rest, rest.isEmpty, false⟩, s.takeWhile fun c => !isSpace c)

end ParallelProbsat.Util
