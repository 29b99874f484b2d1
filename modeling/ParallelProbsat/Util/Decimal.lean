/-
Decimal integers, written as an optional `-` and digits, and how the readers of `read` see them: `stoll`
and stream extraction agree on a text of such integers with single blanks between them, and `getline`
with a blank as the delimiter gives the integers back.
-/
import ParallelProbsat.Util.Text

namespace ParallelProbsat.Util

/-- What stands behind the sign. -/
def unsigned : Text → Text
  | '-' :: digits => digits
  | s => s

/-- An optional `-` and one or more digits. -/
def IsDecimal (s : Text) : Prop := unsigned s ≠ [] ∧ ∀ c ∈ unsigned s, c.isDigit = true

instance (s : Text) : Decidable (IsDecimal s) := inferInstanceAs (Decidable (_ ∧ _))

theorem unsigned_of_head {s : Text} (h : s.head? ≠ some '-') : unsigned s = s := by
  unfold unsigned
  split
  · exact absurd rfl h
  · rfl

def decimalValue (s : Text) : Int :=
  if s.head? = some '-' then -(digitsValue (unsigned s) : Int) else digitsValue (unsigned s)

/-- An integer in decimal. -/
def decimal (x : Int) : Text := if x < 0 then '-' :: Nat.toDigits 10 x.natAbs else Nat.toDigits 10 x.natAbs

/-! ## Characters -/

theorem isSpace_of_isDigit {c : Char} (h : c.isDigit = true) : isSpace c = false := by
  rw [Bool.eq_false_iff]
  intro hs
  simp only [isSpace, Bool.or_eq_true, beq_iff_eq] at hs
  rcases hs with ((((rfl | rfl) | rfl) | rfl) | rfl) | rfl <;> exact absurd h (by decide)

theorem ne_of_isDigit {c d : Char} (h : c.isDigit = true) (hd : d.isDigit = false) : c ≠ d := by
  rintro rfl
  rw [h] at hd
  cases hd

/-- A decimal is a sign, or none, and its digits. -/
theorem IsDecimal.cases {s : Text} (h : IsDecimal s) :
    (∃ digits, s = '-' :: digits ∧ unsigned s = digits) ∨
    (unsigned s = s ∧ s.head? ≠ some '-' ∧ s.head? ≠ some '+') := by
  by_cases hm : s.head? = some '-'
  · obtain ⟨digits, rfl⟩ := List.head?_eq_some_iff.1 hm
    exact .inl ⟨digits, rfl, rfl⟩
  · refine .inr ⟨unsigned_of_head hm, hm, fun e => ?_⟩
    obtain ⟨digits, rfl⟩ := List.head?_eq_some_iff.1 e
    exact absurd (h.2 '+' (List.mem_cons_self ..)) (by decide)

theorem IsDecimal.mem {s : Text} (h : IsDecimal s) {c : Char} (hc : c ∈ s) : c.isDigit = true ∨ c = '-' := by
  rcases h.cases with ⟨digits, rfl, hu⟩ | ⟨hu, -, -⟩
  · rcases List.mem_cons.1 hc with rfl | hc
    · exact .inr rfl
    · exact .inl (h.2 c (by rw [hu]; exact hc))
  · exact .inl (h.2 c (by rw [hu]; exact hc))

theorem IsDecimal.ne_nil {s : Text} (h : IsDecimal s) : s ≠ [] := by
  rintro rfl
  exact h.1 rfl

theorem IsDecimal.isSpace_eq {s : Text} (h : IsDecimal s) {c : Char} (hc : c ∈ s) : isSpace c = false := by
  rcases h.mem hc with hd | rfl
  · exact isSpace_of_isDigit hd
  · rfl

theorem IsDecimal.not_mem {s : Text} (h : IsDecimal s) {c : Char} (hc : isSpace c = true) : c ∉ s := by
  intro hm
  rw [h.isSpace_eq hm] at hc
  cases hc

/-- Digits alone are a decimal. -/
theorem isDecimal_of_digits {s : Text} (hne : s ≠ []) (h : ∀ c ∈ s, c.isDigit = true) :
    IsDecimal s ∧ decimalValue s = digitsValue s := by
  have hm : s.head? ≠ some '-' := by
    intro e
    have := h '-' (List.mem_of_head? e)
    exact absurd this (by decide)
  unfold IsDecimal decimalValue
  rw [unsigned_of_head hm, if_neg hm]
  exact ⟨⟨hne, h⟩, rfl⟩

/-- A positive decimal has no sign. -/
theorem IsDecimal.digits_of_pos {s : Text} (h : IsDecimal s) (h1 : 1 ≤ decimalValue s) :
    (∀ c ∈ s, c.isDigit = true) ∧ (digitsValue s : Int) = decimalValue s := by
  have hm : s.head? ≠ some '-' := by
    intro e
    unfold decimalValue at h1
    rw [if_pos e] at h1
    omega
  have hall := h.2
  rw [unsigned_of_head hm] at hall
  exact ⟨hall, (isDecimal_of_digits h.ne_nil hall).2.symm⟩

/-! ## Reading one -/

theorem readNumber_blank {c : Char} (hc : isSpace c = true) (s : Text) : readNumber (c :: s) = readNumber s := by
  unfold readNumber
  rw [List.dropWhile_cons_of_pos hc]

theorem takeWhile_digits {digits rest : Text} (hd : ∀ c ∈ digits, c.isDigit = true)
    (hr : ∀ c ∈ rest.head?, c.isDigit = false) :
    (digits ++ rest).takeWhile Char.isDigit = digits ∧ (digits ++ rest).dropWhile Char.isDigit = rest := by
  rw [List.takeWhile_append_of_pos hd, List.dropWhile_append_of_pos hd]
  cases rest with
  | nil => simp
  | cons c rest =>
    have : c.isDigit = false := hr c rfl
    simp [this]

/-- A decimal in front of something that is no digit. -/
theorem readNumber_decimal {s : Text} (rest : Text) (h : IsDecimal s) (hr : ∀ c ∈ rest.head?, c.isDigit = false) :
    readNumber (s ++ rest) = some (decimalValue s, rest) := by
  obtain ⟨c, s', rfl⟩ := List.exists_cons_of_ne_nil h.ne_nil
  have hdrop : ((c :: s') ++ rest).dropWhile isSpace = (c :: s') ++ rest := by
    rw [List.cons_append, List.dropWhile_cons_of_neg]
    rw [h.isSpace_eq (List.mem_cons_self ..)]
    exact Bool.false_ne_true
  obtain ⟨htake, hrest⟩ := takeWhile_digits h.2 hr
  unfold readNumber
  simp only [hdrop]
  rcases h.cases with ⟨digits, e, hu⟩ | ⟨hu, hminus, hplus⟩
  · obtain ⟨rfl, rfl⟩ := List.cons.inj e
    rw [hu] at htake hrest
    have hne : s' ≠ [] := by rw [← hu]; exact h.1
    simp [htake, hrest, hne, hu, decimalValue]
  · rw [hu] at htake hrest
    simp only [List.head?_cons, ne_eq, Option.some.injEq] at hminus hplus
    have hsign : ¬ (((c :: s') ++ rest).head? = some '-' ∨ ((c :: s') ++ rest).head? = some '+') := by
      simp [hminus, hplus]
    rw [if_neg hsign, htake, hrest, if_neg (List.cons_ne_nil _ _)]
    simp [hminus, hu, decimalValue]

theorem stoll_decimal {s : Text} (h : IsDecimal s) (h64 : InInt64 (decimalValue s)) :
    stoll s = .ok (decimalValue s) := by
  have hread := readNumber_decimal [] h (fun c hc => nomatch hc)
  rw [List.append_nil] at hread
  unfold stoll
  rw [hread]
  exact if_pos h64

/-! ## Reading several -/

theorem extractIntegers_of_le {s : Text} {fuel fuel' : Nat} (h : s.length ≤ fuel) (h' : fuel ≤ fuel') :
    extractIntegers fuel' s = extractIntegers fuel s := by
  induction h' with
  | refl => rfl
  | step hle ih => rw [extractIntegers_fuel _ _ (le_trans h hle), ih]

/-- One extraction, and the others on what it leaves. -/
theorem extracted_eq (s : Text) : extracted s =
    match readNumber s with
    | none => []
    | some (x, rest) => if InInt64 x then x :: extracted rest else [] := by
  unfold extracted
  cases s with
  | nil => rfl
  | cons c s =>
    rw [List.length_cons, extractIntegers]
    cases h : readNumber (c :: s) with
    | none => rfl
    | some p =>
      have hlt := readNumber_rest h
      rw [List.length_cons] at hlt
      simp only
      rw [extractIntegers_of_le (le_refl p.2.length) (by omega)]

theorem extracted_blank {c : Char} (hc : isSpace c = true) (s : Text) : extracted (c :: s) = extracted s := by
  rw [extracted_eq, extracted_eq s, readNumber_blank hc]

theorem extracted_decimal {s : Text} (rest : Text) (h : IsDecimal s) (h64 : InInt64 (decimalValue s))
    (hr : ∀ c ∈ rest.head?, c.isDigit = false) : extracted (s ++ rest) = decimalValue s :: extracted rest := by
  rw [extracted_eq, readNumber_decimal rest h hr]
  exact if_pos h64

/-- Stream extraction from decimals with single blanks between them. -/
theorem extracted_intercalate : ∀ fields : List Text, (∀ f ∈ fields, IsDecimal f ∧ InInt64 (decimalValue f)) →
    extracted ([' '].intercalate fields) = fields.map decimalValue
  | [], _ => rfl
  | [f], h => by
    obtain ⟨hd, h64⟩ := h f (List.mem_cons_self ..)
    have hone := extracted_decimal [] hd h64 (fun c hc => nomatch hc)
    rw [List.append_nil] at hone
    rw [List.intercalate_singleton, hone]
    rfl
  | f :: g :: fields, h => by
    obtain ⟨hd, h64⟩ := h f (List.mem_cons_self ..)
    have hone := extracted_decimal (' ' :: [' '].intercalate (g :: fields)) hd h64
      (fun c hc => by obtain rfl := Option.some.inj hc; rfl)
    rw [List.intercalate_cons_cons, List.append_assoc, List.singleton_append, hone, extracted_blank rfl,
      extracted_intercalate (g :: fields) fun f hf => h f (List.mem_cons_of_mem _ hf)]
    rfl

/-! ## Splitting a text -/

theorem getlines_eq_splitOn (delim : Char) : ∀ s : Text, getlines delim s = s.splitOn delim
  | [] => rfl
  | c :: s => by
    rw [getlines, List.splitOn_cons_eq_if_modifyHead, getlines_eq_splitOn delim s]
    rcases eq_or_ne c delim with rfl | hne
    · simp
    · rw [if_neg hne, if_neg (by simpa using hne)]
      cases h : s.splitOn delim with
      | nil => exact absurd h (List.splitOn_ne_nil _ _)
      | cons line rest => rfl

theorem getlines_intercalate {delim : Char} {fields : List Text} (h : ∀ f ∈ fields, delim ∉ f) (hne : fields ≠ []) :
    getlines delim ([delim].intercalate fields) = fields := by
  rw [getlines_eq_splitOn]
  exact List.splitOn_intercalate delim h hne

theorem intercalate_getlines (delim : Char) (s : Text) : [delim].intercalate (getlines delim s) = s := by
  rw [getlines_eq_splitOn]
  exact List.intercalate_splitOn delim

theorem not_mem_getlines {delim : Char} {f : Text} : ∀ {s : Text}, f ∈ getlines delim s → delim ∉ f
  | [], h => by
    obtain rfl := List.mem_singleton.1 h
    exact List.not_mem_nil
  | c :: s, h => by
    rw [getlines] at h
    split at h
    · rcases List.mem_cons.1 h with rfl | h
      · exact List.not_mem_nil
      · exact not_mem_getlines h
    · rename_i hne
      split at h
      · obtain rfl := List.mem_singleton.1 h
        exact fun e => hne (List.mem_singleton.1 e).symm
      · rename_i line rest hlines
        rcases List.mem_cons.1 h with rfl | h
        · have := not_mem_getlines (f := line) (s := s) (by rw [hlines]; exact List.mem_cons_self ..)
          rintro hm
          rcases List.mem_cons.1 hm with e | hm
          · exact hne e.symm
          · exact this hm
        · exact not_mem_getlines (s := s) (by rw [hlines]; exact List.mem_cons_of_mem _ h)

theorem part_of_intercalate {d : Char} {f : Text} : ∀ {fields : List Text}, f ∈ fields → f <:+: [d].intercalate fields
  | [g], h => by
    obtain rfl := List.mem_singleton.1 h
    rw [List.intercalate_singleton]
  | g :: k :: fields, h => by
    rw [List.intercalate_cons_cons, List.append_assoc]
    rcases List.mem_cons.1 h with rfl | h
    · exact (List.prefix_append _ _).isInfix
    · exact (part_of_intercalate h).trans ((List.suffix_append _ _).trans (List.suffix_append _ _)).isInfix

theorem part_of_getlines {delim : Char} {f s : Text} (h : f ∈ getlines delim s) : f <:+: s := by
  have hpart := part_of_intercalate (d := delim) h
  rwa [intercalate_getlines] at hpart

/-! ## Texts of digits and signs -/

/-- No `-` stands directly behind a digit. -/
def MinusApart (s : Text) : Prop := s.IsChain fun a b => ¬(a.isDigit = true ∧ b = '-')

instance (s : Text) : Decidable (MinusApart s) := inferInstanceAs (Decidable (List.IsChain _ s))

theorem MinusApart.digits : ∀ {a : Char} {s : Text}, MinusApart (a :: s) → a.isDigit = true →
    (∀ c ∈ s, c.isDigit = true ∨ c = '-') → ∀ c ∈ s, c.isDigit = true
  | _, [], _, _, _, _, hc => absurd hc List.not_mem_nil
  | a, b :: s, h, ha, hall, c, hc => by
    obtain ⟨hab, h⟩ := List.isChain_cons_cons.1 h
    have hb : b.isDigit = true := (hall b (List.mem_cons_self ..)).resolve_right fun e => hab ⟨ha, e⟩
    rcases List.mem_cons.1 hc with rfl | hc
    · exact hb
    · exact MinusApart.digits h hb (fun d hd => hall d (List.mem_cons_of_mem _ hd)) c hc

/-- A field of digits and signs is a decimal when a number is read from it. -/
theorem IsDecimal.of_readNumber {f rest : Text} {x : Int} (h : readNumber f = some (x, rest))
    (hchars : ∀ c ∈ f, c.isDigit = true ∨ c = '-') (hminus : MinusApart f) : IsDecimal f := by
  have hspace : f.dropWhile isSpace = f := by
    cases f with
    | nil => rfl
    | cons c f =>
      refine List.dropWhile_cons_of_neg ?_
      rcases hchars c (List.mem_cons_self ..) with hd | rfl
      · rw [isSpace_of_isDigit hd]
        exact Bool.false_ne_true
      · decide
  have hplus : f.head? ≠ some '+' := by
    intro e
    obtain ⟨f', rfl⟩ := List.head?_eq_some_iff.1 e
    rcases hchars '+' (List.mem_cons_self ..) with hd | hd <;> exact absurd hd (by decide)
  have hunsigned : (if f.head? = some '-' ∨ f.head? = some '+' then f.tail else f) = unsigned f := by
    by_cases hm : f.head? = some '-'
    · obtain ⟨f', rfl⟩ := List.head?_eq_some_iff.1 hm
      rfl
    · rw [if_neg (not_or.2 ⟨hm, hplus⟩), unsigned_of_head hm]
  have hsuffix : unsigned f <:+ f := by
    unfold unsigned
    split
    · exact List.suffix_cons _ _
    · exact List.suffix_refl _
  unfold readNumber at h
  simp only [hspace, hunsigned] at h
  split at h
  · cases h
  · rename_i hne
    -- a digit comes first, and only digits can follow it
    cases hu : unsigned f with
    | nil => rw [hu] at hne; exact absurd rfl hne
    | cons a s =>
      rw [hu] at hne hsuffix
      have ha : a.isDigit = true := by
        by_contra hna
        exact hne (List.takeWhile_cons_of_neg hna)
      have hs := MinusApart.digits (List.IsChain.suffix hminus hsuffix) ha
        fun c hc => hchars c (hsuffix.subset (List.mem_cons_of_mem _ hc))
      refine ⟨by rw [hu]; exact List.cons_ne_nil _ _, fun c hc => ?_⟩
      rw [hu] at hc
      rcases List.mem_cons.1 hc with rfl | hc
      · exact ha
      · exact hs c hc

theorem minusApart_append {s t : Text} (hs : MinusApart s) (ht : MinusApart t) (hj : t.head? ≠ some '-') :
    MinusApart (s ++ t) :=
  List.isChain_append.2 ⟨hs, ht, fun a _ b hb e => hj (by rw [e.2] at hb; exact hb)⟩

theorem minusApart_digits : ∀ {s : Text}, (∀ c ∈ s, c.isDigit = true) → MinusApart s
  | [], _ => .nil
  | [_], _ => .singleton _
  | a :: b :: s, h => by
    refine List.isChain_cons_cons.2 ⟨fun e => ?_, minusApart_digits fun c hc => h c (List.mem_cons_of_mem _ hc)⟩
    have hb := h b (List.mem_cons_of_mem _ (List.mem_cons_self ..))
    rw [e.2] at hb
    exact absurd hb (by decide)

theorem IsDecimal.minusApart {s : Text} (h : IsDecimal s) : MinusApart s := by
  rcases h.cases with ⟨digits, rfl, hu⟩ | ⟨hu, -, -⟩
  · have hd := h.2
    rw [hu] at hd
    cases digits with
    | nil => exact .singleton _
    | cons c digits => exact List.isChain_cons_cons.2 ⟨fun e => absurd e.1 (by decide), minusApart_digits hd⟩
  · have hd := h.2
    rw [hu] at hd
    exact minusApart_digits hd

theorem minusApart_intercalate : ∀ {fields : List Text}, (∀ f ∈ fields, IsDecimal f) →
    MinusApart ([' '].intercalate fields)
  | [], _ => .nil
  | [f], h => by
    rw [List.intercalate_singleton]
    exact (h f (List.mem_cons_self ..)).minusApart
  | f :: g :: fields, h => by
    rw [List.intercalate_cons_cons, List.append_assoc]
    refine minusApart_append (h f (List.mem_cons_self ..)).minusApart ?_ (by simp)
    have hrest : MinusApart ([' '].intercalate (g :: fields)) :=
      minusApart_intercalate fun f hf => h f (List.mem_cons_of_mem _ hf)
    rw [List.singleton_append]
    cases hs : [' '].intercalate (g :: fields) with
    | nil => exact .singleton _
    | cons c s =>
      rw [hs] at hrest
      exact List.isChain_cons_cons.2 ⟨fun e => absurd e.1 (by decide), hrest⟩

theorem mem_intercalate {c : Char} {d : Char} : ∀ {fields : List Text}, c ∈ [d].intercalate fields →
    c = d ∨ ∃ f ∈ fields, c ∈ f
  | [], h => absurd h List.not_mem_nil
  | [f], h => by
    rw [List.intercalate_singleton] at h
    exact .inr ⟨f, List.mem_cons_self .., h⟩
  | f :: g :: fields, h => by
    rw [List.intercalate_cons_cons, List.append_assoc, List.mem_append, List.singleton_append, List.mem_cons] at h
    rcases h with h | rfl | h
    · exact .inr ⟨f, List.mem_cons_self .., h⟩
    · exact .inl rfl
    · rcases mem_intercalate h with rfl | ⟨k, hk, hc⟩
      · exact .inl rfl
      · exact .inr ⟨k, List.mem_cons_of_mem _ hk, hc⟩

/-! ## Printing -/

theorem digitsValue_toDigits (n : Nat) : digitsValue (Nat.toDigits 10 n) = n := by
  have h := Nat.ofDigitChars_ten_toDigits (n := n)
  rw [Nat.ofDigitChars_eq_foldl] at h
  exact h

theorem isDigit_toDigits {n : Nat} {c : Char} (hc : c ∈ Nat.toDigits 10 n) : c.isDigit = true :=
  Nat.isDigit_of_mem_toDigits (by decide) (by decide) hc

/-- No leading zeros. -/
theorem toDigits_head : ∀ {n : Nat}, 0 < n → (Nat.toDigits 10 n).head? ≠ some '0' := by
  intro n
  induction n using Nat.strong_induction_on with
  | _ n ih =>
    intro hn
    rw [Nat.toDigits_eq_if (by decide)]
    split
    · rename_i hlt
      interval_cases n <;> decide
    · have hne : Nat.toDigits 10 (n / 10) ≠ [] := Nat.toDigits_ne_nil
      rw [List.head?_append_of_ne_nil _ hne]
      exact ih (n / 10) (by omega) (by omega)

theorem head_toDigits (n : Nat) : (Nat.toDigits 10 n).head? ≠ some '-' := by
  intro e
  obtain ⟨s, hs⟩ := List.head?_eq_some_iff.1 e
  have : '-'.isDigit = true := isDigit_toDigits (n := n) (by rw [hs]; exact List.mem_cons_self ..)
  exact absurd this (by decide)

theorem unsigned_decimal (x : Int) : unsigned (decimal x) = Nat.toDigits 10 x.natAbs := by
  unfold decimal
  split
  · rfl
  · exact unsigned_of_head (head_toDigits _)

theorem isDecimal_decimal (x : Int) : IsDecimal (decimal x) := by
  unfold IsDecimal
  rw [unsigned_decimal]
  exact ⟨Nat.toDigits_ne_nil, fun c hc => isDigit_toDigits hc⟩

theorem decimalValue_decimal (x : Int) : decimalValue (decimal x) = x := by
  unfold decimalValue
  rw [unsigned_decimal, digitsValue_toDigits]
  unfold decimal
  split
  · rw [List.head?_cons, if_pos rfl]
    omega
  · rw [if_neg (head_toDigits _)]
    omega

theorem decimal_head {x : Int} (hx : x ≠ 0) : (decimal x).head? ≠ some '0' := by
  unfold decimal
  split
  · rw [List.head?_cons]
    decide
  · exact toDigits_head (by omega)

end ParallelProbsat.Util
