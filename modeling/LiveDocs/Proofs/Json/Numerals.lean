import LiveDocs.Json.Token

/-!
# Numerals that are read back

The parts of a numeral are read back from its text (`Numeral.ofChars?_chars`), and so are the
integers of a JSON text. Nothing of that kind is proved of the values of doubles, whose digits are
read with a rounding after each step; `Number.ReadsBack` says of one number that its text is read as
that number, and it is this property that the theory of JSON texts asks of the doubles in a value.

## Main definitions

* `Numeral.chars`, `Numeral.Proper`: the text of a numeral, and the numerals that have one.

## Main results

* `Numeral.ofChars?_chars`: a numeral is read back from its text.
* `Number.readsBack_natural`, `Number.readsBack_negative`: integers read back.
* `Number.ReadsBack.isNumeralChar`: a text that reads back has only the characters of a numeral.
-/

namespace LiveDocs

namespace Numeral

theorem digitsValue_toDigits (n : Nat) : digitsValue (Nat.toDigits 10 n) = n :=
  Nat.ofDigitChars_ten_toDigits

theorem digitsValue_append (front back : List Char) :
    digitsValue (front ++ back) = powerOfTen back.length * digitsValue front + digitsValue back :=
  (Nat.ofDigitChars_append 0).trans Nat.ofDigitChars_eq_ofDigitChars_zero

theorem digitsValue_zeros (count : Nat) : digitsValue (List.replicate count '0') = 0 :=
  Nat.ofDigitChars_replicate_zero.trans (Nat.mul_zero _)

theorem all_isDigit_toDigits (n : Nat) : ∀ c ∈ Nat.toDigits 10 n, c.isDigit = true :=
  fun _ hc => Nat.isDigit_of_mem_toDigits (by decide) (by decide) hc

/-- Only the numeral of zero begins with a zero. -/
theorem head?_toDigits_ne_zero {n : Nat} (hn : 0 < n) : (Nat.toDigits 10 n).head? ≠ some '0' := by
  induction n using Nat.strongRecOn with
  | ind n ih =>
    rw [Nat.toDigits_eq_if (by decide)]
    split
    · simp only [List.head?_cons, ne_eq, Option.some.injEq, Nat.digitChar_eq_zero]
      omega
    · next h =>
      have hih := ih (n / 10) (by omega) (by omega)
      cases hd : Nat.toDigits 10 (n / 10) with
      | nil => exact absurd hd Nat.toDigits_ne_nil
      | cons c cs => simpa [hd] using hih

/-! ## Written numerals -/

/-- A fraction with its point, if there is one. -/
def fractionChars : List Char → List Char
  | [] => []
  | digits => '.' :: digits

/-- An exponent with its mark and its sign, if there is one. -/
def exponentChars (negative : Bool) : List Char → List Char
  | [] => []
  | digits => 'e' :: (if negative then '-' else '+') :: digits

theorem fractionChars_of_ne_nil {digits : List Char} (h : digits ≠ []) :
    fractionChars digits = '.' :: digits := by
  cases digits with
  | nil => exact absurd rfl h
  | cons c rest => rfl

theorem exponentChars_of_ne_nil (negative : Bool) {digits : List Char} (h : digits ≠ []) :
    exponentChars negative digits = 'e' :: (if negative then '-' else '+') :: digits := by
  cases digits with
  | nil => exact absurd rfl h
  | cons c rest => rfl

def chars (n : Numeral) : List Char :=
  (if n.negative then ['-'] else []) ++
    (n.whole ++ (fractionChars n.fraction ++ exponentChars n.exponentNegative n.exponent))

/-- The parts of a numeral are digits, and its whole part has no leading zero. -/
structure Proper (n : Numeral) : Prop where
  nonempty : n.whole ≠ []
  lead : n.whole.length = 1 ∨ n.whole.head? ≠ some '0'
  whole : ∀ c ∈ n.whole, c.isDigit = true
  fraction : ∀ c ∈ n.fraction, c.isDigit = true
  exponent : ∀ c ∈ n.exponent, c.isDigit = true
  positive : n.exponent = [] → n.exponentNegative = false

/-- Digits are read up to the first character that is none. -/
theorem takeWhile_isDigit_append {digits tail : List Char} (h : ∀ c ∈ digits, c.isDigit = true)
    (htail : ∀ c, tail.head? = some c → c.isDigit = false) :
    (digits ++ tail).takeWhile Char.isDigit = digits ∧
      (digits ++ tail).dropWhile Char.isDigit = tail := by
  rw [List.takeWhile_append_of_pos h, List.dropWhile_append_of_pos h]
  cases tail with
  | nil => simp
  | cons c tail => simp [htail c rfl]

/-- The exponent is read last, and what was read before it is kept. -/
theorem exponentOfChars?_exponentChars {n : Numeral} (h : n.Proper) :
    exponentOfChars? ⟨n.negative, n.whole, n.fraction, false, []⟩
      (exponentChars n.exponentNegative n.exponent) = some n := by
  obtain ⟨negative, whole, fraction, exponentNegative, exponent⟩ := n
  cases exponent with
  | nil =>
    have hpositive : exponentNegative = false := h.positive rfl
    rw [hpositive]
    rfl
  | cons c rest =>
    have hdigits : (c :: rest).all Char.isDigit = true := List.all_eq_true.mpr h.exponent
    cases exponentNegative <;> simp [exponentChars, exponentOfChars?, hdigits]

/-- Reads a numeral behind its sign. -/
def afterSign? (negative : Bool) (chars : List Char) : Option Numeral :=
  let whole := chars.takeWhile Char.isDigit
  let numeral : Numeral := ⟨negative, whole, [], false, []⟩
  if whole.isEmpty || (whole.length != 1 && whole.head? == some '0') then none
  else
    match chars.dropWhile Char.isDigit with
    | '.' :: rest =>
      let fraction := rest.takeWhile Char.isDigit
      if fraction.isEmpty then none
      else exponentOfChars? { numeral with fraction := fraction } (rest.dropWhile Char.isDigit)
    | rest => exponentOfChars? numeral rest

theorem ofChars?_of_ne_minus {cs : List Char} (h : cs.head? ≠ some '-') :
    ofChars? cs = afterSign? false cs := by
  unfold ofChars?
  split
  next negative chars heq =>
  split at heq
  · exact absurd rfl h
  · cases heq
    rfl

/-- What is written behind the sign is read back. -/
theorem afterSign?_chars {n : Numeral} (h : n.Proper) :
    afterSign? n.negative (n.whole ++ (fractionChars n.fraction ++
      exponentChars n.exponentNegative n.exponent)) = some n := by
  -- Neither a point nor an exponent begins with a digit.
  have hexponent : ∀ c, (exponentChars n.exponentNegative n.exponent).head? = some c →
      c.isDigit = false := by
    intro c hc
    cases hdigits : n.exponent with
    | nil => simp [hdigits, exponentChars] at hc
    | cons d rest =>
      rw [hdigits] at hc
      cases hc
      decide
  have hfraction : ∀ c, (fractionChars n.fraction ++
      exponentChars n.exponentNegative n.exponent).head? = some c → c.isDigit = false := by
    intro c hc
    cases hdigits : n.fraction with
    | nil => exact hexponent c (by simpa [hdigits, fractionChars] using hc)
    | cons d rest =>
      rw [hdigits] at hc
      cases hc
      decide
  obtain ⟨hwhole, hrest⟩ := takeWhile_isDigit_append h.whole hfraction
  have hlead : (n.whole.isEmpty || (n.whole.length != 1 && n.whole.head? == some '0')) = false := by
    rcases h.lead with hone | hzero
    · simp [h.nonempty, hone]
    · simp [h.nonempty, hzero]
  have hread := exponentOfChars?_exponentChars h
  simp only [afterSign?, hwhole, hrest, hlead, Bool.false_eq_true, if_false]
  cases hdigits : n.fraction with
  | nil =>
    rw [hdigits] at hread
    cases hexp : n.exponent with
    | nil => simpa [hexp, exponentChars, fractionChars] using hread
    | cons d rest => simpa [hexp, exponentChars, fractionChars] using hread
  | cons d rest =>
    rw [hdigits] at hread
    obtain ⟨htake, hdrop⟩ := takeWhile_isDigit_append h.fraction hexponent
    rw [hdigits] at htake hdrop
    simp only [fractionChars, List.cons_append] at htake hdrop ⊢
    simp only [htake, hdrop]
    simpa using hread

/-- **A numeral is read back from its text.** -/
theorem ofChars?_chars {n : Numeral} (h : n.Proper) : ofChars? n.chars = some n := by
  have hread := afterSign?_chars h
  unfold Numeral.chars
  cases hnegative : n.negative with
  | true => rwa [hnegative] at hread
  | false =>
    rw [hnegative] at hread
    refine (ofChars?_of_ne_minus ?_).trans hread
    cases hwhole : n.whole with
    | nil => exact absurd hwhole h.nonempty
    | cons c digits =>
      have hdigit := h.whole c (hwhole ▸ List.mem_cons_self)
      rintro ⟨rfl⟩
      exact absurd hdigit (by decide)

/-- The digits of a natural number are the whole part of a numeral. -/
theorem proper_toDigits (negative : Bool) (n : Nat) :
    Proper ⟨negative, Nat.toDigits 10 n, [], false, []⟩ where
  nonempty := Nat.toDigits_ne_nil
  lead := by
    rcases Nat.eq_zero_or_pos n with rfl | hn
    · exact .inl rfl
    · exact .inr (head?_toDigits_ne_zero hn)
  whole := all_isDigit_toDigits n
  fraction := by simp
  exponent := by simp
  positive _ := rfl

theorem ofChars?_toDigits (n : Nat) :
    ofChars? (Nat.toDigits 10 n) = some ⟨false, Nat.toDigits 10 n, [], false, []⟩ := by
  simpa [chars, fractionChars, exponentChars] using ofChars?_chars (proper_toDigits false n)

theorem ofChars?_neg_toDigits (n : Nat) :
    ofChars? ('-' :: Nat.toDigits 10 n) = some ⟨true, Nat.toDigits 10 n, [], false, []⟩ := by
  simpa [chars, fractionChars, exponentChars] using ofChars?_chars (proper_toDigits true n)

/-! ## Characters of numerals -/

theorem isNumeralChar_of_isDigit {c : Char} (h : c.isDigit = true) :
    Scan.isNumeralChar c = true := by
  simp [Scan.isNumeralChar, h]

theorem isNumeralChar_of_mem_takeWhile {c : Char} {cs : List Char}
    (h : c ∈ cs.takeWhile Char.isDigit) : Scan.isNumeralChar c = true := by
  have := List.all_takeWhile (p := Char.isDigit) (l := cs)
  exact isNumeralChar_of_isDigit (List.all_eq_true.mp this c h)

/-- The digits of an exponent are digits. -/
theorem isNumeralChar_of_digits {m n : Numeral} {digits : List Char}
    (h : (if (digits.isEmpty || !digits.all Char.isDigit) = true then none else some m) = some n) :
    ∀ c ∈ digits, Scan.isNumeralChar c = true := by
  split at h
  · exact absurd h (by simp)
  · next hdigits =>
    simp only [Bool.or_eq_true, not_or, Bool.not_eq_true, Bool.not_eq_false'] at hdigits
    exact fun c hc => isNumeralChar_of_isDigit (List.all_eq_true.mp hdigits.2 c hc)

/-- Nothing but what belongs to a numeral is taken for its exponent. -/
theorem isNumeralChar_of_exponent {numeral n : Numeral} {cs : List Char}
    (h : exponentOfChars? numeral cs = some n) : ∀ c ∈ cs, Scan.isNumeralChar c = true := by
  cases cs with
  | nil => simp
  | cons mark rest =>
    simp only [exponentOfChars?] at h
    split at h
    · next hmark =>
      have hm : Scan.isNumeralChar mark = true := by
        rcases hmark with rfl | rfl <;> decide
      have hsign : Scan.isNumeralChar '+' = true ∧ Scan.isNumeralChar '-' = true := by decide
      split at h
      · simpa [hm, hsign.1] using isNumeralChar_of_digits h
      · simpa [hm, hsign.2] using isNumeralChar_of_digits h
      · simpa [hm] using isNumeralChar_of_digits h
    · exact absurd h (by simp)

/-- What is read as the parts of a numeral has only the characters of a numeral. -/
theorem isNumeralChar_of_ofChars? {cs : List Char} {n : Numeral} (h : ofChars? cs = some n) :
    cs ≠ [] ∧ ∀ c ∈ cs, Scan.isNumeralChar c = true := by
  unfold ofChars? at h
  split at h
  next negative chars heq =>
  -- The digits of the whole part, then a fraction or an exponent.
  have hchars : chars ≠ [] ∧ ∀ c ∈ chars, Scan.isNumeralChar c = true := by
    simp only at h
    split at h
    · exact absurd h (by simp)
    · next hwhole =>
      have hsplit := List.takeWhile_append_dropWhile (p := Char.isDigit) (l := chars)
      have hdrop : ∀ c ∈ chars.dropWhile Char.isDigit, Scan.isNumeralChar c = true := by
        split at h
        · next rest hrest =>
          split at h
          · exact absurd h (by simp)
          · have hexp := isNumeralChar_of_exponent h
            have hfrac := List.takeWhile_append_dropWhile (p := Char.isDigit) (l := rest)
            rw [hrest, ← hfrac]
            intro c hc
            rcases List.mem_cons.mp hc with rfl | hc
            · decide
            · rcases List.mem_append.mp hc with hc | hc
              · exact isNumeralChar_of_mem_takeWhile hc
              · exact hexp c hc
        · exact isNumeralChar_of_exponent h
      refine ⟨fun hnil => ?_, fun c hc => ?_⟩
      · simp [hnil] at hwhole
      · rw [← hsplit] at hc
        rcases List.mem_append.mp hc with hc | hc
        · exact isNumeralChar_of_mem_takeWhile hc
        · exact hdrop c hc
  split at heq
  · cases heq
    have hminus : Scan.isNumeralChar '-' = true := by decide
    simpa [hminus] using hchars.2
  · cases heq
    exact hchars

end Numeral

namespace Number

/-- The text of a number is read as that number. -/
def ReadsBack (n : Number) : Prop := ofChars? n.chars = some n

theorem readsBack_natural (n : UInt64) : ReadsBack (.natural n) := by
  have hlt : n.toNat < Numeral.wordBound := n.toNat_lt
  simp [ReadsBack, ofChars?, chars, decimalChars, Numeral.ofChars?_toDigits, Numeral.number?,
    Numeral.isInteger, Numeral.digitsValue_toDigits, hlt]

theorem readsBack_negative (n : Fin 0x8000000000000000) : ReadsBack (.negative n) := by
  have hle : n.val + 1 ≤ 0x8000000000000000 := n.isLt
  simp [ReadsBack, ofChars?, chars, decimalChars, Numeral.ofChars?_neg_toDigits, Numeral.number?,
    Numeral.isInteger, Numeral.digitsValue_toDigits, hle]

/-- A text that reads back begins like a numeral and has only the characters of one. -/
theorem ReadsBack.isNumeralChar {n : Number} (h : n.ReadsBack) :
    n.chars ≠ [] ∧ ∀ c ∈ n.chars, Scan.isNumeralChar c = true := by
  obtain ⟨numeral, hnumeral, -⟩ := Option.bind_eq_some_iff.mp h
  exact Numeral.isNumeralChar_of_ofChars? hnumeral

end Number

end LiveDocs
