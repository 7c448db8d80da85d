import LiveDocs.Proofs.Double.Shortest

/-!
# Texts of doubles

The text of a double is a numeral, positional or with an exponent. The number that the numeral
stands for is the shortest decimal of the double, so it rounds to the double
(`Double.exists_numeral`). No number rounds to two doubles of one sign, so different doubles have
different texts (`Double.chars_injective`), and a text with a fraction or an exponent is not the
text of an integer (`Number.chars_injective`).

## Main definitions

* `Numeral.value`: the number that a numeral stands for.
* `Numeral.Writes`: a numeral with a text, a sign and a value.
-/

namespace LiveDocs

namespace Numeral

/-- The number that a numeral stands for, its sign apart. -/
def value (n : Numeral) : ℚ :=
  let written : Int := digitsValue n.exponent
  digitsValue (n.whole ++ n.fraction) *
    10 ^ ((if n.exponentNegative then -written else written) - n.fraction.length)

/-- A numeral with a fraction or an exponent stands for `x`, and its text is `body` behind a
sign. -/
structure Writes (n : Numeral) (negative : Bool) (body : List Char) (x : ℚ) : Prop where
  proper : n.Proper
  chars : n.chars = (if negative then ['-'] else []) ++ body
  negative : n.negative = negative
  noInteger : n.isInteger = false
  value : n.value = x

theorem digitsValue_zeros_append (count : Nat) (digits : List Char) :
    digitsValue (List.replicate count '0' ++ digits) = digitsValue digits := by
  rw [digitsValue_append, digitsValue_zeros, Nat.mul_zero, Nat.zero_add]

theorem digitsValue_append_zeros (digits : List Char) (count : Nat) :
    digitsValue (digits ++ List.replicate count '0') = powerOfTen count * digitsValue digits := by
  rw [digitsValue_append, digitsValue_zeros, List.length_replicate, Nat.add_zero]

end Numeral

namespace Double

theorem isDigit_of_mem_replicate {count : Nat} {c : Char} (h : c ∈ List.replicate count '0') :
    c.isDigit = true := by
  rw [List.eq_of_mem_replicate h]
  decide

/-! ## Positional texts -/

/-- Digits on both sides of a point. -/
theorem writes_point {whole fraction : List Char} (hwhole : whole ≠ [])
    (hlead : whole.length = 1 ∨ whole.head? ≠ some '0') (hfraction : fraction ≠ [])
    (hdigits : ∀ c ∈ whole ++ fraction, c.isDigit = true) (negative : Bool) :
    Numeral.Writes ⟨negative, whole, fraction, false, []⟩ negative (whole ++ '.' :: fraction)
      (Numeral.digitsValue (whole ++ fraction) * 10 ^ (-(fraction.length : Int))) where
  proper :=
    { nonempty := hwhole
      lead := hlead
      whole := fun c hc => hdigits c (List.mem_append_left _ hc)
      fraction := fun c hc => hdigits c (List.mem_append_right _ hc)
      exponent := by simp
      positive := fun _ => rfl }
  chars := by
    rw [Numeral.chars, Numeral.fractionChars_of_ne_nil hfraction, Numeral.exponentChars,
      List.append_nil]
  negative := rfl
  noInteger := by simp [Numeral.isInteger, hfraction]
  value := by simp [Numeral.value, Numeral.digitsValue]

section Positional

variable {d : Decimal}

/-- A decimal below one has zeros between the point and its digits. -/
theorem exists_writes_below_one (h : d.Normal) (hpoint : d.point ≤ 0) (negative : Bool) :
    ∃ n : Numeral, n.Writes negative (positional d) d.value := by
  have hdigits : ∀ c ∈ ['0'] ++ (List.replicate (-d.point).toNat '0' ++ d.digits),
      c.isDigit = true := by
    rw [← List.append_assoc]
    intro c hc
    rcases List.mem_append.mp hc with hc | hc
    · have hzeros : c ∈ List.replicate ((-d.point).toNat + 1) '0' := hc
      exact isDigit_of_mem_replicate hzeros
    · exact h.digits c hc
  have hwrites :=
    writes_point (List.cons_ne_nil _ _) (.inl rfl) (by simp [h.nonempty]) hdigits negative
  have htext : positional d = ['0'] ++ '.' :: (List.replicate (-d.point).toNat '0' ++ d.digits) :=
    if_pos hpoint
  have hvalue : (Numeral.digitsValue (['0'] ++ (List.replicate (-d.point).toNat '0' ++ d.digits)) *
      10 ^ (-((List.replicate (-d.point).toNat '0' ++ d.digits).length : Int)) : ℚ) = d.value := by
    have hzeros := Numeral.digitsValue_zeros_append ((-d.point).toNat + 1) d.digits
    have hexponent : -((List.replicate (-d.point).toNat '0' ++ d.digits).length : Int) =
        d.point - d.digits.length := by
      rw [List.length_append, List.length_replicate]
      omega
    rw [Decimal.value, ← hexponent, ← hzeros]
    rfl
  rw [htext, ← hvalue]
  exact ⟨_, hwrites⟩

/-- A whole decimal is filled up with zeros, and one more stands behind the point. -/
theorem exists_writes_whole (h : d.Normal) {places : Nat}
    (hpoint : d.point = d.digits.length + places) (negative : Bool) :
    ∃ n : Numeral, n.Writes negative (positional d) d.value := by
  have hpos : 0 < d.digits.length := List.length_pos_iff.mpr h.nonempty
  have hplaces : d.point.toNat = d.digits.length + places := by omega
  have htext : positional d = (d.digits ++ List.replicate places '0') ++ '.' :: ['0'] := by
    simp [positional, show ¬ d.point ≤ 0 by omega, hplaces]
  have hzeros : d.digits ++ List.replicate places '0' ++ ['0'] =
      d.digits ++ List.replicate (places + 1) '0' := by
    rw [List.append_assoc, ← List.replicate_succ']
  have hwhole : d.digits ++ List.replicate places '0' ≠ [] := by simp [h.nonempty]
  have hlead : (d.digits ++ List.replicate places '0').head? ≠ some '0' := by
    rw [List.head?_append_of_ne_nil _ h.nonempty]
    exact h.lead
  have hdigits : ∀ c ∈ d.digits ++ List.replicate places '0' ++ ['0'], c.isDigit = true := by
    rw [hzeros]
    intro c hc
    exact (List.mem_append.mp hc).elim (h.digits c) isDigit_of_mem_replicate
  have hwrites := writes_point hwhole (.inr hlead) (List.cons_ne_nil _ _) hdigits negative
  have hvalue : (Numeral.digitsValue (d.digits ++ List.replicate places '0' ++ ['0']) *
      10 ^ (-((['0'] : List Char).length : Int)) : ℚ) = d.value := by
    have hexponent : d.point - d.digits.length =
        (places + 1 : Nat) + -((['0'] : List Char).length : Int) := by
      simp
      omega
    rw [hzeros, Numeral.digitsValue_append_zeros, Decimal.value, hexponent, zpow_add₀ (by norm_num),
      zpow_natCast, Nat.cast_mul, cast_powerOfTen]
    ring
  rw [htext, ← hvalue]
  exact ⟨_, hwrites⟩

/-- Other decimals have digits on both sides of the point. -/
theorem exists_writes_between (h : d.Normal) {places : Nat} (hpoint : d.point = places)
    (hpos : 0 < places) (hlength : places < d.digits.length) (negative : Bool) :
    ∃ n : Numeral, n.Writes negative (positional d) d.value := by
  have hplaces : d.point.toNat = places := by omega
  have hfraction : d.digits.drop places ≠ [] := by
    rw [ne_eq, List.drop_eq_nil_iff]
    omega
  have htext : positional d = d.digits.take places ++ '.' :: d.digits.drop places := by
    have hpadded : d.digits ++ List.replicate (places - d.digits.length) '0' = d.digits := by
      rw [Nat.sub_eq_zero_of_le hlength.le, List.replicate_zero, List.append_nil]
    simp only [positional, show ¬ d.point ≤ 0 by omega, if_false, hplaces, hpadded]
  have hwhole : d.digits.take places ≠ [] := by
    rw [ne_eq, List.take_eq_nil_iff]
    simp [h.nonempty]
    omega
  have hlead : (d.digits.take places).head? ≠ some '0' := by
    rw [List.head?_take, if_neg (by omega)]
    exact h.lead
  have hdigits : ∀ c ∈ d.digits.take places ++ d.digits.drop places, c.isDigit = true := by
    rw [List.take_append_drop]
    exact h.digits
  have hwrites := writes_point hwhole (.inr hlead) hfraction hdigits negative
  have hexponent : -((d.digits.drop places).length : Int) = d.point - d.digits.length := by
    rw [List.length_drop]
    omega
  rw [List.take_append_drop, hexponent] at hwrites
  rw [htext]
  exact ⟨_, hwrites⟩

/-- A decimal written with its point among the digits stands for that decimal. -/
theorem exists_writes_positional (h : d.Normal) (negative : Bool) :
    ∃ n : Numeral, n.Writes negative (positional d) d.value := by
  by_cases hpoint : d.point ≤ 0
  · exact exists_writes_below_one h hpoint negative
  by_cases hlength : (d.digits.length : Int) ≤ d.point
  · obtain ⟨places, hplaces⟩ := Int.le.dest hlength
    exact exists_writes_whole h hplaces.symm negative
  · obtain ⟨places, hplaces⟩ := Int.eq_ofNat_of_zero_le (show 0 ≤ d.point by omega)
    exact exists_writes_between h hplaces (by omega) (by omega) negative

end Positional

/-! ## Scientific texts -/

/-- A digit, perhaps more behind a point, and an exponent. -/
theorem writes_exponent {first : Char} {rest : List Char}
    (hdigits : ∀ c ∈ first :: rest, c.isDigit = true) (exponent : Int) (negative : Bool) :
    Numeral.Writes
      ⟨negative, [first], rest, decide (exponent < 0), Nat.toDigits 10 exponent.natAbs⟩ negative
      (first :: (Numeral.fractionChars rest ++ 'e' :: (if exponent < 0 then '-' else '+') ::
        Nat.toDigits 10 exponent.natAbs))
      (Numeral.digitsValue (first :: rest) * 10 ^ (exponent - rest.length)) where
  proper :=
    { nonempty := List.cons_ne_nil _ _
      lead := .inl rfl
      whole := fun c hc => hdigits c (List.mem_singleton.mp hc ▸ List.mem_cons_self)
      fraction := fun c hc => hdigits c (List.mem_cons_of_mem _ hc)
      exponent := Numeral.all_isDigit_toDigits _
      positive := fun hnil => absurd hnil Nat.toDigits_ne_nil }
  chars := by
    simp [Numeral.chars, Numeral.exponentChars_of_ne_nil _ Nat.toDigits_ne_nil]
  negative := rfl
  noInteger := by simp [Numeral.isInteger, Nat.toDigits_ne_nil]
  value := by
    have hexponent : (if decide (exponent < 0) = true then -(exponent.natAbs : Int)
        else exponent.natAbs) = exponent := by
      by_cases hbelow : exponent < 0
      · simp only [hbelow, decide_true, if_true]
        omega
      · simp only [hbelow, decide_false, Bool.false_eq_true, if_false]
        omega
    simp only [Numeral.value, Numeral.digitsValue_toDigits, hexponent, List.singleton_append]

theorem scientific_eq {d : Decimal} {first : Char} {rest : List Char}
    (h : d.digits = first :: rest) :
    scientific d = first :: (Numeral.fractionChars rest ++
      'e' :: (if d.point - 1 < 0 then '-' else '+') :: Nat.toDigits 10 (d.point - 1).natAbs) := by
  have htail : ∀ digits : List Char,
      (if d.point - 1 < 0 then ['e', '-'] else ['e', '+']) ++ digits =
        'e' :: (if d.point - 1 < 0 then '-' else '+') :: digits := by
    intro digits
    split <;> rfl
  cases rest with
  | nil => simp only [scientific, h, htail, Numeral.fractionChars, List.nil_append]
  | cons c rest => simp only [scientific, h, htail, Numeral.fractionChars, List.cons_append]

theorem exists_writes_scientific {d : Decimal} (h : d.Normal) (negative : Bool) :
    ∃ n : Numeral, n.Writes negative (scientific d) d.value := by
  cases hdigits : d.digits with
  | nil => exact absurd hdigits h.nonempty
  | cons first rest =>
    have hwrites := writes_exponent (hdigits ▸ h.digits) (d.point - 1) negative
    have hexponent : d.point - 1 - rest.length = d.point - d.digits.length := by
      rw [hdigits, List.length_cons]
      omega
    rw [hexponent, ← hdigits] at hwrites
    rw [scientific_eq hdigits]
    exact ⟨_, hwrites⟩

/-! ## The text of a double -/

def unsignedChars (d : Double) : List Char :=
  if d.isZero then ['0', '.', '0']
  else if -4 ≤ d.shortest.point ∧ d.shortest.point ≤ 16 then positional d.shortest
  else scientific d.shortest

theorem chars_eq (d : Double) :
    d.chars = (if d.negative then ['-'] else []) ++ d.unsignedChars := by
  simp only [chars, unsignedChars]
  split <;> rfl

/-- Zero rounds to the doubles of magnitude zero. -/
theorem covers_zero {d : Double} (h : d.isZero = true) : d.Covers 0 := by
  have hmag : d.magnitude = 0 := of_decide_eq_true h
  have heven : d.significand % 2 = 0 := by simp [significand, hmag]
  have hlow : d.interval.1 = 0 := by simp [interval_eq, lowAt, significandAt, hmag]
  rw [Covers, if_pos heven, hlow, zero_mul]
  exact ⟨le_of_eq Nat.cast_zero, Nat.cast_nonneg _⟩

theorem exists_writes_unsignedChars (d : Double) :
    ∃ (n : Numeral) (x : ℚ), n.Writes d.negative d.unsignedChars x ∧ d.Covers x := by
  unfold unsignedChars
  split
  · next hzero =>
    have hdigits : ∀ c ∈ ['0'] ++ ['0'], c.isDigit = true := List.all_eq_true.mp (by decide)
    have hwrites := writes_point (List.cons_ne_nil _ _) (.inl rfl) (List.cons_ne_nil _ _) hdigits
      d.negative
    refine ⟨_, _, hwrites, ?_⟩
    have hvalue : Numeral.digitsValue (['0'] ++ ['0']) = 0 := by decide
    rw [hvalue, Nat.cast_zero, zero_mul]
    exact covers_zero hzero
  · next hzero =>
    obtain ⟨hnormal, hcovers⟩ := shortest_covers (by simpa using hzero)
    split
    · obtain ⟨n, hn⟩ := exists_writes_positional hnormal d.negative
      exact ⟨n, _, hn, hcovers⟩
    · obtain ⟨n, hn⟩ := exists_writes_scientific hnormal d.negative
      exact ⟨n, _, hn, hcovers⟩

/-- **The text of a double is a numeral that rounds to the double.** It has the sign of the double,
and it shows a fraction or an exponent. -/
theorem exists_numeral (d : Double) :
    ∃ n : Numeral, Numeral.ofChars? d.chars = some n ∧ n.negative = d.negative ∧
      n.isInteger = false ∧ d.Covers n.value := by
  obtain ⟨n, x, hn, hx⟩ := d.exists_writes_unsignedChars
  refine ⟨n, ?_, hn.negative, hn.noInteger, hn.value ▸ hx⟩
  rw [chars_eq, ← hn.chars]
  exact Numeral.ofChars?_chars hn.proper

/-- Different doubles have different texts. -/
theorem chars_injective {a b : Double} (h : a.chars = b.chars) : a = b := by
  obtain ⟨m, hm, hsign, -, hcovers⟩ := a.exists_numeral
  obtain ⟨n, hn, hsign', -, hcovers'⟩ := b.exists_numeral
  rw [h, hn] at hm
  cases hm
  exact ext_magnitude (hsign.symm.trans hsign') (hcovers.magnitude_eq hcovers')

end Double

namespace Number

/-- Numbers are written with the characters of numerals, whether or not they read back. -/
theorem isNumeralChar_of_mem_chars (n : Number) :
    n.chars ≠ [] ∧ ∀ c ∈ n.chars, Scan.isNumeralChar c = true := by
  cases n with
  | natural n => exact (readsBack_natural n).isNumeralChar
  | negative n => exact (readsBack_negative n).isNumeralChar
  | double d =>
    obtain ⟨numeral, hnumeral, -⟩ := d.exists_numeral
    exact Numeral.isNumeralChar_of_ofChars? hnumeral

/-- The text of a double is not that of an integer. -/
theorem double_chars_ne {d : Double} {cs : List Char} {negative : Bool} {digits : List Char}
    (h : Numeral.ofChars? cs = some ⟨negative, digits, [], false, []⟩) : d.chars ≠ cs := by
  rintro rfl
  obtain ⟨numeral, hnumeral, -, hinteger, -⟩ := d.exists_numeral
  rw [hnumeral] at h
  cases h
  cases hinteger

/-- **Different numbers have different texts.** -/
theorem chars_injective {a b : Number} (h : a.chars = b.chars) : a = b := by
  have hread : ∀ {m n : Number}, m.ReadsBack → n.ReadsBack → m.chars = n.chars → m = n := by
    intro m n hm hn hchars
    rw [ReadsBack, hchars, hn] at hm
    exact (Option.some.inj hm).symm
  cases a with
  | natural m =>
    cases b with
    | natural n => exact hread (readsBack_natural m) (readsBack_natural n) h
    | negative n => exact hread (readsBack_natural m) (readsBack_negative n) h
    | double d => exact absurd h.symm (double_chars_ne (Numeral.ofChars?_toDigits m.toNat))
  | negative m =>
    cases b with
    | natural n => exact hread (readsBack_negative m) (readsBack_natural n) h
    | negative n => exact hread (readsBack_negative m) (readsBack_negative n) h
    | double d => exact absurd h.symm (double_chars_ne (Numeral.ofChars?_neg_toDigits (m.val + 1)))
  | double d =>
    cases b with
    | natural n => exact absurd h (double_chars_ne (Numeral.ofChars?_toDigits n.toNat))
    | negative n => exact absurd h (double_chars_ne (Numeral.ofChars?_neg_toDigits (n.val + 1)))
    | double e => rw [Double.chars_injective h]

end Number

end LiveDocs
