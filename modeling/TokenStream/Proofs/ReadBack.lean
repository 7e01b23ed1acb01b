import TokenStream.Decimal.Layout
import TokenStream.Proofs.Rounding
import TokenStream.Proofs.Spelling

/-!
# Reading numbers back

The decimal that is found for a number rounds to that number, and its text in positional form is a
numeral with the value of the decimal.

**Results** the plain text of a finite number without a sign is a lawful numeral, and the value of
that numeral is the number again, bit for bit.
-/

namespace TokenStream

namespace Binary64

/-- A finite number is its mantissa and its exponent side by side. -/
theorem joined_of_kind_eq_finite
    {x : Binary64} {negative : Bool} {mantissa : Nat} {exponent : Int}
    (h : x.kind = .finite negative mantissa exponent) :
    Canonical mantissa exponent ∧ joined mantissa exponent = x.magnitude ∧
      x.magnitude < infinityPattern := by
  have hfraction : x.magnitude % fractionRange < fractionRange := Nat.mod_lt _ (by decide)
  have hsplit : x.magnitude / fractionRange * fractionRange + x.magnitude % fractionRange =
      x.magnitude := Nat.div_add_mod' _ _
  have hfield : x.magnitude / fractionRange < 2048 := by
    have hlt : x.magnitude < signPattern := Nat.mod_lt _ (by decide)
    rw [Nat.div_lt_iff_lt_mul (by decide)]
    exact hlt
  simp only [kind] at h
  generalize x.magnitude / fractionRange = field at *
  generalize x.magnitude % fractionRange = fraction at *
  have hmagnitude : field ≠ 2047 → x.magnitude < infinityPattern := by
    intro hne
    have hle := Nat.mul_le_mul_right fractionRange (show field + 1 ≤ 2047 by omega)
    rw [Nat.succ_mul] at hle
    unfold infinityPattern
    omega
  split at h
  · split at h <;> cases h
  · next hne =>
      split at h
      · next hzero =>
          obtain ⟨rfl, rfl, rfl⟩ := Kind.finite.inj h
          refine ⟨⟨le_refl _, by omega, Or.inl rfl⟩, ?_, hmagnitude hne⟩
          simp only [joined, sub_self, Int.toNat_zero, zero_mul, zero_add]
          rw [hzero, zero_mul] at hsplit
          omega
      · next hpos =>
          obtain ⟨rfl, rfl, rfl⟩ := Kind.finite.inj h
          refine ⟨⟨by omega, by omega, Or.inr (Nat.le_add_right _ _)⟩, ?_, hmagnitude hne⟩
          rw [show field = field - 1 + 1 by omega, Nat.succ_mul] at hsplit
          simp only [joined, add_sub_cancel_left, Int.toNat_natCast]
          omega

theorem magnitude_lt_infinityPattern
    {x : Binary64}
    (hnan : x.isNaN = false)
    (hinfinite : x.isInfinite = false) :
    x.magnitude < infinityPattern := by
  simp only [isNaN, decide_eq_false_iff_not, not_lt] at hnan
  simp only [isInfinite, beq_eq_false_iff_ne] at hinfinite
  omega

theorem exists_kind_eq_finite
    {x : Binary64}
    (h : x.magnitude < infinityPattern) :
    ∃ mantissa exponent, x.kind = .finite x.negative mantissa exponent := by
  have hfield : x.magnitude / fractionRange ≠ 2047 := by
    have hlt : x.magnitude / fractionRange < 2047 :=
      (Nat.div_lt_iff_lt_mul (by decide)).mpr h
    omega
  simp only [kind, hfield, if_false]
  split
  · exact ⟨_, _, rfl⟩
  · exact ⟨_, _, rfl⟩

theorem ofPattern_magnitude (x : Binary64) :
    ofPattern x.negative x.magnitude = x := by
  obtain ⟨bits⟩ := x
  have hlt : bits.toNat < 2 ^ 64 := bits.toNat_lt
  simp only [ofPattern, negative, magnitude, signPattern, Nat.pow_eq, mk.injEq,
    ← UInt64.toNat_inj, UInt64.toNat_ofNat']
  by_cases hsign : 2 ^ 63 ≤ bits.toNat <;> simp only [hsign] <;> simp <;> omega

theorem toNat_bits_ofPattern
    {pattern : Nat}
    (h : pattern ≤ infinityPattern) :
    (ofPattern false pattern).bits.toNat = pattern := by
  have hlt : pattern < 2 ^ 64 := lt_of_le_of_lt h (by decide)
  simp only [ofPattern, Bool.false_eq_true, if_false, add_zero, UInt64.toNat_ofNat']
  exact Nat.mod_eq_of_lt hlt

theorem isNaN_ofPattern
    {pattern : Nat}
    (h : pattern ≤ infinityPattern) :
    (ofPattern false pattern).isNaN = false := by
  have hlt : pattern < signPattern := lt_of_le_of_lt h (by decide)
  simp only [isNaN, magnitude, toNat_bits_ofPattern h, Nat.mod_eq_of_lt hlt,
    decide_eq_false_iff_not]
  omega

theorem negative_ofPattern
    {pattern : Nat}
    (h : pattern ≤ infinityPattern) :
    (ofPattern false pattern).negative = false := by
  have hlt : pattern < signPattern := lt_of_le_of_lt h (by decide)
  simp only [negative, toNat_bits_ofPattern h, decide_eq_false_iff_not]
  omega

end Binary64

namespace Decimal

/-- The rational number that a decimal denotes. -/
def Scaled.value (d : Scaled) : ℚ :=
  d.coefficient * 10 ^ d.exponent

theorem powerOfTen_den_pos (k : Int) : 0 < (powerOfTen k).2 := by
  cases k with
  | ofNat n => exact Nat.one_pos
  | negSucc n => exact Nat.pow_pos (by decide)

theorem powerOfTen_ratio (k : Int) :
    ((powerOfTen k).1 : ℚ) / (powerOfTen k).2 = 10 ^ k := by
  cases k with
  | ofNat n => simp [powerOfTen]
  | negSucc n => simp [powerOfTen, zpow_negSucc]

theorem Scaled.pattern_eq_patternOf (d : Scaled) :
    d.pattern = Binary64.patternOf d.value := by
  have hratio : (d.fraction.1 : ℚ) / d.fraction.2 = d.value := by
    simp only [fraction, value, Nat.cast_mul, mul_div_assoc, powerOfTen_ratio]
  have hden : 0 < d.fraction.2 := powerOfTen_den_pos d.exponent
  rw [pattern, Binary64.roundPattern_eq_patternOf _ hden, hratio]

/-- A neighbour is taken only if it rounds to the same pattern. -/
theorem pattern_of_neighbour?
    {tie : Tie} {num den : Nat} {k : Int} {d : Scaled}
    (h : neighbour? tie num den k = some d) :
    d.pattern = Binary64.roundPattern num den := by
  simp only [neighbour?] at h
  split at h
  · cases h
  · next hbelow _ =>
      cases h
      exact of_decide_eq_true hbelow
  · next _ habove =>
      cases h
      exact of_decide_eq_true habove
  · next hbelow habove =>
      split at h <;> cases h
      · exact of_decide_eq_true hbelow
      · exact of_decide_eq_true habove

theorem value_exactly (mantissa : Nat) (exponent : Int) :
    (exactly mantissa exponent).value = mantissa * 2 ^ exponent := by
  cases exponent with
  | ofNat n => simp [exactly, Scaled.value]
  | negSucc n =>
      have hten : (10 : ℚ) ^ (n + 1) = 2 ^ (n + 1) * 5 ^ (n + 1) := by
        rw [← mul_pow]
        norm_num
      simp only [exactly, Nat.pow_eq, Scaled.value, zpow_negSucc, hten]
      push_cast
      field_simp

theorem stripZeros_mul (n : Nat) :
    (stripZeros n).1 * 10 ^ (stripZeros n).2 = n := by
  fun_induction stripZeros n with
  | case1 n h m zeros heq ih =>
      rw [heq] at ih
      simp only [pow_succ]
      rw [← mul_assoc, ih]
      omega
  | case2 n h => simp

theorem Scaled.value_normalize (d : Scaled) :
    d.normalize.value = d.value := by
  have hstrip : ((stripZeros d.coefficient).1 : ℚ) * 10 ^ (stripZeros d.coefficient).2 =
      d.coefficient := by
    exact_mod_cast stripZeros_mul d.coefficient
  simp only [normalize, value]
  rw [zpow_add₀ (by norm_num), zpow_natCast, mul_comm ((10 : ℚ) ^ d.exponent), ← mul_assoc,
    hstrip]

/-- The shortest decimal of a number rounds as the number does. -/
theorem patternOf_shortest (tie : Tie) (mantissa : Nat) (exponent : Int) :
    Binary64.patternOf (shortest tie mantissa exponent).value =
      Binary64.patternOf (mantissa * 2 ^ exponent) := by
  unfold shortest
  split
  · next hzero => simp [Scaled.value, hzero]
  · simp only [Scaled.value_normalize]
    set fraction := Binary64.scale mantissa 1 exponent with hfraction
    have hratio : (fraction.1 : ℚ) / fraction.2 = mantissa * 2 ^ exponent := by
      rw [hfraction, Binary64.scale_ratio, Nat.cast_one, div_one]
    cases hfound : List.findSome? (neighbour? tie fraction.1 fraction.2)
        ((List.range 17).map fun (n : Nat) => floorLog10 fraction.1 fraction.2 - n) with
    | none => rw [Option.getD_none, value_exactly]
    | some d =>
        obtain ⟨k, _, hk⟩ := List.exists_of_findSome?_eq_some hfound
        have hpattern := pattern_of_neighbour? hk
        have hden : 0 < fraction.2 := Binary64.scale_den_pos exponent Nat.one_pos
        rw [Binary64.roundPattern_eq_patternOf _ hden, hratio] at hpattern
        rw [Option.getD_some, ← Scaled.pattern_eq_patternOf, hpattern]

theorem digitsValue_eq_ofDigitChars (cs : List Char) :
    digitsValue cs = Nat.ofDigitChars 10 cs 0 := rfl

theorem digitsValue_natText (n : Nat) :
    digitsValue (natText n) = n :=
  Nat.ofDigitChars_ten_toDigits

theorem digitsValue_append_zeros (cs : List Char) (k : Nat) :
    digitsValue (cs ++ List.replicate k '0') = digitsValue cs * 10 ^ k := by
  simp only [digitsValue_eq_ofDigitChars, Nat.ofDigitChars_append,
    Nat.ofDigitChars_replicate_zero, Nat.mul_comm]

theorem digitsValue_zeros_append (cs : List Char) (k : Nat) :
    digitsValue (List.replicate k '0' ++ cs) = digitsValue cs := by
  simp only [digitsValue_eq_ofDigitChars, Nat.ofDigitChars_append,
    Nat.ofDigitChars_replicate_zero, Nat.mul_zero]

theorem isDigit_of_mem_natText
    {n : Nat} {c : Char}
    (h : c ∈ natText n) :
    isDigit c = true := by
  have hdigit : c.isDigit = true := Nat.isDigit_of_mem_toDigits (by decide) (by decide) h
  simpa [isDigit, Char.isDigit, Char.le_def] using hdigit

theorem isDigit_of_mem_zeros
    {k : Nat} {c : Char}
    (h : c ∈ List.replicate k '0') :
    isDigit c = true := by
  rw [List.eq_of_mem_replicate h]
  decide

theorem natText_ne_nil (n : Nat) : natText n ≠ [] :=
  Nat.toDigits_ne_nil

namespace Numeral

/-- The rational number that a numeral denotes. -/
def rational (n : Numeral) : ℚ :=
  (n.fractionOf.1 : ℚ) / n.fractionOf.2

theorem value_eq_ofPattern (n : Numeral) :
    n.value = Binary64.ofPattern false (Binary64.patternOf n.rational) := by
  have hden : 0 < n.fractionOf.2 := Nat.pow_pos (by decide)
  rw [value, Binary64.ofFraction, Binary64.roundPattern_eq_patternOf _ hden]
  rfl

end Numeral

/-- A text in positional form is a numeral with the value of the decimal. -/
theorem exists_numeral_positionalText (coefficient : Nat) (exponent : Int) :
    ∃ n : Numeral, n.Lawful ∧
      n.spelling = positionalText false (natText coefficient) exponent ∧
      n.rational = coefficient * 10 ^ exponent := by
  have hdigits : ∀ c ∈ natText coefficient, isDigit c = true := fun c => isDigit_of_mem_natText
  unfold positionalText
  split
  · next hexponent =>
      refine ⟨⟨natText coefficient ++ List.replicate exponent.toNat '0', none⟩, ⟨?_, ?_, ?_⟩,
        ?_, ?_⟩
      · simp [natText_ne_nil]
      · intro c hc
        rcases List.mem_append.mp hc with hc | hc
        · exact hdigits c hc
        · exact isDigit_of_mem_zeros hc
      · simp
      · simp [Numeral.spelling]
      · obtain ⟨k, rfl⟩ := Int.eq_ofNat_of_zero_le hexponent
        simp [Numeral.rational, Numeral.fractionOf, digitsValue_append_zeros,
          digitsValue_natText]
  · next hexponent =>
      obtain ⟨k, hk⟩ : ∃ k : Nat, exponent = -(k : Int) := ⟨exponent.natAbs, by omega⟩
      have hnatAbs : exponent.natAbs = k := by omega
      simp only [hnatAbs]
      split
      · next hshort =>
          set cut := (natText coefficient).length - k with hcut
          have hlength : ((natText coefficient).drop cut).length = k := by
            rw [List.length_drop]
            omega
          refine ⟨⟨(natText coefficient).take cut, some ((natText coefficient).drop cut)⟩,
            ⟨?_, ?_, ?_⟩, rfl, ?_⟩
          · rw [← List.length_pos_iff, List.length_take]
            omega
          · exact fun c hc => hdigits c (List.mem_of_mem_take hc)
          · rintro digits ⟨⟩ c hc
            exact hdigits c (List.mem_of_mem_drop hc)
          · simp [Numeral.rational, Numeral.fractionOf, digitsValue_natText, hlength, hk,
              div_eq_mul_inv]
      · next hlong =>
          have hlength : (List.replicate (k - (natText coefficient).length) '0' ++
              natText coefficient).length = k := by
            rw [List.length_append, List.length_replicate]
            omega
          refine ⟨⟨['0'], some (List.replicate (k - (natText coefficient).length) '0' ++
            natText coefficient)⟩, ⟨by simp, by simp; decide, ?_⟩, rfl, ?_⟩
          · rintro digits ⟨⟩ c hc
            rcases List.mem_append.mp hc with hc | hc
            · exact isDigit_of_mem_zeros hc
            · exact hdigits c hc
          · have hvalue := digitsValue_zeros_append (natText coefficient)
              (k - (natText coefficient).length + 1)
            rw [List.replicate_succ, List.cons_append, digitsValue_natText] at hvalue
            simp [Numeral.rational, Numeral.fractionOf, hlength, hvalue, hk, div_eq_mul_inv]

/-- The decimal whose digits are written for a finite number without a sign rounds to this number;
only zero has no digits. -/
theorem exists_shortest
    {x : Binary64}
    (layout : Layout)
    (hnan : x.isNaN = false)
    (hinfinite : x.isInfinite = false)
    (hnegative : x.negative = false) :
    ∃ d : Scaled, layout.text x = layout.digitsText d ∧
      Binary64.ofPattern false (Binary64.patternOf d.value) = x ∧
      (d.coefficient = 0 → d.exponent = 0) := by
  obtain ⟨mantissa, exponent, hkind⟩ := Binary64.exists_kind_eq_finite
    (Binary64.magnitude_lt_infinityPattern hnan hinfinite)
  obtain ⟨hcanonical, hjoined, hfinite⟩ := Binary64.joined_of_kind_eq_finite hkind
  set d := shortest layout.tie mantissa exponent with hd
  have hpattern : Binary64.patternOf d.value = x.magnitude := by
    calc Binary64.patternOf d.value
        = Binary64.patternOf (mantissa * 2 ^ exponent) :=
          patternOf_shortest layout.tie mantissa exponent
      _ = Binary64.joined mantissa exponent :=
          Binary64.patternOf_canonical hcanonical (hjoined ▸ hfinite)
      _ = x.magnitude := hjoined
  refine ⟨d, by simp [Layout.text, hkind, hnegative, hd], ?_, ?_⟩
  · rw [hpattern, ← hnegative, Binary64.ofPattern_magnitude]
  · intro hzero
    have hmagnitude : Binary64.joined mantissa exponent = 0 := by
      rw [hjoined, ← hpattern]
      simp [Scaled.value, hzero, Binary64.patternOf]
    have hmantissa : mantissa = 0 := (Nat.add_eq_zero_iff.mp hmagnitude).2
    simp [hd, shortest, hmantissa]

/-- The plain text of a finite number without a sign is a numeral that has this number as its
value. -/
theorem exists_numeral_plain
    {x : Binary64}
    (hnan : x.isNaN = false)
    (hinfinite : x.isInfinite = false)
    (hnegative : x.negative = false) :
    ∃ n : Numeral, n.Lawful ∧ n.spelling = Layout.plain.text x ∧ n.value = x := by
  obtain ⟨d, htext, hvalue, -⟩ := exists_shortest .plain hnan hinfinite hnegative
  obtain ⟨n, hlawful, hspelling, hrational⟩ :=
    exists_numeral_positionalText d.coefficient d.exponent
  refine ⟨n, hlawful, ?_, ?_⟩
  · rw [hspelling, htext]
    simp [Layout.digitsText, Layout.plain]
  · rw [Numeral.value_eq_ofPattern, hrational]
    exact hvalue

end Decimal
end TokenStream
