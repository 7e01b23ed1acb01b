import TokenStream.Proofs.JsonGrammar
import TokenStream.Proofs.ReadBack

/-!
# Numbers as JSON text

The text of a number in JSON is a numeral, behind which a power of ten may stand. As a decimal it
has the value of the shortest decimal of the number, so the number is the one nearest to it.

**Results** the JSON text of a finite number without a sign is a number of the grammar, and the
number nearest to it is that number again, bit for bit.
-/

namespace TokenStream
namespace Decimal

/-- The power of ten behind a numeral, none being the power of one. -/
def exponentOf : List Char → Int
  | 'e' :: '+' :: ds => digitsValue ds
  | 'e' :: '-' :: ds => -digitsValue ds
  | _ => 0

/-- The number nearest to a decimal text. -/
def nearest (cs : List Char) : Binary64 :=
  let numeral := Numeral.read cs
  let power := exponentOf (cs.drop numeral.spelling.length)
  let behind := numeral.fraction.getD []
  let scaled : Scaled := ⟨digitsValue (numeral.whole ++ behind), power - behind.length⟩
  Binary64.ofPattern false scaled.pattern

theorem nearest_append
    {n : Numeral} {tail : List Char}
    (hn : n.Lawful)
    (htail : ∀ a ∈ tail.head?, isDigit a = false ∧ (n.fraction = none → a ≠ '.')) :
    nearest (n.spelling ++ tail) =
      Binary64.ofPattern false (Binary64.patternOf (n.rational * 10 ^ exponentOf tail)) := by
  have hvalue : Scaled.value ⟨digitsValue (n.whole ++ n.fraction.getD []),
      exponentOf tail - (n.fraction.getD []).length⟩ = n.rational * 10 ^ exponentOf tail := by
    simp only [Scaled.value, Numeral.rational, Numeral.fractionOf, Nat.pow_eq]
    rw [zpow_sub₀ (by norm_num), zpow_natCast]
    push_cast
    ring
  simp only [nearest, Numeral.read_spelling_append hn htail, List.drop_left,
    Scaled.pattern_eq_patternOf, hvalue]

theorem exponentOf_intText (k : Int) :
    exponentOf ('e' :: intText true k) = k := by
  cases k with
  | ofNat m => simp [intText, exponentOf, digitsValue_natText]
  | negSucc m =>
      simp only [intText, exponentOf, digitsValue_natText]
      omega

/-- What may stand behind the numeral of a number. -/
inductive Tail : List Char → Prop
  | none : Tail []
  | power (k : Int) : Tail ('e' :: intText true k)

theorem Tail.head
    {tail : List Char}
    (h : Tail tail) :
    ∀ a ∈ tail.head?, isDigit a = false ∧ a ≠ '.' := by
  cases h with
  | none => nofun
  | power k =>
      rintro _ ⟨⟩
      decide

/-- Only zero is written with a zero in front. -/
theorem head_natText_ne_zero
    {n : Nat} {a : Char} {rest : List Char}
    (hn : n ≠ 0)
    (h : natText n = a :: rest) :
    a ≠ '0' := by
  induction n using Nat.strongRecOn generalizing rest with
  | ind n ih =>
      unfold natText at h ih
      by_cases hsmall : n < 10
      · rw [Nat.toDigits_of_lt_base hsmall] at h
        obtain ⟨rfl, -⟩ := List.cons.inj h
        interval_cases n
        · exact absurd rfl hn
        all_goals decide
      · obtain ⟨b, bs, hb⟩ := List.exists_cons_of_ne_nil (natText_ne_nil (n / 10))
        unfold natText at hb
        rw [Nat.toDigits_of_base_le (by decide) (by omega), hb] at h
        obtain ⟨rfl, -⟩ := List.cons.inj h
        exact ih (n / 10) (by omega) (by omega) hb

theorem natText_eq_cons (n : Nat) :
    ∃ a rest, natText n = a :: rest ∧ isDigit a = true ∧ ∀ c ∈ rest, isDigit c = true := by
  obtain ⟨a, rest, hcons⟩ := List.exists_cons_of_ne_nil (natText_ne_nil n)
  have hdigits : ∀ c ∈ natText n, isDigit c = true := fun c => isDigit_of_mem_natText
  rw [hcons] at hdigits
  exact ⟨a, rest, hcons, List.forall_mem_cons.mp hdigits⟩

/-- A whole number in positional form is a numeral with a zero behind its point. -/
theorem exists_numeral_pointZero (coefficient k : Nat) :
    ∃ n : Numeral, n.Lawful ∧ n.spelling = positionalText true (natText coefficient) k ∧
      n.rational = coefficient * 10 ^ (k : Int) := by
  have hdigits : ∀ c ∈ natText coefficient ++ List.replicate k '0', isDigit c = true := by
    intro c hc
    rcases List.mem_append.mp hc with hc | hc
    · exact isDigit_of_mem_natText hc
    · exact isDigit_of_mem_zeros hc
  have hzeros : natText coefficient ++ List.replicate k '0' ++ ['0'] =
      natText coefficient ++ List.replicate (k + 1) '0' := by
    rw [List.append_assoc, ← List.replicate_succ']
  refine ⟨⟨natText coefficient ++ List.replicate k '0', some ['0']⟩,
    ⟨by simp [natText_ne_nil], hdigits, by rintro _ ⟨⟩; simp [isDigit]⟩, ?_, ?_⟩
  · simp [positionalText, Numeral.spelling]
  · simp only [Numeral.rational, Numeral.fractionOf, Option.getD_some, hzeros,
      digitsValue_append_zeros, digitsValue_natText]
    norm_num
    ring

/-- With an exponent the digits are a numeral with at most one digit in front of its point. -/
theorem exists_numeral_exponentText (coefficient : Nat) (exponent : Int) :
    ∃ n : Numeral, ∃ k : Int, n.Lawful ∧
      exponentText true (natText coefficient)
        (exponent + ((natText coefficient).length : Int) - 1) =
          n.spelling ++ 'e' :: intText true k ∧
      n.rational * 10 ^ k = coefficient * 10 ^ exponent := by
  obtain ⟨a, rest, hcons, ha, hrest⟩ := natText_eq_cons coefficient
  have hvalue := digitsValue_natText coefficient
  rw [hcons] at hvalue
  cases rest with
  | nil =>
      refine ⟨⟨[a], none⟩, exponent, ⟨by simp, by simpa using ha, by simp⟩, ?_, ?_⟩
      · simp [hcons, exponentText, Numeral.spelling]
      · simp [Numeral.rational, Numeral.fractionOf, hvalue]
  | cons b rest =>
      have hleading : exponent + ((a :: b :: rest).length : Int) - 1 =
          exponent + (b :: rest).length := by
        simp only [List.length_cons]
        push_cast
        ring
      refine ⟨⟨[a], some (b :: rest)⟩, exponent + (b :: rest).length,
        ⟨by simp, by simpa using ha, ?_⟩, ?_, ?_⟩
      · rintro _ ⟨⟩
        exact hrest
      · rw [hcons, hleading]
        simp [exponentText, Numeral.spelling]
      · rw [zpow_add₀ (by norm_num), zpow_natCast]
        simp only [Numeral.rational, Numeral.fractionOf, Option.getD_some, List.singleton_append,
          hvalue, Nat.pow_eq]
        push_cast
        field_simp

/-- The digits of a decimal with a point and perhaps a power of ten have its value. -/
theorem exists_numeral_digitsText (d : Scaled) :
    ∃ n : Numeral, ∃ tail, n.Lawful ∧ Tail tail ∧
      Layout.json.digitsText d = n.spelling ++ tail ∧
      n.rational * 10 ^ exponentOf tail = d.value := by
  obtain ⟨coefficient, exponent⟩ := d
  simp only [Layout.digitsText]
  split
  · by_cases hexponent : 0 ≤ exponent
    · obtain ⟨k, rfl⟩ := Int.eq_ofNat_of_zero_le hexponent
      obtain ⟨n, hlawful, hspelling, hrational⟩ := exists_numeral_pointZero coefficient k
      exact ⟨n, [], hlawful, .none, by simp [hspelling, Layout.json],
        by simpa [exponentOf, Scaled.value] using hrational⟩
    · obtain ⟨n, hlawful, hspelling, hrational⟩ :=
        exists_numeral_positionalText coefficient exponent
      refine ⟨n, [], hlawful, .none, ?_, ?_⟩
      · simp only [hspelling, positionalText, if_neg hexponent, List.append_nil]
      · simpa [exponentOf, Scaled.value] using hrational
  · obtain ⟨n, k, hlawful, htext, hrational⟩ := exists_numeral_exponentText coefficient exponent
    refine ⟨n, _, hlawful, .power k, htext, ?_⟩
    rw [exponentOf_intText, hrational]
    rfl

section Form

open Json

theorem digits_natText (n : Nat) : Digits (natText n) :=
  ⟨natText_ne_nil n, fun _ => isDigit_of_mem_natText⟩

theorem digits_zeros_append
    {ds : List Char}
    (h : Digits ds)
    (k : Nat) :
    Digits (List.replicate k '0' ++ ds) := by
  refine ⟨by simp [h.1], ?_⟩
  intro c hc
  rcases List.mem_append.mp hc with hc | hc
  · exact isDigit_of_mem_zeros hc
  · exact h.2 c hc

/-- The text of a number that is not zero, cut off somewhere or with more digits behind it. -/
theorem isWhole_of_head_natText
    {n : Nat} {a : Char} {ds rest : List Char}
    (hn : n ≠ 0)
    (h : natText n = a :: rest)
    (hds : ∀ c ∈ ds, isDigit c = true) :
    IsWhole (a :: ds) := by
  have ha : isDigit a = true := isDigit_of_mem_natText (n := n) (by simp [h])
  exact .digits (head_natText_ne_zero hn h) ⟨by simp, List.forall_mem_cons.mpr ⟨ha, hds⟩⟩

theorem isExponent_power (k : Int) :
    IsExponent ('e' :: intText true k) := by
  have he : 'e' = 'e' ∨ 'e' = 'E' := .inl rfl
  cases k with
  | ofNat m => exact .mark he (.inr (.inl rfl)) (digits_natText m)
  | negSucc m => exact .mark he (.inr (.inr rfl)) (digits_natText (m + 1))

/-- In positional form there are digits on both sides of the point. -/
theorem isUnsigned_positionalText
    {coefficient : Nat} {exponent : Int}
    (hzero : coefficient = 0 → exponent = 0) :
    IsUnsigned (positionalText true (natText coefficient) exponent) := by
  obtain ⟨a, rest, hcons, -, hrest⟩ := natText_eq_cons coefficient
  unfold positionalText
  split
  · have hpoint : IsFraction ['.', '0'] :=
      .point ⟨by simp, List.forall_mem_singleton.mpr (by decide)⟩
    refine .parts ?_ hpoint .none
    by_cases hcoefficient : coefficient = 0
    · rw [hcoefficient, hzero hcoefficient]
      exact .zero
    · rw [hcons, List.cons_append]
      refine isWhole_of_head_natText hcoefficient hcons ?_
      intro c hc
      rcases List.mem_append.mp hc with hc | hc
      · exact hrest c hc
      · exact isDigit_of_mem_zeros hc
  · next hexponent =>
      have hcoefficient : coefficient ≠ 0 := by
        intro h
        rw [hzero h] at hexponent
        exact hexponent le_rfl
      dsimp only
      split
      · next hshort =>
          set cut := (natText coefficient).length - exponent.natAbs with hcut
          have hbehind : Digits ((natText coefficient).drop cut) := by
            refine ⟨?_, fun c hc => isDigit_of_mem_natText (List.mem_of_mem_drop hc)⟩
            rw [← List.length_pos_iff, List.length_drop]
            omega
          have hwhole : IsWhole ((natText coefficient).take cut) := by
            obtain ⟨k, hk⟩ : ∃ k, cut = k + 1 := ⟨cut - 1, by omega⟩
            rw [hk, hcons, List.take_succ_cons]
            exact isWhole_of_head_natText hcoefficient hcons
              fun c hc => hrest c (List.mem_of_mem_take hc)
          simpa using IsUnsigned.parts hwhole (.point hbehind) .none
      · have hbehind := digits_zeros_append (digits_natText coefficient)
          (exponent.natAbs - (natText coefficient).length)
        simpa using IsUnsigned.parts .zero (.point hbehind) .none

theorem isUnsigned_digitsText
    {d : Scaled}
    (hzero : d.coefficient = 0 → d.exponent = 0) :
    IsUnsigned (Layout.json.digitsText d) := by
  obtain ⟨a, rest, hcons, -, hrest⟩ := natText_eq_cons d.coefficient
  simp only [Layout.digitsText]
  split
  · exact isUnsigned_positionalText hzero
  · next hpositional =>
      have hcoefficient : d.coefficient ≠ 0 := by
        intro h
        simp [h] at hpositional
      have hwhole : IsWhole [a] := isWhole_of_head_natText hcoefficient hcons (by simp)
      rw [hcons]
      cases rest with
      | nil => exact .parts hwhole .none (isExponent_power _)
      | cons b rest =>
          have hpoint : IsFraction ('.' :: b :: rest) := .point ⟨by simp, hrest⟩
          exact .parts hwhole hpoint (isExponent_power _)

end Form

/-- The JSON text of a finite number without a sign is a number of the grammar. -/
theorem isNumber_json
    {x : Binary64}
    (hnan : x.isNaN = false)
    (hinfinite : x.isInfinite = false)
    (hnegative : x.negative = false) :
    Json.IsNumber (Layout.json.text x) := by
  obtain ⟨d, htext, -, hzero⟩ := exists_shortest .json hnan hinfinite hnegative
  rw [htext]
  exact .positive (isUnsigned_digitsText hzero)

/-- The number nearest to the JSON text of a finite number without a sign is this number. -/
theorem nearest_json
    {x : Binary64}
    (hnan : x.isNaN = false)
    (hinfinite : x.isInfinite = false)
    (hnegative : x.negative = false) :
    nearest (Layout.json.text x) = x := by
  obtain ⟨d, htext, hvalue, -⟩ := exists_shortest .json hnan hinfinite hnegative
  obtain ⟨n, tail, hlawful, htail, hdigits, hrational⟩ := exists_numeral_digitsText d
  have hhead : ∀ a ∈ tail.head?, isDigit a = false ∧ (n.fraction = none → a ≠ '.') := by
    intro a ha
    exact ⟨(htail.head a ha).1, fun _ => (htail.head a ha).2⟩
  rw [htext, hdigits, nearest_append hlawful hhead, hrational]
  exact hvalue

end Decimal
end TokenStream
