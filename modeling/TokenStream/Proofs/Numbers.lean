import TokenStream.Proofs.Failure
import TokenStream.Proofs.Nearest

/-!
# Numbers in a text

A search in front of a digit finds a number. It takes the longest front part that is a numeral, and
the number is the one nearest to the rational number that this numeral denotes.

**Results** there is one longest numeral; zeros in front of it and zeros behind its point do not
change what it denotes; and every parser of numbers that rounds to the nearest one finds the same
number.
-/

namespace TokenStream

namespace Decimal

theorem digitsValue_append (cs ds : List Char) :
    digitsValue (cs ++ ds) = digitsValue cs * 10 ^ ds.length + digitsValue ds := by
  induction ds using List.reverseRecOn with
  | nil => simp
  | append_singleton ds d ih =>
      rw [← List.append_assoc, digitsValue_concat, digitsValue_concat, ih, List.length_append,
        List.length_singleton, pow_succ]
      ring

namespace Numeral

/-- The digits behind the point, of which there are none without a point. -/
def behind (n : Numeral) : List Char :=
  n.fraction.getD []

/-- The numeral is the longest one in front of a text. -/
structure Ahead (n : Numeral) (text rest : List Char) : Prop where
  lawful : n.Lawful
  text_eq : text = n.spelling ++ rest
  longest : ∀ m back, Lawful m → text = m.spelling ++ back →
    m.spelling.length ≤ n.spelling.length

/-- The second numeral is the first one with more zeros: in front of it, and behind its point,
which may be written for them. -/
inductive Padded (n : Numeral) : Numeral → Prop
  | front (i : Nat) :
      Padded n ⟨List.replicate i '0' ++ n.whole, n.fraction⟩
  | pointed (i j : Nat) :
      Padded n ⟨List.replicate i '0' ++ n.whole, some (n.behind ++ List.replicate j '0')⟩

/-- A numeral denotes its whole part and, behind the point, so many parts of a power of ten. -/
theorem rational_eq (n : Numeral) :
    n.rational = digitsValue n.whole + digitsValue n.behind / 10 ^ n.behind.length := by
  have hten : (10 : ℚ) ^ n.behind.length ≠ 0 := by positivity
  have hvalue : n.fractionOf.1 =
      digitsValue n.whole * 10 ^ n.behind.length + digitsValue n.behind :=
    digitsValue_append n.whole n.behind
  have hden : n.fractionOf.2 = 10 ^ n.behind.length := rfl
  rw [rational, hvalue, hden]
  push_cast
  field_simp

theorem rational_nonneg (n : Numeral) : 0 ≤ n.rational := by
  unfold rational
  positivity

theorem Padded.rational_eq
    {n m : Numeral}
    (h : Padded n m) :
    m.rational = n.rational := by
  rw [Numeral.rational_eq, Numeral.rational_eq]
  cases h with
  | front i =>
      simp only [behind, digitsValue_zeros_append]
  | pointed i j =>
      have hten : (10 : ℚ) ^ j ≠ 0 := by positivity
      simp only [behind, Option.getD_some, digitsValue_zeros_append, digitsValue_append_zeros,
        List.length_append, List.length_replicate]
      push_cast
      rw [pow_add, mul_div_mul_right _ _ hten]

/-- A numeral is rounded to the nearest number. -/
theorem isNearest_value (n : Numeral) : Binary64.IsNearest n.rational n.value := by
  rw [value_eq_ofPattern]
  exact Binary64.isNearest_patternOf n.rational_nonneg

theorem read_spelling
    {n : Numeral}
    (h : n.Lawful) :
    read n.spelling = n := by
  have hread : read (n.spelling ++ []) = n := read_spelling_append h (by simp)
  rwa [List.append_nil] at hread

/-- A run of digits in front of a text is no longer than the longest one. -/
theorem length_le_takeWhile
    {digits : List Char}
    (h : ∀ c ∈ digits, isDigit c = true)
    (back : List Char) :
    digits.length ≤ ((digits ++ back).takeWhile isDigit).length := by
  rw [List.takeWhile_append_of_pos h, List.length_append]
  exact Nat.le_add_right _ _

theorem length_whole_le (n : Numeral) : n.whole.length ≤ n.spelling.length := by
  unfold spelling
  split <;> simp

/-- What is read is no shorter than any numeral in front of the text. -/
theorem length_spelling_le_read
    {m : Numeral}
    (h : m.Lawful)
    (back : List Char) :
    m.spelling.length ≤ (read (m.spelling ++ back)).spelling.length := by
  obtain ⟨whole, fraction⟩ := m
  cases fraction with
  | none =>
      have hwhole : (read (whole ++ back)).whole = (whole ++ back).takeWhile isDigit := by
        unfold read
        split <;> rfl
      calc whole.length
          ≤ ((whole ++ back).takeWhile isDigit).length := length_le_takeWhile h.whole_digits back
        _ = (read (whole ++ back)).whole.length := by rw [hwhole]
        _ ≤ (read (whole ++ back)).spelling.length := length_whole_le _
  | some digits =>
      have hstop : ∀ a ∈ ('.' :: (digits ++ back)).head?, isDigit a = false := by
        rintro a ⟨⟩
        decide
      have hread : read (whole ++ '.' :: (digits ++ back)) =
          ⟨whole, some ((digits ++ back).takeWhile isDigit)⟩ := by
        simp only [read, takeWhile_append_of_stop h.whole_digits hstop,
          dropWhile_append_of_stop h.whole_digits hstop]
      have hdigits := length_le_takeWhile (h.fraction_digits digits rfl) back
      simp only [spelling, List.append_assoc, List.cons_append, hread, List.length_append,
        List.length_cons]
      omega

/-- What is read in front of a text that starts with a digit is the longest numeral there. -/
theorem exists_ahead_read
    {a : Char}
    (r : List Char)
    (ha : isDigit a = true) :
    ∃ rest, (read (a :: r)).Ahead (a :: r) rest := by
  obtain ⟨rest, hrest⟩ := exists_eq_spelling_append (a :: r)
  refine ⟨rest, lawful_read ha, hrest, ?_⟩
  intro m back hm htext
  rw [htext]
  exact length_spelling_le_read hm back

theorem Ahead.eq_read
    {n : Numeral} {a : Char} {r rest : List Char}
    (h : n.Ahead (a :: r) rest)
    (ha : isDigit a = true) :
    n = read (a :: r) := by
  obtain ⟨back, hback⟩ := exists_ahead_read r ha
  have hlength : n.spelling.length = (read (a :: r)).spelling.length :=
    le_antisymm (hback.longest n rest h.lawful h.text_eq)
      (h.longest _ back hback.lawful hback.text_eq)
  have hspelling : n.spelling = (read (a :: r)).spelling :=
    (List.append_inj (h.text_eq.symm.trans hback.text_eq) hlength).1
  rw [← read_spelling h.lawful, hspelling, read_spelling hback.lawful]

end Numeral
end Decimal

namespace Cursor

open Decimal

variable {c : Cursor} {n : Numeral} {rest : List Char}

/-- The longest numeral ahead is taken, and its number is found. -/
theorem scan_of_ahead
    (h : n.Ahead c.rest rest) :
    c.scan.outcome = .ok (some (.number n.value)) ∧
      c.scan.cursor = c.skip n.spelling.length := by
  obtain ⟨a, r, hspelling, ha⟩ := h.lawful.spelling_eq_cons
  have hrest : c.rest = a :: (r ++ rest) := by rw [h.text_eq, hspelling, List.cons_append]
  have htrivia : c.skipTrivia = ([], c) := by
    apply skipTrivia_eq_self
    rw [hrest]
    rintro b ⟨⟩
    exact opensTrivia_eq_false_of_startsToken (by simp [startsToken, ha])
  have hread : n = Numeral.read (a :: (r ++ rest)) := (hrest ▸ h).eq_read ha
  have hscan := scan_of_isDigit (c := c) (by rw [htrivia]; exact hrest) ha
  rwa [htrivia, ← hread] at hscan

/-- A parser that rounds to the nearest number finds this number too. -/
theorem scanNumber_of_ahead
    {parse : List Char → Except (List Char) Binary64}
    (h : n.Ahead c.rest rest)
    (hparse : ∀ m : Numeral, m.Lawful →
      ∃ y, parse m.spelling = .ok y ∧ Binary64.IsNearest m.rational y) :
    c.scanNumber parse = (.ok (.number n.value), c.skip n.spelling.length) := by
  obtain ⟨a, r, hspelling, ha⟩ := h.lawful.spelling_eq_cons
  have hrest : c.rest = a :: (r ++ rest) := by rw [h.text_eq, hspelling, List.cons_append]
  have hread : Numeral.read c.rest = n := by
    rw [hrest]
    exact ((hrest ▸ h).eq_read ha).symm
  obtain ⟨y, hy, hnearest⟩ := hparse n h.lawful
  obtain rfl : y = n.value := hnearest.unique n.isNearest_value
  have hscan := scanNumber_of_accepts (d := c) (hread.symm ▸ hy)
  rwa [hread] at hscan

end Cursor

/-- **Numbers.** In front of a digit a search takes the longest numeral and finds the number that is
nearest to what this numeral denotes; no number is rounded to a zero with a sign. A parser that
refuses no numeral and rounds to the nearest number comes to the same. A numeral with more zeros
gives the same token, and a numeral that denotes no less gives no smaller number. -/
theorem number_ahead_is_nearest
    (c : Cursor) (a : Char)
    (ha : a ∈ c.rest.head?)
    (hdigit : isDigit a = true) :
    ∃ n rest x, Decimal.Numeral.Ahead n c.rest rest ∧
      c.scan.outcome = .ok (some (.number x)) ∧
      c.scan.cursor = c.skip n.spelling.length ∧
      Binary64.IsNearest n.rational x ∧
      (x.value? = some 0 → x = ⟨0⟩) ∧
      (∀ parse : List Char → Except (List Char) Binary64,
        (∀ m : Decimal.Numeral, m.Lawful →
          ∃ y, parse m.spelling = .ok y ∧ Binary64.IsNearest m.rational y) →
        c.scanNumber parse = (.ok (.number x), c.skip n.spelling.length)) ∧
      ∀ (d : Cursor) (m : Decimal.Numeral) (back : List Char), m.Ahead d.rest back →
        (n.Padded m → d.scan.outcome = c.scan.outcome) ∧
        (n.rational ≤ m.rational → ∃ y, d.scan.outcome = .ok (some (.number y)) ∧
          ∀ w, y.value? = some w → ∃ v, x.value? = some v ∧ v ≤ w) := by
  obtain ⟨r, hrest⟩ := List.head?_eq_some_iff.mp ha
  obtain ⟨rest, hahead⟩ := Decimal.Numeral.exists_ahead_read r hdigit
  rw [← hrest] at hahead
  generalize Decimal.Numeral.read c.rest = n at hahead
  obtain ⟨houtcome, hcursor⟩ := Cursor.scan_of_ahead hahead
  have hnearest := n.isNearest_value
  refine ⟨n, rest, n.value, hahead, houtcome, hcursor, hnearest, hnearest.eq_zero,
    fun parse hparse => Cursor.scanNumber_of_ahead hahead hparse, ?_⟩
  intro d m back hm
  have hfound := (Cursor.scan_of_ahead hm).1
  constructor
  · intro hpadded
    have hvalue : m.value = n.value :=
      (hpadded.rational_eq ▸ m.isNearest_value).unique hnearest
    rw [hfound, houtcome, hvalue]
  · intro hle
    exact ⟨m.value, hfound, fun w hw => hnearest.exists_value_le m.isNearest_value hle hw⟩

/-- Halfway between two numbers the even one is found, and a second point is left. -/
theorem number_ahead_is_nearest_halfway :
    let c := Cursor.ofSource "9007199254740993..".toList
    ∃ n rest, Decimal.Numeral.Ahead n c.rest rest ∧
      c.scan.outcome = .ok (some (.number ⟨0x4340000000000000⟩)) ∧
      c.scan.cursor.rest = ['.'] ∧
      Binary64.IsNearest n.rational ⟨0x4340000000000000⟩ := by
  intro c
  have hnumber : c.scan.outcome = .ok (some (.number ⟨0x4340000000000000⟩)) := by
    decide +kernel
  have hrest : c.scan.cursor.rest = ['.'] := by
    decide +kernel
  obtain ⟨n, rest, x, hahead, houtcome, -, hnearest, -⟩ :=
    number_ahead_is_nearest c '9' (by decide +kernel) (by decide)
  obtain rfl : x = ⟨0x4340000000000000⟩ := by
    rw [hnumber] at houtcome
    exact (Token.number.inj (Option.some.inj (Except.ok.inj houtcome))).symm
  exact ⟨n, rest, hahead, hnumber, hrest, hnearest⟩

end TokenStream
