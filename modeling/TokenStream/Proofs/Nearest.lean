import TokenStream.Proofs.ReadBack

/-!
# Nearest numbers

Which number is the nearest one to a rational number, said with the values of all numbers and
without rounding: no other finite number is nearer, and if another one is as near, the last bit of
the nearest one is clear. From half a step above the largest finite number on it is infinity.

Numbers without a sign are in the order of their patterns. The places of this order go on beyond
the pattern of infinity, as if exponents had no end, and on all of them neighbours lie one step of
the grid apart.

**Results** rounding gives the number at the nearest place, so it gives the nearest number; there is
only one nearest number, and it grows with the rational number.
-/

namespace TokenStream
namespace Binary64

/-- The rational number that a finite number is. -/
def value? (x : Binary64) : Option ℚ :=
  match x.kind with
  | .finite negative mantissa exponent =>
    some (if negative then -(mantissa * 2 ^ exponent) else mantissa * 2 ^ exponent)
  | _ => none

/-- The last bit of the pattern is clear. -/
def IsEven (x : Binary64) : Prop :=
  x.bits.toNat % 2 = 0

/-- The least rational number that is rounded to infinity: half a step above the largest finite
number. -/
def overflowBound : ℚ :=
  2 ^ 1024 - 2 ^ 970

/-- The number without a sign that is nearest to a rational number, a tie going to the even one. -/
structure IsNearest (q : ℚ) (x : Binary64) : Prop where
  negative_eq : x.negative = false
  infinite_iff : x = infinity ↔ overflowBound ≤ q
  nearest : q < overflowBound → ∃ v, x.value? = some v ∧
    ∀ (y : Binary64) (w : ℚ), y.value? = some w →
      |v - q| ≤ |w - q| ∧ (|w - q| = |v - q| → w ≠ v → x.IsEven)

/-- The number at a place in the order of patterns. -/
def valueAt (place : Nat) : ℚ :=
  let field := place / fractionRange
  let fraction := place % fractionRange
  if field = 0 then fraction * 2 ^ minExponent
  else (fractionRange + fraction : Nat) * 2 ^ (minExponent + (field - 1 : Nat))

/-- Of the first places, this one is nearest to the rational number. -/
structure NearestPlace (bound : Nat) (q : ℚ) (place : Nat) : Prop where
  dist_le : ∀ r < bound, |valueAt place - q| ≤ |valueAt r - q|
  even_of_tie : ∀ r < bound, |valueAt r - q| = |valueAt place - q| → r ≠ place → place % 2 = 0

section Places

theorem fractionRange_pos : 0 < fractionRange := by decide

/-- A mantissa and an exponent side by side are the place of their product; a mantissa that has
just become too large is the next power of two. -/
theorem valueAt_joined
    {mantissa : Nat} {exponent : Int}
    (hmin : minExponent ≤ exponent)
    (hle : mantissa ≤ 2 * fractionRange)
    (hleading : exponent = minExponent ∨ fractionRange ≤ mantissa) :
    valueAt (joined mantissa exponent) = mantissa * 2 ^ exponent := by
  obtain ⟨j, rfl⟩ : ∃ j : Nat, exponent = minExponent + j := by
    obtain ⟨j, hj⟩ := Int.eq_ofNat_of_zero_le (sub_nonneg.mpr hmin)
    exact ⟨j, by omega⟩
  have hjoined : joined mantissa (minExponent + j) = mantissa + fractionRange * j := by
    simp only [joined, add_sub_cancel_left, Int.toNat_natCast]
    ring
  have hfield : (mantissa + fractionRange * j) / fractionRange = mantissa / fractionRange + j :=
    Nat.add_mul_div_left _ _ fractionRange_pos
  have hfraction : (mantissa + fractionRange * j) % fractionRange = mantissa % fractionRange :=
    Nat.add_mul_mod_self_left _ _ _
  simp only [valueAt, hjoined, hfield, hfraction]
  rcases Nat.lt_or_ge mantissa fractionRange with hlt | hge
  · -- a mantissa without its leading bit has the smallest exponent
    have hj : j = 0 := by omega
    subst hj
    simp [Nat.div_eq_of_lt hlt, Nat.mod_eq_of_lt hlt]
  · rcases hle.lt_or_eq with hlt | rfl
    · have hone : mantissa / fractionRange = 1 := Nat.div_eq_of_lt_le (by omega) (by omega)
      have hsplit : fractionRange + mantissa % fractionRange = mantissa := by
        have h := Nat.div_add_mod mantissa fractionRange
        rw [hone] at h
        omega
      simp only [hone, hsplit]
      rw [if_neg (by omega), show 1 + j - 1 = j by omega]
    · have htwo : 2 * fractionRange / fractionRange = 2 :=
        Nat.mul_div_cancel _ fractionRange_pos
      have hzero : 2 * fractionRange % fractionRange = 0 := Nat.mul_mod_left _ _
      simp only [htwo, hzero]
      rw [if_neg (by omega), show 2 + j - 1 = j + 1 by omega]
      push_cast
      rw [← add_assoc, zpow_add_one₀ (by norm_num)]
      ring

/-- Every place is a mantissa and an exponent side by side. -/
theorem exists_canonical (place : Nat) :
    ∃ mantissa exponent, Canonical mantissa exponent ∧ joined mantissa exponent = place := by
  have hsplit := Nat.div_add_mod' place fractionRange
  have hfraction : place % fractionRange < fractionRange := Nat.mod_lt _ fractionRange_pos
  cases hfield : place / fractionRange with
  | zero =>
      rw [hfield] at hsplit
      refine ⟨place, minExponent, ⟨le_refl _, by omega, Or.inl rfl⟩, ?_⟩
      simp [joined]
  | succ field =>
      rw [hfield, Nat.succ_mul] at hsplit
      refine ⟨fractionRange + place % fractionRange, minExponent + field,
        ⟨by omega, by omega, Or.inr (Nat.le_add_right _ _)⟩, ?_⟩
      simp only [joined, add_sub_cancel_left, Int.toNat_natCast]
      omega

theorem joined_succ (mantissa : Nat) (exponent : Int) :
    joined mantissa exponent + 1 = joined (mantissa + 1) exponent :=
  Nat.add_assoc _ _ _

theorem Canonical.valueAt_joined
    {mantissa : Nat} {exponent : Int}
    (h : Canonical mantissa exponent) :
    valueAt (joined mantissa exponent) = mantissa * 2 ^ exponent :=
  Binary64.valueAt_joined h.minExponent_le h.mantissa_lt.le h.leading

/-- The next place is one step of the grid away. -/
theorem Canonical.valueAt_joined_succ
    {mantissa : Nat} {exponent : Int}
    (h : Canonical mantissa exponent) :
    valueAt (joined mantissa exponent + 1) = (mantissa + 1) * 2 ^ exponent := by
  rw [joined_succ, Binary64.valueAt_joined h.minExponent_le h.mantissa_lt
    (h.leading.imp_right Nat.le_succ_of_le), Nat.cast_succ]

theorem strictMono_valueAt : StrictMono valueAt := by
  apply strictMono_nat_of_lt_succ
  intro place
  obtain ⟨mantissa, exponent, hcanonical, rfl⟩ := exists_canonical place
  rw [hcanonical.valueAt_joined, hcanonical.valueAt_joined_succ]
  exact mul_lt_mul_of_pos_right (lt_add_one _) (two_zpow_pos exponent)

theorem valueAt_zero : valueAt 0 = 0 := by
  simp [valueAt]

theorem valueAt_nonneg (place : Nat) : 0 ≤ valueAt place := by
  rw [← valueAt_zero]
  exact strictMono_valueAt.monotone (Nat.zero_le place)

theorem cast_fractionRange : (fractionRange : ℚ) = 2 ^ 52 := by
  norm_num [fractionRange]

theorem valueAt_infinityPattern : valueAt infinityPattern = 2 ^ 1024 := by
  have hjoined : infinityPattern = joined fractionRange 972 := by decide
  have hpow : (2 : ℚ) ^ (972 : Int) = 2 ^ 972 := zpow_natCast 2 972
  rw [hjoined, valueAt_joined (by decide) (by decide) (Or.inr (le_refl _)), cast_fractionRange,
    hpow, ← pow_add]

theorem valueAt_pred_infinityPattern : valueAt (infinityPattern - 1) = 2 ^ 1024 - 2 ^ 971 := by
  have hjoined : infinityPattern - 1 = joined (2 * fractionRange - 1) 971 := by decide
  have hpow : (2 : ℚ) ^ (971 : Int) = 2 ^ 971 := zpow_natCast 2 971
  have hmantissa : ((2 * fractionRange - 1 : Nat) : ℚ) = 2 ^ 53 - 1 := by
    norm_num [fractionRange]
  rw [hjoined, valueAt_joined (by decide) (by decide) (Or.inr (by decide)), hmantissa, hpow,
    sub_mul, one_mul, ← pow_add]

end Places

section Distances

variable {a b q q' : ℚ} {bound place place' : Nat}

/-- The larger of two numbers is the nearer one from the middle between them on. -/
theorem dist_le_dist_iff_of_lt (hab : a < b) : |b - q| ≤ |a - q| ↔ a + b ≤ 2 * q := by
  rw [← sq_le_sq]
  constructor
  · intro h
    nlinarith
  · intro h
    nlinarith

theorem dist_le_dist_iff_of_gt (hab : a < b) : |a - q| ≤ |b - q| ↔ 2 * q ≤ a + b := by
  rw [← sq_le_sq]
  constructor
  · intro h
    nlinarith
  · intro h
    nlinarith

theorem dist_eq_dist_iff (hab : a < b) : |a - q| = |b - q| ↔ a + b = 2 * q := by
  rw [le_antisymm_iff, dist_le_dist_iff_of_lt hab, dist_le_dist_iff_of_gt hab, le_antisymm_iff,
    and_comm]

/-- A place is the nearest one if it is nearer than its two neighbours. -/
theorem nearestPlace_of_neighbours
    (hbelow : ∀ r, r + 1 = place →
      valueAt r + valueAt place ≤ 2 * q ∧
        (valueAt r + valueAt place = 2 * q → place % 2 = 0))
    (habove : 2 * q ≤ valueAt place + valueAt (place + 1))
    (heven : valueAt place + valueAt (place + 1) = 2 * q → place % 2 = 0)
    (bound : Nat) :
    NearestPlace bound q place := by
  -- beyond the neighbours the middles only lie farther off
  have hsmaller : ∀ r < place, valueAt r + valueAt place ≤ 2 * q ∧
      (valueAt r + valueAt place = 2 * q → place % 2 = 0) := by
    intro r hr
    obtain ⟨s, rfl⟩ := Nat.exists_eq_add_one_of_ne_zero (Nat.ne_zero_of_lt hr)
    obtain ⟨hle, htie⟩ := hbelow s rfl
    have hmono : valueAt r ≤ valueAt s := strictMono_valueAt.monotone (Nat.le_of_lt_succ hr)
    exact ⟨by linarith, fun h => htie (by linarith)⟩
  have hlarger : ∀ r, place < r → 2 * q ≤ valueAt place + valueAt r ∧
      (valueAt place + valueAt r = 2 * q → place % 2 = 0) := by
    intro r hr
    have hmono : valueAt (place + 1) ≤ valueAt r := strictMono_valueAt.monotone hr
    exact ⟨by linarith, fun h => heven (by linarith)⟩
  constructor
  · intro r _
    rcases Nat.lt_trichotomy r place with hr | rfl | hr
    · exact (dist_le_dist_iff_of_lt (strictMono_valueAt hr)).mpr (hsmaller r hr).1
    · exact le_refl _
    · exact (dist_le_dist_iff_of_gt (strictMono_valueAt hr)).mpr (hlarger r hr).1
  · intro r _ htie hne
    rcases Nat.lt_or_gt_of_ne hne with hr | hr
    · exact (hsmaller r hr).2 ((dist_eq_dist_iff (strictMono_valueAt hr)).mp htie)
    · exact (hlarger r hr).2 ((dist_eq_dist_iff (strictMono_valueAt hr)).mp htie.symm)

/-- The nearest place grows with the rational number. -/
theorem NearestPlace.mono
    (h : NearestPlace bound q place)
    (h' : NearestPlace bound q' place')
    (hplace : place < bound)
    (hq : q ≤ q') :
    place ≤ place' := by
  by_contra hlt
  rw [not_le] at hlt
  have hvalue := strictMono_valueAt hlt
  have hbelow := (dist_le_dist_iff_of_lt hvalue).mp (h.dist_le place' (hlt.trans hplace))
  have habove := (dist_le_dist_iff_of_gt hvalue).mp (h'.dist_le place hplace)
  -- both rational numbers are the middle, so both places are even and there is one between them
  have hmiddle : valueAt place' + valueAt place = 2 * q := by linarith
  have hmiddle' : valueAt place' + valueAt place = 2 * q' := by linarith
  have heven := h.even_of_tie place' (hlt.trans hplace)
    ((dist_eq_dist_iff hvalue).mpr hmiddle) hlt.ne
  have heven' := h'.even_of_tie place hplace
    ((dist_eq_dist_iff hvalue).mpr hmiddle').symm hlt.ne'
  have hbetween : place' + 1 < place := by omega
  have hnearer := (dist_le_dist_iff_of_lt (strictMono_valueAt hbetween)).mp
    (h.dist_le (place' + 1) (hbetween.trans hplace))
  have hstep := strictMono_valueAt (Nat.lt_succ_self place')
  rw [Nat.succ_eq_add_one] at hstep
  linarith

end Distances

section Rounding

variable {q : ℚ}

/-- The place that rounding finds: as `patternOf`, without an end at infinity. -/
def placeOf (q : ℚ) : Nat :=
  if q = 0 then 0 else
    let step := max (Int.log 2 q - 52) minExponent
    joined (nearestEven (q * 2 ^ (-step))) step

theorem patternOf_eq_min (q : ℚ) : patternOf q = min (placeOf q) infinityPattern := by
  unfold patternOf placeOf
  split
  · rfl
  · rfl

/-- Of `s` steps of the grid, `whole` are whole ones. -/
structure Steps (s : ℚ) (whole : Nat) (exponent : Int) : Prop where
  canonical : Canonical whole exponent
  le : whole ≤ s
  lt : s < whole + 1

section Steps

variable {s : ℚ} {whole : Nat} {exponent : Int}

theorem joined_mod_two (whole : Nat) (exponent : Int) :
    joined whole exponent % 2 = whole % 2 := by
  have heven : (exponent - minExponent).toNat * fractionRange % 2 = 0 := by
    rw [Nat.mul_mod, show fractionRange % 2 = 0 by decide, mul_zero, Nat.zero_mod]
  unfold joined
  omega

/-- Around a rational number the steps are so small that the mantissa is in range. -/
theorem steps_of_pos
    (hq : 0 < q) :
    let step := max (Int.log 2 q - 52) minExponent
    Steps (q * 2 ^ (-step)) ⌊q * 2 ^ (-step)⌋₊ step := by
  intro step
  have hnonneg : 0 ≤ q * 2 ^ (-step) := by positivity
  have hrange : (fractionRange : ℚ) = 2 ^ (52 : Int) := cast_fractionRange
  have hlt : q * 2 ^ (-step) < 2 * fractionRange := by
    have hlog : Int.log 2 q < 53 + step := by omega
    have hpow : q < 2 ^ (53 + step) :=
      by exact_mod_cast (Int.lt_zpow_iff_log_lt (by norm_num) hq).mpr hlog
    rw [zpow_neg, ← div_eq_mul_inv, div_lt_iff₀ (two_zpow_pos step), hrange]
    refine hpow.trans_eq ?_
    rw [zpow_add₀ (by norm_num)]
    norm_num
  have hleading : step = minExponent ∨ (fractionRange : ℚ) ≤ q * 2 ^ (-step) := by
    rcases le_or_gt (Int.log 2 q - 52) minExponent with hle | hgt
    · exact Or.inl (max_eq_right hle)
    · have hlog : 52 + step ≤ Int.log 2 q := by omega
      have hpow : (2 : ℚ) ^ (52 + step) ≤ q :=
        by exact_mod_cast (Int.zpow_le_iff_le_log (by norm_num) hq).mpr hlog
      right
      rwa [zpow_neg, ← div_eq_mul_inv, le_div_iff₀ (two_zpow_pos step), hrange,
        ← zpow_add₀ (by norm_num)]
  refine ⟨⟨le_max_right _ _, ?_, hleading.imp_right Nat.le_floor⟩, Nat.floor_le hnonneg,
    Nat.lt_floor_add_one _⟩
  rw [Nat.floor_lt hnonneg]
  exact_mod_cast hlt

theorem Steps.valueAt_add
    (h : Steps s whole exponent) :
    valueAt (joined whole exponent) + valueAt (joined whole exponent + 1) =
      (2 * whole + 1) * 2 ^ exponent := by
  rw [h.canonical.valueAt_joined, h.canonical.valueAt_joined_succ]
  ring

/-- Up to half a step, the place below is the nearest one. -/
theorem Steps.nearestPlace_low
    (h : Steps s whole exponent)
    (hle : 2 * s ≤ 2 * whole + 1)
    (heven : 2 * s = 2 * whole + 1 → whole % 2 = 0)
    (bound : Nat) :
    NearestPlace bound (s * 2 ^ exponent) (joined whole exponent) := by
  have hpos := two_zpow_pos exponent
  refine nearestPlace_of_neighbours ?_ ?_ ?_ bound
  · intro r hr
    have hlt : valueAt r < valueAt (joined whole exponent) := strictMono_valueAt (by omega)
    have hvalue : valueAt (joined whole exponent) ≤ s * 2 ^ exponent := by
      rw [h.canonical.valueAt_joined]
      exact mul_le_mul_of_nonneg_right h.le hpos.le
    exact ⟨by linarith, fun htie => by linarith⟩
  · rw [h.valueAt_add, ← mul_assoc]
    exact mul_le_mul_of_nonneg_right hle hpos.le
  · rw [h.valueAt_add, ← mul_assoc, mul_left_inj' hpos.ne', joined_mod_two]
    exact fun htie => heven htie.symm

/-- From half a step on, the place above is the nearest one. -/
theorem Steps.nearestPlace_high
    (h : Steps s whole exponent)
    (hle : 2 * whole + 1 ≤ 2 * s)
    (hodd : 2 * s = 2 * whole + 1 → whole % 2 = 1)
    (bound : Nat) :
    NearestPlace bound (s * 2 ^ exponent) (joined (whole + 1) exponent) := by
  have hpos := two_zpow_pos exponent
  have hvalue : s * 2 ^ exponent < valueAt (joined whole exponent + 1) := by
    rw [h.canonical.valueAt_joined_succ]
    exact mul_lt_mul_of_pos_right h.lt hpos
  have hnext := strictMono_valueAt (Nat.lt_add_one (joined whole exponent + 1))
  rw [← joined_succ]
  refine nearestPlace_of_neighbours ?_ (by linarith) (fun htie => by linarith) bound
  intro r hr
  obtain rfl : r = joined whole exponent := by omega
  rw [h.valueAt_add, ← mul_assoc]
  refine ⟨mul_le_mul_of_nonneg_right hle hpos.le, ?_⟩
  rw [mul_left_inj' hpos.ne']
  intro htie
  have hparity := hodd htie.symm
  have hjoined := joined_mod_two whole exponent
  omega

theorem Steps.nearestPlace
    (h : Steps s ⌊s⌋₊ exponent)
    (bound : Nat) :
    NearestPlace bound (s * 2 ^ exponent) (joined (nearestEven s) exponent) := by
  unfold nearestEven
  split
  · next hbelow => exact h.nearestPlace_low (by linarith) (fun htie => by linarith) bound
  · next hbelow =>
      split
      · next habove => exact h.nearestPlace_high (by linarith) (fun htie => by linarith) bound
      · next habove =>
          have htie : 2 * s = 2 * ⌊s⌋₊ + 1 := by linarith
          rcases Nat.mod_two_eq_zero_or_one ⌊s⌋₊ with hparity | hparity
          · rw [hparity, add_zero]
            exact h.nearestPlace_low htie.le (fun _ => hparity) bound
          · rw [hparity]
            exact h.nearestPlace_high htie.ge (fun _ => hparity) bound

end Steps

/-- **Rounding.** It finds the nearest of all places. -/
theorem nearestPlace_placeOf
    (hq : 0 ≤ q)
    (bound : Nat) :
    NearestPlace bound q (placeOf q) := by
  rcases hq.eq_or_lt with rfl | hpos
  · have hzero : placeOf 0 = 0 := by simp [placeOf]
    rw [hzero]
    refine nearestPlace_of_neighbours (fun r hr => by omega) ?_ (fun _ => rfl) bound
    rw [mul_zero, valueAt_zero, zero_add]
    exact valueAt_nonneg _
  · have hnearest := (steps_of_pos hpos).nearestPlace bound
    rw [mul_assoc, ← zpow_add₀ (by norm_num), neg_add_cancel, zpow_zero, mul_one] at hnearest
    simpa only [placeOf, hpos.ne', if_false] using hnearest

/-- Rounding leaves the finite numbers exactly from the bound on. -/
theorem infinityPattern_le_placeOf_iff
    (hq : 0 ≤ q) :
    infinityPattern ≤ placeOf q ↔ overflowBound ≤ q := by
  have hnearest := nearestPlace_placeOf hq
  have hmiddle : valueAt (infinityPattern - 1) + valueAt infinityPattern = 2 * overflowBound := by
    have hdouble : (2 : ℚ) ^ 971 = 2 * 2 ^ 970 := pow_succ' 2 970
    rw [valueAt_infinityPattern, valueAt_pred_infinityPattern, overflowBound, hdouble]
    generalize (2 : ℚ) ^ 1024 = a, (2 : ℚ) ^ 970 = b
    ring
  constructor
  · intro hle
    have hlt : infinityPattern - 1 < placeOf q := lt_of_lt_of_le (by decide) hle
    have hbelow := (dist_le_dist_iff_of_lt (strictMono_valueAt hlt)).mp
      ((hnearest infinityPattern).dist_le _ (by decide))
    have hmono := strictMono_valueAt.monotone hle
    linarith
  · intro hle
    by_contra hlt
    rw [not_le] at hlt
    have habove := (dist_le_dist_iff_of_gt (strictMono_valueAt hlt)).mp
      ((hnearest (infinityPattern + 1)).dist_le _ (Nat.lt_succ_self _))
    have hpred : placeOf q ≤ infinityPattern - 1 := Nat.le_sub_one_of_lt hlt
    have hmono := strictMono_valueAt.monotone hpred
    -- only the largest finite number could still be the nearest one, but it is odd
    have heq : placeOf q = infinityPattern - 1 :=
      strictMono_valueAt.injective (by linarith)
    have htie := (dist_eq_dist_iff (q := q) (strictMono_valueAt hlt)).mpr (by linarith)
    have heven := (hnearest (infinityPattern + 1)).even_of_tie _ (Nat.lt_succ_self _) htie.symm
      hlt.ne'
    rw [heq] at heven
    revert heven
    decide

end Rounding

section Numbers

variable {x y : Binary64} {q q' : ℚ} {pattern : Nat}

theorem value?_of_lt
    (h : x.magnitude < infinityPattern) :
    x.value? = some (if x.negative then -valueAt x.magnitude else valueAt x.magnitude) := by
  obtain ⟨mantissa, exponent, hkind⟩ := exists_kind_eq_finite h
  obtain ⟨⟨hmin, hlt, hleading⟩, hjoined, -⟩ := joined_of_kind_eq_finite hkind
  rw [← hjoined, valueAt_joined hmin hlt.le hleading]
  simp only [value?, hkind]

theorem magnitude_lt_of_value?
    {v : ℚ}
    (h : x.value? = some v) :
    x.magnitude < infinityPattern := by
  unfold value? at h
  split at h
  · next hkind => exact (joined_of_kind_eq_finite hkind).2.2
  · cases h

theorem magnitude_ofPattern
    (h : pattern ≤ infinityPattern) :
    (ofPattern false pattern).magnitude = pattern := by
  rw [magnitude, toNat_bits_ofPattern h, Nat.mod_eq_of_lt (lt_of_le_of_lt h (by decide))]

theorem magnitude_infinity : infinity.magnitude = infinityPattern :=
  magnitude_ofPattern (le_refl _)

theorem value?_ofPattern
    (h : pattern < infinityPattern) :
    (ofPattern false pattern).value? = some (valueAt pattern) := by
  have hmagnitude := magnitude_ofPattern h.le
  rw [value?_of_lt (hmagnitude.symm ▸ h), negative_ofPattern h.le, hmagnitude]
  rfl

theorem eq_of_magnitude_eq
    (hx : x.negative = false)
    (hy : y.negative = false)
    (h : x.magnitude = y.magnitude) :
    x = y := by
  rw [← ofPattern_magnitude x, ← ofPattern_magnitude y, hx, hy, h]

theorem isEven_iff : x.IsEven ↔ x.magnitude % 2 = 0 := by
  rw [IsEven, magnitude, Nat.mod_mod_of_dvd _ (by decide)]

/-- The number at the nearest place is the nearest number: numbers with a sign are farther off than
zero. -/
theorem NearestPlace.isNearest
    (h : NearestPlace infinityPattern q pattern)
    (hpattern : pattern < infinityPattern)
    (hq : 0 ≤ q)
    (hbound : q < overflowBound) :
    IsNearest q (ofPattern false pattern) := by
  have hmagnitude := magnitude_ofPattern hpattern.le
  refine ⟨negative_ofPattern hpattern.le, ⟨?_, fun hle => absurd hbound (not_lt.mpr hle)⟩, ?_⟩
  · intro heq
    rw [heq, magnitude_infinity] at hmagnitude
    exact absurd hmagnitude hpattern.ne'
  · intro _
    refine ⟨valueAt pattern, value?_ofPattern hpattern, ?_⟩
    intro y w hw
    have hy := magnitude_lt_of_value? hw
    rw [value?_of_lt hy, Option.some.injEq] at hw
    rw [isEven_iff, hmagnitude]
    have hplace : |valueAt pattern - q| ≤ |valueAt y.magnitude - q| ∧
        (|valueAt y.magnitude - q| = |valueAt pattern - q| →
          valueAt y.magnitude ≠ valueAt pattern → pattern % 2 = 0) :=
      ⟨h.dist_le _ hy, fun htie hne => h.even_of_tie _ hy htie fun heq => hne (heq ▸ rfl)⟩
    cases hnegative : y.negative with
    | false =>
        simp only [hnegative, Bool.false_eq_true, if_false] at hw
        rw [← hw]
        exact hplace
    | true =>
        simp only [hnegative, if_true] at hw
        have hnonneg := valueAt_nonneg y.magnitude
        have hfar : |w - q| = valueAt y.magnitude + q := by
          rw [← hw, ← abs_neg, abs_of_nonneg (by linarith)]
          ring
        have hzeroDist : |valueAt 0 - q| = q := by
          rw [valueAt_zero, zero_sub, abs_neg, abs_of_nonneg hq]
        have hzero := h.dist_le 0 (by decide)
        refine ⟨by linarith, ?_⟩
        intro htie hne
        refine h.even_of_tie 0 (by decide) (by linarith) ?_
        rintro rfl
        rw [valueAt_zero] at hne
        have hvalue : valueAt y.magnitude = 0 := by linarith
        exact hne (by rw [← hw, hvalue, neg_zero])

/-- The pattern that rounding gives is that of the nearest number. -/
theorem isNearest_patternOf
    (hq : 0 ≤ q) :
    IsNearest q (ofPattern false (patternOf q)) := by
  have hiff := infinityPattern_le_placeOf_iff hq
  rw [patternOf_eq_min]
  rcases lt_or_ge (placeOf q) infinityPattern with hlt | hge
  · rw [min_eq_left hlt.le]
    refine (nearestPlace_placeOf hq _).isNearest hlt hq ?_
    exact not_le.mp fun hle => absurd hlt (not_lt.mpr (hiff.mpr hle))
  · have hbound := hiff.mp hge
    rw [min_eq_right hge]
    exact ⟨negative_ofPattern (le_refl _), ⟨fun _ => hbound, fun _ => rfl⟩,
      fun hlt => absurd hlt (not_lt.mpr hbound)⟩

theorem IsNearest.nearestPlace
    (h : IsNearest q x)
    (hbound : q < overflowBound) :
    x.magnitude < infinityPattern ∧ NearestPlace infinityPattern q x.magnitude := by
  obtain ⟨v, hv, hnearest⟩ := h.nearest hbound
  have hx := magnitude_lt_of_value? hv
  obtain rfl : valueAt x.magnitude = v := by
    rw [value?_of_lt hx, h.negative_eq] at hv
    exact Option.some.inj hv
  refine ⟨hx, fun r hr => (hnearest _ _ (value?_ofPattern hr)).1, fun r hr htie hne => ?_⟩
  rw [← isEven_iff]
  exact (hnearest _ _ (value?_ofPattern hr)).2 htie (strictMono_valueAt.injective.ne hne)

theorem IsNearest.magnitude_le
    (h : IsNearest q x) :
    x.magnitude ≤ infinityPattern := by
  rcases lt_or_ge q overflowBound with hlt | hge
  · exact (h.nearestPlace hlt).1.le
  · rw [h.infinite_iff.mpr hge, magnitude_infinity]

/-- The nearest number grows with the rational number. -/
theorem IsNearest.mono
    (h : IsNearest q x)
    (h' : IsNearest q' y)
    (hq : q ≤ q') :
    x.magnitude ≤ y.magnitude := by
  rcases lt_or_ge q' overflowBound with hlt | hge
  · obtain ⟨hx, hplace⟩ := h.nearestPlace (hq.trans_lt hlt)
    exact hplace.mono (h'.nearestPlace hlt).2 hx hq
  · rw [h'.infinite_iff.mpr hge, magnitude_infinity]
    exact h.magnitude_le

theorem IsNearest.unique
    (h : IsNearest q x)
    (h' : IsNearest q y) :
    x = y :=
  eq_of_magnitude_eq h.negative_eq h'.negative_eq
    (le_antisymm (h.mono h' (le_refl q)) (h'.mono h (le_refl q)))

/-- The value of the nearest number grows with the rational number, infinity being the largest. -/
theorem IsNearest.exists_value_le
    {w : ℚ}
    (h : IsNearest q x)
    (h' : IsNearest q' y)
    (hq : q ≤ q')
    (hw : y.value? = some w) :
    ∃ v, x.value? = some v ∧ v ≤ w := by
  have hy := magnitude_lt_of_value? hw
  have hle := h.mono h' hq
  rw [value?_of_lt hy, h'.negative_eq] at hw
  refine ⟨valueAt x.magnitude, ?_, ?_⟩
  · rw [value?_of_lt (hle.trans_lt hy), h.negative_eq]
    rfl
  · rw [← Option.some.inj hw]
    exact strictMono_valueAt.monotone hle

theorem IsNearest.eq_zero
    (h : IsNearest q x)
    (hzero : x.value? = some 0) :
    x = ⟨0⟩ := by
  have hx := magnitude_lt_of_value? hzero
  rw [value?_of_lt hx, h.negative_eq] at hzero
  refine eq_of_magnitude_eq h.negative_eq rfl ?_
  exact strictMono_valueAt.injective ((Option.some.inj hzero).trans valueAt_zero.symm)

end Numbers

end Binary64
end TokenStream
