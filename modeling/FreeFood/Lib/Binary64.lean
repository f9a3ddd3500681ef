/-
Binary floating point of 64 bits, as far as it is compared.

A finite double is a whole number of units of `2 ^ -1074`, so its value is the integer
`units` and no rational numbers are needed. Every double has a `position`, a pair in
lexicographic order: NaN is below all others here, as some databases have it, while the
operators `lt` and `eq` are those of IEEE 754, to which NaN is unordered.

A double is rounded from an integer to the nearest, ties to even. Where the integer was cut
off from a double, nothing is rounded (`units_ofInt_truncate`): a double has an integer
part that is a double.
-/
import Mathlib.Algebra.Order.Ring.Int
import Mathlib.Tactic.Ring
import Mathlib.Tactic.Linarith

set_option autoImplicit false

/-- A double, by its sign, its biased exponent and its fraction. -/
structure Binary64 where
  sign : Bool
  exponent : Fin 2048
  fraction : Fin 4503599627370496
deriving DecidableEq

namespace Binary64

open Std

/-! ## 1. Values -/

def isNaN (d : Binary64) : Bool := d.exponent == 2047 && d.fraction != 0

def isInfinite (d : Binary64) : Bool := d.exponent == 2047 && d.fraction == 0

/-- The significand, with the bit that is not stored. -/
def significand (d : Binary64) : ℕ :=
  if d.exponent = 0 then d.fraction else 2 ^ 52 + d.fraction

/-- The power of two of the significand, in units. -/
def shift (d : Binary64) : ℕ := d.exponent - 1

def magnitude (d : Binary64) : ℕ := d.significand * 2 ^ d.shift

/-- The value of a finite double, in units. -/
def units (d : Binary64) : ℤ := if d.sign then -d.magnitude else d.magnitude

/-- The number of units in one. -/
def one : ℕ := 2 ^ 1074

theorem one_pos : 0 < one := by
  rw [one]
  exact pow_pos Nat.two_pos 1074

theorem cast_one_pos : (0 : ℤ) < one := Int.natCast_pos.mpr one_pos

theorem significand_lt (d : Binary64) : d.significand < 2 ^ 53 := by
  have hfraction := d.fraction.isLt
  unfold significand
  split <;> omega

theorem natAbs_units (d : Binary64) : d.units.natAbs = d.magnitude := by
  unfold units
  split <;> simp

/-! ## 2. The order -/

/-- Where a double is: NaN, then the negative infinity, the numbers, and the infinity. -/
def position (d : Binary64) : ℕ × ℤ :=
  if d.isNaN then (0, 0)
  else if d.isInfinite then (if d.sign then (1, 0) else (3, 0))
  else (2, d.units)

def comparePositions : ℕ × ℤ → ℕ × ℤ → Ordering :=
  compareLex (compareOn Prod.fst) (compareOn Prod.snd)

/-- `<` of IEEE 754. -/
def lt (a b : Binary64) : Bool :=
  if a.isNaN || b.isNaN then false
  else if a.isInfinite then a.sign && !(b.isInfinite && b.sign)
  else if b.isInfinite then !b.sign
  else decide (a.units < b.units)

/-- `==` of IEEE 754. -/
def eq (a b : Binary64) : Bool :=
  if a.isNaN || b.isNaN then false
  else if a.isInfinite || b.isInfinite then
    a.isInfinite && b.isInfinite && a.sign == b.sign
  else a.units == b.units

instance : TransCmp comparePositions := inferInstanceAs (TransCmp (compareLex _ _))

theorem comparePositions_eq (p r : ℕ × ℤ) :
    comparePositions p r = (compare p.1 r.1).then (compare p.2 r.2) := rfl

theorem position_of_isNaN {d : Binary64} (h : d.isNaN = true) : d.position = (0, 0) := if_pos h

/-- **`<` of IEEE 754 is the order of the positions, where no NaN is involved.** -/
theorem lt_iff {a b : Binary64} (ha : a.isNaN = false) (hb : b.isNaN = false) :
    a.lt b = true ↔ comparePositions a.position b.position = .lt := by
  rw [comparePositions_eq, lt, position, position, ha, hb]
  cases a.isInfinite <;> cases b.isInfinite <;> cases a.sign <;> cases b.sign <;>
    simp [Ordering.then_eq_lt, compare_lt_iff_lt]

theorem eq_iff {a b : Binary64} (ha : a.isNaN = false) (hb : b.isNaN = false) :
    a.eq b = true ↔ comparePositions a.position b.position = .eq := by
  rw [comparePositions_eq, eq, position, position, ha, hb]
  cases a.isInfinite <;> cases b.isInfinite <;> cases a.sign <;> cases b.sign <;>
    simp [Ordering.then_eq_eq]

/-! ## 3. Integers -/

/-- The integer part of a finite double. -/
def truncate (d : Binary64) : ℤ := d.units.tdiv one

/-- `m / 2 ^ k`, to the nearest integer and from a tie to the even one. -/
def roundShift (m k : ℕ) : ℕ :=
  if 2 ^ k < 2 * (m % 2 ^ k) ∨ (2 * (m % 2 ^ k) = 2 ^ k ∧ m / 2 ^ k % 2 = 1) then m / 2 ^ k + 1
  else m / 2 ^ k

/-- `m`, which is not zero, as a significand of 53 bits or the power of two after those. -/
def significandOf (m : ℕ) : ℕ :=
  if m.log2 ≤ 52 then m * 2 ^ (52 - m.log2) else roundShift m (m.log2 - 52)

/-- The double nearest to an integer, ties to even, where there is no overflow. -/
def ofInt (z : ℤ) : Binary64 :=
  if z = 0 then ⟨false, 0, 0⟩
  else if significandOf z.natAbs = 2 ^ 53 then
    ⟨decide (z < 0), Fin.ofNat 2048 (z.natAbs.log2 + 1024), 0⟩
  else ⟨decide (z < 0), Fin.ofNat 2048 (z.natAbs.log2 + 1023),
    Fin.ofNat 4503599627370496 (significandOf z.natAbs - 2 ^ 52)⟩

/-- A natural number with no more than 53 bits that count. -/
def Exact (m : ℕ) : Prop := m = 0 ∨ m.log2 ≤ 52 ∨ 2 ^ (m.log2 - 52) ∣ m

theorem exact_mul_two_pow {m : ℕ} (hm : m < 2 ^ 53) (k : ℕ) : Exact (m * 2 ^ k) := by
  by_cases hzero : m = 0
  · exact Or.inl (by rw [hzero, Nat.zero_mul])
  · have hpow : 0 < 2 ^ k := Nat.two_pow_pos k
    have hlog : (m * 2 ^ k).log2 < 53 + k := by
      rw [Nat.log2_lt (Nat.mul_ne_zero hzero hpow.ne'), Nat.pow_add]
      exact Nat.mul_lt_mul_of_pos_right hm hpow
    exact Or.inr (Or.inr (Dvd.dvd.mul_left (Nat.pow_dvd_pow 2 (by omega)) m))

/-- Nothing is rounded of an exact number. -/
theorem significandOf_mul {m : ℕ} (hzero : m ≠ 0) (h : Exact m) :
    significandOf m * 2 ^ m.log2 = m * 2 ^ 52 := by
  unfold significandOf
  by_cases hsmall : m.log2 ≤ 52
  · rw [if_pos hsmall, Nat.mul_assoc, ← Nat.pow_add, Nat.sub_add_cancel hsmall]
  · have hdvd := (h.resolve_left hzero).resolve_left hsmall
    have hrest : m % 2 ^ (m.log2 - 52) = 0 := Nat.mod_eq_zero_of_dvd hdvd
    have hround : roundShift m (m.log2 - 52) = m / 2 ^ (m.log2 - 52) := by
      rw [roundShift, hrest, if_neg]
      have hpow : 0 < 2 ^ (m.log2 - 52) := Nat.two_pow_pos _
      omega
    have hsplit : 2 ^ m.log2 = 2 ^ (m.log2 - 52) * 2 ^ 52 := by
      rw [← Nat.pow_add, Nat.sub_add_cancel (by omega)]
    rw [if_neg hsmall, hround, hsplit, ← Nat.mul_assoc, Nat.div_mul_cancel hdvd]

theorem significandOf_bounds {m : ℕ} (hzero : m ≠ 0) (h : Exact m) :
    2 ^ 52 ≤ significandOf m ∧ significandOf m < 2 ^ 53 := by
  have hmul := significandOf_mul hzero h
  have hpow : 0 < 2 ^ m.log2 := Nat.two_pow_pos _
  have hlow : 2 ^ m.log2 ≤ m := Nat.log2_self_le hzero
  have hhigh : m < 2 ^ (m.log2 + 1) := Nat.lt_log2_self
  rw [Nat.pow_succ] at hhigh
  constructor
  · refine Nat.le_of_mul_le_mul_right ?_ hpow
    rw [hmul]
    linarith
  · refine Nat.lt_of_mul_lt_mul_right (a := 2 ^ m.log2) ?_
    rw [hmul]
    linarith

/-- **An exact integer is a double as it is.** -/
theorem ofInt_exact {z : ℤ} (h : Exact z.natAbs) (hlog : z.natAbs.log2 < 1000) :
    (ofInt z).isNaN = false ∧ (ofInt z).isInfinite = false ∧ (ofInt z).units = z * one := by
  by_cases hzero : z = 0
  · subst hzero
    exact ⟨rfl, rfl, by rw [Int.zero_mul]; rfl⟩
  · have hne : z.natAbs ≠ 0 := Int.natAbs_ne_zero.mpr hzero
    obtain ⟨hlow, hhigh⟩ := significandOf_bounds hne h
    have hmul := significandOf_mul hne h
    have hnot : significandOf z.natAbs ≠ 2 ^ 53 := hhigh.ne
    rw [ofInt, if_neg hzero, if_neg hnot]
    generalize significandOf z.natAbs = s at hlow hhigh hmul
    generalize hl : z.natAbs.log2 = l at hlog hmul
    have hexponent : (Fin.ofNat 2048 (l + 1023)).val = l + 1023 :=
      Nat.mod_eq_of_lt (by omega)
    have hfraction : (Fin.ofNat 4503599627370496 (s - 2 ^ 52)).val = s - 2 ^ 52 :=
      Nat.mod_eq_of_lt (by omega)
    have hfinite : (Fin.ofNat 2048 (l + 1023) == 2047) = false := by
      rw [beq_eq_false_iff_ne, ne_eq, Fin.ext_iff, hexponent]
      exact fun heq => by have : l + 1023 = 2047 := heq; omega
    have hnormal : Fin.ofNat 2048 (l + 1023) ≠ 0 := by
      rw [ne_eq, Fin.ext_iff, hexponent]
      exact fun heq => by have : l + 1023 = 0 := heq; omega
    refine ⟨by rw [isNaN, hfinite, Bool.false_and], by rw [isInfinite, hfinite, Bool.false_and], ?_⟩
    have hmagnitude : magnitude ⟨decide (z < 0), Fin.ofNat 2048 (l + 1023),
        Fin.ofNat 4503599627370496 (s - 2 ^ 52)⟩ = z.natAbs * one := by
      rw [magnitude, significand, if_neg hnormal, hfraction, Nat.add_sub_cancel' hlow, shift,
        hexponent]
      have hsum : 52 + 1022 = 1074 := rfl
      calc s * 2 ^ (l + 1023 - 1) = s * 2 ^ l * 2 ^ 1022 := by
            rw [mul_assoc, ← pow_add, Nat.add_sub_assoc (by omega)]
        _ = z.natAbs * one := by
            rw [hmul, mul_assoc, ← pow_add, hsum, one]
    rw [units, hmagnitude]
    by_cases hneg : z < 0
    · rw [if_pos (decide_eq_true hneg), Nat.cast_mul, Int.ofNat_natAbs_of_nonpos hneg.le]
      ring
    · rw [if_neg (by simpa using hneg), Nat.cast_mul, Int.natAbs_of_nonneg (Int.not_lt.mp hneg)]

/-- **The integer part of a finite double is exact.** -/
theorem exact_truncate (d : Binary64) : Exact d.truncate.natAbs := by
  rw [truncate, Int.natAbs_tdiv, natAbs_units, Int.natAbs_natCast, magnitude]
  by_cases hlarge : 1074 ≤ d.shift
  · have hsplit : d.significand * 2 ^ d.shift = d.significand * 2 ^ (d.shift - 1074) * one := by
      rw [one, mul_assoc, ← pow_add, Nat.sub_add_cancel hlarge]
    change Exact (d.significand * 2 ^ d.shift / one)
    rw [hsplit, Nat.mul_div_cancel _ one_pos]
    exact exact_mul_two_pow d.significand_lt _
  · -- then it is below a power of two that leaves all its bits
    have hsum : 53 + 1073 = 1074 + 52 := rfl
    have hpow : ∀ n, d.shift ≤ n → 2 ^ d.shift ≤ 2 ^ n :=
      fun n hn => Nat.pow_le_pow_right Nat.two_pos hn
    have hbound : d.significand * 2 ^ d.shift < one * 2 ^ 52 := by
      calc d.significand * 2 ^ d.shift < 2 ^ 53 * 2 ^ 1073 :=
            Nat.mul_lt_mul_of_lt_of_le d.significand_lt (hpow 1073 (by omega))
              (pow_pos Nat.two_pos _)
        _ = one * 2 ^ 52 := by rw [one, ← pow_add, ← pow_add, hsum]
    have hquotient : d.significand * 2 ^ d.shift / one < 2 ^ 52 := Nat.div_lt_of_lt_mul hbound
    change Exact (d.significand * 2 ^ d.shift / one)
    generalize d.significand * 2 ^ d.shift / one = m at hquotient
    by_cases hzero : m = 0
    · exact Or.inl hzero
    · have hlog : m.log2 < 52 := (Nat.log2_lt hzero).mpr hquotient
      exact Or.inr (Or.inl hlog.le)

/-- A double is before the integers after its integer part. -/
theorem units_lt_of_truncate_lt {d : Binary64} {z : ℤ} (h : d.truncate < z) :
    d.units < z * one := by
  have hpos := cast_one_pos
  calc d.units < (d.truncate + 1) * one := Int.lt_tdiv_add_one_mul_self d.units hpos
    _ ≤ z * one := Int.mul_le_mul_of_nonneg_right h hpos.le

/-- A double is after the integers before its integer part. -/
theorem lt_units_of_lt_truncate {d : Binary64} {z : ℤ} (h : z < d.truncate) :
    z * one < d.units := by
  have hpos := cast_one_pos
  have hneg := Int.lt_tdiv_add_one_mul_self (-d.units) hpos
  rw [Int.neg_tdiv] at hneg
  have hle : z * one ≤ (d.truncate - 1) * one :=
    Int.mul_le_mul_of_nonneg_right (by omega) hpos.le
  rw [truncate] at hle
  linarith

/-- A double is not before a positive integer that its integer part reaches. -/
theorem le_units_of_le_truncate {d : Binary64} {z : ℤ} (hz : 0 < z) (h : z ≤ d.truncate) :
    z * one ≤ d.units := by
  have hpos := cast_one_pos
  have hbefore : (z - 1) * one < d.units := lt_units_of_lt_truncate (by omega)
  have hnonneg : 0 ≤ d.units := by
    have hleft : 0 ≤ (z - 1) * one := Int.mul_nonneg (by omega) hpos.le
    omega
  have hdiv := Int.ediv_mul_le d.units hpos.ne'
  rw [truncate, Int.tdiv_eq_ediv_of_nonneg hnonneg] at h
  have hle : z * one ≤ d.units / one * one := Int.mul_le_mul_of_nonneg_right h hpos.le
  omega

/-- Where an integer is among the doubles, whether it is one or not. -/
def positionOf (z : ℤ) : ℕ × ℤ := (2, z * one)

theorem position_ofInt {z : ℤ} (h : Exact z.natAbs) (hlog : z.natAbs.log2 < 1000) :
    (ofInt z).position = positionOf z := by
  obtain ⟨hnan, hinfinite, hunits⟩ := ofInt_exact h hlog
  rw [position, hnan, hinfinite, hunits]
  rfl

/-- A finite double is on the side of an integer that its units are on. -/
theorem comparePositions_positionOf {d : Binary64} (hnan : d.isNaN = false)
    (hinfinite : d.isInfinite = false) (z : ℤ) :
    comparePositions d.position (positionOf z) = compare d.units (z * one) := by
  rw [comparePositions_eq, position, hnan, hinfinite]
  rfl

theorem compare_positionOf (y z : ℤ) :
    comparePositions (positionOf y) (positionOf z) = compare y z := by
  have hpos := cast_one_pos
  rw [comparePositions_eq, positionOf, positionOf, compare_self, Ordering.eq_then]
  rcases Int.lt_trichotomy y z with hlt | rfl | hgt
  · rw [compare_lt_iff_lt.mpr hlt, compare_lt_iff_lt.mpr (Int.mul_lt_mul_of_pos_right hlt hpos)]
  · rw [compare_self, compare_self]
  · rw [compare_gt_iff_gt.mpr hgt, compare_gt_iff_gt.mpr (Int.mul_lt_mul_of_pos_right hgt hpos)]

end Binary64
