/-
`model/field_value.h` and `util/comparison.h`: the values of fields, and their order.

Values of different types are in the order of the types, except that integers and doubles
are in one order of numbers. A number of one kind is compared with one of the other by way
of a conversion that may round. The order is proved to be one all the same: on numbers it
is the order of their exact values (`compareMixedNumber_eq`), and on all values, nested as
they may be, it is transitive and turns around. That is what the sets of documents of a
query need, whose order is that of some of their fields.
-/
import FreeFood.Firestore.DocumentSet
import FreeFood.Lib.Binary64
import FreeFood.Lib.ValueOrder

set_option autoImplicit false

namespace FreeFood.Firestore

open Std Binary64

/-! ## 1. Numbers -/

/-- `Comparator<double>`: NaN is the same as itself and before any number. -/
def compareDouble (left right : Binary64) : Ordering :=
  if left.lt right then .lt
  else if right.lt left then .gt
  else if left.eq right then .eq
  else if !right.isNaN then .lt
  else if !left.isNaN then .gt
  else .eq

/-- `NAN`. -/
def nan : Binary64 where
  sign := false
  exponent := ⟨2047, by decide⟩
  fraction := ⟨2251799813685248, by decide⟩

/-- `DoubleBits`, as the double that has them: NaN has one representation. -/
def doubleBits (d : Binary64) : Binary64 := if d.isNaN then nan else d

/-- `DoubleBitwiseEquals`. -/
def doubleBitwiseEquals (left right : Binary64) : Bool := doubleBits left == doubleBits right

/-- `INT64_MIN_VALUE_AS_DOUBLE`. -/
def int64MinValueAsDouble : Binary64 := ofInt (-9223372036854775808)

/-- `INT64_MAX_VALUE_AS_DOUBLE`, which is rounded up. -/
def int64MaxValueAsDouble : Binary64 := ofInt 9223372036854775807

/-- `CompareMixedNumber`. -/
def compareMixedNumber (doubleValue : Binary64) (int64Value : Int64) : Ordering :=
  if doubleValue.lt int64MinValueAsDouble then .lt
  else if int64MaxValueAsDouble.lt doubleValue || doubleValue.eq int64MaxValueAsDouble then .gt
  else if doubleValue.isNaN then .lt
  else
    let doubleAsInt64 := Int64.ofInt doubleValue.truncate
    match compare doubleAsInt64 int64Value with
    | .eq => compareDouble doubleValue (ofInt int64Value.toInt)
    | cmp => cmp

theorem compareDouble_eq (a b : Binary64) :
    compareDouble a b = comparePositions a.position b.position := by
  unfold compareDouble
  by_cases ha : a.isNaN = true
  · by_cases hb : b.isNaN = true
    · simp [lt, eq, ha, hb, position_of_isNaN, comparePositions_eq]
    · rw [Bool.not_eq_true] at hb
      have hrank : compare 0 b.position.1 = .lt := by
        rw [position, hb]
        cases b.isInfinite <;> cases b.sign <;> rfl
      rw [position_of_isNaN ha, comparePositions_eq, hrank]
      simp [lt, eq, ha, hb]
  · rw [Bool.not_eq_true] at ha
    by_cases hb : b.isNaN = true
    · have hrank : compare a.position.1 0 = .gt := by
        rw [position, ha]
        cases a.isInfinite <;> cases a.sign <;> rfl
      rw [position_of_isNaN hb, comparePositions_eq, hrank]
      simp [lt, eq, ha, hb]
    · rw [Bool.not_eq_true] at hb
      have hswap : comparePositions b.position a.position
          = (comparePositions a.position b.position).swap := OrientedCmp.eq_swap
      by_cases hlt : a.lt b = true
      · rw [if_pos hlt, (lt_iff ha hb).mp hlt]
      · by_cases hgt : b.lt a = true
        · have hpos := (lt_iff hb ha).mp hgt
          rw [hswap, Ordering.swap_eq_lt] at hpos
          rw [if_neg hlt, if_pos hgt, hpos]
        · -- not before and not after each other, so at one place
          have heq : comparePositions a.position b.position = .eq := by
            rw [lt_iff ha hb] at hlt
            rw [lt_iff hb ha, hswap, Ordering.swap_eq_lt] at hgt
            cases hcmp : comparePositions a.position b.position with
            | lt => exact absurd hcmp hlt
            | eq => rfl
            | gt => exact absurd hcmp hgt
          rw [if_neg hlt, if_neg hgt, if_pos ((eq_iff ha hb).mpr heq), heq]

/-- Where a double is depends on the bits that are compared only. -/
theorem position_doubleBits (d : Binary64) : (doubleBits d).position = d.position := by
  rw [doubleBits]
  by_cases hnan : d.isNaN = true
  · rw [if_pos hnan, position_of_isNaN hnan]
    rfl
  · rw [if_neg hnan]

theorem compareDouble_of_doubleBits {a b : Binary64} (h : doubleBits a = doubleBits b) :
    compareDouble a b = .eq := by
  rw [compareDouble_eq, ← position_doubleBits a, ← position_doubleBits b, h]
  exact ReflCmp.compare_self

theorem position_int64MinValueAsDouble :
    int64MinValueAsDouble.position = positionOf (-9223372036854775808) := by
  have hexact : Exact (-9223372036854775808 : ℤ).natAbs := Or.inr (Or.inr (by decide))
  rw [int64MinValueAsDouble, position_ofInt hexact (by decide)]

theorem position_int64MaxValueAsDouble :
    int64MaxValueAsDouble.position = positionOf 9223372036854775808 := by
  have hrounded : int64MaxValueAsDouble = ofInt 9223372036854775808 := by decide
  have hexact : Exact (9223372036854775808 : ℤ).natAbs := Or.inr (Or.inr (by decide))
  rw [hrounded, position_ofInt hexact (by decide)]

theorem compare_toInt (i j : Int64) : compare i j = compare i.toInt j.toInt := by
  rcases Int.lt_trichotomy i.toInt j.toInt with hlt | heq | hgt
  · rw [compare_lt_iff_lt.mpr hlt, Std.compare_eq_lt, Int64.lt_iff_toInt_lt]
    exact hlt
  · rw [Int64.toInt_inj.mp heq, compare_self, compare_self]
  · rw [compare_gt_iff_gt.mpr hgt, Std.compare_eq_gt, Int64.lt_iff_toInt_lt]
    exact hgt

section MixedNumber

variable {d : Binary64}

theorem lt_int64MinValueAsDouble_iff (hnan : d.isNaN = false) :
    d.lt int64MinValueAsDouble = true ↔
      comparePositions d.position (positionOf (-9223372036854775808)) = .lt := by
  rw [lt_iff hnan (by decide), position_int64MinValueAsDouble]

theorem int64MaxValueAsDouble_le_iff (hnan : d.isNaN = false) :
    (int64MaxValueAsDouble.lt d || d.eq int64MaxValueAsDouble) = true ↔
      comparePositions d.position (positionOf 9223372036854775808) ≠ .lt := by
  have hswap : comparePositions int64MaxValueAsDouble.position d.position
      = (comparePositions d.position int64MaxValueAsDouble.position).swap := OrientedCmp.eq_swap
  rw [Bool.or_eq_true, lt_iff (by decide) hnan, eq_iff hnan (by decide), hswap,
    position_int64MaxValueAsDouble]
  cases comparePositions d.position (positionOf 9223372036854775808) <;> simp

theorem compareMixedNumber_of_isNaN (hnan : d.isNaN = true) (i : Int64) :
    compareMixedNumber d i = comparePositions d.position (positionOf i.toInt) := by
  unfold compareMixedNumber
  rw [position_of_isNaN hnan]
  simp only [lt, eq, hnan, Bool.true_or, Bool.or_true, Bool.false_eq_true, if_true, if_false,
    Bool.or_false]
  rfl

/-- A double below all integers of 64 bits. -/
theorem compareMixedNumber_of_low (hnan : d.isNaN = false)
    (hlow : comparePositions d.position (positionOf (-9223372036854775808)) = .lt) (i : Int64) :
    compareMixedNumber d i = comparePositions d.position (positionOf i.toInt) := by
  have hle : (comparePositions (positionOf (-9223372036854775808)) (positionOf i.toInt)).isLE := by
    rw [compare_positionOf, isLE_compare]
    exact i.le_toInt
  unfold compareMixedNumber
  rw [if_pos ((lt_int64MinValueAsDouble_iff hnan).mpr hlow), TransCmp.lt_of_lt_of_isLE hlow hle]

/-- A double above all integers of 64 bits. -/
theorem compareMixedNumber_of_high (hnan : d.isNaN = false)
    (hlow : comparePositions d.position (positionOf (-9223372036854775808)) ≠ .lt)
    (hhigh : comparePositions d.position (positionOf 9223372036854775808) ≠ .lt) (i : Int64) :
    compareMixedNumber d i = comparePositions d.position (positionOf i.toInt) := by
  have hlt : comparePositions (positionOf i.toInt) (positionOf 9223372036854775808) = .lt := by
    rw [compare_positionOf, compare_lt_iff_lt]
    exact i.toInt_lt
  have hge : (comparePositions (positionOf 9223372036854775808) d.position).isLE := by
    have hswap : comparePositions (positionOf 9223372036854775808) d.position
        = (comparePositions d.position (positionOf 9223372036854775808)).swap :=
      OrientedCmp.eq_swap
    rw [hswap]
    cases hcmp : comparePositions d.position (positionOf 9223372036854775808) with
    | lt => exact absurd hcmp hhigh
    | eq => rfl
    | gt => rfl
  unfold compareMixedNumber
  rw [if_neg (fun h => hlow ((lt_int64MinValueAsDouble_iff hnan).mp h)),
    if_pos ((int64MaxValueAsDouble_le_iff hnan).mpr hhigh),
    OrientedCmp.gt_of_lt (TransCmp.lt_of_lt_of_isLE hlt hge)]

/-- An infinity is on one of the two sides. -/
theorem isInfinite_of_within (hnan : d.isNaN = false)
    (hlow : comparePositions d.position (positionOf (-9223372036854775808)) ≠ .lt)
    (hhigh : comparePositions d.position (positionOf 9223372036854775808) = .lt) :
    d.isInfinite = false := by
  rw [Bool.eq_false_iff]
  intro hinf
  rw [comparePositions_eq, position, hnan, hinf] at hlow hhigh
  cases hsign : d.sign
  · rw [hsign] at hhigh
    cases hhigh
  · rw [hsign] at hlow
    exact hlow rfl

/-- A double whose integer part is an integer of 64 bits is compared by it, and by what is
left where the integer parts are the same. -/
theorem compareMixedNumber_of_within (hnan : d.isNaN = false)
    (hlow : comparePositions d.position (positionOf (-9223372036854775808)) ≠ .lt)
    (hhigh : comparePositions d.position (positionOf 9223372036854775808) = .lt) (i : Int64) :
    compareMixedNumber d i = comparePositions d.position (positionOf i.toInt) := by
  have hinfinite : d.isInfinite = false := isInfinite_of_within hnan hlow hhigh
  have hi := i.le_toInt
  have hi' := i.toInt_lt
  unfold compareMixedNumber
  rw [if_neg (fun h => hlow ((lt_int64MinValueAsDouble_iff hnan).mp h)),
    if_neg (fun h => (int64MaxValueAsDouble_le_iff hnan).mp h hhigh), hnan,
    if_neg Bool.false_ne_true]
  rw [comparePositions_positionOf hnan hinfinite] at hlow hhigh ⊢
  rw [ne_eq, compare_lt_iff_lt] at hlow
  rw [compare_lt_iff_lt] at hhigh
  have htrunc : -9223372036854775808 ≤ d.truncate := by
    by_contra hnot
    exact hlow (units_lt_of_truncate_lt (Int.not_le.mp hnot))
  have htrunc' : d.truncate < 9223372036854775808 := by
    by_contra hnot
    have hle := le_units_of_le_truncate (by decide) (Int.not_lt.mp hnot)
    omega
  have htoInt : (Int64.ofInt d.truncate).toInt = d.truncate :=
    Int64.toInt_ofInt_of_le htrunc htrunc'
  dsimp only
  rw [compare_toInt, htoInt]
  rcases Int.lt_trichotomy d.truncate i.toInt with hlt | heq | hgt
  · rw [compare_lt_iff_lt.mpr hlt, compare_lt_iff_lt.mpr (units_lt_of_truncate_lt hlt)]
  · -- the integer parts are the same, and this one is not rounded
    have hlog : d.truncate.natAbs.log2 < 1000 := by
      by_cases hzero : d.truncate.natAbs = 0
      · rw [hzero]
        decide
      · have hlog64 : d.truncate.natAbs.log2 < 64 := (Nat.log2_lt hzero).mpr (by omega)
        omega
    rw [heq, compare_self]
    dsimp only
    rw [compareDouble_eq, ← heq, position_ofInt d.exact_truncate hlog,
      comparePositions_positionOf hnan hinfinite]
  · rw [compare_gt_iff_gt.mpr hgt, compare_gt_iff_gt.mpr (lt_units_of_lt_truncate hgt)]

end MixedNumber

/-- **Numbers of both kinds are compared by their exact values.** -/
theorem compareMixedNumber_eq (d : Binary64) (i : Int64) :
    compareMixedNumber d i = comparePositions d.position (positionOf i.toInt) := by
  cases hnan : d.isNaN with
  | true => exact compareMixedNumber_of_isNaN hnan i
  | false =>
      by_cases hlow : comparePositions d.position (positionOf (-9223372036854775808)) = .lt
      · exact compareMixedNumber_of_low hnan hlow i
      · by_cases hhigh : comparePositions d.position (positionOf 9223372036854775808) = .lt
        · exact compareMixedNumber_of_within hnan hlow hhigh i
        · exact compareMixedNumber_of_high hnan hlow hhigh i

/-! ## 2. Simple values -/

/-- `FieldValue::Type`. -/
inductive FieldType where
  | null
  | boolean
  | integer
  | double
  | timestamp
  | serverTimestamp
  | string
  | blob
  | reference
  | geoPoint
  | array
  | object
deriving DecidableEq

namespace FieldType

/-- The place of a type in the enumeration. -/
def position : FieldType → ℕ
  | null => 0
  | boolean => 1
  | integer => 2
  | double => 3
  | timestamp => 4
  | serverTimestamp => 5
  | string => 6
  | blob => 7
  | reference => 8
  | geoPoint => 9
  | array => 10
  | object => 11

/-- `Comparable`. -/
def comparable (lhs rhs : FieldType) : Bool :=
  match lhs with
  | integer | double => rhs == integer || rhs == double
  | timestamp | serverTimestamp => rhs == timestamp || rhs == serverTimestamp
  | _ => lhs == rhs

end FieldType

/-- `CompareTypes`. -/
def compareTypes (lhs rhs : FieldType) : Ordering :=
  if lhs.comparable rhs then .eq else compare lhs.position rhs.position

/-- `DefaultComparator`, of a type with `<`. -/
def compareByLess {α : Type} (less : α → α → Bool) (left right : α) : Ordering :=
  if less left right then .lt else if less right left then .gt else .eq

structure Timestamp where
  seconds : Int64
  nanoseconds : Int32
deriving DecidableEq

def Timestamp.less (lhs rhs : Timestamp) : Bool :=
  decide (lhs.seconds < rhs.seconds) ||
    (lhs.seconds == rhs.seconds && decide (lhs.nanoseconds < rhs.nanoseconds))

/-- What the constructor of `GeoPoint` asserts of a coordinate. -/
def GeoPoint.inRange (bound : ℤ) (coordinate : Binary64) : Bool :=
  !coordinate.isNaN && ((ofInt (-bound)).lt coordinate || (ofInt (-bound)).eq coordinate) &&
    (coordinate.lt (ofInt bound) || coordinate.eq (ofInt bound))

structure GeoPoint where
  latitude : Binary64
  longitude : Binary64
  latitude_inRange : GeoPoint.inRange 90 latitude = true
  longitude_inRange : GeoPoint.inRange 180 longitude = true
deriving DecidableEq

def GeoPoint.less (lhs rhs : GeoPoint) : Bool :=
  if lhs.latitude.eq rhs.latitude then lhs.longitude.lt rhs.longitude
  else lhs.latitude.lt rhs.latitude

/-! ### Comparisons that are made with `<` -/

/-- What `DefaultComparator` makes of the `<` of an order is the order. -/
theorem compareByLess_eq {α β : Type} {less : α → α → Bool} {key : α → β} {cmp : β → β → Ordering}
    [OrientedCmp cmp] (h : ∀ a b, less a b = true ↔ cmp (key a) (key b) = .lt) (a b : α) :
    compareByLess less a b = cmp (key a) (key b) := by
  have hab := h a b
  have hba := h b a
  have hswap : cmp (key b) (key a) = (cmp (key a) (key b)).swap := OrientedCmp.eq_swap
  rw [hswap, Ordering.swap_eq_lt] at hba
  unfold compareByLess
  cases hcmp : cmp (key a) (key b) with
  | lt => rw [if_pos (hab.mpr hcmp)]
  | eq =>
      rw [hcmp] at hab hba
      rw [if_neg (fun h => nomatch hab.mp h), if_neg (fun h => nomatch hba.mp h)]
  | gt =>
      rw [hcmp] at hab
      rw [if_neg (fun h => nomatch hab.mp h), if_pos (hba.mpr hcmp)]

def compareTimes : ℤ × ℤ → ℤ × ℤ → Ordering :=
  compareLex (compareOn Prod.fst) (compareOn Prod.snd)

instance : TransCmp compareTimes := inferInstanceAs (TransCmp (compareLex _ _))

def Timestamp.time (t : Timestamp) : ℤ × ℤ := (t.seconds.toInt, t.nanoseconds.toInt)

theorem Timestamp.less_iff (a b : Timestamp) :
    a.less b = true ↔ compareTimes a.time b.time = .lt := by
  have hcompare : compareTimes a.time b.time
      = (compare a.seconds.toInt b.seconds.toInt).then
          (compare a.nanoseconds.toInt b.nanoseconds.toInt) := rfl
  rw [hcompare, Ordering.then_eq_lt, compare_lt_iff_lt, compare_lt_iff_lt, Std.compare_eq_iff_eq,
    Timestamp.less, Bool.or_eq_true, Bool.and_eq_true, decide_eq_true_iff, decide_eq_true_iff,
    beq_iff_eq, Int64.lt_iff_toInt_lt, Int32.lt_iff_toInt_lt, Int64.toInt_inj]

theorem compareTimestamps_eq (a b : Timestamp) :
    compareByLess Timestamp.less a b = compareTimes a.time b.time :=
  compareByLess_eq Timestamp.less_iff a b

def comparePlaces : (ℕ × ℤ) × (ℕ × ℤ) → (ℕ × ℤ) × (ℕ × ℤ) → Ordering :=
  compareLex (fun p r => comparePositions p.1 r.1) fun p r => comparePositions p.2 r.2

instance : TransCmp comparePlaces :=
  have : TransCmp fun p r : (ℕ × ℤ) × (ℕ × ℤ) => comparePositions p.1 r.1 :=
    Document.transCmp_comap Prod.fst comparePositions
  have : TransCmp fun p r : (ℕ × ℤ) × (ℕ × ℤ) => comparePositions p.2 r.2 :=
    Document.transCmp_comap Prod.snd comparePositions
  inferInstanceAs (TransCmp (compareLex _ _))

def GeoPoint.place (p : GeoPoint) : (ℕ × ℤ) × (ℕ × ℤ) :=
  (p.latitude.position, p.longitude.position)

theorem GeoPoint.isNaN_of_inRange {bound : ℤ} {coordinate : Binary64}
    (h : inRange bound coordinate = true) : coordinate.isNaN = false := by
  rw [inRange, Bool.and_eq_true, Bool.and_eq_true, Bool.not_eq_true'] at h
  exact h.1.1

/-- Coordinates are numbers, so the `<` of points is that of an order. -/
theorem GeoPoint.less_iff (a b : GeoPoint) :
    a.less b = true ↔ comparePlaces a.place b.place = .lt := by
  have hlat := lt_iff (isNaN_of_inRange a.latitude_inRange) (isNaN_of_inRange b.latitude_inRange)
  have heq := eq_iff (isNaN_of_inRange a.latitude_inRange) (isNaN_of_inRange b.latitude_inRange)
  have hlong :=
    lt_iff (isNaN_of_inRange a.longitude_inRange) (isNaN_of_inRange b.longitude_inRange)
  have hcompare : comparePlaces a.place b.place
      = (comparePositions a.latitude.position b.latitude.position).then
          (comparePositions a.longitude.position b.longitude.position) := rfl
  rw [hcompare, Ordering.then_eq_lt, ← hlat, ← heq, ← hlong, GeoPoint.less]
  by_cases hsame : a.latitude.eq b.latitude = true
  · have hnot : ¬ a.latitude.lt b.latitude = true := by
      rw [hlat, heq.mp hsame]
      exact fun h => nomatch h
    simp [hsame, hnot]
  · simp [hsame]

theorem compareGeoPoints_eq (a b : GeoPoint) :
    compareByLess GeoPoint.less a b = comparePlaces a.place b.place :=
  compareByLess_eq GeoPoint.less_iff a b

structure DatabaseId where
  projectId : String
  databaseId : String
deriving DecidableEq

/-- `DatabaseId::CompareTo`. -/
def DatabaseId.compareTo (lhs rhs : DatabaseId) : Ordering :=
  (compare lhs.projectId rhs.projectId).then (compare lhs.databaseId rhs.databaseId)

/-- The values that hold no others. The value that a server timestamp replaces takes no
part in what follows. -/
inductive SimpleValue where
  | null
  | boolean (value : Bool)
  | integer (value : Int64)
  | double (value : Binary64)
  | timestamp (value : Timestamp)
  | serverTimestamp (localWriteTime : Timestamp)
  | string (value : String)
  | blob (value : List UInt8)
  | reference (databaseId : DatabaseId) (key : DocumentKey)
  | geoPoint (value : GeoPoint)
deriving DecidableEq

namespace SimpleValue

def type : SimpleValue → FieldType
  | null => .null
  | boolean _ => .boolean
  | integer _ => .integer
  | double _ => .double
  | timestamp _ => .timestamp
  | serverTimestamp _ => .serverTimestamp
  | string _ => .string
  | blob _ => .blob
  | reference _ _ => .reference
  | geoPoint _ => .geoPoint

/-- `CompareTo` of the classes of simple values. -/
def compareTo (lhs rhs : SimpleValue) : Ordering :=
  match lhs, rhs with
  | boolean a, boolean b => compare a b
  | integer a, integer b => compare a b
  | double a, double b => compareDouble a b
  | integer a, double b => (compareMixedNumber b a).swap
  | double a, integer b => compareMixedNumber a b
  | timestamp a, timestamp b => compareByLess Timestamp.less a b
  | timestamp _, serverTimestamp _ => .lt
  | serverTimestamp _, timestamp _ => .gt
  | serverTimestamp a, serverTimestamp b => compareByLess Timestamp.less a b
  | string a, string b => compare a b
  | blob a, blob b => List.compareLex compare a b
  | reference a k, reference b l => (a.compareTo b).then (compareKeys k l)
  | geoPoint a, geoPoint b => compareByLess GeoPoint.less a b
  | a, b => compareTypes a.type b.type

/-- `Equals` of the classes of simple values. A double is compared by its bits, where NaN is one
value, while geo points are `==` if none is less than the other. -/
def equals (lhs rhs : SimpleValue) : Bool :=
  match lhs, rhs with
  | double a, double b => doubleBitwiseEquals a b
  | geoPoint a, geoPoint b => !(GeoPoint.less a b || GeoPoint.less b a)
  | a, b => a == b

/-! ### The order of simple values -/

/-- The place of the types, where integers and doubles have one and server timestamps are
after timestamps. -/
def rank : SimpleValue → ℕ
  | null => 0
  | boolean _ => 1
  | integer _ | double _ => 2
  | timestamp _ => 4
  | serverTimestamp _ => 5
  | string _ => 6
  | blob _ => 7
  | reference _ _ => 8
  | geoPoint _ => 9

def booleanKey : SimpleValue → Bool
  | boolean a => a
  | _ => false

def numberKey : SimpleValue → ℕ × ℤ
  | integer a => positionOf a.toInt
  | double a => a.position
  | _ => (0, 0)

def timeKey : SimpleValue → ℤ × ℤ
  | timestamp a | serverTimestamp a => a.time
  | _ => (0, 0)

def stringKey : SimpleValue → String
  | string a => a
  | _ => ""

def blobKey : SimpleValue → List UInt8
  | blob a => a
  | _ => []

def referenceKey : SimpleValue → String × String × ResourcePath
  | reference a k => (a.projectId, a.databaseId, k.path)
  | _ => ("", "", [])

def geoPointKey : SimpleValue → (ℕ × ℤ) × (ℕ × ℤ)
  | geoPoint a => a.place
  | _ => ((0, 0), (0, 0))

def compareReferences : String × String × ResourcePath → String × String × ResourcePath → Ordering :=
  compareLex (compareLex (compareOn fun r => r.1) (compareOn fun r => r.2.1))
    fun r s => comparePaths r.2.2 s.2.2

/-- The order of the values of one rank. -/
def compareWithin (rank : ℕ) (a b : SimpleValue) : Ordering :=
  match rank with
  | 1 => compareOn booleanKey a b
  | 2 => comparePositions a.numberKey b.numberKey
  | 4 | 5 => compareTimes a.timeKey b.timeKey
  | 6 => compareOn stringKey a b
  | 7 => List.compareLex compare a.blobKey b.blobKey
  | 8 => compareReferences a.referenceKey b.referenceKey
  | 9 => comparePlaces a.geoPointKey b.geoPointKey
  | _ => .eq

instance : TransCmp compareReferences :=
  have : TransCmp fun r s : String × String × ResourcePath => comparePaths r.2.2 s.2.2 :=
    Document.transCmp_comap (fun r : String × String × ResourcePath => r.2.2) comparePaths
  inferInstanceAs (TransCmp (compareLex _ _))

instance (rank : ℕ) : TransCmp (compareWithin rank) := by
  unfold compareWithin
  split
  · infer_instance
  · exact Document.transCmp_comap numberKey comparePositions
  · exact Document.transCmp_comap timeKey compareTimes
  · exact Document.transCmp_comap timeKey compareTimes
  · infer_instance
  · exact Document.transCmp_comap blobKey (List.compareLex compare)
  · exact Document.transCmp_comap referenceKey compareReferences
  · exact Document.transCmp_comap geoPointKey comparePlaces
  · exact { eq_swap := rfl, isLE_trans := fun _ _ => rfl }

/-- Simple values are in the order of their ranks, and in that of their keys in one rank. -/
theorem compareTo_eq (a b : SimpleValue) :
    a.compareTo b = (compare a.rank b.rank).then (compareWithin a.rank a b) := by
  cases a with
  | null => cases b <;> rfl
  | boolean a => cases b <;> rfl
  | integer a =>
      cases b with
      | integer b => exact (compare_toInt a b).trans (compare_positionOf a.toInt b.toInt).symm
      | double b =>
          have hswap : comparePositions (positionOf a.toInt) b.position
              = (comparePositions b.position (positionOf a.toInt)).swap := OrientedCmp.eq_swap
          exact (congrArg Ordering.swap (compareMixedNumber_eq b a)).trans hswap.symm
      | _ => rfl
  | double a =>
      cases b with
      | integer b => exact compareMixedNumber_eq a b
      | double b => exact compareDouble_eq a b
      | _ => rfl
  | timestamp a =>
      cases b with
      | timestamp b =>
          exact compareTimestamps_eq a b
      | _ => rfl
  | serverTimestamp a =>
      cases b with
      | serverTimestamp b => exact compareTimestamps_eq a b
      | _ => rfl
  | string a => cases b <;> rfl
  | blob a => cases b <;> rfl
  | reference a k => cases b <;> rfl
  | geoPoint a =>
      cases b with
      | geoPoint b => exact compareGeoPoints_eq a b
      | _ => rfl

/-- **The comparison of simple values is an order.** -/
instance : TransCmp compareTo := by
  have heq : compareTo = fun a b => (compare a.rank b.rank).then (compareWithin a.rank a b) := by
    funext a b
    exact compareTo_eq a b
  rw [heq]
  exact Document.transCmp_byKind rank compareWithin

/-! ### The same simple value -/

/-- Values that are `==` are one value, NaNs or geo points. -/
theorem equals_iff {a b : SimpleValue} : a.equals b = true ↔
    a = b ∨ (∃ x y, a = double x ∧ b = double y ∧ doubleBits x = doubleBits y)
      ∨ ∃ p q, a = geoPoint p ∧ b = geoPoint q ∧ a.compareTo b = .eq := by
  have hdoubles : ∀ x y : Binary64, (double x).equals (double y) = true
      ↔ doubleBits x = doubleBits y := by
    intro x y
    rw [equals, doubleBitwiseEquals, beq_iff_eq]
  have hpoints : ∀ p q : GeoPoint, (geoPoint p).equals (geoPoint q) = true
      ↔ (geoPoint p).compareTo (geoPoint q) = .eq := by
    intro p q
    rw [equals, compareTo, compareByLess]
    cases GeoPoint.less p q <;> cases GeoPoint.less q p <;> decide
  constructor
  · intro h
    cases a with
    | double x =>
        cases b with
        | double y => exact Or.inr (Or.inl ⟨x, y, rfl, rfl, (hdoubles x y).mp h⟩)
        | _ => exact Or.inl (eq_of_beq h)
    | geoPoint p =>
        cases b with
        | geoPoint q => exact Or.inr (Or.inr ⟨p, q, rfl, rfl, (hpoints p q).mp h⟩)
        | _ => exact Or.inl (eq_of_beq h)
    | _ => exact Or.inl (eq_of_beq h)
  · rintro (rfl | ⟨x, y, rfl, rfl, h⟩ | ⟨p, q, rfl, rfl, h⟩)
    · cases a with
      | double x => exact (hdoubles x x).mpr rfl
      | geoPoint p => exact (hpoints p p).mpr ReflCmp.compare_self
      | _ => exact beq_self_eq_true _
    · exact (hdoubles x y).mpr h
    · exact (hpoints p q).mpr h

theorem equals_refl (a : SimpleValue) : a.equals a = true := equals_iff.mpr (Or.inl rfl)

theorem compareTo_of_equals {a b : SimpleValue} (h : a.equals b = true) : a.compareTo b = .eq := by
  rcases equals_iff.mp h with rfl | ⟨x, y, rfl, rfl, hbits⟩ | ⟨p, q, -, -, heq⟩
  · exact ReflCmp.compare_self
  · exact compareDouble_of_doubleBits hbits
  · exact heq

theorem equals_trans {a b c : SimpleValue} (h : a.equals b = true) (h' : b.equals c = true) :
    a.equals c = true := by
  rcases equals_iff.mp h with rfl | ⟨x, y, rfl, rfl, hbits⟩ | ⟨p, q, rfl, rfl, heq⟩
  · exact h'
  · rcases equals_iff.mp h' with rfl | ⟨y', z, hy, rfl, hbits'⟩ | ⟨p, q, hy, -, -⟩
    · exact h
    · cases hy
      exact equals_iff.mpr (Or.inr (Or.inl ⟨x, z, rfl, rfl, hbits.trans hbits'⟩))
    · cases hy
  · rcases equals_iff.mp h' with rfl | ⟨x, y, hq, -, -⟩ | ⟨q', r, hq, rfl, heq'⟩
    · exact h
    · cases hq
    · exact equals_iff.mpr (Or.inr (Or.inr ⟨p, r, rfl, rfl, TransCmp.eq_trans heq heq'⟩))

end SimpleValue

/-! ## 3. Values -/

/-- `FieldValue`: simple values, arrays and maps. -/
abbrev FieldValue := Document.Value SimpleValue

namespace FieldValue

open Document.Value

def type : FieldValue → FieldType
  | .leaf v => v.type
  | .array _ => .array
  | .map _ => .object

mutual

/-- `FieldValue::CompareTo`. -/
def compareTo : FieldValue → FieldValue → Ordering
  | .leaf v, .leaf w => v.compareTo w
  | .array vs, .array ws => compareArrays vs ws
  | .map l, .map l' => compareMaps l l'
  | v, w => compareTypes (type v) (type w)

/-- `CompareContainer` of two arrays. -/
def compareArrays : List FieldValue → List FieldValue → Ordering
  | [], [] => .eq
  | [], _ :: _ => .lt
  | _ :: _, [] => .gt
  | v :: vs, w :: ws => (compareTo v w).then (compareArrays vs ws)

/-- `CompareContainer` of two maps, whose entries are compared as pairs. -/
def compareMaps : List (String × FieldValue) → List (String × FieldValue) → Ordering
  | [], [] => .eq
  | [], _ :: _ => .lt
  | _ :: _, [] => .gt
  | (key, v) :: l, (key', w) :: l' =>
      ((compare key key').then (compareTo v w)).then (compareMaps l l')

end

mutual

/-- `FieldValue::Equals`, which is `operator==`. -/
def equals : FieldValue → FieldValue → Bool
  | .leaf v, .leaf w => v.equals w
  | .array vs, .array ws => equalsArrays vs ws
  | .map l, .map l' => equalsMaps l l'
  | _, _ => false

/-- `absl::c_equal` of two arrays. -/
def equalsArrays : List FieldValue → List FieldValue → Bool
  | [], [] => true
  | v :: vs, w :: ws => equals v w && equalsArrays vs ws
  | _, _ => false

/-- `absl::c_equal` of two maps. -/
def equalsMaps : List (String × FieldValue) → List (String × FieldValue) → Bool
  | [], [] => true
  | (key, v) :: l, (key', w) :: l' => key == key' && equals v w && equalsMaps l l'
  | _, _ => false

end

theorem compareTypes_leaf (v : SimpleValue) :
    compareTypes v.type .array = .lt ∧ compareTypes v.type .object = .lt
      ∧ compareTypes .array v.type = .gt ∧ compareTypes .object v.type = .gt := by
  cases v <;> exact ⟨rfl, rfl, rfl, rfl⟩

mutual

/-- Values are compared as their words are, whatever comes after them. -/
theorem compareWords_append (v w : FieldValue) (r s : List (Document.Token SimpleValue)) :
    compareWords SimpleValue.compareTo (v.tokens ++ r) (w.tokens ++ s)
      = (compareTo v w).then (compareWords SimpleValue.compareTo r s) := by
  match v, w with
  | .leaf v, .leaf w => exact compareWords_cons _ _ r s
  | .array vs, .array ws => exact compareWords_appendArray vs ws r s
  | .map l, .map l' => exact compareWords_appendMap l l' r s
  | .leaf v, .array ws =>
      have htype : compareTo (.leaf v) (.array ws) = .lt := (compareTypes_leaf v).1
      rw [htype]
      exact compareWords_cons _ _ r _
  | .leaf v, .map l =>
      have htype : compareTo (.leaf v) (.map l) = .lt := (compareTypes_leaf v).2.1
      rw [htype]
      exact compareWords_cons _ _ r _
  | .array vs, .leaf w =>
      have htype : compareTo (.array vs) (.leaf w) = .gt := (compareTypes_leaf w).2.2.1
      rw [htype]
      exact compareWords_cons _ _ _ s
  | .map l, .leaf w =>
      have htype : compareTo (.map l) (.leaf w) = .gt := (compareTypes_leaf w).2.2.2
      rw [htype]
      exact compareWords_cons _ _ _ s
  | .array vs, .map l | .map l, .array ws => exact compareWords_cons _ _ _ _

theorem compareWords_appendArray (vs ws : List FieldValue) (r s : List (Document.Token SimpleValue)) :
    compareWords SimpleValue.compareTo (arrayTokens vs ++ r) (arrayTokens ws ++ s)
      = (compareArrays vs ws).then (compareWords SimpleValue.compareTo r s) := by
  match vs, ws with
  | [], [] => rfl
  | [], w :: ws =>
      rw [arrayTokens, arrayTokens, List.append_assoc]
      exact compareWords_stop_tokens w _ _
  | v :: vs, [] =>
      rw [arrayTokens, arrayTokens, List.append_assoc]
      exact compareWords_tokens_stop v _ _
  | v :: vs, w :: ws =>
      rw [arrayTokens, arrayTokens, List.append_assoc, List.append_assoc, compareWords_append v w,
        compareWords_appendArray vs ws, compareArrays, Ordering.then_assoc]

theorem compareWords_appendMap (l l' : List (String × FieldValue))
    (r s : List (Document.Token SimpleValue)) :
    compareWords SimpleValue.compareTo (fieldTokens l ++ r) (fieldTokens l' ++ s)
      = (compareMaps l l').then (compareWords SimpleValue.compareTo r s) := by
  match l, l' with
  | [], [] => rfl
  | [], (key, w) :: l' => rfl
  | (key, v) :: l, [] => rfl
  | (key, v) :: l, (key', w) :: l' =>
      rw [fieldTokens, fieldTokens, List.cons_append, List.cons_append, List.append_assoc,
        List.append_assoc, compareWords_cons, compareWords_append v w,
        compareWords_appendMap l l', compareMaps, Ordering.then_assoc, Ordering.then_assoc]
      rfl

end

theorem compareTo_eq (v w : FieldValue) :
    compareTo v w = compareWords SimpleValue.compareTo v.tokens w.tokens := by
  have happend := compareWords_append v w [] []
  rw [List.append_nil, List.append_nil, compareWords_nil, Ordering.then_eq] at happend
  exact happend.symm

instance : TransCmp compareTo := by
  have heq : compareTo = fun v w => compareWords SimpleValue.compareTo v.tokens w.tokens := by
    funext v w
    exact compareTo_eq v w
  rw [heq]
  exact Document.transCmp_comap tokens (compareWords SimpleValue.compareTo)

instance : Ord FieldValue := ⟨compareTo⟩

instance : TransOrd FieldValue := inferInstanceAs (TransCmp compareTo)

/-- **The comparison of values is an order, however deep they are nested**, and values that
compare the same are so to every other value. -/
theorem compareTo_isOrder :
    (∀ v w : FieldValue, compareTo v w = (compareTo w v).swap) ∧
    (∀ u v w : FieldValue, (compareTo u v).isLE → (compareTo v w).isLE → (compareTo u w).isLE) ∧
    ∀ u v w : FieldValue, compareTo u v = .eq → compareTo u w = compareTo v w :=
  ⟨fun _ _ => OrientedCmp.eq_swap, fun _ _ _ => TransCmp.isLE_trans,
    fun _ _ _ => TransCmp.congr_left⟩

end FieldValue

end FreeFood.Firestore
