import ByteDB.TableData

/-!
# Values and their comparison

The values of a row. Integers are words of their width, floating-point numbers
the bits of an `f64`, and JSON values are of a type of their own. Arithmetic
overflows as it does in a release build.
-/

set_option autoImplicit false

namespace ByteDB.Tuple

structure Uuid where
  bytes : Bytes
  size : bytes.length = 16
  deriving DecidableEq

inductive Value (J : Type) where
  | null
  | bool (b : Bool)
  | int64 (n : BitVec 64)
  | float64 (bits : BitVec 64)
  | text (s : String)
  | bytes (b : Bytes)
  | json (j : J)
  | timestamp (t : BitVec 64)
  | date (d : BitVec 32)
  | decimal (mantissa : BitVec 128) (scale : UInt8)
  | uuid (u : Uuid)
  | interval (us : BitVec 64)
  deriving DecidableEq

def utf8 (s : String) : Bytes := s.toByteArray.data.toList

def fromUtf8 (b : Bytes) : Option String := String.fromUTF8? ⟨b.toArray⟩

lemma fromUtf8_utf8 (s : String) : fromUtf8 (utf8 s) = some s := by
  rw [fromUtf8, utf8, Array.toArray_toList, String.fromUTF8?]
  exact dif_pos s.isValidUTF8

lemma utf8_inj {s s' : String} (h : utf8 s = utf8 s') : s = s' := by
  have hback := congrArg fromUtf8 h
  rw [fromUtf8_utf8, fromUtf8_utf8] at hback
  exact Option.some.inj hback

namespace F64

def isNan (x : BitVec 64) : Bool := 0x7ff0000000000000 < x.toNat % 2^63

/-- The place of a number that is not a NaN; both zeros have the same. -/
def rank (x : BitVec 64) : ℤ :=
  if x.msb then -((x.toNat % 2^63 : ℕ) : ℤ) else ((x.toNat % 2^63 : ℕ) : ℤ)

def partialCmp (x y : BitVec 64) : Option Ordering :=
  if isNan x || isNan y then none else some (compare (rank x) (rank y))

/-- The bits of a natural number, rounded to the nearest, ties to even. -/
def bitsOfNat (m : ℕ) : ℕ :=
  if m = 0 then 0
  else
    let e := Nat.log2 m
    if e ≤ 52 then (e+1023)*2^52+(m*2^(52-e)-2^52)
    else
      let q := m/2^(e-52)
      let r := m % 2^(e-52)
      let half := 2^(e-53)
      let rounded := if half < r ∨ r = half ∧ q % 2 = 1 then q+1 else q
      (e+1023)*2^52+(rounded-2^52)

/-- `as f64` -/
def ofInt64 (n : BitVec 64) : BitVec 64 :=
  if n.msb then BitVec.ofNat 64 (2^63+bitsOfNat n.toInt.natAbs)
  else BitVec.ofNat 64 (bitsOfNat n.toNat)

end F64

def compareSigned {w : ℕ} (a b : BitVec w) : Ordering := compare a.toInt b.toInt

def checkedMul (a b : BitVec 128) : Option (BitVec 128) :=
  let p := a.toInt*b.toInt
  if -2^127 ≤ p ∧ p < 2^127 then some (BitVec.ofInt 128 p) else none

def saturatingMul (a b : BitVec 128) : BitVec 128 :=
  let p := a.toInt*b.toInt
  BitVec.ofInt 128 (max (-2^127) (min p (2^127-1)))

def powTen (k : ℕ) : BitVec 128 := (10#128)^k

def decimalAlign (a : BitVec 128) (sa : UInt8) (b : BitVec 128) (sb : UInt8) :
    BitVec 128 × BitVec 128 :=
  if sa = sb then (a,b)
  else if sa < sb then (saturatingMul a (powTen (sb.toNat-sa.toNat)),b)
  else (a,saturatingMul b (powTen (sa.toNat-sb.toNat)))

namespace Value
variable {J : Type}

def isNull : Value J → Bool
  | .null => true
  | _ => false

def dataType : Value J → Option DataType
  | .null => none
  | .bool _ => some .bool
  | .int64 _ => some .int64
  | .float64 _ => some .float64
  | .text _ => some .text
  | .bytes _ => some .bytes
  | .json _ => some .json
  | .timestamp _ => some .timestamp
  | .date _ => some .date
  | .decimal _ _ => some .decimal
  | .uuid _ => some .uuid
  | .interval _ => some .interval

def compareBytes (a b : Bytes) : Ordering := compare a b

def compare : Value J → Value J → Option Ordering
  | .null, .null => some .eq
  | .null, _ => some .lt
  | _, .null => some .gt
  | .bool a, .bool b => some (Ord.compare a b)
  | .int64 a, .int64 b => some (compareSigned a b)
  | .int64 a, .float64 b => F64.partialCmp (F64.ofInt64 a) b
  | .float64 a, .int64 b => F64.partialCmp a (F64.ofInt64 b)
  | .float64 a, .float64 b => F64.partialCmp a b
  | .text a, .text b => some (compareBytes (utf8 a) (utf8 b))
  | .bytes a, .bytes b => some (compareBytes a b)
  | .timestamp a, .timestamp b => some (compareSigned a b)
  | .date a, .date b => some (compareSigned a b)
  | .uuid a, .uuid b => some (compareBytes a.bytes b.bytes)
  | .decimal a sa, .decimal b sb =>
    let (na,nb) := decimalAlign a sa b sb
    some (compareSigned na nb)
  | .decimal a sa, .int64 b =>
    (checkedMul (b.signExtend 128) (powTen sa.toNat)).map (fun bb => compareSigned a bb)
  | .int64 a, .decimal b sb =>
    (checkedMul (a.signExtend 128) (powTen sb.toNat)).map (fun aa => compareSigned aa b)
  | _, _ => none

end Value

structure FloatSums where
  add : BitVec 64 → BitVec 64 → BitVec 64
  sub : BitVec 64 → BitVec 64 → BitVec 64

namespace Value
variable {J : Type} (ops : FloatSums)

/-- `checked_add` and `checked_sub`, with a sum of floats where they fail. -/
def ofChecked (n : ℤ) (f : BitVec 64) : Value J :=
  if -2^63 ≤ n ∧ n < 2^63 then .int64 (.ofInt 64 n) else .float64 f

def plus : Value J → Value J → Value J
  | .int64 a, .int64 b => ofChecked (a.toInt+b.toInt) (ops.add (F64.ofInt64 a) (F64.ofInt64 b))
  | .float64 a, .float64 b => .float64 (ops.add a b)
  | .int64 a, .float64 b => .float64 (ops.add (F64.ofInt64 a) b)
  | .float64 a, .int64 b => .float64 (ops.add a (F64.ofInt64 b))
  | .text a, .text b => .text (a++b)
  | .timestamp t, .interval i => .timestamp (t+i)
  | .interval i, .timestamp t => .timestamp (t+i)
  | .date d, .interval i => .date (d+i.setWidth 32)
  | .interval i, .date d => .date (d+i.setWidth 32)
  | .interval a, .interval b => .interval (a+b)
  | _, _ => .null

def minus : Value J → Value J → Value J
  | .int64 a, .int64 b => ofChecked (a.toInt-b.toInt) (ops.sub (F64.ofInt64 a) (F64.ofInt64 b))
  | .float64 a, .float64 b => .float64 (ops.sub a b)
  | .int64 a, .float64 b => .float64 (ops.sub (F64.ofInt64 a) b)
  | .float64 a, .int64 b => .float64 (ops.sub a (F64.ofInt64 b))
  | .timestamp t, .interval i => .timestamp (t-i)
  | .date d, .interval i => .date (d-i.setWidth 32)
  | .interval a, .interval b => .interval (a-b)
  | _, _ => .null

def days (n : ℤ) : Value J := .interval (.ofInt 64 (n*86400000000))

def daysAfter (d : BitVec 32) (n : ℤ) : Value J := .date (.ofInt 32 (d.toInt+n))

lemma ofInt_inj {w : ℕ} (x y : ℤ) : BitVec.ofInt w x = BitVec.ofInt w y ↔ (2^w : ℤ) ∣ x-y := by
  rw [← BitVec.toInt_inj, BitVec.toInt_ofInt, BitVec.toInt_ofInt,
    Int.bmod_eq_bmod_iff_bmod_sub_eq_zero, ← Int.dvd_iff_bmod_eq_zero]
  norm_cast

lemma setWidth_ofInt (x : ℤ) : (BitVec.ofInt 64 x).setWidth 32 = BitVec.ofInt 32 x := by
  refine BitVec.eq_of_toNat_eq ?_
  rw [BitVec.toNat_setWidth, BitVec.toNat_ofInt, BitVec.toNat_ofInt]
  omega

lemma whole_days {n : ℤ} (hn : |n| < 2^32) : (2^32 : ℤ) ∣ n*86400000000-n ↔ n = 0 := by
  constructor
  · intro h
    have hodd : IsCoprime (2^32 : ℤ) 86399999999 := by norm_num [Int.isCoprime_iff_gcd_eq_one]
    rw [show n*86400000000-n = n*86399999999 by ring] at h
    exact Int.eq_zero_of_abs_lt_dvd (hodd.dvd_of_dvd_mul_right h) hn
  · rintro rfl
    exact dvd_zero _

/-- A date is moved by the low 32 bits of the microseconds, which is right for
the empty interval only. Intervals are taken from timestamps as they are added. -/
theorem date_moved_iff (d : BitVec 32) (n : ℤ) :
    (-2^31 ≤ d.toInt+n ∧ d.toInt+n < 2^31 →
      (plus ops (.date d) (days n : Value J) = daysAfter d n ∧
        plus ops (days n : Value J) (.date d) = daysAfter d n ↔ n = 0)) ∧
    (-2^31 ≤ d.toInt-n ∧ d.toInt-n < 2^31 →
      (minus ops (.date d) (days n : Value J) = daysAfter d (-n) ↔ n = 0)) ∧
    ∀ t i : BitVec 64, -2^63 ≤ t.toInt+i.toInt ∧ t.toInt+i.toInt < 2^63 →
      minus ops (plus ops (.timestamp t) (.interval i)) (.interval i : Value J) = .timestamp t := by
  have hlow := d.le_toInt
  have hhigh := d.toInt_lt
  have hsum : ∀ x, d+BitVec.ofInt 32 x = .ofInt 32 (d.toInt+x) := by
    intro x
    rw [BitVec.ofInt_add, BitVec.ofInt_toInt]
  have hdiff : ∀ x, d-BitVec.ofInt 32 x = .ofInt 32 (d.toInt-x) := by
    intro x
    rw [sub_eq_iff_eq_add, ← BitVec.ofInt_add, sub_add_cancel, BitVec.ofInt_toInt]
  refine ⟨fun hrange => ?_,fun hrange => ?_,fun t i _ => ?_⟩
  · simp only [plus, days, daysAfter, date.injEq, and_self]
    rw [setWidth_ofInt, hsum, ofInt_inj, add_sub_add_left_eq_sub]
    exact whole_days (abs_lt.mpr ⟨by omega,by omega⟩)
  · simp only [minus, days, daysAfter, date.injEq]
    rw [setWidth_ofInt, hdiff, ofInt_inj, sub_eq_add_neg d.toInt, add_sub_add_left_eq_sub,
      neg_sub_neg, dvd_sub_comm]
    exact whole_days (abs_lt.mpr ⟨by omega,by omega⟩)
  · rw [plus, minus, BitVec.add_sub_cancel]

/-- One day later is 500654080 days later. -/
theorem next_day_far : plus ⟨fun x _ => x,fun x _ => x⟩ (.date 0) (days 1 : Value Unit) =
    .date 500654080 ∧ (daysAfter 0 1 : Value Unit) = .date 1 := by
  decide

end Value

end ByteDB.Tuple
