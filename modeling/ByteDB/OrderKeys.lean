import ByteDB.Aggregates

/-!
# The order of encoded keys

The encodings of values of one type stand in the order of the values, whatever
follows them, and none is the beginning of another. So rows are in the order of
their encodings, and the first values of a row can be read off its encoding.
-/

set_option autoImplicit false

namespace ByteDB.Tuple
open LittleEndian List
open Value (compareBytes)

lemma compareBytes_cons (b c : UInt8) (r r' : Bytes) :
    compareBytes (b::r) (c::r') = (compare b c).then (compareBytes r r') :=
  List.compare_cons_cons

lemma compareBytes_of_length {p q : Bytes} (h : p.length = q.length) (r r' : Bytes) :
    compareBytes (p++r) (q++r') = (compareBytes p q).then (compareBytes r r') := by
  induction p generalizing q with
  | nil =>
    cases length_eq_zero_iff.mp h.symm
    rfl
  | cons b p ih =>
    cases q with
    | nil => cases h
    | cons c q => simp [compareBytes_cons, ih (Nat.succ.inj h), Ordering.then_assoc]

lemma compareBytes_eq {p q : Bytes} : compareBytes p q = .eq ↔ p = q :=
  Std.LawfulEqOrd.compare_eq_iff_eq

lemma compareBytes_lt {p q : Bytes} : compareBytes p q = .lt ↔ p < q := by
  induction p generalizing q with
  | nil =>
    cases q with
    | nil => simp [compareBytes_eq.mpr rfl]
    | cons c q => exact iff_of_true rfl (nil_lt_cons ..)
  | cons b p ih =>
    cases q with
    | nil => exact iff_of_false nofun (not_lt_nil _)
    | cons c q =>
      rw [compareBytes_cons, Ordering.then_eq_lt, compare_lt_iff_lt, compare_eq_iff_eq, ih,
        cons_lt_cons_iff]

lemma compareBytes_le {p q : Bytes} : compareBytes p q ≠ .gt ↔ p ≤ q := by
  rw [← not_lt, ← compareBytes_lt, ← compareBytes_swap p q, Ordering.swap_eq_lt]

lemma compare_toNat (b c : UInt8) : compare b c = compare b.toNat c.toNat := by
  simp [compare, compareOfLessAndEq, UInt8.lt_iff_toNat_lt, ← UInt8.toNat_inj]

lemma compare_div_mod (m n k : ℕ) :
    (compare (m/k) (n/k)).then (compare (m % k) (n % k)) = compare m n := by
  rcases lt_trichotomy (m/k) (n/k) with h | h | h
  · rw [compare_lt_iff_lt.mpr h, compare_lt_iff_lt.mpr (Nat.lt_of_div_lt_div h)]
    rfl
  · have hm := Nat.div_add_mod m k
    have hn := Nat.div_add_mod n k
    rw [h] at hm
    have hlt : m % k < n % k ↔ m < n := by omega
    have heq : m % k = n % k ↔ m = n := by omega
    simp [h, compare, compareOfLessAndEq, hlt, heq]
  · rw [compare_gt_iff_gt.mpr h, compare_gt_iff_gt.mpr (Nat.lt_of_div_lt_div h)]
    rfl

lemma compareBytes_be {width m n : ℕ} (hm : m < 256^width) (hn : n < 256^width) (r r' : Bytes) :
    compareBytes (be width m++r) (be width n++r') = (compare m n).then (compareBytes r r') := by
  induction width generalizing m n r r' with
  | zero =>
    have hmn : m = n := by omega
    rw [hmn]
    simp [be, le]
  | succ width ih =>
    rw [pow_succ] at hm hn
    have hbe : ∀ x (s : Bytes), be (width+1) x++s = be width (x/256)++(UInt8.ofNat (x % 256)::s) := by
      intro x s
      simp [be, le]
    have hmod : ∀ x, (UInt8.ofNat (x % 256)).toNat = x % 256 := by simp
    rw [hbe, hbe, ih (by omega) (by omega), compareBytes_cons, compare_toNat, hmod, hmod,
      ← Ordering.then_assoc, compare_div_mod]

lemma compare_zero {b : UInt8} (h : b ≠ 0) : compare 0 b = .lt ∧ compare b 0 = .gt := by
  have hpos : (0 : UInt8) < b := UInt8.pos_iff_ne_zero.mpr h
  exact ⟨compare_lt_iff_lt.mpr hpos,compare_gt_iff_gt.mpr hpos⟩

lemma compareBytes_encodeVar (a b r r' : Bytes) :
    compareBytes (encodeVar a++r) (encodeVar b++r') = (compareBytes a b).then (compareBytes r r') := by
  have hmark : compare (0 : UInt8) 0xFF = .lt ∧ compare (0xFF : UInt8) 0 = .gt := by decide
  induction a generalizing b with
  | nil =>
    cases b with
    | nil => simp [encodeVar, compareBytes_cons, compareBytes_eq.mpr rfl]
    | cons y b =>
      have hlt : compareBytes [] (y::b) = .lt := rfl
      rw [hlt]
      by_cases hy : y = 0
      · simp [encodeVar, compareBytes_cons, hy, hmark]
      · simp [encodeVar, compareBytes_cons, hy, compare_zero hy]
  | cons x a ih =>
    cases b with
    | nil =>
      have hgt : compareBytes (x::a) [] = .gt := rfl
      rw [hgt]
      by_cases hx : x = 0
      · simp [encodeVar, compareBytes_cons, hx, hmark]
      · simp [encodeVar, compareBytes_cons, hx, compare_zero hx]
    | cons y b =>
      by_cases hx : x = 0
      · by_cases hy : y = 0
        · simp [encodeVar, compareBytes_cons, hx, hy, ih]
        · simp [encodeVar, compareBytes_cons, hx, hy, compare_zero hy]
      · by_cases hy : y = 0
        · simp [encodeVar, compareBytes_cons, hx, hy, compare_zero hx]
        · simp [encodeVar, compareBytes_cons, hx, hy, ih, Ordering.then_assoc]

lemma xor_two_pow {i a : ℕ} (h : a < 2^i) : a ^^^ 2^i = a+2^i := by
  refine Nat.eq_of_testBit_eq (fun j => ?_)
  rw [Nat.testBit_xor, Nat.testBit_two_pow, Nat.add_comm]
  rcases lt_trichotomy i j with hj | rfl | hj
  · have hpow := Nat.pow_le_pow_right (show 0 < 2 by norm_num) hj
    rw [pow_succ] at hpow
    rw [Nat.testBit_lt_two_pow (show a < 2^j by omega),
      Nat.testBit_lt_two_pow (show 2^i+a < 2^j by omega)]
    simp [hj.ne]
  · simp [Nat.testBit_two_pow_add_eq]
  · simp [Nat.testBit_two_pow_add_gt hj, hj.ne']

lemma flipped_toNat {w : ℕ} (n : BitVec (w+1)) :
    ((n ^^^ 1#(w+1) <<< w).toNat : ℤ) = n.toInt+2^w := by
  have hn := n.isLt
  have hpow : 2^w < 2^(w+1) := Nat.pow_lt_pow_succ (by omega)
  have hbit : (1#(w+1) <<< w).toNat = 2^w := by
    simp [BitVec.toNat_shiftLeft, Nat.shiftLeft_eq, Nat.mod_eq_of_lt hpow]
  rw [BitVec.toNat_xor, hbit, BitVec.toInt_eq_toNat_cond]
  rw [pow_succ] at *
  by_cases h : n.toNat < 2^w
  · rw [xor_two_pow h, if_pos (by omega)]
    push_cast
    rfl
  have hback : n.toNat ^^^ 2^w = n.toNat-2^w := by
    have hxor := xor_two_pow (show n.toNat-2^w < 2^w by omega)
    rw [Nat.sub_add_cancel (not_lt.mp h)] at hxor
    rw [← hxor, Nat.xor_assoc, Nat.xor_self, Nat.xor_zero, hxor]
  rw [hback, if_neg (by omega)]
  push_cast [not_lt.mp h]
  ring

lemma compare_flipped {w : ℕ} (m n : BitVec (w+1)) :
    compare (m ^^^ 1#(w+1) <<< w).toNat (n ^^^ 1#(w+1) <<< w).toNat = compareSigned m n := by
  have hm := flipped_toNat m
  have hn := flipped_toNat n
  have hlt : (m ^^^ 1#(w+1) <<< w).toNat < (n ^^^ 1#(w+1) <<< w).toNat ↔ m.toInt < n.toInt := by
    omega
  have heq : (m ^^^ 1#(w+1) <<< w).toNat = (n ^^^ 1#(w+1) <<< w).toNat ↔ m.toInt = n.toInt := by
    omega
  simp only [compareSigned, compare, compareOfLessAndEq, hlt, heq]

section
variable {J : Type} {v w : Value J}

def orderTypes : List DataType :=
  [.bool, .int64, .timestamp, .interval, .date, .uuid, .text, .bytes]

def HasType (t : DataType) (v : Value J) : Prop := v = .null ∨ v.dataType = some t

def Comparable (v w : Value J) : Prop := ∃ t ∈ orderTypes, HasType t v ∧ HasType t w

section
variable (lib : Libraries J) (r r' : Bytes)

lemma okey_value {t : DataType} (h : v.dataType = some t) :
    encodeOkey lib v = 1::encodeBody lib v ∧ Value.null.cmpFast v = .lt ∧ v.cmpFast .null = .gt := by
  cases v with
  | null => cases h
  | _ => exact ⟨rfl,rfl,rfl⟩

lemma compare_word {b width : ℕ} (hb : 2^(b+1) = 256^width) (m n : BitVec (b+1)) :
    compareBytes (1::be width (m ^^^ 1#(b+1) <<< b).toNat++r)
      (1::be width (n ^^^ 1#(b+1) <<< b).toNat++r') =
        (compareSigned m n).then (compareBytes r r') := by
  rw [cons_append, cons_append, compareBytes_cons, compareBytes_be (hb ▸ BitVec.isLt _)
    (hb ▸ BitVec.isLt _), compare_flipped]
  rfl

lemma compare_okey (h : Comparable v w) :
    compareBytes (encodeOkey lib v++r) (encodeOkey lib w++r') =
      (v.cmpFast w).then (compareBytes r r') := by
  have hnull : encodeOkey lib .null = [0] := rfl
  obtain ⟨t,ht,rfl | hv,rfl | hw⟩ := h
  · simp [hnull, compareBytes_cons, Value.cmpFast]
  · obtain ⟨hw,hlt,-⟩ := okey_value lib hw
    rw [hnull, hw, hlt]
    exact compareBytes_cons ..
  · obtain ⟨hv,-,hgt⟩ := okey_value lib hv
    rw [hnull, hv, hgt]
    exact compareBytes_cons ..
  cases v <;> cases hv <;> (try exact absurd ht (by decide)) <;> cases w <;> cases hw
  case bool.refl.bool.refl a b =>
    refine (compareBytes_cons ..).trans ((compareBytes_cons ..).trans ?_)
    cases a <;> cases b <;> rfl
  case int64.refl.int64.refl => exact compare_word r r' (by norm_num) ..
  case text.refl.text.refl a b =>
    exact (compareBytes_cons ..).trans (compareBytes_encodeVar ..)
  case bytes.refl.bytes.refl a b =>
    exact (compareBytes_cons ..).trans (compareBytes_encodeVar ..)
  case timestamp.refl.timestamp.refl => exact compare_word r r' (by norm_num) ..
  case date.refl.date.refl => exact compare_word r r' (by norm_num) ..
  case uuid.refl.uuid.refl a b =>
    exact (compareBytes_cons ..).trans (compareBytes_of_length (a.size.trans b.size.symm) r r')
  case interval.refl.interval.refl => exact compare_word r r' (by norm_num) ..

end

lemma cmpFast_eq (h : Comparable v w) : v.cmpFast w = .eq ↔ v = w := by
  have huuid : ∀ a b : Uuid, a.bytes = b.bytes ↔ a = b := fun a b => by cases a; cases b; simp
  obtain ⟨t,ht,rfl | hv,rfl | hw⟩ := h
  · simp [Value.cmpFast]
  · cases w <;> cases hw <;> simp [Value.cmpFast]
  · cases v <;> cases hv <;> simp [Value.cmpFast]
  · cases v <;> cases hv <;> (try exact absurd ht (by decide)) <;> cases w <;> cases hw <;>
      simp [Value.cmpFast, compareSigned, compareBytes_eq, BitVec.toInt_inj, huuid,
        Function.Injective.eq_iff (fun _ _ => utf8_inj)]

def rowOrder : List (Value J) → List (Value J) → Ordering
  | [], [] => .eq
  | [], _ => .lt
  | _, [] => .gt
  | v::vs, w::ws => (v.cmpFast w).then (rowOrder vs ws)

section
variable (lib : Libraries J)

lemma okey_cancel (h : Comparable v w) (r r' : Bytes) :
    encodeOkey lib v++r = encodeOkey lib w++r' ↔ v = w ∧ r = r' := by
  rw [← compareBytes_eq, compare_okey lib r r' h, Ordering.then_eq_eq, cmpFast_eq h, compareBytes_eq]

lemma okeys_prefix_iff {a b : List (Value J)} (hlen : a.length ≤ b.length)
    (h : List.Forall₂ Comparable a (b.take a.length)) (p : Bytes) :
    okeys lib a <+: okeys lib b++p ↔ b.take a.length = a := by
  induction a generalizing b with
  | nil => simp [okeys]
  | cons v a ih =>
    cases b with
    | nil => cases hlen
    | cons w b =>
      obtain ⟨hv,ha⟩ := forall₂_cons.mp h
      have ih := ih (Nat.le_of_succ_le_succ hlen) ha
      have hcons : ∀ x (xs : List (Value J)), okeys lib (x::xs) = encodeOkey lib x++okeys lib xs :=
        fun _ _ => rfl
      rw [length_cons, take_succ_cons, cons.injEq, ← ih, eq_comm]
      simp only [hcons, append_assoc, List.IsPrefix, okey_cancel lib hv, exists_and_left]

/-- The encodings of rows stand in the order of the rows, and the beginning of
one tells the values it encodes. -/
theorem okeys_ordered (a b : List (Value J)) (h : List.Forall₂ Comparable a b) :
    compareBytes (okeys lib a) (okeys lib b) = rowOrder a b ∧
      ∀ k ≤ a.length, okeys lib (a.take k) <+: okeys lib b ↔ b.take k = a.take k := by
  constructor
  · induction h with
    | nil => rfl
    | cons hv _ ih => exact (compare_okey lib _ _ hv).trans (congrArg _ ih)
  · intro k hk
    have hlen : (a.take k).length = k := length_take_of_le hk
    have hiff := okeys_prefix_iff lib (a := a.take k) (b := b)
      (by rw [hlen, ← h.length_eq]; exact hk) (by rw [hlen]; exact forall₂_take k h) []
    rwa [append_nil, hlen] at hiff

theorem null_before_number :
    rowOrder [.text "a", .null] [.text "a", (.int64 5 : Value Unit)] = .lt ∧
      compareBytes (okeys sampleLibraries [.text "a", .null])
        (okeys sampleLibraries [.text "a", .int64 5]) = .lt := by
  have horder : rowOrder [.text "a", .null] [.text "a", (.int64 5 : Value Unit)] = .lt := by decide
  refine ⟨horder,(okeys_ordered sampleLibraries _ _ ?_).1.trans horder⟩
  exact .cons ⟨.text,by decide,.inr rfl,.inr rfl⟩
    (.cons ⟨.int64,by decide,.inl rfl,.inr rfl⟩ .nil)

end

end

end ByteDB.Tuple
