import Mathlib

/-!
# Byte strings

Keys, rows and file contents are byte strings. They are compared as slices are:
byte by byte, a proper prefix before its extensions. Numbers are written with
their lowest byte first. A reader takes what it needs from the front of the bytes,
or fails with a text.
-/

set_option autoImplicit false

namespace ByteDB

instance linearOrderUInt8 : LinearOrder UInt8 where
  le_refl := UInt8.le_refl
  le_trans _ _ _ := UInt8.le_trans
  le_antisymm _ _ := UInt8.le_antisymm
  le_total := UInt8.le_total
  lt_iff_le_not_ge a b := by
    rw [UInt8.not_le]
    exact ⟨fun h => ⟨UInt8.le_of_lt h,h⟩,fun h => h.2⟩
  toDecidableLE := inferInstance

abbrev Bytes := List UInt8

instance lawfulBytes : LawfulBEq Bytes := inferInstance

namespace Bytes

lemma nil_le (p : Bytes) : [] ≤ p :=
  not_lt.mp (List.not_lt_nil p)

lemma cons_le_cons (a b : UInt8) (p k : Bytes) : a::p ≤ b::k ↔ a < b ∨ a = b ∧ p ≤ k := by
  have hlt : b::k < a::p ↔ b < a ∨ b = a ∧ k < p := List.cons_lt_cons_iff
  rw [← not_lt, ← not_lt, hlt]
  rcases lt_trichotomy a b with h | rfl | h
  · simp [h, h.not_gt, h.ne']
  · simp
  · simp [h, h.not_gt, h.ne']

lemma le_of_prefix {p k : Bytes} (h : p <+: k) : p ≤ k := by
  obtain ⟨s,rfl⟩ := h
  induction p with
  | nil => exact nil_le _
  | cons a p ih => exact (cons_le_cons ..).mpr (.inr ⟨rfl,ih⟩)

/-- The extensions of a prefix are consecutive: whatever lies between the
prefix and one of its extensions is itself an extension. -/
lemma prefix_of_between {p k l : Bytes} (hl : p <+: l) (hpk : p ≤ k) (hkl : k ≤ l) : p <+: k := by
  induction p generalizing k l with
  | nil => exact List.nil_prefix
  | cons a p ih =>
    obtain ⟨s,rfl⟩ := hl
    cases k with
    | nil => exact absurd (le_antisymm hpk (nil_le _)) (by simp)
    | cons b k =>
      rw [List.cons_append] at hkl
      rcases (cons_le_cons ..).mp hpk with hab | ⟨rfl,hpk'⟩
      · rcases (cons_le_cons ..).mp hkl with hba | ⟨hba,-⟩
        · exact absurd hab hba.not_gt
        · exact absurd hab (hba ▸ lt_irrefl _)
      · rcases (cons_le_cons ..).mp hkl with hba | ⟨-,hkl'⟩
        · exact absurd hba (lt_irrefl _)
        · exact List.cons_prefix_cons.mpr ⟨rfl,ih ⟨s,rfl⟩ hpk' hkl'⟩

end Bytes

namespace LittleEndian

def le : ℕ → ℕ → Bytes
  | 0, _ => []
  | width+1, n => UInt8.ofNat (n % 256)::le width (n/256)

def readLe : Bytes → ℕ
  | [] => 0
  | b::bs => b.toNat+256*readLe bs

@[simp] lemma le_length (width n : ℕ) : (le width n).length = width := by
  induction width generalizing n with
  | zero => rfl
  | succ width ih => simp [le, ih]

lemma read_le (width n : ℕ) (h : n < 256^width) : readLe (le width n) = n := by
  induction width generalizing n with
  | zero =>
    rw [pow_zero] at h
    simp [le, readLe]
    omega
  | succ width ih =>
    have hdiv : n/256 < 256^width := by
      rw [pow_succ] at h
      omega
    have hmod : (UInt8.ofNat (n % 256)).toNat = n % 256 := by
      simp [UInt8.toNat_ofNat']
    rw [le, readLe, ih _ hdiv, hmod]
    omega

lemma read_take (width n : ℕ) (rest : Bytes) (h : n < 256^width) :
    readLe ((le width n++rest).take width) = n := by
  rw [List.take_left' (le_length width n), read_le width n h]

lemma drop_le (width n : ℕ) (rest : Bytes) : (le width n++rest).drop width = rest :=
  List.drop_left' (le_length width n)

lemma readLe_append (as bs : Bytes) : readLe (as++bs) = readLe as+256^as.length*readLe bs := by
  induction as with
  | nil => simp [readLe]
  | cons a as ih =>
    rw [List.cons_append, readLe, readLe, ih, List.length_cons, pow_succ]
    ring

lemma le_readLe (bs : Bytes) : le bs.length (readLe bs) = bs := by
  induction bs with
  | nil => rfl
  | cons b bs ih =>
    have hb : b.toNat < 256 := b.toNat_lt
    have hmod : (b.toNat+256*readLe bs) % 256 = b.toNat := by omega
    have hdiv : (b.toNat+256*readLe bs)/256 = readLe bs := by omega
    rw [readLe, List.length_cons, le, hmod, hdiv, ih, UInt8.ofNat_toNat]

lemma readLe_inj {as bs : Bytes} (hlen : as.length = bs.length) (h : readLe as = readLe bs) :
    as = bs := by
  rw [← le_readLe as, ← le_readLe bs, h, hlen]

lemma le_getElem? (width n i : ℕ) (h : i < width) :
    (le width n)[i]? = some (UInt8.ofNat (n/256^i % 256)) := by
  induction width generalizing n i with
  | zero => omega
  | succ width ih =>
    cases i with
    | zero => simp [le]
    | succ i =>
      rw [le, List.getElem?_cons_succ, ih _ _ (by omega), Nat.div_div_eq_div_mul, pow_succ']

end LittleEndian

open LittleEndian List

abbrev Reader (α : Type) := StateT Bytes (Except String) α

namespace Reader

variable {α β : Type}

def readExact (n : ℕ) : Reader Bytes := fun bs =>
  if bs.length < n then .error "failed to fill whole buffer" else .ok (bs.take n,bs.drop n)

def readNumber (width : ℕ) : Reader ℕ := do return readLe (← readExact width)

def check (c : Prop) [Decidable c] (text : String) : Reader Unit := if c then pure () else throw text

def repeated (p : Reader α) : ℕ → Reader (List α)
  | 0 => pure []
  | n+1 => do return (← p)::(← repeated p n)

def Reads (p : Reader α) (bs : Bytes) (a : α) : Prop := ∀ rest, p (bs++rest) = .ok (a,rest)

lemma reads_pure (a : α) : Reads (pure a) [] a := fun _ => rfl

lemma Reads.bind {p : Reader α} {f : α → Reader β} {bs cs : Bytes} {a : α} {b : β}
    (hp : Reads p bs a) (hf : Reads (f a) cs b) : Reads (p >>= f) (bs++cs) b := by
  intro rest
  rw [append_assoc]
  show (p (bs++(cs++rest))).bind _ = _
  rw [hp]
  exact hf rest

lemma Reads.last {p : Reader α} {f : α → Reader β} {bs : Bytes} {a : α} {b : β}
    (hp : Reads p bs a) (hf : Reads (f a) [] b) : Reads (p >>= f) bs b := by
  have := hp.bind hf
  rwa [append_nil] at this

lemma Reads.check {p : Reader α} {bs : Bytes} {a : α} {c : Prop} [Decidable c] {text : String}
    (hc : c) (hp : Reads p bs a) : Reads (check c text >>= fun _ => p) bs a := by
  rw [Reader.check, if_pos hc]
  exact (reads_pure ()).bind hp

lemma reads_exact (bs : Bytes) : Reads (readExact bs.length) bs bs := by
  intro rest
  simp [readExact]

lemma reads_number {width n : ℕ} (h : n < 256^width) : Reads (readNumber width) (le width n) n := by
  have hexact := reads_exact (le width n)
  rw [le_length] at hexact
  refine hexact.last ?_
  rw [read_le width n h]
  exact reads_pure n

lemma reads_repeated {p : Reader α} (write : α → Bytes) {as : List α}
    (h : ∀ a ∈ as, Reads p (write a) a) : Reads (repeated p as.length) (as.flatMap write) as := by
  induction as with
  | nil => exact reads_pure []
  | cons a as ih =>
    obtain ⟨ha,has⟩ := forall_mem_cons.1 h
    exact ha.bind ((ih has).last (reads_pure (a::as)))

end Reader

end ByteDB
