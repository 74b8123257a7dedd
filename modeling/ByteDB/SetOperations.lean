import ByteDB.Dml
import ByteDB.Grouping
import ByteDB.TupleCodec

/-!
# UNION, INTERSECT and EXCEPT

Rows are compared by the bytes of a key. How often a row comes out is said by
how often it occurs on both sides, where rows of the types that have a key of
their own are concerned. EXCEPT without ALL forgets a key of the right side as
soon as it has met it once, so that it is right exactly if the left side has no
duplicates.
-/

set_option autoImplicit false

namespace ByteDB.Tuple.SetOp
open LittleEndian Grouping List
variable {J : Type}

section

def piece (boolTag intTag floatTag textTag : UInt8) (word : ℕ → Bytes)
    (other : Value J → Bytes) : Value J → Bytes
  | .null => [0]
  | .bool b => [boolTag, if b then 1 else 0]
  | .int64 n => intTag::word n.toNat
  | .float64 f => floatTag::word f.toNat
  | .text s => textTag::(utf8 s++[0])
  | v => 5::other v

/-- The values of all other types have one key. -/
def serializeRow (row : List (Value J)) : Bytes := row.flatMap (piece 4 1 2 3 (be 8) (fun _ => []))

/-- The key of `apply_distinct`, with the text that `{:?}` gives for a value. -/
def distinctKey (debug : Value J → Bytes) (row : List (Value J)) : Bytes :=
  row.flatMap (piece 1 2 3 4 (le 8) (fun v => debug v++[0]))

inductive Plain : Value J → Prop
  | null : Plain .null
  | bool (b : Bool) : Plain (.bool b)
  | int64 (n : BitVec 64) : Plain (.int64 n)
  | float64 (f : BitVec 64) : Plain (.float64 f)
  | text {s : String} (h : 0 ∉ utf8 s) : Plain (.text s)

variable {as bs : Bytes}

lemma le_cancel {n m : BitVec 64} (h : le 8 n.toNat++as = le 8 m.toNat++bs) : n = m ∧ as = bs := by
  obtain ⟨hle,hrest⟩ := append_inj h (by simp)
  have hread := congrArg readLe hle
  rw [read_le _ _ n.isLt, read_le _ _ m.isLt] at hread
  exact ⟨BitVec.eq_of_toNat_eq hread,hrest⟩

lemma be_cancel {n m : BitVec 64} (h : be 8 n.toNat++as = be 8 m.toNat++bs) : n = m ∧ as = bs := by
  obtain ⟨hbe,hrest⟩ := append_inj h (by simp [be])
  rw [be, be, reverse_inj] at hbe
  exact ⟨(le_cancel (congrArg (·++[]) hbe)).1,hrest⟩

lemma text_cancel {s t : String} (hs : 0 ∉ utf8 s) (ht : 0 ∉ utf8 t)
    (h : utf8 s++0::as = utf8 t++0::bs) : s = t ∧ as = bs := by
  have hfirst (u : String) (hu : 0 ∉ utf8 u) (cs : Bytes) :
      (utf8 u++0::cs).idxOf 0 = (utf8 u).length := by
    rw [idxOf_append_of_notMem hu, idxOf_cons_self, Nat.add_zero]
  have hlen := congrArg (idxOf 0) h
  rw [hfirst s hs, hfirst t ht] at hlen
  obtain ⟨htext,hrest⟩ := append_inj h hlen
  exact ⟨utf8_inj htext,(cons.inj hrest).2⟩

variable {row row' : List (Value J)}

section
variable {boolTag intTag floatTag textTag : UInt8} {word : ℕ → Bytes} {other : Value J → Bytes}

lemma piece_ne_nil (v : Value J) : piece boolTag intTag floatTag textTag word other v ≠ [] := by
  cases v <;> simp [piece]

variable (htags : [0, boolTag, intTag, floatTag, textTag].Nodup)
  (hword : ∀ {n m : BitVec 64} {as bs : Bytes}, word n.toNat++as = word m.toNat++bs → n = m ∧ as = bs)
include htags hword

lemma piece_cancel {v w : Value J} (hv : Plain v) (hw : Plain w)
    (h : piece boolTag intTag floatTag textTag word other v++as =
      piece boolTag intTag floatTag textTag word other w++bs) : v = w ∧ as = bs := by
  simp only [nodup_cons, mem_cons, not_mem_nil, or_false, not_or, @eq_comm _ (0 : UInt8)] at htags
  -- values of different types differ in the tag
  cases hv with
  | null =>
    cases hw with
    | null => exact ⟨rfl,(cons.inj h).2⟩
    | _ => exact absurd (cons.inj h).1.symm (by simp [htags])
  | bool b =>
    cases hw with
    | bool c =>
      obtain ⟨hbc,hrest⟩ := cons.inj (cons.inj h).2
      cases b <;> cases c <;> simp_all
    | null => exact absurd (cons.inj h).1 (by simp [htags])
    | _ => exact absurd (cons.inj h).1 (by simp [htags])
  | int64 n =>
    cases hw with
    | int64 m =>
      obtain ⟨rfl,hrest⟩ := hword (cons.inj h).2
      exact ⟨rfl,hrest⟩
    | bool c => exact absurd (cons.inj h).1.symm (by simp [htags])
    | _ => exact absurd (cons.inj h).1 (by simp [htags])
  | float64 n =>
    cases hw with
    | float64 m =>
      obtain ⟨rfl,hrest⟩ := hword (cons.inj h).2
      exact ⟨rfl,hrest⟩
    | bool | int64 => exact absurd (cons.inj h).1.symm (by simp [htags])
    | _ => exact absurd (cons.inj h).1 (by simp [htags])
  | text hs =>
    cases hw with
    | text ht =>
      have hrest : utf8 _++[0]++as = utf8 _++[0]++bs := (cons.inj h).2
      rw [append_assoc, append_assoc] at hrest
      obtain ⟨rfl,hafter⟩ := text_cancel hs ht hrest
      exact ⟨rfl,hafter⟩
    | null => exact absurd (cons.inj h).1 (by simp [htags])
    | _ => exact absurd (cons.inj h).1.symm (by simp [htags])

lemma pieces_inj (hrow : ∀ v ∈ row, Plain v) (hrow' : ∀ v ∈ row', Plain v)
    (h : row.flatMap (piece boolTag intTag floatTag textTag word other) =
      row'.flatMap (piece boolTag intTag floatTag textTag word other)) : row = row' := by
  induction row generalizing row' with
  | nil =>
    cases row' with
    | nil => rfl
    | cons w row' => simp [piece_ne_nil] at h
  | cons v row ih =>
    cases row' with
    | nil => simp [piece_ne_nil] at h
    | cons w row' =>
      rw [forall_mem_cons] at hrow hrow'
      rw [flatMap_cons, flatMap_cons] at h
      obtain ⟨rfl,hrest⟩ := piece_cancel htags hword hrow.1 hrow'.1 h
      rw [ih hrow.2 hrow'.2 hrest]

end

lemma serializeRow_inj (hrow : ∀ v ∈ row, Plain v)
    (hrow' : ∀ v ∈ row', Plain v) (h : serializeRow row = serializeRow row') : row = row' :=
  pieces_inj (by decide) be_cancel hrow hrow' h

lemma distinctKey_inj (debug : Value J → Bytes)
    (hrow : ∀ v ∈ row, Plain v) (hrow' : ∀ v ∈ row', Plain v)
    (h : distinctKey debug row = distinctKey debug row') : row = row' :=
  pieces_inj (by decide) le_cancel hrow hrow' h

end

section
variable (debug : Value J → Bytes)

def applyDistinct (rows : List (List (Value J))) : List (List (Value J)) :=
  unseen (distinctKey debug) [] rows

/-- What is left of a count after one more match: with ALL one less, otherwise
the key is removed. -/
def spend (all : Bool) (n : ℕ) : Option ℕ := if all then some n else none

inductive Kind where
  | union
  | intersect
  | except
  deriving DecidableEq

variable (kind : Kind)

def combine (all : Bool) (left right : List (List (Value J))) : List (List (Value J)) :=
  match kind with
  | .union => if all then left++right else applyDistinct debug (left++right)
  | .intersect => paid serializeRow true (spend all) (tally serializeRow right) left
  | .except => paid serializeRow false (spend all) (tally serializeRow right) left

def Kind.message : Kind → String
  | .union => "UNION requires two SELECT statements"
  | .intersect => "INTERSECT requires two SELECT statements"
  | .except => "EXCEPT requires two SELECT statements"

/-- `exec_union`, `exec_intersect` and `exec_except`, behind the execution of
both statements. -/
def execSetOp (all : Bool) (left right : Except String (ExecutionResult (Value J))) :
    Except String (ExecutionResult (Value J)) := do
  match ← left, ← right with
  | .rows columns leftRows, .rows _ rightRows =>
    return .rows columns (combine debug kind all leftRows rightRows)
  | _, _ => throw kind.message

/-- How often SQL returns a row that occurs `l` times on the left and `m` times on
the right. -/
def wanted (all : Bool) (l m : ℕ) : ℕ :=
  match kind, all with
  | .union, true => l+m
  | .intersect, true => min l m
  | .except, true => l-m
  | .union, false => if 0 < l+m then 1 else 0
  | .intersect, false => if 0 < l ∧ 0 < m then 1 else 0
  | .except, false => if 0 < l ∧ m = 0 then 1 else 0

variable {left right : List (List (Value J))}

lemma mem_combine (kind : Kind) (all : Bool) {r : List (Value J)}
    (h : r ∈ combine debug kind all left right) : r ∈ left++right := by
  cases kind with
  | union =>
    cases all with
    | true => exact h
    | false => exact (unseen_sublist _ _ _).subset h
  | _ => exact mem_append_left _ ((paid_sublist _ _ _ _ _).subset h)

variable [DecidableEq J]

/-- Without ALL an EXCEPT drops one occurrence of a row that is on the right. -/
lemma combine_count (hplain : ∀ row ∈ left++right, ∀ v ∈ row, Plain v) (kind : Kind) (all : Bool)
    {r : List (Value J)} (hr : r ∈ left++right) : (combine debug kind all left right).count r =
      if kind = .except ∧ all = false then left.count r-min 1 (right.count r)
      else wanted kind all (left.count r) (right.count r) := by
  have hown (row) (hrow : row ∈ left++right) (hkey : serializeRow row = serializeRow r) : row = r :=
    serializeRow_inj (hplain row hrow) (hplain r hr) hkey
  have hleft (row) (hrow : row ∈ left) := hown row (mem_append_left _ hrow)
  have htally := tally_count (fun row hrow => hown row (mem_append_right _ hrow))
  have hall (counted : Bool) := paid_count (spend true) id rfl (fun n => rfl) counted hleft
    (tally serializeRow right)
  have hone (counted : Bool) := paid_count (spend false) (min 1) rfl
    (fun n => by simp [spend]) counted hleft (tally serializeRow right)
  rw [htally] at hall hone
  cases kind with
  | union =>
    cases all with
    | true => simp [combine, wanted]
    | false =>
      have hdistinct := unseen_count (fun row hrow hkey =>
        distinctKey_inj debug (hplain row hrow) (hplain r hr) hkey) []
      rw [count_append, if_neg (not_mem_nil)] at hdistinct
      simp only [combine, applyDistinct, wanted, reduceCtorEq, false_and, if_false]
      rw [hdistinct]
      split <;> omega
  | intersect =>
    cases all with
    | true => simpa [combine, wanted] using hall true
    | false =>
      simp only [combine, wanted, hone, reduceCtorEq, false_and, if_true, if_false]
      split <;> omega
  | except =>
    cases all with
    | true => simpa [combine, wanted] using hall false
    | false => simpa [combine] using hone false

lemma wanted_none (all : Bool) : wanted kind all 0 0 = 0 := by
  cases kind <;> cases all <;> rfl

end

end ByteDB.Tuple.SetOp
