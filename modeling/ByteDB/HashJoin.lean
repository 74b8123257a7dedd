import ByteDB.Dml
import ByteDB.EquiJoin
import ByteDB.OrderKeys

/-!
# Hash joins

The join of two results on one column of each. Integer keys are hashed as they
are, on either side, and other keys by their order-preserving encoding; the
result is the same join of SQL.
-/

set_option autoImplicit false

namespace ByteDB.Tuple
open ByteDB.Ast EquiJoin List

section
variable {Q : Type}

/-- A name that says a column, alone or behind a qualifier. -/
def saysColumn (name c : String) : Bool := c = name ∨ ('.'::c.toList) <:+ name.toList

def sidePosition (cols : List String) (name : String) : Option ℕ := cols.findIdx? (saysColumn name)

def keyPositions (leftCols rightCols : List String) (ln rn : String) : Option (ℕ × ℕ) := do
  return (← sidePosition leftCols ln,← sidePosition rightCols rn)

def joinKeys (left right : Expr Q) (leftCols rightCols : List String) : Option (ℕ × ℕ) := do
  let ln ← columnName left
  let rn ← columnName right
  (keyPositions leftCols rightCols ln rn).or (keyPositions leftCols rightCols rn ln)

def extractJoinKeys (condition : Expr Q) (leftCols rightCols : List String) :
    Except String (ℕ × ℕ) :=
  match condition with
  | .binaryOp left .eq right =>
    match joinKeys left right leftCols rightCols with
    | some keys => .ok keys
    | none => .error "Cannot determine join keys from condition"
  | _ => .error "JOIN condition must be an equality"

def prefixed (table : Option String) (cols : List String) : List String :=
  table.elim cols (fun t => cols.map (fun c => t ++ "." ++ c))

end

section
variable {J : Type} (lib : Libraries J)

def intKey (i : ℕ) (row : List (Value J)) : Option (BitVec 64) :=
  match row[i]? with
  | some (.int64 n) => some n
  | _ => none

def hashKey (v : Value J) : Bytes := okeys lib [v]

def encodedKey (i : ℕ) (row : List (Value J)) : Option Bytes :=
  (row[i]?).bind (fun v => if v.isNull then none else some (hashKey lib v))

def nulls (width : ℕ) : List (Value J) := List.replicate width .null

/-- `resize`, with NULLs -/
def resize (row : List (Value J)) (width : ℕ) : List (Value J) :=
  row.take width++nulls (width-row.length)

def joinRows (li ri leftWidth rightWidth : ℕ) (joinType : JoinType)
    (left right : List (List (Value J))) : List (List (Value J)) :=
  let skip := fun _ => []
  let padRight := fun l => [resize l (leftWidth+rightWidth)]
  let padLeft := fun r => [nulls leftWidth++r]
  let onLeft := fun l r => l++r
  let onRight := fun r l => l++r
  let rightAllInt := right.all (fun r => (intKey ri r).isSome)
  let leftAllInt := rightAllInt && left.all (fun l => (intKey li l).isSome)
  if leftAllInt then
    match joinType with
    | .inner =>
      if left.length < right.length then
        right.flatMap (probe skip skip onRight (intKey ri) (table (intKey li) left))
      else left.flatMap (probe skip skip onLeft (intKey li) (table (intKey ri) right))
    | .left => left.flatMap (probe padRight skip onLeft (intKey li) (table (intKey ri) right))
    | .right => right.flatMap (probe padLeft skip onRight (intKey ri) (table (intKey li) left))
  else
    match joinType with
    | .inner =>
      left.flatMap (probe skip skip onLeft (encodedKey lib li) (table (encodedKey lib ri) right))
    | .left =>
      -- a NULL key is looked up as well, and not found
      left.flatMap (probe padRight skip onLeft (fun l => some (hashKey lib (valueAt l li)))
        (table (encodedKey lib ri) right))
    | .right =>
      right.flatMap (probe padLeft padLeft onRight (encodedKey lib ri)
        (table (encodedKey lib li) left))

/-- The join, with the names of the tables whose scans the inputs are. -/
def execHashJoin {Q : Type} (leftTable rightTable : Option String)
    (left right : Except String (ExecutionResult (Value J))) (condition : Expr Q)
    (joinType : JoinType) : Except String (ExecutionResult (Value J)) := do
  match ← left, ← right with
  | .rows leftCols leftRows, .rows rightCols rightRows =>
    let (li,ri) ← extractJoinKeys condition leftCols rightCols
    return .rows (prefixed leftTable leftCols++prefixed rightTable rightCols)
      (joinRows lib li ri leftCols.length rightCols.length joinType leftRows rightRows)
  | _, _ => throw "JOIN requires row input"

variable [DecidableEq J]

def sameKey (li ri : ℕ) (l r : List (Value J)) : Bool :=
  !(valueAt l li).isNull && valueAt l li = valueAt r ri

/-- The join of SQL: the pairs of equal keys, and the rows without a partner. -/
def sqlJoin (li ri leftWidth rightWidth : ℕ) (joinType : JoinType)
    (left right : List (List (Value J))) : List (List (Value J)) :=
  pairs (sameKey li ri) (fun l r => l++r) left right++
    match joinType with
    | .inner => []
    | .left => (alone (sameKey li ri) left right).map (fun l => l++nulls rightWidth)
    | .right => (alone (fun r l => sameKey li ri l r) right left).map (fun r => nulls leftWidth++r)

omit [DecidableEq J] in
lemma intKey_some {i : ℕ} {row : List (Value J)} (h : (intKey i row).isSome) :
    ∃ n, intKey i row = some n ∧ valueAt row i = .int64 n := by
  obtain ⟨n,hn⟩ := Option.isSome_iff_exists.mp h
  refine ⟨n,hn,?_⟩
  rw [intKey] at hn
  split at hn
  · rename_i m hm
    cases hn
    rw [valueAt, hm]
    rfl
  · cases hn

lemma agree_int {li ri : ℕ} {l r : List (Value J)} (hl : (intKey li l).isSome)
    (hr : (intKey ri r).isSome) :
    agree (intKey li) (intKey ri) l r = sameKey li ri l r := by
  obtain ⟨n,hn,hv⟩ := intKey_some hl
  obtain ⟨m,hm,hw⟩ := intKey_some hr
  simp [agree, sameKey, hn, hm, hv, hw, Value.isNull]

section
variable {li ri leftWidth rightWidth : ℕ} {l r : List (Value J)}

omit [DecidableEq J] in
lemma encodedKey_eq {i : ℕ} {row : List (Value J)} (h : i < row.length) : encodedKey lib i row =
    if (valueAt row i).isNull then none else some (hashKey lib (valueAt row i)) := by
  simp [encodedKey, valueAt, getElem?_eq_getElem h]

omit [DecidableEq J] in
lemma hashKey_inj {v w : Value J} (h : Comparable v w) : hashKey lib v = hashKey lib w ↔ v = w := by
  simpa [hashKey, okeys] using okey_cancel lib h [] []

lemma agree_encoded (hl : li < l.length) (hr : ri < r.length)
    (h : Comparable (valueAt l li) (valueAt r ri)) :
    agree (encodedKey lib li) (encodedKey lib ri) l r = sameKey li ri l r := by
  simp only [agree, sameKey, encodedKey_eq lib hl, encodedKey_eq lib hr]
  by_cases heq : valueAt l li = valueAt r ri
  · rw [heq]
    cases hv : (valueAt r ri).isNull <;> simp
  · have hhash := mt (hashKey_inj lib h).mp heq
    cases hv : (valueAt l li).isNull <;> cases hw : (valueAt r ri).isNull <;> simp [heq, hhash]

lemma agree_looked_up (hr : ri < r.length) (h : Comparable (valueAt l li) (valueAt r ri)) :
    agree (fun l => some (hashKey lib (valueAt l li))) (encodedKey lib ri) l r =
      sameKey li ri l r := by
  simp only [agree, sameKey, encodedKey_eq lib hr]
  by_cases heq : valueAt l li = valueAt r ri
  · rw [heq]
    cases hv : (valueAt r ri).isNull <;> simp
  · have hhash := mt (hashKey_inj lib h).mp heq
    cases hw : (valueAt r ri).isNull <;> simp [heq, hhash]

end

section
variable {K : Type} [DecidableEq K] {key key' : List (Value J) → Option K}
  {li ri leftWidth rightWidth : ℕ} {left right : List (List (Value J))}
  (hagree : ∀ l ∈ left, ∀ r ∈ right, agree key key' l r = sameKey li ri l r)
include hagree

lemma inner_from_left :
    (left.flatMap (probe (fun _ => []) (fun _ => []) (fun l r => l++r) key (table key' right))).Perm
      (sqlJoin li ri leftWidth rightWidth .inner left right) := by
  have hnone : sqlJoin li ri leftWidth rightWidth .inner left right =
      pairs (sameKey li ri) (fun l r => l++r) left right++
        (alone (sameKey li ri) left right).flatMap (fun _ => []) := by simp [sqlJoin]
  rw [hnone]
  exact probes_perm _ (fun _ _ _ => rfl) hagree

lemma from_right {lone keyless : List (Value J) → List (List (Value J))}
    (hnone : ∀ r ∈ right, key' r = none → keyless r = lone r) :
    (right.flatMap (probe lone keyless (fun r l => l++r) key' (table key left))).Perm
      (pairs (sameKey li ri) (fun l r => l++r) left right++
        (alone (fun r l => sameKey li ri l r) right left).flatMap lone) := by
  have hprobes := probes_perm (fun r l => l++r) hnone
    (fun r hr l hl => (agree_comm key key' l r).trans (hagree l hl r hr))
  exact hprobes.trans ((pairs_swap _ _ left right).symm.append_right _)

lemma inner_from_right :
    (right.flatMap (probe (fun _ => []) (fun _ => []) (fun r l => l++r) key' (table key left))).Perm
      (sqlJoin li ri leftWidth rightWidth .inner left right) := by
  have hnone : sqlJoin li ri leftWidth rightWidth .inner left right =
      pairs (sameKey li ri) (fun l r => l++r) left right++
        (alone (fun r l => sameKey li ri l r) right left).flatMap (fun _ => []) := by
    simp [sqlJoin]
  rw [hnone]
  exact from_right hagree (fun _ _ _ => rfl)

lemma right_padded {keyless : List (Value J) → List (List (Value J))}
    (hnone : ∀ r ∈ right, key' r = none → keyless r = [nulls leftWidth++r]) :
    (right.flatMap (probe (fun r => [nulls leftWidth++r]) keyless (fun r l => l++r) key'
      (table key left))).Perm (sqlJoin li ri leftWidth rightWidth .right left right) := by
  rw [sqlJoin, map_eq_flatMap]
  exact from_right hagree hnone

lemma left_padded (hleft : ∀ l ∈ left, l.length = leftWidth) (hkey : ∀ l ∈ left, key l ≠ none) :
    (left.flatMap (probe (fun l => [resize l (leftWidth+rightWidth)]) (fun _ => [])
      (fun l r => l++r) key (table key' right))).Perm
        (sqlJoin li ri leftWidth rightWidth .left left right) := by
  have hpad : (alone (sameKey li ri) left right).map (fun l => l++nulls rightWidth) =
      (alone (sameKey li ri) left right).flatMap (fun l => [resize l (leftWidth+rightWidth)]) := by
    rw [map_eq_flatMap]
    refine flatMap_congr (fun l hl => ?_)
    have hlen := hleft l (mem_of_mem_filter hl)
    rw [resize, take_of_length_le (by omega), hlen, Nat.add_sub_cancel_left]
  rw [sqlJoin, hpad]
  exact probes_perm _ (fun l hl hnone => absurd hnone (hkey l hl)) hagree

end

lemma joinRows_perm {li ri leftWidth rightWidth : ℕ} {left right : List (List (Value J))}
    (hli : li < leftWidth) (hri : ri < rightWidth) (hleft : ∀ l ∈ left, l.length = leftWidth)
    (hright : ∀ r ∈ right, r.length = rightWidth)
    (h : ∀ l ∈ left, ∀ r ∈ right, Comparable (valueAt l li) (valueAt r ri)) (joinType : JoinType) :
    (joinRows lib li ri leftWidth rightWidth joinType left right).Perm
      (sqlJoin li ri leftWidth rightWidth joinType left right) := by
  unfold joinRows
  dsimp only
  split
  · rename_i hint
    simp only [Bool.and_eq_true, all_eq_true] at hint
    have hagree (l) (hl : l ∈ left) (r) (hr : r ∈ right) := agree_int (hint.2 l hl) (hint.1 r hr)
    cases joinType with
    | inner =>
      dsimp only
      split
      · exact inner_from_right hagree
      · exact inner_from_left hagree
    | left =>
      refine left_padded hagree hleft (fun l hl hnone => ?_)
      simpa [hnone] using hint.2 l hl
    | right =>
      refine right_padded hagree (fun r hr hnone => ?_)
      simpa [hnone] using hint.1 r hr
  · have hagree (l) (hl : l ∈ left) (r) (hr : r ∈ right) :=
      agree_encoded lib ((hleft l hl).symm ▸ hli) ((hright r hr).symm ▸ hri) (h l hl r hr)
    cases joinType with
    | inner => exact inner_from_left hagree
    | left =>
      refine left_padded (fun l hl r hr => ?_) hleft (fun l hl => by simp)
      exact agree_looked_up lib ((hright r hr).symm ▸ hri) (h l hl r hr)
    | right => exact right_padded hagree (fun r hr hnone => rfl)

omit [DecidableEq J] in
lemma extract_bounds {Q : Type} {condition : Expr Q} {leftCols rightCols : List String} {li ri : ℕ}
    (h : extractJoinKeys condition leftCols rightCols = .ok (li,ri)) :
    li < leftCols.length ∧ ri < rightCols.length := by
  have hpositions {ln rn : String} (hp : keyPositions leftCols rightCols ln rn = some (li,ri)) :
      li < leftCols.length ∧ ri < rightCols.length := by
    simp only [keyPositions, sidePosition, Option.bind_eq_bind, Option.bind_eq_some_iff,
      Option.pure_def, Option.some.injEq, Prod.mk.injEq] at hp
    obtain ⟨_,hli,_,hri,rfl,rfl⟩ := hp
    exact ⟨(findIdx?_eq_some_iff_getElem.mp hli).1,(findIdx?_eq_some_iff_getElem.mp hri).1⟩
  rw [extractJoinKeys.eq_def] at h
  split at h
  · split at h
    · rename_i keys hfound
      cases h
      simp only [joinKeys, Option.bind_eq_bind, Option.bind_eq_some_iff] at hfound
      obtain ⟨ln,-,rn,-,hfound⟩ := hfound
      obtain hp|⟨-,hp⟩ := Option.or_eq_some_iff.mp hfound
      · exact hpositions hp
      · exact hpositions hp
    · cases h
  · cases h

end

end ByteDB.Tuple
