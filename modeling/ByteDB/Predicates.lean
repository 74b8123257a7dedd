import ByteDB.Value

/-!
# Expressions and predicates

The expressions of the parser, as far as the planner and the executor look into
them, with subqueries of a type of their own. The three-valued evaluation of a
filter. Columns and literals are evaluated here; the values of all other
expressions are a parameter.
-/

set_option autoImplicit false

namespace ByteDB.Ast

inductive BinOp where
  | eq
  | neq
  | lt
  | gt
  | lte
  | gte
  | and
  | or
  | plus
  | minus
  | mul
  | div
  | mod
  | like
  | ilike
  deriving DecidableEq, Repr

inductive UnaryOp where
  | not
  | neg
  deriving DecidableEq, Repr

inductive LiteralValue where
  | integer (n : BitVec 64)
  | float (bits : BitVec 64)
  | string (s : String)
  | bool (b : Bool)
  | null
  | hexBlob (bytes : Bytes)
  deriving DecidableEq

inductive Expr (Q : Type) (L : Type := LiteralValue) where
  | literal (v : L)
  | column (name : String)
  | qualifiedColumn (table name : String)
  | binaryOp (left : Expr Q L) (op : BinOp) (right : Expr Q L)
  | unaryOp (op : UnaryOp) (expr : Expr Q L)
  | function (name : String) (args : List (Expr Q L))
  | jsonPath (path : String)
  | isNull (expr : Expr Q L)
  | isNotNull (expr : Expr Q L)
  | inList (expr : Expr Q L) (list : List (Expr Q L))
  | between (expr low high : Expr Q L)
  | case (operand : Option (Expr Q L)) (whenClauses : List (Expr Q L × Expr Q L))
      (elseResult : Option (Expr Q L))
  | cast (expr : Expr Q L) (dataType : DataType)
  | subquery (select : Q)
  | inSubquery (expr : Expr Q L) (select : Q)
  | exists (select : Q)
  | windowFunction (name : String) (args partitionBy : List (Expr Q L))
      (orderBy : List (Expr Q L × Bool × Option Bool))
  | default
  | interval (text : String)

inductive JoinType where
  | inner
  | left
  | right
  deriving DecidableEq, Repr

def columnName {Q : Type} : Expr Q → Option String
  | .column name => some name
  | .qualifiedColumn _ name => some name
  | _ => none

end ByteDB.Ast

namespace ByteDB.Tuple
open ByteDB.Ast

section
variable {Q J : Type}

/-- The values of expressions that are neither columns nor literals, and the
matching of patterns. -/
structure Expressions (Q J : Type) where
  value : Expr Q → List (Value J) → Schema (Value J) → Value J
  likeMatch : String → String → Bool
  ilikeMatch : String → String → Bool

def literalValue : LiteralValue → Value J
  | .integer n => .int64 n
  | .float f => .float64 f
  | .string s => .text s
  | .bool b => .bool b
  | .null => .null
  | .hexBlob b => .bytes b

def valueAt (row : List (Value J)) (i : ℕ) : Value J := (row[i]?).getD .null

def columnValue (schema : Schema (Value J)) (row : List (Value J)) (name : String) :
    Option (Value J) :=
  (schema.columnIndex name).map (valueAt row)

def evalValue (ex : Expressions Q J) (expr : Expr Q) (row : List (Value J))
    (schema : Schema (Value J)) : Value J :=
  match expr with
  | .column name => (columnValue schema row name).getD .null
  | .qualifiedColumn table name =>
    match columnValue schema row name with
    | some v => v
    | none => (columnValue schema row (table ++ "." ++ name)).getD .null
  | .literal l => literalValue l
  | expr => ex.value expr row schema

def isComparison : BinOp → Bool
  | .eq | .neq | .lt | .gt | .lte | .gte => true
  | _ => false

def opHolds (op : BinOp) (c : Option Ordering) : Bool :=
  match op, c with
  | .eq, some .eq => true
  | .neq, some .lt | .neq, some .gt => true
  | .lt, some .lt => true
  | .gt, some .gt => true
  | .lte, some .lt | .lte, some .eq => true
  | .gte, some .gt | .gte, some .eq => true
  | _, _ => false

def truth : Value J → Option Bool
  | .bool b => some b
  | .null => none
  | _ => some true

def evalPredicateTri (ex : Expressions Q J) (row : List (Value J)) (schema : Schema (Value J)) :
    Expr Q → Option Bool
  | .binaryOp left op right =>
    let lval := evalValue ex left row schema
    let rval := evalValue ex right row schema
    match op with
    | .and =>
      match evalPredicateTri ex row schema left with
      | some false => some false
      | l =>
        match l, evalPredicateTri ex row schema right with
        | _, some false => some false
        | some true, some true => some true
        | _, _ => none
    | .or =>
      match evalPredicateTri ex row schema left with
      | some true => some true
      | l =>
        match l, evalPredicateTri ex row schema right with
        | _, some true => some true
        | some false, some false => some false
        | _, _ => none
    | .eq | .neq | .lt | .gt | .lte | .gte =>
      if lval.isNull || rval.isNull then none else some (opHolds op (lval.compare rval))
    | .like | .ilike =>
      if lval.isNull || rval.isNull then none
      else
        match lval, rval with
        | .text s, .text pattern =>
          some (if op = .like then ex.likeMatch s pattern else ex.ilikeMatch s pattern)
        | _, _ => some false
    | _ => truth (evalValue ex (.binaryOp left op right) row schema)
  | .unaryOp .not inner => (evalPredicateTri ex row schema inner).map (!·)
  | .isNull inner => some (evalValue ex inner row schema).isNull
  | .isNotNull inner => some (!(evalValue ex inner row schema).isNull)
  | .between expr low high =>
    let v := evalValue ex expr row schema
    let lo := evalValue ex low row schema
    let hi := evalValue ex high row schema
    if v.isNull then none
    else
      let ge := if lo.isNull then none else some (opHolds .gte (v.compare lo))
      let le := if hi.isNull then none else some (opHolds .lte (v.compare hi))
      match ge, le with
      | some false, _ => some false
      | _, some false => some false
      | some true, some true => some true
      | _, _ => none
  | .inList expr list =>
    let v := evalValue ex expr row schema
    let items := list.map (fun item => evalValue ex item row schema)
    if v.isNull then none
    else if items.any (fun iv => !iv.isNull && v.compare iv == some .eq) then some true
    else if items.any Value.isNull then none
    else some false
  | expr => truth (evalValue ex expr row schema)

def evalPredicate (ex : Expressions Q J) (expr : Expr Q) (row : List (Value J))
    (schema : Schema (Value J)) : Bool :=
  (evalPredicateTri ex row schema expr).getD false

def Satisfies (op : BinOp) (v l : Value J) : Bool :=
  !v.isNull && !l.isNull && opHolds op (v.compare l)

lemma evalPredicate_comparison (ex : Expressions Q J) {op : BinOp} (hop : isComparison op = true)
    (left right : Expr Q) (row : List (Value J)) (schema : Schema (Value J)) :
    evalPredicate ex (.binaryOp left op right) row schema =
      Satisfies op (evalValue ex left row schema) (evalValue ex right row schema) := by
  rw [evalPredicate, evalPredicateTri.eq_def, Satisfies]
  cases op with
  | eq | neq | lt | gt | lte | gte =>
    dsimp only
    cases (evalValue ex left row schema).isNull <;> cases (evalValue ex right row schema).isNull <;>
      rfl
  | _ => cases hop

end

def flipOp : BinOp → BinOp
  | .lt => .gt
  | .gt => .lt
  | .lte => .gte
  | .gte => .lte
  | op => op

lemma isComparison_flip (op : BinOp) : isComparison (flipOp op) = isComparison op := by
  cases op <;> rfl

lemma opHolds_flip (op : BinOp) (c : Option Ordering) :
    opHolds (flipOp op) (c.map Ordering.swap) = opHolds op c := by
  rcases c with _ | _ | _ | _ <;> cases op <;> rfl

@[simp] lemma compareSigned_swap {w : ℕ} (a b : BitVec w) :
    (compareSigned a b).swap = compareSigned b a :=
  Int.compare_swap _ _

@[simp] lemma partialCmp_swap (a b : BitVec 64) :
    (F64.partialCmp a b).map Ordering.swap = F64.partialCmp b a := by
  rw [F64.partialCmp, F64.partialCmp, Bool.or_comm (F64.isNan b)]
  split
  · rfl
  · rw [Option.map_some, Int.compare_swap]

@[simp] lemma compareBytes_swap (a b : Bytes) :
    (Value.compareBytes a b).swap = Value.compareBytes b a :=
  Std.OrientedOrd.eq_swap.symm

lemma decimalAlign_swap (a : BitVec 128) (sa : UInt8) (b : BitVec 128) (sb : UInt8) :
    decimalAlign b sb a sa = (decimalAlign a sa b sb).swap := by
  rw [decimalAlign, decimalAlign]
  by_cases h : sa = sb
  · rw [if_pos h, if_pos h.symm]
    rfl
  rw [if_neg h, if_neg (Ne.symm h)]
  rcases lt_or_gt_of_ne h with hlt | hlt
  · rw [if_pos hlt, if_neg (not_lt.mpr hlt.le)]
    rfl
  · rw [if_pos hlt, if_neg (not_lt.mpr hlt.le)]
    rfl

lemma Value.compare_swap {J : Type} (v l : Value J) :
    l.compare v = (v.compare l).map Ordering.swap := by
  cases v with
  | null => cases l <;> rfl
  | bool a =>
    cases l with
    | bool b => exact congrArg some Std.OrientedOrd.eq_swap
    | _ => rfl
  | decimal a sa =>
    cases l with
    | decimal b sb => simp [Value.compare, decimalAlign_swap a sa b sb]
    | int64 b => simp [Value.compare, Function.comp_def]
    | _ => rfl
  | int64 a => cases l <;> simp [Value.compare, Function.comp_def]
  | float64 | text | bytes | timestamp | date | uuid => cases l <;> simp [Value.compare]
  | json | interval => cases l <;> rfl

lemma satisfies_flip {J : Type} (op : BinOp) (v l : Value J) :
    Satisfies (flipOp op) v l = Satisfies op l v := by
  rw [Satisfies, Satisfies, ← opHolds_flip op, ← Value.compare_swap, Bool.and_comm (!v.isNull)]

end ByteDB.Tuple
